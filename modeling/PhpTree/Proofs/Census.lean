import Mathlib.Algebra.Ring.Nat
import PhpTree.Proofs.Faithful.Json
import PhpTree.Proofs.Pruning
import PhpTree.Tree.SExpr

/-! # A walk and the JSON value take the same census

A walk shows the nodes of a tree to a visitor, and the JSON value of the tree holds an
object for each of them, among objects for attributes, comments and positions.  The
objects of nodes are those with a key `kind`.  What such an object says of its node is
read back from it, so that the two lists can be compared entry by entry. -/
set_option autoImplicit false
namespace PhpTree

structure CensusEntry where
  kind : String
  text : Option String
  position : Option Position
  attributes : Attributes
deriving DecidableEq

def Node.censusEntry (node : Node) : CensusEntry where
  kind := node.kindName
  text := node.text?
  position := node.position
  attributes := node.attributes

/-! ## What is stored in a form -/

theorem sizeOf_option_eq {α : Type} [SizeOf α] (child : Option α) :
    sizeOf child = sizeOf (child.map fun _ => 0) + (child.toList.map sizeOf).sum := by
  cases child <;> simp

theorem sizeOf_list_eq {α : Type} [SizeOf α] (children : List α) :
    sizeOf children = sizeOf (children.map fun _ => 0) + (children.map sizeOf).sum := by
  induction children with
  | nil => rfl
  | cons child rest inductionHypothesis =>
      simp only [List.map_cons, List.cons.sizeOf_spec, List.sum_cons, inductionHypothesis,
        sizeOf_nat]
      omega

/-- The size of a form, which comes with its type, counts whatever is stored in it once. So none of
that is missing from the children and none is there twice, by any measure of them. -/
theorem Form.sizeOf_eq_sum {α : Type} [SizeOf α] (form : Form α) :
    sizeOf form = sizeOf (form.map fun _ => 0) + (form.children.map sizeOf).sum := by
  have option := @sizeOf_option_eq α _
  have list := @sizeOf_list_eq α _
  cases form
  all_goals simp [map, children, fields, Field.toList, option, list]
  all_goals omega

/-! ## Walks that refuse nothing -/

section Views
variable {Scope State Place Found : Type}

/-- On what `place` and `found` show of scopes and states, the other visitor does what they show of
this one. -/
structure Visitor.SeenAs (visitor : Visitor Scope State) (other : Visitor Place Found)
    (place : Scope → Place) (found : State → Found) : Prop where
  enter : ∀ scope node state, other.enter (place scope) node (found state) =
    ((visitor.enter scope node state).1, found (visitor.enter scope node state).2)
  descend : ∀ scope slot state, other.descend (place scope) slot (found state) =
    (place (visitor.descend scope slot state).1, found (visitor.descend scope slot state).2)
  leave : ∀ scope node state,
    other.leave (place scope) node (found state) = found (visitor.leave scope node state)

theorem foldl_seen {α : Type} {found : State → Found} {step : State → α → State}
    {seen : Found → α → Found} {items : List α}
    (each : ∀ item ∈ items, ∀ state, seen (found state) item = found (step state item)) :
    ∀ state, items.foldl seen (found state) = found (items.foldl step state) := by
  induction items with
  | nil => exact fun _ => rfl
  | cons item rest inductionHypothesis =>
      intro state
      rw [List.foldl_cons, List.foldl_cons, each item List.mem_cons_self]
      exact inductionHypothesis (fun other member => each other (List.mem_cons_of_mem _ member)) _

/-- What is shown of a walk is the walk of the other visitor. -/
theorem Visitor.SeenAs.walk {visitor : Visitor Scope State} {other : Visitor Place Found}
    {place : Scope → Place} {found : State → Found} (seenAs : visitor.SeenAs other place found)
    (node : Node) : ∀ (scope : Scope) (state : State),
      node.walk other (place scope) (found state) = found (node.walk visitor scope state) := by
  induction node using Node.induction with
  | step node inductionHypothesis =>
      intro scope state
      -- The children are walked in the scope of their slot, so the hypothesis serves every scope.
      have children : ∀ field ∈ node.form.reported, ∀ inner state,
          field.2.toList.foldl (fun state child => child.walk other (place inner) state)
            (found state) =
          found (field.2.toList.foldl (fun state child => child.walk visitor inner state) state) :=
        fun field reported inner => foldl_seen fun child inside =>
          inductionHypothesis child (Form.mem_children_of_reported reported inside) inner
      have slots : ∀ state, node.form.reported.foldl (fun before field => field.2.toList.foldl
            (fun state child =>
              child.walk other (other.descend (place scope) field.1 before).1 state)
            (other.descend (place scope) field.1 before).2) (found state) =
          found (node.form.reported.foldl (fun before field => field.2.toList.foldl
            (fun state child => child.walk visitor (visitor.descend scope field.1 before).1 state)
            (visitor.descend scope field.1 before).2) state) := by
        refine foldl_seen fun field reported before => ?_
        rw [seenAs.descend, children field reported]
      rw [Node.walk_eq other, Node.walk_eq visitor, seenAs.enter]
      split
      · rw [slots, seenAs.leave]
      · rfl

end Views

section Walks
variable {Scope State : Type}

/-- The same visitor, which also notes the nodes it enters, newest first. -/
def Visitor.noting (visitor : Visitor Scope State) : Visitor Scope (State × List Node) where
  enter scope node state :=
    ((visitor.enter scope node state.1).1, (visitor.enter scope node state.1).2, node :: state.2)
  descend scope slot state :=
    ((visitor.descend scope slot state.1).1, (visitor.descend scope slot state.1).2, state.2)
  leave scope node state := (visitor.leave scope node state.1, state.2)

/-- The nodes that are entered in a walk, in order. -/
def Node.entered (node : Node) (visitor : Visitor Scope State) (scope : Scope) (state : State) :
    List Node :=
  (node.walk visitor.noting scope (state, [])).2.reverse

theorem Node.walk_noting (node : Node) (visitor : Visitor Scope State) (scope : Scope)
    (state : State) :
    (node.walk visitor.noting scope (state, [])).1 = node.walk visitor scope state :=
  have seenAs : visitor.noting.SeenAs visitor id Prod.fst :=
    ⟨fun _ _ _ => rfl, fun _ _ _ => rfl, fun _ _ _ => rfl⟩
  (seenAs.walk node scope (state, [])).symm

/-- A walk that refuses nothing enters all nodes of the tree, whatever else the visitor does. -/
theorem Node.entered_eq_nodes {visitor : Visitor Scope State}
    (admits : ∀ scope node state, (visitor.enter scope node state).1 = true) (node : Node)
    (scope : Scope) (state : State) : node.entered visitor scope state = node.nodes := by
  have seenAs : visitor.noting.SeenAs collector (fun _ => ()) Prod.snd :=
    ⟨fun scope node state => by simp [collector, Visitor.noting, admits], fun _ _ _ => rfl,
      fun _ _ _ => rfl⟩
  rw [entered, ← seenAs.walk, nodes]

end Walks

theorem Node.nodes_perm_subtrees (node : Node) : node.nodes.Perm node.subtrees := by
  induction node using Node.induction with
  | step node inductionHypothesis =>
      rw [subtrees_eq]
      exact node.nodes_perm.trans ((List.Perm.flatMap_left _ inductionHypothesis).cons node)

/-! ## Reading a JSON value -/

namespace Json

def bool? : Json → Option Bool
  | .bool value => some value
  | _ => none

@[simp]
theorem bool?_bool (value : Bool) : (Json.bool value).bool? = some value := rfl

def number? : Json → Option Nat
  | .number value => some value
  | _ => none

def string? : Json → Option String
  | .string value => some value
  | _ => none

@[simp]
theorem string?_string (value : String) : (Json.string value).string? = some value := rfl

def items? : Json → Option (List Json)
  | .array items => some items
  | _ => none

def member? (key : String) : Json → Option Json
  | .object members => members.lookup key
  | _ => none

mutual

/-- All objects in a value, itself included. -/
def objects : Json → List Json
  | .array items => objectsOfItems items
  | .object members => .object members :: objectsOfMembers members
  | _ => []

def objectsOfItems : List Json → List Json
  | [] => []
  | item :: items => objects item ++ objectsOfItems items

def objectsOfMember : String × Json → List Json
  | (_, value) => objects value

def objectsOfMembers : List (String × Json) → List Json
  | [] => []
  | member :: members => objectsOfMember member ++ objectsOfMembers members

end

/-- The objects with a key `kind`. -/
def kindObjects (json : Json) : List Json :=
  json.objects.filter fun object => (object.member? "kind").isSome

theorem objectsOfItems_eq (items : List Json) : objectsOfItems items = items.flatMap objects := by
  induction items with
  | nil => rfl
  | cons item items inductionHypothesis =>
      rw [objectsOfItems, inductionHypothesis, List.flatMap_cons]

theorem objectsOfMembers_eq (members : List (String × Json)) :
    objectsOfMembers members = members.flatMap fun member => member.2.objects := by
  induction members with
  | nil => rfl
  | cons member members inductionHypothesis =>
      rw [objectsOfMembers, inductionHypothesis, List.flatMap_cons, objectsOfMember]

theorem kindObjects_array (items : List Json) :
    (Json.array items).kindObjects = items.flatMap kindObjects := by
  rw [kindObjects, objects, objectsOfItems_eq, List.filter_flatMap]
  rfl

theorem kindObjects_object (members : List (String × Json)) :
    (Json.object members).kindObjects =
      (if (members.lookup "kind").isSome then [.object members] else []) ++
        members.flatMap fun member => member.2.kindObjects := by
  have inner : members.flatMap (fun member => member.2.kindObjects) =
      (members.flatMap fun member => member.2.objects).filter
        fun object => (object.member? "kind").isSome := by
    rw [List.filter_flatMap]
    rfl
  rw [inner, kindObjects, objects, objectsOfMembers_eq, List.filter_cons, member?]
  split <;> rfl

theorem kindObjects_plain {members : List (String × Json)}
    (plain : "kind" ∉ members.map Prod.fst)
    (inner : ∀ member ∈ members, member.2.kindObjects = []) :
    (Json.object members).kindObjects = [] := by
  have missing : members.lookup "kind" = none := by
    rw [List.lookup_eq_none_iff]
    intro member inside
    exact bne_iff_ne.mpr fun same => plain (same ▸ List.mem_map_of_mem inside)
  rw [kindObjects_object, missing, List.flatMap_eq_nil_iff.mpr inner]
  rfl

end Json

/-! ## Reading back what a node carries -/

theorem mapM_map_eq {α : Type} {write : α → Json} {read : Json → Option α}
    (reads : ∀ value, read (write value) = some value) (value : Option α) :
    (value.map write).mapM read = some value := by
  cases value <;> simp [reads]

def Position.ofJson? (json : Json) : Option Position := do
  let startLine ← (json.member? "startLine").bind Json.number?
  let endLine ← (json.member? "endLine").bind Json.number?
  let startOffset ← (json.member? "startPos").bind Json.number?
  let endOffset ← (json.member? "endPos").bind Json.number?
  return { startLine, endLine, startOffset, endOffset }

@[simp]
theorem Position.ofJson?_toJson (position : Position) : ofJson? position.toJson = some position :=
  rfl

def Comment.ofJson? (json : Json) : Option Comment := do
  let value ← (json.member? "value").bind Json.string?
  let position ← (json.member? "position").mapM Position.ofJson?
  return { value, position }

@[simp]
theorem Comment.ofJson?_toJson (comment : Comment) : ofJson? comment.toJson = some comment := by
  obtain ⟨value, position⟩ := comment
  cases position <;> rfl

def Comment.listOfJson? (json : Json) : Option (List Comment) :=
  json.items?.bind fun items => items.mapM ofJson?

theorem Comment.listOfJson?_array (list : List Comment) :
    listOfJson? (.array (list.map toJson)) = some list := by
  change (list.map toJson).mapM ofJson? = some list
  induction list with
  | nil => rfl
  | cons comment rest inductionHypothesis => simp [inductionHypothesis]

namespace Attributes

def jsonSlots (attributes : Attributes) : List (String × Option Json) :=
  attributes.slots.map fun slot => (slot.1, slot.2.map AttributeValue.toJson)

theorem toJson_eq (attributes : Attributes) :
    attributes.toJson = .object (present attributes.jsonSlots) := by
  rw [toJson, jsonSlots, ← present_map]
  rfl

def ofJson? (json : Json) : Option Attributes := do
  let byRef ← (json.member? "byRef").mapM Json.bool?
  let variadic ← (json.member? "variadic").mapM Json.bool?
  let static ← (json.member? "static").mapM Json.bool?
  let returnsRef ← (json.member? "returnsRef").mapM Json.bool?
  let docComment ← (json.member? "phpDocComment").mapM Json.string?
  let comments ← (json.member? "comments").mapM Comment.listOfJson?
  return { byRef, variadic, static, returnsRef, docComment, comments := comments.getD [] }

theorem mapM_member?_toJson {α : Type} {attributes : Attributes} {key : String} {value : Option α}
    {write : α → Json} {read : Json → Option α}
    (slot : (key, value.map write) ∈ attributes.jsonSlots)
    (reads : ∀ value, read (write value) = some value) :
    (attributes.toJson.member? key).mapM read = some value := by
  have distinct : (attributes.jsonSlots.map Prod.fst).Nodup :=
    (by decide : (({} : Attributes).jsonSlots.map Prod.fst).Nodup)
  have found : (present attributes.jsonSlots ++ []).lookup key = value.map write :=
    lookup_present_append distinct (List.forall_mem_nil _) slot
  rw [List.append_nil] at found
  rw [toJson_eq, Json.member?, found, mapM_map_eq reads]

theorem flag_toJson (attributes : Attributes) (flag : Flag) :
    (attributes.toJson.member? flag.name).mapM Json.bool? = some (attributes.flag? flag) := by
  have slot : (flag.name, (attributes.flag? flag).map Json.bool) ∈ attributes.jsonSlots := by
    cases flag <;> simp [jsonSlots, slots, Flag.all, AttributeValue.toJson, Function.comp_def]
  exact mapM_member?_toJson slot Json.bool?_bool

theorem docComment_toJson (attributes : Attributes) :
    (attributes.toJson.member? "phpDocComment").mapM Json.string? = some attributes.docComment := by
  have slot : ("phpDocComment", attributes.docComment.map Json.string) ∈ attributes.jsonSlots := by
    simp [jsonSlots, slots, AttributeValue.toJson, Function.comp_def]
  exact mapM_member?_toJson slot Json.string?_string

theorem comments_toJson (attributes : Attributes) :
    (attributes.toJson.member? "comments").mapM Comment.listOfJson? =
      some attributes.comments? := by
  have slot : ("comments", attributes.comments?.map fun list =>
      Json.array (list.map Comment.toJson)) ∈ attributes.jsonSlots := by
    simp [jsonSlots, slots, AttributeValue.toJson, Function.comp_def]
  exact mapM_member?_toJson slot Comment.listOfJson?_array

@[simp]
theorem ofJson?_toJson (attributes : Attributes) : ofJson? attributes.toJson = some attributes := by
  have byRef := attributes.flag_toJson .byRef
  have variadic := attributes.flag_toJson .variadic
  have static := attributes.flag_toJson .static
  have returnsRef := attributes.flag_toJson .returnsRef
  simp only [Flag.name] at byRef variadic static returnsRef
  simp only [ofJson?, byRef, variadic, static, returnsRef, docComment_toJson, comments_toJson,
    Option.bind_eq_bind, Option.bind_some, comments?_getD]
  rfl

end Attributes

namespace Node

theorem member?_toJson {node : Node} {key : String} {value : Option Json}
    (slot : (key, value) ∈ node.jsonSlots) : node.toJson.member? key = value := by
  have distinct : (node.jsonSlots.map Prod.fst).Nodup :=
    (by decide : ["kind", "attributes", "position", "op", "value"].Nodup)
  have apart : ∀ entry ∈ node.form.fields.map fun field => (field.1.name, field.2.json),
      entry.1 ∉ node.jsonSlots.map Prod.fst := by
    intro entry member
    obtain ⟨field, _, rfl⟩ := List.mem_map.mp member
    exact name_not_mem_jsonSlots node field.1
  rw [toJson_eq, Json.member?]
  exact lookup_present_append distinct apart slot

theorem kind_toJson (node : Node) : node.toJson.member? "kind" = some (.string node.kindName) :=
  member?_toJson (by simp [jsonSlots])

theorem text_toJson (node : Node) :
    (node.toJson.member? "value").mapM Json.string? = some node.text? := by
  have slot : ("value", node.text?.map Json.string) ∈ node.jsonSlots := by simp [jsonSlots]
  rw [member?_toJson slot, mapM_map_eq Json.string?_string]

theorem position_toJson (node : Node) :
    (node.toJson.member? "position").mapM Position.ofJson? = some node.position := by
  have slot : ("position", node.position.map Position.toJson) ∈ node.jsonSlots := by
    simp [jsonSlots]
  rw [member?_toJson slot, mapM_map_eq Position.ofJson?_toJson]

theorem attributes_toJson (node : Node) :
    ∃ attributes, (node.toJson.member? "attributes").mapM Attributes.ofJson? = some attributes ∧
      attributes.getD {} = node.attributes := by
  have slot : ("attributes", if node.attributes.isEmpty then none else
      some node.attributes.toJson) ∈ node.jsonSlots := by
    simp [jsonSlots]
  rw [member?_toJson slot]
  cases empty : node.attributes.isEmpty with
  | true =>
      have nothing : node.attributes.entries = [] := List.isEmpty_iff.mp empty
      exact ⟨none, rfl, (Attributes.entries_injective nothing).symm⟩
  | false => exact ⟨some node.attributes, by simp, rfl⟩

end Node

namespace CensusEntry

/-- Reads what the object of a node says of it. Attributes are left out when there are none. -/
def ofJson? (json : Json) : Option CensusEntry := do
  let kind ← (json.member? "kind").bind Json.string?
  let text ← (json.member? "value").mapM Json.string?
  let position ← (json.member? "position").mapM Position.ofJson?
  let attributes ← (json.member? "attributes").mapM Attributes.ofJson?
  return { kind, text, position, attributes := attributes.getD {} }

theorem ofJson?_toJson (node : Node) : ofJson? node.toJson = some node.censusEntry := by
  obtain ⟨attributes, read, same⟩ := node.attributes_toJson
  simp only [ofJson?, node.kind_toJson, node.text_toJson, node.position_toJson, read,
    Option.bind_eq_bind, Option.bind_some, same]
  rfl

end CensusEntry

/-! ## The objects of nodes -/

theorem AttributeValue.kindObjects_toJson (value : AttributeValue) :
    value.toJson.kindObjects = [] := by
  cases value with
  | flag isSet => rfl
  | text value => rfl
  | comments list =>
      rw [toJson, Json.kindObjects_array, List.flatMap_eq_nil_iff]
      intro json member
      obtain ⟨comment, _, rfl⟩ := List.mem_map.mp member
      obtain ⟨value, position⟩ := comment
      cases position <;> rfl

theorem Attributes.kindObjects_toJson (attributes : Attributes) :
    attributes.toJson.kindObjects = [] := by
  rw [toJson_eq]
  refine Json.kindObjects_plain (fun member => ?_) fun member inside => ?_
  · obtain ⟨entry, inside, same⟩ := List.mem_map.mp member
    have key := key_mem_of_mem_present inside
    rw [same] at key
    exact absurd key (by decide : "kind" ∉ ({} : Attributes).jsonSlots.map Prod.fst)
  · rw [jsonSlots, ← present_map] at inside
    obtain ⟨entry, _, rfl⟩ := List.mem_map.mp inside
    exact entry.2.kindObjects_toJson

theorem Field.kindObjects_json (field : Field Node) :
    field.json.kindObjects = field.toList.flatMap fun child => child.toJson.kindObjects := by
  cases field with
  | single child =>
      cases child with
      | none => rfl
      | some child => simp [json, map, toJson, toList]
  | list children =>
      simp [json, map, toJson, toList, Json.kindObjects_array, List.flatMap_map]

namespace Node

theorem kindObjects_jsonSlots (node : Node) :
    (present node.jsonSlots).flatMap (fun member => member.2.kindObjects) = [] := by
  have attributes :
      (attributesMember node.attributes).flatMap (fun member => member.2.kindObjects) = [] := by
    unfold attributesMember
    split
    · rfl
    · simp [Attributes.kindObjects_toJson]
  have position :
      (positionMember node.position).flatMap (fun member => member.2.kindObjects) = [] := by
    cases node.position <;> rfl
  have own : (ownMembers node).flatMap (fun member => member.2.kindObjects) = [] := by
    unfold ownMembers
    cases node.form.compoundOp? <;> cases node.text? <;> rfl
  rw [present_jsonSlots, List.flatMap_cons, List.flatMap_append, List.flatMap_append, attributes,
    position, own]
  rfl

/-- The objects of nodes are those of the nodes in the tree, one for each. -/
theorem kindObjects_toJson (node : Node) :
    node.toJson.kindObjects = node.subtrees.map toJson := by
  induction node using Node.induction with
  | step node inductionHypothesis =>
      have fields := calc
        (node.form.fields.map fun field => (field.1.name, field.2.json)).flatMap
            (fun member => member.2.kindObjects)
          = node.form.fields.flatMap fun field => field.2.toList.flatMap fun child =>
              child.toJson.kindObjects := by
            simp only [List.flatMap_map, Field.kindObjects_json]
        _ = node.form.children.flatMap fun child => child.toJson.kindObjects := by
            rw [Form.children, List.flatMap_assoc]
        _ = node.form.children.flatMap fun child => child.subtrees.map toJson :=
            List.flatMap_congr inductionHypothesis
        _ = (node.form.children.flatMap subtrees).map toJson := by rw [List.map_flatMap]
      have kind := node.kind_toJson
      rw [toJson_eq, Json.member?] at kind
      rw [subtrees_eq, List.map_cons, ← fields, node.toJson_eq, Json.kindObjects_object, kind,
        List.flatMap_append, kindObjects_jsonSlots]
      rfl

end Node

/-- A walk that refuses nothing and the JSON value of a tree have the same census: the kinds, texts,
positions and attributes of the nodes that are entered are those read from the objects with a key
`kind`, each as often. Behind both is what is stored in the tree, where every node is entered once
and written once; and the children of a form are all that is stored in it, since whatever they are
measured by, its size is made up of theirs. -/
theorem walk_and_json_agree {Scope State : Type} {visitor : Visitor Scope State}
    (admits : ∀ scope node state, (visitor.enter scope node state).1 = true) (node : Node)
    (scope : Scope) (state : State) :
    ((node.entered visitor scope state).map fun inner => some inner.censusEntry).Perm
        (node.toJson.kindObjects.map CensusEntry.ofJson?) ∧
      (node.entered visitor scope state).Perm node.subtrees ∧
      node.toJson.kindObjects = node.subtrees.map Node.toJson ∧
      ∀ {α : Type} [SizeOf α] (form : Form α),
        sizeOf form = sizeOf (form.map fun _ => 0) + (form.children.map sizeOf).sum := by
  have once : (node.entered visitor scope state).Perm node.subtrees := by
    rw [Node.entered_eq_nodes admits]
    exact node.nodes_perm_subtrees
  have read : node.toJson.kindObjects.map CensusEntry.ofJson? =
      node.subtrees.map fun inner => some inner.censusEntry := by
    rw [node.kindObjects_toJson, List.map_map]
    exact List.map_congr_left fun inner _ => CensusEntry.ofJson?_toJson inner
  exact ⟨read ▸ once.map _, once, node.kindObjects_toJson, Form.sizeOf_eq_sum⟩

theorem walk_and_json_agree_constant :
    let part : Node := .mk { position := some ⟨1, 1, 6, 7⟩ } (.leaf .namePart "A")
    let scope : Node := .mk {} (.name .unqualified [part])
    let constant : Node := .mk { attributes := { comments := [⟨"/* c */", some ⟨1, 1, 9, 16⟩⟩] } }
      (.leaf .identifier "B")
    let node : Node := .mk { attributes := { docComment := some "/** d */", byRef := some false } }
      (.classConstFetch (some scope) (some constant))
    (∀ level inner output, ((SExpr.formatter {}).enter level inner output).1 = true) ∧
      (node.entered (SExpr.formatter {}) 0 "").map Node.kindName =
        ["ClassConstFetch", "Identifier", "Name", "NamePart"] ∧
      (node.toJson.kindObjects.map fun object => (CensusEntry.ofJson? object).map (·.kind)) =
        [some "ClassConstFetch", some "Name", some "NamePart", some "Identifier"] ∧
      ((node.entered (SExpr.formatter {}) 0 "").map fun inner => some inner.censusEntry).Perm
        (node.toJson.kindObjects.map CensusEntry.ofJson?) := by
  intro part scope constant node
  have admits : ∀ level inner output, ((SExpr.formatter {}).enter level inner output).1 = true :=
    fun _ _ _ => rfl
  exact ⟨admits, by decide +kernel, by decide +kernel, (walk_and_json_agree admits node 0 "").1⟩

end PhpTree
