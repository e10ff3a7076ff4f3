import PhpTree.Proofs.Faithful.Forms
import PhpTree.Proofs.Faithful.Text
import PhpTree.Proofs.Heights
import PhpTree.Tree.Json

/-! # The JSON text says everything

A JSON value can be read back from its text: the first character tells what sort of
value it is, a quoted text and a number show where they end, and a comma or a new line
tells whether another element follows.  The value of a node holds its construct, what it
carries and its children, so two nodes with the same text are the same node. -/
set_option autoImplicit false
namespace PhpTree
namespace Json

/-! ## Strings -/

def readControl : List Char → Option (Char × List Char)
  | _ :: _ :: high :: low :: rest =>
    some (Char.ofNat (16 * digitValue high + digitValue low), rest)
  | _ => none

theorem readControl_controlDigits {code : Nat} (small : code < 32) (rest : List Char) :
    readControl (['0', '0'] ++ controlDigits code ++ rest) = some (Char.ofNat code, rest) := by
  have high := (digitChar_spec (code / 16) (by omega)).1
  have low := (digitChar_spec (code % 16) (by omega)).1
  simp only [controlDigits, List.cons_append, List.nil_append, readControl, high, low]
  rw [Nat.div_add_mod code 16]

def marks : List (Char × Char) :=
  [('n', '\n'), ('r', '\r'), ('t', '\t'), ('b', Char.ofNat 8), ('f', Char.ofNat 12)]

theorem escape_reverses : Reverses escape (readEscaped marks readControl) := by
  refine Reverses.of_spelling fun character => ?_
  have back := Char.ofNat_toNat character
  unfold escape
  split_ifs with quote backslash newline carriage tab backspace formFeed control
  · exact .marked '"' (by decide) (by rw [quote]; rfl)
  · exact .marked '\\' (by decide) (by rw [backslash]; rfl)
  · exact .marked 'n' (by decide) (by rw [newline]; rfl)
  · exact .marked 'r' (by decide) (by rw [carriage]; rfl)
  · exact .marked 't' (by decide) (by rw [tab]; rfl)
  · exact .marked 'b' (by decide) (by rw [← back, backspace]; rfl)
  · exact .marked 'f' (by decide) (by rw [← back, formFeed]; rfl)
  · refine .coded (['0', '0'] ++ controlDigits character.toNat) fun rest => ?_
    rw [readControl_controlDigits control, back]
  · exact .itself quote backslash

theorem writeString_inj {text other : String} {rest others : List Char}
    (same : writeString text rest = writeString other others) : text = other ∧ rest = others := by
  obtain ⟨texts, rests⟩ := escape_reverses.quoted_inj (List.cons.inj same).2
  exact ⟨String.toList_injective texts, rests⟩

/-! ## Values -/

/-- The first character of a value, with one digit standing for all. -/
def lead : Json → Char
  | .null => 'n'
  | .bool true => 't'
  | .bool false => 'f'
  | .number _ => '0'
  | .string _ => '"'
  | .array _ => '['
  | .object _ => '\x7b'

theorem head_write (level : Nat) (value : Json) (rest : List Char) :
    (write level value rest).head?.map (fun first => if first.isDigit then '0' else first) =
      some value.lead := by
  cases value with
  | number value =>
      obtain ⟨first, digits, written⟩ :=
        List.exists_cons_of_ne_nil (Nat.toDigits_ne_nil (n := value) (b := 10))
      have digit : first.isDigit = true :=
        Nat.isDigit_of_mem_toDigits (by decide) (by decide) (written ▸ List.mem_cons_self ..)
      change (Nat.toDigits 10 value ++ rest).head?.map _ = some '0'
      simp [written, digit]
  | bool value => cases value <;> rfl
  | array items => cases items <;> rfl
  | object members => cases members <;> rfl
  | _ => rfl

theorem lead_eq_of_write {level : Nat} {value other : Json} {rest others : List Char}
    (same : write level value rest = write level other others) : value.lead = other.lead := by
  have heads := head_write level value rest
  rw [same, head_write] at heads
  exact (Option.some.inj heads).symm

theorem stops_writeItems (level : Nat) (items : List Json) (rest : List Char) :
    StopsWord isHexDigit (writeItems level items ('\n' :: rest)) := by
  cases items <;> exact .cons (by decide)

theorem stops_writeMembers (level : Nat) (members : List (String × Json))
    (rest : List Char) : StopsWord isHexDigit (writeMembers level members ('\n' :: rest)) := by
  cases members <;> exact .cons (by decide)

theorem newline_inj {level : Nat} {rest others : List Char}
    (same : newline level rest = newline level others) : rest = others :=
  List.append_cancel_left (List.cons.inj same).2

mutual

/-- A value and what comes after it can be told from the text. -/
theorem write_inj (level : Nat) (value : Json) {other : Json} {rest others : List Char}
    (ends : StopsWord isHexDigit rest) (otherEnds : StopsWord isHexDigit others)
    (same : write level value rest = write level other others) :
    value = other ∧ rest = others := by
  have leads := lead_eq_of_write same
  match value with
  | .null =>
      cases other with
      | null => exact ⟨rfl, List.append_cancel_left same⟩
      | bool other => cases other <;> cases leads
      | _ => cases leads
  | .bool value =>
      cases other with
      | bool other =>
          obtain rfl : value = other := by
            cases value <;> cases other <;> first | rfl | cases leads
          cases value <;> exact ⟨rfl, List.append_cancel_left same⟩
      | _ => cases value <;> cases leads
  | .number value =>
      cases other with
      | number other =>
          obtain ⟨rfl, rests⟩ := toDigits_append_inj (by decide) (by decide) ends otherEnds same
          exact ⟨rfl, rests⟩
      | bool other => cases other <;> cases leads
      | _ => cases leads
  | .string value =>
      cases other with
      | string other =>
          obtain ⟨rfl, rests⟩ := writeString_inj same
          exact ⟨rfl, rests⟩
      | bool other => cases other <;> cases leads
      | _ => cases leads
  | .array values =>
      cases other with
      | array others =>
          match values, others with
          | [], [] => exact ⟨rfl, (List.cons.inj (List.cons.inj same).2).2⟩
          | [], _ :: _ => cases (List.cons.inj (List.cons.inj same).2).1
          | _ :: _, [] => cases (List.cons.inj (List.cons.inj same).2).1
          | item :: items, other :: others =>
              obtain ⟨rfl, tails⟩ := write_inj (level + 1) item (stops_writeItems _ _ _)
                (stops_writeItems _ _ _) (newline_inj (List.cons.inj same).2)
              obtain ⟨rfl, closings⟩ := writeItems_inj (level + 1) items tails
              exact ⟨rfl, (List.cons.inj (List.append_cancel_left closings)).2⟩
      | bool other => cases other <;> cases leads
      | _ => cases leads
  | .object values =>
      cases other with
      | object others =>
          match values, others with
          | [], [] => exact ⟨rfl, (List.cons.inj (List.cons.inj same).2).2⟩
          | [], _ :: _ => cases (List.cons.inj (List.cons.inj same).2).1
          | _ :: _, [] => cases (List.cons.inj (List.cons.inj same).2).1
          | member :: members, other :: others =>
              obtain ⟨rfl, tails⟩ := writeMember_inj (level + 1) member
                (stops_writeMembers _ _ _) (stops_writeMembers _ _ _)
                (newline_inj (List.cons.inj same).2)
              obtain ⟨rfl, closings⟩ := writeMembers_inj (level + 1) members tails
              exact ⟨rfl, (List.cons.inj (List.append_cancel_left closings)).2⟩
      | bool other => cases other <;> cases leads
      | _ => cases leads
termination_by structural value

theorem writeItems_inj (level : Nat) (items : List Json) {others : List Json}
    {rest otherRest : List Char}
    (same : writeItems level items ('\n' :: rest) = writeItems level others ('\n' :: otherRest)) :
    items = others ∧ rest = otherRest := by
  match items, others with
  | [], [] => exact ⟨rfl, (List.cons.inj same).2⟩
  | [], _ :: _ => cases (List.cons.inj same).1
  | _ :: _, [] => cases (List.cons.inj same).1
  | item :: items, other :: others =>
      obtain ⟨rfl, tails⟩ := write_inj level item (stops_writeItems _ _ _)
        (stops_writeItems _ _ _) (newline_inj (List.cons.inj same).2)
      obtain ⟨rfl, rests⟩ := writeItems_inj level items tails
      exact ⟨rfl, rests⟩
termination_by structural items

theorem writeMember_inj (level : Nat) (member : String × Json) {other : String × Json}
    {rest others : List Char} (ends : StopsWord isHexDigit rest)
    (otherEnds : StopsWord isHexDigit others)
    (same : writeMember level member rest = writeMember level other others) :
    member = other ∧ rest = others := by
  match member, other with
  | (key, value), (otherKey, other) =>
      obtain ⟨rfl, values⟩ := writeString_inj same
      obtain ⟨rfl, rests⟩ := write_inj level value ends otherEnds
        (List.cons.inj (List.cons.inj values).2).2
      exact ⟨rfl, rests⟩
termination_by structural member

theorem writeMembers_inj (level : Nat) (members : List (String × Json))
    {others : List (String × Json)} {rest otherRest : List Char}
    (same : writeMembers level members ('\n' :: rest) =
      writeMembers level others ('\n' :: otherRest)) :
    members = others ∧ rest = otherRest := by
  match members, others with
  | [], [] => exact ⟨rfl, (List.cons.inj same).2⟩
  | [], _ :: _ => cases (List.cons.inj same).1
  | _ :: _, [] => cases (List.cons.inj same).1
  | member :: members, other :: others =>
      obtain ⟨rfl, tails⟩ := writeMember_inj level member (stops_writeMembers _ _ _)
        (stops_writeMembers _ _ _) (newline_inj (List.cons.inj same).2)
      obtain ⟨rfl, rests⟩ := writeMembers_inj level members tails
      exact ⟨rfl, rests⟩
termination_by structural members

end

theorem pretty_inj {value other : Json} (same : value.pretty = other.pretty) : value = other :=
  (write_inj 0 value .nil .nil (String.ofList_injective same)).1

end Json

/-! ## What a node carries -/

theorem Position.toJson_injective : Function.Injective Position.toJson := by
  intro position other same
  cases position
  cases other
  simpa [toJson] using same

theorem positionMember_injective : Function.Injective positionMember := by
  intro position other same
  cases position with
  | none =>
      cases other with
      | none => rfl
      | some other => cases same
  | some position =>
      cases other with
      | none => cases same
      | some other =>
          rw [Position.toJson_injective (Prod.mk.inj (List.cons.inj same).1).2]

theorem Comment.toJson_injective : Function.Injective Comment.toJson := by
  intro comment other same
  obtain ⟨texts, members⟩ := List.cons.inj (Json.object.inj same)
  have positions := positionMember_injective members
  cases comment
  cases other
  rw [Comment.mk.injEq]
  exact ⟨Json.string.inj (Prod.mk.inj texts).2, positions⟩

theorem AttributeValue.toJson_injective : Function.Injective AttributeValue.toJson := by
  intro value other same
  cases value with
  | flag isSet =>
      cases other <;> cases same
      rfl
  | text value =>
      cases other <;> cases same
      rfl
  | comments list =>
      cases other with
      | comments others => rw [Comment.toJson_injective.list_map (Json.array.inj same)]
      | _ => cases same

namespace Attributes

theorem slots_injective : Function.Injective slots := by
  intro attributes other same
  obtain ⟨flags, others⟩ := List.append_inj same (by simp)
  have docs := (Prod.mk.inj (List.cons.inj others).1).2
  have lists := (Prod.mk.inj (List.cons.inj (List.cons.inj others).2).1).2
  refine eq_of_parts (flags_inj (fun _ _ => AttributeValue.flag.inj) flags)
    (Option.map_injective (fun _ _ => AttributeValue.text.inj) docs) ?_
  rw [← comments?_getD, Option.map_injective (fun _ _ => AttributeValue.comments.inj) lists,
    comments?_getD]

theorem entries_injective : Function.Injective entries := by
  intro attributes other same
  have distinct : (attributes.slots.map Prod.fst).Nodup :=
    (by decide : (({} : Attributes).slots.map Prod.fst).Nodup)
  exact slots_injective (present_inj rfl distinct same)

theorem toJson_injective : Function.Injective Attributes.toJson := by
  intro attributes other same
  refine entries_injective (Function.Injective.list_map ?_ (Json.object.inj same))
  intro entry another pairs
  exact Prod.ext (Prod.mk.inj pairs).1 (AttributeValue.toJson_injective (Prod.mk.inj pairs).2)

theorem member_injective : Function.Injective fun attributes : Attributes =>
    if attributes.isEmpty then none else some attributes.toJson := by
  intro attributes other same
  cases empty : attributes.isEmpty with
  | true =>
      cases otherEmpty : other.isEmpty with
      | true =>
          rw [isEmpty, List.isEmpty_iff] at empty otherEmpty
          exact entries_injective (empty.trans otherEmpty.symm)
      | false => simp [empty, otherEmpty] at same
  | false =>
      cases otherEmpty : other.isEmpty with
      | true => simp [empty, otherEmpty] at same
      | false =>
          simp only [empty, otherEmpty, Bool.false_eq_true, if_false] at same
          exact toJson_injective (Option.some.inj same)

end Attributes

/-! ## Nodes -/

/-- A child of a slot is an object, a missing one is `null`, and a list is an array. -/
def Field.json (field : Field Node) : Json := (field.map fun node _ => node.toJson).toJson

namespace Node

def jsonSlots (node : Node) : List (String × Option Json) :=
  [("kind", some (.string node.kindName)),
    ("attributes", if node.attributes.isEmpty then none else some node.attributes.toJson),
    ("position", node.position.map Position.toJson),
    ("op", node.form.compoundOp?.map fun op => .string op.name), ("value", node.text?.map .string)]

theorem present_jsonSlots (node : Node) :
    present node.jsonSlots = ("kind", .string node.kindName) ::
      (attributesMember node.attributes ++ positionMember node.position ++ ownMembers node) := by
  unfold jsonSlots attributesMember positionMember ownMembers
  cases node.attributes.isEmpty <;> cases node.position <;> cases node.form.compoundOp? <;>
    cases node.text? <;> rfl

theorem toJson_eq (node : Node) :
    node.toJson = .object (present node.jsonSlots ++
      node.form.fields.map fun field => (field.1.name, field.2.json)) := by
  cases node with
  | mk info form =>
      rw [toJson, fold_mk, jsonStep, Form.fields_map, List.map_map, present_jsonSlots]
      rfl

theorem isObject_toJson (node : Node) : ∃ members, node.toJson = .object members :=
  ⟨_, node.toJson_eq⟩

theorem name_not_mem_jsonSlots (node : Node) (slot : Slot) :
    slot.name ∉ node.jsonSlots.map Prod.fst := by
  change slot.name ∉ ["kind", "attributes", "position", "op", "value"]
  cases slot <;> decide

end Node

theorem Field.json_inj {field other : Field Node}
    (children : ∀ child ∈ field.toList, ∀ node, child.toJson = node.toJson → child = node)
    (same : field.json = other.json) : field = other := by
  cases field with
  | single child =>
      cases child with
      | none =>
          cases other with
          | single other =>
              cases other with
              | none => rfl
              | some node =>
                  obtain ⟨members, object⟩ := node.isObject_toJson
                  cases same.trans object
          | list others => cases same
      | some child =>
          obtain ⟨members, object⟩ := child.isObject_toJson
          cases other with
          | single other =>
              cases other with
              | none => cases object.symm.trans same
              | some node => rw [children child (by simp [toList]) node same]
          | list others => cases object.symm.trans same
  | list nodes =>
      cases other with
      | single other =>
          cases other with
          | none => cases same
          | some node =>
              obtain ⟨members, object⟩ := node.isObject_toJson
              cases same.trans object
      | list others =>
          have items : nodes.map Node.toJson = others.map Node.toJson := by
            simpa [json, map, toJson, Function.comp_def] using same
          exact congrArg Field.list (map_inj_of_forall_mem children items)

namespace Node

theorem jsonSlots_inj {node other : Node} (same : node.jsonSlots = other.jsonSlots) :
    node.info = other.info ∧ node.label = other.label ∧ node.text? = other.text? := by
  obtain ⟨⟨attributes, position⟩, form⟩ := node
  obtain ⟨⟨otherAttributes, otherPosition⟩, otherForm⟩ := other
  simp only [jsonSlots, List.cons.injEq, Prod.mk.injEq, true_and, and_true] at same
  obtain ⟨kinds, attributesEqual, positions, ops, texts⟩ := same
  have opsEqual : form.compoundOp? = otherForm.compoundOp? :=
    Option.map_injective (fun _ _ equal => AssignOp.name_inj (Json.string.inj equal)) ops
  have labels : form.label = otherForm.label := by
    rw [form.label_eq, otherForm.label_eq, opsEqual]
    exact congrArg _ (Json.string.inj (Option.some.inj kinds))
  refine ⟨?_, labels, Option.map_injective (fun _ _ => Json.string.inj) texts⟩
  exact congrArg₂ Info.mk (Attributes.member_injective attributesEqual)
    (Option.map_injective Position.toJson_injective positions)

theorem toJson_injective : Function.Injective toJson := by
  intro node
  induction node using Node.induction with
  | step node inductionHypothesis =>
      intro other same
      rw [toJson_eq, toJson_eq] at same
      have keys : node.jsonSlots.map Prod.fst = other.jsonSlots.map Prod.fst := rfl
      have distinct : (node.jsonSlots.map Prod.fst).Nodup :=
        (by decide : ["kind", "attributes", "position", "op", "value"].Nodup)
      have apart : ∀ entry ∈ (node.form.fields.map fun field => (field.1.name, field.2.json)) ++
          other.form.fields.map fun field => (field.1.name, field.2.json),
          entry.1 ∉ node.jsonSlots.map Prod.fst := by
        intro entry member
        rw [← List.map_append] at member
        obtain ⟨field, _, rfl⟩ := List.mem_map.mp member
        exact name_not_mem_jsonSlots node field.1
      obtain ⟨slots, members⟩ := present_append_inj keys distinct apart (Json.object.inj same)
      obtain ⟨infos, labels, texts⟩ := jsonSlots_inj slots
      have fields : node.form.fields = other.form.fields := by
        refine map_inj_of_forall_mem (fun field member field' pairs => ?_) members
        have known := Field.json_inj (fun child inside => inductionHypothesis child
          (List.mem_flatMap.mpr ⟨field, member, inside⟩)) (Prod.mk.inj pairs).2
        exact Prod.ext (Slot.name_inj (Prod.mk.inj pairs).1) known
      have forms := Form.eq_of_fields labels texts fields
      cases node
      cases other
      exact congrArg₂ Node.mk infos forms

/-- Two nodes have the same JSON text only if they are the same node. -/
theorem jsonText_eq_iff (node other : Node) : node.jsonText = other.jsonText ↔ node = other :=
  ⟨fun same => toJson_injective (Json.pretty_inj same), congrArg jsonText⟩

end Node
end PhpTree
