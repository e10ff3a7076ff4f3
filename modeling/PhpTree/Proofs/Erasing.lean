import PhpTree.Parse.Declaration
import PhpTree.Proofs.Faithful.Forms
import PhpTree.Proofs.Heights

/-! # Changing what nodes carry

A tree with the same forms, in which every node carries something else.  Leaving
positions, comments or doc comments out is a change of this kind. -/
set_option autoImplicit false
namespace PhpTree

theorem Field.map_eq_self {α : Type} {f : α → α} {field : Field α}
    (kept : ∀ child ∈ field.toList, f child = child) : field.map f = field := by
  cases field with
  | single child =>
      cases child with
      | none => rfl
      | some node => exact congrArg (fun node => single (some node)) (kept node (by simp [toList]))
  | list children => exact congrArg list ((List.map_congr_left kept).trans (List.map_id' children))

theorem Form.map_eq_self {α : Type} {f : α → α} {form : Form α} :
    form.map f = form ↔ ∀ child ∈ form.children, f child = child := by
  constructor
  · intro same
    have children := congrArg Form.children same
    rw [children_map] at children
    exact List.map_inj_left.mp (children.trans (List.map_id _).symm)
  · intro kept
    refine eq_of_fields (label_map f form) (text?_map f form) ?_
    rw [fields_map]
    refine (List.map_congr_left fun field member => ?_).trans (List.map_id' form.fields)
    exact congrArg (Prod.mk field.1) (Field.map_eq_self fun child inside =>
      kept child (List.mem_flatMap.mpr ⟨field, member, inside⟩))

def Info.bared (info : Info) : Info :=
  { attributes := { info.attributes with docComment := none, comments := [] } }

namespace Node

def mapInfo (change : Info → Info) : Node → Node :=
  fold fun node children => .mk (change node.info) (children.map fun child => child ())

theorem mapInfo_mk (change : Info → Info) (info : Info) (form : Form Node) :
    (Node.mk info form).mapInfo change = .mk (change info) (form.map (mapInfo change)) := by
  rw [mapInfo, fold_mk, Form.map_map]
  rfl

theorem mapInfo_of_settled {first second : Info → Info}
    (settled : ∀ info, second (first info) = first info) (node : Node) :
    (node.mapInfo first).mapInfo second = node.mapInfo first := by
  induction node using Node.induction with
  | step node inductionHypothesis =>
      cases node with
      | mk info form =>
          rw [mapInfo_mk, mapInfo_mk, settled]
          refine congrArg (Node.mk _) (Form.map_eq_self.mpr fun child member => ?_)
          rw [Form.children_map] at member
          obtain ⟨original, isChild, rfl⟩ := List.mem_map.mp member
          exact inductionHypothesis original isChild

theorem mapInfo_eq_self {change : Info → Info} (node : Node) :
    node.mapInfo change = node ↔ ∀ inner ∈ node.nodes, change inner.info = inner.info := by
  induction node using Node.induction with
  | step node inductionHypothesis =>
      have children := Form.map_eq_self.trans (forall₂_congr inductionHypothesis)
      have split : node.mapInfo change = node ↔
          change node.info = node.info ∧ node.form.map (mapInfo change) = node.form := by
        cases node with
        | mk info form => rw [mapInfo_mk, mk.injEq]; rfl
      rw [split, children]
      constructor
      · rintro ⟨own, below⟩ inner member
        rcases mem_nodes.mp member with rfl | ⟨child, isChild, inside⟩
        · exact own
        · exact below child isChild inner inside
      · exact fun all => ⟨all node node.self_mem_nodes, fun child isChild inner inside =>
          all inner (mem_nodes.mpr (.inr ⟨child, isChild, inside⟩))⟩

theorem comments_document (doc : Option String) (node : Node) :
    (Parse.document doc node).attributes.comments = node.attributes.comments := by
  cases doc <;> rfl

/-! ## What is left without positions, comments and doc comments -/

/-- The tree without positions, comments and doc comments: its forms and flags. -/
def skeleton : Node → Node := mapInfo Info.bared

end Node
end PhpTree
