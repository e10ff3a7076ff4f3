import PhpTree.Proofs.Descent

/-! # Heights of trees

The height of a tree is one more than that of its highest child.  Where what is called
or accessed does not count as a child, a chain of calls and accesses is as high as one
of its links. -/
set_option autoImplicit false
namespace PhpTree

/-- The slots of what is called or accessed, which was there before the node around it. -/
def Form.isChained {α : Type} : Form α → Slot → Bool
  | .functionCall .., .function | .methodCall .., .variable | .propertyFetch .., .variable |
    .staticCall .., .class | .staticPropertyFetch .., .class | .classConstFetch .., .class => true
  | _, _ => false

theorem Form.fields_map {α β : Type} (f : α → β) (form : Form α) :
    (form.map f).fields = form.fields.map fun field => (field.1, field.2.map f) := by
  cases form <;> rfl

theorem Form.children_map {α β : Type} (f : α → β) (form : Form α) :
    (form.map f).children = form.children.map f := by
  simp [children, fields_map, List.flatMap_map, List.map_flatMap]

namespace Node

/-- Nodes on the longest path down. Where a slot is free, a node and what stands there count as
one. -/
def heightBy (isFree : Form Node → Slot → Bool) : Node → Nat :=
  fold fun node children =>
    (children.fields.flatMap fun field => field.2.toList.map fun child =>
      if isFree node.form field.1 then child () else child () + 1).foldr max 1

/-- Nodes on the longest path from the node to a leaf. -/
def height : Node → Nat := heightBy fun _ _ => false

/-- The height of a tree in which every chain of calls and accesses counts as one node. -/
def nesting : Node → Nat := heightBy Form.isChained

theorem heightBy_eq (isFree : Form Node → Slot → Bool) (node : Node) :
    node.heightBy isFree =
      (node.form.fields.flatMap fun field => field.2.toList.map fun child =>
        if isFree node.form field.1 then child.heightBy isFree
        else child.heightBy isFree + 1).foldr max 1 := by
  cases node with
  | mk info form =>
      rw [heightBy, fold_mk, Form.fields_map]
      simp [List.flatMap_map, Function.comp_def, Node.form]

theorem foldr_max_le {values : List Nat} {least bound : Nat} :
    values.foldr max least ≤ bound ↔ least ≤ bound ∧ ∀ value ∈ values, value ≤ bound := by
  induction values with
  | nil => simp
  | cons value rest inductionHypothesis =>
      rw [List.foldr_cons, Nat.max_le, inductionHypothesis, List.forall_mem_cons]
      exact and_left_comm

theorem heightBy_le {isFree : Form Node → Slot → Bool} {node : Node} {bound : Nat} :
    node.heightBy isFree ≤ bound ↔ 1 ≤ bound ∧ ∀ field ∈ node.form.fields,
      ∀ child ∈ field.2.toList,
        (if isFree node.form field.1 then child.heightBy isFree
          else child.heightBy isFree + 1) ≤ bound := by
  rw [heightBy_eq, foldr_max_le]
  constructor
  · rintro ⟨least, each⟩
    refine ⟨least, fun field inForm child inField => each _ ?_⟩
    exact List.mem_flatMap.mpr ⟨field, inForm, List.mem_map.mpr ⟨child, inField, rfl⟩⟩
  · rintro ⟨least, each⟩
    refine ⟨least, fun value member => ?_⟩
    obtain ⟨field, inForm, inField⟩ := List.mem_flatMap.mp member
    obtain ⟨child, inside, rfl⟩ := List.mem_map.mp inField
    exact each field inForm child inside

theorem height_eq (node : Node) :
    node.height = (node.form.children.map height).foldr max 0 + 1 := by
  have raised : ∀ values : List Nat,
      (values.map (· + 1)).foldr max 1 = values.foldr max 0 + 1 := by
    intro values
    induction values with
    | nil => rfl
    | cons value rest inductionHypothesis =>
        rw [List.map_cons, List.foldr_cons, List.foldr_cons, inductionHypothesis,
          Nat.add_max_add_right]
  rw [← raised, height, heightBy_eq, Form.children]
  simp [List.map_flatMap, Function.comp_def]

theorem height_lt_of_mem_children {node child : Node} (member : child ∈ node.form.children) :
    child.height < node.height := by
  obtain ⟨field, inForm, inField⟩ := List.mem_flatMap.mp member
  exact (heightBy_le.mp (Nat.le_refl node.height)).2 field inForm child inField

end Node

namespace Node

@[simp]
theorem nesting_modifyAttributes (node : Node) (change : Attributes → Attributes) :
    (node.modifyAttributes change).nesting = node.nesting := by
  rw [nesting, heightBy_eq, heightBy_eq]
  rfl

end Node
end PhpTree
