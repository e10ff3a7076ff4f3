import PhpTree.Tree.Build
import PhpTree.Tree.Trace

/-! # Trees from the top

A tree is finite, so a property of all nodes follows from what the children of a node
hand up to it.  The nodes of a tree are listed from the root down. -/
set_option autoImplicit false
namespace PhpTree

theorem forall_mem_of_spelled {α : Type} {condition : α → Prop} {spelled : List α → Prop}
    (last : ∀ element, spelled [element] → condition element)
    (more : ∀ element next rest, spelled (element :: next :: rest) →
      condition element ∧ spelled (next :: rest)) {list : List α} (holds : spelled list) :
    ∀ element ∈ list, condition element := by
  induction list with
  | nil => simp
  | cons first rest inductionHypothesis =>
      cases rest with
      | nil => simpa using last first holds
      | cons next rest =>
          obtain ⟨here, later⟩ := more first next rest holds
          exact List.forall_mem_cons.mpr ⟨here, inductionHypothesis later⟩

theorem Field.sizeOf_lt_of_mem {field : Field Node} {child : Node}
    (member : child ∈ field.toList) : sizeOf child < sizeOf field := by
  cases field with
  | single only =>
      cases only with
      | none => simp [Field.toList] at member
      | some node =>
          obtain rfl : child = node := by simpa [Field.toList] using member
          simp only [Field.single.sizeOf_spec, Option.some.sizeOf_spec]
          omega
  | list nodes =>
      have smaller : sizeOf child < sizeOf nodes := List.sizeOf_lt_of_mem member
      simp only [Field.list.sizeOf_spec]
      omega

namespace Field

def map {α β : Type} (f : α → β) : Field α → Field β
  | .single child => .single (child.map f)
  | .list children => .list (children.map f)

@[simp]
theorem toList_map {α β : Type} (f : α → β) (field : Field α) :
    (field.map f).toList = field.toList.map f := by
  cases field with
  | single child => exact Option.toList_map
  | list children => rfl

theorem toList_eq_nil {α : Type} {field : Field α} (unfilled : field.isFilled = false) :
    field.toList = [] := by
  cases field with
  | single child => simpa [isFilled, toList] using unfilled
  | list children => simp [isFilled] at unfilled

end Field

namespace Form

theorem sizeOf_le_of_mem_fields {form : Form Node} {field : Slot × Field Node}
    (member : field ∈ form.fields) : sizeOf field.2 ≤ sizeOf form := by
  cases form <;> simp only [fields, List.mem_cons, List.not_mem_nil, or_false] at member
  all_goals rcases member with rfl | rfl | rfl | rfl | rfl | rfl
  all_goals simp
  all_goals omega

theorem sizeOf_lt_of_mem_children {form : Form Node} {child : Node}
    (member : child ∈ form.children) : sizeOf child < sizeOf form := by
  obtain ⟨field, inForm, inField⟩ := List.mem_flatMap.mp member
  exact Nat.lt_of_lt_of_le (Field.sizeOf_lt_of_mem inField) (sizeOf_le_of_mem_fields inForm)

theorem map_map {α β γ : Type} (f : α → β) (g : β → γ) (form : Form α) :
    (form.map f).map g = form.map fun child => g (f child) := by
  cases form <;> simp [map, Function.comp_def]

theorem walkFields_map {α β : Type} (f : α → β) (form : Form α) :
    (form.map f).walkFields = form.walkFields.map fun field => (field.1, field.2.map f) := by
  cases form <;> rfl

theorem reported_map {α β : Type} (f : α → β) (form : Form α) :
    (form.map f).reported = form.reported.map fun field => (field.1, field.2.map f) := by
  have filled : ((fun field : Slot × Field β => field.2.isFilled) ∘ fun field : Slot × Field α =>
      (field.1, field.2.map f)) = fun field => field.2.isFilled := by
    funext field
    obtain ⟨slot, field⟩ := field
    cases field with
    | single child => simp [Field.map, Field.isFilled]
    | list children => rfl
  rw [reported, walkFields_map, List.filter_map, filled]
  rfl

theorem walkFields_perm {α : Type} (form : Form α) : form.walkFields.Perm form.fields := by
  cases form <;> first | exact .refl _ | exact .swap ..

theorem flatMap_reported {α β : Type} (form : Form α) (list : α → List β) :
    (form.reported.flatMap fun field => field.2.toList.flatMap list) =
      form.walkFields.flatMap fun field => field.2.toList.flatMap list := by
  rw [reported]
  induction form.walkFields with
  | nil => rfl
  | cons field rest inductionHypothesis =>
      rw [List.filter_cons, List.flatMap_cons, ← inductionHypothesis]
      split
      · rfl
      · rename_i unfilled
        rw [Field.toList_eq_nil (by simpa using unfilled)]
        rfl

theorem mem_children_of_reported {α : Type} {form : Form α} {field : Slot × Field α} {child : α}
    (reported : field ∈ form.reported) (inside : child ∈ field.2.toList) :
    child ∈ form.children :=
  List.mem_flatMap.mpr
    ⟨field, form.walkFields_perm.mem_iff.mp (List.mem_filter.mp reported).1, inside⟩

end Form

namespace Node

theorem induction {motive : Node → Prop}
    (step : ∀ node : Node, (∀ child ∈ node.form.children, motive child) → motive node)
    (node : Node) : motive node := by
  refine step node fun child member => ?_
  have smaller : sizeOf child < sizeOf node := by
    cases node with
    | mk info form =>
        have inner : sizeOf child < sizeOf form := Form.sizeOf_lt_of_mem_children member
        simp only [mk.sizeOf_spec]
        omega
  exact induction step child
termination_by node

/-- A walk of a node goes through the reported slots and walks what stands there. -/
theorem walk_eq {Scope State : Type} (visitor : Visitor Scope State) (node : Node) (scope : Scope)
    (state : State) :
    node.walk visitor scope state =
      if (visitor.enter scope node state).1 then
        visitor.leave scope node <| node.form.reported.foldl (fun before field =>
          field.2.toList.foldl
            (fun state child => child.walk visitor (visitor.descend scope field.1 before).1 state)
            (visitor.descend scope field.1 before).2) (visitor.enter scope node state).2
      else (visitor.enter scope node state).2 := by
  cases node with
  | mk info layer =>
      unfold walk
      rw [fold_mk]
      simp only [Visitor.walkStep, Form.reported_map, List.foldl_map, Visitor.walkField,
        Field.toList_map]
      rfl

theorem foldl_eq_flatMap {α β : Type} {step : List β → α → List β} {list : α → List β}
    {items : List α}
    (puts : ∀ item ∈ items, ∀ found, step found item = (list item).reverse ++ found)
    (found : List β) : items.foldl step found = (items.flatMap list).reverse ++ found := by
  induction items generalizing found with
  | nil => rfl
  | cons item rest inductionHypothesis =>
      rw [List.foldl_cons, puts item (by simp),
        inductionHypothesis fun other member => puts other (List.mem_cons_of_mem _ member)]
      simp

/-- A walk that refuses nothing puts the node and all nodes below in front of what was found. -/
theorem walk_collector (node : Node) :
    (∀ found, node.walk collector () found = node.nodes.reverse ++ found) ∧
      node.nodes = node :: node.form.reported.flatMap fun field =>
        field.2.toList.flatMap nodes := by
  induction node using Node.induction with
  | step node inductionHypothesis =>
      have collected : ∀ found, node.walk collector () found =
          (node :: node.form.reported.flatMap fun field => field.2.toList.flatMap nodes).reverse ++
            found := by
        intro found
        rw [walk_eq, List.reverse_cons, List.append_assoc]
        refine foldl_eq_flatMap (fun field reported found => ?_) (node :: found)
        refine foldl_eq_flatMap (fun child inside found => ?_) found
        exact (inductionHypothesis child (Form.mem_children_of_reported reported inside)).1 found
      have listed : node.nodes = node :: node.form.reported.flatMap fun field =>
          field.2.toList.flatMap nodes := by
        rw [nodes, collected, List.append_nil, List.reverse_reverse]
      exact ⟨fun found => by rw [listed, collected], listed⟩

theorem nodes_eq (node : Node) :
    node.nodes = node :: node.form.walkFields.flatMap fun field =>
      field.2.toList.flatMap nodes := by
  rw [node.walk_collector.2, Form.flatMap_reported]

theorem nodes_perm (node : Node) :
    node.nodes.Perm (node :: node.form.children.flatMap nodes) := by
  rw [nodes_eq, Form.children, List.flatMap_assoc]
  exact (node.form.walkFields_perm.flatMap_right _).cons node

theorem mem_nodes {node inner : Node} :
    inner ∈ node.nodes ↔ inner = node ∨ ∃ child ∈ node.form.children, inner ∈ child.nodes := by
  rw [node.nodes_perm.mem_iff, List.mem_cons, List.mem_flatMap]

theorem nodes_of_no_children {node : Node} (leaf : node.form.children = []) :
    node.nodes = [node] := by
  have only := node.nodes_perm
  rw [leaf] at only
  exact List.perm_singleton.mp only

theorem self_mem_nodes (node : Node) : node ∈ node.nodes := mem_nodes.mpr (Or.inl rfl)

theorem mem_nodes_trans {middle inner : Node} (below : inner ∈ middle.nodes) (root : Node) :
    middle ∈ root.nodes → inner ∈ root.nodes := by
  induction root using Node.induction with
  | step root inductionHypothesis =>
      intro member
      rcases mem_nodes.mp member with rfl | ⟨child, childMember, inside⟩
      · exact below
      · exact mem_nodes.mpr (Or.inr ⟨child, childMember,
          inductionHypothesis child childMember inside⟩)

theorem mem_nodes_of_mem_children {root node child : Node} (member : node ∈ root.nodes)
    (inside : child ∈ node.form.children) : child ∈ root.nodes :=
  mem_nodes_trans (mem_nodes.mpr (Or.inr ⟨child, inside, child.self_mem_nodes⟩)) root member

end Node
end PhpTree
