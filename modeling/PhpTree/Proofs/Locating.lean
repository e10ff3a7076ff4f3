import PhpTree.Proofs.Extents
import PhpTree.Tree.Locate

/-! # Finding everything that stands at an offset

The search for what stands at an offset passes over the subtree of a node that lies
elsewhere.  Nothing is lost by this in a tree whose nodes lie inside their parents, and
the tree of a program without errors is of this kind.  In the order of a walk the nodes
below a node come right after it, so the last node found is an innermost one. -/
set_option autoImplicit false
namespace PhpTree

namespace Node

/-- Whether the node's own extent covers the offset; a node without one covers nothing. -/
def contains (node : Node) (offset : Nat) : Bool :=
  node.position.any fun position => position.contains offset

theorem contains_eq_true {node : Node} {offset : Nat} :
    node.contains offset = true ↔
      ∃ position ∈ node.position, position.startOffset ≤ offset ∧ offset ≤ position.endOffset := by
  cases placed : node.position with
  | none => simp [contains, placed]
  | some position => simp [contains, placed, Position.contains]

/-- In the whole tree a child lies inside its parent, wherever the parent has an extent. -/
def EnclosesChildren (root : Node) : Prop :=
  ∀ node ∈ root.nodes, ∀ outer ∈ node.position, ∀ child ∈ node.form.children,
    ∃ inner ∈ child.position, inner.Within outer

theorem EnclosesChildren.child {root child : Node} (encloses : root.EnclosesChildren)
    (member : child ∈ root.form.children) : child.EnclosesChildren :=
  fun node inside => encloses node (mem_nodes.mpr (.inr ⟨child, member, inside⟩))

/-- Whatever covers an offset inside a node with an extent, the node covers it as well. -/
theorem EnclosesChildren.contains_of_mem {offset : Nat} {inner : Node} (root : Node) :
    root.EnclosesChildren → root.position.isSome = true → inner ∈ root.nodes →
      inner.contains offset = true → root.contains offset = true := by
  induction root using Node.induction with
  | step root inductionHypothesis =>
      intro encloses placed member covers
      rcases mem_nodes.mp member with rfl | ⟨child, isChild, inside⟩
      · exact covers
      · obtain ⟨outer, outerPlaced⟩ := Option.isSome_iff_exists.mp placed
        obtain ⟨position, childPlaced, within⟩ :=
          encloses root root.self_mem_nodes outer outerPlaced child isChild
        have childCovers := inductionHypothesis child isChild (encloses.child isChild)
          (Option.isSome_of_mem childPlaced) inside covers
        obtain ⟨other, otherPlaced, starts, ends⟩ := contains_eq_true.mp childCovers
        obtain rfl := Option.mem_unique childPlaced otherPlaced
        exact contains_eq_true.mpr ⟨outer, outerPlaced, Nat.le_trans within.1 starts,
          Nat.le_trans ends within.2⟩

theorem locator_below {offset : Nat} {node : Node} (found : List Node)
    (children : ∀ child ∈ node.form.children, ∀ found,
      child.walk (locator offset) () found =
        (child.nodes.filter (·.contains offset)).reverse ++ found) :
    node.form.reported.foldl (fun before field =>
        field.2.toList.foldl (fun state child => child.walk (locator offset) () state) before)
      found = (node.nodes.tail.filter (·.contains offset)).reverse ++ found := by
  have below : node.nodes.tail.filter (·.contains offset) =
      node.form.reported.flatMap fun field => field.2.toList.flatMap fun child =>
        child.nodes.filter (·.contains offset) := by
    rw [node.walk_collector.2, List.tail_cons, List.filter_flatMap]
    simp only [List.filter_flatMap]
  rw [below]
  refine foldl_eq_flatMap (fun field reported found => ?_) found
  refine foldl_eq_flatMap (fun child inside found => ?_) found
  exact children child (Form.mem_children_of_reported reported inside) found

theorem walk_locator {offset : Nat} (root : Node) :
    root.EnclosesChildren → ∀ found, root.walk (locator offset) () found =
      (root.nodes.filter (·.contains offset)).reverse ++ found := by
  induction root using Node.induction with
  | step root inductionHypothesis =>
      intro encloses found
      have below := fun found => @locator_below offset root found fun child member =>
        inductionHypothesis child member (encloses.child member)
      have nodes : root.nodes = root :: root.nodes.tail := by
        rw [root.walk_collector.2, List.tail_cons]
      rw [walk_eq, nodes]
      cases placed : root.position with
      | none =>
          have outside : root.contains offset = false := by simp [contains, placed]
          rw [List.filter_cons_of_neg (by simp [outside])]
          simp only [locator, placed]
          exact below found
      | some position =>
          cases covers : position.contains offset with
          | true =>
              have inside : root.contains offset = true := by simp [contains, placed, covers]
              rw [List.filter_cons_of_pos (by exact inside), List.reverse_cons, List.append_assoc]
              simp only [locator, placed, covers]
              exact below (root :: found)
          | false =>
              -- The subtree is passed over; no node of it covers the offset.
              have nothing : root.nodes.filter (·.contains offset) = [] := by
                rw [List.filter_eq_nil_iff]
                intro inner member covered
                have outer :=
                  EnclosesChildren.contains_of_mem root encloses (by simp [placed]) member
                  covered
                simp [contains, placed, covers] at outer
              rw [← nodes, nothing]
              simp [locator, placed, covers]

/-- Searching is the same as looking at every node. -/
theorem locate_eq_filter {root : Node} (encloses : root.EnclosesChildren) (offset : Nat) :
    root.locate offset = root.nodes.filter (·.contains offset) := by
  rw [locate, walk_locator root encloses, List.append_nil, List.reverse_reverse]

/-! ## The last node found -/

theorem exists_of_flatMap_eq_append {α β : Type} {list : α → List β} {items : List α}
    {front back : List β} {element : β}
    (split : items.flatMap list = front ++ element :: back) :
    ∃ item ∈ items, ∃ before after rest, list item = before ++ element :: after ∧
      back = after ++ rest := by
  induction items generalizing front with
  | nil => simp at split
  | cons item items inductionHypothesis =>
      rw [List.flatMap_cons] at split
      rcases List.append_eq_append_iff.mp split with ⟨between, rfl, later⟩ | ⟨between, here, rest⟩
      · obtain ⟨other, member, found⟩ := inductionHypothesis later
        exact ⟨other, List.mem_cons_of_mem _ member, found⟩
      · cases between with
        | nil =>
            obtain ⟨other, member, found⟩ := @inductionHypothesis [] rest.symm
            exact ⟨other, List.mem_cons_of_mem _ member, found⟩
        | cons first between =>
            obtain ⟨rfl, rfl⟩ := List.cons.inj rest
            exact ⟨item, List.mem_cons_self .., front, between, items.flatMap list, here, rfl⟩

/-- What stands below a node comes right after it in a walk. -/
theorem exists_below_append {node : Node} (root : Node) :
    ∀ {front back : List Node}, root.nodes = front ++ node :: back →
      ∃ rest, back = node.nodes.tail ++ rest := by
  induction root using Node.induction with
  | step root inductionHypothesis =>
      intro front back split
      cases front with
      | nil =>
          obtain ⟨rfl, rfl⟩ := List.cons.inj (root.walk_collector.2.symm.trans split)
          exact ⟨[], by rw [List.append_nil, root.walk_collector.2, List.tail_cons]⟩
      | cons first front =>
          have tail := (List.cons.inj (root.nodes_eq.symm.trans split)).2
          rw [← List.flatMap_assoc] at tail
          obtain ⟨child, member, before, after, rest, inside, rfl⟩ :=
            exists_of_flatMap_eq_append tail
          have isChild : child ∈ root.form.children :=
            (root.form.walkFields_perm.flatMap_right _).mem_iff.mp member
          obtain ⟨more, rfl⟩ := inductionHypothesis child isChild inside
          exact ⟨more ++ rest, List.append_assoc ..⟩

theorem mem_tail_of_mem_children {node child inner : Node} (isChild : child ∈ node.form.children)
    (inside : inner ∈ child.nodes) : inner ∈ node.nodes.tail := by
  rw [node.nodes_eq, List.tail_cons, ← List.flatMap_assoc]
  refine List.mem_flatMap.mpr ⟨child, ?_, inside⟩
  exact (node.form.walkFields_perm.flatMap_right _).mem_iff.mpr isChild

/-- Below the last node that covers an offset no node covers it. -/
theorem not_contains_below {root node : Node} {offset : Nat}
    (last : (root.nodes.filter (·.contains offset)).getLast? = some node) :
    ∀ child ∈ node.form.children, ∀ inner ∈ child.nodes, inner.contains offset = false := by
  obtain ⟨found, split⟩ := List.getLast?_eq_some_iff.mp last
  obtain ⟨front, back, nodes, _, ends⟩ := List.filter_eq_append_iff.mp split
  obtain ⟨passed, rest, rfl, _, _, nothing⟩ := List.filter_eq_cons_iff.mp ends
  rw [← List.append_assoc] at nodes
  obtain ⟨more, rfl⟩ := exists_below_append root nodes
  intro child isChild inner inside
  have later : inner ∈ node.nodes.tail ++ more :=
    List.mem_append_left _ (mem_tail_of_mem_children isChild inside)
  have outside := List.filter_eq_nil_iff.mp nothing inner later
  simpa using outside

end Node

/-! ## Programs -/

/-- Without errors every node lies inside its parent. -/
theorem Program.Covers.enclosesChildren {options : Options} {source : List UInt8}
    {program : Program}
    {pieces : List Piece} (covers : program.Covers options source pieces)
    (clean : program.errors = []) : program.root.EnclosesChildren := by
  intro node member outer placed child isChild
  obtain ⟨part, order, laid⟩ := covers.laidOut_of_mem_children member isChild
  have consumed : part ≠ [] := by
    rintro rfl
    exact laid.of_nil.1 clean
  obtain ⟨inner, innerPlaced, spans⟩ := laid.spans order consumed
  obtain ⟨other, otherPlaced, within⟩ := (covers.nested node member).within child isChild inner
    innerPlaced (spans.isCovering order.covers)
  obtain rfl := Option.mem_unique placed otherPlaced
  exact ⟨inner, innerPlaced, within⟩

/-- In a program without errors the search finds all nodes that cover the offset, in the order of a
walk. An innermost node is found whenever there is any, and no node below it covers the offset. -/
theorem locate_finds_all {options : Options} {source : List UInt8} {program : Program}
    (parsed : parse options source = some program) (clean : program.errors = []) (offset : Nat) :
    program.root.locate offset = program.root.nodes.filter (·.contains offset) ∧
      (program.root.innermost? offset = none ↔
        ∀ node ∈ program.root.nodes, node.contains offset = false) ∧
      ∀ node ∈ program.root.innermost? offset,
        node ∈ program.root.nodes ∧ node.contains offset = true ∧
          ∀ child ∈ node.form.children, ∀ inner ∈ child.nodes, inner.contains offset = false := by
  obtain ⟨pieces, covers⟩ := parse_covers parsed
  have found := Node.locate_eq_filter (covers.enclosesChildren clean) offset
  refine ⟨found, ?_, fun node innermost => ?_⟩
  · rw [Node.innermost?, found, List.getLast?_eq_none_iff, List.filter_eq_nil_iff]
    simp
  · rw [Option.mem_def, Node.innermost?, found] at innermost
    obtain ⟨member, inside⟩ := List.mem_filter.mp (List.mem_of_getLast? innermost)
    exact ⟨member, inside, Node.not_contains_below innermost⟩

theorem locate_finds_all_constant :
    ∃ program, parse {} (bytesOf "<?php A::b;") = some program ∧ program.errors = [] ∧
      (program.root.locate 7).map Node.label =
        ["StmtList", "Expression", "ClassConstFetch", "Name", "NamePart"] ∧
      program.root.locate 7 = program.root.nodes.filter (·.contains 7) := by
  have ends : ((parse {} (bytesOf "<?php A::b;")).map fun program =>
      (program.errors, (program.root.locate 7).map Node.label)) =
        some ([], ["StmtList", "Expression", "ClassConstFetch", "Name", "NamePart"]) := by
    decide +kernel
  obtain ⟨program, parsed, shown⟩ := Option.map_eq_some_iff.mp ends
  obtain ⟨clean, labels⟩ := Prod.mk.inj shown
  exact ⟨program, parsed, clean, labels, (locate_finds_all parsed clean 7).1⟩

end PhpTree
