import Mathlib.Data.List.Pairwise
import PhpTree.Proofs.Locating

/-! # Where the nodes at an offset form a path

An offset right after the last byte of a node still counts as inside the node, so it
may lie in a node and in the sibling that begins there.  The nodes found are then no
path from the outermost to the innermost: the search goes down the one side and then
down the other.  Without errors this happens at most once, and on either side of such
a fork the nodes do form a path. -/
set_option autoImplicit false
namespace PhpTree

namespace Node

/-- The second node is a descendant of the first. -/
def NestedBelow (outer inner : Node) : Prop := ∃ child ∈ outer.form.children, inner ∈ child.nodes

/-- Each of the nodes but the first is a descendant of the one before it. -/
def IsPath (nodes : List Node) : Prop := nodes.IsChain NestedBelow

def BeginsAt (node : Node) (offset : Nat) : Prop :=
  ∃ position ∈ node.position, position.startOffset = offset

def EndsAt (node : Node) (offset : Nat) : Prop :=
  ∃ position ∈ node.position, position.endOffset = offset

/-- One of the nodes ends where the other begins. -/
def AbutsAt (first second : Node) (offset : Nat) : Prop :=
  first.EndsAt offset ∧ second.BeginsAt offset ∨ second.EndsAt offset ∧ first.BeginsAt offset

/-- A child of the node ends at the offset and another begins there. -/
def ForksAt (node : Node) (offset : Nat) : Prop :=
  ∃ first ∈ node.form.children, ∃ second ∈ node.form.children,
    first.EndsAt offset ∧ second.BeginsAt offset

/-- Children cover something, lie inside their parent and apart from each other. -/
structure HasNestedExtents (root : Node) : Prop where
  within : ∀ node ∈ root.nodes, ∀ child ∈ node.form.children, ∃ inner ∈ child.position,
    inner.IsCovering ∧ ∃ outer ∈ node.position, inner.Within outer
  apart : ∀ node ∈ root.nodes, node.form.children.Pairwise fun first second =>
    first.Precedes second ∨ second.Precedes first

theorem NestedBelow.trans {outer middle inner : Node} (first : outer.NestedBelow middle)
    (second : middle.NestedBelow inner) : outer.NestedBelow inner := by
  obtain ⟨child, isChild, inside⟩ := first
  obtain ⟨grandchild, isGrandchild, below⟩ := second
  exact ⟨child, isChild, mem_nodes_trans
    (mem_nodes.mpr (.inr ⟨grandchild, isGrandchild, below⟩)) child inside⟩

instance : Trans NestedBelow NestedBelow NestedBelow := ⟨NestedBelow.trans⟩

theorem isPath_iff_pairwise {nodes : List Node} : IsPath nodes ↔ nodes.Pairwise NestedBelow :=
  List.isChain_iff_pairwise

theorem isPath_cons {node : Node} {nodes : List Node} :
    IsPath (node :: nodes) ↔ (∀ inner ∈ nodes, node.NestedBelow inner) ∧ IsPath nodes := by
  rw [isPath_iff_pairwise, isPath_iff_pairwise, List.pairwise_cons]

theorem IsPath.related {nodes : List Node} (path : IsPath nodes) {first second : Node}
    (firstIs : first ∈ nodes) (secondIs : second ∈ nodes) (distinct : first ≠ second) :
    first.NestedBelow second ∨ second.NestedBelow first := by
  have symmetric : Std.Symm fun first second : Node =>
      first.NestedBelow second ∨ second.NestedBelow first :=
    ⟨fun _ _ => Or.symm⟩
  have related : nodes.Pairwise fun first second =>
      first.NestedBelow second ∨ second.NestedBelow first :=
    (isPath_iff_pairwise.mp path).imp Or.inl
  exact related.forall firstIs secondIs distinct

/-! ## Extents in a tidy tree -/

variable {root : Node} {offset : Nat}

theorem HasNestedExtents.of_mem (extents : root.HasNestedExtents) {node : Node}
    (member : node ∈ root.nodes) :
    node.HasNestedExtents where
  within inner inside := extents.within inner (mem_nodes_trans inside root member)
  apart inner inside := extents.apart inner (mem_nodes_trans inside root member)

theorem HasNestedExtents.child (extents : root.HasNestedExtents) {child : Node}
    (isChild : child ∈ root.form.children) :
    child.HasNestedExtents :=
  extents.of_mem (mem_nodes_of_mem_children root.self_mem_nodes isChild)

theorem HasNestedExtents.enclosesChildren (extents : root.HasNestedExtents) :
    root.EnclosesChildren := by
  intro node member outer placed child isChild
  obtain ⟨inner, innerPlaced, _, other, otherPlaced, within⟩ :=
    extents.within node member child isChild
  obtain rfl := Option.mem_unique placed otherPlaced
  exact ⟨inner, innerPlaced, within⟩

/-- What stands below a node covers something inside the node. -/
theorem HasNestedExtents.within_of_below (root : Node) :
    root.HasNestedExtents → ∀ {inner : Node}, root.NestedBelow inner →
    ∃ position ∈ inner.position, position.IsCovering ∧
      ∃ outer ∈ root.position, position.Within outer := by
  induction root using Node.induction with
  | step root inductionHypothesis =>
      rintro extents inner ⟨child, isChild, inside⟩
      obtain ⟨middle, middlePlaced, covering, outer, outerPlaced, within⟩ :=
        extents.within root root.self_mem_nodes child isChild
      rcases mem_nodes.mp inside with rfl | ⟨grandchild, isGrandchild, below⟩
      · exact ⟨middle, middlePlaced, covering, outer, outerPlaced, within⟩
      · obtain ⟨position, placed, positionCovers, other, otherPlaced, inMiddle⟩ :=
          inductionHypothesis child isChild (extents.child isChild)
            ⟨grandchild, isGrandchild, below⟩
        obtain rfl := Option.mem_unique middlePlaced otherPlaced
        exact ⟨position, placed, positionCovers, outer, outerPlaced,
          Nat.le_trans within.1 inMiddle.1, Nat.le_trans inMiddle.2 within.2⟩

/-- In a node that ends or begins at the offset no node goes on across it. -/
theorem HasNestedExtents.not_forks_of_edge (extents : root.HasNestedExtents)
    (edge : root.EndsAt offset ∨ root.BeginsAt offset) :
    ∀ node ∈ root.nodes, ¬ node.ForksAt offset := by
  rintro node member ⟨first, firstIs, second, secondIs, ⟨early, earlyPlaced, ends⟩,
    ⟨late, latePlaced, begins⟩⟩
  have below : ∀ child ∈ node.form.children, root.NestedBelow child := by
    intro child isChild
    rcases mem_nodes.mp member with rfl | ⟨top, isTop, inside⟩
    · exact ⟨child, isChild, child.self_mem_nodes⟩
    · exact ⟨top, isTop, mem_nodes_of_mem_children inside isChild⟩
  obtain ⟨position, placed, covers, outer, outerPlaced, within⟩ :=
    HasNestedExtents.within_of_below root extents (below first firstIs)
  obtain ⟨other, otherPlaced, otherCovers, same, samePlaced, otherWithin⟩ :=
    HasNestedExtents.within_of_below root extents (below second secondIs)
  obtain rfl := Option.mem_unique earlyPlaced placed
  obtain rfl := Option.mem_unique latePlaced otherPlaced
  obtain rfl := Option.mem_unique outerPlaced samePlaced
  simp only [Position.IsCovering, Position.Within] at covers within otherCovers otherWithin
  rcases edge with ⟨own, ownPlaced, atEnd⟩ | ⟨own, ownPlaced, atBegin⟩
  · obtain rfl := Option.mem_unique ownPlaced outerPlaced
    omega
  · obtain rfl := Option.mem_unique ownPlaced outerPlaced
    omega

/-- Where a node that covers the offset ends there, so does whatever covers it below. -/
theorem HasNestedExtents.edge_of_mem (extents : root.HasNestedExtents) {inner : Node}
    (member : inner ∈ root.nodes)
    (inside : inner.contains offset = true) :
    (root.EndsAt offset → inner.EndsAt offset) ∧
    (root.BeginsAt offset → inner.BeginsAt offset) := by
  obtain ⟨position, placed, starts, ends⟩ := contains_eq_true.mp inside
  rcases mem_nodes.mp member with rfl | below
  · exact ⟨id, id⟩
  · obtain ⟨other, otherPlaced, _, outer, outerPlaced, within⟩ :=
      HasNestedExtents.within_of_below root extents below
    obtain rfl := Option.mem_unique placed otherPlaced
    refine ⟨?_, ?_⟩
    · rintro ⟨own, ownPlaced, atEnd⟩
      obtain rfl := Option.mem_unique ownPlaced outerPlaced
      exact ⟨position, placed, Nat.le_antisymm (atEnd ▸ within.2) ends⟩
    · rintro ⟨own, ownPlaced, atBegin⟩
      obtain rfl := Option.mem_unique ownPlaced outerPlaced
      exact ⟨position, placed, Nat.le_antisymm starts (atBegin ▸ within.1)⟩

/-! ## The nodes at an offset -/

def visited (node : Node) : List Node := node.form.walkFields.flatMap fun field => field.2.toList

theorem visited_perm (node : Node) : node.visited.Perm node.form.children :=
  node.form.walkFields_perm.flatMap_right _

/-- All nodes that cover the offset, in the order of a walk. -/
def standing (root : Node) (offset : Nat) : List Node := root.nodes.filter (·.contains offset)

theorem standing_eq_nil (extents : root.HasNestedExtents) (outside : root.contains offset = false) :
    root.standing offset = [] := by
  rw [standing, List.filter_eq_nil_iff]
  intro inner member inside
  have placed : root.position.isSome = true := by
    rcases mem_nodes.mp member with rfl | below
    · simp [outside] at inside
    · obtain ⟨_, _, _, outer, outerPlaced, _⟩ := HasNestedExtents.within_of_below root extents below
      exact Option.isSome_of_mem outerPlaced
  have covers := EnclosesChildren.contains_of_mem root extents.enclosesChildren placed member inside
  simp [outside] at covers

theorem standing_eq_cons (extents : root.HasNestedExtents) (inside : root.contains offset = true) :
    root.standing offset =
      root :: (root.visited.filter (·.contains offset)).flatMap (·.standing offset) := by
  have passed : ∀ children : List Node, (∀ child ∈ children, child ∈ root.form.children) →
      children.flatMap (·.standing offset) =
        (children.filter (·.contains offset)).flatMap (·.standing offset) := by
    intro children areChildren
    induction children with
    | nil => rfl
    | cons child rest inductionHypothesis =>
        obtain ⟨isChild, areRest⟩ := List.forall_mem_cons.mp areChildren
        rw [List.flatMap_cons, inductionHypothesis areRest, List.filter_cons]
        cases covers : child.contains offset with
        | true => rfl
        | false => rw [standing_eq_nil (extents.child isChild) covers]; rfl
  rw [standing, nodes_eq, List.filter_cons_of_pos (by exact inside), ← List.flatMap_assoc,
    List.filter_flatMap]
  exact congrArg (root :: ·) (passed root.visited fun child member =>
    root.visited_perm.mem_iff.mp member)

theorem below_of_mem_standing {child inner : Node} (isChild : child ∈ root.form.children)
    (member : inner ∈ child.standing offset) : root.NestedBelow inner :=
  ⟨child, isChild, (List.mem_filter.mp member).1⟩

theorem HasNestedExtents.abuts (extents : root.HasNestedExtents) (offset : Nat) :
    (root.visited.filter (·.contains offset)).Pairwise (AbutsAt · · offset) := by
  have apart : root.visited.Pairwise fun first second =>
      first.Precedes second ∨ second.Precedes first :=
    (root.visited_perm.pairwise_iff fun apart => apart.symm).mpr
      (extents.apart root root.self_mem_nodes)
  -- What ends before the other begins ends at the offset if both cover it.
  have meets : ∀ first ∈ root.visited, ∀ second ∈ root.visited, first.contains offset = true →
      second.contains offset = true → first.Precedes second →
        first.EndsAt offset ∧ second.BeginsAt offset := by
    intro first firstIs second secondIs firstInside secondInside before
    obtain ⟨early, earlyPlaced, _, earlyEnds⟩ := contains_eq_true.mp firstInside
    obtain ⟨late, latePlaced, lateStarts, _⟩ := contains_eq_true.mp secondInside
    obtain ⟨position, placed, covers, _⟩ := extents.within root root.self_mem_nodes first
      (root.visited_perm.mem_iff.mp firstIs)
    obtain ⟨other, otherPlaced, otherCovers, _⟩ := extents.within root root.self_mem_nodes second
      (root.visited_perm.mem_iff.mp secondIs)
    obtain rfl := Option.mem_unique earlyPlaced placed
    obtain rfl := Option.mem_unique latePlaced otherPlaced
    have apart : early.endOffset ≤ late.startOffset :=
      before early earlyPlaced late latePlaced covers otherCovers
    exact ⟨⟨early, earlyPlaced, by omega⟩, ⟨late, latePlaced, by omega⟩⟩
  refine List.Pairwise.imp_of_mem ?_ (apart.filter _)
  intro first second firstIs secondIs order
  obtain ⟨firstIs, firstInside⟩ := List.mem_filter.mp firstIs
  obtain ⟨secondIs, secondInside⟩ := List.mem_filter.mp secondIs
  rcases order with order | order
  · exact .inl (meets first firstIs second secondIs firstInside secondInside order)
  · exact .inr (meets second secondIs first firstIs secondInside firstInside order)

/-- At an offset inside a node stand no, one or two of its children; two of them abut there. -/
theorem HasNestedExtents.cases_of_contains (extents : root.HasNestedExtents) (offset : Nat) :
    root.visited.filter (·.contains offset) = [] ∨
      (∃ child, root.visited.filter (·.contains offset) = [child] ∧
        child ∈ root.form.children) ∨
      ∃ first second, root.visited.filter (·.contains offset) = [first, second] ∧
        first ∈ root.form.children ∧ second ∈ root.form.children ∧
          first.AbutsAt second offset := by
  have areChildren : ∀ child ∈ root.visited.filter (·.contains offset),
      child ∈ root.form.children := fun child member =>
    root.visited_perm.mem_iff.mp (List.mem_filter.mp member).1
  have abuts := extents.abuts offset
  -- Nothing that covers a byte begins and ends at the same offset.
  have oneEdge : ∀ child ∈ root.visited.filter (·.contains offset),
      ¬ (child.EndsAt offset ∧ child.BeginsAt offset) := by
    rintro child member ⟨⟨early, earlyPlaced, ends⟩, ⟨late, latePlaced, begins⟩⟩
    obtain ⟨position, placed, covers, _⟩ :=
      extents.within root root.self_mem_nodes child (areChildren child member)
    obtain rfl := Option.mem_unique earlyPlaced placed
    obtain rfl := Option.mem_unique latePlaced earlyPlaced
    exact Nat.ne_of_lt covers (begins.trans ends.symm)
  cases children : root.visited.filter (·.contains offset) with
  | nil => exact .inl rfl
  | cons first rest =>
      rw [children] at areChildren abuts oneEdge
      cases rest with
      | nil => exact .inr (.inl ⟨first, rfl, areChildren first (by simp)⟩)
      | cons second rest =>
          obtain ⟨firstAbuts, laterAbuts⟩ := List.pairwise_cons.mp abuts
          have meets := firstAbuts second (by simp)
          cases rest with
          | nil =>
              exact .inr (.inr ⟨first, second, rfl, areChildren first (by simp),
                areChildren second (by simp), meets⟩)
          | cons third rest =>
              -- Two of three would have to lie on the same side.
              have firstThird := firstAbuts third (by simp)
              have secondThird := (List.pairwise_cons.mp laterAbuts).1 third (by simp)
              have firstOnce := oneEdge first (by simp)
              have secondOnce := oneEdge second (by simp)
              have thirdOnce := oneEdge third (by simp)
              unfold AbutsAt at meets firstThird secondThird
              tauto

/-! ## Paths and forks -/

/-- Where no node forks, what stands at the offset is a path. -/
theorem isPath_of_not_forks (root : Node) : root.HasNestedExtents →
    (∀ node ∈ root.nodes, ¬ node.ForksAt offset) → IsPath (root.standing offset) := by
  induction root using Node.induction with
  | step root inductionHypothesis =>
      intro extents single
      cases inside : root.contains offset with
      | false =>
          rw [standing_eq_nil extents inside]
          exact .nil
      | true =>
          rw [standing_eq_cons extents inside]
          rcases extents.cases_of_contains offset with
            none | ⟨child, only, isChild⟩ | ⟨first, second, _, firstIs, secondIs, abuts⟩
          · rw [none]
            exact .singleton root
          · rw [only, List.flatMap_singleton]
            refine isPath_cons.mpr ⟨fun inner member => below_of_mem_standing isChild member, ?_⟩
            exact inductionHypothesis child isChild (extents.child isChild) fun node member =>
              single node (mem_nodes.mpr (.inr ⟨child, isChild, member⟩))
          · refine absurd ?_ (single root root.self_mem_nodes)
            rcases abuts with ⟨ends, begins⟩ | ⟨ends, begins⟩
            · exact ⟨first, firstIs, second, secondIs, ends, begins⟩
            · exact ⟨second, secondIs, first, firstIs, ends, begins⟩

/-- Of two siblings that abut neither lies below the other. -/
theorem HasNestedExtents.not_isPath (extents : root.HasNestedExtents) {node : Node}
    (member : node ∈ root.nodes)
    (forks : node.ForksAt offset) : ¬ IsPath (root.standing offset) := by
  obtain ⟨first, firstIs, second, secondIs, ⟨early, earlyPlaced, ends⟩,
    ⟨late, latePlaced, begins⟩⟩ := forks
  obtain ⟨position, placed, covers, _⟩ := extents.within node member first firstIs
  obtain ⟨other, otherPlaced, otherCovers, _⟩ := extents.within node member second secondIs
  obtain rfl := Option.mem_unique earlyPlaced placed
  obtain rfl := Option.mem_unique latePlaced otherPlaced
  simp only [Position.IsCovering] at covers otherCovers
  have firstIn := mem_nodes_of_mem_children member firstIs
  have secondIn := mem_nodes_of_mem_children member secondIs
  have notWithin : ¬ late.Within early ∧ ¬ early.Within late := by
    simp only [Position.Within]
    omega
  have notBelow : ¬ first.NestedBelow second ∧ ¬ second.NestedBelow first := by
    refine ⟨fun below => notWithin.1 ?_, fun below => notWithin.2 ?_⟩
    · obtain ⟨inner, innerPlaced, _, outer, outerPlaced, within⟩ :=
        HasNestedExtents.within_of_below first (extents.of_mem firstIn) below
      rwa [Option.mem_unique latePlaced innerPlaced, Option.mem_unique earlyPlaced outerPlaced]
    · obtain ⟨inner, innerPlaced, _, outer, outerPlaced, within⟩ :=
        HasNestedExtents.within_of_below second (extents.of_mem secondIn) below
      rwa [Option.mem_unique earlyPlaced innerPlaced, Option.mem_unique latePlaced outerPlaced]
  have distinct : first ≠ second := by
    rintro rfl
    rw [Option.mem_unique earlyPlaced latePlaced] at covers ends
    omega
  have firstStands : first ∈ root.standing offset := List.mem_filter.mpr
    ⟨firstIn, contains_eq_true.mpr ⟨early, earlyPlaced, by omega, by omega⟩⟩
  have secondStands : second ∈ root.standing offset := List.mem_filter.mpr
    ⟨secondIn, contains_eq_true.mpr ⟨late, latePlaced, by omega, by omega⟩⟩
  intro path
  rcases path.related firstStands secondStands distinct with below | below
  · exact notBelow.1 below
  · exact notBelow.2 below

/-- The nodes at an offset form one path, or a trunk with two branches of which one ends and the
other begins at the offset. -/
theorem exists_branches (root : Node) : root.HasNestedExtents → ∃ trunk first second,
    root.standing offset = trunk ++ first ++ second ∧ IsPath (trunk ++ first) ∧
      IsPath (trunk ++ second) ∧ ∀ earlier ∈ first, ∀ later ∈ second,
        earlier.AbutsAt later offset := by
  induction root using Node.induction with
  | step root inductionHypothesis =>
      intro extents
      cases inside : root.contains offset with
      | false =>
          rw [standing_eq_nil extents inside]
          exact ⟨[], [], [], rfl, .nil, .nil, by simp⟩
      | true =>
          rw [standing_eq_cons extents inside]
          rcases extents.cases_of_contains offset with
            none | ⟨child, only, isChild⟩ | ⟨left, right, both, leftIs, rightIs, abuts⟩
          · rw [none]
            exact ⟨[root], [], [], rfl, .singleton root, .singleton root, by simp⟩
          · obtain ⟨trunk, first, second, split, firstPath, secondPath, apart⟩ :=
              inductionHypothesis child isChild (extents.child isChild)
            have below : ∀ inner ∈ trunk ++ first ++ second, root.NestedBelow inner := by
              rw [← split]
              exact fun inner member => below_of_mem_standing isChild member
            rw [only, List.flatMap_singleton, split]
            refine ⟨root :: trunk, first, second, rfl, isPath_cons.mpr ⟨?_, firstPath⟩,
              isPath_cons.mpr ⟨?_, secondPath⟩, apart⟩
            · exact fun inner member => below inner (List.mem_append_left _ member)
            · intro inner member
              refine below inner ?_
              rcases List.mem_append.mp member with inTrunk | inSecond
              · exact List.mem_append_left _ (List.mem_append_left _ inTrunk)
              · exact List.mem_append_right _ inSecond
          · -- Either side lies at an edge of its child, so it does not fork again.
            have edges : ∀ child ∈ root.form.children,
                child.EndsAt offset ∨ child.BeginsAt offset →
                  IsPath (root :: child.standing offset) := fun child isChild edge =>
              isPath_cons.mpr ⟨fun inner member => below_of_mem_standing isChild member,
                isPath_of_not_forks child (extents.child isChild)
                  ((extents.child isChild).not_forks_of_edge edge)⟩
            rw [both]
            refine ⟨[root], left.standing offset, right.standing offset, by simp,
              edges left leftIs (abuts.imp And.left And.right),
              edges right rightIs (abuts.symm.imp And.left And.right), ?_⟩
            intro earlier earlierIn later laterIn
            obtain ⟨earlierIs, earlierInside⟩ := List.mem_filter.mp earlierIn
            obtain ⟨laterIs, laterInside⟩ := List.mem_filter.mp laterIn
            have leftEdge := (extents.child leftIs).edge_of_mem earlierIs earlierInside
            have rightEdge := (extents.child rightIs).edge_of_mem laterIs laterInside
            exact abuts.imp (And.imp leftEdge.1 rightEdge.2) (And.imp rightEdge.1 leftEdge.2)

end Node

/-! ## Programs -/

/-- Without errors the tree of a program is tidy. -/
theorem Program.Covers.hasNestedExtents {options : Options} {source : List UInt8}
    {program : Program}
    {pieces : List Piece} (covers : program.Covers options source pieces)
    (clean : program.errors = []) : program.root.HasNestedExtents where
  within node member child isChild := by
    obtain ⟨part, order, laid⟩ := covers.laidOut_of_mem_children member isChild
    have consumed : part ≠ [] := by
      rintro rfl
      exact laid.of_nil.1 clean
    obtain ⟨inner, placed, spans⟩ := laid.spans order consumed
    have covering := spans.isCovering order.covers
    exact ⟨inner, placed, covering,
      (covers.nested node member).within child isChild inner placed covering⟩
  apart node member := (covers.nested node member).apart

/-- In a program without errors the nodes found at an offset form a path from the outermost to the
innermost exactly when no node has one child that ends at the offset and another that begins there.
Otherwise they form a trunk and, one after the other, the two paths that go on from it. -/
theorem locate_isPath_iff {options : Options} {source : List UInt8} {program : Program}
    (parsed : parse options source = some program) (clean : program.errors = []) (offset : Nat) :
    (Node.IsPath (program.root.locate offset) ↔
      ∀ node ∈ program.root.nodes, ¬ node.ForksAt offset) ∧
      ∃ trunk first second, program.root.locate offset = trunk ++ first ++ second ∧
        Node.IsPath (trunk ++ first) ∧ Node.IsPath (trunk ++ second) ∧
          ∀ earlier ∈ first, ∀ later ∈ second, earlier.AbutsAt later offset := by
  obtain ⟨pieces, covers⟩ := parse_covers parsed
  have extents := covers.hasNestedExtents clean
  rw [show program.root.locate offset = program.root.standing offset from
    Node.locate_eq_filter extents.enclosesChildren offset]
  refine ⟨⟨fun path node member forks => extents.not_isPath member forks path, ?_⟩, ?_⟩
  · exact Node.isPath_of_not_forks program.root extents
  · exact Node.exists_branches program.root extents

theorem locate_isPath_iff_call :
    ∃ program, parse {} (bytesOf "<?php f();g();") = some program ∧ program.errors = [] ∧
      (program.root.locate 10).map Node.label =
        ["StmtList", "Expression", "Expression", "FunctionCall", "Name", "NamePart"] ∧
      ∃ trunk first second, program.root.locate 10 = trunk ++ first ++ second ∧
        Node.IsPath (trunk ++ first) ∧ Node.IsPath (trunk ++ second) := by
  have ends : ((parse {} (bytesOf "<?php f();g();")).map fun program =>
      (program.errors, (program.root.locate 10).map Node.label)) = some
        ([], ["StmtList", "Expression", "Expression", "FunctionCall", "Name", "NamePart"]) := by
    decide +kernel
  obtain ⟨program, parsed, shown⟩ := Option.map_eq_some_iff.mp ends
  obtain ⟨clean, labels⟩ := Prod.mk.inj shown
  obtain ⟨trunk, first, second, split, firstPath, secondPath, _⟩ :=
    (locate_isPath_iff parsed clean 10).2
  exact ⟨program, parsed, clean, labels, trunk, first, second, split, firstPath, secondPath⟩

/-- Where one statement ends and the next begins, the nodes found are no path. -/
theorem locate_not_isPath :
    ∃ program, parse {} (bytesOf "<?php f();g();") = some program ∧ program.errors = [] ∧
      ¬ Node.IsPath (program.root.locate 10) := by
  have ends : ((parse {} (bytesOf "<?php f();g();")).map fun program =>
      (program.errors, program.root.form.children.map Node.position)) =
        some ([], [some ⟨1, 1, 6, 10⟩, some ⟨1, 1, 10, 14⟩]) := by
    decide +kernel
  obtain ⟨program, parsed, shown⟩ := Option.map_eq_some_iff.mp ends
  obtain ⟨clean, places⟩ := Prod.mk.inj shown
  obtain ⟨pieces, covers⟩ := parse_covers parsed
  have extents := covers.hasNestedExtents clean
  obtain ⟨first, rest, children, firstPlaced, later⟩ := List.map_eq_cons_iff.mp places
  obtain ⟨second, none, rfl, secondPlaced, _⟩ := List.map_eq_cons_iff.mp later
  have forks : program.root.ForksAt 10 :=
    ⟨first, by simp [children], second, by simp [children], ⟨_, firstPlaced, rfl⟩,
      ⟨_, secondPlaced, rfl⟩⟩
  refine ⟨program, parsed, clean, ?_⟩
  rw [Node.locate_eq_filter extents.enclosesChildren]
  exact extents.not_isPath program.root.self_mem_nodes forks

end PhpTree
