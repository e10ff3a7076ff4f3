import PhpTree.Proofs.Reading.Programs

/-! # Nested extents

A node that was read from tokens is placed from the first of them to the last.  The
tokens of its children are stretches of its own, one after the other, so the extents
of the children lie inside its own and apart from each other. -/
set_option autoImplicit false
namespace PhpTree

namespace Position

def IsCovering (position : Position) : Prop := position.startOffset < position.endOffset

def Within (inner outer : Position) : Prop :=
  outer.startOffset ≤ inner.startOffset ∧ inner.endOffset ≤ outer.endOffset

def Before (first second : Position) : Prop := first.endOffset ≤ second.startOffset

/-- The position reaches from the first of the tokens to the last. -/
structure Spans (position : Position) (tokens : List Token) : Prop where
  begins : ∃ first ∈ tokens, position.startOffset = first.start
  ends : ∃ last ∈ tokens, position.endOffset = last.stop
  encloses : ∀ token ∈ tokens,
    position.startOffset ≤ token.start ∧ token.stop ≤ position.endOffset

namespace Spans

variable {position other : Position} {tokens part : List Token}

theorem isCovering (spans : position.Spans tokens)
    (covers : ∀ token ∈ tokens, token.start < token.stop) :
    position.IsCovering := by
  obtain ⟨first, member, begins⟩ := spans.begins
  have enclosed := spans.encloses first member
  have covered := covers first member
  unfold IsCovering
  omega

theorem within (outer : position.Spans tokens) (inner : other.Spans part)
    (subset : part ⊆ tokens) : other.Within position := by
  obtain ⟨first, firstMember, begins⟩ := inner.begins
  obtain ⟨last, lastMember, ends⟩ := inner.ends
  rw [Within, begins, ends]
  exact ⟨(outer.encloses first (subset firstMember)).1, (outer.encloses last (subset lastMember)).2⟩

theorem before (first : position.Spans tokens) (second : other.Spans part)
    (apart : ∀ earlier ∈ tokens, ∀ later ∈ part, earlier.stop ≤ later.start) :
    position.Before other := by
  obtain ⟨last, lastMember, ends⟩ := first.ends
  obtain ⟨begin, beginMember, begins⟩ := second.begins
  rw [Before, begins, ends]
  exact apart last lastMember begin beginMember

end Spans
end Position

/-- Tokens in source order, each covering a byte at least. -/
structure InOrder (tokens : List Token) : Prop where
  ordered : tokens.Pairwise fun earlier later => earlier.stop ≤ later.start
  covers : ∀ token ∈ tokens, token.start < token.stop

theorem InOrder.sublist {part tokens : List Token} (order : InOrder tokens)
    (partOf : part.Sublist tokens) : InOrder part :=
  ⟨order.ordered.sublist partOf, fun token member => order.covers token (partOf.subset member)⟩

theorem InOrder.spans {tokens : List Token} (order : InOrder tokens) {first last : Token}
    (begins : tokens.head? = some first) (ends : tokens.getLast? = some last) (lines : LineIndex) :
    (lines.position ⟨first.start, last.stop⟩).Spans tokens := by
  have firstMember := List.mem_of_head? begins
  have lastMember := List.mem_of_getLast? ends
  refine ⟨⟨first, firstMember, rfl⟩, ⟨last, lastMember, rfl⟩, fun token member => ⟨?_, ?_⟩⟩
  · obtain ⟨rest, rfl⟩ := List.head?_eq_some_iff.mp begins
    rcases List.mem_cons.mp member with rfl | later
    · exact Nat.le_refl _
    · have := (List.pairwise_cons.mp order.ordered).1 token later
      exact Nat.le_trans (Nat.le_of_lt (order.covers first firstMember)) this
  · obtain ⟨front, rfl⟩ := List.getLast?_eq_some_iff.mp ends
    rcases List.mem_append.mp member with earlier | same
    · have := (List.pairwise_append.mp order.ordered).2.2 token earlier last (by simp)
      exact Nat.le_trans this (Nat.le_of_lt (order.covers last lastMember))
    · rw [List.mem_singleton.mp same]
      exact Nat.le_refl _

namespace LaidOut

variable {lines : LineIndex} {clean : Prop} {node : Node} {tokens : List Token}

/-- A node read from a token at least spans its tokens. -/
theorem spans (laid : LaidOut lines clean node tokens) (order : InOrder tokens)
    (consumed : tokens ≠ []) : ∃ position ∈ node.position, position.Spans tokens := by
  cases laid with
  | leaf form fits placed => exact ⟨_, placed, order.spans rfl rfl lines⟩
  | branch inner read holds laid loose begins ends placed =>
      exact ⟨_, placed, order.spans begins ends lines⟩
  | hollow blamed form unmarked placed => exact absurd rfl consumed

/-- Only a parameter of which nothing is there, not even a sign, has no tokens; its extent is
empty. -/
theorem of_nil (laid : LaidOut lines clean node []) :
    ¬ clean ∧ node.IsHollow ∧ node.attributes.byRef = some false ∧
      node.attributes.variadic = some false ∧
      ∃ position ∈ node.position, position.startOffset = position.endOffset := by
  cases laid with
  | branch inner read holds laid loose begins ends placed => simp at begins
  | hollow blamed form unmarked placed =>
      exact ⟨blamed, form, unmarked.1, unmarked.2, _, placed, rfl⟩

theorem exists_position (laid : LaidOut lines clean node tokens) :
    ∃ position, node.position = some position := by
  cases laid with
  | leaf form fits placed => exact ⟨_, placed⟩
  | branch inner read holds laid loose begins ends placed => exact ⟨_, placed⟩
  | hollow blamed form unmarked placed => exact ⟨_, placed⟩

theorem spans_of_isCovering (laid : LaidOut lines clean node tokens) (order : InOrder tokens)
    {position : Position} (placed : position ∈ node.position) (covering : position.IsCovering) :
    position.Spans tokens := by
  by_cases consumed : tokens = []
  · subst consumed
    obtain ⟨_, _, _, _, other, otherPlaced, empty⟩ := laid.of_nil
    rw [Option.mem_unique placed otherPlaced] at covering
    exact absurd empty (Nat.ne_of_lt covering)
  · obtain ⟨other, otherPlaced, spans⟩ := laid.spans order consumed
    rw [Option.mem_unique placed otherPlaced]
    exact spans

end LaidOut

/-- The first node ends before the second begins, if both cover something. -/
def Node.Precedes (first second : Node) : Prop :=
  ∀ earlier ∈ first.position, ∀ later ∈ second.position,
    earlier.IsCovering → later.IsCovering → earlier.Before later

/-- The children of a node lie inside it and apart from each other, and those of one slot stand in
source order. Children that cover nothing are left out of account. -/
structure Node.Nested (node : Node) : Prop where
  placed : ∀ child ∈ node.form.children, ∃ position, child.position = some position
  within : ∀ child ∈ node.form.children, ∀ inner ∈ child.position, inner.IsCovering →
    ∃ outer ∈ node.position, inner.Within outer
  apart : node.form.children.Pairwise fun first second =>
    first.Precedes second ∨ second.Precedes first
  ordered : ∀ field ∈ node.form.fields, field.2.toList.Pairwise Node.Precedes

section Pieces
variable {lines : LineIndex} {clean : Prop} {pieces : List Piece}

/-- Nodes cut from tokens in order stand in that order. -/
theorem nodesOf_precedes (order : InOrder (tokensOf pieces))
    (laid : ∀ child tokens, Piece.node child tokens ∈ pieces → LaidOut lines clean child tokens) :
    (nodesOf pieces).Pairwise Node.Precedes := by
  have stretches : pieces.Pairwise fun earlier later =>
      ∀ first ∈ earlier.tokens, ∀ second ∈ later.tokens, first.stop ≤ second.start :=
    (List.pairwise_flatMap.mp order.ordered).2
  refine List.pairwise_filterMap.mpr (stretches.imp_of_mem ?_)
  intro earlier later earlierMember laterMember apart first firstIs second secondIs
  cases earlier with
  | loose token => cases firstIs
  | node child tokens =>
  cases later with
  | loose token => cases secondIs
  | node otherChild otherTokens =>
      cases firstIs
      cases secondIs
      intro position placed otherPosition otherPlaced covering otherCovering
      have firstSpans := (laid _ _ earlierMember).spans_of_isCovering
        (order.sublist (sublist_tokensOf earlierMember)) placed covering
      have secondSpans := (laid _ _ laterMember).spans_of_isCovering
        (order.sublist (sublist_tokensOf laterMember)) otherPlaced otherCovering
      exact firstSpans.before secondSpans apart

end Pieces

theorem Node.Nested.of_holds {node : Node} {nodes : List Node}
    (holds : node.form.HoldsFieldsInOrder nodes)
    (ordered : nodes.Pairwise Node.Precedes)
    (placed : ∀ child ∈ nodes, ∃ position, child.position = some position)
    (within : ∀ child ∈ nodes, ∀ inner ∈ child.position, inner.IsCovering →
      ∃ outer ∈ node.position, inner.Within outer) : node.Nested where
  placed child member := placed child (holds.perm.mem_iff.mpr member)
  within child member := within child (holds.perm.mem_iff.mpr member)
  apart := (holds.perm.pairwise_iff fun apart => apart.symm).mp (ordered.imp Or.inl)
  ordered field member := ordered.sublist (holds.sublist field member)

/-- Whatever was read from tokens in order is nested. -/
theorem LaidOut.nested {lines : LineIndex} {clean : Prop} {node : Node} {tokens : List Token}
    (laid : LaidOut lines clean node tokens) (order : InOrder tokens) : node.Nested := by
  cases laid with
  | leaf form fits placed =>
      exact .of_holds (.of_children (by rw [form]; rfl)) .nil (by simp) (by simp)
  | branch inner read holds laid loose begins ends placed =>
      subst read
      refine .of_holds holds (nodesOf_precedes order laid) ?_ ?_
      · intro child member
        obtain ⟨part, inside⟩ := mem_nodesOf.mp member
        exact (laid child part inside).exists_position
      · intro child member position childPlaced covering
        obtain ⟨part, inside⟩ := mem_nodesOf.mp member
        have partOf := sublist_tokensOf inside
        have spans := (laid child part inside).spans_of_isCovering (order.sublist partOf)
          childPlaced covering
        exact ⟨_, placed, (order.spans begins ends lines).within spans partOf.subset⟩
  | hollow blamed form unmarked placed =>
      exact .of_holds (.of_children (by rw [form]; rfl)) .nil (by simp) (by simp)

/-! ## Whole programs -/

theorem Node.exists_covering {lines : LineIndex} {clean : Prop} {node : Node} {tokens : List Token}
    (laid : LaidOut lines clean node tokens) (order : InOrder tokens) (solid : ¬ node.IsHollow) :
    ∃ position ∈ node.position, position.IsCovering := by
  have consumed : tokens ≠ [] := by
    rintro rfl
    exact solid laid.of_nil.2.1
  obtain ⟨position, placed, spans⟩ := laid.spans order consumed
  exact ⟨position, placed, spans.isCovering order.covers⟩

/-- The extent from the first statement to the last encloses all of them. -/
theorem extent?_encloses {stmts : List Node} (ordered : stmts.Pairwise Node.Precedes)
    (covering : ∀ stmt ∈ stmts, ∃ position ∈ stmt.position, position.IsCovering) :
    ∀ stmt ∈ stmts, ∀ inner ∈ stmt.position, ∃ outer ∈ Parse.extent? stmts, inner.Within outer := by
  intro stmt member inner placed
  obtain ⟨first, begins⟩ := Option.ne_none_iff_exists'.mp
    (fun none => List.ne_nil_of_mem member (List.head?_eq_none_iff.mp none))
  obtain ⟨last, ends⟩ := Option.ne_none_iff_exists'.mp
    (fun none => List.ne_nil_of_mem member (List.getLast?_eq_none_iff.mp none))
  obtain ⟨start, startPlaced, startCovers⟩ := covering first (List.mem_of_head? begins)
  obtain ⟨stop, stopPlaced, stopCovers⟩ := covering last (List.mem_of_getLast? ends)
  obtain ⟨own, ownPlaced, covers⟩ := covering stmt member
  obtain rfl := Option.mem_unique placed ownPlaced
  refine ⟨start.through stop, ?_, ?_, ?_⟩
  · have startIs : first.position = some start := startPlaced
    have stopIs : last.position = some stop := stopPlaced
    simp [Parse.extent?, begins, ends, startIs, stopIs]
  · obtain ⟨rest, rfl⟩ := List.head?_eq_some_iff.mp begins
    rcases List.mem_cons.mp member with rfl | later
    · rw [Option.mem_unique startPlaced placed]
      exact Nat.le_refl _
    · have := (List.pairwise_cons.mp ordered).1 stmt later start startPlaced inner placed
        startCovers covers
      exact Nat.le_trans (Nat.le_of_lt startCovers) this
  · obtain ⟨front, rfl⟩ := List.getLast?_eq_some_iff.mp ends
    rcases List.mem_append.mp member with earlier | same
    · have := (List.pairwise_append.mp ordered).2.2 stmt earlier last (by simp) inner placed
        stop stopPlaced covers stopCovers
      exact Nat.le_trans this (Nat.le_of_lt stopCovers)
    · cases List.mem_singleton.mp same
      rw [Option.mem_unique stopPlaced placed]
      exact Nat.le_refl _

namespace Program.Covers

variable {options : Options} {source : List UInt8} {program : Program} {pieces : List Piece}

theorem inOrder (covers : program.Covers options source pieces) : InOrder (tokensOf pieces) := by
  obtain ⟨last, ends, tokens⟩ := covers.tokens
  have stream := ((Lexer.ofSource options.shortTags source).tokens_stream).filter
    Token.isSignificant Token.isSignificant_of_eof
  rw [tokens] at stream
  refine ⟨(List.pairwise_append.mp stream.ordered).1, fun token member => ?_⟩
  exact stream.covers token (List.mem_append_left _ member) (stream.goesOn_of_mem token member)

theorem root_encloses (covers : program.Covers options source pieces) :
    (nodesOf pieces).Pairwise Node.Precedes ∧
      (∀ stmt ∈ nodesOf pieces, ∃ position ∈ stmt.position, position.IsCovering) ∧
      ∀ stmt ∈ nodesOf pieces, ∀ inner ∈ stmt.position,
        ∃ outer ∈ program.root.position, inner.Within outer := by
  have ordered := nodesOf_precedes covers.inOrder covers.laid
  have covering : ∀ stmt ∈ nodesOf pieces, ∃ position ∈ stmt.position, position.IsCovering := by
    intro stmt member
    obtain ⟨part, inside⟩ := mem_nodesOf.mp member
    exact Node.exists_covering (covers.laid stmt part inside)
      (covers.inOrder.sublist (sublist_tokensOf inside)) (covers.solid stmt member)
  refine ⟨ordered, covering, ?_⟩
  rw [covers.placed]
  exact extent?_encloses ordered covering

theorem cases_of_mem (covers : program.Covers options source pieces) {node : Node}
    (member : node ∈ program.root.nodes) :
    node = program.root ∨ ∃ part, InOrder part ∧
      LaidOut (LineIndex.ofSource source) (program.errors = []) node part := by
  rcases Node.mem_nodes.mp member with rfl | ⟨stmt, stmtMember, inside⟩
  · exact Or.inl rfl
  · have isStmt : stmt ∈ nodesOf pieces := by
      rw [covers.root] at stmtMember
      simpa [Form.children, Form.fields, Field.toList] using stmtMember
    obtain ⟨tokens, piece⟩ := mem_nodesOf.mp isStmt
    obtain ⟨part, laid, partOf⟩ := (covers.laid stmt tokens piece).exists_of_mem_nodes node inside
    exact Or.inr ⟨part, covers.inOrder.sublist (partOf.trans (sublist_tokensOf piece)), laid⟩

theorem laidOut_of_mem_children (covers : program.Covers options source pieces) {node child : Node}
    (member : node ∈ program.root.nodes) (isChild : child ∈ node.form.children) :
    ∃ part, InOrder part ∧
      LaidOut (LineIndex.ofSource source) (program.errors = []) child part := by
  rcases covers.cases_of_mem member with rfl | ⟨part, order, laid⟩
  · have isStmt : child ∈ nodesOf pieces := by
      rw [covers.root] at isChild
      simpa [Form.children, Form.fields, Field.toList] using isChild
    obtain ⟨tokens, piece⟩ := mem_nodesOf.mp isStmt
    exact ⟨tokens, covers.inOrder.sublist (sublist_tokensOf piece), covers.laid child tokens piece⟩
  · have inside := Node.mem_nodes.mpr (.inr ⟨child, isChild, child.self_mem_nodes⟩)
    obtain ⟨inner, childLaid, partOf⟩ := laid.exists_of_mem_nodes child inside
    exact ⟨inner, order.sublist partOf, childLaid⟩

theorem root_isCovering (covers : program.Covers options source pieces) {position : Position}
    (placed : position ∈ program.root.position) : position.IsCovering := by
  obtain ⟨_, covering, encloses⟩ := covers.root_encloses
  have some : Parse.extent? (nodesOf pieces) = .some position := by
    rw [← covers.placed]
    exact placed
  cases stmts : nodesOf pieces with
  | nil => simp [stmts, Parse.extent?] at some
  | cons stmt rest =>
      have member : stmt ∈ nodesOf pieces := by simp [stmts]
      obtain ⟨inner, innerPlaced, innerCovers⟩ := covering stmt member
      obtain ⟨outer, outerPlaced, within⟩ := encloses stmt member inner innerPlaced
      rw [Option.mem_unique placed outerPlaced]
      exact Nat.lt_of_le_of_lt within.1 (Nat.lt_of_lt_of_le innerCovers within.2)

theorem root_nested (covers : program.Covers options source pieces) : program.root.Nested := by
  obtain ⟨ordered, covering, encloses⟩ := covers.root_encloses
  refine @Node.Nested.of_holds _ (nodesOf pieces) (.of_children ?_) ordered ?_ ?_
  · rw [covers.root]
    simp [Form.children, Form.fields, Field.toList]
  · intro stmt member
    obtain ⟨position, placed, _⟩ := covering stmt member
    exact ⟨position, placed⟩
  · intro stmt member inner placed _
    exact encloses stmt member inner placed

theorem nested (covers : program.Covers options source pieces) :
    ∀ node ∈ program.root.nodes, node.Nested := by
  intro node member
  rcases covers.cases_of_mem member with rfl | ⟨part, order, laid⟩
  · exact covers.root_nested
  · exact laid.nested order

end Program.Covers

/-- The extents of a program form a nested family. A node covers something, unless it is a
parameter for which no token was consumed, which takes an error; without errors every child lies
inside its parent. -/
theorem parse_extents_nested {options : Options} {source : List UInt8} {program : Program}
    (parsed : parse options source = some program) :
    (∀ node ∈ program.root.nodes, node.Nested) ∧
      (∀ node ∈ program.root.nodes, ∀ position ∈ node.position, ¬ position.IsCovering →
        position.isEmpty = true ∧ node.IsHollow ∧ node.attributes.byRef = some false ∧
          node.attributes.variadic = some false ∧ program.errors ≠ []) ∧
      (program.errors = [] → ∀ node ∈ program.root.nodes, ∀ child ∈ node.form.children,
        ∃ outer ∈ node.position, ∃ inner ∈ child.position, inner.Within outer) := by
  obtain ⟨pieces, covers⟩ := parse_covers parsed
  have nested := covers.nested
  have hollow : ∀ node ∈ program.root.nodes, ∀ position ∈ node.position, ¬ position.IsCovering →
      position.isEmpty = true ∧ node.IsHollow ∧ node.attributes.byRef = some false ∧
        node.attributes.variadic = some false ∧ program.errors ≠ [] := by
    intro node member position placed empty
    rcases covers.cases_of_mem member with rfl | ⟨part, order, laid⟩
    · exact absurd (covers.root_isCovering placed) empty
    · by_cases consumed : part = []
      · subst consumed
        obtain ⟨blamed, form, noRef, noSpread, other, otherPlaced, same⟩ := laid.of_nil
        rw [Option.mem_unique placed otherPlaced]
        exact ⟨by simpa [Position.isEmpty] using same, form, noRef, noSpread, blamed⟩
      · obtain ⟨other, otherPlaced, spans⟩ := laid.spans order consumed
        rw [Option.mem_unique placed otherPlaced] at empty
        exact absurd (spans.isCovering order.covers) empty
  refine ⟨nested, hollow, fun clean node member child childMember => ?_⟩
  obtain ⟨inner, placed⟩ := (nested node member).placed child childMember
  have childIn := Node.mem_nodes_of_mem_children member childMember
  by_cases covering : inner.IsCovering
  · obtain ⟨outer, outerPlaced, within⟩ :=
      (nested node member).within child childMember inner placed
      covering
    exact ⟨outer, outerPlaced, inner, placed, within⟩
  · exact absurd clean (hollow child childIn inner placed covering).2.2.2.2

theorem parse_extents_nested_assignment :
    ∃ program, parse {} (bytesOf "<?php $a = b(1);") = some program ∧
      ∀ node ∈ program.root.nodes, node.Nested := by
  have ends : (parse {} (bytesOf "<?php $a = b(1);")).isSome = true := by decide +kernel
  obtain ⟨program, parsed⟩ := Option.isSome_iff_exists.mp ends
  exact ⟨program, parsed, (parse_extents_nested parsed).1⟩

end PhpTree
