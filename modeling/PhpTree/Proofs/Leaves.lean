import PhpTree.Proofs.Extents
import PhpTree.Proofs.Tiling

/-! # Leaves quote the source

Each leaf of a tree was read from one token: it lies where the token lies, its text is
the text of the bytes there, and its kind is one that such tokens are read into.  Put in
source order, the leaves come from a sublist of the tokens, so no token was read into
two of them.  This holds with and without errors. -/
set_option autoImplicit false
namespace PhpTree

namespace Node

/-- The leaves of a tree, in the order of a walk. -/
def leaves (node : Node) : List Node := node.nodes.filter fun inner => inner.text?.isSome

/-- The leaf has the extent of the token and the text of the bytes there, and the kind of the token
fits its own. -/
structure QuotesToken (source : List UInt8) (leaf : Node) (token : Token) : Prop where
  extent : ∃ position ∈ leaf.position,
    position.startOffset = token.start ∧ position.endOffset = token.stop
  text : ∃ kind bytes, token.span.slice? source = some bytes ∧
    leaf.form = .leaf kind (Utf8.decode bytes) ∧ kind.fits token.kind = true

theorem leaves_of_leaf {node : Node} {kind : LeafKind} {text : String}
    (form : node.form = .leaf kind text) : node.leaves = [node] := by
  have only : node.nodes = [node] := nodes_of_no_children (by rw [form]; rfl)
  have isLeaf : node.text?.isSome = true := by rw [text?, form]; rfl
  rw [leaves, only, List.filter_singleton, isLeaf]
  rfl

theorem leaves_perm {node : Node} (inner : node.form.text? = none) :
    node.leaves.Perm (node.form.children.flatMap leaves) := by
  have noLeaf : ¬ node.text?.isSome = true := by simp [text?, inner]
  have below := node.nodes_perm.filter fun inner => inner.text?.isSome
  rw [List.filter_cons, if_neg noLeaf, List.filter_flatMap] at below
  exact below

end Node

/-- A leaf and the token that it was read from. -/
structure IsReading (lines : LineIndex) (reading : Node × Token) : Prop where
  text : ∃ kind : LeafKind, reading.1.form = .leaf kind reading.2.text ∧
    kind.fits reading.2.kind = true
  placed : reading.1.position = some (lines.position reading.2.span)

/-- In source order the leaves were read from some of the tokens, each from one of its own. -/
def ReadInOrder (lines : LineIndex) (leaves : List Node) (tokens : List Token) : Prop :=
  ∃ readings : List (Node × Token), (readings.map Prod.fst).Perm leaves ∧
    (readings.map Prod.snd).Sublist tokens ∧ ∀ reading ∈ readings, IsReading lines reading

section Readings
variable {lines : LineIndex}

namespace ReadInOrder

theorem none (tokens : List Token) : ReadInOrder lines [] tokens :=
  ⟨[], .nil, List.nil_sublist _, by simp⟩

theorem append {first second : List Node} {front back : List Token}
    (before : ReadInOrder lines first front) (after : ReadInOrder lines second back) :
    ReadInOrder lines (first ++ second) (front ++ back) := by
  obtain ⟨early, earlyLeaves, earlyTokens, areEarly⟩ := before
  obtain ⟨late, lateLeaves, lateTokens, areLate⟩ := after
  refine ⟨early ++ late, ?_, ?_, fun reading member => ?_⟩
  · rw [List.map_append]
    exact earlyLeaves.append lateLeaves
  · rw [List.map_append]
    exact earlyTokens.append lateTokens
  · exact (List.mem_append.mp member).elim (areEarly reading) (areLate reading)

theorem perm {leaves others : List Node} {tokens : List Token}
    (read : ReadInOrder lines leaves tokens) (same : leaves.Perm others) :
    ReadInOrder lines others tokens := by
  obtain ⟨readings, areLeaves, areTokens, each⟩ := read
  exact ⟨readings, areLeaves.trans same, areTokens, each⟩

theorem mono {leaves : List Node} {tokens more : List Token}
    (read : ReadInOrder lines leaves tokens) (among : tokens.Sublist more) :
    ReadInOrder lines leaves more := by
  obtain ⟨readings, areLeaves, areTokens, each⟩ := read
  exact ⟨readings, areLeaves, areTokens.trans among, each⟩

theorem of_pieces {pieces : List Piece}
    (children : ∀ child tokens, Piece.node child tokens ∈ pieces →
      ReadInOrder lines child.leaves tokens) :
    ReadInOrder lines ((nodesOf pieces).flatMap Node.leaves) (tokensOf pieces) := by
  induction pieces with
  | nil => exact none _
  | cons piece rest inductionHypothesis =>
      have remaining := inductionHypothesis
        fun child tokens member => children child tokens (List.mem_cons_of_mem _ member)
      cases piece with
      | loose token => exact (none [token]).append remaining
      | node child tokens => exact (children child tokens (by simp)).append remaining

end ReadInOrder

theorem LaidOut.readInOrder {clean : Prop} {node : Node} {tokens : List Token}
    (laid : LaidOut lines clean node tokens) : ReadInOrder lines node.leaves tokens := by
  induction laid with
  | @leaf node token kind form fits placed =>
      rw [Node.leaves_of_leaf form]
      exact ⟨[(node, token)], .refl _, .refl _, by simpa using ⟨⟨kind, form, fits⟩, placed⟩⟩
  | @branch node tokens pieces first last inner read holds laid loose begins ends placed
      inductionHypothesis =>
      have sameLeaves := (holds.perm.flatMap_right Node.leaves).trans (Node.leaves_perm inner).symm
      rw [read]
      exact (ReadInOrder.of_pieces inductionHypothesis).perm sameLeaves
  | @hollow node offset blamed form unmarked placed =>
      have noText : node.form.text? = none := by rw [form]; rfl
      have noLeaves : node.leaves.Perm [] := by
        simpa [form, Form.children, Form.fields, Field.toList] using Node.leaves_perm noText
      exact (ReadInOrder.none _).perm noLeaves.symm

end Readings

namespace Program.Covers

variable {options : Options} {source : List UInt8} {program : Program} {pieces : List Piece}

theorem readInOrder (covers : program.Covers options source pieces) :
    ReadInOrder (LineIndex.ofSource source) program.root.leaves
      (Lexer.ofSource options.shortTags source).tokens := by
  have read := ReadInOrder.of_pieces fun child tokens member =>
    (covers.laid child tokens member).readInOrder
  have sameLeaves : ((nodesOf pieces).flatMap Node.leaves).Perm program.root.leaves := by
    have children : program.root.form.children = nodesOf pieces := by
      simp [covers.root, Form.children, Form.fields, Field.toList]
    rw [← children]
    exact (Node.leaves_perm (by rw [covers.root]; rfl)).symm
  obtain ⟨last, _, tokens⟩ := covers.tokens
  have among : (tokensOf pieces).Sublist (Lexer.ofSource options.shortTags source).tokens := by
    have significant := List.filter_sublist (p := Token.isSignificant)
      (l := (Lexer.ofSource options.shortTags source).tokens)
    rw [tokens] at significant
    exact (List.sublist_append_left _ [last]).trans significant
  exact (read.perm sameLeaves).mono among

end Program.Covers

/-- What was read from a token of the source quotes it. -/
theorem IsReading.quotes {shortTags : Bool} {source : List UInt8} {leaf : Node} {token : Token}
    (reading : IsReading (LineIndex.ofSource source) (leaf, token))
    (member : token ∈ (Lexer.ofSource shortTags source).tokens) :
    leaf.QuotesToken source token := by
  obtain ⟨⟨kind, form, fits⟩, placed⟩ := reading
  exact ⟨⟨_, placed, rfl, rfl⟩, kind, token.bytes, Lexer.slice?_span_of_mem member, form, fits⟩

/-- A leaf that quotes two tokens finds them in the same place. -/
theorem IsReading.place_eq {source : List UInt8} {leaf : Node} {token other : Token}
    (reading : IsReading (LineIndex.ofSource source) (leaf, token))
    (quotes : leaf.QuotesToken source other) :
    token.start = other.start ∧ token.stop = other.stop := by
  obtain ⟨position, placed, start, stop⟩ := quotes.extent
  obtain rfl : (LineIndex.ofSource source).position token.span = position :=
    Option.some.inj (reading.placed.symm.trans placed)
  exact ⟨start, stop⟩

theorem IsReading.covers {lines : LineIndex} {reading : Node × Token} {offset : Nat}
    {tokens : List Token} (isReading : IsReading lines reading) (stream : Stream offset tokens)
    (member : reading.2 ∈ tokens) : reading.2.start < reading.2.stop := by
  obtain ⟨⟨kind, _, fits⟩, _⟩ := isReading
  exact stream.covers reading.2 member (YieldsNodes.ne_eof_of_fits fits)

/-- Every leaf of a program quotes a token of the source, and no two leaves quote the same. -/
theorem leaves_quote_tokens {options : Options} {source : List UInt8} {program : Program}
    (parsed : parse options source = some program) :
    (∀ leaf ∈ program.root.leaves,
      ∃ token ∈ (Lexer.ofSource options.shortTags source).tokens, leaf.QuotesToken source token) ∧
    program.root.leaves.Pairwise fun first second =>
      ∀ token, first.QuotesToken source token → ¬ second.QuotesToken source token := by
  obtain ⟨pieces, covers⟩ := parse_covers parsed
  obtain ⟨readings, areLeaves, areTokens, each⟩ := covers.readInOrder
  constructor
  · intro leaf member
    obtain ⟨⟨same, token⟩, inside, rfl⟩ := List.mem_map.mp (areLeaves.mem_iff.mpr member)
    have inStream := areTokens.subset (List.mem_map_of_mem inside)
    exact ⟨token, inStream, (each _ inside).quotes inStream⟩
  · have stream := (Lexer.ofSource options.shortTags source).tokens_stream
    have apart : readings.Pairwise fun early late => early.2.stop ≤ late.2.start :=
      List.pairwise_map.mp (stream.ordered.sublist areTokens)
    refine (areLeaves.pairwise_iff fun apart token quotes also => apart token also quotes).mp
      (List.pairwise_map.mpr (apart.imp_of_mem ?_))
    intro early late earlyMember lateMember before token quotes alsoQuotes
    have earlyPlace := (each early earlyMember).place_eq quotes
    have latePlace := (each late lateMember).place_eq alsoQuotes
    have covers := (each early earlyMember).covers stream
      (areTokens.subset (List.mem_map_of_mem earlyMember))
    omega

theorem leaves_quote_tokens_broken :
    ∃ program, parse {} (bytesOf "<?php A::if(2.5); f($y") = some program ∧
      program.errors ≠ [] ∧ program.root.leaves.length = 5 ∧
      ∀ leaf ∈ program.root.leaves,
        ∃ token ∈ (Lexer.ofSource false
            (bytesOf "<?php A::if(2.5); f($y")).tokens,
          leaf.QuotesToken (bytesOf "<?php A::if(2.5); f($y") token := by
  have broken : (parse {} (bytesOf "<?php A::if(2.5); f($y")).any
      (fun program => !program.errors.isEmpty && program.root.leaves.length == 5) = true := by
    decide +kernel
  obtain ⟨program, parsed, facts⟩ := (Option.any_eq_true _ _).mp broken
  obtain ⟨blamed, count⟩ := Bool.and_eq_true_iff.mp facts
  exact ⟨program, parsed, by simpa using blamed, by simpa using count,
    (leaves_quote_tokens parsed).1⟩

end PhpTree
