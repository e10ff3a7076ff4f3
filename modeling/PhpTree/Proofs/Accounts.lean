import PhpTree.Proofs.Extents

/-! # Nothing is lost from an accepted source

A parse that ends without an error has skipped nothing.  Every token was read into a
leaf or stands for itself in a construct, and a token that says more than its kind
cannot stand for itself. -/
set_option autoImplicit false
namespace PhpTree

namespace TokenKind

/-- Tokens whose text matters. -/
def hasContent : TokenKind → Bool
  | .identifier | .variableName | .integer | .decimal | .string => true
  | _ => false

/-- Tokens that no construct consists of. -/
def isUnused : TokenKind → Bool
  | .openBracket | .closeBracket | .doubleArrow | .plus | .minus | .asterisk | .slash | .percent |
    .dot | .power | .increment | .decrement | .equal | .identical | .bang | .notEqual |
    .notIdentical | .less | .lessEqual | .greater | .greaterEqual | .spaceship | .pipe | .caret |
    .tilde | .shiftLeft | .shiftRight | .andAnd | .orOr | .coalesce | .atSign => true
  | _ => false

/-- What can be read without an error. -/
def isReadable (kind : TokenKind) : Bool := kind.isStructural || kind.hasContent

theorem hasContent_eq_false_of_isStructural {kind : TokenKind}
    (structural : kind.isStructural = true) : kind.hasContent = false := by
  cases kind <;> simp_all [isStructural, hasContent]

theorem isReadable_of_fits {leafKind : LeafKind} {kind : TokenKind}
    (fits : leafKind.fits kind = true) : kind.isReadable = true := by
  cases leafKind <;> cases kind <;>
    simp_all [LeafKind.fits, isReadable, isStructural, hasContent, isNameLike]

theorem ne_error_of_isReadable {kind : TokenKind} (readable : kind.isReadable = true) :
    kind ≠ .error ∧ kind.isUnused = false := by
  cases kind <;> simp_all [isReadable, isStructural, hasContent, isUnused]

end TokenKind

/-- A leaf whose extent is exactly the span. -/
def Node.isLeafAt (span : Span) (node : Node) : Bool :=
  node.text?.isSome && node.position.any fun position =>
    position.startOffset == span.start && position.endOffset == span.stop

/-- The leaves among the nodes that are placed at the span. -/
def leavesAt (span : Span) (nodes : List Node) : Nat :=
  (nodes.flatMap Node.nodes).countP (Node.isLeafAt span)

section Count
variable {lines : LineIndex} {span : Span}

/-- As many tokens as are at the span bound the leaves there, and those with content are all
among them. -/
def AccountsForSpan (span : Span) (nodes : List Node) (tokens : List Token) : Prop :=
  (tokens.countP fun token => token.kind.hasContent && token.span == span) ≤ leavesAt span nodes ∧
    leavesAt span nodes ≤ tokens.countP fun token => token.span == span

theorem AccountsForSpan.nil : AccountsForSpan span [] [] := ⟨by simp, by simp [leavesAt]⟩

theorem AccountsForSpan.append {first second : List Node} {front back : List Token}
    (before : AccountsForSpan span first front) (after : AccountsForSpan span second back) :
    AccountsForSpan span (first ++ second) (front ++ back) := by
  unfold AccountsForSpan leavesAt at *
  simp only [List.flatMap_append, List.countP_append]
  omega

theorem AccountsForSpan.loose {token : Token} (structural : token.kind.isStructural = true) :
    AccountsForSpan span [] [token] := by
  have empty := TokenKind.hasContent_eq_false_of_isStructural structural
  exact ⟨by simp [empty], by simp [leavesAt]⟩

theorem AccountsForSpan.of_pieces {pieces : List Piece}
    (children : ∀ child tokens, Piece.node child tokens ∈ pieces →
      AccountsForSpan span [child] tokens)
    (loose : ∀ token, Piece.loose token ∈ pieces → token.kind.isStructural = true) :
    AccountsForSpan span (nodesOf pieces) (tokensOf pieces) := by
  induction pieces with
  | nil => exact .nil
  | cons piece rest inductionHypothesis =>
      have remaining := inductionHypothesis
        (fun child tokens member => children child tokens (List.mem_cons_of_mem _ member))
        (fun token member => loose token (List.mem_cons_of_mem _ member))
      cases piece with
      | loose token => exact (AccountsForSpan.loose (loose token (by simp))).append remaining
      | node child tokens => exact (children child tokens (by simp)).append remaining

theorem leavesAt_inner {node : Node} {nodes : List Node} (inner : node.form.text? = none)
    (holds : node.form.HoldsFieldsInOrder nodes) : leavesAt span [node] = leavesAt span nodes := by
  have noLeaf : node.isLeafAt span = false := by simp [Node.isLeafAt, Node.text?, inner]
  unfold leavesAt
  rw [List.flatMap_singleton, node.nodes_perm.countP_eq, List.countP_cons, noLeaf]
  exact (holds.perm.flatMap_right Node.nodes).countP_eq _ |>.symm

theorem leavesAt_leaf {node : Node} {token : Token} {kind : LeafKind}
    (form : node.form = .leaf kind token.text)
    (placed : node.position = some (lines.position token.span)) :
    leavesAt span [node] = [token].countP fun token => token.span == span := by
  have only : node.nodes = [node] := Node.nodes_of_no_children (by rw [form]; rfl)
  have here : node.isLeafAt span = (token.span == span) := by
    cases span
    rw [Bool.eq_iff_iff]
    simp [Node.isLeafAt, Node.text?, form, Form.text?, placed, LineIndex.position, Token.span]
  simp [leavesAt, only, here, List.countP_singleton]

theorem LaidOut.accounted {node : Node} {tokens : List Token}
    (laid : LaidOut lines True node tokens) :
    AccountsForSpan span [node] tokens := by
  induction laid with
  | @leaf node token kind form fits placed =>
      rw [AccountsForSpan, leavesAt_leaf form placed]
      refine ⟨List.countP_mono_left fun token _ both => ?_, Nat.le_refl _⟩
      simp only [Bool.and_eq_true] at both
      exact both.2
  | @branch node tokens pieces first last inner read holds laid loose begins ends placed
      inductionHypothesis =>
      have counted := AccountsForSpan.of_pieces inductionHypothesis (loose trivial)
      rw [AccountsForSpan, leavesAt_inner inner holds, read]
      exact counted
  | hollow blamed form unmarked placed => exact absurd trivial blamed

theorem isReadable_of_pieces {pieces : List Piece}
    (children : ∀ child tokens, Piece.node child tokens ∈ pieces →
      ∀ token ∈ tokens, token.kind.isReadable = true)
    (loose : ∀ token, Piece.loose token ∈ pieces → token.kind.isStructural = true) :
    ∀ token ∈ tokensOf pieces, token.kind.isReadable = true := by
  intro token member
  obtain ⟨piece, inside, isOf⟩ := List.mem_flatMap.mp member
  cases piece with
  | loose own =>
      rw [List.mem_singleton.mp isOf, TokenKind.isReadable, loose own inside]
      rfl
  | node child tokens => exact children child tokens inside token isOf

theorem LaidOut.isReadable {node : Node} {tokens : List Token}
    (laid : LaidOut lines True node tokens) :
    ∀ token ∈ tokens, token.kind.isReadable = true := by
  induction laid with
  | leaf form fits placed => simpa using TokenKind.isReadable_of_fits fits
  | branch inner read holds laid loose begins ends placed inductionHypothesis =>
      rw [read]
      exact isReadable_of_pieces inductionHypothesis (loose trivial)
  | hollow blamed form unmarked placed => exact absurd trivial blamed

end Count

theorem InOrder.countP_span_le_one {tokens : List Token} (order : InOrder tokens) (span : Span) :
    (tokens.countP fun token => token.span == span) ≤ 1 := by
  induction tokens with
  | nil => simp
  | cons head rest inductionHypothesis =>
      have tail := inductionHypothesis (order.sublist (List.sublist_cons_self _ _))
      rw [List.countP_cons]
      split
      · rename_i same
        have others : (rest.countP fun token => token.span == span) = 0 := by
          rw [List.countP_eq_zero]
          intro token member equal
          have later := (List.pairwise_cons.mp order.ordered).1 token member
          have covers := order.covers head (by simp)
          have start : token.start = head.start :=
            congrArg Span.start ((eq_of_beq equal).trans (eq_of_beq same).symm)
          omega
        omega
      · exact tail

namespace Program.Covers

variable {options : Options} {source : List UInt8} {program : Program} {pieces : List Piece}

theorem root_accounted (covers : program.Covers options source pieces)
    (accepted : program.errors = []) (span : Span) :
    AccountsForSpan span [program.root] (tokensOf pieces) := by
  have holds : program.root.form.HoldsFieldsInOrder (nodesOf pieces) :=
    .of_children (by rw [covers.root]; simp [Form.children, Form.fields, Field.toList])
  rw [AccountsForSpan, leavesAt_inner (by rw [covers.root]; rfl) holds]
  refine AccountsForSpan.of_pieces (fun child tokens member => ?_) (covers.loose accepted)
  exact ((covers.laid child tokens member).weaken fun _ => accepted).accounted

theorem root_isReadable (covers : program.Covers options source pieces)
    (accepted : program.errors = []) :
    ∀ token ∈ tokensOf pieces, token.kind.isReadable = true := by
  refine isReadable_of_pieces (fun child tokens member => ?_) (covers.loose accepted)
  exact ((covers.laid child tokens member).weaken fun _ => accepted).isReadable

theorem token_cases (covers : program.Covers options source pieces)
    (accepted : program.errors = []) {token : Token}
    (member : token ∈ (Lexer.ofSource options.shortTags source).tokens) :
    token.kind.isTrivia = true ∨ token ∈ tokensOf pieces ∨ token.kind = .eof := by
  by_cases significant : token.isSignificant = true
  · obtain ⟨last, ends, tokens⟩ := covers.tokens
    have kept : token ∈ tokensOf pieces ++ [last] := by
      rw [← tokens]
      exact List.mem_filter.mpr ⟨member, significant⟩
    rcases List.mem_append.mp kept with read | same
    · exact Or.inr (Or.inl read)
    · exact Or.inr (Or.inr (List.mem_singleton.mp same ▸ ends))
  · have closed := covers.comments accepted token member
    simp only [Token.isSignificant, closed, Bool.or_false, Bool.not_eq_true,
      Bool.not_eq_false'] at significant
    exact Or.inl significant

end Program.Covers

/-- In an accepted source every token with content is the extent of exactly one leaf, and there
are neither broken tokens nor tokens that no construct consists of. -/
theorem accepted_accounts_for_tokens {options : Options} {source : List UInt8} {program : Program}
    (parsed : parse options source = some program) (accepted : program.errors = []) :
    ∀ token ∈ (Lexer.ofSource options.shortTags source).tokens,
      (token.kind.hasContent = true →
        program.root.nodes.countP (Node.isLeafAt token.span) = 1) ∧
      token.kind ≠ .error ∧ token.kind.isUnused = false := by
  obtain ⟨pieces, covers⟩ := parse_covers parsed
  intro token member
  rcases covers.token_cases accepted member with trivia | read | ends
  · have : token.kind.hasContent = false ∧ token.kind ≠ .error ∧ token.kind.isUnused = false := by
      cases kind : token.kind <;>
        simp_all [TokenKind.isTrivia, TokenKind.hasContent, TokenKind.isUnused]
    exact ⟨by simp [this.1], this.2⟩
  · refine ⟨fun content => ?_, TokenKind.ne_error_of_isReadable
      (covers.root_isReadable accepted token read)⟩
    obtain ⟨atLeast, atMost⟩ := covers.root_accounted accepted token.span
    have unique := covers.inOrder.countP_span_le_one token.span
    have present : 0 < (tokensOf pieces).countP fun other =>
        other.kind.hasContent && other.span == token.span :=
      List.countP_pos_iff.mpr ⟨token, read, by simp [content]⟩
    have counted : leavesAt token.span [program.root] =
        program.root.nodes.countP (Node.isLeafAt token.span) := by simp [leavesAt]
    omega
  · simp [ends, TokenKind.hasContent, TokenKind.isUnused]

theorem accepted_accounts_for_tokens_call :
    ∃ program, parse {} (bytesOf "<?php echo f(1.5, 'x', $y);") = some program ∧
      program.errors = [] ∧
      ∀ token ∈ (Lexer.ofSource false (bytesOf "<?php echo f(1.5, 'x', $y);")).tokens,
        token.kind.hasContent = true →
          program.root.nodes.countP (Node.isLeafAt token.span) = 1 := by
  have clean : (parse {} (bytesOf "<?php echo f(1.5, 'x', $y);")).any
      (fun program => program.errors.isEmpty) = true := by decide +kernel
  obtain ⟨program, parsed, empty⟩ := (Option.any_eq_true _ _).mp clean
  have accepted : program.errors = [] := List.isEmpty_iff.mp empty
  exact ⟨program, parsed, accepted, fun token member =>
    (accepted_accounts_for_tokens parsed accepted token member).1⟩

end PhpTree
