import PhpTree.Proofs.Passage

/-! # The nodes a parse yields -/
set_option autoImplicit false
namespace PhpTree

/-- The nodes read from one cursor to another, in source order. -/
def YieldsNodes (context : Context) (before : Cursor) (nodes : List Node) (after : Cursor) : Prop :=
  ∃ pieces, Passage context before pieces after ∧ nodesOf pieces = nodes

namespace YieldsNodes

variable {context : Context} {before middle after : Cursor} {nodes more : List Node}

theorem wf (yields : YieldsNodes context before nodes after) : after.Wf := by
  obtain ⟨pieces, passage, _⟩ := yields
  exact passage.wf

theorem depth (yields : YieldsNodes context before nodes after) : after.depth = before.depth := by
  obtain ⟨pieces, passage, _⟩ := yields
  exact passage.depth

theorem remaining_le (yields : YieldsNodes context before nodes after) :
    after.remaining ≤ before.remaining := by
  obtain ⟨pieces, passage, _⟩ := yields
  have := passage.remaining
  omega

theorem kind_of_idle (yields : YieldsNodes context before nodes after)
    (idle : before.remaining ≤ after.remaining) : after.kind = before.kind := by
  obtain ⟨pieces, passage, _⟩ := yields
  have empty : tokensOf pieces = [] := by
    have := passage.remaining
    exact List.eq_nil_of_length_eq_zero (by omega)
  have same := passage.tokens
  rw [empty, List.nil_append] at same
  exact (congrArg Token.kind (List.head_eq_of_cons_eq same)).symm

theorem blamed (yields : YieldsNodes context before nodes after) (already : before.errors ≠ []) :
    after.errors ≠ [] := by
  obtain ⟨pieces, passage, _⟩ := yields
  exact fun clean => already (passage.clean_before clean)

theorem trans (first : YieldsNodes context before nodes middle)
    (second : YieldsNodes context middle more after) :
    YieldsNodes context before (nodes ++ more) after := by
  obtain ⟨pieces, passage, rfl⟩ := first
  obtain ⟨morePieces, morePassage, rfl⟩ := second
  exact ⟨pieces ++ morePieces, passage.trans morePassage, nodesOf_append _ _⟩

theorem andThen (first : YieldsNodes context before nodes middle)
    (second : YieldsNodes context middle [] after) : YieldsNodes context before nodes after := by
  have all := first.trans second
  rwa [List.append_nil] at all

/-! ## Steps that read nothing -/

theorem refl (wf : before.Wf) : YieldsNodes context before [] before :=
  ⟨[], .idle wf rfl rfl rfl rfl (List.suffix_refl _), rfl⟩

theorem clearDoc (wf : before.Wf) : YieldsNodes context before [] before.clearDoc :=
  ⟨[], .idle wf rfl rfl rfl rfl (List.suffix_refl _), rfl⟩

theorem note (wf : before.Wf) (entry : JournalEntry) :
    YieldsNodes context before [] (before.note entry) :=
  ⟨[], .idle wf rfl rfl rfl rfl (List.suffix_refl _), rfl⟩

theorem record (wf : before.Wf) (error : ParseError) :
    YieldsNodes context before [] (before.record error) := by
  obtain ⟨errors, journal, equation⟩ := before.record_eq error
  rw [equation]
  exact ⟨[], .idle wf rfl rfl rfl rfl (List.suffix_append _ _), rfl⟩

theorem report (wf : before.Wf) (expected : Expected) :
    YieldsNodes context before [] (before.report context expected) :=
  record wf _

theorem reportTooDeep (wf : before.Wf) :
    YieldsNodes context before [] (before.reportTooDeep context) :=
  record wf _

theorem of_deeper {depth : Nat}
    (yields : YieldsNodes context { before with depth := depth + 1 } nodes after)
    (same : before.depth = depth) :
    YieldsNodes context before nodes { after with depth := after.depth - 1 } := by
  obtain ⟨pieces, passage, nodesAre⟩ := yields
  refine ⟨pieces, ⟨passage.wf, passage.tokens, passage.lastEnd, ?_, passage.errors,
    passage.viewed, passage.laid, passage.loose, passage.reaches.following,
    passage.reaches.current⟩, nodesAre⟩
  show after.depth - 1 = before.depth
  rw [passage.depth, same]
  rfl

theorem of_dropComments (yields : YieldsNodes context before.dropComments nodes after)
    (moved : before.kind ≠ .closeTag → after.remaining < before.remaining) :
    YieldsNodes context before nodes after := by
  obtain ⟨pieces, passage, nodesAre⟩ := yields
  exact ⟨pieces, ⟨passage.wf, passage.tokens, passage.lastEnd, passage.depth, passage.errors,
    passage.viewed, passage.laid, passage.loose, passage.reaches.of_dropComments moved⟩, nodesAre⟩

/-! ## Steps that consume a token -/

theorem advance_lt (context : Context) (wf : before.Wf) (goesOn : before.kind ≠ .eof) :
    (before.advance context).remaining < before.remaining := by
  obtain ⟨item, rest, following⟩ :=
    List.exists_cons_of_ne_nil (wf.following_ne_nil goesOn)
  obtain ⟨errors, journal, equation, _⟩ :=
    Cursor.advance_cons context before item rest following
  rw [equation]
  simp [Cursor.remaining, following]

theorem advance_kind (context : Context) (wf : before.Wf) (goesOn : before.kind ≠ .eof) :
    (before.advance context).kind = before.nextKind := by
  obtain ⟨item, rest, following⟩ :=
    List.exists_cons_of_ne_nil (wf.following_ne_nil goesOn)
  obtain ⟨errors, journal, equation, _⟩ :=
    Cursor.advance_cons context before item rest following
  rw [equation]
  simp [Cursor.kind, Cursor.nextKind, following]

theorem ne_eof_of_isStructural {kind : TokenKind} (structural : kind.isStructural = true) :
    kind ≠ .eof := by
  rintro rfl
  simp [TokenKind.isStructural] at structural

theorem advance (wf : before.Wf) (structural : before.kind.isStructural = true) :
    YieldsNodes context before [] (before.advance context) := by
  refine ⟨[.loose before.current.token], ?_, rfl⟩
  refine Passage.advance wf (ne_eof_of_isStructural structural) rfl (by simp) ?_
  intro _ token same
  cases same
  exact structural

theorem token (context : Context) (wf : before.Wf) (structural : before.kind.isStructural = true) :
    YieldsNodes context before [] (before.advance context) ∧
      (before.advance context).remaining < before.remaining :=
  ⟨.advance wf structural, advance_lt context wf (ne_eof_of_isStructural structural)⟩

theorem clearDoc_token (context : Context) (wf : before.Wf)
    (structural : before.kind.isStructural = true) :
    YieldsNodes context before [] (before.clearDoc.advance context) ∧
      (before.clearDoc.advance context).remaining < before.remaining := by
  have undocumented := @clearDoc context before wf
  obtain ⟨passed, shorter⟩ := token context undocumented.wf structural
  exact ⟨undocumented.andThen passed, shorter⟩

theorem skip (wf : before.Wf) (goesOn : before.kind ≠ .eof) (already : before.errors ≠ []) :
    YieldsNodes context before [] (before.advance context) := by
  refine ⟨[.loose before.current.token], ?_, rfl⟩
  refine Passage.advance wf goesOn rfl (by simp) ?_
  obtain ⟨item, rest, following⟩ :=
    List.exists_cons_of_ne_nil (wf.following_ne_nil goesOn)
  obtain ⟨errors, journal, equation, _⟩ :=
    Cursor.advance_cons context before item rest following
  intro clean
  rw [equation] at clean
  exact absurd (List.append_eq_nil_iff.mp clean).2 already

/-! ## Skips

Tokens are passed over only when an error is on record. -/

/-- Nodes that are thrown away leave their tokens behind. -/
theorem discard (yields : YieldsNodes context before nodes after) (already : after.errors ≠ []) :
    YieldsNodes context before [] after := by
  obtain ⟨pieces, passage, _⟩ := yields
  have sameTokens : tokensOf ((tokensOf pieces).map Piece.loose) = tokensOf pieces := by
    simp [tokensOf, List.flatMap_map, Piece.tokens]
  refine ⟨(tokensOf pieces).map Piece.loose, ⟨passage.wf, ?_, ?_, passage.depth, passage.errors,
    passage.viewed, ?_, fun clean => absurd clean already, passage.reaches⟩, ?_⟩
  · rw [sameTokens]
    exact passage.tokens
  · rw [sameTokens]
    exact passage.lastEnd
  · simp
  · simp [nodesOf, List.filterMap_map, Piece.node?]

/-- Tokens are passed over up to the first that is not accepted. -/
theorem advanceWhile {accepts : TokenKind → Bool} (ends : accepts .eof = false) :
    ∀ (fuel : Nat) (before : Cursor), before.Wf → before.errors ≠ [] → before.remaining ≤ fuel →
      YieldsNodes context before [] (before.advanceWhile context accepts fuel) ∧
        (accepts before.kind = true →
          (before.advanceWhile context accepts fuel).remaining < before.remaining) := by
  intro fuel
  induction fuel with
  | zero =>
      intro before _ _ enough
      simp [Cursor.remaining] at enough
  | succ fuel inductionHypothesis =>
      intro before wf already enough
      simp only [Cursor.advanceWhile]
      split
      · rename_i accepted
        have goesOn : before.kind ≠ .eof := by
          intro isEof
          simp [isEof, ends] at accepted
        have first : YieldsNodes context before [] (before.advance context) :=
          skip wf goesOn already
        have shorter := advance_lt context wf goesOn
        obtain ⟨rest, _⟩ := inductionHypothesis (before.advance context) first.wf
          (first.blamed already) (by omega)
        have fewer := rest.remaining_le
        exact ⟨first.trans rest, fun _ => by omega⟩
      · rename_i refused
        exact ⟨refl wf, fun accepted => absurd accepted refused⟩

theorem endsStatement_eq_false {kind : TokenKind} (goesOn : Parse.endsBody kind = false)
    (inside : kind ≠ .closeTag) (unfinished : kind ≠ .semicolon) :
    Cursor.endsStatement kind = false := by
  cases kind <;> simp_all [Cursor.endsStatement, Parse.endsBody]

/-- A statement that is given up loses a token, unless it ends where it begins. -/
theorem skipToStatementEnd (wf : before.Wf) (already : before.errors ≠ []) :
    YieldsNodes context before [] (before.skipToStatementEnd context) ∧
      (Parse.endsBody before.kind = false → before.kind ≠ .closeTag →
        (before.skipToStatementEnd context).remaining < before.remaining) := by
  have noted := @note context before wf (.skippingToStatementEnd before.start)
  obtain ⟨passed, progress⟩ := @advanceWhile context
    (fun kind => !Cursor.endsStatement kind) rfl before.remaining
    (before.note (.skippingToStatementEnd before.start)) noted.wf already (Nat.le_refl _)
  have same : (before.note (.skippingToStatementEnd before.start)).remaining =
    before.remaining := rfl
  have fewer := passed.remaining_le
  unfold Cursor.skipToStatementEnd
  generalize Cursor.advanceWhile context _ before.remaining _ = stopped at *
  have reached := noted.trans passed
  by_cases isSemicolon : stopped.kind = .semicolon
  · have last : YieldsNodes context stopped [] (stopped.advance context) :=
      .advance passed.wf (by rw [isSemicolon]; rfl)
    have shorter := advance_lt context passed.wf (by simp [isSemicolon])
    simp only [if_pos isSemicolon]
    exact ⟨(reached.trans last).andThen (.clearDoc last.wf),
      fun _ _ => Nat.lt_of_lt_of_le shorter fewer⟩
  · simp only [if_neg isSemicolon]
    refine ⟨reached.andThen (.clearDoc reached.wf), fun goesOn inside => ?_⟩
    -- Either a token was passed over, or the skip began at one that it does not stop at.
    show stopped.remaining < before.remaining
    by_cases idle : before.remaining ≤ stopped.remaining
    · rw [reached.kind_of_idle idle] at isSemicolon
      refine progress ?_
      show (!Cursor.endsStatement before.kind) = true
      rw [endsStatement_eq_false goesOn inside isSemicolon]
      rfl
    · omega

theorem skipBalanced : ∀ (fuel opened : Nat) (before : Cursor), before.Wf →
    before.errors ≠ [] → before.remaining ≤ fuel →
    YieldsNodes context before [] (before.skipBalanced context fuel opened) ∧
      (Parse.endsBody before.kind = false → before.kind ≠ .closeTag →
        (before.skipBalanced context fuel opened).remaining < before.remaining) := by
  intro fuel
  induction fuel with
  | zero =>
      intro opened before _ _ enough
      simp [Cursor.remaining] at enough
  | succ fuel inductionHypothesis =>
      intro opened before wf already enough
      have first : before.kind ≠ .eof → YieldsNodes context before [] (before.advance context) :=
        fun goesOn => skip wf goesOn already
      have last : before.kind ≠ .eof → YieldsNodes context before [] (before.advance context) ∧
          (Parse.endsBody before.kind = false → before.kind ≠ .closeTag →
            (before.advance context).remaining < before.remaining) :=
        fun goesOn => ⟨first goesOn, fun _ _ => advance_lt context wf goesOn⟩
      have further : ∀ opened, before.kind ≠ .eof →
          YieldsNodes context before []
            ((before.advance context).skipBalanced context fuel opened) ∧
          (Parse.endsBody before.kind = false → before.kind ≠ .closeTag →
            ((before.advance context).skipBalanced context fuel opened).remaining <
              before.remaining) := by
        intro opened goesOn
        have shorter := advance_lt context wf goesOn
        obtain ⟨rest, _⟩ := inductionHypothesis opened (before.advance context)
          (first goesOn).wf ((first goesOn).blamed already) (by omega)
        have fewer := rest.remaining_le
        exact ⟨(first goesOn).trans rest, fun _ _ => by omega⟩
      unfold Cursor.skipBalanced
      split <;> rename_i here
      · exact ⟨refl wf, by simp [here, Parse.endsBody]⟩
      · split
        · exact last (by simp [here])
        · exact further _ (by simp [here])
      · split
        · exact ⟨refl wf, by simp [here]⟩
        · exact further _ (by simp [here])
      · split
        · exact ⟨refl wf, by simp [here, Parse.endsBody]⟩
        · split
          · exact last (by simp [here])
          · exact further _ (by simp [here])
      all_goals exact further _ (by first | assumption | simp [here])

theorem skipStatement (wf : before.Wf) (already : before.errors ≠ []) :
    YieldsNodes context before [] (before.skipStatement context) ∧
      (Parse.endsBody before.kind = false → before.kind ≠ .closeTag →
        (before.skipStatement context).remaining < before.remaining) := by
  have noted := @note context before wf (.skippingStatement before.start)
  obtain ⟨passed, progress⟩ := @skipBalanced context before.remaining 0
    (before.note (.skippingStatement before.start)) noted.wf already (Nat.le_refl _)
  exact ⟨(noted.trans passed).andThen (.clearDoc passed.wf), progress⟩

theorem ne_eof_of_fits {kind : LeafKind} {tokenKind : TokenKind}
    (fits : kind.fits tokenKind = true) : tokenKind ≠ .eof := by
  rintro rfl
  cases kind <;> simp [LeafKind.fits, TokenKind.isNameLike] at fits

theorem leaf (wf : before.Wf) {kind : LeafKind} (fits : kind.fits before.kind = true) :
    YieldsNodes context before
      [(Node.leaf kind before.current.token.text).withPosition (before.position context)]
      (before.advance context) := by
  refine ⟨[.node _ [before.current.token]], ?_, rfl⟩
  refine Passage.advance wf (ne_eof_of_fits fits) rfl ?_ (by simp)
  intro child tokens same
  cases same
  exact .leaf rfl fits rfl

/-! ## Nodes -/

/-- All that was read since the start becomes one node. -/
theorem finish (wf : before.Wf) (yields : YieldsNodes context before nodes after)
    (consumed : after.remaining < before.remaining) {node : Node}
    (inner : node.form.text? = none) (holds : node.form.HoldsFieldsInOrder nodes) :
    YieldsNodes context before [node.withPosition (after.positionFrom context before.start)]
      after := by
  obtain ⟨pieces, passage, rfl⟩ := yields
  refine ⟨_, passage.finish wf inner holds ?_, rfl⟩
  intro empty
  have := passage.remaining
  simp only [empty, List.length_nil] at this
  omega

/-- A parameter for which no token was consumed. -/
theorem finish_hollow (wf : before.Wf) (yields : YieldsNodes context before [] after)
    (idle : after.remaining = before.remaining) (already : after.errors ≠ []) :
    YieldsNodes context before
      [(Node.parameter none none none false false).withPosition
        (after.positionFrom context before.start)] after := by
  obtain ⟨pieces, passage, _⟩ := yields
  have empty : tokensOf pieces = [] := by
    have := passage.remaining
    exact List.eq_nil_of_length_eq_zero (by omega)
  have placed : after.positionFrom context before.start =
      context.lines.position ⟨before.start, before.start⟩ := by
    have lastEnd : after.lastEnd = before.lastEnd := by simp [passage.lastEnd, empty]
    have : before.lastEnd ≤ before.start :=
      Stream.after_offset wf before.current.token (List.mem_cons_self ..)
    rw [Cursor.positionFrom, lastEnd, Nat.max_eq_right this]
  refine ⟨[.node _ []], ⟨passage.wf, ?_, ?_, passage.depth, passage.errors, passage.viewed,
    ?_, ?_, passage.reaches⟩, rfl⟩
  · rw [passage.tokens, empty]
    rfl
  · rw [passage.lastEnd, empty]
    rfl
  · intro child tokens member
    rw [List.mem_singleton] at member
    cases member
    refine @LaidOut.hollow _ _ _ before.start already rfl ⟨rfl, rfl⟩ ?_
    rw [← placed]
    rfl
  · intro clean
    exact absurd clean already

theorem modifyAttributes {node : Node} (yields : YieldsNodes context before [node] after)
    {change : Attributes → Attributes}
    (keeps : ∀ attributes, (change attributes).byRef = attributes.byRef ∧
      (change attributes).variadic = attributes.variadic) :
    YieldsNodes context before [node.modifyAttributes change] after := by
  obtain ⟨pieces, passage, nodesAre⟩ := yields
  have sameTokens : tokensOf (pieces.map (Piece.mapNode (·.modifyAttributes change))) =
      tokensOf pieces := tokensOf_mapNode _ _
  refine ⟨pieces.map (Piece.mapNode (·.modifyAttributes change)), ⟨passage.wf, ?_, ?_,
    passage.depth, passage.errors, passage.viewed, ?_, ?_, passage.reaches⟩, ?_⟩
  · rw [sameTokens]
    exact passage.tokens
  · rw [sameTokens]
    exact passage.lastEnd
  · intro child tokens member
    obtain ⟨piece, inside, same⟩ := List.mem_map.mp member
    cases piece with
    | loose token => cases same
    | node original originalTokens =>
        cases same
        exact (passage.laid original tokens inside).modifyAttributes keeps
  · intro clean token member
    obtain ⟨piece, inside, same⟩ := List.mem_map.mp member
    cases piece with
    | loose original =>
        cases same
        exact passage.loose clean token inside
    | node original originalTokens => cases same
  · rw [nodesOf_mapNode, nodesAre]
    rfl

end YieldsNodes
end PhpTree
