import PhpTree.Proofs.Passage

/-! # How a cursor moves on

A parse never takes errors back and never goes back to a token: its cursor moves onward.
What single steps keep is also kept by the skips, which are made of them. -/
set_option autoImplicit false
namespace PhpTree

structure Cursor.MovesOnward (before after : Cursor) : Prop where
  errors : before.errors <:+ after.errors
  tokens : after.tokens <:+ before.tokens

/-- What a parse can do to its cursor. -/
inductive Cursor.Step (context : Context) (cursor : Cursor) : Cursor → Prop where
  | advance : Step context cursor (cursor.advance context)
  | report (expected : Expected) : Step context cursor (cursor.report context expected)
  | reportTooDeep : Step context cursor (cursor.reportTooDeep context)
  | clearDoc : Step context cursor cursor.clearDoc
  | dropComments : Step context cursor cursor.dropComments
  | note (entry : JournalEntry) : Step context cursor (cursor.note entry)
  | nest (depth : Nat) : Step context cursor { cursor with depth }

namespace Cursor

theorem MovesOnward.refl (cursor : Cursor) : cursor.MovesOnward cursor :=
  ⟨List.suffix_refl _, List.suffix_refl _⟩

theorem MovesOnward.trans {before middle after : Cursor} (first : before.MovesOnward middle)
    (second : middle.MovesOnward after) : before.MovesOnward after :=
  ⟨first.errors.trans second.errors, second.tokens.trans first.tokens⟩

/-- Errors that are on record stay there. -/
theorem MovesOnward.clean_before {before after : Cursor} (onward : before.MovesOnward after)
    (clean : after.errors = []) : before.errors = [] := by
  have fewer := onward.errors
  rw [clean] at fewer
  exact List.suffix_nil.mp fewer

theorem onward_advance (context : Context) (cursor : Cursor) :
    cursor.MovesOnward (cursor.advance context) := by
  cases following : cursor.following with
  | nil => exact ⟨by simp [advance, following], by simp [advance, tokens, following]⟩
  | cons item rest =>
      obtain ⟨errors, journal, equation, _⟩ := advance_cons context cursor item rest following
      rw [equation]
      refine ⟨List.suffix_append _ _, ?_⟩
      simp only [tokens, following, List.map_cons]
      exact List.suffix_cons _ _

theorem onward_record (cursor : Cursor) (error : ParseError) :
    cursor.MovesOnward (cursor.record error) := by
  obtain ⟨errors, journal, equation⟩ := cursor.record_eq error
  rw [equation]
  exact ⟨List.suffix_append _ _, List.suffix_refl _⟩

/-! ## Skips -/

/-- What is so of a cursor stays so while tokens are passed over. -/
structure HoldsThroughout (context : Context) (holds : Cursor → Prop) : Prop where
  advance : ∀ {cursor : Cursor}, holds cursor → holds (cursor.advance context)
  note : ∀ {cursor : Cursor} (entry : JournalEntry), holds cursor → holds (cursor.note entry)
  clearDoc : ∀ {cursor : Cursor}, holds cursor → holds cursor.clearDoc

namespace HoldsThroughout

variable {context : Context} {holds : Cursor → Prop} {cursor : Cursor}

theorem advanceWhile (lasts : HoldsThroughout context holds) (accepts : TokenKind → Bool)
    (fuel : Nat) :
    ∀ {cursor : Cursor}, holds cursor → holds (cursor.advanceWhile context accepts fuel) := by
  induction fuel with
  | zero => exact id
  | succ fuel inductionHypothesis =>
      intro cursor held
      simp only [Cursor.advanceWhile]
      split
      · exact inductionHypothesis (lasts.advance held)
      · exact held

theorem skipToStatementEnd (lasts : HoldsThroughout context holds) (held : holds cursor) :
    holds (cursor.skipToStatementEnd context) := by
  have passed := lasts.advanceWhile (fun kind => !endsStatement kind) cursor.remaining
    (lasts.note (.skippingToStatementEnd cursor.start) held)
  simp only [Cursor.skipToStatementEnd]
  split
  · exact lasts.clearDoc (lasts.advance passed)
  · exact lasts.clearDoc passed

theorem skipBalanced (lasts : HoldsThroughout context holds) (fuel : Nat) :
    ∀ (opened : Nat) {cursor : Cursor}, holds cursor →
      holds (cursor.skipBalanced context fuel opened) := by
  induction fuel with
  | zero => exact fun _ _ => id
  | succ fuel inductionHypothesis =>
      intro opened cursor held
      have further : ∀ opened, holds ((cursor.advance context).skipBalanced context fuel opened) :=
        fun opened => inductionHypothesis opened (lasts.advance held)
      unfold Cursor.skipBalanced
      repeat' split
      all_goals first
        | exact held
        | exact lasts.advance held
        | exact further _

theorem skipStatement (lasts : HoldsThroughout context holds) (held : holds cursor) :
    holds (cursor.skipStatement context) :=
  lasts.clearDoc (lasts.skipBalanced _ _ (lasts.note (.skippingStatement cursor.start) held))

end HoldsThroughout

theorem lasts_onward (context : Context) (cursor : Cursor) :
    HoldsThroughout context cursor.MovesOnward where
  advance onward := onward.trans (onward_advance context _)
  note _ onward := ⟨onward.errors, onward.tokens⟩
  clearDoc onward := ⟨onward.errors, onward.tokens⟩

theorem onward_skipToStatementEnd (context : Context) (cursor : Cursor) :
    cursor.MovesOnward (cursor.skipToStatementEnd context) :=
  (lasts_onward context cursor).skipToStatementEnd (.refl cursor)

theorem onward_skipStatement (context : Context) (cursor : Cursor) :
    cursor.MovesOnward (cursor.skipStatement context) :=
  (lasts_onward context cursor).skipStatement (.refl cursor)

theorem depth_advance (context : Context) (cursor : Cursor) :
    (cursor.advance context).depth = cursor.depth := by
  cases following : cursor.following with
  | nil => simp only [advance, following]
  | cons next rest =>
      obtain ⟨errors, journal, equation, _⟩ := cursor.advance_cons context next rest following
      rw [equation]

theorem depth_record (cursor : Cursor) (error : ParseError) :
    (cursor.record error).depth = cursor.depth := by
  obtain ⟨errors, journal, equation⟩ := cursor.record_eq error
  rw [equation]

theorem lasts_depth (context : Context) (depth : Nat) :
    HoldsThroughout context fun cursor => cursor.depth = depth where
  advance same := (depth_advance context _).trans same
  note _ same := same
  clearDoc same := same

theorem depth_skipToStatementEnd (context : Context) (cursor : Cursor) :
    (cursor.skipToStatementEnd context).depth = cursor.depth :=
  (lasts_depth context cursor.depth).skipToStatementEnd rfl

theorem depth_skipStatement (context : Context) (cursor : Cursor) :
    (cursor.skipStatement context).depth = cursor.depth :=
  (lasts_depth context cursor.depth).skipStatement rfl

/-! ## Two contexts -/

/-! A context matters to a cursor only by the lines of its source. -/

theorem advance_congr {left right : Context} (lines : right.lines = left.lines) :
    Cursor.advance right = Cursor.advance left := by
  funext cursor
  simp only [advance, lookAhead, view, lines]

theorem report_congr {left right : Context} (lines : right.lines = left.lines) :
    Cursor.report right = Cursor.report left := by
  funext expected cursor
  simp only [report, position, lines]

theorem skipToStatementEnd_congr {left right : Context} (lines : right.lines = left.lines) :
    Cursor.skipToStatementEnd right = Cursor.skipToStatementEnd left := by
  have passed : Cursor.advanceWhile right = Cursor.advanceWhile left := by
    funext accepts fuel
    induction fuel with
    | zero => rfl
    | succ fuel inductionHypothesis =>
        funext cursor
        simp only [advanceWhile, advance_congr lines, inductionHypothesis]
  funext cursor
  simp only [skipToStatementEnd, passed, advance_congr lines]

theorem skipStatement_congr {left right : Context} (lines : right.lines = left.lines) :
    Cursor.skipStatement right = Cursor.skipStatement left := by
  have passed : ∀ fuel, Cursor.skipBalanced right fuel = Cursor.skipBalanced left fuel := by
    intro fuel
    induction fuel with
    | zero => rfl
    | succ fuel inductionHypothesis =>
        funext opened cursor
        simp only [skipBalanced, advance_congr lines, inductionHypothesis]
  funext cursor
  simp only [skipStatement, passed]

/-- A relation that two cursors keep when both pass over tokens. -/
structure AdvancesInStep (left right : Context) (related : Cursor → Cursor → Prop) : Prop where
  kind : ∀ {here there : Cursor}, related here there → here.kind = there.kind
  remaining : ∀ {here there : Cursor}, related here there → here.remaining = there.remaining
  advance : ∀ {here there : Cursor}, related here there →
    related (here.advance left) (there.advance right)
  note : ∀ {here there : Cursor} (entry : Cursor → JournalEntry), related here there →
    related (here.note (entry here)) (there.note (entry there))
  clearDoc : ∀ {here there : Cursor}, related here there → related here.clearDoc there.clearDoc

namespace AdvancesInStep

variable {left right : Context} {related : Cursor → Cursor → Prop} {here there : Cursor}

theorem advanceWhile (paced : AdvancesInStep left right related) (accepts : TokenKind → Bool)
    (fuel : Nat) :
    ∀ {here there : Cursor}, related here there →
      related (here.advanceWhile left accepts fuel) (there.advanceWhile right accepts fuel) := by
  induction fuel with
  | zero => exact id
  | succ fuel inductionHypothesis =>
      intro here there both
      simp only [Cursor.advanceWhile, paced.kind both]
      split
      · exact inductionHypothesis (paced.advance both)
      · exact both

theorem skipToStatementEnd (paced : AdvancesInStep left right related) (both : related here there) :
    related (here.skipToStatementEnd left) (there.skipToStatementEnd right) := by
  unfold Cursor.skipToStatementEnd
  rw [paced.remaining both]
  have passed := paced.advanceWhile (fun kind => !endsStatement kind) there.remaining
    (paced.note (fun cursor => .skippingToStatementEnd cursor.start) both)
  simp only [paced.kind passed]
  split
  · exact paced.clearDoc (paced.advance passed)
  · exact paced.clearDoc passed

theorem skipBalanced (paced : AdvancesInStep left right related) (fuel : Nat) :
    ∀ (opened : Nat) {here there : Cursor}, related here there →
      related (here.skipBalanced left fuel opened) (there.skipBalanced right fuel opened) := by
  induction fuel with
  | zero => exact fun _ _ _ => id
  | succ fuel inductionHypothesis =>
      intro opened here there both
      have further : ∀ opened,
          related ((here.advance left).skipBalanced left fuel opened)
            ((there.advance right).skipBalanced right fuel opened) :=
        fun opened => inductionHypothesis opened (paced.advance both)
      unfold Cursor.skipBalanced
      rw [paced.kind both]
      repeat' split
      all_goals first
        | exact both
        | exact paced.advance both
        | exact further _

theorem skipStatement (paced : AdvancesInStep left right related) (both : related here there) :
    related (here.skipStatement left) (there.skipStatement right) := by
  unfold Cursor.skipStatement
  rw [paced.remaining both]
  exact paced.clearDoc (paced.skipBalanced there.remaining 0
    (paced.note (fun cursor => .skippingStatement cursor.start) both))

end AdvancesInStep
/-- A relation of cursors that outlasts what leaves the tokens and the errors alone. -/
structure KeptInPlace (related : Cursor → Cursor → Prop) : Prop where
  depth : ∀ {here there : Cursor}, related here there → here.depth = there.depth
  nest : ∀ {here there : Cursor} (change : Nat → Nat), related here there →
    related { here with depth := change here.depth } { there with depth := change there.depth }
  clearDoc : ∀ {here there : Cursor}, related here there → related here.clearDoc there.clearDoc
  dropComments : ∀ {here there : Cursor}, related here there →
    related here.dropComments there.dropComments

theorem KeptInPlace.never : KeptInPlace fun _ _ => False where
  depth := False.elim
  nest _ := False.elim
  clearDoc := False.elim
  dropComments := False.elim

end Cursor

namespace Cursor.Step

variable {context : Context} {before after : Cursor}

theorem onward (step : before.Step context after) : before.MovesOnward after := by
  cases step with
  | advance => exact before.onward_advance context
  | report expected => exact before.onward_record _
  | reportTooDeep => exact before.onward_record _
  | clearDoc => exact ⟨List.suffix_rfl, List.suffix_rfl⟩
  | dropComments => exact ⟨List.suffix_rfl, List.suffix_rfl⟩
  | note entry => exact ⟨List.suffix_rfl, List.suffix_rfl⟩
  | nest depth => exact ⟨List.suffix_rfl, List.suffix_rfl⟩

/-- A step consumes a token or leaves the tokens alone; then the doc comment that waits is dropped
if it changes. -/
theorem stays_or_advances (step : before.Step context after) :
    after = before.advance context ∨
      after.current.token = before.current.token ∧ after.following = before.following ∧
        after.lastEnd = before.lastEnd ∧
        (after.pendingDoc = before.pendingDoc ∨ after.pendingDoc = none) := by
  have recorded : ∀ error, (before.record error).current.token = before.current.token ∧
      (before.record error).following = before.following ∧
      (before.record error).lastEnd = before.lastEnd ∧
      ((before.record error).pendingDoc = before.pendingDoc ∨
        (before.record error).pendingDoc = none) := by
    intro error
    obtain ⟨errors, journal, equation⟩ := before.record_eq error
    rw [equation]
    exact ⟨rfl, rfl, rfl, .inl rfl⟩
  cases step with
  | advance => exact .inl rfl
  | report expected => exact .inr (recorded _)
  | reportTooDeep => exact .inr (recorded _)
  | clearDoc => exact .inr ⟨rfl, rfl, rfl, .inr rfl⟩
  | dropComments => exact .inr ⟨rfl, rfl, rfl, .inl rfl⟩
  | note entry => exact .inr ⟨rfl, rfl, rfl, .inl rfl⟩
  | nest depth => exact .inr ⟨rfl, rfl, rfl, .inl rfl⟩

end Cursor.Step

end PhpTree
