import PhpTree.Proofs.CursorAgreement
import PhpTree.Proofs.ErrorOrder
import PhpTree.Proofs.ParseAgreement

/-! # Two pairings

`Pairing.alongside` joins two parses of items with the same gists.  They never part, and
they may have passed different doc comments.

`Pairing.across` joins a parse whose items end behind a semicolon to one whose items go
on there.  The parses are in step as long as no error is met, and part where the first
comes to its end. -/
set_option autoImplicit false
namespace PhpTree

/-- What a parse can come to see of a cursor, its nesting apart, is the same. -/
structure Cursor.KeepsTokens (before after : Cursor) : Prop where
  token : after.current.token = before.current.token
  following : after.following = before.following
  errors : after.errors = before.errors

theorem Cursor.KeepsTokens.kind {before after : Cursor} (idles : before.KeepsTokens after) :
    after.kind = before.kind := by
  rw [Cursor.kind, Cursor.kind, idles.token]

namespace Cursor

def exposed (context : Context) (items : List Item) : List ParseError :=
  (((items.take 1).flatMap Item.unterminated).map (Token.unclosed context.lines)).reverse

section Next
variable {context : Context} {cursor : Cursor} {item : Item} {rest : List Item}

theorem current_advance (next : cursor.following = item :: rest) :
    (cursor.advance context).current = item := by
  obtain ⟨errors, journal, equation, _⟩ := advance_cons context cursor item rest next
  rw [equation]

theorem following_advance (next : cursor.following = item :: rest) :
    (cursor.advance context).following = rest := by
  obtain ⟨errors, journal, equation, _⟩ := advance_cons context cursor item rest next
  rw [equation]

theorem errors_advance (next : cursor.following = item :: rest) :
    (cursor.advance context).errors = exposed context rest ++ cursor.errors := by
  rw [advance_eq_lookAhead next, errors_lookAhead]
  rfl

end Next

section Start
variable (context : Context) (item : Item) (following : List Item)

theorem current_ofItems : (ofItems context item following).current = item := by
  obtain ⟨errors, journal, equation, _⟩ := ofItems_eq context item following
  rw [equation]

theorem following_ofItems : (ofItems context item following).following = following := by
  obtain ⟨errors, journal, equation, _⟩ := ofItems_eq context item following
  rw [equation]

theorem depth_ofItems : (ofItems context item following).depth = 0 := by
  obtain ⟨errors, journal, equation, _⟩ := ofItems_eq context item following
  rw [equation]

theorem errors_ofItems : (ofItems context item following).errors =
    exposed context following ++ exposed context [item] := by
  rw [ofItems, errors_lookAhead, errors_view, view_eq]
  simp [exposed]

end Start

/-! ## What no parse can see makes no difference to a step -/

namespace KeepsTokens

variable {before after : Cursor} (idles : before.KeepsTokens after)
include idles

theorem symm : after.KeepsTokens before :=
  ⟨idles.token.symm, idles.following.symm, idles.errors.symm⟩

theorem advance (context : Context) :
    (before.advance context).KeepsTokens (after.advance context) := by
  cases next : before.following with
  | nil =>
      have ends : after.following = [] := by rw [idles.following, next]
      rw [advance_nil next, advance_nil ends]
      exact ⟨idles.token, idles.following, idles.errors⟩
  | cons item rest =>
      have goesOn : after.following = item :: rest := by rw [idles.following, next]
      refine ⟨?_, ?_, ?_⟩
      · rw [current_advance next, current_advance goesOn]
      · rw [following_advance next, following_advance goesOn]
      · rw [errors_advance next, errors_advance goesOn, idles.errors]

theorem record (error : ParseError) : (before.record error).KeepsTokens (after.record error) := by
  unfold Cursor.record
  rw [idles.errors]
  split
  · exact idles
  · exact ⟨idles.token, idles.following, rfl⟩

theorem report (context : Context) (expected : Expected) :
    (before.report context expected).KeepsTokens (after.report context expected) := by
  unfold Cursor.report Cursor.position
  rw [idles.kind, idles.token]
  exact idles.record _

theorem reportTooDeep (context : Context) :
    (before.reportTooDeep context).KeepsTokens (after.reportTooDeep context) := by
  unfold Cursor.reportTooDeep Cursor.position
  rw [idles.token]
  exact idles.record _

end KeepsTokens

theorem keepsTokens_clearDoc (cursor : Cursor) : cursor.KeepsTokens cursor.clearDoc :=
  ⟨rfl, rfl, rfl⟩

/-! ## Side by side -/

/-- Alike, doc comments that wait for a declaration aside. -/
def AgreesUpToPlacesAndDoc (here there : Cursor) : Prop :=
  here.clearDoc.AgreesUpToPlaces there.clearDoc

theorem HasDistinctStarts.of_keepsTokens {before after : Cursor} (apart : before.HasDistinctStarts)
    (idles : before.KeepsTokens after) : after.HasDistinctStarts := by
  have tokens : after.tokens = before.tokens := by
    rw [Cursor.tokens, Cursor.tokens, idles.token, idles.following]
  refine ⟨?_, ?_, ?_⟩
  · rw [tokens]
    exact apart.tokens
  · rw [tokens, idles.following]
    exact apart.unterminated
  · rw [idles.errors, idles.following]
    exact apart.errors

theorem AgreesUpToPlaces.agreesUpToPlacesAndDoc {one other here there : Cursor}
    (agrees : one.AgreesUpToPlaces other)
    (idles : one.KeepsTokens here) (otherIdles : other.KeepsTokens there)
    (depth : here.depth = there.depth) :
    here.AgreesUpToPlacesAndDoc there where
  face := by
    show here.current.token.face = there.current.token.face
    rw [idles.token, otherIdles.token, agrees.face]
  gists := by
    show here.following.map _ = there.following.map _
    rw [idles.following, otherIdles.following, agrees.gists]
  doc := rfl
  depth := depth
  errors := by
    show here.errors.map _ = there.errors.map _
    rw [idles.errors, otherIdles.errors, agrees.errors]
  blamed := by
    have blamed := agrees.blamed
    unfold isBlamed start at blamed ⊢
    show (here.errors.head?.any fun last => last.position.startOffset == here.current.token.start) =
      there.errors.head?.any fun last => last.position.startOffset == there.current.token.start
    rw [idles.errors, idles.token, otherIdles.errors, otherIdles.token, blamed]
  leftApart := agrees.leftApart.of_keepsTokens ⟨idles.token, idles.following, idles.errors⟩
  rightApart := agrees.rightApart.of_keepsTokens
    ⟨otherIdles.token, otherIdles.following, otherIdles.errors⟩

theorem AgreesUpToPlacesAndDoc.step {here there one other later behind : Cursor}
    (agree : here.AgreesUpToPlacesAndDoc there)
    (agrees : one.AgreesUpToPlaces other) (idles : one.KeepsTokens later)
    (otherIdles : other.KeepsTokens behind)
    (depth : later.depth = here.depth) (otherDepth : behind.depth = there.depth) :
    later.AgreesUpToPlacesAndDoc behind :=
  agrees.agreesUpToPlacesAndDoc idles otherIdles (by rw [depth, otherDepth]; exact agree.depth)

theorem AgreesUpToPlacesAndDoc.advance {left right : Context} {here there : Cursor}
    (agree : here.AgreesUpToPlacesAndDoc there) :
    (here.advance left).AgreesUpToPlacesAndDoc (there.advance right) :=
  agree.step (AgreesUpToPlaces.advance agree) (here.keepsTokens_clearDoc.symm.advance _)
    (there.keepsTokens_clearDoc.symm.advance _) (here.depth_advance _) (there.depth_advance _)

theorem AgreesUpToPlacesAndDoc.paced {left right : Context} :
    AdvancesInStep left right AgreesUpToPlacesAndDoc where
  kind {here there} agree := @AgreesUpToPlaces.kind here.clearDoc there.clearDoc agree
  remaining {here there} agree := @AgreesUpToPlaces.remaining here.clearDoc there.clearDoc agree
  advance := AgreesUpToPlacesAndDoc.advance
  note _ agree := AgreesUpToPlaces.note agree _ _
  clearDoc agree := agree

theorem AgreesUpToPlacesAndDoc.kept : KeptInPlace AgreesUpToPlacesAndDoc where
  depth agree := agree.depth
  nest change agree := AgreesUpToPlaces.withDepth agree change
  clearDoc agree := agree
  dropComments agree := AgreesUpToPlaces.dropComments agree

end Cursor

/-- Cursors whose items have the same gists. -/
def Pairing.alongside (left right : Context)
    (limit : left.options.maxDepth = right.options.maxDepth) : Pairing where
  __ := Pairing.upToPlaces left right limit
  aligned := Cursor.AgreesUpToPlacesAndDoc
  aligned_kept := Cursor.AgreesUpToPlacesAndDoc.kept
  kind {here there} agree := @Cursor.AgreesUpToPlaces.kind here.clearDoc there.clearDoc agree
  text {here there} agree := @Cursor.AgreesUpToPlaces.text here.clearDoc there.clearDoc agree
  nextKind {here there} agree _ :=
    @Cursor.AgreesUpToPlaces.nextKind here.clearDoc there.clearDoc agree
  note _ agree := Cursor.AgreesUpToPlaces.note agree _ _
  advance agree _ := agree.advance
  report {here there} expected agree _ :=
    agree.step (Cursor.AgreesUpToPlaces.report agree expected)
      (here.keepsTokens_clearDoc.symm.report _ _)
      (there.keepsTokens_clearDoc.symm.report _ _) (here.depth_record _) (there.depth_record _)
  reportTooDeep {here there} limit agree _ :=
    agree.step (Cursor.AgreesUpToPlaces.reportTooDeep agree limit)
      (here.keepsTokens_clearDoc.symm.reportTooDeep _)
        (there.keepsTokens_clearDoc.symm.reportTooDeep _)
      (here.depth_record _) (there.depth_record _)
  semicolon agree _ := .inl agree.advance
  skipToStatementEnd agree := .inl (Cursor.AgreesUpToPlacesAndDoc.paced.skipToStatementEnd agree)
  skipStatement agree _ := .inl (Cursor.AgreesUpToPlacesAndDoc.paced.skipStatement agree)
  start _ := trivial
  docView _ := none
  doc _ := rfl
  comments _ := trivial
  onLeft := Info.bared
  onRight := Info.bared
  settled _ := rfl
  token _ := rfl
  place _ _ accord := congrArg (fun attributes : Attributes => ({ attributes } : Info)) accord.flags
  prepend _ same := same

/-! ## Up to the last semicolon -/

namespace Cursor

theorem exposed_eq_nil {context : Context} {items : List Item}
    (closed : ∀ item ∈ items, item.unterminated = []) : exposed context items = [] := by
  cases items with
  | nil => rfl
  | cons item rest => simp [exposed, closed item (List.mem_cons_self ..)]

/-- Both cursors have the same items ahead, the last of them a semicolon. Then the left one comes
to the end and the right one goes on. -/
structure ApproachesBoundary (right : Context) (ending next : Item) (rest between : List Item)
    (here there : Cursor) : Prop where
  token : here.current.token = there.current.token
  following : here.following = between ++ [ending]
  others : there.following = between ++ next :: rest
  closed : ∀ item ∈ between, item.unterminated = []
  last : (between.map fun item => item.token.kind).getLastD here.kind = .semicolon
  depth : here.depth = there.depth
  errors : here.errors = []
  exposed : there.errors = exposed right there.following

structure StandsAtBoundary (right : Context) (next : Item) (rest : List Item)
    (here there : Cursor) :
    Prop where
  ends : here.kind = .eof
  following : here.following = []
  token : there.current.token = next.token
  others : there.following = rest
  depth : here.depth = there.depth
  errors : here.errors = []
  exposed : there.errors = (ofItems right next rest).errors

section Across
variable {left right : Context} {ending next item : Item} {rest between : List Item}
  {here there : Cursor}

namespace ApproachesBoundary

theorem kind_eq (approaches : ApproachesBoundary right ending next rest between here there) :
    here.kind = there.kind := congrArg Token.kind approaches.token

theorem idle {later behind : Cursor}
    (approaches : ApproachesBoundary right ending next rest between here there)
    (idles : here.KeepsTokens later) (otherIdles : there.KeepsTokens behind)
    (depth : later.depth = behind.depth) :
    ApproachesBoundary right ending next rest between later behind where
  token := by rw [idles.token, otherIdles.token, approaches.token]
  following := by rw [idles.following, approaches.following]
  others := by rw [otherIdles.following, approaches.others]
  closed := approaches.closed
  last := by rw [idles.kind, approaches.last]
  depth := depth
  errors := by rw [idles.errors, approaches.errors]
  exposed := by rw [otherIdles.errors, otherIdles.following, approaches.exposed]

theorem advance
    (approaches : ApproachesBoundary right ending next rest (item :: between) here there)
    (closed : ending.unterminated = []) :
    ApproachesBoundary right ending next rest between (here.advance left)
      (there.advance right) where
  token := by rw [current_advance approaches.following, current_advance approaches.others]
  following := following_advance approaches.following
  others := following_advance approaches.others
  closed := (List.forall_mem_cons.mp approaches.closed).2
  last := by
    have last := approaches.last
    rw [List.map_cons, List.getLastD_cons] at last
    rw [kind, current_advance approaches.following, last]
  depth := by rw [depth_advance, depth_advance, approaches.depth]
  errors := by
    have ahead := (List.forall_mem_cons.mp approaches.closed).2
    rw [errors_advance approaches.following, approaches.errors, exposed_eq_nil, List.nil_append]
    exact List.forall_mem_append.mpr ⟨ahead, by simpa using closed⟩
  exposed := by
    have shown : there.errors = [] := by
      rw [approaches.exposed, approaches.others]
      simp [Cursor.exposed, approaches.closed item (List.mem_cons_self ..)]
    rw [errors_advance approaches.others, shown, following_advance approaches.others]
    exact List.append_nil _

theorem arrive (approaches : ApproachesBoundary right ending next rest [] here there)
    (ends : ending.token.kind = .eof) :
    StandsAtBoundary right next rest (here.advance left) (there.advance right) where
  ends := by rw [kind, current_advance approaches.following, ends]
  following := following_advance approaches.following
  token := by rw [current_advance approaches.others]
  others := following_advance approaches.others
  depth := by rw [depth_advance, depth_advance, approaches.depth]
  errors := by
    rw [errors_advance approaches.following, approaches.errors]
    rfl
  exposed := by
    have shown := approaches.exposed
    rw [approaches.others] at shown
    rw [errors_advance approaches.others, shown, errors_ofItems]
    rfl

/-- Before another token there is an item left in common. -/
theorem exists_cons (approaches : ApproachesBoundary right ending next rest between here there)
    (inside : here.kind ≠ .semicolon) : ∃ item more, between = item :: more := by
  cases between with
  | nil => exact absurd approaches.last inside
  | cons item more => exact ⟨item, more, rfl⟩

theorem semicolon (approaches : ApproachesBoundary right ending next rest between here there)
    (ends : ending.token.kind = .eof) (closed : ending.unterminated = []) :
    (∃ fewer,
      ApproachesBoundary right ending next rest fewer (here.advance left) (there.advance right)) ∨
      StandsAtBoundary right next rest (here.advance left) (there.advance right) := by
  cases between with
  | nil => exact .inr (approaches.arrive ends)
  | cons item between => exact .inl ⟨between, approaches.advance closed⟩

/-- Passing over tokens stops at the last semicolon if not before it, for both cursors alike. -/
theorem advanceWhile {accepts : TokenKind → Bool} (stops : accepts .semicolon = false)
    (closed : ending.unterminated = []) (between : List Item) :
    ∀ {here there : Cursor} {fuel more : Nat}, between.length < fuel → between.length < more →
      ApproachesBoundary right ending next rest between here there →
      ∃ fewer, ApproachesBoundary right ending next rest fewer (here.advanceWhile left accepts fuel)
        (there.advanceWhile right accepts more) := by
  induction between with
  | nil =>
      intro here there fuel more enough otherEnough approaches
      obtain ⟨fuel, rfl⟩ := Nat.exists_eq_add_one_of_ne_zero (Nat.ne_zero_of_lt enough)
      obtain ⟨more, rfl⟩ := Nat.exists_eq_add_one_of_ne_zero (Nat.ne_zero_of_lt otherEnough)
      have stopped : here.kind = .semicolon := approaches.last
      simp only [Cursor.advanceWhile, ← approaches.kind_eq, stopped, stops, Bool.false_eq_true,
        if_false]
      exact ⟨_, approaches⟩
  | cons item between inductionHypothesis =>
      intro here there fuel more enough otherEnough approaches
      obtain ⟨fuel, rfl⟩ := Nat.exists_eq_add_one_of_ne_zero (Nat.ne_zero_of_lt enough)
      obtain ⟨more, rfl⟩ := Nat.exists_eq_add_one_of_ne_zero (Nat.ne_zero_of_lt otherEnough)
      simp only [Cursor.advanceWhile, ← approaches.kind_eq]
      split
      · exact inductionHypothesis (Nat.lt_of_succ_lt_succ enough)
          (Nat.lt_of_succ_lt_succ otherEnough) (approaches.advance closed)
      · exact ⟨_, approaches⟩

theorem skipToStatementEnd
    (approaches : ApproachesBoundary right ending next rest between here there)
    (ends : ending.token.kind = .eof) (closed : ending.unterminated = []) :
    (∃ fewer, ApproachesBoundary right ending next rest fewer (here.skipToStatementEnd left)
        (there.skipToStatementEnd right)) ∨
      StandsAtBoundary right next rest (here.skipToStatementEnd left)
        (there.skipToStatementEnd right) := by
  have noted : ApproachesBoundary right ending next rest between
      (here.note (.skippingToStatementEnd here.start))
      (there.note (.skippingToStatementEnd there.start)) :=
    approaches.idle ⟨rfl, rfl, rfl⟩ ⟨rfl, rfl, rfl⟩ approaches.depth
  have enough : between.length < here.remaining ∧ between.length < there.remaining := by
    rw [remaining, remaining, approaches.following, approaches.others, List.length_append,
      List.length_append]
    omega
  obtain ⟨fewer, stopped⟩ := @advanceWhile left _ _ _ _ (fun kind => !endsStatement kind) rfl
    closed between _ _ _ _ enough.1 enough.2 noted
  unfold Cursor.skipToStatementEnd
  simp only [← stopped.kind_eq]
  split
  · rcases @semicolon left _ _ _ _ _ _ _ stopped ends closed with ⟨fewer, approaches⟩ | arrived
    · exact .inl
        ⟨fewer, approaches.idle (keepsTokens_clearDoc _) (keepsTokens_clearDoc _) approaches.depth⟩
    · exact .inr { arrived with }
  · exact .inl ⟨fewer, stopped.idle (keepsTokens_clearDoc _) (keepsTokens_clearDoc _) stopped.depth⟩

end ApproachesBoundary

end Across
end Cursor

theorem Cursor.ApproachesBoundary.kept {right : Context} {ending next : Item} {rest : List Item} :
    KeptInPlace fun here there => ∃ between,
      ApproachesBoundary right ending next rest between here there where
  depth := fun ⟨_, approaches⟩ => approaches.depth
  nest change := fun ⟨between, approaches⟩ =>
    ⟨between, approaches.idle ⟨rfl, rfl, rfl⟩ ⟨rfl, rfl, rfl⟩ (congrArg change approaches.depth)⟩
  clearDoc := fun ⟨between, approaches⟩ =>
    ⟨between, approaches.idle ⟨rfl, rfl, rfl⟩ ⟨rfl, rfl, rfl⟩ approaches.depth⟩
  dropComments := fun ⟨between, approaches⟩ =>
    ⟨between, approaches.idle ⟨rfl, rfl, rfl⟩ ⟨rfl, rfl, rfl⟩ approaches.depth⟩

theorem Cursor.StandsAtBoundary.kept {right : Context} {next : Item} {rest : List Item} :
    KeptInPlace (StandsAtBoundary right next rest) where
  depth := StandsAtBoundary.depth
  nest change arrived := { arrived with depth := congrArg change arrived.depth }
  clearDoc arrived := { arrived with }
  dropComments arrived := { arrived with }

open Cursor in
/-- A source that ends behind a semicolon, and one that goes on there. -/
def Pairing.across (left right : Context) (limit : left.options.maxDepth ≤ right.options.maxDepth)
    (ending next : Item) (rest : List Item) (ends : ending.token.kind = .eof)
    (closed : ending.unterminated = []) : Pairing where
  toContexts := .errorFree left right limit
  parted := StandsAtBoundary right next rest
  parted_kept := StandsAtBoundary.kept
  kind_parted := StandsAtBoundary.ends
  report_parted _ _ := record_errors_ne_nil _ _
  aligned here there := ∃ between, ApproachesBoundary right ending next rest between here there
  aligned_kept := ApproachesBoundary.kept
  kind := fun ⟨_, approaches⟩ => approaches.kind_eq
  text := fun ⟨_, approaches⟩ => congrArg Token.text approaches.token
  nextKind := by
    rintro here there ⟨between, approaches⟩ inside
    obtain ⟨item, more, rfl⟩ := approaches.exists_cons inside
    simp only [Cursor.nextKind, approaches.following, approaches.others, List.cons_append]
  note entry := fun ⟨between, approaches⟩ =>
    ⟨between, approaches.idle ⟨rfl, rfl, rfl⟩ ⟨rfl, rfl, rfl⟩ approaches.depth⟩
  advance := by
    rintro here there ⟨between, approaches⟩ inside
    obtain ⟨item, more, rfl⟩ := approaches.exists_cons inside
    exact ⟨more, approaches.advance closed⟩
  report expected _ clean := absurd clean (record_errors_ne_nil _ _)
  reportTooDeep _ _ clean := absurd clean (record_errors_ne_nil _ _)
  semicolon := fun ⟨_, approaches⟩ _ => approaches.semicolon ends closed
  skipToStatementEnd := fun ⟨_, approaches⟩ => approaches.skipToStatementEnd ends closed
  skipStatement := fun ⟨_, approaches⟩ blamed => absurd approaches.errors blamed
  begins _ _ := True
  start _ := trivial
  docView _ := none
  doc _ := rfl
  annotates _ _ := True
  uncommented := trivial
  comments _ := trivial
  partners := .inr ⟨fun _ => ⟨0, trivial⟩, fun _ => ⟨[], trivial⟩⟩
  onLeft := Info.bared
  onRight := Info.bared
  settled _ := rfl
  token _ := rfl
  place _ _ accord := congrArg (fun attributes : Attributes => ({ attributes } : Info)) accord.flags
  prepend _ same := same

end PhpTree
