import PhpTree.Proofs.Layout
import PhpTree.Proofs.RunMeets

/-! # What a parse does between two cursors

A passage is what lies between two cursors of one parse: the pieces that were read,
the errors that were added, the nesting that was kept.  `YieldsNodes` forgets the pieces
and keeps the nodes among them; it is what the lemmas about the grammar are stated
with.  Primitive steps yield what they read, and a node is put together from all
that was yielded since its start. -/
set_option autoImplicit false
namespace PhpTree

namespace Cursor

def tokens (cursor : Cursor) : List Token :=
  cursor.current.token :: cursor.following.map Item.token

/-- The tokens ahead are in source order and begin where the last consumed one ended, or later. -/
def Wf (cursor : Cursor) : Prop := Stream cursor.lastEnd cursor.tokens

/-- Comments ahead that were never closed and are not in view yet. -/
def hidden (cursor : Cursor) : List Token := (cursor.following.drop 1).flatMap Item.unterminated

theorem remaining_eq_length (cursor : Cursor) : cursor.remaining = cursor.tokens.length := by
  simp [remaining, tokens]

/-- An item that comes into view reports its unterminated comments and changes nothing else. -/
theorem view_eq (context : Context) (cursor : Cursor) (item : Item) :
    cursor.view context item =
      { cursor with
        errors := (item.unterminated.map fun token =>
          ParseError.unterminatedComment (context.lines.position token.span)).reverse ++
            cursor.errors
        journal := (item.unterminated.map fun token =>
          JournalEntry.unterminatedComment (context.lines.position token.span)).reverse ++
            cursor.journal } := by
  unfold view
  generalize item.unterminated = comments
  induction comments generalizing cursor with
  | nil => simp
  | cons comment rest inductionHypothesis =>
      rw [List.foldl_cons, inductionHypothesis]
      simp [note]

/-- The errors and the journal are all that looking ahead can change. -/
theorem lookAhead_eq (context : Context) (cursor : Cursor) :
    ∃ errors journal,
      cursor.lookAhead context =
        { cursor with errors := errors ++ cursor.errors, journal := journal ++ cursor.journal } ∧
      (errors = [] → ∀ item ∈ cursor.following.head?, item.unterminated = []) := by
  obtain ⟨current, following, pendingDoc, lastEnd, depth, errors, journal⟩ := cursor
  cases following with
  | nil => exact ⟨[], [], rfl, by simp⟩
  | cons item rest =>
      refine ⟨_, _, view_eq context _ item, ?_⟩
      intro none next found
      cases found
      simpa using none

theorem advance_cons (context : Context) (cursor : Cursor) (item : Item) (rest : List Item)
    (following : cursor.following = item :: rest) :
    ∃ errors journal,
      cursor.advance context =
        { cursor with
          current := item
          following := rest
          pendingDoc := (item.docComment?.map Token.text).or cursor.pendingDoc
          lastEnd := cursor.current.token.stop
          errors := errors ++ cursor.errors
          journal := journal ++ cursor.journal } ∧
      (errors = [] → ∀ next ∈ rest.head?, next.unterminated = []) := by
  simp only [advance, following]
  obtain ⟨errors, journal, equation, quiet⟩ := lookAhead_eq context
    { cursor with
      current := item
      following := rest
      pendingDoc := (item.docComment?.map Token.text).or cursor.pendingDoc
      lastEnd := cursor.current.token.stop }
  exact ⟨errors, journal, equation, quiet⟩

/-- Only the end of file has nothing after it. -/
theorem Wf.following_ne_nil {cursor : Cursor} (wf : cursor.Wf) (goesOn : cursor.kind ≠ .eof) :
    cursor.following ≠ [] := by
  intro empty
  have stream : Stream cursor.lastEnd [cursor.current.token] := by
    simpa [Wf, tokens, empty] using wf
  cases stream with
  | last after ends => exact goesOn ends
  | cons after goesOn covers tail => exact absurd rfl tail.ne_nil

/-- An error is on record after a report, the new one or one at the same offset. -/
theorem record_errors_ne_nil (cursor : Cursor) (error : ParseError) :
    (cursor.record error).errors ≠ [] := by
  unfold record
  split
  · rename_i repeated
    intro empty
    simp [empty] at repeated
  · simp

theorem record_eq (cursor : Cursor) (error : ParseError) :
    ∃ errors journal,
      cursor.record error =
        { cursor with
          errors := errors ++ cursor.errors
          journal := journal ++ cursor.journal } := by
  unfold record
  split
  · exact ⟨[], [], rfl⟩
  · exact ⟨[error], [.reported error], rfl⟩

theorem record_kind (cursor : Cursor) (error : ParseError) :
    (cursor.record error).kind = cursor.kind := by
  obtain ⟨errors, journal, equation⟩ := cursor.record_eq error
  rw [equation]
  rfl

/-- The items ahead of a later cursor were ahead before. The comments in front of an item are handed
out where a statement or a member begins, which goes on past it; only a member at a close tag does
not. -/
structure Reaches (before after : Cursor) : Prop where
  following : after.following <:+ before.following
  current : after.kind ≠ .closeTag →
    after.current :: after.following <:+ before.current :: before.following

theorem Reaches.of_same {before after : Cursor} (current : after.current = before.current)
    (following : after.following = before.following) : before.Reaches after := by
  refine ⟨?_, fun _ => ?_⟩ <;> simp [current, following]

theorem Reaches.trans {before middle after : Cursor} (first : before.Reaches middle)
    (second : middle.Reaches after) : before.Reaches after := by
  refine ⟨second.following.trans first.following, fun inside => ?_⟩
  rcases List.suffix_cons_iff.mp (second.current inside) with same | later
  · obtain ⟨current, following⟩ := List.cons.inj same
    rw [current, following]
    exact first.current (by rwa [kind, ← current])
  · exact (later.trans first.following).trans (List.suffix_cons _ _)

/-- Handing out comments makes no difference to what comes later. -/
theorem Reaches.of_dropComments {before after : Cursor}
    (reaches : before.dropComments.Reaches after)
    (moved : before.kind ≠ .closeTag → after.remaining < before.remaining) :
    before.Reaches after := by
  refine ⟨reaches.following, fun inside => ?_⟩
  rcases List.suffix_cons_iff.mp (reaches.current inside) with same | later
  · obtain ⟨current, following⟩ := List.cons.inj same
    have stays : after.remaining = before.remaining := by
      rw [remaining, following]
      rfl
    have kept : before.kind = after.kind := by
      rw [kind, kind, current]
      rfl
    have := moved (by rwa [kept])
    omega
  · exact later.trans (List.suffix_cons _ _)

end Cursor

/-- The pieces read from one cursor to another. -/
structure Passage (context : Context) (before : Cursor) (pieces : List Piece) (after : Cursor) :
    Prop where
  wf : after.Wf
  tokens : before.tokens = tokensOf pieces ++ after.tokens
  lastEnd : after.lastEnd = ((tokensOf pieces).getLast?.map Token.stop).getD before.lastEnd
  depth : after.depth = before.depth
  errors : before.errors <:+ after.errors
  /-- Without an error nothing came into view that was never closed. -/
  viewed : after.errors = [] → before.hidden = after.hidden
  laid : ∀ child tokens, Piece.node child tokens ∈ pieces →
    LaidOut context.lines (after.errors = []) child tokens
  /-- Without an error nothing was skipped. -/
  loose : after.errors = [] → ∀ token, Piece.loose token ∈ pieces →
    token.kind.isStructural = true
  reaches : before.Reaches after

namespace Passage

variable {context : Context} {before middle after : Cursor} {pieces more : List Piece}

theorem clean_before (passage : Passage context before pieces after)
    (clean : after.errors = []) : before.errors = [] := by
  have suffix := passage.errors
  rw [clean] at suffix
  exact List.suffix_nil.mp suffix

theorem trans (first : Passage context before pieces middle)
    (second : Passage context middle more after) :
    Passage context before (pieces ++ more) after where
  wf := second.wf
  tokens := by rw [first.tokens, second.tokens, tokensOf_append, List.append_assoc]
  lastEnd := by
    rw [second.lastEnd, first.lastEnd, tokensOf_append, List.getLast?_append]
    cases (tokensOf more).getLast? <;> rfl
  depth := second.depth.trans first.depth
  errors := first.errors.trans second.errors
  viewed clean := (first.viewed (second.clean_before clean)).trans (second.viewed clean)
  laid child tokens member := by
    rcases List.mem_append.mp member with member | member
    · exact (first.laid child tokens member).weaken second.clean_before
    · exact second.laid child tokens member
  loose clean token member := by
    rcases List.mem_append.mp member with member | member
    · exact first.loose (second.clean_before clean) token member
    · exact second.loose clean token member
  reaches := first.reaches.trans second.reaches

theorem idle (wf : before.Wf) (current : after.current = before.current)
    (following : after.following = before.following) (lastEnd : after.lastEnd = before.lastEnd)
    (depth : after.depth = before.depth) (errors : before.errors <:+ after.errors) :
    Passage context before [] after where
  wf := by
    unfold Cursor.Wf Cursor.tokens
    rw [current, following, lastEnd]
    exact wf
  tokens := by simp [Cursor.tokens, tokensOf, current, following]
  lastEnd := lastEnd
  depth := depth
  errors := errors
  viewed _ := by rw [Cursor.hidden, Cursor.hidden, following]
  laid := by simp
  loose := by simp
  reaches := .of_same current following

/-- Consuming a token, whatever piece it becomes. -/
theorem advance (wf : before.Wf) (goesOn : before.kind ≠ .eof) {piece : Piece}
    (tokens : piece.tokens = [before.current.token])
    (laid : ∀ child tokens, piece = .node child tokens →
      LaidOut context.lines ((before.advance context).errors = []) child tokens)
    (loose : (before.advance context).errors = [] → ∀ token, piece = .loose token →
      token.kind.isStructural = true) :
    Passage context before [piece] (before.advance context) := by
  obtain ⟨item, rest, following⟩ :=
    List.exists_cons_of_ne_nil (wf.following_ne_nil goesOn)
  obtain ⟨errors, journal, equation, quiet⟩ :=
    Cursor.advance_cons context before item rest following
  have only : tokensOf [piece] = [before.current.token] := by simp [tokensOf, tokens]
  have stream :
    Stream before.lastEnd (before.current.token :: item.token :: rest.map Item.token) := by
    simpa [Cursor.Wf, Cursor.tokens, following] using wf
  refine ⟨?_, ?_, ?_, ?_, ?_, ?_, ?_, ?_, ?_⟩
  · rw [equation]
    cases stream with
    | cons after goesOn covers tail => exact tail
  · rw [only, equation]
    simp [Cursor.tokens, following]
  · rw [only, equation]
    rfl
  · rw [equation]
  · rw [equation]
    exact List.suffix_append _ _
  · intro clean
    rw [equation] at clean ⊢
    have none : errors = [] := (List.append_eq_nil_iff.mp clean).1
    cases rest with
    | nil => simp [Cursor.hidden, following]
    | cons next tail =>
        have closed : next.unterminated = [] := quiet none next rfl
        simp [Cursor.hidden, following, closed]
  · intro child tokens member
    exact laid child tokens (List.mem_singleton.mp member).symm
  · intro clean token member
    exact loose clean token (List.mem_singleton.mp member).symm
  · rw [equation]
    refine ⟨?_, fun _ => ?_⟩ <;> simp [following]

theorem remaining (passage : Passage context before pieces after) :
    before.remaining = (tokensOf pieces).length + after.remaining := by
  simp [Cursor.remaining_eq_length, passage.tokens]

theorem positionFrom_eq (wf : before.Wf) (passage : Passage context before pieces after)
    {first last : Token} (begins : (tokensOf pieces).head? = some first)
    (ends : (tokensOf pieces).getLast? = some last) :
    after.positionFrom context before.start = context.lines.position ⟨first.start, last.stop⟩ := by
  have lastEnd : after.lastEnd = last.stop := by simp [passage.lastEnd, ends]
  have firstIs : first = before.current.token := by
    have heads := congrArg List.head? passage.tokens
    rw [List.head?_append, begins] at heads
    simpa [Cursor.tokens] using heads.symm
  have member : last ∈ before.tokens := by
    rw [passage.tokens]
    exact List.mem_append_left _ (List.mem_of_getLast? ends)
  have ordered : before.start ≤ last.stop := by
    have later := (Stream.from_head wf).after_offset last member
    exact Nat.le_trans later (Nat.le_add_right _ _)
  rw [Cursor.positionFrom, lastEnd, Nat.max_eq_left ordered, firstIs]
  rfl

theorem finish (wf : before.Wf) (passage : Passage context before pieces after) {node : Node}
    (inner : node.form.text? = none) (holds : node.form.HoldsFieldsInOrder (nodesOf pieces))
    (consumed : tokensOf pieces ≠ []) :
    Passage context before
      [.node (node.withPosition (after.positionFrom context before.start)) (tokensOf pieces)]
      after := by
  obtain ⟨first, begins⟩ := Option.ne_none_iff_exists'.mp
    (fun none => consumed (List.head?_eq_none_iff.mp none))
  obtain ⟨last, ends⟩ := Option.ne_none_iff_exists'.mp
    (fun none => consumed (List.getLast?_eq_none_iff.mp none))
  have same : tokensOf [Piece.node (node.withPosition (after.positionFrom context before.start))
      (tokensOf pieces)] = tokensOf pieces := by
    simp [tokensOf, Piece.tokens]
  refine ⟨passage.wf, ?_, ?_, passage.depth, passage.errors, passage.viewed, ?_, ?_,
    passage.reaches⟩
  · rw [same]
    exact passage.tokens
  · rw [same]
    exact passage.lastEnd
  · intro child tokens member
    rw [List.mem_singleton] at member
    cases member
    cases node with
    | mk info form =>
        refine .branch inner rfl holds passage.laid passage.loose begins ends ?_
        rw [← passage.positionFrom_eq wf begins ends]
        rfl
  · intro _ token member
    rw [List.mem_singleton] at member
    cases member

end Passage
end PhpTree
