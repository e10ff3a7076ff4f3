import PhpTree.Proofs.CursorAgreement
import PhpTree.Proofs.Gaps
import PhpTree.Proofs.Standing
import PhpTree.Proofs.Tiling

/-! # The list of errors

Errors are recorded where the cursor stands, and the cursor does not go back.  So the
errors that the grammar reports come in the order of their offsets, and comparing
with the last one is enough to record none twice.  Comments that were never closed are
recorded ahead of the cursor, as soon as they come into view.  There is at most one of
them, and no token that the grammar reads begins where it does. -/
set_option autoImplicit false
namespace PhpTree

/-! ## Comments that were never closed -/

namespace Scan

/-- An error is a quote or a comment that reaches to the end of the input, or a single byte. -/
def IsFinal (input : List UInt8) (lexeme : Lexeme) : Prop :=
  lexeme.kind = .error → lexeme.length = input.length ∨ lexeme.length = 1

theorem script_isFinal (input : List UInt8) : IsFinal input (script input) := by
  by_cases left : input = []
  · rw [left]
    exact nofun
  intro isError
  rcases script_cases left with only | plain | quoted | line | block | close
  · exact .inr (congrArg Lexeme.length only)
  · rw [isError] at plain
    cases plain
  · fun_cases quoted? input <;> grind [quoted?]
  · grind [lineComment?]
  · grind [blockComment?]
  · grind [closeTag?]

theorem page_isFinal (shortTags : Bool) (input : List UInt8) :
    IsFinal input (page shortTags input) := by
  intro isError
  exfalso
  unfold page openTag? at isError
  repeat' split at isError
  all_goals simp at isError

end Scan

namespace Lexer

theorem lexeme_isFinal (lexer : Lexer) : Scan.IsFinal lexer.rest lexer.lexeme := by
  unfold lexeme
  split
  · exact Scan.page_isFinal lexer.shortTags lexer.rest
  · exact Scan.script_isFinal lexer.rest

/-- A comment that was never closed takes all that is left. -/
theorem next_rest_of_isUnterminatedComment {lexer : Lexer}
    (opened : lexer.next.1.isUnterminatedComment = true) : lexer.next.2.rest = [] := by
  simp only [Token.isUnterminatedComment, Bool.and_eq_true, beq_iff_eq] at opened
  obtain ⟨isError, opens⟩ := opened
  unfold next at isError opens ⊢
  generalize lexer.skipBlanks = stripped at *
  have long : 2 ≤ (stripped.rest.take stripped.lexeme.length).length :=
    Scan.length_le_of_isPrefixOf opens
  rcases stripped.lexeme_isFinal isError with whole | short
  · simp [take, skip, whole]
  · rw [short, List.length_take] at long
    omega

theorem length_filter_isUnterminatedComment (fuel : Nat) :
    ∀ lexer : Lexer,
      ((lexer.collect fuel []).filter Token.isUnterminatedComment).length ≤ 1 := by
  induction fuel with
  | zero => simp [collect]
  | succ fuel inductionHypothesis =>
      intro lexer
      simp only [collect]
      split
      · simpa using List.length_filter_le Token.isUnterminatedComment [lexer.next.1]
      · rw [collect_eq]
        cases opened : lexer.next.1.isUnterminatedComment with
        | false => simpa [opened] using inductionHypothesis lexer.next.2
        | true =>
            have stays := next_of_rest_eq_nil (next_rest_of_isUnterminatedComment opened)
            cases fuel with
            | zero => simp [collect, opened]
            | succ fuel =>
                have closed : ∀ offset : Nat,
                    (⟨.eof, offset, []⟩ : Token).isUnterminatedComment = false := fun _ => rfl
                simp [collect, stays, opened, closed]

end Lexer

/-! ## Errors and the tokens they are about -/

namespace ParseError

def isUnterminatedComment : ParseError → Bool
  | .unterminatedComment _ => true
  | _ => false

/-- Reported by the grammar. -/
def isReported (error : ParseError) : Bool := !error.isUnterminatedComment

def start (error : ParseError) : Nat := error.position.startOffset

def found? : ParseError → Option String
  | .unexpectedToken text _ _ => some (quoteToken text)
  | _ => none

/-- An error that is about a token. -/
def PointsAt (lines : LineIndex) (token : Token) : ParseError → Prop
  | .unexpectedToken text expected position =>
    token.kind ≠ .eof ∧
      (ParseError.unexpectedToken text expected position).found? = some (quoteToken token.text) ∧
      position = lines.position token.span
  | .unexpectedEnd _ position => token.kind = .eof ∧ position = lines.position token.span
  | .nestingTooDeep _ position => position = lines.position token.span
  | .unterminatedComment position =>
    token.isUnterminatedComment = true ∧ position = lines.position token.span

theorem PointsAt.start {lines : LineIndex} {token : Token} {error : ParseError}
    (points : error.PointsAt lines token) : error.start = token.start := by
  cases error with
  | unexpectedToken text expected position =>
      obtain ⟨_, _, rfl⟩ := points
      rfl
  | unexpectedEnd expected position =>
      obtain ⟨_, rfl⟩ := points
      rfl
  | unterminatedComment position =>
      obtain ⟨_, rfl⟩ := points
      rfl
  | nestingTooDeep limit position =>
      obtain rfl : position = _ := points
      rfl

end ParseError

/-- The error for a comment that was never closed. -/
def Token.unclosed (lines : LineIndex) (token : Token) : ParseError :=
  .unterminatedComment (lines.position token.span)

/-- How errors are on record: those of the grammar were reported at items up to the current one,
each later than the one before, and one at the current item is the last of all.  Comments that were
never closed are recorded or still hidden, in source order. -/
structure Cursor.RecordsInOrder (context : Context) (items : List Item)
    (cursor : Cursor) : Prop where
  stands : cursor.StandsAtItem items 0
  points : ∀ error ∈ cursor.errors, error.isReported = true →
    ∃ item ∈ items, error.PointsAt context.lines item.token
  reached : ∀ error ∈ cursor.errors, error.isReported = true → error.start ≤ cursor.start
  newest : ∀ error ∈ cursor.errors, error.isReported = true → error.start = cursor.start →
    cursor.errors.head? = some error
  ordered : (cursor.errors.filter ParseError.isReported).Pairwise fun newer older =>
    older.start < newer.start
  unclosed : (cursor.errors.filter ParseError.isUnterminatedComment).reverse ++
      cursor.hidden.map (Token.unclosed context.lines) =
    (items.flatMap Item.unterminated).map (Token.unclosed context.lines)

theorem Token.isUnterminatedComment_unclosed (lines : LineIndex) (tokens : List Token) :
    ∀ error ∈ (tokens.map (Token.unclosed lines)).reverse, error.isUnterminatedComment = true := by
  intro error member
  obtain ⟨token, _, rfl⟩ := List.mem_map.mp (List.mem_reverse.mp member)
  rfl

theorem Cursor.errors_view (context : Context) (cursor : Cursor) (item : Item) :
    (cursor.view context item).errors =
      (item.unterminated.map (Token.unclosed context.lines)).reverse ++ cursor.errors := by
  rw [view_eq]
  rfl

theorem Cursor.errors_lookAhead (context : Context) (cursor : Cursor) :
    (cursor.lookAhead context).errors =
      (((cursor.following.take 1).flatMap Item.unterminated).map
        (Token.unclosed context.lines)).reverse ++ cursor.errors := by
  unfold lookAhead
  split
  · rename_i item rest following
    rw [errors_view, following]
    simp
  · rename_i following
    simp [following]

namespace Cursor.RecordsInOrder

variable {context : Context} {items : List Item} {cursor : Cursor}

/-- Nothing that the errors depend on changes. -/
theorem of_same {other : Cursor} (recorded : cursor.RecordsInOrder context items)
    (stands : other.StandsAtItem items 0) (errors : other.errors = cursor.errors)
    (token : other.current.token = cursor.current.token)
    (following : other.following = cursor.following) : other.RecordsInOrder context items := by
  have start : other.start = cursor.start := congrArg Token.start token
  have hidden : other.hidden = cursor.hidden := by rw [Cursor.hidden, following, Cursor.hidden]
  refine ⟨stands, ?_, ?_, ?_, ?_, ?_⟩
  · rw [errors]
    exact recorded.points
  · rw [errors, start]
    exact recorded.reached
  · rw [errors, start]
    exact recorded.newest
  · rw [errors]
    exact recorded.ordered
  · rw [errors, hidden]
    exact recorded.unclosed

theorem record {error : ParseError} (recorded : cursor.RecordsInOrder context items)
    (reported : error.isReported = true)
    (points : error.PointsAt context.lines cursor.current.token) :
    (cursor.record error).RecordsInOrder context items := by
  have here : error.start = cursor.start := points.start
  unfold Cursor.record
  split
  · exact recorded
  · rename_i fresh
    have older : ∀ other ∈ cursor.errors, other.isReported = true → other.start < cursor.start := by
      intro other member otherReported
      refine Nat.lt_of_le_of_ne (recorded.reached other member otherReported) fun same => ?_
      refine fresh ?_
      rw [recorded.newest other member otherReported same]
      exact beq_iff_eq.mpr (same.trans here.symm)
    have notComment : error.isUnterminatedComment = false := by
      simpa [ParseError.isReported] using reported
    obtain ⟨earlier, item, split, current⟩ := recorded.stands.ahead
    refine ⟨recorded.stands.of_same rfl rfl rfl, ?_, ?_, ?_, ?_, ?_⟩
    · refine List.forall_mem_cons.mpr ⟨fun _ => ⟨item, by simp [split], ?_⟩, recorded.points⟩
      rw [current]
      exact points
    · exact List.forall_mem_cons.mpr ⟨fun _ => Nat.le_of_eq here, recorded.reached⟩
    · refine List.forall_mem_cons.mpr ⟨fun _ _ => rfl, fun other member otherReported same => ?_⟩
      exact absurd same (Nat.ne_of_lt (older other member otherReported))
    · show ((error :: cursor.errors).filter _).Pairwise _
      rw [List.filter_cons_of_pos reported]
      refine List.pairwise_cons.mpr ⟨fun other member => ?_, recorded.ordered⟩
      obtain ⟨listed, otherReported⟩ := List.mem_filter.mp member
      rw [here]
      exact older other listed otherReported
    · show ((error :: cursor.errors).filter _).reverse ++ _ = _
      rw [List.filter_cons_of_neg (by simp [notComment])]
      exact recorded.unclosed

theorem of_lookAhead (stands : cursor.StandsAtItem items 0)
    (points : ∀ error ∈ cursor.errors, error.isReported = true →
      ∃ item ∈ items, error.PointsAt context.lines item.token)
    (earlier : ∀ error ∈ cursor.errors, error.isReported = true → error.start < cursor.start)
    (ordered : (cursor.errors.filter ParseError.isReported).Pairwise fun newer older =>
      older.start < newer.start)
    (unclosed : (cursor.errors.filter ParseError.isUnterminatedComment).reverse ++
        (cursor.following.flatMap Item.unterminated).map (Token.unclosed context.lines) =
      (items.flatMap Item.unterminated).map (Token.unclosed context.lines)) :
    (cursor.lookAhead context).RecordsInOrder context items := by
  have viewed := cursor.errors_lookAhead context
  obtain ⟨_, _, equation, _⟩ := cursor.lookAhead_eq context
  have current : (cursor.lookAhead context).current = cursor.current := by rw [equation]
  have following : (cursor.lookAhead context).following = cursor.following := by rw [equation]
  have lastEnd : (cursor.lookAhead context).lastEnd = cursor.lastEnd := by rw [equation]
  have start : (cursor.lookAhead context).start = cursor.start := by rw [equation]; rfl
  generalize cursor.lookAhead context = after at *
  have comments := Token.isUnterminatedComment_unclosed context.lines
    ((cursor.following.take 1).flatMap Item.unterminated)
  have before : ∀ error ∈ after.errors, error.isReported = true → error ∈ cursor.errors := by
    intro error member reported
    rw [viewed] at member
    refine (List.mem_append.mp member).resolve_left fun inView => ?_
    simp [ParseError.isReported, comments error inView] at reported
  refine ⟨stands.of_same (by rw [current]) following lastEnd, ?_, ?_, ?_, ?_, ?_⟩
  · exact fun error member reported => points error (before error member reported) reported
  · intro error member reported
    rw [start]
    exact Nat.le_of_lt (earlier error (before error member reported) reported)
  · intro error member reported same
    have := earlier error (before error member reported) reported
    omega
  · have none : ((((cursor.following.take 1).flatMap Item.unterminated).map
        (Token.unclosed context.lines)).reverse).filter ParseError.isReported = [] := by
      refine List.filter_eq_nil_iff.mpr fun error member => ?_
      simp [ParseError.isReported, comments error member]
    rw [viewed, List.filter_append, none]
    exact ordered
  · have parts : (cursor.following.take 1).flatMap Item.unterminated ++ after.hidden =
        cursor.following.flatMap Item.unterminated := by
      rw [Cursor.hidden, following, ← List.flatMap_append, List.take_append_drop]
    rw [viewed, List.filter_append, List.filter_eq_self.mpr comments, List.reverse_append,
      List.reverse_reverse, List.append_assoc, ← List.map_append, parts]
    exact unclosed

theorem advance (recorded : cursor.RecordsInOrder context items) (stream : InStream items) :
    (cursor.advance context).RecordsInOrder context items := by
  have stands := recorded.stands.advance stream context
  cases next : cursor.following with
  | nil =>
      rw [advance_nil next] at stands ⊢
      exact recorded.of_same stands rfl rfl rfl
  | cons item rest =>
      have covers := recorded.stands.covers_before_next stream next
      have later : cursor.start < item.token.start := Nat.lt_of_lt_of_le covers.1 covers.2
      obtain ⟨_, _, equation, _⟩ := cursor.advance_cons context item rest next
      have entered : (cursor.enter item rest).StandsAtItem items 0 :=
        stands.of_same (by rw [equation]; rfl) (by rw [equation]; rfl) (by rw [equation]; rfl)
      rw [advance_eq_lookAhead next]
      refine of_lookAhead entered recorded.points ?_ recorded.ordered ?_
      · intro error member reported
        exact Nat.lt_of_le_of_lt (recorded.reached error member reported) later
      · have hidden : cursor.hidden = rest.flatMap Item.unterminated := by
          rw [Cursor.hidden, next]
          rfl
        have unclosed := recorded.unclosed
        rw [hidden] at unclosed
        exact unclosed

theorem step {after : Cursor} (stream : InStream items) (step : cursor.Step context after)
    (recorded : cursor.RecordsInOrder context items) : after.RecordsInOrder context items := by
  cases step with
  | advance => exact recorded.advance stream
  | report expected =>
      unfold Cursor.report
      by_cases ends : cursor.kind = .eof
      · rw [if_pos ends]
        exact recorded.record rfl ⟨ends, rfl⟩
      · rw [if_neg ends]
        exact recorded.record rfl ⟨ends, rfl, rfl⟩
  | reportTooDeep =>
      exact recorded.record rfl rfl
  | clearDoc => exact recorded.of_same (recorded.stands.of_same rfl rfl rfl) rfl rfl rfl
  | dropComments => exact recorded.of_same (recorded.stands.of_same rfl rfl rfl) rfl rfl rfl
  | note entry => exact recorded.of_same (recorded.stands.of_same rfl rfl rfl) rfl rfl rfl
  | nest depth => exact recorded.of_same (recorded.stands.of_same rfl rfl rfl) rfl rfl rfl

/-- Where a parse begins, all that is on record are comments in view. -/
theorem ofItems (context : Context) (item : Item) (following : List Item) :
    (Cursor.ofItems context item following).RecordsInOrder context (item :: following) := by
  unfold Cursor.ofItems
  rw [view_eq]
  have comments : ∀ error ∈ (item.unterminated.map (Token.unclosed context.lines)).reverse ++ [],
      error.isUnterminatedComment = true := by
    rw [List.append_nil]
    exact Token.isUnterminatedComment_unclosed context.lines item.unterminated
  have silent : ∀ error ∈ (item.unterminated.map (Token.unclosed context.lines)).reverse ++ [],
      ¬ error.isReported = true := by
    intro error member
    simp [ParseError.isReported, comments error member]
  refine of_lookAhead ⟨⟨[], item, rfl, rfl⟩, Nat.zero_le _, fun _ => Nat.zero_le _⟩
    (fun error member reported => absurd reported (silent error member))
    (fun error member reported => absurd reported (silent error member)) ?_ ?_
  · show
      (((item.unterminated.map (Token.unclosed context.lines)).reverse ++ []).filter _).Pairwise _
    rw [List.filter_eq_nil_iff.mpr silent]
    exact .nil
  · show
      (((item.unterminated.map (Token.unclosed context.lines)).reverse ++ []).filter _).reverse ++
      _ = _
    rw [List.filter_eq_self.mpr comments]
    simp

end Cursor.RecordsInOrder

def Survey.recording (context : Context) {items : List Item} (stream : InStream items) : Survey :=
  { plain context False with
    fits := Cursor.RecordsInOrder context items
    fits_step := fun step recorded => recorded.step stream step
    carries_doc := fun _ _ _ _ _ _ => trivial }

/-! ## Programs -/

/-- Errors are recorded once and in order. -/
theorem parse_recorded {options : Options} {source : List UInt8} {program : Program}
    (parsed : parse options source = some program) :
    ∃ last : Cursor,
      last.RecordsInOrder (Parser.ofSource options source).context
        (Item.gather (Lexer.ofSource options.shortTags source).tokens) ∧
      last.hidden = [] ∧ program.errors = last.errors.reverse := by
  have stream := inStream_gather (Lexer.ofSource options.shortTags source)
  have begins : (Parser.ofSource options source).cursor.RecordsInOrder
      (Parser.ofSource options source).context
      (Item.gather (Lexer.ofSource options.shortTags source).tokens) := by
    obtain ⟨item, following, gathered, begins⟩ := Parser.ofSource_items options source
    rw [gathered, begins]
    exact .ofItems _ item following
  obtain ⟨last, recorded, ends, errors, _⟩ := @Survey.fits_at_end
    (.recording (Parser.ofSource options source).context stream) options source program rfl
    (Grammar.closed_sorting (fun _ _ _ _ _ _ _ => trivial) fun _ _ _ _ _ _ _ => trivial) begins id
    parsed
  have recorded : last.RecordsInOrder _ _ := recorded
  refine ⟨last, recorded, ?_, errors⟩
  rw [Cursor.hidden, recorded.stands.following_eq_nil stream ends]
  rfl

/-- Where an error stands: an unexpected token is one that the grammar reads, with its text in
quotes, and a file ends unexpectedly behind its last byte. -/
def ParseError.IsPlaced (tokens : List Token) (source : List UInt8) (error : ParseError) : Prop :=
  match error with
  | .unexpectedToken .. =>
    ∃ token ∈ tokens, token.kind ≠ .eof ∧ token.isSignificant = true ∧
      error.found? = some (quoteToken token.text) ∧
      error.position = (LineIndex.ofSource source).position token.span
  | .unexpectedEnd .. =>
    error.position = (LineIndex.ofSource source).position ⟨source.length, source.length⟩
  | .unterminatedComment _ =>
    ∃ token ∈ tokens, token.isUnterminatedComment = true ∧
      error.position = (LineIndex.ofSource source).position token.span
  | .nestingTooDeep .. =>
    ∃ token ∈ tokens, error.position = (LineIndex.ofSource source).position token.span

theorem ParseError.PointsAt.isPlaced {shortTags : Bool} {source : List UInt8} {item : Item}
    {error : ParseError}
    (member : item ∈ Item.gather (Lexer.ofSource shortTags source).tokens)
    (points : error.PointsAt (LineIndex.ofSource source) item.token) :
    error.IsPlaced (Lexer.ofSource shortTags source).tokens source := by
  obtain ⟨listed, significant⟩ := Item.token_gather member
  cases error with
  | unexpectedToken text expected position =>
      obtain ⟨goesOn, found, placed⟩ := points
      exact ⟨item.token, listed, goesOn, significant, found, placed⟩
  | unexpectedEnd expected position =>
      obtain ⟨ends, rfl⟩ := points
      show LineIndex.position _ _ = _
      rw [Lexer.span_of_eof listed ends]
  | unterminatedComment position =>
      exact ⟨item.token, listed, points⟩
  | nestingTooDeep limit position =>
      exact ⟨item.token, listed, points⟩

section Reports

variable {options : Options} {source : List UInt8} {program : Program}

theorem unclosed_of_parse (parsed : parse options source = some program) :
    program.errors.filter ParseError.isUnterminatedComment =
      ((Lexer.ofSource options.shortTags source).tokens.filter
        Token.isUnterminatedComment).map (Token.unclosed (LineIndex.ofSource source)) := by
  obtain ⟨last, recorded, nothingHidden, errors⟩ := parse_recorded parsed
  have stream := (Lexer.ofSource options.shortTags source).tokens_stream
  have unclosed := recorded.unclosed
  rw [nothingHidden, Item.flatMap_unterminated stream, List.map_nil, List.append_nil] at unclosed
  rw [errors, List.filter_reverse]
  exact unclosed

theorem exists_token_of_unclosed (parsed : parse options source = some program)
    {error : ParseError} (isComment : error ∈ program.errors.filter
      ParseError.isUnterminatedComment) :
    ∃ token ∈ (Lexer.ofSource options.shortTags source).tokens,
      token.isUnterminatedComment = true ∧ token.unclosed (LineIndex.ofSource source) = error := by
  rw [unclosed_of_parse parsed] at isComment
  obtain ⟨token, kept, same⟩ := List.mem_map.mp isComment
  obtain ⟨listed, unterminated⟩ := List.mem_filter.mp kept
  exact ⟨token, listed, unterminated, same⟩

theorem reported_ordered_of_parse (parsed : parse options source = some program) :
    ((program.errors.filter ParseError.isReported).map ParseError.start).Pairwise (· < ·) := by
  obtain ⟨last, recorded, _, errors⟩ := parse_recorded parsed
  rw [errors, List.filter_reverse, List.map_reverse, List.pairwise_reverse]
  exact List.pairwise_map.mpr recorded.ordered

theorem exists_item_of_reported (parsed : parse options source = some program)
    {error : ParseError} (member : error ∈ program.errors) (reported : error.isReported = true) :
    ∃ item ∈ Item.gather (Lexer.ofSource options.shortTags source).tokens,
      error.PointsAt (LineIndex.ofSource source) item.token := by
  obtain ⟨last, recorded, _, errors⟩ := parse_recorded parsed
  rw [errors] at member
  exact recorded.points error (List.mem_reverse.mp member) reported

/-- The comments among the errors begin where no item does, and all else was reported at items. -/
theorem start_ne_of_unclosed (parsed : parse options source = some program)
    {comment error : ParseError}
    (isComment : comment ∈ program.errors.filter ParseError.isUnterminatedComment)
    (isReported : error ∈ program.errors.filter ParseError.isReported) :
    comment.start ≠ error.start := by
  have stream := (Lexer.ofSource options.shortTags source).tokens_stream
  obtain ⟨token, listed, unterminated, rfl⟩ := exists_token_of_unclosed parsed isComment
  obtain ⟨member, reported⟩ := List.mem_filter.mp isReported
  obtain ⟨item, read, pointsAt⟩ := exists_item_of_reported parsed member reported
  obtain ⟨holder, gathered, travels⟩ := Item.unterminated_of_mem stream token listed unterminated
  rw [pointsAt.start]
  exact Item.start_ne_of_gather stream holder gathered token travels item read

end Reports

/-- No two errors begin at the same offset, and those that the grammar reports come in order.
A comment that was never closed is an error and there is no more than one.  All errors are about
tokens of the source. -/
theorem parse_errors_in_order {options : Options} {source : List UInt8} {program : Program}
    (parsed : parse options source = some program) :
    (program.errors.map ParseError.start).Nodup ∧
      ((program.errors.filter ParseError.isReported).map ParseError.start).Pairwise (· < ·) ∧
      program.errors.filter ParseError.isUnterminatedComment =
        ((Lexer.ofSource options.shortTags source).tokens.filter
          Token.isUnterminatedComment).map (Token.unclosed (LineIndex.ofSource source)) ∧
      (program.errors.filter ParseError.isUnterminatedComment).length ≤ 1 ∧
      ∀ error ∈ program.errors,
        error.IsPlaced (Lexer.ofSource options.shortTags source).tokens source := by
  have stream := (Lexer.ofSource options.shortTags source).tokens_stream
  have comments := unclosed_of_parse parsed
  have ordered := reported_ordered_of_parse parsed
  have few : (program.errors.filter ParseError.isUnterminatedComment).length ≤ 1 := by
    rw [comments, List.length_map]
    exact Lexer.length_filter_isUnterminatedComment _ _
  refine ⟨?_, ordered, comments, few, fun error member => ?_⟩
  · have parts := (List.filter_append_perm ParseError.isUnterminatedComment program.errors).map
      ParseError.start
    rw [← parts.nodup_iff, List.map_append, List.nodup_append]
    refine ⟨?_, ordered.imp Nat.ne_of_lt, fun start inComments other inReported => ?_⟩
    · rw [comments, List.map_map]
      exact (stream.starts.sublist (List.filter_sublist.map _)).imp Nat.ne_of_lt
    · obtain ⟨comment, isComment, rfl⟩ := List.mem_map.mp inComments
      obtain ⟨error, isReported, rfl⟩ := List.mem_map.mp inReported
      exact start_ne_of_unclosed parsed isComment isReported
  · by_cases isComment : error.isUnterminatedComment = true
    · obtain ⟨token, listed, unterminated, rfl⟩ :=
        exists_token_of_unclosed parsed (List.mem_filter.mpr ⟨member, isComment⟩)
      exact ⟨token, listed, unterminated, rfl⟩
    · obtain ⟨item, read, pointsAt⟩ := exists_item_of_reported parsed member
        (by simpa [ParseError.isReported] using isComment)
      exact pointsAt.isPlaced read

theorem parse_errors_in_order_broken :
    ∃ program, parse {} (bytesOf "<?php $a = ; ) /* b") = some program ∧
      program.errors.map ParseError.start = [11, 15, 13] ∧
      (program.errors.map ParseError.start).Nodup := by
  have checked : (parse {} (bytesOf "<?php $a = ; ) /* b")).any (fun program =>
      program.errors.map ParseError.start == [11, 15, 13]) = true := by decide +kernel
  obtain ⟨program, parsed, starts⟩ := (Option.any_eq_true _ _).mp checked
  exact ⟨program, parsed, beq_iff_eq.mp starts, (parse_errors_in_order parsed).1⟩

end PhpTree
