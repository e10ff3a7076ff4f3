import PhpTree.Proofs.Pairing.Revisions
import PhpTree.Proofs.Reading.Programs

/-! # Where reading comes to an end

The only place where a parse can stand still is the head of a class body, at a close
tag: what stands there is no member, and giving it up stops in front of it.  To speak
of a run that gets there, the grammar is opened at this point and a handler put in.
A run gets there when it matters to its outcome what the handler does. -/
set_option autoImplicit false
namespace PhpTree

namespace Grammar

/-- The grammar with a handler in place of a member that stands at a close tag. -/
def handling (handler : Parse (Option Node)) : (fuel : Nat) → Grammar
  | 0 => fun _ => Parse.outOfFuel
  | fuel + 1 => fun phrase =>
    match phrase with
    | .member => do
      if (← Parse.kind) = .closeTag then handler else Parse.member fuel (handling handler fuel)
    | phrase => rule fuel (handling handler fuel) phrase

end Grammar

namespace Parser

/-- Reading on to the end of the source comes to this result, given enough fuel. -/
def EndsIn (parser : Parser) (grammar : Nat → Grammar) (program : Program) (last : Cursor) : Prop :=
  ∃ fuel, Parse.program fuel (grammar fuel) parser.context parser.cursor = some (program, last)

/-- Reading comes to an end at all. -/
def Ends (parser : Parser) : Prop := ∃ program last, parser.EndsIn Grammar.closed program last

/-- The run gets to the head of a class body with a close tag as its current token: what is done
there makes a difference. -/
def MeetsCloseTag (parser : Parser) : Prop :=
  ∃ first second program last, parser.EndsIn (Grammar.handling first) program last ∧
    ¬ parser.EndsIn (Grammar.handling second) program last

end Parser

/-! ## Grammars that follow each other -/

theorem Parse.program_eq_map (fuel : Nat) (grammar : Grammar) (context : Context)
    (cursor : Cursor) :
    Parse.program fuel grammar context cursor =
      (collect fuel (topLevel grammar) context cursor).map fun result =>
        ({ root := .mk { attributes := { comments := result.2.comments context }
                         position := extent? result.1 } (.stmtList result.1)
           errors := result.2.errors.reverse },
          { result.2.dropComments with errors := [] }) := by
  show (collect fuel (topLevel grammar) context cursor).bind _ = _
  cases collect fuel (topLevel grammar) context cursor <;> rfl

theorem Parse.program_eq_some {fuel : Nat} {grammar : Grammar} {context : Context}
    {cursor last : Cursor} {program : Program} :
    Parse.program fuel grammar context cursor = some (program, last) ↔
      ∃ stmts between, collect fuel (topLevel grammar) context cursor = some (stmts, between) ∧
        program.root = .mk { attributes := { comments := between.comments context }
                             position := extent? stmts } (.stmtList stmts) ∧
        program.errors = between.errors.reverse ∧
        last = { between.dropComments with errors := [] } := by
  rw [program_eq_map, Option.map_eq_some_iff]
  constructor
  · rintro ⟨⟨stmts, between⟩, run, result⟩
    cases result
    exact ⟨stmts, between, run, rfl, rfl, rfl⟩
  · rintro ⟨stmts, between, run, root, errors, rfl⟩
    refine ⟨(stmts, between), run, ?_⟩
    cases program
    cases root
    cases errors
    rfl

theorem Parser.map_programWith {α : Type} (parser : Parser) (fuel : Nat) (view : Program → α) :
    (parser.programWith fuel).map (fun result => view result.1) =
      (Parse.program fuel (Grammar.closed fuel) parser.context parser.cursor).map
        fun result => view result.1 := by
  rw [programWith]
  cases Parse.program fuel (Grammar.closed fuel) parser.context parser.cursor <;> rfl

theorem Parser.ends_iff_isSome {parser : Parser} :
    parser.Ends ↔ ∃ fuel, (parser.programWith fuel).isSome = true := by
  constructor
  · rintro ⟨program, last, fuel, run⟩
    exact ⟨fuel, by rw [programWith, run]; rfl⟩
  · rintro ⟨fuel, some⟩
    obtain ⟨⟨program, after⟩, run⟩ := Option.isSome_iff_exists.mp some
    exact ⟨program, _, fuel, programWith_run run⟩

/-! A member at a close tag reads nothing and stays there. -/

theorem Cursor.skipToStatementEnd_kind {context : Context} {cursor : Cursor}
    (atTag : cursor.kind = .closeTag) :
    (cursor.skipToStatementEnd context).kind = .closeTag := by
  have stopped : Cursor.advanceWhile context (fun kind => !endsStatement kind) cursor.remaining
      (cursor.note (.skippingToStatementEnd cursor.start)) =
        cursor.note (.skippingToStatementEnd cursor.start) := by
    have noted : (cursor.note (.skippingToStatementEnd cursor.start)).kind = .closeTag := atTag
    simp [remaining, advanceWhile, noted, endsStatement]
  unfold skipToStatementEnd
  simp only [stopped]
  have noted : (cursor.note (.skippingToStatementEnd cursor.start)).kind = .closeTag := atTag
  rw [if_neg (by simp [noted])]
  exact atTag

theorem Parse.member_at_closeTag {fuel : Nat} {grammar : Grammar} {context : Context}
    {cursor : Cursor} (atTag : cursor.kind = .closeTag) :
    RunMeets True context (member fuel grammar) cursor fun _ after => after.kind = .closeTag := by
  unfold member
  have refused : RunMeets True context (modifiers fuel TokenKind.isModifier) cursor.dropComments
      fun _ after => after = cursor.dropComments := by
    unfold modifiers
    refine @RunMeets.collect Node True context cursor.dropComments _
      (fun _ after => after = cursor.dropComments) _ ?_ fuel rfl (Or.inl trivial)
    rintro found _ rfl
    have noModifier : TokenKind.isModifier cursor.dropComments.kind = false := by
      show TokenKind.isModifier cursor.kind = false
      rw [atTag]
      rfl
    refine RunMeets.kind ?_
    rw [if_neg (by simp [noModifier])]
    exact RunMeets.pure ⟨by simp, fun _ => rfl⟩
  refine RunMeets.start (RunMeets.takeComments (RunMeets.bind refused ?_))
  rintro modifiers _ rfl
  have here : cursor.dropComments.kind = .closeTag := atTag
  refine RunMeets.kind ?_
  rw [if_neg (by simp [here])]
  refine RunMeets.report (RunMeets.modify (RunMeets.pure ?_))
  exact Cursor.skipToStatementEnd_kind ((Cursor.record_kind _ _).trans here)

namespace Parse

variable {fuel more : Nat} {grammar other : Grammar} {cursor last : Cursor} {program : Program}

/-- The run is judged by the cursor behind the statements, which still has all errors. -/
theorem program_of_run (comparison : Comparison)
    (statement : PhraseSimulates comparison.pairing .statement (grammar .statement)
      (other .statement)) (enough : fuel ≤ more) (fits : comparison.fits cursor)
    (run : Parse.program fuel grammar comparison.left cursor = some (program, last)) :
    ∃ between : Cursor, program.errors = between.errors.reverse ∧
      (comparison.clean between →
        Parse.program more other comparison.right cursor = some (program, last)) := by
  obtain ⟨stmts, between, collected, root, errors, rest⟩ := program_eq_some.mp run
  refine ⟨between, errors, fun clean => ?_⟩
  obtain ⟨same, _⟩ := comparison.revision.statements_of_run statement enough fits collected clean
  have kept : stmts.map (Node.mapInfo id) = stmts :=
    (List.map_congr_left fun node _ => (Node.mapInfo_eq_self node).mpr fun _ _ => rfl).trans
      (List.map_id' stmts)
  have same : collect more (topLevel other) comparison.right cursor = some (stmts, between) := by
    rw [← kept]
    exact same
  exact program_eq_some.mpr ⟨stmts, between, same, by rw [root, comparison.comments_eq],
    errors, rest⟩

end Parse

namespace Grammar

variable {pairing : Pairing} {fuel more : Nat} {cursor : Cursor} {handler : Parse (Option Node)}

theorem handling_member (handler : Parse (Option Node)) (fuel : Nat) :
    handling handler (fuel + 1) .member = (do
      if (← Parse.kind) = .closeTag then handler
      else Parse.member fuel (handling handler fuel)) := rfl

theorem handling_at_closeTag {context : Context} (atTag : cursor.kind = .closeTag) :
    handling handler (fuel + 1) .member context cursor = handler context cursor := by
  show (ite _ _ _ : Parse (Option Node)) context cursor = _
  rw [if_pos atTag]

theorem handling_elsewhere {context : Context} {phrase : Phrase}
    (elsewhere : phrase = .member → cursor.kind ≠ .closeTag) :
    handling handler (fuel + 1) phrase context cursor =
      rule fuel (handling handler fuel) phrase context cursor := by
  cases phrase with
  | member =>
      show (ite _ _ _ : Parse (Option Node)) context cursor = _
      rw [if_neg (elsewhere rfl)]
      rfl
  | _ => rfl

theorem handling_simulates {second : Parse (Option Node)}
    (handles : Simulates pairing (pairing.atKind .closeTag) pairing.meets pairing.Found handler
      second) {fuel : Nat} : ∀ {more : Nat}, fuel ≤ more → ∀ phrase,
      PhraseSimulates pairing phrase (handling handler fuel phrase)
        (handling second more phrase) := by
  induction fuel with
  | zero => exact fun _ _ => .outOfFuel
  | succ fuel inductionHypothesis =>
      intro more enough phrase
      obtain ⟨more, rfl⟩ : ∃ fewer, more = fewer + 1 := ⟨more - 1, by omega⟩
      have fewer := Nat.le_of_succ_le_succ enough
      have level : GrammarSimulates pairing fuel more (handling handler fuel)
          (handling second more) :=
        .of_phrases fewer (inductionHypothesis fewer)
      cases phrase with
      | member =>
          rw [handling_member, handling_member]
          refine .kind fun kind => ?_
          refine .ite (fun atTag => ?_) fun _ => .forget (level.rule .member)
          subst atTag
          exact handles
      | expr => exact level.rule .expr
      | primary => exact level.rule .primary
      | statement => exact level.rule .statement

/-- A handler that has no answer, or one that does not end clean, or that is never asked, makes the
run one over the real grammar. -/
theorem handling_simulates_closed
    (handles : ∀ second, Simulates pairing (pairing.atKind .closeTag) pairing.meets pairing.Found
      handler second) (fuel : Nat) :
    ∀ phrase, PhraseSimulates pairing phrase (handling handler fuel phrase)
      (closed fuel phrase) := by
  induction fuel with
  | zero => exact fun _ => .outOfFuel
  | succ fuel inductionHypothesis =>
      intro phrase
      have level : GrammarSimulates pairing fuel fuel (handling handler fuel) (closed fuel) :=
        .of_phrases (Nat.le_refl _) inductionHypothesis
      cases phrase with
      | member =>
          have asked : closed (fuel + 1) .member =
              Parse.kind >>= fun _ => closed (fuel + 1) .member := rfl
          rw [handling_member, asked]
          refine .kind fun kind => ?_
          by_cases atTag : kind = .closeTag
          · subst atTag
            rw [if_pos rfl]
            exact handles _
          · rw [if_neg atTag]
            exact .forget (level.rule .member)
      | expr => exact level.rule .expr
      | primary => exact level.rule .primary
      | statement => exact level.rule .statement

theorem bodyRest_at_closeTag {context : Context} (level : Nat) {fuel : Nat} :
    ∀ {found : List Node} {cursor : Cursor}, cursor.kind = .closeTag →
      Parse.bodyRest (closed level .member) fuel found context cursor = none := by
  induction fuel with
  | zero => exact fun _ => rfl
  | succ fuel inductionHypothesis =>
      intro found cursor atTag
      have stays : RunMeets True context (closed level .member) cursor fun _ after =>
          after.kind = .closeTag := by
        cases level with
        | zero => exact RunMeets.of_forall_run fun _ _ run => by cases run
        | succ level => exact Parse.member_at_closeTag atTag
      have endless : RunMeets True context (Parse.bodyRest (closed level .member) (fuel + 1) found)
          cursor fun _ _ => False := by
        refine RunMeets.kind ?_
        rw [if_neg (by simp [atTag, Parse.endsBody])]
        refine RunMeets.bind stays fun answer after still => ?_
        refine RunMeets.of_forall_run fun _ _ run => ?_
        rw [inductionHypothesis still] at run
        cases run
      cases run : Parse.bodyRest (closed level .member) (fuel + 1) found context cursor with
      | none => rfl
      | some result => exact (endless.of_run run).elim

/-- Over the real grammar a class body that stands at a close tag never ends, so whatever ends
does so under every handler. -/
theorem closed_simulates_handling (handler : Parse (Option Node)) (fuel : Nat) :
    ∀ phrase, phrase ≠ .member →
      PhraseSimulates pairing phrase (closed fuel phrase) (handling handler fuel phrase) := by
  suffices both : (∀ phrase, phrase ≠ .member →
      PhraseSimulates pairing phrase (closed fuel phrase) (handling handler fuel phrase)) ∧
      Simulates pairing (pairing.knowing fun here => here.kind ≠ .closeTag) pairing.meets
        pairing.Found (closed fuel .member) (handling handler fuel .member) by
    exact both.1
  induction fuel with
  | zero => exact ⟨fun _ _ => .outOfFuel, .outOfFuel⟩
  | succ fuel inductionHypothesis =>
      obtain ⟨phrases, members⟩ := inductionHypothesis
      have body : StaysAligned pairing pairing.Listed (Parse.classBody fuel (closed fuel))
          (Parse.classBody fuel (handling handler fuel)) :=
        Parse.braced_simulates_where_free _ (Nat.le_refl _) members fun stuck =>
          bodyRest_at_closeTag fuel (Decidable.not_not.mp stuck)
      have level : GrammarSimulates pairing fuel fuel (closed fuel) (handling handler fuel) :=
        ⟨Nat.le_refl _, phrases .expr (by simp), phrases .primary (by simp),
          phrases .statement (by simp), body⟩
      refine ⟨fun phrase different => ?_, ?_⟩
      · cases phrase with
        | member => exact absurd rfl different
        | expr => exact level.rule .expr
        | primary => exact level.rule .primary
        | statement => exact level.rule .statement
      · have member : EndsMeeting pairing pairing.Found (closed (fuel + 1) .member)
            (Parse.member fuel (handling handler fuel)) :=
          level.rule .member
        refine ⟨member.clean_before, fun {here there later answer} related run clean => ?_⟩
        have elsewhere : there.kind ≠ .closeTag := pairing.kind related.1 ▸ related.2
        obtain ⟨other, behind, otherRun, same⟩ := member.matched related.1 run clean
        refine ⟨other, behind, ?_, same⟩
        rw [handling_elsewhere fun _ => elsewhere]
        exact otherRun

end Grammar

/-! ## Runs that come to an end -/

/-- Fuel that is enough for a phrase. A statement may ask for an expression before it consumes
anything; every other phrase is asked for after a token. -/
def Phrase.cost (cursor : Cursor) : Phrase → Nat
  | .expr | .primary => 2 * cursor.remaining + 1
  | .statement | .member => 2 * cursor.remaining + 2

theorem Phrase.cost_le {cursor : Cursor} (phrase : Phrase) :
    phrase.cost cursor ≤ 2 * cursor.remaining + 2 := by
  cases phrase <;> simp [cost]

/-- With a handler that gets past the close tag, every phrase comes to an end. -/
theorem Grammar.handling_total {context : Context} {handler : Parse (Option Node)}
    (handles : ∀ cursor : Cursor, cursor.Wf → cursor.kind = .closeTag →
      RunMeets False context handler cursor (ReadsElement False context cursor)) :
    ∀ (fuel : Nat) (phrase : Phrase) (cursor : Cursor), phrase.MayBegin cursor → cursor.Wf →
      phrase.cost cursor ≤ fuel →
      RunMeets False context (handling handler fuel phrase) cursor
        (phrase.Promise False context cursor) := by
  intro fuel
  induction fuel with
  | zero =>
      intro phrase cursor _ _ enough
      cases phrase <;> simp [Phrase.cost] at enough
  | succ fuel inductionHypothesis =>
      intro phrase cursor due wf enough
      have some : 0 < cursor.remaining := Nat.succ_pos _
      have supply :
        SuppliesPhrases False context fuel (handling handler fuel) cursor.remaining := by
        have rounds : cursor.remaining < fuel ∧ 2 * cursor.remaining ≤ fuel := by
          cases phrase <;> simp only [Phrase.cost] at enough <;> omega
        refine ⟨Or.inr rounds.1, fun other below due wf room => inductionHypothesis other below due
          wf ?_⟩
        have cost := @Phrase.cost_le below other
        have fewer := room.resolve_left id
        omega
      have expr : phrase = .statement → ∀ here : Cursor, here.Wf →
          here.remaining = cursor.remaining →
          RunMeets False context (handling handler fuel .expr) here (ReadsPhrase context here) := by
        rintro rfl here wf same
        apply inductionHypothesis .expr here trivial wf
        simp only [Phrase.cost] at enough ⊢
        omega
      have production := fun inside => Parse.rule_reads phrase supply due wf
        (Or.inr (Nat.le_refl _)) expr inside
      constructor
      by_cases atTag : phrase = .member ∧ cursor.kind = .closeTag
      · obtain ⟨rfl, atTag⟩ := atTag
        rw [handling_at_closeTag atTag]
        exact (handles cursor wf atTag).outcome
      · have elsewhere := not_and.mp atTag
        rw [handling_elsewhere elsewhere]
        exact (production fun member => Or.inr (elsewhere member)).outcome

/-- A handler that leaves a mark among the errors and passes over the close tag. -/
def Parse.marking (error : ParseError) : Parse (Option Node) := do
  modify fun _ cursor => { cursor with errors := error :: cursor.errors }
  advance
  pure none

theorem Parse.marking_reads {context : Context} (error : ParseError) (cursor : Cursor)
    (wf : cursor.Wf) (atTag : cursor.kind = .closeTag) :
    RunMeets False context (marking error) cursor (ReadsElement False context cursor) := by
  have marked : YieldsNodes context cursor [] { cursor with errors := error :: cursor.errors } :=
    ⟨[], .idle wf rfl rfl rfl rfl (List.suffix_cons _ _), rfl⟩
  have goesOn : ({ cursor with errors := error :: cursor.errors } : Cursor).kind ≠ .eof := by
    show cursor.kind ≠ .eof
    simp [atTag]
  have passed : YieldsNodes context { cursor with errors := error :: cursor.errors } [] _ :=
    .skip marked.wf goesOn (by simp)
  refine RunMeets.modify
    (RunMeets.advance (RunMeets.pure ⟨marked.trans passed, Or.inr ?_, by simp⟩))
  exact YieldsNodes.advance_lt context marked.wf goesOn

/-- A marked run always comes to an end. -/
theorem Parser.marking_total (parser : Parser) (wf : parser.cursor.Wf) (error : ParseError) :
    ∃ program last, Parse.program parser.fuel
      (Grammar.handling (Parse.marking error) parser.fuel) parser.context parser.cursor =
        some (program, last) := by
  have enough : 2 * parser.cursor.remaining + 2 ≤ parser.fuel := by
    unfold Parser.fuel
    omega
  have reads := @Parse.program_reads False parser.context parser.fuel
    (Grammar.handling (Parse.marking error) parser.fuel) parser.cursor wf (Or.inr (by omega)) ?_
  · obtain ⟨program, last, run, _⟩ := reads.exists_run
    exact ⟨program, last, run⟩
  · intro cursor cursorWf fewer goesOn
    apply Grammar.handling_total (Parse.marking_reads error) parser.fuel .statement cursor goesOn
      cursorWf
    simp only [Phrase.cost]
    omega

/-! ## What the outcome of a run depends on -/

def Comparison.unmarked (context : Context) (error : ParseError) : Comparison :=
  { Comparison.plain context with
    clean cursor := error ∉ cursor.errors
    clean_of_onward onward clean member := clean (onward.errors.subset member)
    refused higher := absurd higher (Nat.lt_irrefl _) }

def Comparison.withoutCloseTag (context : Context) : Comparison :=
  { Comparison.plain context with
    fits cursor := ∀ token ∈ cursor.tokens, token.kind ≠ .closeTag
    fits_of_onward onward fits token member := fits token (onward.tokens.subset member) }

namespace Parser

variable {parser : Parser} {program other : Program} {last final : Cursor}

theorem endsIn_handling_of_endsIn (ends : parser.EndsIn Grammar.closed program last)
    (handler : Parse (Option Node)) :
    parser.EndsIn (Grammar.handling handler) program last := by
  obtain ⟨fuel, run⟩ := ends
  obtain ⟨between, _, same⟩ := Parse.program_of_run (.plain parser.context)
    (Grammar.closed_simulates_handling handler fuel .statement (by simp))
    (Nat.le_refl _) trivial run
  exact ⟨fuel, same trivial⟩

theorem run_of_le {handler : Parse (Option Node)} {fuel more : Nat} (enough : fuel ≤ more)
    (run : Parse.program fuel (Grammar.handling handler fuel) parser.context parser.cursor =
      some (program, last)) :
    Parse.program more (Grammar.handling handler more) parser.context parser.cursor =
      some (program, last) := by
  let comparison := Comparison.plain parser.context
  have handles : Simulates comparison.pairing (comparison.pairing.atKind .closeTag)
      comparison.pairing.meets comparison.pairing.Found handler handler :=
    Comparison.plain_simulates _ (fun related => related.1.1) handler
  obtain ⟨between, _, same⟩ := Parse.program_of_run comparison
    (Grammar.handling_simulates handles enough .statement) enough trivial run
  exact same trivial

theorem endsIn_unique {handler : Parse (Option Node)}
    (first : parser.EndsIn (Grammar.handling handler) program last)
    (second : parser.EndsIn (Grammar.handling handler) other final) :
    program = other ∧ last = final := by
  obtain ⟨fuel, run⟩ := first
  obtain ⟨more, otherRun⟩ := second
  have same := run_of_le (Nat.le_max_left fuel more) run
  rw [run_of_le (Nat.le_max_right fuel more) otherRun] at same
  exact ⟨(Prod.mk.inj (Option.some.inj same)).1.symm, (Prod.mk.inj (Option.some.inj same)).2.symm⟩

/-- Where stopping at a close tag does not keep the run from its outcome, it never got there. -/
theorem endsIn_of_endsIn_stopping
    (ends : parser.EndsIn (Grammar.handling Parse.outOfFuel) program last) :
    parser.EndsIn Grammar.closed program last := by
  obtain ⟨fuel, run⟩ := ends
  obtain ⟨between, _, same⟩ := Parse.program_of_run (.plain parser.context)
    (Grammar.handling_simulates_closed (fun _ => .outOfFuel) fuel .statement)
    (Nat.le_refl _) trivial
    run
  exact ⟨fuel, same trivial⟩

theorem ends_iff_not_meetsCloseTag (wf : parser.cursor.Wf) :
    parser.Ends ↔ ¬ parser.MeetsCloseTag := by
  constructor
  · rintro ⟨program, last, ends⟩ ⟨first, second, other, final, reached, missed⟩
    obtain ⟨rfl, rfl⟩ := endsIn_unique reached (endsIn_handling_of_endsIn ends first)
    exact missed (endsIn_handling_of_endsIn ends second)
  · intro unmet
    -- Any mark will do: the marked run ends, and so does the one that stops.
    obtain ⟨program, last, run⟩ :=
      parser.marking_total wf (.unterminatedComment {})
    refine ⟨program, last, endsIn_of_endsIn_stopping ?_⟩
    by_contra missed
    exact unmet ⟨_, Parse.outOfFuel, program, last, ⟨parser.fuel, run⟩, missed⟩

/-- Some error lies beyond all that are on record. -/
theorem exists_fresh (errors : List ParseError) : ∃ error, error ∉ errors := by
  have bounded : ∃ bound, ∀ error ∈ errors, error.position.startOffset < bound := by
    induction errors with
    | nil => exact ⟨0, by simp⟩
    | cons error rest inductionHypothesis =>
        obtain ⟨bound, below⟩ := inductionHypothesis
        refine ⟨max bound (error.position.startOffset + 1), fun other member => ?_⟩
        rcases List.mem_cons.mp member with rfl | member
        · omega
        · have := below other member
          omega
  obtain ⟨bound, below⟩ := bounded
  exact ⟨.unterminatedComment { startOffset := bound }, fun member =>
    Nat.lt_irrefl _ (below _ member)⟩

/-- A marked run that shows no mark is the real one. -/
theorem run_of_unmarked {mark : ParseError} {fuel : Nat}
    (run : Parse.program fuel (Grammar.handling (Parse.marking mark) fuel) parser.context
      parser.cursor = some (program, last)) (fresh : mark ∉ program.errors) :
    Parse.program fuel (Grammar.closed fuel) parser.context parser.cursor =
      some (program, last) := by
  let comparison := Comparison.unmarked parser.context mark
  have marks : ∀ second, Simulates comparison.pairing (comparison.pairing.atKind .closeTag)
      comparison.pairing.meets comparison.pairing.Found (Parse.marking mark) second := by
    intro second
    constructor
    · intro here later answer run clean
      cases run
      have onward :=
        Cursor.onward_advance parser.context { here with errors := mark :: here.errors }
      exact fun member => clean (onward.errors.subset (List.mem_cons_of_mem _ member))
    · intro here there later answer _ run clean
      cases run
      have onward :=
        Cursor.onward_advance parser.context { here with errors := mark :: here.errors }
      exact absurd (onward.errors.subset (List.mem_cons_self ..)) clean
  obtain ⟨between, errors, same⟩ := Parse.program_of_run comparison
    (Grammar.handling_simulates_closed marks fuel .statement) (Nat.le_refl _) trivial run
  apply same
  intro member
  apply fresh
  rw [errors]
  exact List.mem_reverse.mpr member

/-- A run that comes to an end with some fuel does so with the fuel that is provided. -/
theorem run_of_endsIn (wf : parser.cursor.Wf) (ends : parser.EndsIn Grammar.closed program last) :
    Parse.program parser.fuel (Grammar.closed parser.fuel) parser.context parser.cursor =
      some (program, last) := by
  obtain ⟨mark, fresh⟩ := exists_fresh program.errors
  obtain ⟨marked, final, run⟩ := parser.marking_total wf mark
  obtain ⟨rfl, rfl⟩ := endsIn_unique ⟨parser.fuel, run⟩
    (endsIn_handling_of_endsIn ends (Parse.marking mark))
  exact run_of_unmarked run fresh

/-- A run gets to a close tag in a class body exactly when it shows whatever mark is left there. -/
theorem meetsCloseTag_iff_marked (wf : parser.cursor.Wf) :
    parser.MeetsCloseTag ↔ ∀ mark, ∃ program last,
      parser.EndsIn (Grammar.handling (Parse.marking mark)) program last ∧
        mark ∈ program.errors := by
  constructor
  · intro meets mark
    obtain ⟨program, last, run⟩ := parser.marking_total wf mark
    refine ⟨program, last, ⟨_, run⟩, ?_⟩
    by_contra fresh
    exact (ends_iff_not_meetsCloseTag wf).mp ⟨program, last, _, run_of_unmarked run fresh⟩ meets
  · intro marked
    by_contra unmet
    obtain ⟨program, last, ends⟩ := (ends_iff_not_meetsCloseTag wf).mpr unmet
    obtain ⟨mark, fresh⟩ := exists_fresh program.errors
    obtain ⟨other, final, otherEnds, member⟩ := marked mark
    obtain ⟨rfl, rfl⟩ := endsIn_unique otherEnds (endsIn_handling_of_endsIn ends _)
    exact fresh member

/-- Without a close tag ahead reading comes to an end. -/
theorem ends_of_no_closeTag (wf : parser.cursor.Wf)
    (without : ∀ token ∈ parser.cursor.tokens, token.kind ≠ .closeTag) : parser.Ends := by
  obtain ⟨program, last, run⟩ := parser.marking_total wf (.unterminatedComment {})
  let comparison := Comparison.withoutCloseTag parser.context
  have unasked : ∀ second, Simulates comparison.pairing (comparison.pairing.atKind .closeTag)
      comparison.pairing.meets comparison.pairing.Found
      (Parse.marking (.unterminatedComment {})) second := by
    refine fun second => ⟨fun _ _ => trivial, ?_⟩
    rintro here there later answer ⟨⟨rfl, fits⟩, atTag⟩ run
    exact absurd atTag (fits here.current.token (List.mem_cons_self ..))
  obtain ⟨between, _, same⟩ := Parse.program_of_run comparison
    (Grammar.handling_simulates_closed unasked parser.fuel .statement) (Nat.le_refl _) without run
  exact ⟨program, last, parser.fuel, same trivial⟩

end Parser

theorem parse_of_endsIn {options : Options} {source : List UInt8} {program : Program}
    {last : Cursor} (ends : (Parser.ofSource options source).EndsIn Grammar.closed program last) :
    parse options source = some program := by
  obtain ⟨wf, _⟩ := Parser.ofSource_cursor options source
  apply parse_eq_some.mpr
  refine ⟨{ Parser.ofSource options source with cursor := last }, ?_⟩
  simp only [Parser.program, Parser.programWith, Parser.run_of_endsIn wf ends]

/-- Reading comes to an end if and only if it does not get to the head of a class body with a close
tag as its current token, and always where no close tag is in the source. That it gets there shows
in the errors of the run in which a mark is left at every such place. What is read is read whole:
the end of file is the current token, and nothing is left open. -/
theorem ends_iff_never_at_closeTag (options : Options) (source : List UInt8) :
    ((Parser.ofSource options source).Ends ↔ ¬ (Parser.ofSource options source).MeetsCloseTag) ∧
      ((Parser.ofSource options source).MeetsCloseTag ↔ ∀ mark, ∃ program last,
        (Parser.ofSource options source).EndsIn (Grammar.handling (Parse.marking mark)) program
          last ∧ mark ∈ program.errors) ∧
      ((∀ token ∈ (Lexer.ofSource options.shortTags source).tokens, token.kind ≠ .closeTag) →
        (Parser.ofSource options source).Ends) ∧
      (∀ program last, (Parser.ofSource options source).EndsIn Grammar.closed program last →
        last.kind = .eof ∧ last.depth = 0) ∧
      ∀ program, parse options source = some program ↔
        ∃ last, (Parser.ofSource options source).EndsIn Grammar.closed program last := by
  obtain ⟨wf, depth, tokens, _⟩ := Parser.ofSource_cursor options source
  refine ⟨Parser.ends_iff_not_meetsCloseTag wf, Parser.meetsCloseTag_iff_marked wf,
    fun without => ?_, ?_, fun program => ?_⟩
  · apply Parser.ends_of_no_closeTag wf
    intro token member
    rw [tokens] at member
    exact without token (List.mem_filter.mp member).1
  · rintro program last ⟨fuel, run⟩
    obtain ⟨stmts, between, yields, ends, _, _, _, rfl⟩ :=
      (Parse.program_closed_reads fuel wf).of_run run
    exact ⟨ends, yields.depth.trans depth⟩
  · constructor
    · intro parsed
      obtain ⟨after, run⟩ := parse_eq_some.mp parsed
      exact ⟨after.cursor, _, Parser.programWith_run run⟩
    · rintro ⟨last, ends⟩
      exact parse_of_endsIn ends

theorem meetsCloseTag_open_class :
    parse {} (bytesOf "<?php class A \x7b ?>") = none ∧
      (Parser.ofSource {} (bytesOf "<?php class A \x7b ?>")).MeetsCloseTag := by
  have endless : parse {} (bytesOf "<?php class A \x7b ?>") = none := by
    apply Option.isNone_iff_eq_none.mp
    decide +kernel
  obtain ⟨iff, _, _, _, parses⟩ :=
    ends_iff_never_at_closeTag {} (bytesOf "<?php class A \x7b ?>")
  refine ⟨endless, ?_⟩
  by_contra unmet
  obtain ⟨program, last, ends⟩ := iff.mpr unmet
  have parsed := (parses program).mpr ⟨last, ends⟩
  rw [endless] at parsed
  cases parsed

end PhpTree
