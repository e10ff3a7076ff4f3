import PhpTree.Proofs.BlankTails
import PhpTree.Proofs.Gaps
import PhpTree.Proofs.Joining.Crossing
import PhpTree.Proofs.Termination

/-! # Statements do not influence later ones

A source that was accepted and ends with a semicolon may be followed by a line feed and
any more.  Its own statements are parsed as before; the parse then stands where one of
the rest alone would, behind an open tag, and goes on like that one. -/
set_option autoImplicit false
namespace PhpTree

/-- The statements at the outermost level. -/
def Program.statements (program : Program) : List Node :=
  match program.root.form with
  | .stmtList stmts => stmts
  | _ => []

/-! ## Items -/

theorem Item.foldr_place {tokens : List Token}
    (closed : ∀ token ∈ tokens, token.isUnterminatedComment = false) :
    ∃ items comments, items.map Item.token = tokens.filter Token.isSignificant ∧
      (∀ item ∈ items, item.unterminated = []) ∧
      ∀ (next : Item) (rest : List Item), tokens.foldr place (next :: rest) =
        items ++ { next with comments := comments ++ next.comments } :: rest := by
  induction tokens with
  | nil => exact ⟨[], [], rfl, by simp, fun _ _ => rfl⟩
  | cons token tokens inductionHypothesis =>
      obtain ⟨here, later⟩ := List.forall_mem_cons.mp closed
      obtain ⟨items, comments, read, shut, placed⟩ := inductionHypothesis later
      by_cases significant : token.isSignificant = true
      · refine ⟨{ token } :: items, comments, ?_, List.forall_mem_cons.mpr ⟨rfl, shut⟩, ?_⟩
        · rw [List.filter_cons_of_pos significant, List.map_cons, read]
        · intro next rest
          rw [List.foldr_cons, placed, place_of_isSignificant significant]
          rfl
      · rw [Bool.not_eq_true] at significant
        have trivia : token.kind.isTrivia = true := by
          simpa [Token.isSignificant, here] using significant
        rw [List.filter_cons_of_neg (by simp [significant])]
        cases items with
        | nil =>
            refine ⟨[], token :: comments, read, by simp, fun next rest => ?_⟩
            rw [List.foldr_cons, placed]
            simp [place, trivia]
        | cons item items =>
            obtain ⟨first, others⟩ := List.forall_mem_cons.mp shut
            refine ⟨{ item with comments := token :: item.comments } :: items, comments, read,
              List.forall_mem_cons.mpr ⟨first, others⟩, fun next rest => ?_⟩
            rw [List.foldr_cons, placed]
            simp [place, trivia]

/-! ## Rounds at the outermost level -/

namespace Parse

/-- The rounds at the outermost level, after others that found the given statements; the newest
statement comes first. -/
def rounds (grammar : Grammar) (fuel : Nat) : List Node → Parse (List Node) :=
  loop (collectStep (topLevel grammar)) fuel

section Rounds
variable {context : Context} {grammar : Grammar} {fuel : Nat} {found stmts : List Node}
  {cursor middle later : Cursor} {item : Option Node}

theorem collectStep_topLevel (grammar : Grammar) (context : Context) (found : List Node)
    (cursor : Cursor) :
    collectStep (topLevel grammar) found context cursor =
      (topLevel grammar context cursor).map fun result =>
        ((result.1.1.toList ++ found, result.1.2), result.2) := by
  show (topLevel grammar context cursor).bind _ = _
  cases topLevel grammar context cursor <;> rfl

theorem rounds_of_true (run : topLevel grammar context cursor = some ((item, true), middle))
    (fuel : Nat) (found : List Node) :
    rounds grammar (fuel + 1) found context cursor =
      rounds grammar fuel (item.toList ++ found) context middle := by
  simp only [rounds, loop, collectStep_topLevel, run, Option.map_some]

theorem rounds_of_false (run : topLevel grammar context cursor = some ((item, false), middle))
    (fuel : Nat) (found : List Node) :
    rounds grammar (fuel + 1) found context cursor = some (item.toList ++ found, middle) := by
  simp only [rounds, loop, collectStep_topLevel, run, Option.map_some]

theorem rounds_cases (run : rounds grammar (fuel + 1) found context cursor = some (stmts, later)) :
    ∃ item middle,
      topLevel grammar context cursor = some ((item, true), middle) ∧
          rounds grammar fuel (item.toList ++ found) context middle = some (stmts, later) ∨
        topLevel grammar context cursor = some ((item, false), middle) ∧
          stmts = item.toList ++ found ∧ later = middle := by
  cases round : topLevel grammar context cursor with
  | none =>
      simp only [rounds, loop, collectStep_topLevel, round, Option.map_none] at run
      cases run
  | some result =>
      obtain ⟨⟨item, continues⟩, middle⟩ := result
      cases continues with
      | true => exact ⟨item, middle, .inl ⟨rfl, rounds_of_true round .. ▸ run⟩⟩
      | false =>
          rw [rounds_of_false round] at run
          cases run
          exact ⟨item, _, .inr ⟨rfl, rfl, rfl⟩⟩

/-- What was found before makes no difference to what is found later. -/
theorem rounds_append (fuel : Nat) : ∀ (found : List Node) (cursor : Cursor),
    rounds grammar fuel found context cursor =
      (rounds grammar fuel [] context cursor).map fun result => (result.1 ++ found, result.2) := by
  induction fuel with
  | zero => exact fun _ _ => rfl
  | succ fuel inductionHypothesis =>
      intro found cursor
      cases round : topLevel grammar context cursor with
      | none => simp only [rounds, loop, collectStep_topLevel, round, Option.map_none]
      | some result =>
          obtain ⟨⟨item, continues⟩, middle⟩ := result
          cases continues with
          | true =>
              rw [rounds_of_true round, rounds_of_true round, inductionHypothesis,
                inductionHypothesis (item.toList ++ [])]
              simp [Function.comp_def]
          | false => simp [rounds_of_false round]

theorem rounds_clean_before (round : ∀ {here later : Cursor} {answer : Option Node × Bool},
      topLevel grammar context here = some (answer, later) → later.errors = [] → here.errors = [])
    (fuel : Nat) : ∀ {found stmts : List Node} {here later : Cursor},
      rounds grammar fuel found context here = some (stmts, later) → later.errors = [] →
      here.errors = [] := by
  induction fuel with
  | zero =>
      intro found stmts here later run
      cases run
  | succ fuel inductionHypothesis =>
      intro found stmts here later run clean
      obtain ⟨item, middle, ⟨first, others⟩ | ⟨last, rfl, rfl⟩⟩ := rounds_cases run
      · exact round first (inductionHypothesis others clean)
      · exact round last clean

/-- Only the end of file stops the rounds, and it is not consumed. -/
theorem topLevel_stops : RunMeets True context (topLevel grammar) cursor fun answer after =>
    answer.2 = false → after = cursor := by
  unfold topLevel
  refine RunMeets.kind ?_
  split
  · exact RunMeets.pure fun _ => rfl
  · exact RunMeets.report (RunMeets.advance (RunMeets.pure (by simp)))
  · have any : RunMeets True context (grammar .statement) cursor fun _ _ => True :=
      RunMeets.of_forall_run fun _ _ _ => trivial
    exact RunMeets.bind any fun _ _ _ => RunMeets.pure (by simp)

theorem topLevel_at_end (ends : cursor.kind = .eof) :
    topLevel grammar context cursor = some ((none, false), cursor) := by
  have stays : RunMeets False context (topLevel grammar) cursor fun answer after =>
      answer = (none, false) ∧ after = cursor := by
    unfold topLevel
    refine RunMeets.kind ?_
    rw [ends]
    exact RunMeets.pure ⟨rfl, rfl⟩
  obtain ⟨_, _, run, rfl, rfl⟩ := stays.exists_run
  exact run

theorem topLevel_at_openTag {level : Nat} (opens : cursor.kind = .openTag) :
    topLevel (Grammar.closed (level + 1)) context cursor =
      some ((none, true), cursor.advance context) := by
  have statement : RunMeets False context (Grammar.closed (level + 1) .statement) cursor
      fun answer after => answer = none ∧ after = cursor.advance context := by
    show RunMeets False context (statement level (Grammar.closed level)) cursor _
    unfold Parse.statement
    refine RunMeets.kind ?_
    rw [opens]
    exact RunMeets.advance (RunMeets.pure ⟨rfl, rfl⟩)
  have passes : RunMeets False context (topLevel (Grammar.closed (level + 1))) cursor
      fun answer after => answer = (none, true) ∧ after = cursor.advance context := by
    unfold topLevel
    refine RunMeets.kind ?_
    rw [opens]
    refine RunMeets.bind statement ?_
    rintro _ _ ⟨rfl, rfl⟩
    exact RunMeets.pure ⟨rfl, rfl⟩
  obtain ⟨_, _, run, rfl, rfl⟩ := passes.exists_run
  exact run

end Rounds

/-! ## Two parses, round by round -/

section Across
variable {left right : Context} (limit : left.options.maxDepth = right.options.maxDepth)
  {level : Nat}
include limit

/-- The rounds over a source that ends with a semicolon, and those over one that goes on there: when
the first are over, the second have found the same statements and have fuel left. -/
theorem rounds_across {ending next : Item} {rest : List Item} (ends : ending.token.kind = .eof)
    (closed : ending.unterminated = []) (fuel : Nat) :
    ∀ {here there later : Cursor} {found other stmts : List Node},
      (∃ between, Cursor.ApproachesBoundary right ending next rest between here there) →
      found.map Node.skeleton = other.map Node.skeleton →
      rounds (Grammar.closed level) fuel found left here = some (stmts, later) →
      later.errors = [] → later.following = [] →
      ∃ spent another behind, Cursor.StandsAtBoundary right next rest later behind ∧
        stmts.map Node.skeleton = another.map Node.skeleton ∧
        ∀ more, rounds (Grammar.closed level) (spent + more) other right there =
          rounds (Grammar.closed level) more another right behind := by
  let pairing := Pairing.across left right (Nat.le_of_eq limit) ending next rest ends closed
  have round : EndsMeeting pairing (Pairing.DecidesAlike pairing.Found)
      (topLevel (Grammar.closed level)) (topLevel (Grammar.closed level)) :=
    topLevel_simulates (Grammar.closed_simulates (Nat.le_refl _) .statement)
  induction fuel with
  | zero =>
      intro here there later found other stmts _ _ run
      cases run
  | succ fuel inductionHypothesis =>
      intro here there later found other stmts aligned equal run clean ended
      obtain ⟨item, middle, ⟨first, others⟩ | ⟨last, rfl, rfl⟩⟩ := rounds_cases run
      · have cleanBefore := rounds_clean_before round.clean_before fuel others clean
        obtain ⟨⟨otherItem, continues⟩, opposite, otherFirst, ⟨items, decisions⟩, met⟩ :=
          round.matched aligned first cleanBefore
        obtain rfl : true = continues := decisions
        have found : (item.toList ++ found).map Node.skeleton =
            (otherItem.toList ++ other).map Node.skeleton :=
          Pairing.listed_append items equal
        rcases met with aligned | arrived
        · obtain ⟨spent, another, behind, arrived, stmts, goesOn⟩ :=
            inductionHypothesis aligned found others clean ended
          refine ⟨spent + 1, another, behind, arrived, stmts, fun more => ?_⟩
          rw [Nat.add_right_comm, ← goesOn]
          exact rounds_of_true otherFirst ..
        · -- At the end of its source the first parse stops.
          cases fuel with
          | zero => cases others
          | succ fuel =>
              rw [rounds_of_false (topLevel_at_end arrived.ends)] at others
              cases others
              refine ⟨1, _, opposite, arrived, found, fun more => ?_⟩
              rw [Nat.add_comm]
              exact rounds_of_true otherFirst ..
      · -- The rounds cannot have stopped here, where a semicolon is still ahead.
        obtain rfl : later = here := topLevel_stops.of_run last rfl
        obtain ⟨between, approaches⟩ := aligned
        rw [approaches.following] at ended
        simp at ended

theorem rounds_alongside {fuel : Nat} {here there later : Cursor} {stmts : List Node}
    (agree : here.AgreesUpToPlacesAndDoc there)
    (run : rounds (Grammar.closed level) fuel [] left here = some (stmts, later)) :
    ∃ others behind,
      rounds (Grammar.closed level) fuel [] right there = some (others, behind) ∧
      stmts.map Node.skeleton = others.map Node.skeleton ∧ later.AgreesUpToPlacesAndDoc behind := by
  let pairing := Pairing.alongside left right limit
  have round : StaysAligned pairing (Pairing.DecidesAlike pairing.Found)
      (topLevel (Grammar.closed level)) (topLevel (Grammar.closed level)) :=
    (topLevel_simulates (Grammar.closed_simulates (Nat.le_refl _) .statement)).mono id
      fun met => met.resolve_right False.elim
  have loops : StaysAligned pairing pairing.Listed (rounds (Grammar.closed level) fuel [])
      (rounds (Grammar.closed level) fuel []) :=
    .loop (fun _ _ => .collectStep round) (Nat.le_refl fuel) rfl
  exact loops.matched agree run trivial

end Across

theorem program_of_le {context : Context} {cursor last : Cursor} {program : Program}
    {fuel level more higher : Nat} (enough : fuel ≤ more) (deep : level ≤ higher)
    (run : Parse.program fuel (Grammar.closed level) context cursor = some (program, last)) :
    Parse.program more (Grammar.closed higher) context cursor = some (program, last) := by
  -- The grammars are compared through one that stops at a close tag in a class body.
  obtain ⟨_, _, first⟩ := program_of_run (.plain context)
    (Grammar.closed_simulates_handling outOfFuel level .statement (by simp)) (Nat.le_refl _) trivial
    run
  obtain ⟨_, _, second⟩ := program_of_run (.plain context)
    (Grammar.handling_simulates .outOfFuel deep .statement) enough trivial (first trivial)
  obtain ⟨_, _, third⟩ := program_of_run (.plain context)
    (Grammar.handling_simulates_closed (fun _ => .outOfFuel) higher .statement) (Nat.le_refl _)
    trivial (second trivial)
  exact third trivial

end Parse

/-! ## Sources -/

theorem Parser.cursor_ofSource {options : Options} {source : List UInt8} {item : Item}
    {following : List Item}
    (gathered : Item.gather (Lexer.ofSource options.shortTags source).tokens = item :: following) :
    (ofSource options source).cursor =
      Cursor.ofItems (ofSource options source).context item following := by
  simp only [ofSource, gathered]

theorem Parser.maxDepth_ofSource (options : Options) (source other : List UInt8) :
    (ofSource options source).context.options.maxDepth =
      (ofSource options other).context.options.maxDepth := rfl

/-- An accepted source whose last significant token is a semicolon leaves nothing open. -/
theorem Lexer.endsAtSemicolon_of_accepted {options : Options} {source : List UInt8}
    {program : Program}
    (parsed : parse options source = some program) (accepted : program.errors = [])
    (last : (ofSource options.shortTags source).kinds.getLast? = some .semicolon) :
    (ofSource options.shortTags source).EndsAtSemicolon .eof := by
  obtain ⟨pieces, covers⟩ := parse_covers parsed
  refine ⟨?_, (fun semicolon => by cases semicolon), covers.comments accepted⟩
  rw [List.getLastD_eq_getLast?, last]
  rfl

/-- The items of a source that ends with a semicolon, and of the same source with a line feed and
more behind it. -/
structure JoinsAtSemicolon (shortTags : Bool) (source more : List UInt8) (front : Item)
    (between : List Item)
    (ending next : Item) (rest : List Item) : Prop where
  first : Item.gather (Lexer.ofSource shortTags source).tokens = front :: between ++ [ending]
  whole : Item.gather (Lexer.ofSource shortTags (source ++ 10 :: more)).tokens =
    front :: between ++ next :: rest
  closed : ∀ item ∈ front :: between, item.unterminated = []
  last : (between.map fun item => item.token.kind).getLastD front.token.kind = .semicolon
  ends : ending.token.kind = .eof
  shut : ending.unterminated = []
  /-- What is left is read as if it stood behind an open tag, comments in front of it aside. -/
  second : ∃ (lexer : Lexer) (comments : List Token),
    lexer.ReadsAs ⟨shortTags, .script, 6, more⟩ ∧
      Item.gather lexer.tokens = { next with comments } :: rest

theorem Lexer.kinds_append {lexer : Lexer} {done : List Token} {last : Token}
    (tokens : lexer.tokens = done ++ [last]) (ends : last.kind = .eof)
    (goOn : ∀ token ∈ done, token.kind ≠ .eof) :
    lexer.kinds = (done.filter Token.isSignificant).map Token.kind := by
  have kept : (done.filter fun token => token.isSignificant && token.kind ≠ .eof) =
      done.filter Token.isSignificant :=
    List.filter_congr fun token member => by simp [goOn token member]
  rw [kinds, tokens, List.filter_append, kept]
  simp [ends]

theorem JoinsAtSemicolon.exists_of_endsAtSemicolon {shortTags : Bool} {source : List UInt8}
    (settles : (Lexer.ofSource shortTags source).EndsAtSemicolon .eof) (more : List UInt8) :
    ∃ front between ending next rest,
      JoinsAtSemicolon shortTags source more front between ending next rest := by
  obtain ⟨done, last, offset, blanks, tokens, ends, goOn, blank, others⟩ :=
    Lexer.tokens_followedBy more _ (Nat.lt_succ_self _) settles
  have comments := settles.comments
  rw [tokens] at comments
  obtain ⟨items, trail, read, shut, placed⟩ :=
    Item.foldr_place fun token member => comments token (List.mem_append_left _ member)
  have kinds : (items.map fun item => item.token.kind).getLastD .eof = .semicolon := by
    have last := settles.last
    rwa [Lexer.kinds_append tokens ends goOn, ← read, List.map_map] at last
  cases items with
  | nil => cases kinds
  | cons front between =>
      let lexer : Lexer := ⟨shortTags, .script, offset, blanks ++ 10 :: more⟩
      obtain ⟨next, rest, gathered⟩ :=
        List.exists_cons_of_ne_nil (Item.gather_ne_nil lexer.tokens_stream)
      have ending : Item.gather [last] = [{ token := last }] :=
        Item.place_of_isSignificant (Token.isSignificant_of_eof last ends) []
      refine ⟨front, between, { token := last, comments := trail ++ [] },
        { next with comments := trail ++ next.comments }, rest, ?_, ?_, shut, ?_, ends, rfl,
        lexer, next.comments, ?_, gathered⟩
      · rw [tokens, Item.gather, List.foldr_append, ← Item.gather, ending, placed]
      · have whole : (Lexer.ofSource shortTags (source ++ 10 :: more)).tokens =
            done ++ lexer.tokens := others
        rw [whole, Item.gather, List.foldr_append, ← Item.gather, gathered, placed]
      · rwa [List.map_cons, List.getLastD_cons] at kinds
      · have lineFeed : ∀ byte ∈ blanks ++ [10], Byte.isBlank byte = true :=
          List.forall_mem_append.mpr ⟨blank, by simp [Byte.isBlank]⟩
        have reads := @Lexer.readsAs_of_blanks shortTags offset 6 _ more lineFeed
        rwa [List.append_assoc] at reads

/-- Behind an open tag and a line feed, the rest is read as script. -/
theorem Lexer.tokens_openTag (shortTags : Bool) (more : List UInt8) :
    (ofSource shortTags (bytesOf "<?php\n" ++ more)).tokens =
      ⟨.openTag, 0, bytesOf "<?php\n"⟩ :: (Lexer.mk shortTags .script 6 more).tokens := by
  have next : (ofSource shortTags (bytesOf "<?php\n" ++ more)).next =
      (⟨.openTag, 0, bytesOf "<?php\n"⟩, ⟨shortTags, .script, 6, more⟩) := rfl
  have goesOn : (ofSource shortTags (bytesOf "<?php\n" ++ more)).next.1.kind ≠ .eof := by
    rw [next]
    exact TokenKind.noConfusion
  rw [tokens_of_ne_eof goesOn, next]

namespace JoinsAtSemicolon

variable {options : Options} {source more : List UInt8} {front ending next : Item}
  {between rest : List Item}

/-- Where the parses begin, they have the items up to the semicolon in common. -/
theorem approachesBoundary
    (joint : JoinsAtSemicolon options.shortTags source more front between ending next rest) :
    Cursor.ApproachesBoundary (Parser.ofSource options (source ++ 10 :: more)).context ending next
      rest between
      (Parser.ofSource options source).cursor
      (Parser.ofSource options (source ++ 10 :: more)).cursor := by
  rw [Parser.cursor_ofSource joint.first, Parser.cursor_ofSource joint.whole]
  obtain ⟨frontClosed, closed⟩ := List.forall_mem_cons.mp joint.closed
  have ahead : ∀ item ∈ between ++ [ending], item.unterminated = [] :=
    List.forall_mem_append.mpr ⟨closed, by simpa using joint.shut⟩
  have shown : ∀ context, Cursor.exposed context [front] = [] := fun context =>
    Cursor.exposed_eq_nil (by simpa using frontClosed)
  refine ⟨?_, Cursor.following_ofItems .., Cursor.following_ofItems .., closed, ?_, ?_, ?_, ?_⟩
  · rw [Cursor.current_ofItems, Cursor.current_ofItems]
  · rw [Cursor.kind, Cursor.current_ofItems]
    exact joint.last
  · rw [Cursor.depth_ofItems, Cursor.depth_ofItems]
  · rw [Cursor.errors_ofItems, shown, List.append_nil]
    exact Cursor.exposed_eq_nil ahead
  · rw [Cursor.errors_ofItems, shown, List.append_nil, Cursor.following_ofItems]

/-- Where they part, the second goes on like a parse of the rest alone behind its open tag. -/
theorem agreesUpToPlacesAndDoc
    (joint : JoinsAtSemicolon options.shortTags source more front between ending next rest)
    {here there : Cursor}
    (arrived :
      Cursor.StandsAtBoundary (Parser.ofSource options (source ++ 10 :: more)).context next rest
      here there) (depth : here.depth = 0) :
    (Parser.ofSource options (bytesOf "<?php\n" ++ more)).cursor.kind = .openTag ∧
      ((Parser.ofSource options (bytesOf "<?php\n" ++ more)).cursor.advance
        (Parser.ofSource options (bytesOf "<?php\n" ++ more)).context).AgreesUpToPlacesAndDoc
          there := by
  obtain ⟨lexer, comments, reads, gathered⟩ := joint.second
  let script : Lexer := ⟨options.shortTags, .script, 6, more⟩
  obtain ⟨other, others, otherGathered⟩ :=
    List.exists_cons_of_ne_nil (Item.gather_ne_nil script.tokens_stream)
  have opened : Item.gather (Lexer.ofSource options.shortTags (bytesOf "<?php\n" ++ more)).tokens =
      { token := ⟨.openTag, 0, bytesOf "<?php\n"⟩ } :: other :: others := by
    rw [Lexer.tokens_openTag, Item.gather_cons, otherGathered]
    exact Item.place_of_isSignificant rfl _
  have gists : (other :: others).map Item.gist =
      ({ next with comments } :: rest).map Item.gist := by
    rw [← gathered, ← otherGathered, reads.map_gist]
  rw [Parser.cursor_ofSource opened]
  generalize (Parser.ofSource options (bytesOf "<?php\n" ++ more)).context = context
  refine ⟨by rw [Cursor.kind, Cursor.current_ofItems], ?_⟩
  have agrees := @Cursor.agreesUpToPlaces_ofItems context
    (Parser.ofSource options (source ++ 10 :: more)).context _ _ _ _ _ _ _ _
    script.tokens_stream lexer.tokens_stream otherGathered gathered gists
  have following := Cursor.following_ofItems context
    { token := ⟨.openTag, 0, bytesOf "<?php\n"⟩ } (other :: others)
  refine agrees.agreesUpToPlacesAndDoc ⟨?_, ?_, ?_⟩ ⟨?_, ?_, ?_⟩ ?_
  · rw [Cursor.current_advance following, Cursor.current_ofItems]
  · rw [Cursor.following_advance following, Cursor.following_ofItems]
  · rw [Cursor.errors_advance following, Cursor.errors_ofItems, Cursor.errors_ofItems]
    simp [Cursor.exposed]
  · rw [arrived.token, Cursor.current_ofItems]
  · rw [arrived.others, Cursor.following_ofItems]
  · rw [arrived.exposed, Cursor.errors_ofItems, Cursor.errors_ofItems]
    rfl
  · rw [Cursor.depth_advance, Cursor.depth_ofItems, ← arrived.depth, depth]

end JoinsAtSemicolon

/-! ## Whole programs -/

theorem Parse.collect_topLevel_eq_some {fuel : Nat} {grammar : Grammar} {context : Context}
    {cursor last : Cursor} {stmts : List Node} :
    collect fuel (topLevel grammar) context cursor = some (stmts, last) ↔
      rounds grammar fuel [] context cursor = some (stmts.reverse, last) := by
  show (rounds grammar fuel [] context cursor).bind
    (fun result => some (result.1.reverse, result.2)) = _ ↔ _
  cases rounds grammar fuel [] context cursor with
  | none => simp
  | some result =>
      simp only [Option.bind_some, Option.some.injEq, Prod.ext_iff, List.reverse_eq_iff]

theorem Parse.rounds_of_parse {options : Options} {source : List UInt8} {program : Program}
    (parsed : parse options source = some program) {fuel : Nat}
    (enough : (Parser.ofSource options source).fuel ≤ fuel) :
    ∃ last : Cursor,
      rounds (Grammar.closed fuel) fuel []
        (Parser.ofSource options source).context (Parser.ofSource options source).cursor =
          some (program.statements.reverse, last) ∧
      program.errors = last.errors.reverse ∧ last.following = [] ∧ last.depth = 0 := by
  obtain ⟨wf, depth, _⟩ := Parser.ofSource_cursor options source
  obtain ⟨after, run⟩ := parse_eq_some.mp parsed
  have longer := program_of_le enough enough (Parser.programWith_run run)
  obtain ⟨stmts, last, collected, root, errors, rest⟩ := program_eq_some.mp longer
  obtain ⟨_, final, ⟨pieces, passage, _⟩, ends, _, _, _, same⟩ :=
    (program_closed_reads fuel wf).of_run longer
  have statements : program.statements = stmts := by
    rw [Program.statements, root]
    rfl
  refine ⟨last, ?_, errors, ?_, ?_⟩
  · rw [statements]
    exact collect_topLevel_eq_some.mp collected
  · have stopped := congrArg Cursor.following (rest.symm.trans same)
    exact stopped.trans (passage.wf.following_eq_nil ends)
  · have surfaced := congrArg Cursor.depth (rest.symm.trans same)
    exact surfaced.trans (passage.depth.trans depth)

/-- Conversely, rounds that come to an end are a parse. -/
theorem Parse.parse_of_rounds {options : Options} {source : List UInt8} {fuel level : Nat}
    {stmts : List Node} {last : Cursor}
    (run : rounds (Grammar.closed level) fuel []
      (Parser.ofSource options source).context (Parser.ofSource options source).cursor =
        some (stmts, last)) :
    ∃ program, parse options source = some program ∧ program.statements = stmts.reverse ∧
      program.errors = last.errors.reverse := by
  let program : Program :=
    { root := .mk { attributes :=
                      { comments := last.comments (Parser.ofSource options source).context }
                    position := extent? stmts.reverse } (.stmtList stmts.reverse)
      errors := last.errors.reverse }
  refine ⟨program, ?_, rfl, rfl⟩
  have collected := collect_topLevel_eq_some.mpr (by rwa [List.reverse_reverse])
  have ends : Parse.program fuel (Grammar.closed level) (Parser.ofSource options source).context
      (Parser.ofSource options source).cursor =
        some (program, { last.dropComments with errors := [] }) :=
    program_eq_some.mpr ⟨stmts.reverse, last, collected, rfl, rfl, rfl⟩
  exact parse_of_endsIn
    ⟨fuel + level, program_of_le (Nat.le_add_right ..) (Nat.le_add_left ..) ends⟩

/-- Let a source be accepted whose last significant token is a semicolon. With a line feed and any
more bytes behind it, it has the statements of the source and of the rest read on its own behind an
open tag, positions and comments aside, and the errors of the rest. -/
theorem parse_append_after_semicolon {options : Options} {source more : List UInt8}
    {first second : Program} (parsed : parse options source = some first)
    (accepted : first.errors = [])
    (last : (Lexer.ofSource options.shortTags source).kinds.getLast? = some .semicolon)
    (continued : parse options (bytesOf "<?php\n" ++ more) = some second) :
    ∃ whole, parse options (source ++ 10 :: more) = some whole ∧
      whole.statements.map Node.skeleton =
        (first.statements ++ second.statements).map Node.skeleton ∧
      whole.errors.map ParseError.stripped = second.errors.map ParseError.stripped := by
  obtain ⟨front, between, ending, next, rest, joint⟩ :=
    JoinsAtSemicolon.exists_of_endsAtSemicolon
      (Lexer.endsAtSemicolon_of_accepted parsed accepted last) more
  obtain ⟨fuel, enough, otherEnough⟩ : ∃ fuel,
      (Parser.ofSource options source).fuel ≤ fuel + 1 ∧
        (Parser.ofSource options (bytesOf "<?php\n" ++ more)).fuel ≤ fuel + 1 :=
    ⟨max _ _, Nat.le_succ_of_le (Nat.le_max_left ..), Nat.le_succ_of_le (Nat.le_max_right ..)⟩
  obtain ⟨here, run, errors, ended, depth⟩ := Parse.rounds_of_parse parsed enough
  obtain ⟨there, otherRun, otherErrors, _⟩ := Parse.rounds_of_parse continued otherEnough
  have clean : here.errors = [] := by simpa [accepted] using errors.symm
  -- The statements of the source, in step with a parse of its own.
  obtain ⟨spent, found, behind, arrived, same, goesOn⟩ :=
    Parse.rounds_across (Parser.maxDepth_ofSource options source (source ++ 10 :: more)) joint.ends
      joint.shut _ ⟨between, joint.approachesBoundary⟩ rfl run clean ended
  -- Then those of the rest, in step with the parse that has passed the open tag.
  obtain ⟨opens, agree⟩ := joint.agreesUpToPlacesAndDoc arrived depth
  rw [Parse.rounds_of_true (Parse.topLevel_at_openTag opens)] at otherRun
  obtain ⟨others, final, lastRun, alsoSame, stillAkin⟩ :=
    Parse.rounds_alongside (Parser.maxDepth_ofSource options _ (source ++ 10 :: more)) agree
      otherRun
  have joined := goesOn fuel
  rw [Parse.rounds_append fuel found, lastRun] at joined
  obtain ⟨whole, parsedWhole, statements, wholeErrors⟩ := Parse.parse_of_rounds joined
  refine ⟨whole, parsedWhole, ?_, ?_⟩
  · simp [statements, ← same, ← alsoSame]
  · have stripped : there.errors.map ParseError.stripped = final.errors.map ParseError.stripped :=
      stillAkin.errors
    rw [wholeErrors, otherErrors, List.map_reverse, List.map_reverse, stripped]

/-- A comment may stand behind the semicolon, and the rest may be broken. -/
theorem parse_append_after_semicolon_echo :
    ∃ first second whole, parse {} (bytesOf "<?php echo 1; // one") = some first ∧
      first.errors = [] ∧ parse {} (bytesOf "<?php\n" ++ bytesOf "\x7d echo 2") = some second ∧
      parse {} (bytesOf "<?php echo 1; // one" ++ 10 :: bytesOf "\x7d echo 2") = some whole ∧
      whole.statements.map Node.skeleton =
        (first.statements ++ second.statements).map Node.skeleton ∧
      whole.errors.map ParseError.stripped = second.errors.map ParseError.stripped := by
  have clean : (parse {} (bytesOf "<?php echo 1; // one")).any
      (fun program => program.errors.isEmpty) = true := by decide +kernel
  have ends : (parse {} (bytesOf "<?php\n" ++ bytesOf "\x7d echo 2")).isSome = true := by
    decide +kernel
  obtain ⟨first, parsed, empty⟩ := (Option.any_eq_true _ _).mp clean
  obtain ⟨second, continued⟩ := Option.isSome_iff_exists.mp ends
  have accepted : first.errors = [] := List.isEmpty_iff.mp empty
  obtain ⟨whole, joined⟩ :=
    parse_append_after_semicolon parsed accepted (by decide +kernel) continued
  exact ⟨first, second, whole, parsed, accepted, continued, joined⟩

end PhpTree
