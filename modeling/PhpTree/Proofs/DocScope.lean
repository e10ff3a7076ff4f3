import PhpTree.Proofs.Elements
import PhpTree.Proofs.Extents
import PhpTree.Proofs.Gaps
import PhpTree.Proofs.Standing

/-! # How far a doc comment reaches

A doc comment that nothing takes is dropped where a statement ends, so what comes after
a statement carries no doc comment from inside it.  The semicolon of a method without
a body is the exception: it drops nothing.  What waits there has been met since the
method began, and the next method takes it. -/
set_option autoImplicit false
namespace PhpTree

/-- The text of a doc comment that begins at `bound` or later. -/
def IsDocSince (items : List Item) (bound : Nat) (text : String) : Prop :=
  ∃ item ∈ items, ∃ doc, item.docComment? = some doc ∧ doc.text = text ∧ bound ≤ doc.start

theorem IsDocSince.weaken {items : List Item} {bound lower : Nat} {text : String}
    (claimed : IsDocSince items bound text) (le : lower ≤ bound) : IsDocSince items lower text := by
  obtain ⟨item, member, doc, found, same, later⟩ := claimed
  exact ⟨item, member, doc, found, same, Nat.le_trans le later⟩

/-- Items in source order, with the comments of each after the item before. -/
structure Spaced (items : List Item) : Prop where
  stream : InStream items
  comments : ∀ {earlier later : List Item} {previous item : Item},
    items = earlier ++ previous :: item :: later →
      ∀ comment ∈ item.comments, previous.token.stop ≤ comment.start

theorem spaced_tokens (lexer : Lexer) : Spaced (Item.gather lexer.tokens) where
  stream := inStream_gather lexer
  comments split := Item.spaced_gather lexer.tokens_stream split

/-- A doc comment before an item begins where the item in front of it ends, or after. -/
theorem Spaced.stop_le_docComment {items earlier later : List Item} {previous item : Item}
    (spaced : Spaced items) (split : items = earlier ++ previous :: item :: later) {doc : Token}
    (found : item.docComment? = some doc) : previous.token.stop ≤ doc.start := by
  have inside : doc ∈ item.comments := by simpa using List.mem_of_find?_eq_some found
  exact spaced.comments split doc inside

/-- The cursor stands no earlier than `bound`, and so does what waits there. -/
structure Cursor.StandsSince (items : List Item) (bound : Nat) (cursor : Cursor) : Prop where
  stands : cursor.StandsAtItem items bound
  pending : ∀ text ∈ cursor.pendingDoc, IsDocSince items bound text

namespace Cursor.StandsSince

variable {items : List Item} {bound : Nat} {cursor : Cursor}

theorem weaken {lower : Nat} (since : cursor.StandsSince items bound) (le : lower ≤ bound) :
    cursor.StandsSince items lower :=
  ⟨⟨since.stands.ahead, Nat.le_trans le since.stands.since, since.stands.ordered⟩,
    fun text waits => (since.pending text waits).weaken le⟩

theorem of_none (stands : cursor.StandsAtItem items bound) (none : cursor.pendingDoc = none) :
    cursor.StandsSince items bound :=
  ⟨stands, by simp [none]⟩

/-- What comes into reach with the next item begins after the token that was consumed. -/
theorem pending_advance (spaced : Spaced items) (context : Context)
    (stands : cursor.StandsAtItem items bound) :
    ∀ text ∈ (cursor.advance context).pendingDoc,
      IsDocSince items cursor.current.token.stop text ∨ text ∈ cursor.pendingDoc := by
  obtain ⟨earlier, item, split, same⟩ := stands.ahead
  cases following : cursor.following with
  | nil =>
      simp only [Cursor.advance, following]
      exact fun text waits => .inr waits
  | cons next rest =>
      rw [following] at split
      obtain ⟨errors, journal, equation, _⟩ := cursor.advance_cons context next rest following
      rw [equation]
      intro text waits
      cases found : next.docComment? with
      | none => exact .inr (by simpa [found] using waits)
      | some doc =>
          obtain rfl : doc.text = text := by simpa [found] using waits
          have later := spaced.stop_le_docComment split found
          rw [same] at later
          exact .inl ⟨next, by simp [split], doc, found, rfl, later⟩

theorem step {context : Context} {after : Cursor} (spaced : Spaced items)
    (since : cursor.StandsSince items bound) (step : cursor.Step context after) :
    after.StandsSince items bound := by
  refine ⟨since.stands.step spaced.stream step, fun text waits => ?_⟩
  rcases step.stays_or_advances with rfl | ⟨_, _, _, kept | dropped⟩
  · rcases pending_advance spaced context since.stands text waits with claimed | waited
    · exact claimed.weaken (Nat.le_trans since.stands.since (Nat.le_add_right _ _))
    · exact since.pending text waited
  · exact since.pending text (by rwa [kept] at waits)
  · simp [dropped] at waits

end Cursor.StandsSince

def Survey.claiming (context : Context) {items : List Item} (spaced : Spaced items)
    (bound : Nat) : Survey where
  context
  clean := True
  fits := Cursor.StandsSince items bound
  fits_step step since := since.step spaced step
  body _ _ := True
  body_nil _ := trivial
  carries _ attributes := ∀ text ∈ attributes.docComment, IsDocSince items bound text
  carries_plain _ _ none _ := by simp [none]
  carries_doc _ cursor attributes since none _ := by
    cases waits : cursor.pendingDoc with
    | none => simp [Attributes.withDocComment, none]
    | some text => simpa [Attributes.withDocComment] using since.pending text waits
  carries_comments _ carried := carried

/-- A method that ends with a semicolon. -/
def Node.isBodiless (items : List Item) (node : Node) : Bool :=
  match node.form with
  | .classMethod .. => items.any fun item =>
      item.token.kind == .semicolon && node.position.any fun position =>
        position.endOffset == item.token.stop
  | _ => false

/-- Where the doc comments begin that can wait after a node. -/
def Node.docBound (items : List Item) (node : Node) : Nat :=
  node.position.elim 0 fun position =>
    if node.isBodiless items then position.startOffset else position.endOffset

theorem Node.docBound_le {items : List Item} {node : Node} {context : Context} {base : Nat}
    {cursor : Cursor} (placed : node.position = some (cursor.positionFrom context base)) :
    node.docBound items ≤ max cursor.lastEnd base := by
  unfold docBound
  rw [placed]
  simp only [Option.elim]
  split
  · exact Nat.le_max_right _ _
  · exact Nat.le_refl _

theorem Node.docBound_of_isBodiless {items : List Item} {node : Node} {position : Position}
    (placed : node.position = some position) (bodiless : node.isBodiless items = true) :
    node.docBound items = position.startOffset := by
  simp [docBound, placed, bodiless]

namespace Parse

variable {context : Context} {items : List Item} (spaced : Spaced items) {base fuel : Nat}
  {grammar : Grammar} {cursor : Cursor}

/-- At the end of a statement nothing from before waits. -/
theorem expectSemicolon_drops :
    Sorts (.standing context spaced.stream base) expectSemicolon cursor fun _ after =>
      ∀ text ∈ after.pendingDoc, IsDocSince items (max after.lastEnd base) text := by
  refine .clearDoc <| .kind ?_
  split
  · refine .given <| .done rfl (.advance _) fun _ stands text waits => ?_
    rcases Cursor.StandsSince.pending_advance spaced context stands text waits with claimed | waited
    · rw [Cursor.lastEnd_advance]
      have later : base ≤ cursor.clearDoc.current.token.stop :=
        Nat.le_trans stands.since (Nat.le_add_right _ _)
      exact claimed.weaken (Nat.max_le.mpr ⟨Nat.le_refl _, later⟩)
    · cases waited
  · exact .pure nofun
  · exact .pure nofun
  · exact .report <| .done rfl (.skipToStatementEnd _) fun _ unclean => absurd trivial unclean

theorem drops (sorting : Sorting (.standing context spaced.stream base) fuel grammar) :
    Endings (.standing context spaced.stream base) fuel grammar fun after =>
      ∀ text ∈ after.pendingDoc, IsDocSince items (max after.lastEnd base) text :=
  endings_of_brace sorting
    (fun _ _ _ run fits quiet _ => (expectSemicolon_drops spaced).finds run fits quiet)
    fun _ _ _ => nofun

/-- What waits after a node. -/
def BoundsWaitingDoc (items : List Item) (node : Node) (after : Cursor) : Prop :=
  after.kind ≠ .eof → after.StandsSince items (node.docBound items)

theorem statement_bounds
    (sorting : Sorting (.standing context spaced.stream cursor.start) fuel grammar) :
    Sorts (.standing context spaced.stream cursor.start) (statement fuel grammar) cursor
      fun answer after => ∀ node ∈ answer, BoundsWaitingDoc items node after := by
  refine statement_left sorting (drops spaced sorting) fun _ stmt between fits left goesOn => ?_
  have standing : between.StandsAtItem items cursor.start := fits
  refine Cursor.StandsSince.weaken ⟨⟨standing.ahead, ?_, standing.ordered⟩, left.ended trivial⟩
    (Node.docBound_le left.placed)
  exact Nat.max_le.mpr ⟨standing.ordered goesOn, standing.since⟩

theorem methodBody_bounds (sorting : Sorting (.claiming context spaced base) fuel grammar) :
    Sorts (.claiming context spaced base) (methodBody fuel grammar) cursor fun _ after =>
      after.pendingDoc = none ∨
        ∃ item ∈ items, item.token.kind = .semicolon ∧ after.lastEnd = item.token.stop ∧
          base ≤ item.token.stop := by
  refine .given <| .eat (fun semicolon => .pure fun since => .inr ?_)
    fun _ => (block_brace sorting fun _ _ _ => rfl).mono fun _ _ dropped _ => .inl (dropped trivial)
  have since : cursor.StandsSince items base := since
  obtain ⟨earlier, item, split, same⟩ := since.stands.ahead
  refine ⟨item, by simp [split], by rw [same]; exact semicolon, ?_, ?_⟩
  · rw [same]
    exact cursor.lastEnd_advance context
  · rw [same]
    exact Nat.le_trans since.stands.since (Nat.le_add_right _ _)

/-- A method takes what waits when it begins, so what waits at its end was met since. -/
theorem method_bounds (stands : cursor.StandsAtItem items base) (comments : List Comment)
    (modifiers : List Node) (sorting : Sorting (.claiming context spaced base) fuel grammar)
    {node : Node} {after : Cursor}
    (run : method fuel grammar base comments modifiers context cursor = some (node, after))
    (clean : after.errors = []) : BoundsWaitingDoc items node after := by
  have fits : (Survey.claiming context spaced base).fits cursor.clearDoc :=
    .of_none (stands.of_same rfl rfl rfl) rfl
  refine Sorts.run_takeDoc run fits (fun _ => clean) ?_
  refine .advance <| .eatAny fun returnsRef _ => .skip (declaredName_sorts _) fun methodName _ => ?_
  refine .skip (parameters_sorts sorting) fun params _ => .skip returnType_sorts fun _ _ => ?_
  refine .bind (methodBody_bounds spaced sorting) fun stmts between => ?_
  refine .given <| .finished fun since => ?_
  have since : between.StandsSince items base := since
  rintro (dropped | ⟨item, member, semicolon, ends, later⟩) goesOn
  · have later : max between.lastEnd base ≤ between.start :=
      Nat.max_le.mpr ⟨since.stands.ordered goesOn, since.stands.since⟩
    exact Cursor.StandsSince.weaken
      (.of_none ⟨since.stands.ahead, later, since.stands.ordered⟩ dropped)
      (Node.docBound_le rfl)
  · refine since.weaken (Nat.le_of_eq
      (@Node.docBound_of_isBodiless items _ (between.positionFrom context base) rfl ?_))
    have ended : (between.positionFrom context base).endOffset = item.token.stop := by
      show max between.lastEnd base = item.token.stop
      omega
    exact List.any_eq_true.mpr ⟨item, member, Bool.and_eq_true_iff.mpr
      ⟨beq_iff_eq.mpr semicolon, beq_iff_eq.mpr ended⟩⟩

theorem member_bounds
    (sorting : Sorting (.standing context spaced.stream cursor.start) fuel grammar)
    (within : Sorting (.claiming context spaced cursor.start) fuel grammar) :
    Sorts (.standing context spaced.stream cursor.start) (member fuel grammar) cursor
      fun answer after => ∀ node ∈ answer, BoundsWaitingDoc items node after := by
  refine .start <| .takeComments <| .skip (modifiers_sorts _) fun modifiers between => ?_
  refine .kind <| .ite (fun function => .map ?_) fun other => ?_
  · refine ⟨(method_sorts sorting _ _ _).moves, fun run stands quiet => ?_⟩
    rintro _ ⟨⟩
    exact method_bounds spaced stands _ _ within run (quiet trivial)
  · exact .report <| .skipToStatementEnd <| .pure fun _ => nofun

end Parse

/-! ## Lists -/

/-- No element of a list carries anything from before the end of the element in front of it. -/
structure ClaimsPastNeighbours (items : List Item) (stmts : List Node) : Prop where
  claims : ∀ {before rest : List Node} {first second : Node},
    stmts = before ++ first :: second :: rest → ∀ inner ∈ second.nodes,
      ∀ text ∈ inner.attributes.docComment, IsDocSince items (first.docBound items) text

theorem ClaimsPastNeighbours.nil {items : List Item} : ClaimsPastNeighbours items [] := by
  constructor
  intro before rest first second split
  simp at split

/-- What an element of a list carries, and what waits after it. -/
structure ClaimsWithinElement (items : List Item) (head : Cursor) (answer : Option Node)
    (after : Cursor) :
    Prop where
  claims : ∀ {bound : Nat}, head.StandsSince items bound → ∀ node ∈ answer, ∀ inner ∈ node.nodes,
    ∀ text ∈ inner.attributes.docComment, IsDocSince items bound text
  passes : ∀ {bound : Nat}, head.StandsSince items bound → answer = none →
    after.StandsSince items bound
  bounds : ∀ node ∈ answer, Parse.BoundsWaitingDoc items node after

/-- Where the next element begins, nothing from inside the last one waits. -/
def Cursor.AwaitsElement (items : List Item) (last : Option Node) (cursor : Cursor) : Prop :=
  cursor.kind ≠ .eof → ∀ node ∈ last, cursor.StandsSince items (node.docBound items)

theorem ClaimsPastNeighbours.append {items : List Item} {found : List Node} {head after : Cursor}
    (shielded : ClaimsPastNeighbours items found) (awaits : head.AwaitsElement items found.getLast?)
    (goesOn : head.kind ≠ .eof) {answer : Option Node}
    (confined : ClaimsWithinElement items head answer after) :
    ClaimsPastNeighbours items (found ++ answer.toList) := by
  cases answer with
  | none => simpa using shielded
  | some node =>
      constructor
      intro before rest first second split
      rcases List.eq_nil_or_concat rest with rfl | ⟨middle, last, rfl⟩
      · have cut : found ++ [node] = (before ++ [first]) ++ [second] := by simpa using split
        obtain ⟨rfl, same⟩ := List.append_inj' cut rfl
        obtain rfl : node = second := by simpa using same
        exact confined.claims (awaits goesOn first (by simp)) node rfl
      · have cut : found ++ [node] = (before ++ first :: second :: middle) ++ [last] := by
          simpa using split
        exact shielded.claims (List.append_inj' cut rfl).1

namespace Grammar

variable {context : Context} {items : List Item} (spaced : Spaced items)

theorem closed_claiming (bound fuel : Nat) :
    Sorting (.claiming context spaced bound) fuel (closed fuel) :=
  closed_sorting (fun _ _ _ _ _ _ _ => trivial) (fun _ _ _ _ _ _ _ => trivial) fuel

/-- What a phrase does with doc comments, whatever bound holds where it begins. -/
theorem confined_of_claiming {fuel : Nat} {phrase : Phrase} {place : Place} {head after : Cursor}
    {answer : Option Node}
    (claiming : ∀ bound, Sorts (.claiming context spaced bound) (closed fuel phrase) head
      fun answer _ => Allowed (.claiming context spaced bound) place answer)
    (run : closed fuel phrase context head = some (answer, after)) (clean : after.errors = [])
    (bounds : ∀ node ∈ answer, Parse.BoundsWaitingDoc items node after) :
    ClaimsWithinElement items head answer after := by
  refine ⟨fun {bound} since node found inner inside => ?_, fun {bound} since _ => ?_, bounds⟩
  · have sorted := (claiming bound).finds run since (fun _ => clean) node found
    obtain ⟨_, innerSorted⟩ := Sorted.exists_of_mem inner sorted inside
    exact innerSorted.carried
  · exact ((claiming bound).moves run).fits since

theorem closed_confined (fuel : Nat) (cursor : Cursor) :
    (Sorts (.standing context spaced.stream 0) (closed fuel .statement) cursor
      fun answer after => ClaimsWithinElement items cursor answer after) ∧
    (Sorts (.standing context spaced.stream 0) (closed fuel .member) cursor
      fun answer after => ClaimsWithinElement items cursor answer after) := by
  have sorting := @closed_standing context items spaced.stream 0 fuel
  have claiming := fun bound => @closed_claiming context items spaced bound fuel
  cases fuel with
  | zero =>
      exact ⟨.of_runs fun run => (by cases run), .of_runs fun run => (by cases run)⟩
  | succ fuel =>
      have standing := @closed_standing context items spaced.stream cursor.start fuel
      have within := @closed_claiming context items spaced cursor.start fuel
      refine ⟨⟨(sorting.statement cursor).moves, fun run stands quiet => ?_⟩,
        ⟨(sorting.member cursor).moves, fun run stands quiet => ?_⟩⟩
      · exact confined_of_claiming spaced (fun bound => (claiming bound).statement cursor) run
          (quiet trivial)
          ((Parse.statement_bounds spaced standing).finds run stands.from_start quiet)
      · exact confined_of_claiming spaced (fun bound => (claiming bound).member cursor) run
          (quiet trivial)
          ((Parse.member_bounds spaced standing within).finds run stands.from_start quiet)

end Grammar

namespace Parse

variable {context : Context} {items : List Item} {stream : InStream items} {fuel : Nat}
  {cursor : Cursor}

theorem element_shields {element : Parse (Option Node)}
    (each : Sorts (.standing context stream 0) element cursor fun answer after =>
      ClaimsWithinElement items cursor answer after) (goesOn : endsBody cursor.kind = false)
    (found : List Node) :
    Sorts (.standing context stream 0) element cursor fun answer after =>
      ClaimsPastNeighbours items found ∧ cursor.AwaitsElement items found.getLast? →
        ClaimsPastNeighbours items (found ++ answer.toList) ∧
          after.AwaitsElement items (found ++ answer.toList).getLast? := by
  refine each.mono fun answer after confined holds => ?_
  obtain ⟨shielded, awaits⟩ := holds
  have notEnd : cursor.kind ≠ .eof := by
    intro ends
    simp [ends, endsBody] at goesOn
  refine ⟨shielded.append awaits notEnd confined, fun stillGoesOn => ?_⟩
  cases answer with
  | none =>
      intro node last
      exact confined.passes (awaits notEnd node (by simpa using last)) rfl
  | some found =>
      intro node last
      obtain rfl : found = node := by simpa using last
      exact confined.bounds found rfl stillGoesOn

theorem braced_shields {element : Parse (Option Node)}
    (each : ∀ cursor, Sorts (.standing context stream 0) element cursor fun answer after =>
      ClaimsWithinElement items cursor answer after) :
    Sorts (.standing context stream 0) (braced fuel element) cursor fun stmts _ =>
      ClaimsPastNeighbours items stmts := by
  refine (braced_elements fun found cursor goesOn =>
    element_shields (each cursor) goesOn found).mono ?_
  rintro stmts after (rfl | ⟨_, shields⟩)
  · exact .nil
  · obtain ⟨last, shielded, _⟩ := shields ⟨.nil, fun _ => nofun⟩
    exact shielded

theorem topLevel_shields {grammar : Grammar}
    (each : ∀ cursor, Sorts (.standing context stream 0) (grammar .statement) cursor
      fun answer after => ClaimsWithinElement items cursor answer after) :
    Sorts (.standing context stream 0) (collect fuel (topLevel grammar)) cursor fun stmts _ =>
      ClaimsPastNeighbours items stmts := by
  refine (topLevel_elements (fun found cursor goesOn =>
    element_shields (each cursor) goesOn found) fun unclean => absurd trivial unclean).mono ?_
  intro stmts after shields
  obtain ⟨last, shielded, _⟩ := shields ⟨.nil, fun _ => nofun⟩
  exact shielded

end Parse

def Survey.shielding (context : Context) {items : List Item} (stream : InStream items) : Survey :=
  { standing context stream 0 with
    body := fun _ stmts => ClaimsPastNeighbours items stmts
    body_nil := fun _ => .nil }

theorem Grammar.closed_shielding {context : Context} {items : List Item} (spaced : Spaced items)
    (fuel : Nat) : Sorting (.shielding context spaced.stream) fuel (closed fuel) := by
  apply closed_sorting
  · intro fuel cursor stmts after run fits quiet
    exact (Parse.braced_shields fun cursor =>
      (closed_confined spaced fuel cursor).1).finds run fits quiet
  · intro fuel cursor stmts after run fits quiet
    exact (Parse.braced_shields fun cursor =>
      (closed_confined spaced fuel cursor).2).finds run fits quiet

/-! ## Programs -/

theorem parse_shields {options : Options} {source : List UInt8} {program : Program}
    (parsed : parse options source = some program) (clean : program.errors = []) {parent : Node}
    (member : parent ∈ program.root.nodes) {stmts : List Node}
    (listed : (Slot.stmts, Field.list stmts) ∈ parent.form.fields) :
    ClaimsPastNeighbours (Item.gather (Lexer.ofSource options.shortTags source).tokens) stmts := by
  obtain ⟨after, ended⟩ := parse_eq_some.mp parsed
  have run := Parser.programWith_run ended
  have spaced := spaced_tokens (Lexer.ofSource options.shortTags source)
  have sorted := Parse.program_sorted (Grammar.closed_shielding spaced _) (fun run fits quiet =>
    (Parse.topLevel_shields fun cursor =>
      (Grammar.closed_confined spaced _ cursor).1).finds run fits quiet) run
    (Parser.ofSource_stands options source) fun _ => clean
  obtain ⟨place, inner⟩ := Sorted.exists_of_mem parent sorted member
  exact inner.body listed

/-- Without errors, whatever an element of a list carries, itself or inside, is a doc comment from
after the element in front of it, or from inside that one if it is a method without a body. -/
theorem docComment_of_next_element {options : Options} {source : List UInt8} {program : Program}
    (parsed : parse options source = some program) (clean : program.errors = [])
    {parent first second inner : Node} (member : parent ∈ program.root.nodes)
    {before rest : List Node}
    (listed : (Slot.stmts, Field.list (before ++ first :: second :: rest)) ∈ parent.form.fields)
    (inside : inner ∈ second.nodes) {text : String}
    (carried : inner.attributes.docComment = some text) :
    ∃ token ∈ (Lexer.ofSource options.shortTags source).tokens,
      token.kind = .docComment ∧ token.text = text ∧
      ∃ position, first.position = some position ∧
        (if first.isBodiless (Item.gather (Lexer.ofSource options.shortTags source).tokens)
          then position.startOffset else position.endOffset) ≤ token.start := by
  obtain ⟨item, gathered, doc, found, same, later⟩ :=
    (parse_shields parsed clean member listed).claims rfl inner inside text carried
  obtain ⟨pieces, covers⟩ := parse_covers parsed
  have isChild : first ∈ parent.form.children :=
    List.mem_flatMap.mpr ⟨_, listed, by simp [Field.toList]⟩
  obtain ⟨position, placed⟩ := (covers.nested parent member).placed first isChild
  have isDoc : doc.kind = .docComment := by simpa using List.find?_some found
  have listed : doc ∈ (Lexer.ofSource options.shortTags source).tokens :=
    Item.comments_gather gathered doc (by simpa using List.mem_of_find?_eq_some found)
  refine ⟨doc, listed, isDoc, same, position, placed, ?_⟩
  simpa only [Node.docBound, placed, Option.elim] using later

theorem docComment_of_next_element_function :
    ∃ program first second,
      parse {} (bytesOf "<?php f(/** c */); /** d */ function b() \x7b\x7d") = some program ∧
      program.errors = [] ∧ program.root.form = .stmtList [first, second] ∧
      second.attributes.docComment = some "/** d */" ∧
      first.position.map Position.endOffset = some 18 ∧
      ∃ token ∈ (Lexer.ofSource false
          (bytesOf "<?php f(/** c */); /** d */ function b() \x7b\x7d")).tokens,
        token.text = "/** d */" ∧ 18 ≤ token.start := by
  have checked : (parse {} (bytesOf "<?php f(/** c */); /** d */ function b() \x7b\x7d")).any
      (fun program => program.errors.isEmpty && program.root.pair?.any fun pair =>
        pair.1.position.map Position.endOffset == some 18 &&
          pair.1.isBodiless (Item.gather (Lexer.ofSource false
            (bytesOf "<?php f(/** c */); /** d */ function b() \x7b\x7d")).tokens) == false &&
          pair.2.attributes.docComment == some "/** d */") = true := by decide +kernel
  obtain ⟨program, parsed, holds⟩ := (Option.any_eq_true _ _).mp checked
  obtain ⟨isClean, holds⟩ := (Bool.and_eq_true _ _).mp holds
  obtain ⟨⟨first, second⟩, isPair, holds⟩ := (Option.any_eq_true _ _).mp holds
  have clean : program.errors = [] := List.isEmpty_iff.mp isClean
  simp only [Bool.and_eq_true, beq_iff_eq] at holds
  obtain ⟨⟨ended, hasBody⟩, carried⟩ := holds
  have listed :
      (Slot.stmts, Field.list ([] ++ first :: second :: [])) ∈ program.root.form.fields :=
    Node.listed_of_pair? isPair
  obtain ⟨token, member, _, text, position, placed, later⟩ := docComment_of_next_element parsed
    clean program.root.self_mem_nodes listed second.self_mem_nodes carried
  refine ⟨program, first, second, parsed, clean, parse_root_of_pair? parsed isPair, carried, ended,
    token, member, text, ?_⟩
  rw [if_neg (by simp [hasBody])] at later
  have stop : position.endOffset = 18 := by simpa [placed] using ended
  omega

theorem docComment_leaks_from_bodiless_method :
    ∃ program parent first second position,
      parse {} (bytesOf
        "<?php class A \x7b abstract function a(/** d */ $x); function b() \x7b\x7d \x7d") =
        some program ∧
      program.errors = [] ∧ parent ∈ program.root.nodes ∧
      (Slot.stmts, Field.list [first, second]) ∈ parent.form.fields ∧
      first.position = some position ∧ second.attributes.docComment = some "/** d */" ∧
      ∀ token ∈ (Lexer.ofSource false (bytesOf
          "<?php class A \x7b abstract function a(/** d */ $x); function b() \x7b\x7d \x7d")).tokens,
        token.kind = .docComment → token.start < position.endOffset := by
  have checked : (parse {} (bytesOf
      "<?php class A \x7b abstract function a(/** d */ $x); function b() \x7b\x7d \x7d")).any
      (fun program => program.errors.isEmpty && program.root.nodes.any fun parent =>
        parent.pair?.any fun pair => pair.1.position.map Position.endOffset == some 49 &&
          pair.2.attributes.docComment == some "/** d */") = true := by decide +kernel
  have early : ∀ token ∈ (Lexer.ofSource false (bytesOf
      "<?php class A \x7b abstract function a(/** d */ $x); function b() \x7b\x7d \x7d")).tokens,
      token.kind = .docComment → token.start < 49 := by decide +kernel
  obtain ⟨program, parsed, holds⟩ := (Option.any_eq_true _ _).mp checked
  obtain ⟨isClean, holds⟩ := (Bool.and_eq_true _ _).mp holds
  obtain ⟨parent, member, holds⟩ := List.any_eq_true.mp holds
  obtain ⟨⟨first, second⟩, isPair, holds⟩ := (Option.any_eq_true _ _).mp holds
  simp only [Bool.and_eq_true, beq_iff_eq] at holds
  obtain ⟨ended, carried⟩ := holds
  obtain ⟨position, placed, stop⟩ := Option.map_eq_some_iff.mp ended
  exact ⟨program, parent, first, second, position, parsed, List.isEmpty_iff.mp isClean, member,
    Node.listed_of_pair? isPair, placed, carried, by rwa [stop]⟩

end PhpTree
