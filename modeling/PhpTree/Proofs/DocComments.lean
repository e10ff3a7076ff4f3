import PhpTree.Proofs.Elements
import PhpTree.Proofs.Standing

/-! # Which declarations keep their doc comment

A doc comment waits from the moment its item is reached until a declaration takes it
or something drops it.  The semicolon that ends a statement drops what waits before
the next item is reached; a closing brace and a semicolon by itself drop it
afterwards, and with it the doc comment of what comes next.  So a declaration in a
list carries the last doc comment in front of it, except right after these two. -/
set_option autoImplicit false
namespace PhpTree

/-- No doc comment stands between modifiers, or between them and the keyword after them. -/
def isUndisturbed : TokenKind → List Item → Bool
  | kind, item :: rest =>
    !kind.isModifier || (item.docComment?.isNone && isUndisturbed item.token.kind rest)
  | _, [] => true

/-- Whether doc comments after the token are dropped. A semicolon is that of a statement when the
last node in the list ends with it. -/
def dropsDoc (last : Option Node) (token : Token) : Bool :=
  match token.kind with
  | .closeBrace => true
  | .semicolon => !last.any fun node => node.position.any fun position =>
      position.endOffset == token.stop
  | _ => false

/-! ## What waits at the head of a list -/

/-- How a statement or a body is left: a token was consumed last, and what stands before the next
one waits, unless that token was a closing brace. -/
structure Cursor.IsSettled (items : List Item) (base : Nat) (cursor : Cursor) : Prop where
  waiting : ∀ {earlier : List Item} {previous item : Item} {doc : Token},
    items = earlier ++ previous :: item :: cursor.following → item.docComment? = some doc →
      cursor.kind ≠ .closeTag → cursor.kind ≠ .eof →
        base ≤ previous.token.stop ∧ cursor.lastEnd = previous.token.stop ∧
          cursor.pendingDoc = if previous.token.kind = .closeBrace then none else some doc.text

/-- Where the next element of a list begins, after `last`. -/
structure Cursor.ReadyForElement (items : List Item) (last : Option Node)
    (cursor : Cursor) : Prop where
  ended : cursor.kind ≠ .eof → ∀ node ∈ last, ∀ position ∈ node.position,
    position.endOffset ≤ cursor.start
  waiting : ∀ {earlier : List Item} {previous item : Item} {doc : Token},
    items = earlier ++ previous :: item :: cursor.following → item.docComment? = some doc →
      cursor.kind ≠ .closeTag → cursor.kind ≠ .eof →
        cursor.pendingDoc = if dropsDoc last previous.token then none else some doc.text

namespace Cursor

variable {items : List Item} {base : Nat} {cursor : Cursor} {context : Context}

theorem settled_advance (stream : InStream items) (stands : cursor.StandsAtItem items base)
    (noBrace : cursor.kind ≠ .closeBrace) : (cursor.advance context).IsSettled items base := by
  constructor
  intro earlier previous item doc split found _ goesOn
  obtain ⟨same, covers, lastEnd, pending⟩ := stands.advance_split context split stream goesOn
  refine ⟨covers, lastEnd, ?_⟩
  rw [pending, found, if_neg (by rwa [same])]
  rfl

theorem settled_brace (stream : InStream items) (stands : cursor.StandsAtItem items base)
    (closes : cursor.kind = .closeBrace) :
    (cursor.advance context).clearDoc.IsSettled items base := by
  constructor
  intro earlier previous item doc split _ _ goesOn
  obtain ⟨same, covers, lastEnd, _⟩ := stands.advance_split context split stream goesOn
  refine ⟨covers, lastEnd, ?_⟩
  rw [if_pos (by rwa [same])]
  rfl

theorem IsSettled.ready {node : Node} (settled : cursor.IsSettled items base)
    (stands : cursor.StandsAtItem items base)
    (placed : node.position = some (cursor.positionFrom context base)) :
    cursor.ReadyForElement items (some node) := by
  constructor
  · rintro goesOn _ ⟨⟩ position known
    obtain rfl : position = cursor.positionFrom context base := by
      simpa [placed] using known.symm
    exact Nat.max_le.mpr ⟨stands.ordered goesOn, stands.since⟩
  · intro earlier previous item doc split found noTag goesOn
    obtain ⟨covers, lastEnd, pending⟩ := settled.waiting split found noTag goesOn
    rw [pending]
    have ends : (cursor.positionFrom context base).endOffset = previous.token.stop := by
      show max cursor.lastEnd base = _
      omega
    cases kind : previous.token.kind <;> simp [dropsDoc, kind, placed, ends]

/-- Braces that open, tags and page text drop nothing. -/
theorem ready_advance {last : Option Node} (stream : InStream items)
    (stands : cursor.StandsAtItem items base)
    (ended : ∀ node ∈ last, ∀ position ∈ node.position, position.endOffset ≤ cursor.start)
    (keeps : dropsDoc last cursor.current.token = false) :
    (cursor.advance context).ReadyForElement items last := by
  constructor
  · intro _ node member position known
    exact Nat.le_trans (ended node member position known) (stands.start_le_advance stream context)
  · intro earlier previous item doc split found _ goesOn
    obtain ⟨same, _, _, pending⟩ := stands.advance_split context split stream goesOn
    rw [pending, found, same, if_neg (by simp [keeps])]
    rfl

theorem ReadyForElement.semicolon {last : Option Node} (ready : cursor.ReadyForElement items last)
    (stream : InStream items) (stands : cursor.StandsAtItem items base)
    (semicolon : cursor.kind = .semicolon) :
    (cursor.advance context).clearDoc.ReadyForElement items last := by
  have ended := ready.ended (by simp [semicolon])
  constructor
  · intro _ node member position known
    exact Nat.le_trans (ended node member position known) (stands.start_le_advance stream context)
  · intro earlier previous item doc split found _ goesOn
    obtain ⟨same, _⟩ := stands.advance_split context split stream goesOn
    have covers := (stream.covers_before split (List.mem_cons_self ..)).1
    have alone : dropsDoc last previous.token = true := by
      simp only [dropsDoc, same, show cursor.current.token.kind = .semicolon from semicolon]
      rw [Bool.not_eq_true', Option.any_eq_false]
      intro node member
      rw [Option.any_eq_false]
      intro position known
      have before : position.endOffset ≤ previous.token.start :=
        same ▸ ended node member position known
      rw [beq_eq_false_iff_ne, ← same]
      omega
    rw [if_pos alone]
    rfl

structure KeepsUndisturbed (head after : Cursor) : Prop where
  tag : head.kind = .closeTag → after.kind = .closeTag
  undisturbed : isUndisturbed head.kind head.following = true →
    after.pendingDoc = head.pendingDoc ∧ isUndisturbed after.kind after.following = true

theorem KeepsUndisturbed.advance {head : Cursor} (kept : head.KeepsUndisturbed cursor)
    (modifier : cursor.kind.isModifier = true) :
    head.KeepsUndisturbed (cursor.advance context) := by
  constructor
  · intro tag
    simp [kept.tag tag, TokenKind.isModifier] at modifier
  · intro undisturbed
    obtain ⟨same, still⟩ := kept.undisturbed undisturbed
    cases following : cursor.following with
    | nil => simp [Cursor.advance, following, isUndisturbed, same]
    | cons next rest =>
        obtain ⟨errors, journal, equation, _⟩ := cursor.advance_cons context next rest following
        obtain ⟨none, later⟩ : next.docComment? = none ∧
            isUndisturbed next.token.kind rest = true := by
          simpa [following, isUndisturbed, modifier] using still
        rw [equation]
        exact ⟨by simp [none, same], later⟩

end Cursor

/-! ## How statements and methods are left -/

namespace Parse

variable {context : Context} {items : List Item} {stream : InStream items} {base fuel : Nat}
  {grammar : Grammar} {cursor : Cursor}

theorem expectSemicolon_settles :
    Sorts (.standing context stream base) expectSemicolon cursor fun _ after =>
      after.IsSettled items base := by
  refine .clearDoc <| .kind ?_
  split
  · rename_i semicolon
    refine .given <| .done rfl (.advance _) fun _ stands => ?_
    exact Cursor.settled_advance stream stands (by simp [semicolon])
  · rename_i tag
    exact .pure ⟨fun _ _ noTag _ => absurd tag noTag⟩
  · rename_i ends
    exact .pure ⟨fun _ _ _ goesOn => absurd ends goesOn⟩
  · exact .report <| .done rfl (.skipToStatementEnd _) fun _ unclean => absurd trivial unclean

theorem settles (sorting : Sorting (.standing context stream base) fuel grammar) :
    Endings (.standing context stream base) fuel grammar (Cursor.IsSettled items base) :=
  endings_of_brace sorting
    (fun _ _ _ run fits quiet _ => expectSemicolon_settles.finds run fits quiet)
    fun _ stands closes => Cursor.settled_brace stream stands closes

theorem modifiers_keep (survey : Survey) :
    Sorts survey (modifiers fuel TokenKind.isModifier) cursor fun _ after =>
      cursor.KeepsUndisturbed after :=
  (modifiers_preserve fun _ modifier kept => Cursor.KeepsUndisturbed.advance kept modifier).mono
    fun _ _ kept => kept ⟨id, fun undisturbed => ⟨rfl, undisturbed⟩⟩

end Parse

/-! ## Elements of a list -/

/-- What an element of a list does from the head of the list on. -/
structure HandlesElementDoc (items : List Item) (head : Cursor) (answer : Option Node)
    (after : Cursor) :
    Prop where
  ready : ∀ {last : Option Node}, head.ReadyForElement items last →
    after.ReadyForElement items (answer.or last)
  documented : ∀ node ∈ answer, node.form.isDeclaration = true → head.kind ≠ .closeTag ∧
    node.position.map Position.startOffset = some head.start ∧
    (isUndisturbed head.kind head.following = true → node.attributes.docComment = head.pendingDoc)

namespace Parse

variable {context : Context} {items : List Item} {stream : InStream items} {base fuel : Nat}
  {grammar : Grammar} {cursor : Cursor}

theorem statement_element
    (sorting : Sorting (.standing context stream cursor.start) fuel grammar) :
    Sorts (.standing context stream cursor.start) (statement fuel grammar) cursor
      fun answer after => HandlesElementDoc items cursor answer after := by
  refine .given <| .kind ?_
  split
  · rename_i tag
    refine .advance <| .pure fun stands => ⟨fun ready => ?_, nofun⟩
    exact Cursor.ready_advance stream stands (ready.ended (by simp [tag]))
      (by simp [dropsDoc, show cursor.current.token.kind = .openTag from tag])
  · rename_i tag
    refine .advance <| .pure fun stands => ⟨fun ready => ?_, nofun⟩
    exact Cursor.ready_advance stream stands (ready.ended (by simp [tag]))
      (by simp [dropsDoc, show cursor.current.token.kind = .closeTag from tag])
  · rename_i page
    refine .pass rfl ((Survey.KeepsSurvey.note _ _).trans (.advance _)) <| .pure fun fits =>
      ⟨fun ready => ?_, nofun⟩
    have stands : cursor.StandsAtItem items cursor.start := fits
    exact Cursor.ready_advance stream (stands.of_same rfl rfl rfl) (ready.ended (by simp [page]))
      (by simp [dropsDoc, Cursor.note, show cursor.current.token.kind = .inlineHtml from page])
  · rename_i semicolon
    refine .advance <| .clearDoc <| .pure fun stands => ?_
    exact ⟨fun ready => ready.semicolon stream stands semicolon, nofun⟩
  · rename_i noTag _ _
    refine .deeper (.pass rfl (.skipStatement _) <| .pure fun unclean => absurd trivial unclean) ?_
    refine .map <| .start <| .takeComments ?_
    refine .bind (statementByKind_left sorting (settles sorting) rfl) fun stmt between => ?_
    refine .given <| .pure fun stands left _ => ⟨fun _ => ?_, ?_⟩
    · have ready : ∀ change, between.ReadyForElement items (some (stmt.modifyAttributes change)) :=
        fun change => (left.ended trivial).ready stands left.placed
      exact ⟨(ready _).ended, (ready _).waiting⟩
    · rintro _ ⟨⟩ declares
      refine ⟨noTag, ?_, fun _ => left.documented declares⟩
      show stmt.position.map _ = _
      rw [left.placed]
      rfl

theorem methodBody_settles (sorting : Sorting (.standing context stream base) fuel grammar) :
    Sorts (.standing context stream base) (methodBody fuel grammar) cursor fun _ after =>
      True → after.IsSettled items base := by
  refine .given <| .eat (fun semicolon => .pure fun stands _ => ?_) fun braced => ?_
  · exact Cursor.settled_advance stream stands (by simp [semicolon])
  · exact (block_ends sorting (settles sorting)).mono fun _ _ ended _ => ended

theorem member_element
    (sorting : Sorting (.standing context stream cursor.start) fuel grammar) :
    Sorts (.standing context stream cursor.start) (member fuel grammar) cursor
      fun answer after => HandlesElementDoc items cursor answer after := by
  refine .start <| .takeComments <| .bind (modifiers_keep _) fun modifiers between => ?_
  refine .kind <| .ite (fun function => .map ?_) fun other => ?_
  · have left := @method_left _ (Cursor.IsSettled items cursor.start) cursor.start fuel grammar
      between sorting (cursor.comments context) modifiers fun _ => methodBody_settles sorting
    refine left.lands.mono ?_
    rintro method after ⟨left, stands⟩ kept
    refine ⟨fun _ => (left.ended trivial).ready stands left.placed, ?_⟩
    rintro _ ⟨⟩ declares
    refine ⟨fun tag => ?_, ?_, fun undisturbed => ?_⟩
    · simp [kept.tag tag] at function
    · rw [left.placed]
      rfl
    · rw [left.documented declares]
      exact (kept.undisturbed undisturbed).1
  · exact .report <| .skipToStatementEnd <| .pure fun unclean => absurd trivial unclean

end Parse

/-! ## Lists -/

/-- Every declaration of a list that has a doc comment in front of its first item carries it, unless
the token before that item drops it. -/
structure CarriesItsDocs (items : List Item) (stmts : List Node) : Prop where
  carries : ∀ {before rest : List Node} {node : Node}, stmts = before ++ node :: rest →
    node.form.isDeclaration = true →
    ∀ {earlier later : List Item} {previous item : Item} {doc : Token},
      items = earlier ++ previous :: item :: later →
      node.position.map Position.startOffset = some item.token.start →
      item.docComment? = some doc → isUndisturbed item.token.kind later = true →
        node.attributes.docComment =
          if dropsDoc before.getLast? previous.token then none else some doc.text

namespace CarriesItsDocs

variable {items : List Item} {found : List Node} {head after : Cursor} {base : Nat}

theorem nil : CarriesItsDocs items [] := by
  constructor
  intro before rest node split
  simp at split

theorem of_element {node : Node} (stream : InStream items) (stands : head.StandsAtItem items base)
    {last : Option Node} (ready : head.ReadyForElement items last) (goesOn : head.kind ≠ .eof)
    (element : HandlesElementDoc items head (some node) after)
    (declares : node.form.isDeclaration = true)
    {earlier later : List Item} {previous item : Item} {doc : Token}
    (whole : items = earlier ++ previous :: item :: later)
    (placed : node.position.map Position.startOffset = some item.token.start)
    (found : item.docComment? = some doc)
    (undisturbed : isUndisturbed item.token.kind later = true) :
    node.attributes.docComment =
      if dropsDoc last previous.token then none else some doc.text := by
  obtain ⟨noTag, start, taken⟩ := element.documented node rfl declares
  obtain ⟨front, current, standing, same⟩ := stands.ahead
  have begins : item.token.start = current.token.start := by
    rw [same]
    exact Option.some.inj (placed.symm.trans start)
  have cut : items = (earlier ++ [previous]) ++ item :: later := by simpa using whole
  obtain ⟨rfl, rfl, rfl⟩ := stream.split_unique cut standing begins
  have kind : item.token.kind = head.kind := by rw [same]; rfl
  rw [taken (kind ▸ undisturbed)]
  exact ready.waiting whole found noTag goesOn

theorem append (documented : CarriesItsDocs items found) (stream : InStream items)
    (stands : head.StandsAtItem items base) (ready : head.ReadyForElement items found.getLast?)
    (goesOn : head.kind ≠ .eof) {answer : Option Node}
    (element : HandlesElementDoc items head answer after) :
    CarriesItsDocs items (found ++ answer.toList) := by
  cases answer with
  | none => simpa using documented
  | some node =>
      constructor
      intro before rest other split
      rcases List.eq_nil_or_concat rest with rfl | ⟨middle, last, rfl⟩
      · obtain ⟨rfl, rfl⟩ : found = before ∧ node = other := by
          simpa using List.append_inj' split rfl
        exact of_element stream stands ready goesOn element
      · have cut : found ++ [node] = (before ++ other :: middle) ++ [last] := by simpa using split
        exact documented.carries (List.append_inj' cut rfl).1

end CarriesItsDocs

namespace Parse

variable {context : Context} {items : List Item} {stream : InStream items} {base fuel : Nat}
  {cursor : Cursor}

/-- What is so along a list of elements. -/
theorem element_documents {element : Parse (Option Node)}
    (each : Sorts (.standing context stream base) element cursor fun answer after =>
      HandlesElementDoc items cursor answer after) (goesOn : endsBody cursor.kind = false)
    (found : List Node) :
    Sorts (.standing context stream base) element cursor fun answer after =>
      CarriesItsDocs items found ∧ cursor.ReadyForElement items found.getLast? →
        CarriesItsDocs items (found ++ answer.toList) ∧
          after.ReadyForElement items (found ++ answer.toList).getLast? := by
  refine .given <| each.mono fun answer after element stands holds => ?_
  obtain ⟨documented, ready⟩ := holds
  have notEnd : cursor.kind ≠ .eof := by
    intro ends
    simp [ends, endsBody] at goesOn
  have last : (found ++ answer.toList).getLast? = answer.or found.getLast? := by
    cases answer <;> simp
  refine ⟨documented.append stream stands ready notEnd element, ?_⟩
  rw [last]
  exact element.ready ready

theorem braced_documents {element : Parse (Option Node)}
    (each : ∀ cursor, Sorts (.standing context stream base) element cursor fun answer after =>
      HandlesElementDoc items cursor answer after) :
    Sorts (.standing context stream base) (braced fuel element) cursor fun stmts _ =>
      CarriesItsDocs items stmts := by
  refine .given <| (braced_elements fun found cursor goesOn =>
    element_documents (each cursor) goesOn found).mono ?_
  rintro stmts after (rfl | ⟨opens, documents⟩) stands
  · exact .nil
  · obtain ⟨last, documented, _⟩ := documents ⟨.nil, Cursor.ready_advance stream stands nofun
      (by simp [dropsDoc, show cursor.current.token.kind = .openBrace from opens])⟩
    exact documented

theorem topLevel_documents {grammar : Grammar}
    (each : ∀ cursor, Sorts (.standing context stream base) (grammar .statement) cursor
      fun answer after => HandlesElementDoc items cursor answer after) :
    Sorts (.standing context stream base) (collect fuel (topLevel grammar)) cursor fun stmts _ =>
      cursor.ReadyForElement items none → CarriesItsDocs items stmts := by
  refine (topLevel_elements (fun found cursor goesOn =>
    element_documents (each cursor) goesOn found) fun unclean => absurd trivial unclean).mono ?_
  intro stmts after documents ready
  obtain ⟨last, documented, _⟩ := documents ⟨.nil, ready⟩
  exact documented

end Parse

def Survey.documenting (context : Context) {items : List Item} (stream : InStream items) : Survey :=
  { standing context stream 0 with
    body := fun _ stmts => CarriesItsDocs items stmts
    body_nil := fun _ => .nil }

namespace Grammar

variable {context : Context} {items : List Item} (stream : InStream items)

/-- How a phrase moves does not depend on where the survey begins, so what it finds can be shown in
the survey that begins with it. -/
theorem closed_element (base fuel : Nat) (cursor : Cursor) :
    (Sorts (.standing context stream base) (closed fuel .statement) cursor fun answer after =>
      HandlesElementDoc items cursor answer after) ∧
    (Sorts (.standing context stream base) (closed fuel .member) cursor fun answer after =>
      HandlesElementDoc items cursor answer after) := by
  have sorting : Sorting (.standing context stream base) fuel (closed fuel) :=
    closed_standing stream base fuel
  cases fuel with
  | zero =>
      exact ⟨.of_runs fun run => (by cases run), .of_runs fun run => (by cases run)⟩
  | succ fuel =>
      have within : Sorting (.standing context stream cursor.start) fuel (closed fuel) :=
        closed_standing stream cursor.start fuel
      exact ⟨⟨(sorting.statement cursor).moves, fun run stands quiet =>
          (Parse.statement_element within).finds run stands.from_start quiet⟩,
        ⟨(sorting.member cursor).moves, fun run stands quiet =>
          (Parse.member_element within).finds run stands.from_start quiet⟩⟩

theorem closed_documents (fuel : Nat) :
    Sorting (.documenting context stream) fuel (closed fuel) := by
  apply closed_sorting
  · intro fuel cursor stmts after run fits quiet
    exact (Parse.braced_documents fun cursor =>
      (closed_element stream 0 fuel cursor).1).finds run fits quiet
  · intro fuel cursor stmts after run fits quiet
    exact (Parse.braced_documents fun cursor =>
      (closed_element stream 0 fuel cursor).2).finds run fits quiet

end Grammar

/-! ## Programs -/

/-- A parse begins at the first item, with nothing read. -/
theorem Parser.ofSource_ready (options : Options) (source : List UInt8) :
    (ofSource options source).cursor.ReadyForElement
      (Item.gather (Lexer.ofSource options.shortTags source).tokens) none := by
  obtain ⟨item, following, gathered, begins⟩ := ofSource_items options source
  obtain ⟨errors, journal, equation, _⟩ :=
    Cursor.ofItems_eq (ofSource options source).context item following
  rw [gathered, begins, equation]
  refine ⟨nofun, ?_⟩
  intro earlier previous other doc split
  have lengths := congrArg List.length split
  simp only [List.length_cons, List.length_append] at lengths
  omega

theorem parse_documents {options : Options} {source : List UInt8} {program : Program}
    (parsed : parse options source = some program) (clean : program.errors = []) {parent : Node}
    (member : parent ∈ program.root.nodes) {stmts : List Node}
    (listed : (Slot.stmts, Field.list stmts) ∈ parent.form.fields) :
    CarriesItsDocs (Item.gather (Lexer.ofSource options.shortTags source).tokens) stmts := by
  obtain ⟨after, ended⟩ := parse_eq_some.mp parsed
  have run := Parser.programWith_run ended
  have stands := Parser.ofSource_stands options source
  have ready := Parser.ofSource_ready options source
  have stream := inStream_gather (Lexer.ofSource options.shortTags source)
  have sorted := Parse.program_sorted (Grammar.closed_documents stream _) (fun run fits quiet =>
    (Parse.topLevel_documents fun cursor =>
      (Grammar.closed_element stream 0 _ cursor).1).finds run fits quiet ready) run stands
    fun _ => clean
  obtain ⟨place, inner⟩ := Sorted.exists_of_mem parent sorted member
  exact inner.body listed

/-- Without errors, a declaration in a list carries the last doc comment in front of it, unless it
comes right after a closing brace or after a semicolon that ends no statement. -/
theorem docComment_of_declaration {options : Options} {source : List UInt8} {program : Program}
    (parsed : parse options source = some program) (clean : program.errors = [])
    {parent node : Node} (member : parent ∈ program.root.nodes) {before rest : List Node}
    (listed : (Slot.stmts, Field.list (before ++ node :: rest)) ∈ parent.form.fields)
    (declares : node.form.isDeclaration = true) {earlier later : List Item}
    {previous item : Item} {doc : Token}
    (split : Item.gather (Lexer.ofSource options.shortTags source).tokens =
      earlier ++ previous :: item :: later)
    (placed : node.position.map Position.startOffset = some item.token.start)
    (found : item.docComment? = some doc)
    (undisturbed : isUndisturbed item.token.kind later = true) :
    node.attributes.docComment =
      if dropsDoc before.getLast? previous.token then none else some doc.text :=
  (parse_documents parsed clean member listed).carries rfl declares split placed found undisturbed

theorem docComment_after_statement :
    ∃ program first second,
      parse {} (bytesOf "<?php $a; /** d */ function b() \x7b\x7d") = some program ∧
      program.errors = [] ∧ program.root.form = .stmtList [first, second] ∧
      second.form.isDeclaration = true ∧ second.attributes.docComment = some "/** d */" := by
  have checked : (parse {} (bytesOf "<?php $a; /** d */ function b() \x7b\x7d")).any (fun program =>
      program.errors.isEmpty && program.root.pair?.any fun pair =>
        pair.1.position.map Position.endOffset == some 9 && pair.2.form.isDeclaration &&
          pair.2.position.map Position.startOffset == some 19) = true := by decide +kernel
  have split : ∃ later, Item.gather (Lexer.ofSource false
      (bytesOf "<?php $a; /** d */ function b() \x7b\x7d")).tokens =
        [⟨[], [], ⟨.openTag, 0, bytesOf "<?php "⟩⟩, ⟨[], [], ⟨.variableName, 6, bytesOf "$a"⟩⟩] ++
        ⟨[], [], ⟨.semicolon, 8, bytesOf ";"⟩⟩ ::
        ⟨[⟨.docComment, 10, bytesOf "/** d */"⟩], [],
          ⟨.keyword .function, 19, bytesOf "function"⟩⟩ ::
        later :=
    ⟨(Item.gather (Lexer.ofSource false
      (bytesOf "<?php $a; /** d */ function b() \x7b\x7d")).tokens).drop 4, by decide +kernel⟩
  obtain ⟨program, parsed, holds⟩ := (Option.any_eq_true _ _).mp checked
  obtain ⟨later, split⟩ := split
  obtain ⟨isClean, holds⟩ := (Bool.and_eq_true _ _).mp holds
  obtain ⟨⟨first, second⟩, isPair, holds⟩ := (Option.any_eq_true _ _).mp holds
  have clean : program.errors = [] := List.isEmpty_iff.mp isClean
  simp only [Bool.and_eq_true, beq_iff_eq] at holds
  obtain ⟨⟨ended, declares⟩, placed⟩ := holds
  refine ⟨program, first, second, parsed, clean, parse_root_of_pair? parsed isPair, declares, ?_⟩
  have listed : (Slot.stmts, Field.list ([first] ++ second :: [])) ∈ program.root.form.fields :=
    Node.listed_of_pair? isPair
  rw [docComment_of_declaration parsed clean program.root.self_mem_nodes listed declares split
    placed rfl (by cases later <;> rfl)]
  obtain ⟨position, known, stop⟩ := Option.map_eq_some_iff.mp ended
  have kept : dropsDoc (some first) ⟨.semicolon, 8, bytesOf ";"⟩ = false := by
    simp [dropsDoc, known, stop, Token.stop, bytesOf]
  rw [show ([first] : List Node).getLast? = some first from rfl, if_neg (by simp [kept])]
  decide +kernel

theorem docComment_lost_after_brace :
    ∃ program first second,
      parse {} (bytesOf "<?php function a() \x7b\x7d /** d */ function b() \x7b\x7d") =
        some program ∧
      program.errors = [] ∧ program.root.form = .stmtList [first, second] ∧
      second.form.isDeclaration = true ∧ second.position.map Position.startOffset = some 31 ∧
      (Item.gather (Lexer.ofSource false
        (bytesOf "<?php function a() \x7b\x7d /** d */ function b() \x7b\x7d")).tokens).any
          (fun item => item.token.start == 31 &&
            item.docComment?.map Token.text == some "/** d */") = true ∧
      second.attributes.docComment = none := by
  have checked :
      (parse {} (bytesOf "<?php function a() \x7b\x7d /** d */ function b() \x7b\x7d")).any
        (fun program => program.errors.isEmpty && program.root.pair?.any fun pair =>
          pair.2.form.isDeclaration && pair.2.position.map Position.startOffset == some 31 &&
            pair.2.attributes.docComment.isNone) = true := by decide +kernel
  obtain ⟨program, parsed, holds⟩ := (Option.any_eq_true _ _).mp checked
  obtain ⟨isClean, holds⟩ := (Bool.and_eq_true _ _).mp holds
  obtain ⟨⟨first, second⟩, isPair, holds⟩ := (Option.any_eq_true _ _).mp holds
  simp only [Bool.and_eq_true, beq_iff_eq, Option.isNone_iff_eq_none] at holds
  obtain ⟨⟨declares, placed⟩, lost⟩ := holds
  exact ⟨program, first, second, parsed, List.isEmpty_iff.mp isClean,
    parse_root_of_pair? parsed isPair, declares, placed, by decide +kernel, lost⟩

end PhpTree
