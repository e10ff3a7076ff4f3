import PhpTree.Proofs.Sorting

/-! # Elements of a body

A statement begins where it is asked for and ends where the parse stands after it.
How that end is reached is one of three things: a semicolon or what serves as one, a
block, or the body of a class.  What is so after each of them is so after every
statement, and after a method what is so after its body.  What each element of a list
keeps is kept along the whole list. -/
set_option autoImplicit false
namespace PhpTree

/-- Functions, classes and methods. -/
def Form.isDeclaration {α : Type} : Form α → Bool
  | .function .. | .classDecl .. | .classMethod .. => true
  | _ => false

/-- What is so at the ends of statements, if nothing was reported. -/
structure Endings (survey : Survey) (fuel : Nat) (grammar : Grammar) (ending : Cursor → Prop) :
    Prop where
  semicolon : ∀ cursor, survey.Finds Parse.expectSemicolon cursor fun _ after =>
    survey.clean → ending after
  block : ∀ cursor, survey.Finds (Parse.block fuel grammar) cursor fun _ after =>
    survey.clean → ending after
  classBody : ∀ cursor, survey.Finds (Parse.classBody fuel grammar) cursor fun _ after =>
    survey.clean → ending after

/-- A node that begins at `base` and ends where the parse stands, with the given comments; a
declaration carries `doc`. -/
structure LeavesElement (survey : Survey) (ending : Cursor → Prop) (base : Nat)
    (doc : Option String)
    (comments : List Comment) (node : Node) (after : Cursor) : Prop where
  placed : node.position = some (after.positionFrom survey.context base)
  ended : survey.clean → ending after
  documented : node.form.isDeclaration = true → node.attributes.docComment = doc
  commented : node.attributes.comments = comments

theorem LeavesElement.prependComments {survey : Survey} {ending : Cursor → Prop} {base : Nat}
    {doc : Option String} {node : Node} {after : Cursor}
    (left : LeavesElement survey ending base doc [] node after) (comments : List Comment) :
    LeavesElement survey ending base doc comments
      (node.modifyAttributes fun attributes => attributes.prependComments comments) after := by
  refine ⟨left.placed, left.ended, left.documented, ?_⟩
  show comments ++ node.attributes.comments = comments
  rw [left.commented, List.append_nil]

namespace Parse

variable {survey : Survey} {ending : Cursor → Prop} {base fuel : Nat} {grammar : Grammar}
  {cursor : Cursor}

theorem docComment_document {node : Node} (doc : Option String)
    (none : node.attributes.docComment = none) :
    (document doc node).attributes.docComment = doc := by
  cases doc with
  | none => exact none
  | some text => rfl

theorem comments_document (doc : Option String) (node : Node) :
    (document doc node).attributes.comments = node.attributes.comments := by
  cases doc <;> rfl

theorem expectSemicolon_ends (ends : Endings survey fuel grammar ending) :
    Sorts survey expectSemicolon cursor fun _ after => survey.clean → ending after :=
  (expectSemicolon_sorts.and (ends.semicolon cursor)).mono fun _ _ both => both.2

theorem block_ends (sorting : Sorting survey fuel grammar)
    (ends : Endings survey fuel grammar ending) :
    Sorts survey (block fuel grammar) cursor fun _ after => survey.clean → ending after :=
  ((block_sorts sorting).and (ends.block cursor)).mono fun _ _ both => both.2

theorem expressionStatement_left (sorting : Sorting survey fuel grammar)
    (ends : Endings survey fuel grammar ending) (doc : Option String) :
    Sorts survey (expressionStatement grammar base) cursor fun stmt after =>
      LeavesElement survey ending base doc [] stmt after := by
  refine .bind (sorting.expr _) fun expr _ => ?_
  cases expr with
  | none =>
      refine .pass rfl (.skipToStatementEnd _) <| .finished fun unclean => ?_
      exact ⟨rfl, fun clean => absurd clean unclean, nofun, rfl⟩
  | some expr =>
      refine .bind (expectSemicolon_ends ends) fun _ _ => .finished fun ended _ => ?_
      exact ⟨rfl, ended, nofun, rfl⟩

theorem functionStatement_left (sorting : Sorting survey fuel grammar)
    (ends : Endings survey fuel grammar ending) :
    Sorts survey (functionStatement fuel grammar base) cursor fun stmt after =>
      LeavesElement survey ending base cursor.pendingDoc [] stmt after := by
  refine .takeDoc <| .advance <| .eatAny fun returnsRef _ => ?_
  refine .kind <| .ite (fun anonymous => ?_) fun named => ?_
  · refine .skip (closureTail_sorts sorting _ _ _ _) fun closure _ => ?_
    refine .bind (expectSemicolon_ends ends) fun _ _ => .finished fun ended => ?_
    exact ⟨rfl, ended, nofun, rfl⟩
  · refine .skip (declaredName_sorts _) fun functionName _ => ?_
    refine .skip (parameters_sorts sorting) fun params _ => .skip returnType_sorts fun _ _ => ?_
    refine .bind (block_ends sorting ends) fun stmts _ => .finished fun ended => ?_
    exact ⟨rfl, ended, fun _ => docComment_document _ rfl, comments_document _ _⟩

theorem classDeclaration_left (sorting : Sorting survey fuel grammar)
    (ends : Endings survey fuel grammar ending) (here : cursor.start = base) :
    Sorts survey (classDeclaration fuel grammar) cursor fun stmt after =>
      LeavesElement survey ending base cursor.pendingDoc [] stmt after := by
  subst here
  refine .start <| .takeDoc <| .skip (modifiers_sorts _) fun modifiers _ => ?_
  refine .expectAny fun keyword _ => .skip (declaredName_sorts _) fun className _ => ?_
  refine .skip parent_sorts fun parent _ => .skip interfaces_sorts fun interfaces _ => ?_
  refine .bind ((classBody_sorts sorting).and (ends.classBody _)) fun stmts _ => ?_
  refine .finished fun both => ?_
  exact ⟨rfl, both.2, fun _ => docComment_document _ rfl, comments_document _ _⟩

theorem statementByKind_left (sorting : Sorting survey fuel grammar)
    (ends : Endings survey fuel grammar ending) (here : cursor.start = base) :
    Sorts survey (statementByKind fuel grammar base) cursor fun stmt after =>
      LeavesElement survey ending base cursor.pendingDoc [] stmt after := by
  have echoed : Sorts survey (echoStatement fuel grammar base) cursor
      fun stmt after => LeavesElement survey ending base cursor.pendingDoc [] stmt after := by
    refine .advance <| .skip (exprList_sorts sorting) fun exprs _ => ?_
    refine .bind (expectSemicolon_ends ends) fun _ _ => .finished fun ended => ?_
    exact ⟨rfl, ended, nofun, rfl⟩
  refine .kind ?_
  split
  · exact echoed
  · exact echoed
  · refine .advance <| .skip (sorting.expr _) fun expr _ => ?_
    exact .bind (expectSemicolon_ends ends) fun _ _ => .finished fun ended =>
      ⟨rfl, ended, nofun, rfl⟩
  · refine .advance <| .skip (returned_sorts sorting) fun expr _ => ?_
    exact .bind (expectSemicolon_ends ends) fun _ _ => .finished fun ended =>
      ⟨rfl, ended, nofun, rfl⟩
  · refine .bind (block_ends sorting ends) fun stmts _ => .finished fun ended => ?_
    exact ⟨rfl, ended, nofun, rfl⟩
  · refine .nextKind <| .ite (fun staticAccess => ?_) fun declared => ?_
    · exact expressionStatement_left sorting ends _
    · exact functionStatement_left sorting ends
  · exact classDeclaration_left sorting ends here
  · exact classDeclaration_left sorting ends here
  · exact classDeclaration_left sorting ends here
  · exact classDeclaration_left sorting ends here
  · exact expressionStatement_left sorting ends _

/-- A statement is read one level deeper and takes the comments in front of it.  Whatever else
stands where it is due leaves no node. -/
theorem statement_left {post : Node → Cursor → Prop} (sorting : Sorting survey fuel grammar)
    (ends : Endings survey fuel grammar ending)
    (holds : cursor.kind ≠ .closeTag → ∀ stmt between, survey.fits between →
      LeavesElement survey ending cursor.start cursor.pendingDoc
        (cursor.comments survey.context) stmt
        between → post stmt { between with depth := between.depth - 1 }) :
    Sorts survey (statement fuel grammar) cursor fun answer after =>
      ∀ node ∈ answer, post node after := by
  refine .kind ?_
  split
  · exact .advance <| .pure nofun
  · exact .advance <| .pure nofun
  · exact .pass rfl ((Survey.KeepsSurvey.note _ _).trans (.advance _)) <| .pure nofun
  · exact .advance <| .clearDoc <| .pure nofun
  · rename_i noTag _ _
    refine .deeper (.pass rfl (.skipStatement _) <| .pure fun _ => nofun) <| .map ?_
    refine .start <| .takeComments <| .bind (statementByKind_left sorting ends rfl) ?_
    refine fun stmt between => .given <| .pure fun fits left => ?_
    rintro _ ⟨⟩
    exact holds noTag _ between fits (left.prependComments _)

theorem method_left (sorting : Sorting survey fuel grammar) (comments : List Comment)
    (modifiers : List Node)
    (body : ∀ cursor, Sorts survey (methodBody fuel grammar) cursor fun _ after =>
      survey.clean → ending after) :
    Sorts survey (method fuel grammar base comments modifiers) cursor fun method after =>
      LeavesElement survey ending base cursor.pendingDoc comments method after := by
  refine .takeDoc <| .advance <| .eatAny fun returnsRef _ => ?_
  refine .skip (declaredName_sorts _) fun methodName _ => ?_
  refine .skip (parameters_sorts sorting) fun params _ => .skip returnType_sorts fun _ _ => ?_
  refine .bind (body _) fun stmts _ => .finished fun ended => ?_
  refine ⟨rfl, ended, fun _ => docComment_document _ rfl, ?_⟩
  show comments ++ (document _ _).attributes.comments = comments
  rw [comments_document]
  exact List.append_nil _

/-- What no modifier changes is so after all of them. -/
theorem modifiers_preserve {accepts : TokenKind → Bool} {holds : Cursor → Prop}
    (passes : ∀ middle, accepts middle.kind = true → holds middle →
      holds (middle.advance survey.context)) :
    Sorts survey (modifiers fuel accepts) cursor fun _ after => holds cursor → holds after := by
  have round : ∀ (found : List Node) middle, Sorts survey (do
      if accepts (← kind) then
        let modifier ← leaf .identifier
        pure (some modifier, true)
      else pure (none, false)) middle fun answer after => holds middle →
        (answer.2 = true → holds after) ∧ (answer.2 = false → holds after) := by
    refine fun found middle => .kind <| .ite (fun modifier => ?_) fun _ => ?_
    · exact .leaf <| .pure fun kept => ⟨fun _ => passes middle modifier kept, nofun⟩
    · exact .pure fun kept => ⟨nofun, fun _ => kept⟩
  exact @Sorts.collect Node survey cursor _ (fun _ => holds) (fun _ => holds) round fuel

/-! ## Lists of elements -/

variable {invariant : List Node → Cursor → Prop}

theorem collect_elements {round : Parse (Option Node × Bool)}
    (each : ∀ found cursor, Sorts survey round cursor fun answer after =>
      answer = (none, false) ∨
        answer.2 = true ∧ (invariant found cursor → invariant (found ++ answer.1.toList) after)) :
    Sorts survey (collect fuel round) cursor fun found _ =>
      invariant [] cursor → ∃ last, invariant found last := by
  have collects : ∀ (found : List Node) cursor, Sorts survey round cursor fun answer after =>
      invariant found cursor →
        (answer.2 = true → invariant (found ++ answer.1.toList) after) ∧
        (answer.2 = false → ∃ last, invariant (found ++ answer.1.toList) last) := by
    refine fun found cursor => (each found cursor).mono ?_
    rintro ⟨answer, continues⟩ after (same | ⟨rfl, keeps⟩) holds
    · cases same
      exact ⟨nofun, fun _ => ⟨cursor, by simpa using holds⟩⟩
    · exact ⟨fun _ => keeps holds, nofun⟩
  exact Sorts.collect collects fuel

/-- Without its opening brace a body is empty. -/
theorem braced_elements {element : Parse (Option Node)}
    (each : ∀ found cursor, endsBody cursor.kind = false →
      Sorts survey element cursor fun answer after =>
        invariant found cursor → invariant (found ++ answer.toList) after) :
    Sorts survey (braced fuel element) cursor fun stmts _ =>
      stmts = [] ∨ cursor.kind = .openBrace ∧
        (invariant [] (cursor.advance survey.context) → ∃ last, invariant stmts last) := by
  have round : ∀ (found : List Node) cursor, Sorts survey (do
      if endsBody (← kind) then pure (none, false)
      else
        let element ← element
        pure (element, true)) cursor fun answer after =>
      answer = (none, false) ∨
        answer.2 = true ∧
          (invariant found cursor → invariant (found ++ answer.1.toList) after) := by
    refine fun found cursor => .kind <| .ite (fun closes => .pure (.inl rfl)) fun goesOn => ?_
    have inside : endsBody cursor.kind = false := by simpa using goesOn
    exact .bind (each found cursor inside) fun _ _ => .pure fun keeps => .inr ⟨rfl, keeps⟩
  refine .expect (fun opens => ?_) fun missing => .pure fun _ => .inl rfl
  refine .bind (collect_elements round) fun found _ => .expectAny fun closed _ => ?_
  exact .clearDoc (.pure fun keeps => .inr ⟨opens, keeps⟩)

/-- A body ends with its closing brace, which drops what waits. -/
theorem braced_ends {element : Parse (Option Node)}
    (each : ∀ cursor, Sorts survey element cursor fun _ _ => True)
    (brace : ∀ cursor : Cursor, survey.fits cursor → cursor.kind = .closeBrace →
      ending (cursor.advance survey.context).clearDoc) :
    Sorts survey (braced fuel element) cursor fun _ after => survey.clean → ending after := by
  have round : ∀ cursor, Sorts survey (do
      if endsBody (← kind) then pure (none, false)
      else
        let element ← element
        pure (element, true)) cursor fun answer _ => ∀ node ∈ answer.1, True := by
    refine fun cursor => .kind <| .ite (fun closes => .pure fun _ _ => trivial) fun goesOn => ?_
    exact .skip (each cursor) fun _ _ => .pure fun _ _ => trivial
  refine .expect (fun opens => ?_) fun missing => .pure fun unclean clean => absurd clean unclean
  refine .skip (.collect_all round fuel) fun found middle => ?_
  refine .given <| .expect (fun closes => ?_) fun missing => ?_
  · exact .clearDoc <| .pure fun fits _ => brace middle fits closes
  · exact .clearDoc <| .pure fun unclean _ clean => absurd clean unclean

theorem block_brace (sorting : Sorting survey fuel grammar)
    (brace : ∀ cursor : Cursor, survey.fits cursor → cursor.kind = .closeBrace →
      ending (cursor.advance survey.context).clearDoc) :
    Sorts survey (block fuel grammar) cursor fun _ after => survey.clean → ending after :=
  braced_ends (fun cursor => (sorting.statement cursor).mono fun _ _ _ => trivial) brace

theorem endings_of_brace (sorting : Sorting survey fuel grammar)
    (semicolon : ∀ cursor, survey.Finds expectSemicolon cursor fun _ after =>
      survey.clean → ending after)
    (brace : ∀ cursor : Cursor, survey.fits cursor → cursor.kind = .closeBrace →
      ending (cursor.advance survey.context).clearDoc) :
    Endings survey fuel grammar ending where
  semicolon := semicolon
  block _ := (block_brace sorting brace).finds
  classBody _ := (braced_ends (fun cursor =>
    (sorting.member cursor).mono fun _ _ _ => trivial) brace).finds

/-- At the outermost level a closing brace by itself is passed over. -/
theorem topLevel_elements
    (each : ∀ found cursor, endsBody cursor.kind = false →
      Sorts survey (grammar .statement) cursor fun answer after =>
        invariant found cursor → invariant (found ++ answer.toList) after)
    (stray : ¬ survey.clean → ∀ found cursor, survey.fits cursor → cursor.kind = .closeBrace →
      invariant found cursor →
        invariant found ((cursor.report survey.context .statement).advance survey.context)) :
    Sorts survey (collect fuel (topLevel grammar)) cursor fun stmts _ =>
      invariant [] cursor → ∃ last, invariant stmts last := by
  refine collect_elements fun found cursor => .kind ?_
  split
  · exact .pure (.inl rfl)
  · rename_i isBrace
    refine .given <| .report <| .advance <| .pure fun unclean fits => .inr ⟨rfl, fun holds => ?_⟩
    simpa using stray unclean found cursor fits isBrace holds
  · rename_i goesOn noBrace
    have inside : endsBody cursor.kind = false := by
      unfold endsBody
      split <;> simp_all
    exact .bind (each found cursor inside) fun _ _ => .pure fun keeps => .inr ⟨rfl, keeps⟩

end Parse

/-! ## Lists of two -/

/-- The elements of a list that has two. -/
def Field.pair? {α : Type} : Field α → Option (α × α)
  | .list [first, second] => some (first, second)
  | _ => none

theorem Field.eq_list_of_pair? {α : Type} {field : Field α} {first second : α}
    (found : field.pair? = some (first, second)) : field = .list [first, second] := by
  unfold pair? at found
  split at found
  · cases found
    rfl
  · cases found

def Node.pair? (node : Node) : Option (Node × Node) :=
  (node.form.fields.find? fun field => field.1 == .stmts).bind fun field => field.2.pair?

theorem Node.listed_of_pair? {node first second : Node}
    (found : node.pair? = some (first, second)) :
    (Slot.stmts, Field.list [first, second]) ∈ node.form.fields := by
  obtain ⟨⟨slot, field⟩, body, isPair⟩ := Option.bind_eq_some_iff.mp found
  have isStmts : slot = .stmts := by simpa using List.find?_some body
  have isList : field = .list [first, second] := Field.eq_list_of_pair? isPair
  exact isStmts ▸ isList ▸ List.mem_of_find?_eq_some body

theorem parse_root_of_pair? {options : Options} {source : List UInt8} {program : Program}
    (parsed : parse options source = some program) {first second : Node}
    (found : program.root.pair? = some (first, second)) :
    program.root.form = .stmtList [first, second] := by
  obtain ⟨after, ended⟩ := parse_eq_some.mp parsed
  obtain ⟨stmts, between, _, root, _⟩ := Parse.program_eq_some.mp (Parser.programWith_run ended)
  have form : program.root.form = .stmtList stmts := by rw [root]; rfl
  have listed := Node.listed_of_pair? found
  rw [form] at listed
  have same : [first, second] = stmts := by simpa [Form.fields] using listed
  rw [form, same]

end PhpTree
