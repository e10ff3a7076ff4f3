import PhpTree.Proofs.Parts

/-! # What the productions build

Every production of the grammar builds its nodes from the parts of its phrases, step by
step, as long as the recursive phrases do.  Expressions and statements count as one
level deeper, operands and members do not. -/
set_option autoImplicit false
namespace PhpTree

open PhpTree.Part (here below mark)

structure Grammar.Assembling (context : Context) (grammar : Grammar) : Prop where
  expr : Assembles context [] (grammar .expr) fun answer => below answer.toList
  primary : Assembles context [] (grammar .primary) fun answer => here 7 answer.toList
  statement : Assembles context [] (grammar .statement) fun answer => below answer.toList
  member : Assembles context [] (grammar .member) fun answer => here 5 answer.toList

namespace Parse

variable {context : Context} {fuel : Nat} {grammar : Grammar}

/-! ## Names, variables and types -/

theorem someLeaf_assembles {kind : LeafKind} :
    Assembles context [] (some <$> leaf kind) fun answer => here 1 answer.toList :=
  .map .leaf

theorem identifier_assembles (expected : Expected) :
    Assembles context [] (identifier expected) fun answer => here 2 answer.toList := by
  refine .read fun kind => .ite ?_ (.report (.pure rfl))
  exact someLeaf_assembles.raised (by decide)

theorem simpleVariable_assembles :
    Assembles context [] simpleVariable fun answer => here 2 answer.toList := by
  refine .read fun start => .read fun kind => .ite ?_ (.report (.pure rfl))
  exact .phrase .leaf fun varName => .map (.finish rfl rfl)

theorem furtherPart_assembles :
    Assembles context [] furtherPart fun answer => here 1 answer.1.toList := by
  refine .read fun kind => .read fun nextKind => .ite ?_ (.pure rfl)
  exact .advance <| .phrase .leaf fun part => .pure rfl

theorem qualification_assembles : Assembles context [] qualification fun _ => [] := by
  refine .read fun kind => ?_
  split
  · exact .advance (.pure rfl)
  · exact .read fun nextKind => .ite (.advance (.advance (.pure rfl))) (.pure rfl)
  · exact .pure rfl

theorem name_assembles : Assembles context [] (name fuel) fun answer => here 2 answer.toList := by
  refine .read fun start => ?_
  refine .phrase qualification_assembles fun qualification => ?_
  refine .read fun kind => .ite ?_ (.report (.pure rfl))
  refine .phrase .leaf fun first => ?_
  refine .phrase (.collect furtherPart_assembles fuel) fun others => ?_
  exact .map (.finish rfl rfl)

theorem className_assembles :
    Assembles context [] (className fuel) fun answer => here 2 answer.toList :=
  .read fun _ => .ite name_assembles (.report (.pure rfl))

theorem typeName_assembles :
    Assembles context [] (typeName fuel) fun answer => here 2 answer.toList := by
  refine .read fun kind => .ite ?_ (.ite name_assembles (.report (.pure rfl)))
  exact someLeaf_assembles.raised (by decide)

theorem type_assembles : Assembles context [] (type fuel) fun answer => here 3 answer.toList := by
  refine .read fun start => .eat fun nullable => .ite ?_ ?_
  · exact .phrase typeName_assembles fun expr => .map (.finish rfl rfl)
  · exact typeName_assembles.raised (by decide)

theorem returnType_assembles :
    Assembles context [] (returnType fuel) fun answer => here 3 answer.toList :=
  .eat fun _ => .ite type_assembles (.pure rfl)

theorem modifiers_assembles (accepts : TokenKind → Bool) :
    Assembles context [] (modifiers fuel accepts) (here 2) := by
  refine .collect (.read fun kind => .ite ?_ (.pure rfl)) fuel
  exact .phrase (.raised .leaf (by decide)) fun modifier => .pure rfl

theorem interface_assembles :
    Assembles context [] (interface fuel) fun answer => here 2 answer.1.toList :=
  .phrase className_assembles fun _ => .eat fun _ => .pure rfl

theorem parent_assembles : Assembles context [] (parent fuel) fun answer => here 2 answer.toList :=
  .eat fun _ => .ite className_assembles (.pure rfl)

theorem interfaces_assembles : Assembles context [] (interfaces fuel) (here 2) :=
  .eat fun _ => .ite (.collect interface_assembles fuel) (.pure rfl)

theorem parenthesised_assembles {round : Parse (Option Node × Bool)} {level : Level}
    (each : Assembles context [] round fun answer => mark level answer.1.toList) :
    Assembles context [] (parenthesised fuel round) (mark level) := by
  refine .expect fun opened => .ite ?_ (.pure rfl)
  refine .phrase (.collect (.read fun kind => .ite (.pure rfl) each) fuel) fun listed => ?_
  exact .expect fun closed => .pure rfl

theorem capture_assembles : Assembles context [] capture fun answer => here 3 answer.1.toList := by
  refine .read fun start => .eat fun byRef => ?_
  refine .phrase simpleVariable_assembles fun captured => ?_
  split
  · rename_i missing
    obtain rfl := Option.isNone_iff_eq_none.mp (Bool.and_eq_true_iff.mp missing).1
    exact .pure rfl
  · exact .bind (.finish rfl rfl) fun capture => .eat fun goesOn => .pure rfl

theorem captures_assembles : Assembles context [] (captures fuel) (here 3) :=
  .eat fun _ => .ite (parenthesised_assembles capture_assembles) (.pure rfl)

/-! ## Lists of expressions -/

theorem listedExpr_assembles (assembling : grammar.Assembling context) :
    Assembles context [] (listedExpr grammar) fun answer => below answer.1.toList := by
  refine .phrase assembling.expr fun answer => ?_
  cases answer with
  | none => exact .pure rfl
  | some expr => exact .eat fun goesOn => .pure rfl

theorem exprList_assembles (assembling : grammar.Assembling context) :
    Assembles context [] (exprList fuel grammar) below :=
  .collect (listedExpr_assembles assembling) fuel

theorem argument_assembles (assembling : grammar.Assembling context) :
    Assembles context [] (argument grammar) fun answer => here 4 answer.1.toList := by
  refine .read fun start => .eat fun variadic => ?_
  refine .phrase assembling.expr fun answer => ?_
  cases answer with
  | none => exact .pure rfl
  | some expr => exact .bind (.finish rfl rfl) fun argument => .eat fun goesOn => .pure rfl

theorem arguments_assembles (assembling : grammar.Assembling context) :
    Assembles context [] (arguments fuel grammar) (here 4) :=
  parenthesised_assembles (argument_assembles assembling)

theorem optionalArguments_assembles (assembling : grammar.Assembling context) :
    Assembles context [] (optionalArguments fuel grammar) (here 4) :=
  .read fun _ => .ite (arguments_assembles assembling) (.pure rfl)

theorem parameterType_assembles :
    Assembles context [] (parameterType fuel) fun answer => here 3 answer.toList :=
  .read fun _ => .ite type_assembles (.pure rfl)

theorem parameterDefault_assembles (assembling : grammar.Assembling context) :
    Assembles context [] (parameterDefault grammar) fun answer => below answer.toList :=
  .eat fun _ => .ite assembling.expr (.pure rfl)

theorem parameter_assembles (assembling : grammar.Assembling context) :
    Assembles context [] (parameter fuel grammar) fun answer => here 4 answer.1.toList := by
  refine .read fun start => ?_
  refine .phrase parameterType_assembles fun type => ?_
  refine .eat fun byRef => .eat fun variadic => ?_
  refine .phrase simpleVariable_assembles fun binding => ?_
  refine .phrase (parameterDefault_assembles assembling) fun initial => ?_
  exact .bind (.finish rfl rfl) fun parameter => .eat fun goesOn => .pure rfl

theorem parameters_assembles (assembling : grammar.Assembling context) :
    Assembles context [] (parameters fuel grammar) (here 4) :=
  parenthesised_assembles (parameter_assembles assembling)

/-! ## Calls, accesses and assignments -/

theorem memberName_assembles (expected : Expected) :
    Assembles context [] (memberName expected) fun answer => here 2 answer.toList :=
  .read fun _ => .ite simpleVariable_assembles (identifier_assembles expected)

theorem memberAccess_assembles (assembling : grammar.Assembling context) (start : Nat)
    (object : Node) :
    Assembles context (here 7 [object]) (memberAccess fuel grammar start object)
      fun answer => here 7 [answer] := by
  refine .phrase (memberName_assembles _) fun member => ?_
  refine .read fun kind => .ite ?_ (.finish rfl rfl)
  exact .phrase (arguments_assembles assembling) fun arguments => .finish rfl rfl

theorem staticAccess_assembles (assembling : grammar.Assembling context) (start : Nat)
    (scope : Node) :
    Assembles context (here 7 [scope]) (staticAccess fuel grammar start scope)
      fun answer => here 7 [answer] := by
  refine .read fun kind => .phrase (memberName_assembles _) fun member => ?_
  refine .read fun following => .ite ?_ (.ite (.finish rfl rfl) (.finish rfl rfl))
  exact .phrase (arguments_assembles assembling) fun arguments => .finish rfl rfl

theorem trailer_assembles (assembling : grammar.Assembling context) (start : Nat) (operand : Node) :
    Assembles context (here 7 [operand]) (trailer fuel grammar start operand)
      fun answer => here 7 [answer.1] := by
  have member : Assembles context (here 7 [operand]) (memberAccess fuel grammar start operand)
      fun answer => here 7 [answer] := memberAccess_assembles assembling start operand
  refine .read fun kind => ?_
  split
  · refine .phrase (arguments_assembles assembling) fun arguments => ?_
    exact .bind (.finish rfl rfl) fun call => .pure rfl
  · exact .advance <| .bind member fun access => .pure rfl
  · exact .advance <| .bind member fun access => .pure rfl
  · exact .advance <| .bind (staticAccess_assembles assembling start operand) fun access =>
      .pure rfl
  · exact .pure rfl

theorem trailers_assembles (assembling : grammar.Assembling context) (start : Nat)
    (operand : Node) :
    Assembles context (here 7 [operand]) (trailers fuel grammar start operand)
      fun answer => here 7 [answer] :=
  .loop (fun operand => trailer_assembles assembling start operand) fuel operand

theorem assignment_assembles (assembling : grammar.Assembling context) (start : Nat)
    (target : Node) :
    Assembles context (here 7 [target]) (assignment grammar start target)
      fun answer => here 8 [answer] := by
  refine .read fun kind => ?_
  split
  · refine .advance <| .eat fun byRef => ?_
    exact .phrase assembling.expr fun source => .finish rfl rfl
  · exact .advance <| .phrase assembling.expr fun source => .finish rfl rfl
  · exact .raised (.pure rfl) (by decide)

theorem nameExpr_assembles :
    Assembles context [] (nameExpr fuel) fun answer => here 3 answer.toList := by
  refine .read fun start => .phrase name_assembles fun answer => ?_
  cases answer with
  | none => exact .pure rfl
  | some name =>
      refine .read fun kind => ?_
      split
      · exact .raised (.pure rfl) (by decide)
      · exact .raised (.pure rfl) (by decide)
      · exact .map (.finish rfl rfl)

/-! ## Bodies -/

theorem braced_assembles {element : Parse (Option Node)} {level : Level}
    (each : Assembles context [] element fun answer => mark level answer.toList) :
    Assembles context [] (braced fuel element) (mark level) := by
  refine .expect fun opened => .ite ?_ (.pure rfl)
  refine .phrase (.collect ?_ fuel) fun elements => .expect fun closed => .clearDoc (.pure rfl)
  exact .read fun kind => .ite (.pure rfl) (.phrase each fun element => .pure rfl)

theorem block_assembles (assembling : grammar.Assembling context) :
    Assembles context [] (block fuel grammar) below :=
  braced_assembles assembling.statement

theorem classBody_assembles (assembling : grammar.Assembling context) :
    Assembles context [] (classBody fuel grammar) (here 5) :=
  braced_assembles assembling.member

theorem methodBody_assembles (assembling : grammar.Assembling context) :
    Assembles context [] (methodBody fuel grammar) below :=
  .eat fun _ => .ite (.pure rfl) (block_assembles assembling)

/-! ## Declarations

What waits when a declaration claims its doc comment is part of what it is finished with, so these
productions are followed from the cursor at which they claim it. -/

section Declarations
variable {given held : List Part} {origin before cursor : Cursor}

/-- The form may name its children in another order than they were read in. -/
theorem finish_declares {claim : Cursor} {front parts : List Part} {node : Node}
    (built : BuildsParts context given origin held before)
    (opening : BuildsParts context [] before front claim)
    (claims : node.form.Claims before claim)
    (rest : BuildsParts context [] claim.clearDoc parts cursor)
    (complete : (front ++ parts).Perm (node.form.parts 1))
    (doc : node.attributes.docComment = claim.pendingDoc) :
    RunMeets True context (finish before.start node) cursor fun answer after =>
      BuildsParts context given origin (held ++ here (node.form.rank 1) [answer]) after :=
  .finished (.declaration built opening claims rest complete doc rfl)

theorem closureTail_builds (assembling : grammar.Assembling context)
    (built : BuildsParts context given origin held before)
    (entered : BuildsParts context [] before.clearDoc [] cursor) (static returnsRef : Bool) :
    RunMeets True context
      (closureTail fuel grammar before.start before.pendingDoc static returnsRef) cursor
      fun answer after => BuildsParts context given origin (held ++ here 5 [answer]) after := by
  refine .bind ((parameters_assembles assembling).adds entered) fun params _ rest => ?_
  refine .bind (captures_assembles.adds rest) fun uses _ rest => ?_
  refine .bind (returnType_assembles.adds rest) fun returnType _ rest => ?_
  refine .bind ((block_assembles assembling).adds rest) fun stmts _ rest => ?_
  exact finish_declares built .here rfl rest (.refl _) (docComment_document _ rfl)

theorem closure_assembles (assembling : grammar.Assembling context) :
    Assembles context [] (closure fuel grammar) fun answer => here 5 [answer] := by
  refine .of_adds fun {given held origin cursor} built => .start <| .takeDoc ?_
  have entered : BuildsParts context [] cursor.clearDoc [] cursor.clearDoc := .here
  refine .bind (Assembles.eaten.adds entered) fun static _ rest => ?_
  refine .bind (Assembles.expected.adds rest) fun found _ rest => ?_
  refine .bind (Assembles.eaten.adds rest) fun returnsRef _ rest => ?_
  exact closureTail_builds assembling built rest static returnsRef

theorem method_builds (assembling : grammar.Assembling context) {modifiers : List Node}
    (built : BuildsParts context given origin held before)
    (opening : BuildsParts context [] before (here 2 modifiers) cursor)
    (passes : before.Passes TokenKind.isModifier cursor)
    (isFunction : cursor.kind = .keyword .function) (comments : List Comment) :
    RunMeets True context (method fuel grammar before.start comments modifiers) cursor
      fun answer after => BuildsParts context given origin (held ++ here 5 [answer]) after := by
  have entered : BuildsParts context [] cursor.clearDoc [] (cursor.clearDoc.advance context) :=
    BuildsParts.advance .here
  refine .takeDoc <| .advance ?_
  refine .bind (Assembles.eaten.adds entered) fun returnsRef _ rest => ?_
  refine .bind ((identifier_assembles _).adds rest) fun methodName _ rest => ?_
  refine .bind ((parameters_assembles assembling).adds rest) fun params _ rest => ?_
  refine .bind (returnType_assembles.adds rest) fun returnType _ rest => ?_
  refine .bind ((methodBody_assembles assembling).adds rest) fun stmts _ rest => ?_
  refine finish_declares built opening ⟨passes, isFunction⟩ rest ?_ (docComment_document _ rfl)
  -- The name is written down before the modifiers, which were read first.
  show (here 2 modifiers ++ (here 2 methodName.toList ++ here 4 params ++
    here 3 returnType.toList ++ below stmts)).Perm (here 2 methodName.toList ++ here 2 modifiers ++
      here 4 params ++ here 3 returnType.toList ++ below stmts)
  simp only [List.append_assoc]
  exact List.perm_append_comm_assoc _ _ _

theorem modifiers_passes (accepts : TokenKind → Bool) (cursor : Cursor) :
    RunMeets True context (modifiers fuel accepts) cursor fun _ after =>
      cursor.Passes accepts after := by
  refine @RunMeets.collect _ _ _ _ _ (fun _ => cursor.Passes accepts) _
    (fun _ reached passes => ?_) _
    (.refl cursor) (.inl trivial)
  refine .kind ?_
  split
  · rename_i accepted
    exact .leaf <| .pure ⟨fun _ => ⟨passes.advance context accepted, .inl trivial⟩, nofun⟩
  · exact .pure ⟨nofun, fun _ => passes⟩

theorem member_assembles (assembling : grammar.Assembling context) :
    Assembles context [] (member fuel grammar) fun answer => here 5 answer.toList := by
  refine .of_adds fun {given held origin cursor} built => .start <| .takeComments ?_
  have outside : RunMeets True context (modifiers fuel TokenKind.isModifier) cursor.dropComments
      fun modifiers claim => BuildsParts context given origin (held ++ here 2 modifiers) claim :=
    (modifiers_assembles _).adds built.dropComments
  have inside : RunMeets True context (modifiers fuel TokenKind.isModifier) cursor.dropComments
      fun modifiers claim => BuildsParts context [] cursor.dropComments (here 2 modifiers) claim :=
    (modifiers_assembles _).adds .here
  refine .bind (outside.and (inside.and (modifiers_passes _ _))) fun modifiers claim read =>
    .kind ?_
  obtain ⟨passed, opening, passes⟩ := read
  split
  · rename_i isFunction
    exact .map (method_builds assembling built.dropComments opening passes isFunction _)
  · -- The modifiers of what is no method are given up with it.
    have given_up := (passed.drop.report .functionKeyword).skipToStatementEnd
    exact .report <| .modify <| .pure (by simpa using given_up)

theorem classDeclaration_assembles (assembling : grammar.Assembling context) :
    Assembles context [] (classDeclaration fuel grammar) fun answer => here 6 [answer] := by
  refine .of_adds fun {given held origin cursor} built => .start <| .takeDoc ?_
  have entered : BuildsParts context [] cursor.clearDoc [] cursor.clearDoc := .here
  refine .bind ((modifiers_assembles _).adds entered) fun modifiers _ rest => ?_
  refine .bind (Assembles.expected.adds rest) fun _ _ rest => ?_
  refine .bind ((identifier_assembles _).adds rest) fun className _ rest => ?_
  refine .bind (parent_assembles.adds rest) fun parent _ rest => ?_
  refine .bind (interfaces_assembles.adds rest) fun interfaces _ rest => ?_
  refine .bind ((classBody_assembles assembling).adds rest) fun stmts _ rest => ?_
  refine finish_declares built .here rfl rest ?_ (docComment_document _ rfl)
  show (here 2 modifiers ++ [] ++ here 2 className.toList ++ here 2 parent.toList ++
    here 2 interfaces ++ here 5 stmts).Perm (here 2 className.toList ++ here 2 modifiers ++ [] ++
      here 2 parent.toList ++ here 2 interfaces ++ here 5 stmts)
  simp only [List.append_assoc, List.nil_append]
  exact List.perm_append_comm_assoc _ _ _

theorem anonymousClass_assembles (assembling : grammar.Assembling context) :
    Assembles context [] (anonymousClass fuel grammar) fun answer => here 6 [answer] := by
  refine .of_adds fun {given held origin cursor} built => .start <| .takeDoc <| .advance ?_
  have entered : BuildsParts context [] cursor.clearDoc [] (cursor.clearDoc.advance context) :=
    BuildsParts.advance .here
  refine .bind ((optionalArguments_assembles assembling).adds entered) fun args _ rest => ?_
  refine .bind (parent_assembles.adds rest) fun parent _ rest => ?_
  refine .bind (interfaces_assembles.adds rest) fun interfaces _ rest => ?_
  refine .bind ((classBody_assembles assembling).adds rest) fun stmts _ rest => ?_
  exact finish_declares built .here rfl rest (.refl _) (docComment_document _ rfl)

theorem expectSemicolon_assembles {taken : List Part} :
    Assembles context taken expectSemicolon fun _ => taken := by
  refine .clearDoc <| .read fun kind => ?_
  split
  · exact .moves (fun _ => rfl) BuildsParts.advance
  · exact .pure rfl
  · exact .pure rfl
  · exact .report .skipToStatementEnd

theorem functionStatement_builds (assembling : grammar.Assembling context)
    (built : BuildsParts context given origin held cursor) :
    RunMeets True context (functionStatement fuel grammar cursor.start) cursor
      fun answer after => BuildsParts context given origin (held ++ here 6 [answer]) after := by
  have entered : BuildsParts context [] cursor.clearDoc [] (cursor.clearDoc.advance context) :=
    BuildsParts.advance .here
  refine .takeDoc <| .advance ?_
  refine .bind (Assembles.eaten.adds entered) fun returnsRef _ rest => .kind ?_
  split
  · refine .bind (closureTail_builds assembling built rest false returnsRef)
      fun closure _ built => ?_
    have ends : Assembles context (here 5 [closure]) (do
        expectSemicolon
        finish cursor.start (.bare (.expression (some closure)))) fun answer => here 6 [answer] :=
      .bind expectSemicolon_assembles fun _ => .finish rfl rfl
    exact ends.outcome built
  · refine .bind ((identifier_assembles _).adds rest) fun functionName _ rest => ?_
    refine .bind ((parameters_assembles assembling).adds rest) fun params _ rest => ?_
    refine .bind (returnType_assembles.adds rest) fun returnType _ rest => ?_
    refine .bind ((block_assembles assembling).adds rest) fun stmts _ rest => ?_
    refine RunMeets.mono (finish_declares built .here rfl rest (.refl _)
      (docComment_document _ rfl)) fun _ _ built => ?_
    exact built.raise (show 5 ≤ 6 by decide)

end Declarations

/-! ## Expressions -/

theorem instantiated_assembles :
    Assembles context [] (instantiated fuel) fun answer => here 2 answer.toList := by
  refine .read fun kind => .ite name_assembles (.ite ?_ (.ite simpleVariable_assembles ?_))
  · exact someLeaf_assembles.raised (by decide)
  · exact .report (.pure rfl)

theorem instantiation_assembles (assembling : grammar.Assembling context) :
    Assembles context [] (instantiation fuel grammar) fun answer => here 7 [answer] := by
  refine .read fun start => .advance <| .read fun kind => .ite ?_ ?_
  · exact .phrase (anonymousClass_assembles assembling) fun scope => .finish rfl rfl
  · refine .phrase (instantiated_assembles.raised (show 2 ≤ 6 by decide)) fun scope => ?_
    exact .phrase (optionalArguments_assembles assembling) fun arguments => .finish rfl rfl

theorem variableVariable_assembles (assembling : grammar.Assembling context) :
    Assembles context [] (variableVariable grammar) fun answer => here 4 [answer] := by
  refine .read fun start => .advance <| .eat fun braced => .ite ?_ ?_
  · exact .phrase assembling.expr.lowered fun varName => .expect fun closed =>
      .finishNamed 3 rfl rfl
  · have nested : Assembles context [] (deeper (pure none) (grammar .primary)) fun answer =>
        below answer.toList := .deeper (.pure rfl) (assembling.primary.raised (by decide))
    exact .phrase nested.lowered fun varName => .finishNamed 3 rfl rfl

theorem group_assembles (assembling : grammar.Assembling context) :
    Assembles context [] (group grammar) fun answer => here 3 answer.toList :=
  .advance <| .phrase assembling.expr.lowered fun _ => .expect fun _ => .pure rfl

theorem noExpression_assembles :
    Assembles context [] noExpression fun answer => here 7 answer.toList :=
  .report (.pure rfl)

theorem primary_assembles (assembling : grammar.Assembling context) :
    Assembles context [] (primary fuel grammar) fun answer => here 7 answer.toList := by
  have literal : ∀ kind, Assembles context [] (some <$> leaf kind) fun answer =>
      here 7 answer.toList := fun _ => someLeaf_assembles.raised (by decide)
  have name : Assembles context [] (nameExpr fuel) fun answer => here 7 answer.toList :=
    nameExpr_assembles.raised (by decide)
  have closure : Assembles context [] (some <$> Parse.closure fuel grammar) fun answer =>
      here 7 answer.toList :=
    .raised
      (.map (closure_assembles assembling)) (by decide)
  refine .read fun kind => ?_
  split
  · exact simpleVariable_assembles.raised (by decide)
  · exact .raised
      (.map (variableVariable_assembles assembling)) (by decide)
  · exact literal _
  · exact literal _
  · exact literal _
  · exact name
  · exact name
  · exact .read fun nextKind => .ite name noExpression_assembles
  · exact .read fun nextKind => .ite closure (literal _)
  · exact closure
  · exact .map (instantiation_assembles assembling)
  · exact (group_assembles assembling).raised (by decide)
  · exact noExpression_assembles

theorem exprBody_assembles (assembling : grammar.Assembling context) :
    Assembles context [] (exprBody fuel grammar) fun answer => here 8 answer.toList := by
  refine .read fun start => .phrase (primary_assembles assembling) fun answer => ?_
  cases answer with
  | none => exact .pure rfl
  | some operand =>
      refine .bind (trailers_assembles assembling start operand) fun target => ?_
      exact .map (assignment_assembles assembling start target)

theorem expr_assembles (assembling : grammar.Assembling context) :
    Assembles context [] (expr fuel grammar) fun answer => below answer.toList :=
  .deeper (.pure rfl) (exprBody_assembles assembling)

/-! ## Statements -/

theorem echoStatement_assembles (assembling : grammar.Assembling context) (start : Nat) :
    Assembles context [] (echoStatement fuel grammar start) fun answer => here 4 [answer] := by
  refine .advance <| .phrase (exprList_assembles assembling) fun exprs => ?_
  exact .bind expectSemicolon_assembles fun _ => .finish rfl rfl

theorem throwStatement_assembles (assembling : grammar.Assembling context) (start : Nat) :
    Assembles context [] (throwStatement grammar start) fun answer => here 4 [answer] := by
  refine .advance <| .phrase assembling.expr fun expr => ?_
  exact .bind expectSemicolon_assembles fun _ => .finish rfl rfl

theorem returned_assembles (assembling : grammar.Assembling context) :
    Assembles context [] (returned grammar) fun answer => below answer.toList :=
  .read fun _ => .ite (.pure rfl) assembling.expr

theorem returnStatement_assembles (assembling : grammar.Assembling context) (start : Nat) :
    Assembles context [] (returnStatement grammar start) fun answer => here 4 [answer] := by
  refine .advance <| .phrase (returned_assembles assembling) fun expr => ?_
  exact .bind expectSemicolon_assembles fun _ => .finish rfl rfl

theorem endExpression_assembles {taken : List Part} (found : Bool) :
    Assembles context taken (endExpression found) fun _ => taken :=
  .ite expectSemicolon_assembles .skipToStatementEnd

theorem expressionStatement_assembles (assembling : grammar.Assembling context) (start : Nat) :
    Assembles context [] (expressionStatement grammar start) fun answer => here 6 [answer] := by
  refine .phrase (assembling.expr.lowered.raised (show 3 ≤ 5 by decide)) fun expr => ?_
  exact .bind (endExpression_assembles _) fun _ => .finish rfl rfl

theorem blockStatement_assembles (assembling : grammar.Assembling context) (start : Nat) :
    Assembles context [] (blockStatement fuel grammar start) fun answer => here 4 [answer] :=
  .phrase (block_assembles assembling) fun _ => .finish rfl rfl

theorem statementByKind_builds (assembling : grammar.Assembling context) {given held : List Part}
    {origin cursor : Cursor} (built : BuildsParts context given origin held cursor) :
    RunMeets True context (statementByKind fuel grammar cursor.start) cursor
      fun answer after => BuildsParts context given origin (held ++ here 8 [answer]) after := by
  have plain : ∀ {parser : Parse Node} {rank : Nat}, Assembles context [] parser (fun answer =>
      here rank [answer]) → rank ≤ 8 → RunMeets True context parser cursor fun answer after =>
        BuildsParts context given origin (held ++ here 8 [answer]) after :=
    fun assembles le => (assembles.raised le).adds built
  refine .kind ?_
  split
  · exact plain (echoStatement_assembles assembling _) (by decide)
  · exact plain (echoStatement_assembles assembling _) (by decide)
  · exact plain (throwStatement_assembles assembling _) (by decide)
  · exact plain (returnStatement_assembles assembling _) (by decide)
  · exact plain (blockStatement_assembles assembling _) (by decide)
  · refine .nextKind ?_
    split
    · exact plain (expressionStatement_assembles assembling _) (by decide)
    · refine RunMeets.mono (functionStatement_builds assembling built) fun _ _ built => ?_
      exact built.raise (by decide)
  · exact plain (classDeclaration_assembles assembling) (by decide)
  · exact plain (classDeclaration_assembles assembling) (by decide)
  · exact plain (classDeclaration_assembles assembling) (by decide)
  · exact plain (classDeclaration_assembles assembling) (by decide)
  · exact plain (expressionStatement_assembles assembling _) (by decide)

theorem statementBody_assembles (assembling : grammar.Assembling context) :
    Assembles context [] (statementBody fuel grammar) fun answer => here 8 [answer] := by
  refine .of_adds fun built => .start <| .takeComments ?_
  refine .bind (statementByKind_builds assembling built.dropComments) fun stmt _ built => ?_
  exact .pure (.commented _ built)

theorem skipPageText_assembles {taken : List Part} :
    Assembles context taken skipPageText fun _ => taken :=
  .moves (fun _ => rfl) fun built => (built.step (.note _) rfl).advance

theorem statement_assembles (assembling : grammar.Assembling context) :
    Assembles context [] (statement fuel grammar) fun answer => below answer.toList := by
  refine .read fun kind => ?_
  split
  · exact .advance (.pure rfl)
  · exact .advance (.pure rfl)
  · exact .bind skipPageText_assembles fun _ => .pure rfl
  · exact .advance (.clearDoc (.pure rfl))
  · refine .deeper ?_ (.map (statementBody_assembles assembling))
    exact .bind (.moves (fun _ => rfl) BuildsParts.skipStatement) fun _ => .pure rfl

/-! ## Programs -/

theorem topLevel_assembles (assembling : grammar.Assembling context) :
    Assembles context [] (topLevel grammar) fun answer => below answer.1.toList := by
  refine .read fun kind => ?_
  split
  · exact .pure rfl
  · exact .report (.advance (.pure rfl))
  · exact .phrase assembling.statement fun _ => .pure rfl

end Parse

theorem Grammar.closed_assembling (context : Context) (fuel : Nat) :
    (closed fuel).Assembling context := by
  induction fuel with
  | zero =>
      have never : ∀ left : Option Node → List Part,
          Assembles context [] Parse.outOfFuel left :=
        fun left => ⟨fun _ => .out trivial rfl⟩
      exact ⟨never _, never _, never _, never _⟩
  | succ fuel inductionHypothesis =>
      exact ⟨Parse.expr_assembles inductionHypothesis, Parse.primary_assembles inductionHypothesis,
        Parse.statement_assembles inductionHypothesis, Parse.member_assembles inductionHypothesis⟩

/-- The statements of a program are built from nothing, one level below the root. -/
theorem parse_builds {options : Options} {source : List UInt8} {program : Program}
    (parsed : parse options source = some program) :
    ∃ after, BuildsParts (Parser.ofSource options source).context []
      (Parser.ofSource options source).cursor (program.root.form.parts 1) after ∧
        program.root.attributes.docComment = none := by
  obtain ⟨_, ended⟩ := parse_eq_some.mp parsed
  obtain ⟨stmts, last, collected, root, -⟩ :=
    Parse.program_eq_some.mp (Parser.programWith_run ended)
  have assembles := Assembles.collect (Parse.topLevel_assembles (Grammar.closed_assembling
    (Parser.ofSource options source).context (Parser.ofSource options source).fuel))
    (Parser.ofSource options source).fuel
  rw [root]
  exact ⟨last, (assembles.adds .here).of_run collected, rfl⟩

end PhpTree
