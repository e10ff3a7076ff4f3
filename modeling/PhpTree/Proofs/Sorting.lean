import PhpTree.Proofs.Sorts
import PhpTree.Proofs.Termination

/-! # Parsed trees are well sorted

Every production puts together nodes that belong where they stand, as soon as the
phrases it asks for do.  A bare name is no expression; it is an answer only where a
call or an access follows, which takes it in. -/
set_option autoImplicit false
namespace PhpTree

structure Sorting (survey : Survey) (fuel : Nat) (grammar : Grammar) : Prop where
  expr : ∀ cursor, Sorts survey (grammar .expr) cursor fun answer _ => Due survey .expr answer
  primary : ∀ cursor, Sorts survey (grammar .primary) cursor fun answer _ =>
    Due survey .operand answer
  statement : ∀ cursor, Sorts survey (grammar .statement) cursor fun answer _ =>
    Allowed survey .statement answer
  member : ∀ cursor, Sorts survey (grammar .member) cursor fun answer _ =>
    Allowed survey .method answer
  block : ∀ cursor, survey.Finds (Parse.block fuel grammar) cursor fun stmts _ =>
    survey.body .statement stmts
  classBody : ∀ cursor, survey.Finds (Parse.classBody fuel grammar) cursor fun stmts _ =>
    survey.body .method stmts

namespace Parse

variable {survey : Survey} {fuel : Nat} {grammar : Grammar} {cursor : Cursor} {place : Place}

/-! ## Names, variables and types -/

theorem leaf_sorted {kind : LeafKind} {text : String} {position : Position}
    (admitted : ∀ text, place.admits (.leaf kind text : Form Node) = true) :
    Sorted survey place ((Node.leaf kind text).withPosition position) :=
  .of_fields rfl (admitted text) trivial

theorem identifier_sorts (expected : Expected)
    (admitted : ∀ text, place.admits (.leaf .identifier text : Form Node) = true) :
    Sorts survey (identifier expected) cursor fun answer _ => Due survey place answer := by
  refine .kind <| .ite (fun found => ?_) fun missing => .report (.pure id)
  exact .someLeaf (leaf_sorted admitted)

theorem declaredName_sorts (expected : Expected) :
    Sorts survey (identifier expected) cursor fun answer _ => Due survey .identifier answer :=
  identifier_sorts expected fun _ => rfl

theorem simpleVariable_sorts
    (admitted : ∀ varName, place.admits (.variableRef varName : Form Node) = true) :
    Sorts survey simpleVariable cursor fun answer _ => Due survey place answer := by
  refine .start <| .kind <| .ite (fun found => ?_) fun missing => .report (.pure id)
  refine .leaf <| .map <| .finished ?_
  have varName : ∀ text position, Sorted survey .operand
      ((Node.leaf .identifier text).withPosition position) := fun _ _ => leaf_sorted fun _ => rfl
  exact .of_fields rfl (admitted _) (varName _ _)

theorem qualification_sorts : Sorts survey qualification cursor fun _ _ => True := by
  refine .kind ?_
  split
  · exact .advance (.pure trivial)
  · refine .nextKind <| .ite (fun qualified => ?_) fun bare => .pure trivial
    exact .advance <| .advance (.pure trivial)
  · exact .pure trivial

theorem name_sorts
    (admitted : ∀ qualification first others,
      place.admits (.name qualification (first :: others) : Form Node) = true) :
    Sorts survey (name fuel) cursor fun answer _ => Due survey place answer := by
  have part : ∀ text position, Sorted survey .namePart
      ((Node.leaf .namePart text).withPosition position) := fun _ _ => leaf_sorted fun _ => rfl
  have further : ∀ cursor, Sorts survey furtherPart cursor fun answer _ =>
      Allowed survey .namePart answer.1 := by
    intro cursor
    refine .kind <| .nextKind <| .ite (fun goesOn => ?_) fun ended => .pure .none
    exact .advance <| .leaf <| .pure (.some (part _ _))
  refine .start <| .skip qualification_sorts fun _ _ => ?_
  refine .kind <| .ite (fun found => ?_) fun missing => .report (.pure id)
  refine .leaf <| .bind (.collect_all further fuel) fun others _ => .map <| .finished ?_
  intro sorted
  exact .of_fields rfl (admitted _ _ _) (List.forall_mem_cons.mpr ⟨part _ _, sorted⟩)

theorem className_sorts :
    Sorts survey (className fuel) cursor fun answer _ => Due survey .name answer := by
  refine .kind <| .ite (fun found => ?_) fun missing => .report (.pure id)
  exact name_sorts fun _ _ _ => rfl

theorem typeName_sorts
    (identifiers : ∀ text, place.admits (.leaf .identifier text : Form Node) = true)
    (names : ∀ qualification first others,
      place.admits (.name qualification (first :: others) : Form Node) = true) :
    Sorts survey (typeName fuel) cursor fun answer _ => Due survey place answer := by
  refine .kind <| .ite (fun builtin => ?_) fun other => .ite (fun named => ?_) fun missing => ?_
  · exact .someLeaf (leaf_sorted identifiers)
  · exact name_sorts names
  · exact .report (.pure id)

theorem type_sorts :
    Sorts survey (type fuel) cursor fun answer _ => Due survey .type answer := by
  refine .start <| .eat (fun nullable => ?_) fun plain => ?_
  · have inner : ∀ cursor, Sorts survey (typeName fuel) cursor fun answer _ =>
        Due survey .typeName answer := fun cursor => typeName_sorts (fun _ => rfl) fun _ _ _ => rfl
    refine .bind (inner _) fun expr _ => .map <| .finished fun found => ?_
    exact .of_fields rfl rfl found
  · exact typeName_sorts (fun _ => rfl) fun _ _ _ => rfl

theorem returnType_sorts :
    Sorts survey (returnType fuel) cursor fun answer _ => Allowed survey .type answer := by
  refine .eat (fun colon => ?_) fun absent => .pure .none
  exact type_sorts.mono fun _ _ => Due.allowed

theorem modifiers_sorts (accepts : TokenKind → Bool) :
    Sorts survey (modifiers fuel accepts) cursor fun found _ =>
      Listed survey .identifier found := by
  refine .collect_all (fun cursor => .kind <| .ite (fun modifier => ?_) fun other => ?_) fuel
  · exact .leaf <| .pure (Allowed.some (leaf_sorted fun _ => rfl))
  · exact .pure Allowed.none

theorem parent_sorts :
    Sorts survey (parent fuel) cursor fun answer _ => Allowed survey .name answer := by
  refine .eat (fun extending => ?_) fun absent => .pure .none
  exact className_sorts.mono fun _ _ => Due.allowed

theorem interfaces_sorts :
    Sorts survey (interfaces fuel) cursor fun found _ => Listed survey .name found := by
  refine .eat (fun implementing => ?_) fun absent => .pure (List.forall_mem_nil _)
  refine .collect_all (fun cursor => ?_) fuel
  exact .bind className_sorts fun interface _ => .eatAny fun goesOn _ => .pure Due.allowed

theorem parenthesised_sorts {round : Parse (Option Node × Bool)}
    (each : ∀ cursor, Sorts survey round cursor fun answer _ => Allowed survey place answer.1) :
    Sorts survey (parenthesised fuel round) cursor fun found _ => Listed survey place found := by
  have listed : ∀ cursor, Sorts survey (do if endsList (← kind) then pure (none, false) else round)
      cursor fun answer _ => Allowed survey place answer.1 := fun cursor =>
    .kind <| .ite (fun closes => .pure .none) fun goesOn => each cursor
  refine .expect (fun opened => ?_) fun missing => .pure fun _ => List.forall_mem_nil _
  refine .bind (.collect_all listed fuel) fun found _ => ?_
  exact .expectAny fun closed _ => .pure id

theorem captures_sorts :
    Sorts survey (captures fuel) cursor fun found _ => Listed survey .capture found := by
  refine .eat (fun used => ?_) fun absent => .pure (List.forall_mem_nil _)
  refine parenthesised_sorts fun cursor => ?_
  have named : ∀ cursor, Sorts survey simpleVariable cursor fun answer _ =>
      Due survey .variable answer := fun cursor => simpleVariable_sorts fun _ => rfl
  refine .start <| .eatAny fun byRef _ => ?_
  refine .bind (named _) fun captured _ => .ite (fun missing => ?_) fun isSome => ?_
  · exact .pure fun _ => .none
  · refine .finish <| .eatAny fun goesOn _ => .pure fun found => ?_
    exact .some (.of_fields rfl rfl found)

/-! ## Calls and lists of expressions -/

/-- A list is empty only where its first expression is missing. -/
theorem exprList_sorts (sorting : Sorting survey fuel grammar) :
    Sorts survey (exprList fuel grammar) cursor fun found _ =>
      Listed survey .expr found ∧ (found = [] → ¬ survey.clean) := by
  have round : ∀ cursor, Sorts survey (listedExpr grammar) cursor fun answer _ =>
      Due survey .expr answer.1 := by
    intro cursor
    refine .bind (sorting.expr cursor) fun answer between => ?_
    cases answer with
    | none => exact .pure id
    | some expr => exact .eatAny fun _ _ => .pure id
  have collected := @Sorts.collect _ survey cursor (listedExpr grammar)
    (fun found _ => Listed survey .expr found)
    (fun found _ => Listed survey .expr found ∧ (found = [] → ¬ survey.clean))
    (fun found cursor => (round cursor).mono fun answer _ due before => ?_) fuel
  · exact collected.mono fun _ _ holds => holds (List.forall_mem_nil _)
  · have listed : Listed survey .expr (found ++ answer.1.toList) := by
      simpa [Listed, or_imp, forall_and] using ⟨before, due.allowed⟩
    refine ⟨fun _ => listed, fun _ => ⟨listed, fun empty => ?_⟩⟩
    have missing : answer.1 = none := by simpa using (List.append_eq_nil_iff.mp empty).2
    rwa [missing] at due

theorem arguments_sorts (sorting : Sorting survey fuel grammar) :
    Sorts survey (arguments fuel grammar) cursor fun found _ =>
      Listed survey .argument found := by
  refine parenthesised_sorts fun cursor => ?_
  refine .start <| .eatAny fun variadic _ => ?_
  refine .bind (sorting.expr _) fun answer between => ?_
  cases answer with
  | none => exact .pure fun _ => .none
  | some expr =>
      refine .finish <| .eatAny fun goesOn _ => .pure fun found => ?_
      exact .some (.of_fields rfl rfl found)

theorem optionalArguments_sorts (sorting : Sorting survey fuel grammar) :
    Sorts survey (optionalArguments fuel grammar) cursor fun found _ =>
      Listed survey .argument found := by
  refine .kind <| .ite (fun listed => ?_) fun absent => .pure (List.forall_mem_nil _)
  exact arguments_sorts sorting

theorem parameters_sorts (sorting : Sorting survey fuel grammar) :
    Sorts survey (parameters fuel grammar) cursor fun found _ =>
      Listed survey .parameter found := by
  have type : ∀ cursor, Sorts survey (parameterType fuel) cursor fun answer _ =>
      Allowed survey .type answer := by
    intro cursor
    refine .kind <| .ite (fun typed => ?_) fun absent => .pure .none
    exact type_sorts.mono fun _ _ => Due.allowed
  have binding : ∀ cursor, Sorts survey simpleVariable cursor fun answer _ =>
      Due survey .variable answer := fun cursor => simpleVariable_sorts fun _ => rfl
  have initial : ∀ cursor, Sorts survey (parameterDefault grammar) cursor fun answer _ =>
      Allowed survey .expr answer := by
    intro cursor
    refine .eat (fun given => ?_) fun absent => .pure .none
    exact (sorting.expr _).mono fun _ _ => Due.allowed
  refine parenthesised_sorts fun cursor => ?_
  refine .start <| .bind (type _) fun type _ => ?_
  refine .eatAny fun byRef _ => .eatAny fun variadic _ => ?_
  refine .bind (binding _) fun binding _ => .bind (initial _) fun initial _ => ?_
  refine .finish <| .eatAny fun goesOn _ => .pure ?_
  intro initial binding type
  exact .some (.of_fields rfl rfl ⟨type, binding, initial⟩)

theorem memberName_sorts (expected : Expected)
    (asVariable : cursor.kind = .variableName →
      ∀ varName, place.admits (.variableRef varName : Form Node) = true)
    (asIdentifier : cursor.kind ≠ .variableName →
      ∀ text, place.admits (.leaf .identifier text : Form Node) = true) :
    Sorts survey (memberName expected) cursor fun answer _ => Due survey place answer := by
  refine .kind <| .ite (fun same => ?_) fun different => ?_
  · exact simpleVariable_sorts (asVariable same)
  · exact identifier_sorts expected (asIdentifier different)

theorem memberAccess_sorts (sorting : Sorting survey fuel grammar) (start : Nat) (object : Node) :
    Sorts survey (memberAccess fuel grammar start object) cursor fun access _ =>
      Sorted survey .expr object → Sorted survey .expr access := by
  have named : Sorts survey (memberName .memberName) cursor fun answer _ =>
      Due survey .member answer := memberName_sorts _ (fun _ _ => rfl) fun _ _ => rfl
  refine .bind named fun member _ => ?_
  refine .kind <| .ite (fun call => ?_) fun fetch => ?_
  · refine .bind (arguments_sorts sorting) fun arguments _ => .finished ?_
    exact fun arguments member object => .of_fields rfl rfl ⟨object, member, arguments⟩
  · exact .finished fun member object => .of_fields rfl rfl ⟨object, member⟩

/-- The first token decides between a property and a constant, and on what can be its name. -/
theorem staticAccess_sorts (sorting : Sorting survey fuel grammar) (start : Nat) (scope : Node) :
    Sorts survey (staticAccess fuel grammar start scope) cursor fun access _ =>
      Sorted survey .operand scope → Sorted survey .expr access := by
  have named : Sorts survey (memberName .identifier) cursor fun answer _ =>
      Due survey .member answer := memberName_sorts _ (fun _ _ => rfl) fun _ _ => rfl
  refine .kind ?_
  by_cases first : cursor.kind = .variableName
  · have property : Sorts survey (memberName .identifier) cursor fun answer _ =>
        Due survey .variable answer :=
      memberName_sorts _ (fun _ _ => rfl) fun different => absurd first different
    refine .bind (named.and property.finds) fun member _ => ?_
    refine .kind <| .ite (fun call => ?_) fun fetch => ?_
    · refine .bind (arguments_sorts sorting) fun arguments _ => .finished ?_
      exact fun arguments member scope => .of_fields rfl rfl ⟨scope, member.1, arguments⟩
    · rw [if_pos first]
      exact .finished fun member scope => .of_fields rfl rfl ⟨scope, member.2⟩
  · have constant : Sorts survey (memberName .identifier) cursor fun answer _ =>
        Due survey .identifier answer :=
      memberName_sorts _ (fun same => absurd same first) fun _ _ => rfl
    refine .bind (named.and constant.finds) fun member _ => ?_
    refine .kind <| .ite (fun call => ?_) fun fetch => ?_
    · refine .bind (arguments_sorts sorting) fun arguments _ => .finished ?_
      exact fun arguments member scope => .of_fields rfl rfl ⟨scope, member.1, arguments⟩
    · rw [if_neg first]
      exact .finished fun member scope => .of_fields rfl rfl ⟨scope, member.2⟩

/-- An operand that is an expression, or a bare name in front of what takes it in. -/
def FitsTrailer (survey : Survey) (operand : Node) (cursor : Cursor) : Prop :=
  Sorted survey .expr operand ∨
    Sorted survey .operand operand ∧ (cursor.kind = .openParen ∨ cursor.kind = .doubleColon)

theorem FitsTrailer.operand {operand : Node} (trailed : FitsTrailer survey operand cursor) :
    Sorted survey .operand operand :=
  trailed.elim Sorted.operand And.left

theorem FitsTrailer.expr {operand : Node} (trailed : FitsTrailer survey operand cursor)
    (call : cursor.kind ≠ .openParen) (access : cursor.kind ≠ .doubleColon) :
    Sorted survey .expr operand :=
  trailed.elim id fun named => absurd named.2 (not_or.mpr ⟨call, access⟩)

def AnswerFitsTrailer (survey : Survey) (cursor : Cursor) : Option Node → Prop
  | some operand => FitsTrailer survey operand cursor
  | none => ¬ survey.clean

theorem trailer_sorts (sorting : Sorting survey fuel grammar) (start : Nat) (operand : Node) :
    Sorts survey (trailer fuel grammar start operand) cursor fun answer after =>
      FitsTrailer survey operand cursor →
        (answer.2 = true → FitsTrailer survey answer.1 after) ∧
        (answer.2 = false → Sorted survey .expr answer.1) := by
  refine .kind ?_
  split
  · refine .bind (arguments_sorts sorting) fun arguments _ => .finish <| .pure ?_
    intro listed trailed
    exact ⟨fun _ => .inl (.of_fields rfl rfl ⟨trailed.operand, listed⟩), by simp⟩
  · rename_i arrow
    refine .advance <| .bind (memberAccess_sorts sorting _ _) fun access _ => .pure ?_
    exact fun sorts trailed =>
      ⟨fun _ => .inl (sorts (trailed.expr (by simp [arrow]) (by simp [arrow]))), by simp⟩
  · rename_i arrow
    refine .advance <| .bind (memberAccess_sorts sorting _ _) fun access _ => .pure ?_
    exact fun sorts trailed =>
      ⟨fun _ => .inl (sorts (trailed.expr (by simp [arrow]) (by simp [arrow]))), by simp⟩
  · refine .advance <| .bind (staticAccess_sorts sorting _ _) fun access _ => .pure ?_
    exact fun sorts trailed => ⟨fun _ => .inl (sorts trailed.operand), by simp⟩
  · rename_i call _ _ access
    exact .pure fun trailed => ⟨by simp, fun _ => trailed.expr call access⟩

theorem trailers_sorts (sorting : Sorting survey fuel grammar) (start : Nat) (operand : Node) :
    Sorts survey (trailers fuel grammar start operand) cursor fun answer _ =>
      FitsTrailer survey operand cursor → Sorted survey .expr answer :=
  .loop (fun operand _ => trailer_sorts sorting start operand) fuel operand cursor

theorem assignment_sorts (sorting : Sorting survey fuel grammar) (start : Nat) (target : Node) :
    Sorts survey (assignment grammar start target) cursor fun answer _ =>
      Sorted survey .expr target → Sorted survey .expr answer := by
  refine .kind ?_
  split
  · refine .advance <| .eatAny fun byRef _ => ?_
    refine .bind (sorting.expr _) fun source _ => .finished ?_
    exact fun source target => .of_fields rfl rfl ⟨target, source⟩
  · refine .advance <| .bind (sorting.expr _) fun source _ => .finished ?_
    exact fun source target => .of_fields rfl rfl ⟨target, source⟩
  · exact .pure id

/-- A bare name is left for the call or access that follows. -/
theorem nameExpr_sorts :
    Sorts survey (nameExpr fuel) cursor fun answer after =>
      AnswerFitsTrailer survey after answer := by
  have operand : Sorts survey (name fuel) cursor fun answer _ => Due survey .operand answer :=
    name_sorts fun _ _ _ => rfl
  have constant : Sorts survey (name fuel) cursor fun answer _ => Due survey .name answer :=
    name_sorts fun _ _ _ => rfl
  refine .start <| .bind (operand.and constant.finds) fun answer between => ?_
  cases answer with
  | none => exact .pure fun found => found.1
  | some name =>
      refine .kind ?_
      split
      · rename_i call
        exact .pure fun found => .inr ⟨found.1, .inl call⟩
      · rename_i access
        exact .pure fun found => .inr ⟨found.1, .inr access⟩
      · exact .map <| .finished fun found => .inl (.of_fields rfl rfl found.2)

/-! ## Functions, closures and classes -/

theorem braced_sorts {element : Parse (Option Node)}
    (each : ∀ cursor, Sorts survey element cursor fun answer _ => Allowed survey place answer) :
    Sorts survey (braced fuel element) cursor fun found _ => Listed survey place found := by
  have round : ∀ cursor, Sorts survey (do
      if endsBody (← kind) then pure (none, false)
      else
        let element ← element
        pure (element, true)) cursor fun answer _ => Allowed survey place answer.1 := by
    intro cursor
    refine .kind <| .ite (fun closes => .pure .none) fun goesOn => ?_
    exact .bind (each cursor) fun element _ => .pure id
  refine .expect (fun opened => ?_) fun missing => .pure fun _ => List.forall_mem_nil _
  refine .bind (.collect_all round fuel) fun found _ => ?_
  exact .expectAny fun closed _ => .clearDoc (.pure id)

theorem block_sorts (sorting : Sorting survey fuel grammar) :
    Sorts survey (block fuel grammar) cursor fun stmts _ =>
      Listed survey .statement stmts ∧ survey.body .statement stmts :=
  (braced_sorts sorting.statement).and (sorting.block cursor)

theorem classBody_sorts (sorting : Sorting survey fuel grammar) :
    Sorts survey (classBody fuel grammar) cursor fun stmts _ =>
      Listed survey .method stmts ∧ survey.body .method stmts :=
  (braced_sorts sorting.member).and (sorting.classBody cursor)

theorem closureTail_sorts (sorting : Sorting survey fuel grammar) (start : Nat)
    (doc : Option String) (static returnsRef : Bool) :
    Sorts survey (closureTail fuel grammar start doc static returnsRef) cursor fun closure _ =>
      survey.Grants doc → Sorted survey .expr closure := by
  refine .bind (parameters_sorts sorting) fun params _ => .bind captures_sorts fun uses _ => ?_
  refine .bind returnType_sorts fun returnType _ => .bind (block_sorts sorting) fun stmts _ => ?_
  refine .finished fun stmts returnType uses params granted => ?_
  exact .of_carrying rfl rfl ⟨params, uses, returnType, stmts⟩ (granted rfl rfl)

theorem closure_sorts (sorting : Sorting survey fuel grammar) :
    Sorts survey (closure fuel grammar) cursor fun closure _ => Sorted survey .expr closure := by
  refine .given <| .start <| .takeDoc ?_
  refine .eatAny fun static _ => .expectAny fun keyword _ => .eatAny fun returnsRef _ => ?_
  refine (closureTail_sorts sorting _ _ _ _).mono fun closure _ sorted fits => ?_
  exact sorted (survey.carries_doc _ fits)

theorem method_sorts (sorting : Sorting survey fuel grammar) (start : Nat)
    (comments : List Comment) (modifiers : List Node) :
    Sorts survey (method fuel grammar start comments modifiers) cursor fun method _ =>
      Listed survey .identifier modifiers → Sorted survey .method method := by
  have body : ∀ cursor, Sorts survey (methodBody fuel grammar) cursor fun stmts _ =>
      Listed survey .statement stmts ∧ survey.body .statement stmts := by
    intro cursor
    refine .eat (fun bodiless => ?_) fun braced => block_sorts sorting
    exact .pure ⟨List.forall_mem_nil _, survey.body_nil _⟩
  refine .given <| .takeDoc <| .advance <| .eatAny fun returnsRef _ => ?_
  refine .bind (declaredName_sorts _) fun methodName _ => ?_
  refine .bind (parameters_sorts sorting) fun params _ => .bind returnType_sorts fun _ _ => ?_
  refine .bind (body _) fun stmts _ => .finished ?_
  intro stmts returnType params methodName fits modifiers
  exact .of_carrying rfl rfl ⟨methodName, modifiers, params, returnType, stmts⟩
    (survey.carries_comments comments (survey.carries_doc _ fits rfl rfl))

theorem member_sorts (sorting : Sorting survey fuel grammar) :
    Sorts survey (member fuel grammar) cursor fun answer _ => Allowed survey .method answer := by
  refine .start <| .takeComments <| .bind (modifiers_sorts _) fun modifiers _ => ?_
  refine .kind <| .ite (fun isMethod => .map ?_) fun other => ?_
  · exact (method_sorts sorting _ _ _).mono fun _ _ sorted modifiers => .some (sorted modifiers)
  · exact .report <| .skipToStatementEnd <| .pure fun _ _ => .none

theorem classDeclaration_sorts (sorting : Sorting survey fuel grammar) :
    Sorts survey (classDeclaration fuel grammar) cursor fun stmt _ =>
      Sorted survey .statement stmt := by
  refine .given <| .start <| .takeDoc <| .bind (modifiers_sorts _) fun modifiers _ => ?_
  refine .expectAny fun keyword _ => .bind (declaredName_sorts _) fun className _ => ?_
  refine .bind parent_sorts fun parent _ => .bind interfaces_sorts fun interfaces _ => ?_
  refine .bind (classBody_sorts sorting) fun stmts _ => .finished ?_
  intro stmts interfaces parent className modifiers fits
  exact .of_carrying rfl rfl
    ⟨className, modifiers, List.forall_mem_nil _, parent, interfaces, stmts⟩
    (survey.carries_doc _ fits rfl rfl)

theorem anonymousClass_sorts (sorting : Sorting survey fuel grammar) :
    Sorts survey (anonymousClass fuel grammar) cursor fun scope _ =>
      Sorted survey .instantiated scope := by
  refine .given <| .start <| .takeDoc <| .advance ?_
  refine .bind (optionalArguments_sorts sorting) fun args _ => .bind parent_sorts fun parent _ => ?_
  refine .bind interfaces_sorts fun interfaces _ =>
    .bind (classBody_sorts sorting) fun stmts _ => ?_
  refine .finished fun stmts interfaces parent args fits => ?_
  exact .of_carrying rfl rfl
    ⟨Allowed.none, List.forall_mem_nil _, args, parent, interfaces, stmts⟩
    (survey.carries_doc _ fits rfl rfl)

theorem instantiation_sorts (sorting : Sorting survey fuel grammar) :
    Sorts survey (instantiation fuel grammar) cursor fun answer _ =>
      Sorted survey .expr answer := by
  have scope : ∀ cursor, Sorts survey (instantiated fuel) cursor fun answer _ =>
      Due survey .instantiated answer := by
    intro cursor
    refine .kind <| .ite (fun named => ?_) fun _ => .ite (fun static => ?_) fun _ => ?_
    · exact name_sorts fun _ _ _ => rfl
    · exact .someLeaf (leaf_sorted fun _ => rfl)
    · refine .ite (fun computed => ?_) fun missing => .report (.pure id)
      exact simpleVariable_sorts fun _ => rfl
  refine .start <| .advance <| .kind <| .ite (fun anonymous => ?_) fun named => ?_
  · refine .bind (anonymousClass_sorts sorting) fun scope _ => .finished fun scope => ?_
    exact .of_fields rfl rfl ⟨scope, List.forall_mem_nil _⟩
  · refine .bind (scope _) fun scope _ => .bind (optionalArguments_sorts sorting) fun args _ => ?_
    exact .finished fun args scope => .of_fields rfl rfl ⟨scope, args⟩

/-! ## Expressions -/

theorem variableVariable_sorts (sorting : Sorting survey fuel grammar) :
    Sorts survey (variableVariable grammar) cursor fun answer _ => Sorted survey .expr answer := by
  have operand : ∀ cursor, Sorts survey (grammar .expr) cursor fun answer _ =>
      Due survey .operand answer := by
    refine fun cursor => (sorting.expr cursor).mono fun answer _ due => ?_
    cases answer with
    | none => exact due
    | some expr => exact Sorted.operand due
  have nested : ∀ cursor, Sorts survey (deeper (pure none) (grammar .primary)) cursor
      fun answer _ => Due survey .operand answer := fun cursor =>
    .deeper (.pure id) (sorting.primary _)
  refine .start <| .advance <| .eat (fun braced => ?_) fun bare => ?_
  · refine .bind (operand _) fun varName _ => .expectAny fun closed _ => ?_
    exact .finished fun varName => .of_fields rfl rfl varName
  · refine .bind (nested _) fun varName _ => ?_
    exact .finished fun varName => .of_fields rfl rfl varName

theorem AnswerFitsTrailer.of_due {answer : Option Node} (due : Due survey .expr answer) :
    AnswerFitsTrailer survey cursor answer := by
  cases answer with
  | none => exact due
  | some expr => exact .inl due

theorem AnswerFitsTrailer.due {answer : Option Node}
    (primed : AnswerFitsTrailer survey cursor answer) :
    Due survey .operand answer := by
  cases answer with
  | none => exact primed
  | some operand => exact FitsTrailer.operand primed

theorem primary_sorts (sorting : Sorting survey fuel grammar) :
    Sorts survey (primary fuel grammar) cursor fun answer after =>
      AnswerFitsTrailer survey after answer := by
  have missing : Sorts survey noExpression cursor fun answer after =>
      AnswerFitsTrailer survey after answer := .report (.pure id)
  have found : ∀ {parser : Parse Node}, Sorts survey parser cursor (fun expr _ =>
      Sorted survey .expr expr) → Sorts survey (some <$> parser) cursor fun answer after =>
        AnswerFitsTrailer survey after answer := fun sorts => .map (sorts.mono fun _ _ => .inl)
  have literal : ∀ kind, (∀ text, Place.expr.admits (.leaf kind text : Form Node) = true) →
      Sorts survey (some <$> leaf kind) cursor fun answer after =>
        AnswerFitsTrailer survey after answer :=
    fun kind admitted => .someLeaf (.inl (leaf_sorted admitted))
  refine .kind ?_
  split
  · exact (simpleVariable_sorts fun _ => rfl).mono fun _ _ => AnswerFitsTrailer.of_due
  · exact found (variableVariable_sorts sorting)
  · exact literal _ fun _ => rfl
  · exact literal _ fun _ => rfl
  · exact literal _ fun _ => rfl
  · exact nameExpr_sorts
  · exact nameExpr_sorts
  · exact .nextKind <| .ite (fun _ => nameExpr_sorts) fun _ => missing
  · exact .nextKind <| .ite (fun _ => found (closure_sorts sorting)) fun _ => literal _ fun _ => rfl
  · exact found (closure_sorts sorting)
  · exact found (instantiation_sorts sorting)
  · refine .advance <| .bind (sorting.expr _) fun inner _ => .expectAny fun closed _ => ?_
    exact .pure AnswerFitsTrailer.of_due
  · exact missing

theorem expr_sorts (sorting : Sorting survey fuel grammar) :
    Sorts survey (expr fuel grammar) cursor fun answer _ => Due survey .expr answer := by
  refine .deeper (.pure id) <| .start <| .bind (primary_sorts sorting) fun answer _ => ?_
  cases answer with
  | none => exact .pure id
  | some operand =>
      refine .bind (trailers_sorts sorting _ _) fun target _ => .map ?_
      refine (assignment_sorts sorting _ _).mono fun expr _ assigned trailed primed => ?_
      exact assigned (trailed primed)

/-! ## Statements -/

theorem expectSemicolon_sorts : Sorts survey expectSemicolon cursor fun _ _ => True := by
  refine .clearDoc <| .kind ?_
  split
  · exact .done rfl (.advance _) fun _ => trivial
  · exact .pure trivial
  · exact .pure trivial
  · exact .report <| .done rfl (.skipToStatementEnd _) fun _ _ => trivial

theorem returned_sorts (sorting : Sorting survey fuel grammar) :
    Sorts survey (returned grammar) cursor fun answer _ => Allowed survey .expr answer := by
  refine .kind <| .ite (fun bare => .pure .none) fun valued => ?_
  exact (sorting.expr _).mono fun _ _ => Due.allowed

theorem expressionStatement_sorts (sorting : Sorting survey fuel grammar) (start : Nat) :
    Sorts survey (expressionStatement grammar start) cursor fun stmt _ =>
      Sorted survey .statement stmt := by
  have ended : ∀ found cursor, Sorts survey (endExpression found) cursor fun _ _ => True := by
    refine fun found cursor => .ite (fun isSome => expectSemicolon_sorts) fun missing => ?_
    exact .done rfl (.skipToStatementEnd _) fun _ => trivial
  refine .bind (sorting.expr _) fun expr _ => .skip (ended _ _) fun _ _ => ?_
  exact .finished fun expr => .of_fields rfl rfl expr

theorem functionStatement_sorts (sorting : Sorting survey fuel grammar) (start : Nat) :
    Sorts survey (functionStatement fuel grammar start) cursor fun stmt _ =>
      Sorted survey .statement stmt := by
  refine .given <| .takeDoc <| .advance <| .eatAny fun returnsRef _ => ?_
  refine .kind <| .ite (fun anonymous => ?_) fun named => ?_
  · refine .bind (closureTail_sorts sorting _ _ _ _) fun closure _ => ?_
    refine .skip expectSemicolon_sorts fun _ _ => .finished fun closure fits => ?_
    exact .of_fields rfl rfl (closure (survey.carries_doc _ fits))
  · refine .bind (declaredName_sorts _) fun functionName _ => ?_
    refine .bind (parameters_sorts sorting) fun params _ => .bind returnType_sorts fun _ _ => ?_
    refine .bind (block_sorts sorting) fun stmts _ => .finished ?_
    intro stmts returnType params functionName fits
    exact .of_carrying rfl rfl ⟨functionName, params, returnType, stmts⟩
      (survey.carries_doc _ fits rfl rfl)

theorem statementByKind_sorts (sorting : Sorting survey fuel grammar) (start : Nat) :
    Sorts survey (statementByKind fuel grammar start) cursor fun stmt _ =>
      Sorted survey .statement stmt := by
  have echoed : Sorts survey (echoStatement fuel grammar start) cursor fun stmt _ =>
      Sorted survey .statement stmt := by
    refine .advance <| .bind (exprList_sorts sorting) fun exprs _ => ?_
    exact .skip expectSemicolon_sorts fun _ _ => .finished fun exprs => .of_fields rfl rfl exprs
  refine .kind ?_
  split
  · exact echoed
  · exact echoed
  · refine .advance <| .bind (sorting.expr _) fun expr _ => ?_
    exact .skip expectSemicolon_sorts fun _ _ => .finished fun expr => .of_fields rfl rfl expr
  · refine .advance <| .bind (returned_sorts sorting) fun expr _ => ?_
    exact .skip expectSemicolon_sorts fun _ _ => .finished fun expr => .of_fields rfl rfl expr
  · refine .bind (block_sorts sorting) fun stmts _ => ?_
    exact .finished fun stmts => .of_fields rfl rfl stmts
  · refine .nextKind <| .ite (fun staticAccess => ?_) fun declared => ?_
    · exact expressionStatement_sorts sorting start
    · exact functionStatement_sorts sorting start
  · exact classDeclaration_sorts sorting
  · exact classDeclaration_sorts sorting
  · exact classDeclaration_sorts sorting
  · exact classDeclaration_sorts sorting
  · exact expressionStatement_sorts sorting start

theorem statement_sorts (sorting : Sorting survey fuel grammar) :
    Sorts survey (statement fuel grammar) cursor fun answer _ =>
      Allowed survey .statement answer := by
  refine .kind ?_
  split
  · exact .advance (.pure .none)
  · exact .advance (.pure .none)
  · exact .pass rfl ((Survey.KeepsSurvey.note _ _).trans (.advance _)) (.pure .none)
  · exact .advance <| .clearDoc <| .pure .none
  · refine .deeper (.pass rfl (.skipStatement _) (.pure fun _ => .none)) <| .map ?_
    refine .start <| .takeComments <| .bind (statementByKind_sorts sorting _) fun stmt _ => ?_
    exact .pure fun sorted => .some (sorted.prependComments rfl _)

theorem topLevel_sorts (sorting : Sorting survey fuel grammar) :
    Sorts survey (topLevel grammar) cursor fun answer _ =>
      Allowed survey .statement answer.1 := by
  refine .kind ?_
  split
  · exact .pure .none
  · exact .report <| .advance <| .pure fun _ => .none
  · exact .bind (sorting.statement cursor) fun _ _ => .pure id

end Parse

theorem Grammar.closed_sorting {survey : Survey}
    (blocks : ∀ fuel cursor, survey.Finds (Parse.block fuel (closed fuel)) cursor fun stmts _ =>
      survey.body .statement stmts)
    (classBodies : ∀ fuel cursor, survey.Finds (Parse.classBody fuel (closed fuel)) cursor
      fun stmts _ => survey.body .method stmts)
    (fuel : Nat) : Sorting survey fuel (closed fuel) := by
  induction fuel with
  | zero =>
      have never : ∀ {post : Option Node → Cursor → Prop} cursor,
          Sorts survey Parse.outOfFuel cursor post := fun cursor => .of_runs fun run => by cases run
      exact ⟨never, never, never, never, blocks 0, classBodies 0⟩
  | succ fuel sorting =>
      exact
        { expr := fun _ => Parse.expr_sorts sorting
          primary :=
            fun _ => (Parse.primary_sorts sorting).mono fun _ _ => Parse.AnswerFitsTrailer.due
          statement := fun _ => Parse.statement_sorts sorting
          member := fun _ => Parse.member_sorts sorting
          block := blocks (fuel + 1)
          classBody := classBodies (fuel + 1) }

/-- What was parsed is sorted, when the survey asks for no fewer errors than there are. -/
theorem Parse.program_sorted {survey : Survey} {fuel : Nat} {grammar : Grammar}
    {cursor last : Cursor} {program : Program} (sorting : Sorting survey fuel grammar)
    (body : survey.Finds (collect fuel (topLevel grammar)) cursor fun stmts _ =>
      survey.body .statement stmts)
    (run : Parse.program fuel grammar survey.context cursor = some (program, last))
    (fits : survey.fits cursor) (clean : survey.clean → program.errors = []) :
    Sorted survey .statement program.root := by
  obtain ⟨stmts, between, collected, root, errors, _⟩ := Parse.program_eq_some.mp run
  have quiet : survey.quiet between := fun holds => by simpa [errors] using clean holds
  have listed := (Sorts.collect_all (fun _ => topLevel_sorts sorting) fuel).and body
  have carried : survey.carries true { comments := between.comments survey.context } := by
    simpa [Attributes.prependComments] using
      survey.carries_comments (between.comments survey.context)
        (@Survey.carries_plain survey true {} rfl rfl)
  rw [root]
  exact .of_carrying rfl rfl (listed.finds collected fits quiet) carried

/-- A program that is parsed is a list of statements in which every node belongs where it stands;
without errors nothing that is due is missing. -/
theorem parse_well_sorted {options : Options} {source : List UInt8} {program : Program}
    (parsed : parse options source = some program) :
    (∃ stmts, program.root.form = .stmtList stmts) ∧
      ∀ node ∈ program.root.nodes, ∀ field ∈ node.form.fields, ∀ child ∈ field.2.toList,
        (node.form.place field.1).admits child.form = true ∧
          (program.errors = [] → (node.form.place field.1).isFilledBy child.form = true) := by
  obtain ⟨after, ended⟩ := parse_eq_some.mp parsed
  have run := Parser.programWith_run ended
  refine ⟨?_, fun node member field inForm child inField => ?_⟩
  · obtain ⟨stmts, between, collected, root, _⟩ := Parse.program_eq_some.mp run
    exact ⟨stmts, by rw [root]; rfl⟩
  · have sorting := @Grammar.closed_sorting
      (.plain (Parser.ofSource options source).context (program.errors = []))
      (fun _ _ _ _ _ _ _ => trivial) (fun _ _ _ _ _ _ _ => trivial)
      (Parser.ofSource options source).fuel
    have sorted := Parse.program_sorted sorting (fun _ _ _ => trivial) run trivial id
    obtain ⟨place, inner⟩ := Sorted.exists_of_mem node sorted member
    have belongs := inner.child inForm inField
    exact ⟨belongs.admitted, belongs.filled⟩

theorem parse_well_sorted_class :
    ∃ program,
      parse {} (bytesOf "<?php new class \x7b function m(?B $b) \x7b echo c::$d; \x7d \x7d;") =
        some program ∧ program.errors = [] ∧
      ∀ node ∈ program.root.nodes, ∀ field ∈ node.form.fields, ∀ child ∈ field.2.toList,
        (node.form.place field.1).admits child.form = true ∧
          (node.form.place field.1).isFilledBy child.form = true := by
  have clean : (parse {} (bytesOf
      "<?php new class \x7b function m(?B $b) \x7b echo c::$d; \x7d \x7d;")).any
        (fun program => program.errors.isEmpty) = true := by decide +kernel
  obtain ⟨program, parsed, empty⟩ := (Option.any_eq_true _ _).mp clean
  have accepted : program.errors = [] := List.isEmpty_iff.mp empty
  refine ⟨program, parsed, accepted, fun node member field inForm child inField => ?_⟩
  obtain ⟨admitted, filled⟩ := (parse_well_sorted parsed).2 node member field inForm child inField
  exact ⟨admitted, filled accepted⟩

end PhpTree
