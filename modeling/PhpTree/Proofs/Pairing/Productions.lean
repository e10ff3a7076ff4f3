import PhpTree.Proofs.Pairing.Rules

/-! # The grammar under a pairing

Every production simulates itself, given as much fuel for its loops and a grammar whose
phrases do.  No production looks at an offset, at comments or at what a node carries; it
hands them on to the nodes it builds.

Where a statement or a member ends, the parses may part.  Inside of expressions and blocks
they cannot: nothing but a semicolon is the last token of the left source, and a block
that its source does not close is an error.

Members enter through the class body as a whole, so that two grammars can be compared
that disagree about a member by itself. -/
set_option autoImplicit false
namespace PhpTree

structure GrammarSimulates (pairing : Pairing) (fuel more : Nat) (grammar other : Grammar) :
    Prop where
  enough : fuel ≤ more
  expr : StaysAligned pairing pairing.Found (grammar .expr) (other .expr)
  primary : StaysAligned pairing pairing.Found (grammar .primary) (other .primary)
  statement : EndsMeeting pairing pairing.Found (grammar .statement) (other .statement)
  classBody : StaysAligned pairing pairing.Listed (Parse.classBody fuel grammar)
    (Parse.classBody more other)

/-- A class of kinds that a semicolon is not in. -/
theorem TokenKind.ne_semicolon {kind : TokenKind} {accepts : TokenKind → Bool}
    (accepted : accepts kind = true) (refuses : accepts .semicolon = false) :
    kind ≠ .semicolon := by
  rintro rfl
  rw [refuses] at accepted
  cases accepted

namespace Parse

variable {pairing : Pairing} {fuel more : Nat} {grammar other : Grammar}

/-! ## Names, variables and types -/

theorem identifier_simulates (expected : Expected) :
    StaysAligned pairing pairing.Found (identifier expected) (identifier expected) := by
  refine .kind fun kind => ?_
  refine .ite (fun named => ?_) fun _ => .forget (.missing _)
  exact .found (.leaf _ (TokenKind.ne_semicolon named rfl))

theorem simpleVariable_simulates :
    StaysAligned pairing pairing.Found simpleVariable simpleVariable := by
  refine .bind (.start id) fun start begin begins => ?_
  refine .kind fun kind => ?_
  refine .ite (fun isVariable => ?_) fun _ => .forget (.missing _)
  refine .bind (.leaf _ (isVariable ▸ by decide)) fun varName another varNames => ?_
  exact .found (.finish .inl begins (.bare (by simp [Form.map, varNames])))

theorem furtherPart_simulates :
    StaysAligned pairing (Pairing.DecidesAlike pairing.Found) furtherPart furtherPart := by
  refine .kind fun kind => ?_
  by_cases separated : kind = .backslash
  · subst separated
    refine .nextKind (by decide) fun next => ?_
    refine .ite (fun named => ?_) fun _ => .forget (.pure ⟨rfl, rfl⟩)
    have nameLike : next.isNameLike = true := by simpa using named
    have goesOn : next ≠ .eof := by
      rintro rfl
      cases nameLike
    refine .same (.advanceOnto goesOn (by decide)) fun _ => ?_
    refine .bind (.leaf _ (TokenKind.ne_semicolon nameLike rfl)) fun part another parts => ?_
    exact .pure ⟨Pairing.found_some parts, rfl⟩
  · -- The kind that is read then makes no difference.
    refine @Simulates.bind _ _ _ _ _ _ (fun _ _ => True) _ ⟨.inr fun kind =>
      ⟨kind, trivial⟩⟩ _ _ _ _
      (.read fun _ => trivial) fun next another _ => ?_
    simp only [separated, decide_false, Bool.false_and, Bool.false_eq_true, if_false]
    exact .forget (.pure ⟨rfl, rfl⟩)

theorem qualification_simulates : StaysAligned pairing Eq qualification qualification := by
  refine .kind fun kind => ?_
  split
  · exact .same (.advance (by decide)) fun _ => .pure rfl
  · refine .nextKind (by decide) fun next => ?_
    refine .ite (fun separated => ?_) fun _ => .forget (.pure rfl)
    refine .same (.advanceOnto (separated ▸ by decide) (by decide)) fun _ => ?_
    exact .same (.advance (separated ▸ by decide)) fun _ => .pure rfl
  · exact .forget (.pure rfl)

section Names
variable (enough : fuel ≤ more)
include enough

theorem name_simulates : StaysAligned pairing pairing.Found (name fuel) (name more) := by
  refine .bind (.start id) fun start begin begins => ?_
  refine .same qualification_simulates fun qualification => ?_
  refine .kind fun kind => ?_
  refine .ite (fun named => ?_) fun _ => .forget (.missing _)
  refine .bind (.leaf _ (named ▸ by decide)) fun first another firsts => ?_
  refine .bind (.collect furtherPart_simulates enough) fun rest others rests => ?_
  exact .found (.finish .inl begins (.bare (by simp [Form.map, firsts, rests])))

theorem className_simulates :
    StaysAligned pairing pairing.Found (className fuel) (className more) := by
  refine .same .peek fun kind => ?_
  exact .ite (fun _ => name_simulates enough) fun _ => .missing _

theorem typeName_simulates :
    StaysAligned pairing pairing.Found (typeName fuel) (typeName more) := by
  refine .kind fun kind => ?_
  refine .ite (fun static => .found (.leaf _ (static ▸ by decide))) fun _ => ?_
  exact .ite (fun _ => .forget (name_simulates enough)) fun _ => .forget (.missing _)

theorem type_simulates : StaysAligned pairing pairing.Found (type fuel) (type more) := by
  refine .bind (.start id) fun start begin begins => ?_
  refine .same (.eat (by decide)) fun nullable => ?_
  refine .ite (fun _ => ?_) fun _ => typeName_simulates enough
  refine .bind (typeName_simulates enough) fun expr another exprs => ?_
  exact .found (.finish .inl begins (.bare (by simp [Form.map, exprs])))

theorem returnType_simulates :
    StaysAligned pairing pairing.Found (returnType fuel) (returnType more) := by
  refine .same (.eat (by decide)) fun declared => ?_
  exact .ite (fun _ => type_simulates enough) fun _ => .pure rfl

theorem modifiers_simulates {accepts : TokenKind → Bool} (refuses : accepts .semicolon = false) :
    StaysAligned pairing pairing.Listed (modifiers fuel accepts) (modifiers more accepts) := by
  refine .collect ?_ enough
  refine .kind fun kind => ?_
  refine .ite (fun accepted => ?_) fun _ => .forget (.pure ⟨rfl, rfl⟩)
  refine .bind (.leaf _ (TokenKind.ne_semicolon accepted refuses)) fun modifier another same => ?_
  exact .pure ⟨Pairing.found_some same, rfl⟩

theorem parent_simulates : StaysAligned pairing pairing.Found (parent fuel) (parent more) := by
  refine .same (.eat (by decide)) fun «extends» => ?_
  exact .ite (fun _ => className_simulates enough) fun _ => .pure rfl

theorem interfaces_simulates :
    StaysAligned pairing pairing.Listed (interfaces fuel) (interfaces more) := by
  refine .same (.eat (by decide)) fun implements => ?_
  refine .ite (fun _ => .collect ?_ enough) fun _ => .pure rfl
  refine .bind (className_simulates enough) fun name another names => ?_
  exact .same (.eat (by decide)) fun _ => .pure ⟨names, rfl⟩

theorem parenthesised_simulates {round another : Parse (Option Node × Bool)}
    (rounds : StaysAligned pairing (Pairing.DecidesAlike pairing.Found) round another) :
    StaysAligned pairing pairing.Listed (parenthesised fuel round)
      (parenthesised more another) := by
  refine .same (.expect _ (by decide)) fun opened => ?_
  refine .ite (fun _ => ?_) fun _ => .pure rfl
  refine .bind (.collect ?_ enough) fun items others listed => ?_
  · refine .same .peek fun kind => ?_
    exact .ite (fun _ => .pure ⟨rfl, rfl⟩) fun _ => rounds
  · exact .same (.expect _ (by decide)) fun _ => .pure listed

theorem captures_simulates :
    StaysAligned pairing pairing.Listed (captures fuel) (captures more) := by
  refine .same (.eat (by decide)) fun uses => ?_
  refine .ite (fun _ => parenthesised_simulates enough ?_) fun _ => .pure rfl
  refine .bind (.start id) fun start begin begins => ?_
  refine .same (.eat (by decide)) fun byRef => ?_
  refine .bind simpleVariable_simulates fun captured another found => ?_
  have absent : captured.isNone = another.isNone := by
    simpa using congrArg Option.isNone found
  rw [absent]
  refine .ite (fun _ => .pure ⟨rfl, rfl⟩) fun _ => ?_
  refine .bind (.finish .inl begins (.flagged (by simp [Form.map, found]) ⟨rfl, rfl⟩))
    fun use other matched => ?_
  exact .same (.eat (by decide)) fun _ => .pure ⟨Pairing.found_some matched, rfl⟩

theorem nameExpr_simulates :
    StaysAligned pairing pairing.Found (nameExpr fuel) (nameExpr more) := by
  refine .bind (.start id) fun start begin begins => ?_
  refine .bind (name_simulates enough) fun answer another found => ?_
  obtain ⟨rfl, rfl⟩ | ⟨name, other, rfl, rfl, names⟩ := Pairing.found_cases found
  · exact .pure rfl
  · refine .same .peek fun kind => ?_
    split
    · exact .pure found
    · exact .pure found
    · exact .found (.finish .inl begins (.bare (by simp [Form.map, names])))

end Names

theorem memberName_simulates (expected : Expected) :
    StaysAligned pairing pairing.Found (memberName expected) (memberName expected) := by
  refine .same .peek fun kind => ?_
  exact .ite (fun _ => simpleVariable_simulates) fun _ => identifier_simulates _

/-! ## Calls and lists of expressions -/

section Expressions
variable (simulates : GrammarSimulates pairing fuel more grammar other)
include simulates

theorem exprList_simulates :
    StaysAligned pairing pairing.Listed (exprList fuel grammar) (exprList more other) := by
  refine .collect ?_ simulates.enough
  refine .bind simulates.expr fun answer another found => ?_
  obtain ⟨rfl, rfl⟩ | ⟨expr, other, rfl, rfl, _⟩ := Pairing.found_cases found
  · exact .pure ⟨rfl, rfl⟩
  · exact .same (.eat (by decide)) fun _ => .pure ⟨found, rfl⟩

theorem arguments_simulates :
    StaysAligned pairing pairing.Listed (arguments fuel grammar) (arguments more other) := by
  refine parenthesised_simulates simulates.enough ?_
  refine .bind (.start id) fun start begin begins => ?_
  refine .same (.eat (by decide)) fun variadic => ?_
  refine .bind simulates.expr fun answer another found => ?_
  obtain ⟨rfl, rfl⟩ | ⟨expr, other, rfl, rfl, exprs⟩ := Pairing.found_cases found
  · exact .pure ⟨rfl, rfl⟩
  · refine .bind (.finish .inl begins (.flagged (by simp [Form.map, exprs]) ⟨rfl, rfl⟩))
      fun argument another matched => ?_
    exact .same (.eat (by decide)) fun _ => .pure ⟨Pairing.found_some matched, rfl⟩

theorem optionalArguments_simulates :
    StaysAligned pairing pairing.Listed (optionalArguments fuel grammar)
      (optionalArguments more other) := by
  refine .same .peek fun kind => ?_
  exact .ite (fun _ => arguments_simulates simulates) fun _ => .pure rfl

theorem parameters_simulates :
    StaysAligned pairing pairing.Listed (parameters fuel grammar) (parameters more other) := by
  have type : StaysAligned pairing pairing.Found (parameterType fuel) (parameterType more) := by
    refine .same .peek fun kind => ?_
    exact .ite (fun _ => type_simulates simulates.enough) fun _ => .pure rfl
  have initial : StaysAligned pairing pairing.Found (parameterDefault grammar)
      (parameterDefault other) := by
    refine .same (.eat (by decide)) fun assigned => ?_
    exact .ite (fun _ => simulates.expr) fun _ => .pure rfl
  refine parenthesised_simulates simulates.enough ?_
  refine .bind (.start id) fun start begin begins => ?_
  refine .bind type fun type _ types => ?_
  refine .same (.eat (by decide)) fun byRef => ?_
  refine .same (.eat (by decide)) fun variadic => ?_
  refine .bind simpleVariable_simulates fun binding _ bindings => ?_
  refine .bind initial fun initial _ initials => ?_
  refine .bind (.finish .inl begins
    (.flagged (by simp [Form.map, types, bindings, initials]) ⟨rfl, rfl⟩))
      fun parameter _ same => ?_
  exact .same (.eat (by decide)) fun _ => .pure ⟨Pairing.found_some same, rfl⟩

section Trailers
variable {start begin : Nat} {operand another : Node}

theorem memberAccess_simulates (begins : pairing.begins start begin)
    (objects : pairing.Matched operand another) :
    StaysAligned pairing pairing.Matched (memberAccess fuel grammar start operand)
      (memberAccess more other begin another) := by
  refine .bind (memberName_simulates _) fun member _ members => ?_
  refine .same .peek fun kind => ?_
  refine .ite (fun _ => ?_) fun _ => ?_
  · refine .bind (arguments_simulates simulates) fun arguments _ listed => ?_
    exact .finish .inl begins (.bare (by simp [Form.map, objects, members, listed]))
  · exact .finish .inl begins (.bare (by simp [Form.map, objects, members]))

theorem staticAccess_simulates (begins : pairing.begins start begin)
    (scopes : pairing.Matched operand another) :
    StaysAligned pairing pairing.Matched (staticAccess fuel grammar start operand)
      (staticAccess more other begin another) := by
  refine .same .peek fun kind => ?_
  refine .bind (memberName_simulates _) fun member _ members => ?_
  refine .same .peek fun kind => ?_
  refine .ite (fun _ => ?_) fun _ => .ite (fun _ => ?_) fun _ => ?_
  · refine .bind (arguments_simulates simulates) fun arguments _ listed => ?_
    exact .finish .inl begins (.bare (by simp [Form.map, scopes, members, listed]))
  · exact .finish .inl begins (.bare (by simp [Form.map, scopes, members]))
  · exact .finish .inl begins (.bare (by simp [Form.map, scopes, members]))

theorem trailer_simulates (begins : pairing.begins start begin)
    (operands : pairing.Matched operand another) :
    StaysAligned pairing (Pairing.DecidesAlike pairing.Matched) (trailer fuel grammar start operand)
      (trailer more other begin another) := by
  refine .kind fun kind => ?_
  split
  · refine .forget (.bind (arguments_simulates simulates) fun arguments _ listed => ?_)
    refine .bind (.finish .inl begins (.bare (by simp [Form.map, operands, listed])))
      fun call _ calls => ?_
    exact .pure ⟨calls, rfl⟩
  · refine .same (.advance (by decide)) fun _ => ?_
    exact .bind (memberAccess_simulates simulates begins operands) fun _ _ same => .pure ⟨same, rfl⟩
  · refine .same (.advance (by decide)) fun _ => ?_
    exact .bind (memberAccess_simulates simulates begins operands) fun _ _ same => .pure ⟨same, rfl⟩
  · refine .same (.advance (by decide)) fun _ => ?_
    exact .bind (staticAccess_simulates simulates begins operands) fun _ _ same => .pure ⟨same, rfl⟩
  · exact .forget (.pure ⟨operands, rfl⟩)

theorem trailers_simulates (begins : pairing.begins start begin)
    (operands : pairing.Matched operand another) :
    StaysAligned pairing pairing.Matched (trailers fuel grammar start operand)
      (trailers more other begin another) :=
  .loop (fun _ _ operands => trailer_simulates simulates begins operands) simulates.enough operands

theorem assignment_simulates (begins : pairing.begins start begin)
    (targets : pairing.Matched operand another) :
    StaysAligned pairing pairing.Matched (assignment grammar start operand)
      (assignment other begin another) := by
  refine .kind fun kind => ?_
  split
  · refine .same (.advance (by decide)) fun _ => ?_
    refine .same (.eat (by decide)) fun byRef => ?_
    refine .bind simulates.expr fun source _ sources => ?_
    exact .finish .inl begins (.bare (by simp [Form.map, targets, sources]))
  · refine .same (.advance (by simp)) fun _ => ?_
    refine .bind simulates.expr fun source _ sources => ?_
    exact .finish .inl begins (.bare (by simp [Form.map, targets, sources]))
  · exact .forget (.pure targets)

end Trailers

end Expressions

/-! ## Functions, closures and classes -/

def closeBody (found : List Node) : Parse (List Node) := do
  let _ ← expect .closeBrace .closeBrace
  clearDoc
  pure found.reverse

def bodyRest (element : Parse (Option Node)) : (fuel : Nat) → List Node → Parse (List Node)
  | 0, _ => outOfFuel
  | fuel + 1, found => do
    if endsBody (← kind) then closeBody found
    else
      let answer ← element
      bodyRest element fuel (answer.toList ++ found)

section Bodies
variable {element another : Parse (Option Node)}

theorem braced_eq (fuel : Nat) (element : Parse (Option Node)) :
    braced fuel element = expect .openBrace .openBrace >>= fun opened =>
      if opened = true then bodyRest element fuel [] else pure [] := by
  have rounds : ∀ found, bodyRest element fuel found = loop (collectStep do
      if endsBody (← kind) then pure (none, false)
      else
        let element ← element
        pure (element, true)) fuel found >>= closeBody := by
    induction fuel with
    | zero => exact fun _ => rfl
    | succ fuel inductionHypothesis =>
        intro found
        rw [bodyRest, loop_succ, collectStep]
        simp only [bind_assoc]
        refine congrArg (Parse.kind >>= ·) (funext fun kind => ?_)
        by_cases ends : endsBody kind = true
        · simp [ends]
        · simp [ends, inductionHypothesis]
  unfold braced collect
  simp only [rounds, bind_assoc, pure_bind]
  rfl

theorem closeBody_simulates {found others : List Node} (listed : pairing.Listed found others) :
    StaysAligned pairing pairing.Listed (closeBody found) (closeBody others) := by
  refine .same (.expect _ (by decide)) fun closed => ?_
  refine .same (.clearDoc pairing.aligned_kept) fun _ => ?_
  exact .pure (by simp [Pairing.Listed, listed])

/-- A block that its source does not close is an error. -/
theorem bodyRest_at_end {here later : Cursor} {found answer : List Node} (ended : here.kind = .eof)
    (run : bodyRest element fuel found pairing.left here = some (answer, later)) :
    (here.report pairing.left .closeBrace).MovesOnward later := by
  cases fuel with
  | zero => cases run
  | succ fuel =>
      have closes : (if endsBody here.kind = true then closeBody found else _ : Parse (List Node))
          pairing.left here = some (answer, later) := run
      rw [if_pos (by rw [ended]; rfl)] at closes
      have last : (expect .closeBrace .closeBrace pairing.left here).bind (fun result =>
          some (found.reverse, result.2.clearDoc)) = some (answer, later) := closes
      rw [expect_of_ne _ (by rw [ended]; decide)] at last
      cases last
      exact ⟨List.suffix_rfl, List.suffix_rfl⟩

/-- Elements may end where the parses part, but then the block stays open. They are matched where
the left cursor is free to go on; from elsewhere the block is not read to its end. -/
theorem bodyRest_simulates {free : Cursor → Prop}
    (elements :
      Simulates pairing (pairing.knowing free) pairing.meets pairing.Found element another)
    (never : ∀ {fuel : Nat} {found : List Node} {here : Cursor}, ¬ free here →
      bodyRest element fuel found pairing.left here = none) {fuel : Nat} :
    ∀ {more : Nat}, fuel ≤ more → ∀ {found others : List Node}, pairing.Listed found others →
      StaysAligned pairing pairing.Listed (bodyRest element fuel found)
        (bodyRest another more others) := by
  induction fuel with
  | zero => exact fun _ _ _ _ => .outOfFuel
  | succ fuel inductionHypothesis =>
      intro more enough found others listed
      obtain ⟨more, rfl⟩ : ∃ fewer, more = fewer + 1 := ⟨more - 1, by omega⟩
      have goesOn : ∀ {found others : List Node}, pairing.Listed found others →
          Simulates pairing pairing.meets pairing.aligned pairing.Listed
            (bodyRest element fuel found) (bodyRest another more others) := by
        intro found others listed
        refine .meeting (inductionHypothesis (Nat.le_of_succ_le_succ enough) listed) ?_
        intro here there later answer parted run clean
        exact pairing.report_parted _ parted (pairing.clean_of_onward
          (bodyRest_at_end (pairing.kind_parted parted) run) clean)
      have round : Simulates pairing (pairing.knowing free) pairing.aligned pairing.Listed
          (bodyRest element (fuel + 1) found) (bodyRest another (more + 1) others) := by
        refine .same (.read fun related => pairing.kind related.1) fun kind => ?_
        refine .ite (fun _ => .forget (closeBody_simulates listed)) fun _ => ?_
        refine .bind elements fun answer other found => ?_
        exact goesOn (Pairing.listed_append found listed)
      refine ⟨round.clean_before, ?_⟩
      intro here there later answer aligned run clean
      by_cases isFree : free here
      · exact round.matched ⟨aligned, isFree⟩ run clean
      · rw [never isFree] at run
        cases run

theorem braced_simulates_where_free (free : Cursor → Prop) (enough : fuel ≤ more)
    (elements :
      Simulates pairing (pairing.knowing free) pairing.meets pairing.Found element another)
    (never : ∀ {fuel : Nat} {found : List Node} {here : Cursor}, ¬ free here →
      bodyRest element fuel found pairing.left here = none) :
    StaysAligned pairing pairing.Listed (braced fuel element) (braced more another) := by
  rw [braced_eq, braced_eq]
  refine .same (.expect _ (by decide)) fun opened => ?_
  exact .ite (fun _ => bodyRest_simulates elements never enough rfl) fun _ => .pure rfl

theorem braced_simulates (enough : fuel ≤ more)
    (elements : EndsMeeting pairing pairing.Found element another) :
    StaysAligned pairing pairing.Listed (braced fuel element) (braced more another) :=
  braced_simulates_where_free (fun _ => True) enough (.forget elements)
    fun stuck => absurd trivial stuck

end Bodies

section Declarations
variable (simulates : GrammarSimulates pairing fuel more grammar other)
include simulates

theorem block_simulates :
    StaysAligned pairing pairing.Listed (block fuel grammar) (block more other) :=
  braced_simulates simulates.enough simulates.statement

theorem closureTail_simulates {start begin : Nat} {doc another : Option String}
    (begins : pairing.begins start begin) (docs : pairing.Documents doc another)
    (static returnsRef : Bool) :
    StaysAligned pairing pairing.Matched (closureTail fuel grammar start doc static returnsRef)
      (closureTail more other begin another static returnsRef) := by
  refine .bind (parameters_simulates simulates) fun params _ paramsListed => ?_
  refine .bind (captures_simulates simulates.enough) fun uses _ usesListed => ?_
  refine .bind (returnType_simulates simulates.enough) fun returnType _ types => ?_
  refine .bind (block_simulates simulates) fun stmts _ stmtsListed => ?_
  refine .finish .inl begins (.document docs (.flagged ?_ ⟨rfl, rfl⟩) ⟨rfl, rfl⟩)
  simp [Form.map, paramsListed, usesListed, types, stmtsListed]

theorem closure_simulates :
    StaysAligned pairing pairing.Matched (closure fuel grammar) (closure more other) := by
  refine .bind (.start id) fun start begin begins => ?_
  refine .bind (.takeDoc pairing.aligned_kept id) fun doc another docs => ?_
  refine .same (.eat (by decide)) fun static => ?_
  refine .same (.expect _ (by decide)) fun _ => ?_
  refine .same (.eat (by decide)) fun returnsRef => ?_
  exact closureTail_simulates simulates begins docs static returnsRef

theorem methodBody_simulates :
    EndsMeeting pairing pairing.Listed (methodBody fuel grammar) (methodBody more other) := by
  unfold methodBody eat
  simp only [bind_assoc]
  refine .kind fun kind => ?_
  by_cases bodiless : kind = .semicolon
  · subst bodiless
    simp only [if_true, bind_assoc, pure_bind]
    exact .same .semicolon fun _ => .pure rfl
  · simp only [if_neg bodiless, pure_bind, Bool.false_eq_true, if_false]
    exact .forget (.ends (block_simulates simulates))

theorem method_simulates {start begin : Nat} {comments others : List Comment}
    {modifiers otherModifiers : List Node} (begins : pairing.begins start begin)
    (annotates : pairing.annotates comments others)
    (listed : pairing.Listed modifiers otherModifiers) :
    Simulates pairing (pairing.atKind (.keyword .function)) pairing.meets pairing.Matched
      (method fuel grammar start comments modifiers)
      (method more other begin others otherModifiers) := by
  refine .bind (.takeDoc Pairing.atKind_kept And.left) fun doc another docs => ?_
  refine .same (.advance (by decide)) fun _ => ?_
  refine .same (.eat (by decide)) fun returnsRef => ?_
  refine .bind (identifier_simulates _) fun methodName _ names => ?_
  refine .bind (parameters_simulates simulates) fun params _ paramsListed => ?_
  refine .bind (returnType_simulates simulates.enough) fun returnType _ types => ?_
  refine .bind (methodBody_simulates simulates) fun stmts _ stmtsListed => ?_
  refine .finish id begins
    (.prependComments (.document docs (.flagged ?_ ⟨rfl, rfl⟩) ⟨rfl, rfl⟩) ?_ annotates)
  · simp [Form.map, names, listed, paramsListed, types, stmtsListed]
  · exact ⟨Node.comments_document _ _, Node.comments_document _ _⟩

theorem member_simulates :
    EndsMeeting pairing pairing.Found (member fuel grammar) (member more other) := by
  refine .bind (.start id) fun start begin begins => ?_
  refine .bind .takeComments fun comments others annotates => ?_
  refine .bind (modifiers_simulates simulates.enough rfl) fun modifiers _ listed => ?_
  refine .kind fun kind => ?_
  refine .ite (fun declares => ?_) fun _ => .forget ?_
  · subst declares
    exact .found (method_simulates simulates begins annotates listed)
  · refine .same (.report _) fun _ => ?_
    exact .same .skipToStatementEnd fun _ => .pure rfl

theorem classDeclaration_simulates :
    StaysAligned pairing pairing.Matched (classDeclaration fuel grammar)
      (classDeclaration more other) := by
  refine .bind (.start id) fun start begin begins => ?_
  refine .bind (.takeDoc pairing.aligned_kept id) fun doc another docs => ?_
  refine .bind (modifiers_simulates simulates.enough rfl) fun modifiers _ modifiersListed => ?_
  refine .same (.expect _ (by decide)) fun _ => ?_
  refine .bind (identifier_simulates _) fun className _ names => ?_
  refine .bind (parent_simulates simulates.enough) fun parent _ parents => ?_
  refine .bind (interfaces_simulates simulates.enough) fun interfaces _ interfacesListed => ?_
  refine .bind simulates.classBody fun stmts _ stmtsListed => ?_
  refine .finish .inl begins (.document docs (.bare ?_) ⟨rfl, rfl⟩)
  simp [Form.map, modifiersListed, names, parents, interfacesListed, stmtsListed]

theorem anonymousClass_simulates :
    Simulates pairing (pairing.atKind (.keyword .class)) pairing.aligned pairing.Matched
      (anonymousClass fuel grammar) (anonymousClass more other) := by
  refine .bind (.start And.left) fun start begin begins => ?_
  refine .bind (.takeDoc Pairing.atKind_kept And.left) fun doc another docs => ?_
  refine .same (.advance (by decide)) fun _ => ?_
  refine .bind (optionalArguments_simulates simulates) fun args _ argsListed => ?_
  refine .bind (parent_simulates simulates.enough) fun parent _ parents => ?_
  refine .bind (interfaces_simulates simulates.enough) fun interfaces _ interfacesListed => ?_
  refine .bind simulates.classBody fun stmts _ stmtsListed => ?_
  refine .finish .inl begins (.document docs (.bare ?_) ⟨rfl, rfl⟩)
  simp [Form.map, argsListed, parents, interfacesListed, stmtsListed]

theorem instantiation_simulates :
    Simulates pairing (pairing.atKind (.keyword .new)) pairing.aligned pairing.Matched
      (instantiation fuel grammar) (instantiation more other) := by
  have scope : StaysAligned pairing pairing.Found (instantiated fuel) (instantiated more) := by
    refine .kind fun kind => ?_
    refine .ite (fun _ => .forget (name_simulates simulates.enough)) fun _ => ?_
    refine .ite (fun static => .found (.leaf _ (static ▸ by decide))) fun _ => ?_
    exact .ite (fun _ => .forget simpleVariable_simulates) fun _ => .forget (.missing _)
  refine .bind (.start And.left) fun start begin begins => ?_
  refine .same (.advance (by decide)) fun _ => ?_
  refine .kind fun kind => ?_
  refine .ite (fun anonymous => ?_) fun _ => .forget ?_
  · subst anonymous
    refine .bind (anonymousClass_simulates simulates) fun scope _ scopes => ?_
    exact .finish .inl begins (.bare (by simp [Form.map, scopes]))
  · refine .bind scope fun scope _ scopes => ?_
    refine .bind (optionalArguments_simulates simulates) fun arguments _ listed => ?_
    exact .finish .inl begins (.bare (by simp [Form.map, scopes, listed]))

/-! ## Expressions -/

theorem variableVariable_simulates :
    Simulates pairing (pairing.atKind .dollar) pairing.aligned pairing.Matched
      (variableVariable grammar) (variableVariable other) := by
  have nested : StaysAligned pairing pairing.Found (deeper (pure none) (grammar .primary))
      (deeper (pure none) (other .primary)) :=
    .deeper pairing.aligned_kept (.forget (.pure rfl)) simulates.primary
  refine .bind (.start And.left) fun start begin begins => ?_
  refine .same (.advance (by decide)) fun _ => ?_
  refine .same (.eat (by decide)) fun braced => ?_
  refine .ite (fun _ => ?_) fun _ => ?_
  · refine .bind simulates.expr fun varName _ varNames => ?_
    refine .same (.expect _ (by decide)) fun _ => ?_
    exact .finish .inl begins (.bare (by simp [Form.map, varNames]))
  · refine .bind nested fun varName _ varNames => ?_
    exact .finish .inl begins (.bare (by simp [Form.map, varNames]))

theorem primary_simulates :
    StaysAligned pairing pairing.Found (primary fuel grammar) (primary more other) := by
  have missing : StaysAligned pairing pairing.Found noExpression noExpression := .missing _
  have nameExpr : StaysAligned pairing pairing.Found (nameExpr fuel) (nameExpr more) :=
    nameExpr_simulates simulates.enough
  have closure : StaysAligned pairing pairing.Found (some <$> closure fuel grammar)
      (some <$> closure more other) :=
    .found (closure_simulates simulates)
  refine .kind fun kind => ?_
  split
  · exact .forget simpleVariable_simulates
  · exact .found (variableVariable_simulates simulates)
  · exact .found (.leaf _ (by decide))
  · exact .found (.leaf _ (by decide))
  · exact .found (.leaf _ (by decide))
  · exact .forget nameExpr
  · exact .forget nameExpr
  · refine .nextKind (by decide) fun next => ?_
    exact .ite (fun _ => .forget nameExpr) fun _ => .forget missing
  · refine .nextKind (by decide) fun next => ?_
    refine .ite (fun _ => .forget closure) fun _ => ?_
    exact .mono (.found (.leaf _ (by decide))) (fun related => ⟨related.1, related.2.1⟩) id
  · exact .forget closure
  · exact .found (instantiation_simulates simulates)
  · refine .same (.advance (by decide)) fun _ => ?_
    refine .bind simulates.expr fun expr _ exprs => ?_
    exact .same (.expect _ (by decide)) fun _ => .pure exprs
  · exact .forget missing

theorem expr_simulates :
    StaysAligned pairing pairing.Found (expr fuel grammar) (expr more other) := by
  refine .deeper pairing.aligned_kept (.forget (.pure rfl)) ?_
  refine .bind (.start id) fun start begin begins => ?_
  refine .bind (primary_simulates simulates) fun answer another found => ?_
  obtain ⟨rfl, rfl⟩ | ⟨operand, other, rfl, rfl, operands⟩ := Pairing.found_cases found
  · exact .pure rfl
  · refine .bind (trailers_simulates simulates begins operands) fun target _ targets => ?_
    exact .found (assignment_simulates simulates begins targets)

/-! ## Statements -/

omit simulates in
theorem expectSemicolon_simulates : EndsMeeting pairing Eq expectSemicolon expectSemicolon := by
  refine .same (.clearDoc pairing.aligned_kept) fun _ => ?_
  refine .kind fun kind => ?_
  split
  · exact .semicolon
  · exact .forget (.ends (.pure rfl))
  · exact .forget (.ends (.pure rfl))
  · exact .forget (.same (.report _) fun _ => .skipToStatementEnd)

section Statements
variable {start begin : Nat} (begins : pairing.begins start begin)
include begins

theorem expressionStatement_simulates :
    EndsMeeting pairing pairing.Matched (expressionStatement grammar start)
      (expressionStatement other begin) := by
  refine .bind simulates.expr fun expr another found => ?_
  have present : expr.isSome = another.isSome := by simpa using congrArg Option.isSome found
  rw [present]
  refine .same (.ite (fun _ => expectSemicolon_simulates) fun _ => .skipToStatementEnd) fun _ => ?_
  exact .finish id begins (.bare (by simp [Form.map, found]))

theorem functionStatement_simulates :
    Simulates pairing (pairing.atKind (.keyword .function)) pairing.meets pairing.Matched
      (functionStatement fuel grammar start) (functionStatement more other begin) := by
  refine .bind (.takeDoc Pairing.atKind_kept And.left) fun doc another docs => ?_
  refine .same (.advance (by decide)) fun _ => ?_
  refine .same (.eat (by decide)) fun returnsRef => ?_
  refine .same .peek fun kind => ?_
  refine .ite (fun _ => ?_) fun _ => .ends ?_
  · refine .bind (closureTail_simulates simulates begins docs _ _) fun closure _ closures => ?_
    refine .same expectSemicolon_simulates fun _ => ?_
    exact .finish id begins (.bare (by simp [Form.map, closures]))
  · refine .bind (identifier_simulates _) fun functionName _ names => ?_
    refine .bind (parameters_simulates simulates) fun params _ paramsListed => ?_
    refine .bind (returnType_simulates simulates.enough) fun returnType _ types => ?_
    refine .bind (block_simulates simulates) fun stmts _ stmtsListed => ?_
    refine .finish .inl begins (.document docs (.flagged ?_ ⟨rfl, rfl⟩) ⟨rfl, rfl⟩)
    simp [Form.map, names, paramsListed, types, stmtsListed]

theorem echoStatement_simulates {kind : TokenKind} (inside : kind ≠ .semicolon) :
    Simulates pairing (pairing.atKind kind) pairing.meets pairing.Matched
      (echoStatement fuel grammar start) (echoStatement more other begin) := by
  refine .same (.advance inside) fun _ => ?_
  refine .bind (exprList_simulates simulates) fun exprs _ listed => ?_
  refine .same expectSemicolon_simulates fun _ => ?_
  exact .finish id begins (.bare (by simp [Form.map, listed]))

theorem statementByKind_simulates :
    EndsMeeting pairing pairing.Matched (statementByKind fuel grammar start)
      (statementByKind more other begin) := by
  have returned : StaysAligned pairing pairing.Found (returned grammar) (returned other) := by
    refine .same .peek fun kind => ?_
    exact .ite (fun _ => .pure rfl) fun _ => simulates.expr
  have declaration : EndsMeeting pairing pairing.Matched (classDeclaration fuel grammar)
      (classDeclaration more other) :=
    .ends (classDeclaration_simulates simulates)
  refine .kind fun kind => ?_
  split
  · exact echoStatement_simulates simulates begins (by decide)
  · exact echoStatement_simulates simulates begins (by decide)
  · refine .same (.advance (by decide)) fun _ => ?_
    refine .bind simulates.expr fun expr _ exprs => ?_
    refine .same expectSemicolon_simulates fun _ => ?_
    exact .finish id begins (.bare (by simp [Form.map, exprs]))
  · refine .same (.advance (by decide)) fun _ => ?_
    refine .bind returned fun expr _ exprs => ?_
    refine .same expectSemicolon_simulates fun _ => ?_
    exact .finish id begins (.bare (by simp [Form.map, exprs]))
  · refine .forget (.ends ?_)
    refine .bind (block_simulates simulates) fun stmts _ listed => ?_
    exact .finish .inl begins (.bare (by simp [Form.map, listed]))
  · refine .nextKind (by decide) fun next => ?_
    refine .ite (fun _ => .forget (expressionStatement_simulates simulates begins)) fun _ => ?_
    exact .mono (functionStatement_simulates simulates begins)
      (fun related => ⟨related.1, related.2.1⟩) id
  · exact .forget declaration
  · exact .forget declaration
  · exact .forget declaration
  · exact .forget declaration
  · exact .forget (expressionStatement_simulates simulates begins)

end Statements

theorem statement_simulates :
    EndsMeeting pairing pairing.Found (statement fuel grammar) (statement more other) := by
  have pageText : Simulates pairing (pairing.atKind .inlineHtml) pairing.aligned Eq skipPageText
      skipPageText := by
    refine .modify (fun cursor => ?_) fun {here there} related _ => ?_
    · have noted : cursor.Step pairing.left _ :=
        .note (.skippingPageText cursor.current.token.span)
      exact noted.onward.trans (Cursor.onward_advance _ _)
    · have noted := pairing.note (fun cursor => .skippingPageText cursor.current.token.span)
        related.1
      refine pairing.advance noted ?_
      show here.kind ≠ .semicolon
      rw [related.2]
      decide
  have body : EndsMeeting pairing pairing.Matched (statementBody fuel grammar)
      (statementBody more other) := by
    refine .bind (.start id) fun start begin begins => ?_
    refine .bind .takeComments fun comments others annotates => ?_
    refine .bind (statementByKind_simulates simulates begins) fun stmt _ stmts => ?_
    exact .pure (Pairing.matched_prependComments annotates stmts)
  refine .kind fun kind => ?_
  split
  · exact .ends (.same (.advance (by decide)) fun _ => .pure rfl)
  · exact .ends (.same (.advance (by decide)) fun _ => .pure rfl)
  · exact .ends (.same pageText fun _ => .pure rfl)
  · refine .same .semicolon fun _ => ?_
    exact .same (.clearDoc Pairing.meets_kept) fun _ => .pure rfl
  · refine .forget (.deeper Pairing.meets_kept ?_ (.found body))
    exact .same .skipStatement fun _ => .pure rfl

end Declarations

theorem topLevel_simulates
    (statement : EndsMeeting pairing pairing.Found (grammar .statement) (other .statement)) :
    EndsMeeting pairing (Pairing.DecidesAlike pairing.Found) (topLevel grammar)
      (topLevel other) := by
  refine .kind fun kind => ?_
  split
  · exact .forget (.ends (.pure ⟨rfl, rfl⟩))
  · refine .ends (.same (.reportAt _) fun _ => ?_)
    exact .same (.advance (by decide)) fun _ => .pure ⟨rfl, rfl⟩
  · refine .forget (.bind statement fun stmt _ stmts => ?_)
    exact .pure ⟨stmts, rfl⟩

end Parse

/-! ## Grammars -/

def Phrase.ends (pairing : Pairing) : Phrase → Cursor → Cursor → Prop
  | .expr | .primary => pairing.aligned
  | .statement | .member => pairing.meets

abbrev PhraseSimulates (pairing : Pairing) (phrase : Phrase) (first second : Parse (Option Node)) :
    Prop :=
  Simulates pairing pairing.aligned (phrase.ends pairing) pairing.Found first second

namespace GrammarSimulates

variable {pairing : Pairing} {fuel more : Nat} {grammar other : Grammar}

theorem of_phrases (enough : fuel ≤ more)
    (simulates : ∀ phrase, PhraseSimulates pairing phrase (grammar phrase) (other phrase)) :
    GrammarSimulates pairing fuel more grammar other where
  enough := enough
  expr := simulates .expr
  primary := simulates .primary
  statement := simulates .statement
  classBody := Parse.braced_simulates enough (simulates .member)

/-- One level over grammars of which the one simulates the other. -/
theorem rule (simulates : GrammarSimulates pairing fuel more grammar other) (phrase : Phrase) :
    PhraseSimulates pairing phrase (Grammar.rule fuel grammar phrase)
      (Grammar.rule more other phrase) := by
  cases phrase with
  | expr => exact Parse.expr_simulates simulates
  | primary => exact Parse.primary_simulates simulates
  | statement => exact Parse.statement_simulates simulates
  | member => exact Parse.member_simulates simulates

end GrammarSimulates

theorem Grammar.closed_simulates {pairing : Pairing} {fuel : Nat} :
    ∀ {more : Nat}, fuel ≤ more → ∀ phrase,
      PhraseSimulates pairing phrase (closed fuel phrase) (closed more phrase) := by
  induction fuel with
  | zero => exact fun _ _ => .outOfFuel
  | succ fuel inductionHypothesis =>
      intro more enough phrase
      obtain ⟨more, rfl⟩ : ∃ fewer, more = fewer + 1 := ⟨more - 1, by omega⟩
      have fewer := Nat.le_of_succ_le_succ enough
      have level : GrammarSimulates pairing fuel more (closed fuel) (closed more) :=
        .of_phrases fewer (inductionHypothesis fewer)
      exact level.rule phrase

end PhpTree
