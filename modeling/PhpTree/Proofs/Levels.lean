import PhpTree.Proofs.Building

/-! # What the depth counter counts

The counter of a parse stands for something that can be seen in the tree: on the way
from the root to any node, the statements of bodies and the expressions that are
assigned, passed, thrown, returned or written out.  There are no more of them than the
limit allows.  The counter itself is never off: whatever a parser meets, it hands the
counter back as it found it. -/
set_option autoImplicit false
namespace PhpTree

/-! ## Ways down a tree -/

/-- The steps from a node down to another, each a form and the slot in it that was gone into. -/
inductive Node.Path : Node → List (Form Node × Slot) → Node → Prop
  | here (node : Node) : Path node [] node
  | down {node child inner : Node} {field : Slot × Field Node} {steps : List (Form Node × Slot)}
      (inForm : field ∈ node.form.fields) (inField : child ∈ field.2.toList)
      (path : Path child steps inner) : Path node ((node.form, field.1) :: steps) inner

namespace Form

theorem slot_of_holdsStatements {α : Type} {form : Form α} {slot : Slot}
    (holds : form.holdsStatements slot = true) : slot = .stmts := by
  unfold holdsStatements at holds
  split at holds <;> first | rfl | cases holds

theorem slot_of_holdsExpression {α : Type} {form : Form α} {slot : Slot}
    (holds : form.holdsExpression slot = true) : slot ≠ .stmts := by
  unfold holdsExpression at holds
  split at holds <;> intro same <;> cases same
  cases holds

theorem countP_opensLevel (steps : List (Form Node × Slot)) :
    (steps.countP fun step => step.1.holdsStatements step.2) +
      (steps.countP fun step => step.1.holdsExpression step.2) =
        steps.countP fun step => step.1.opensLevel step.2 := by
  induction steps with
  | nil => rfl
  | cons step rest inductionHypothesis =>
      have counts : step.1.opensLevel step.2 =
          (step.1.holdsStatements step.2 || step.1.holdsExpression step.2) := rfl
      rw [List.countP_cons, List.countP_cons, List.countP_cons, counts, ← inductionHypothesis]
      cases statement : step.1.holdsStatements step.2 with
      | false =>
          simp only [Bool.false_or, Bool.false_eq_true, if_false]
          omega
      | true =>
          have noExpression : step.1.holdsExpression step.2 = false := by
            rw [← Bool.not_eq_true]
            exact fun holds => slot_of_holdsExpression holds (slot_of_holdsStatements statement)
          simp only [noExpression, Bool.or_false, Bool.false_eq_true, if_true, if_false]
          omega

end Form

/-- No way down from the node opens more levels. -/
def Node.Within (bound : Nat) (node : Node) : Prop :=
  ∀ steps inner, node.Path steps inner →
    (steps.countP fun step => step.1.opensLevel step.2) ≤ bound

def Level.opened : Level → Nat
  | .same _ => 0
  | .deeper => 1

def Part.Within (bound : Nat) (part : Part) : Prop :=
  ∃ rest, part.node.Within rest ∧ rest + part.level.opened ≤ bound

theorem Part.forall_mark {holds : Part → Prop} {level : Level} {nodes : List Node} :
    (∀ part ∈ mark level nodes, holds part) ↔ ∀ node ∈ nodes, holds ⟨node, level⟩ := by
  simp [mark]

theorem Form.opened_slotLevel (naming : Nat) (form : Form Node) (slot : Slot) :
    (form.slotLevel naming slot).opened = if form.opensLevel slot then 1 else 0 := by
  unfold slotLevel
  split
  · rfl
  · split <;> rfl

theorem Form.mem_parts {naming : Nat} {form : Form Node} {field : Slot × Field Node} {child : Node}
    (inForm : field ∈ form.fields) (inField : child ∈ field.2.toList) :
    ⟨child, form.slotLevel naming field.1⟩ ∈ form.parts naming := by
  rw [parts_eq, List.mem_flatMap]
  exact ⟨field, inForm, List.mem_map.mpr ⟨child, inField, rfl⟩⟩

/-- A node opens the levels that its parts open. -/
theorem Node.within_of_parts {naming bound : Nat} {node : Node}
    (parts : ∀ part ∈ node.form.parts naming, part.Within bound) : node.Within bound := by
  intro steps inner path
  cases path with
  | here => exact Nat.zero_le _
  | down inForm inField path =>
      obtain ⟨rest, within, fits⟩ := parts _ (Form.mem_parts inForm inField)
      have below := within _ _ path
      rw [Form.opened_slotLevel] at fits
      rw [List.countP_cons]
      exact Nat.le_trans (Nat.add_le_add_right below _) fits

theorem Node.Within.modifyAttributes {bound : Nat} {node : Node} (within : node.Within bound)
    (change : Attributes → Attributes) : (node.modifyAttributes change).Within bound := by
  intro steps inner path
  cases path with
  | here => exact Nat.zero_le _
  | down inForm inField path => exact within _ inner (.down inForm inField path)

/-- What is built at a depth opens no more levels than the limit leaves there. -/
theorem BuildsParts.within {context : Context} {given held : List Part} {origin cursor : Cursor}
    (built : BuildsParts context given origin held cursor)
    (fits : ∀ part ∈ given, part.Within (context.options.maxDepth - origin.depth)) :
    ∀ part ∈ held, part.Within (context.options.maxDepth - origin.depth) := by
  induction built with
  | here => exact fits
  | steps _ _ _ inductionHypothesis => exact inductionHypothesis fits
  | drop _ inductionHypothesis =>
      exact fun part member => inductionHypothesis fits part (List.mem_append_left _ member)
  | lower _ inductionHypothesis =>
      obtain ⟨before, nodes⟩ := List.forall_mem_append.mp (inductionHypothesis fits)
      refine List.forall_mem_append.mpr ⟨before, Part.forall_mark.mpr fun node member => ?_⟩
      obtain ⟨rest, within, fits⟩ := Part.forall_mark.mp nodes node member
      exact ⟨rest, within, Nat.le_trans (Nat.le_add_right rest 1) fits⟩
  | raise _ _ inductionHypothesis =>
      obtain ⟨before, nodes⟩ := List.forall_mem_append.mp (inductionHypothesis fits)
      exact List.forall_mem_append.mpr
        ⟨before, Part.forall_mark.mpr fun node member => Part.forall_mark.mp nodes node member⟩
  | deeper built room _ outerHypothesis innerHypothesis =>
      refine List.forall_mem_append.mpr ⟨outerHypothesis fits, Part.forall_mark.mpr ?_⟩
      intro node member
      obtain ⟨rest, within, below⟩ := Part.forall_mark.mp (innerHypothesis nofun) node member
      have same := built.depth_eq
      refine ⟨rest, within, ?_⟩
      simp only [Level.opened] at below ⊢
      omega
  | node _ _ _ inductionHypothesis =>
      obtain ⟨before, parts⟩ := List.forall_mem_append.mp (inductionHypothesis fits)
      refine List.forall_mem_append.mpr ⟨before, Part.forall_mark.mpr fun node member => ?_⟩
      obtain rfl := List.mem_singleton.mp member
      exact ⟨_, Node.within_of_parts parts, Nat.le_refl _⟩
  | declaration built opening claims rest complete _ _ outerHypothesis openingHypothesis
      restHypothesis =>
      have level := built.depth_eq
      have claimLevel := opening.depth_eq
      rw [level] at openingHypothesis
      rw [Cursor.clearDoc, claimLevel, level] at restHypothesis
      have parts := List.forall_mem_append.mpr ⟨openingHypothesis nofun, restHypothesis nofun⟩
      refine List.forall_mem_append.mpr ⟨outerHypothesis fits, Part.forall_mark.mpr ?_⟩
      intro node member
      obtain rfl := List.mem_singleton.mp member
      exact ⟨_, Node.within_of_parts fun part inForm =>
        parts part (complete.mem_iff.mpr inForm), Nat.le_refl _⟩
  | commented comments _ inductionHypothesis =>
      obtain ⟨before, one⟩ := List.forall_mem_append.mp (inductionHypothesis fits)
      refine List.forall_mem_append.mpr ⟨before, Part.forall_mark.mpr fun node member => ?_⟩
      obtain rfl := List.mem_singleton.mp member
      obtain ⟨rest, within, fits⟩ := Part.forall_mark.mp one _ (List.mem_singleton.mpr rfl)
      exact ⟨rest, within.modifyAttributes (·.prependComments comments), fits⟩

/-! ## The counter after every parser -/

/-- The functions of the parser, over one grammar for the phrases that recur. Where one is passed to
another, both are. -/
inductive Production (fuel : Nat) (grammar : Grammar) : {α : Type} → Parse α → Prop
  | advance : Production fuel grammar Parse.advance
  | report (expected : Expected) : Production fuel grammar (Parse.report expected)
  | clearDoc : Production fuel grammar Parse.clearDoc
  | takeDoc : Production fuel grammar Parse.takeDoc
  | takeComments : Production fuel grammar Parse.takeComments
  | takeErrors : Production fuel grammar Parse.takeErrors
  | eat (wanted : TokenKind) : Production fuel grammar (Parse.eat wanted)
  | expect (wanted : TokenKind) (expected : Expected) :
      Production fuel grammar (Parse.expect wanted expected)
  | finish (start : Nat) (node : Node) : Production fuel grammar (Parse.finish start node)
  | currentLeaf (kind : LeafKind) : Production fuel grammar (Parse.currentLeaf kind)
  | leaf (kind : LeafKind) : Production fuel grammar (Parse.leaf kind)
  | skipToStatementEnd : Production fuel grammar (Parse.modify Cursor.skipToStatementEnd)
  | skipStatement : Production fuel grammar (Parse.modify Cursor.skipStatement)
  | deeper {α : Type} {refused parser : Parse α} (declines : Production fuel grammar refused)
      (enters : Production fuel grammar parser) :
      Production fuel grammar (Parse.deeper refused parser)
  | collect {α : Type} {round : Parse (Option α × Bool)} (each : Production fuel grammar round) :
      Production fuel grammar (Parse.collect fuel round)
  | parenthesised {round : Parse (Option Node × Bool)} (each : Production fuel grammar round) :
      Production fuel grammar (Parse.parenthesised fuel round)
  | braced {element : Parse (Option Node)} (each : Production fuel grammar element) :
      Production fuel grammar (Parse.braced fuel element)
  | phrase (phrase : Phrase) : Production fuel grammar (grammar phrase)
  | identifier (expected : Expected) : Production fuel grammar (Parse.identifier expected)
  | simpleVariable : Production fuel grammar Parse.simpleVariable
  | furtherPart : Production fuel grammar Parse.furtherPart
  | qualification : Production fuel grammar Parse.qualification
  | name : Production fuel grammar (Parse.name fuel)
  | className : Production fuel grammar (Parse.className fuel)
  | typeName : Production fuel grammar (Parse.typeName fuel)
  | type : Production fuel grammar (Parse.type fuel)
  | returnType : Production fuel grammar (Parse.returnType fuel)
  | modifiers (accepts : TokenKind → Bool) : Production fuel grammar (Parse.modifiers fuel accepts)
  | interface : Production fuel grammar (Parse.interface fuel)
  | parent : Production fuel grammar (Parse.parent fuel)
  | interfaces : Production fuel grammar (Parse.interfaces fuel)
  | capture : Production fuel grammar Parse.capture
  | captures : Production fuel grammar (Parse.captures fuel)
  | listedExpr : Production fuel grammar (Parse.listedExpr grammar)
  | exprList : Production fuel grammar (Parse.exprList fuel grammar)
  | argument : Production fuel grammar (Parse.argument grammar)
  | arguments : Production fuel grammar (Parse.arguments fuel grammar)
  | optionalArguments : Production fuel grammar (Parse.optionalArguments fuel grammar)
  | parameterType : Production fuel grammar (Parse.parameterType fuel)
  | parameterDefault : Production fuel grammar (Parse.parameterDefault grammar)
  | parameter : Production fuel grammar (Parse.parameter fuel grammar)
  | parameters : Production fuel grammar (Parse.parameters fuel grammar)
  | memberName (expected : Expected) : Production fuel grammar (Parse.memberName expected)
  | memberAccess (start : Nat) (object : Node) :
      Production fuel grammar (Parse.memberAccess fuel grammar start object)
  | staticAccess (start : Nat) (scope : Node) :
      Production fuel grammar (Parse.staticAccess fuel grammar start scope)
  | trailer (start : Nat) (operand : Node) :
      Production fuel grammar (Parse.trailer fuel grammar start operand)
  | trailers (start : Nat) (operand : Node) :
      Production fuel grammar (Parse.trailers fuel grammar start operand)
  | assignment (start : Nat) (target : Node) :
      Production fuel grammar (Parse.assignment grammar start target)
  | nameExpr : Production fuel grammar (Parse.nameExpr fuel)
  | block : Production fuel grammar (Parse.block fuel grammar)
  | closureTail (start : Nat) (doc : Option String) (static returnsRef : Bool) :
      Production fuel grammar (Parse.closureTail fuel grammar start doc static returnsRef)
  | closure : Production fuel grammar (Parse.closure fuel grammar)
  | methodBody : Production fuel grammar (Parse.methodBody fuel grammar)
  | method (start : Nat) (comments : List Comment) (modifiers : List Node) :
      Production fuel grammar (Parse.method fuel grammar start comments modifiers)
  | member : Production fuel grammar (Parse.member fuel grammar)
  | classBody : Production fuel grammar (Parse.classBody fuel grammar)
  | classDeclaration : Production fuel grammar (Parse.classDeclaration fuel grammar)
  | anonymousClass : Production fuel grammar (Parse.anonymousClass fuel grammar)
  | instantiated : Production fuel grammar (Parse.instantiated fuel)
  | instantiation : Production fuel grammar (Parse.instantiation fuel grammar)
  | variableVariable : Production fuel grammar (Parse.variableVariable grammar)
  | group : Production fuel grammar (Parse.group grammar)
  | noExpression : Production fuel grammar Parse.noExpression
  | primary : Production fuel grammar (Parse.primary fuel grammar)
  | exprBody : Production fuel grammar (Parse.exprBody fuel grammar)
  | expr : Production fuel grammar (Parse.expr fuel grammar)
  | expectSemicolon : Production fuel grammar Parse.expectSemicolon
  | echoStatement (start : Nat) : Production fuel grammar (Parse.echoStatement fuel grammar start)
  | throwStatement (start : Nat) : Production fuel grammar (Parse.throwStatement grammar start)
  | returned : Production fuel grammar (Parse.returned grammar)
  | returnStatement (start : Nat) : Production fuel grammar (Parse.returnStatement grammar start)
  | functionStatement (start : Nat) :
      Production fuel grammar (Parse.functionStatement fuel grammar start)
  | endExpression (found : Bool) : Production fuel grammar (Parse.endExpression found)
  | expressionStatement (start : Nat) :
      Production fuel grammar (Parse.expressionStatement grammar start)
  | blockStatement (start : Nat) : Production fuel grammar (Parse.blockStatement fuel grammar start)
  | statementByKind (start : Nat) :
      Production fuel grammar (Parse.statementByKind fuel grammar start)
  | statementBody : Production fuel grammar (Parse.statementBody fuel grammar)
  | skipPageText : Production fuel grammar Parse.skipPageText
  | statement : Production fuel grammar (Parse.statement fuel grammar)
  | topLevel : Production fuel grammar (Parse.topLevel grammar)
  | program : Production fuel grammar (Parse.program fuel grammar)

structure Parse.KeepsDepth {α : Type} (context : Context) (parser : Parse α) : Prop where
  depth_eq : ∀ {cursor after : Cursor} {answer : α}, parser context cursor = some (answer, after) →
    after.depth = cursor.depth

namespace Parse.KeepsDepth

variable {α β : Type} {context : Context}

theorem of_assembles {parser : Parse α} {taken : List Part} {left : α → List Part}
    (assembles : Assembles context taken parser left) : KeepsDepth context parser := by
  constructor
  intro cursor after answer run
  have built : BuildsParts context taken cursor ([] ++ taken) cursor := .here
  exact ((assembles.outcome built).of_run run).depth_eq

/-- What the parser takes when it begins does not matter. -/
theorem of_move {parser : Parse α}
    (assembles : ∀ taken, Assembles context taken parser fun _ => taken) :
    KeepsDepth context parser :=
  of_assembles (assembles [])

theorem done {parser : Parse α} {answer : Cursor → α} (moved : Cursor → Cursor)
    (runs : ∀ cursor, parser context cursor = some (answer cursor, moved cursor))
    (same : ∀ cursor, (moved cursor).depth = cursor.depth) : KeepsDepth context parser := by
  constructor
  intro cursor after found run
  rw [runs] at run
  cases run
  exact same cursor

theorem pure {answer : α} : KeepsDepth context (Pure.pure answer) := done id
    (fun _ => rfl) fun _ => rfl

theorem bind {parser : Parse α} {next : α → Parse β} (first : KeepsDepth context parser)
    (rest : ∀ answer, KeepsDepth context (next answer)) : KeepsDepth context (parser >>= next) := by
  constructor
  intro cursor after last run
  have unfolded : (parser context cursor).bind (fun result => next result.1 context result.2) =
      some (last, after) := run
  obtain ⟨⟨answer, between⟩, firstRun, restRun⟩ := Option.bind_eq_some_iff.mp unfolded
  exact ((rest answer).depth_eq restRun).trans (first.depth_eq firstRun)

theorem ite {condition : Prop} [Decidable condition] {first second : Parse α}
    (whenTrue : KeepsDepth context first) (whenFalse : KeepsDepth context second) :
    KeepsDepth context (if condition then first else second) := by
  split
  · exact whenTrue
  · exact whenFalse

theorem read {get : Cursor → β} {next : β → Parse α}
    (rest : ∀ answer, KeepsDepth context (next answer)) :
    KeepsDepth context (Parse.read get >>= next) :=
  bind (done id (fun _ => rfl) fun _ => rfl) rest

theorem advance : KeepsDepth context Parse.advance :=
  done (Cursor.advance context) (fun _ => rfl) (Cursor.depth_advance context)

theorem clearDoc : KeepsDepth context Parse.clearDoc :=
  done Cursor.clearDoc (fun _ => rfl) fun _ => rfl

theorem takeDoc : KeepsDepth context Parse.takeDoc :=
  done Cursor.clearDoc (fun _ => rfl) fun _ => rfl

theorem takeComments : KeepsDepth context Parse.takeComments :=
  done Cursor.dropComments (fun _ => rfl) fun _ => rfl

theorem takeErrors : KeepsDepth context Parse.takeErrors :=
  done (fun cursor => { cursor with errors := [] }) (fun _ => rfl) fun _ => rfl

theorem eat {wanted : TokenKind} : KeepsDepth context (Parse.eat wanted) :=
  of_assembles Assembles.eaten

theorem expect {wanted : TokenKind} {expected : Expected} :
    KeepsDepth context (Parse.expect wanted expected) :=
  of_assembles Assembles.expected

theorem finish {start : Nat} {node : Node} : KeepsDepth context (Parse.finish start node) :=
  done id (fun _ => rfl) fun _ => rfl

theorem deeper {refused parser : Parse α} (declines : KeepsDepth context refused)
    (enters : KeepsDepth context parser) : KeepsDepth context (Parse.deeper refused parser) := by
  constructor
  intro cursor after answer run
  by_cases full : context.options.maxDepth ≤ cursor.depth
  · rw [deeper_of_full full] at run
    exact (declines.depth_eq run).trans (cursor.depth_record _)
  · rw [deeper_of_room (Nat.lt_of_not_le full)] at run
    obtain ⟨⟨inner, stopped⟩, innerRun, result⟩ := Option.map_eq_some_iff.mp run
    obtain ⟨rfl, rfl⟩ := Prod.mk.inj result
    show stopped.depth - 1 = cursor.depth
    rw [enters.depth_eq innerRun]
    exact Nat.add_sub_cancel ..

theorem loop {step : α → Parse (α × Bool)} (round : ∀ value, KeepsDepth context (step value))
    (fuel : Nat) : ∀ {value : α}, KeepsDepth context (Parse.loop step fuel value) := by
  induction fuel with
  | zero =>
      intro value
      constructor
      intro cursor after answer run
      cases run
  | succ fuel inductionHypothesis =>
      intro value
      constructor
      intro cursor after answer run
      simp only [Parse.loop] at run
      cases stepRun : step value context cursor with
      | none => simp [stepRun] at run
      | some result =>
          obtain ⟨⟨next, continues⟩, between⟩ := result
          have same := (round value).depth_eq stepRun
          rw [stepRun] at run
          cases continues with
          | false =>
              cases run
              exact same
          | true => exact (inductionHypothesis.depth_eq run).trans same

theorem collect {round : Parse (Option α × Bool)} (each : KeepsDepth context round) (fuel : Nat) :
    KeepsDepth context (Parse.collect fuel round) :=
  bind (loop (fun _ => bind each fun _ => pure) fuel) fun _ => pure

theorem parenthesised {round : Parse (Option Node × Bool)} (each : KeepsDepth context round)
    (fuel : Nat) : KeepsDepth context (Parse.parenthesised fuel round) := by
  refine bind expect fun opened => ite ?_ pure
  refine bind (collect (read fun kind => ite pure each) fuel) fun listed => ?_
  exact bind expect fun closed => pure

theorem braced {element : Parse (Option Node)} (each : KeepsDepth context element) (fuel : Nat) :
    KeepsDepth context (Parse.braced fuel element) := by
  refine bind expect fun opened => ite ?_ pure
  refine bind (collect (read fun kind => ite pure (bind each fun element => pure)) fuel)
    fun elements => ?_
  exact bind expect fun closed => bind clearDoc fun _ => pure

/-! Declarations are followed by themselves: what they take need not have waited. -/

section Declarations
variable {fuel : Nat} {grammar : Grammar} (assembling : grammar.Assembling context)
include assembling

theorem closureTail (start : Nat) (doc : Option String) (static returnsRef : Bool) :
    KeepsDepth context (Parse.closureTail fuel grammar start doc static returnsRef) := by
  refine bind (of_assembles (parameters_assembles assembling)) fun params => ?_
  refine bind (of_assembles captures_assembles) fun uses => ?_
  refine bind (of_assembles returnType_assembles) fun returnType => ?_
  exact bind (of_assembles (block_assembles assembling)) fun stmts => finish

theorem method (start : Nat) (comments : List Comment) (modifiers : List Node) :
    KeepsDepth context (Parse.method fuel grammar start comments modifiers) := by
  refine bind takeDoc fun doc => bind advance fun _ => bind eat fun returnsRef => ?_
  refine bind (of_assembles (identifier_assembles _)) fun methodName => ?_
  refine bind (of_assembles (parameters_assembles assembling)) fun params => ?_
  refine bind (of_assembles returnType_assembles) fun returnType => ?_
  exact bind (of_assembles (methodBody_assembles assembling)) fun stmts => finish

theorem functionStatement (start : Nat) :
    KeepsDepth context (Parse.functionStatement fuel grammar start) := by
  refine bind takeDoc fun doc => bind advance fun _ => bind eat fun returnsRef => ?_
  refine read fun kind => ite ?_ ?_
  · refine bind (closureTail assembling _ _ _ _) fun closure => ?_
    exact bind (of_move fun _ => expectSemicolon_assembles) fun _ => finish
  · refine bind (of_assembles (identifier_assembles _)) fun functionName => ?_
    refine bind (of_assembles (parameters_assembles assembling)) fun params => ?_
    refine bind (of_assembles returnType_assembles) fun returnType => ?_
    exact bind (of_assembles (block_assembles assembling)) fun stmts => finish

theorem statementByKind (start : Nat) :
    KeepsDepth context (Parse.statementByKind fuel grammar start) := by
  refine read fun kind => ?_
  split
  · exact of_assembles (echoStatement_assembles assembling start)
  · exact of_assembles (echoStatement_assembles assembling start)
  · exact of_assembles (throwStatement_assembles assembling start)
  · exact of_assembles (returnStatement_assembles assembling start)
  · exact of_assembles (blockStatement_assembles assembling start)
  · refine read fun nextKind => ite ?_ (functionStatement assembling start)
    exact of_assembles (expressionStatement_assembles assembling start)
  · exact of_assembles (classDeclaration_assembles assembling)
  · exact of_assembles (classDeclaration_assembles assembling)
  · exact of_assembles (classDeclaration_assembles assembling)
  · exact of_assembles (classDeclaration_assembles assembling)
  · exact of_assembles (expressionStatement_assembles assembling start)

end Declarations
end Parse.KeepsDepth

open Parse in
/-- Every parser, over phrases of whatever fuel, hands the counter back as it found it. -/
theorem Production.keepsDepth {fuel more : Nat} {α : Type} {parser : Parse α}
    (production : Production fuel (Grammar.closed more) parser) (context : Context) :
    KeepsDepth context parser := by
  have assembling := Grammar.closed_assembling context more
  induction production with
  | advance => exact .advance
  | report expected =>
      exact .done (Cursor.report context expected) (fun _ => rfl) fun cursor =>
        cursor.depth_record _
  | clearDoc => exact .clearDoc
  | takeDoc => exact .takeDoc
  | takeComments => exact .takeComments
  | takeErrors => exact .takeErrors
  | eat wanted => exact .eat
  | expect wanted expected => exact .expect
  | finish start node => exact .finish
  | currentLeaf kind => exact .done id (fun _ => rfl) fun _ => rfl
  | leaf kind => exact .of_assembles Assembles.leaf
  | skipToStatementEnd => exact .of_move fun _ => Assembles.skipToStatementEnd
  | skipStatement =>
      exact .done (Cursor.skipStatement context) (fun _ => rfl) (Cursor.depth_skipStatement context)
  | deeper _ _ declines enters => exact .deeper declines enters
  | collect _ each => exact .collect each fuel
  | parenthesised _ each => exact .parenthesised each fuel
  | braced _ each => exact .braced each fuel
  | phrase phrase =>
      cases phrase with
      | expr => exact .of_assembles assembling.expr
      | primary => exact .of_assembles assembling.primary
      | statement => exact .of_assembles assembling.statement
      | member => exact .of_assembles assembling.member
  | identifier expected => exact .of_assembles (identifier_assembles expected)
  | simpleVariable => exact .of_assembles (simpleVariable_assembles)
  | furtherPart => exact .of_assembles (furtherPart_assembles)
  | qualification => exact .of_assembles (qualification_assembles)
  | name => exact .of_assembles (name_assembles)
  | className => exact .of_assembles (className_assembles)
  | typeName => exact .of_assembles (typeName_assembles)
  | type => exact .of_assembles (type_assembles)
  | returnType => exact .of_assembles (returnType_assembles)
  | modifiers accepts => exact .of_assembles (modifiers_assembles accepts)
  | interface => exact .of_assembles (interface_assembles)
  | parent => exact .of_assembles (parent_assembles)
  | interfaces => exact .of_assembles (interfaces_assembles)
  | capture => exact .of_assembles (capture_assembles)
  | captures => exact .of_assembles (captures_assembles)
  | listedExpr => exact .of_assembles (listedExpr_assembles assembling)
  | exprList => exact .of_assembles (exprList_assembles assembling)
  | argument => exact .of_assembles (argument_assembles assembling)
  | arguments => exact .of_assembles (arguments_assembles assembling)
  | optionalArguments => exact .of_assembles (optionalArguments_assembles assembling)
  | parameterType => exact .of_assembles (parameterType_assembles)
  | parameterDefault => exact .of_assembles (parameterDefault_assembles assembling)
  | parameter => exact .of_assembles (parameter_assembles assembling)
  | parameters => exact .of_assembles (parameters_assembles assembling)
  | memberName expected => exact .of_assembles (memberName_assembles expected)
  | memberAccess start object =>
    exact .of_assembles (memberAccess_assembles assembling start object)
  | staticAccess start scope => exact .of_assembles (staticAccess_assembles assembling start scope)
  | trailer start operand => exact .of_assembles (trailer_assembles assembling start operand)
  | trailers start operand => exact .of_assembles (trailers_assembles assembling start operand)
  | assignment start target => exact .of_assembles (assignment_assembles assembling start target)
  | nameExpr => exact .of_assembles (nameExpr_assembles)
  | block => exact .of_assembles (block_assembles assembling)
  | closureTail start doc static returnsRef =>
      exact .closureTail assembling start doc static returnsRef
  | closure => exact .of_assembles (closure_assembles assembling)
  | methodBody => exact .of_assembles (methodBody_assembles assembling)
  | method start comments modifiers => exact .method assembling start comments modifiers
  | member => exact .of_assembles (member_assembles assembling)
  | classBody => exact .of_assembles (classBody_assembles assembling)
  | classDeclaration => exact .of_assembles (classDeclaration_assembles assembling)
  | anonymousClass => exact .of_assembles (anonymousClass_assembles assembling)
  | instantiated => exact .of_assembles (instantiated_assembles)
  | instantiation => exact .of_assembles (instantiation_assembles assembling)
  | variableVariable => exact .of_assembles (variableVariable_assembles assembling)
  | group => exact .of_assembles (group_assembles assembling)
  | noExpression => exact .of_assembles (noExpression_assembles)
  | primary => exact .of_assembles (primary_assembles assembling)
  | exprBody => exact .of_assembles (exprBody_assembles assembling)
  | expr => exact .of_assembles (expr_assembles assembling)
  | expectSemicolon => exact .of_move fun _ => expectSemicolon_assembles
  | echoStatement start => exact .of_assembles (echoStatement_assembles assembling start)
  | throwStatement start => exact .of_assembles (throwStatement_assembles assembling start)
  | returned => exact .of_assembles (returned_assembles assembling)
  | returnStatement start => exact .of_assembles (returnStatement_assembles assembling start)
  | functionStatement start => exact .functionStatement assembling start
  | endExpression found => exact .of_move fun _ => endExpression_assembles found
  | expressionStatement start =>
    exact .of_assembles (expressionStatement_assembles assembling start)
  | blockStatement start => exact .of_assembles (blockStatement_assembles assembling start)
  | statementByKind start => exact .statementByKind assembling start
  | statementBody => exact .of_assembles (statementBody_assembles assembling)
  | skipPageText => exact .of_move fun _ => skipPageText_assembles
  | statement => exact .of_assembles (statement_assembles assembling)
  | topLevel => exact .of_assembles (topLevel_assembles assembling)
  | program =>
      refine .bind (.collect (.of_assembles (topLevel_assembles assembling)) fuel) fun stmts => ?_
      refine .bind .takeComments fun comments => ?_
      exact .bind .takeErrors fun errors => .pure

/-! ## Programs -/

/-- Every parser, over phrases of whatever fuel, hands the counter back as it found it. -/
theorem Production.depth_eq {fuel more : Nat} {α : Type} {parser : Parse α}
    (production : Production fuel (Grammar.closed more) parser) {context : Context}
    {cursor after : Cursor} {answer : α} (run : parser context cursor = some (answer, after)) :
    after.depth = cursor.depth :=
  (production.keepsDepth context).depth_eq run

theorem Production.depth_eq_program :
    ∃ program last,
      Parse.program 30 (Grammar.closed 30) (Parser.ofSource {} (bytesOf "<?php f($a);")).context
        { (Parser.ofSource {} (bytesOf "<?php f($a);")).cursor with depth := 3 } =
          some (program, last) ∧ program.errors = [] ∧ last.depth = 3 := by
  have ends : (Parse.program 30 (Grammar.closed 30)
      (Parser.ofSource {} (bytesOf "<?php f($a);")).context
      { (Parser.ofSource {} (bytesOf "<?php f($a);")).cursor with depth := 3 }).map
        (fun result => result.1.errors) = some [] := by
    decide +kernel
  obtain ⟨⟨program, last⟩, run, clean⟩ := Option.map_eq_some_iff.mp ends
  exact ⟨program, last, run, clean, Production.program.depth_eq run⟩

/-- On the way from the root to a node no more statements and expressions are counted than the limit
allows, and every parser, over phrases of whatever fuel, hands the counter back as it found it. -/
theorem parse_levels_le :
    (∀ {options : Options} {source : List UInt8} {program : Program},
      parse options source = some program →
        ∀ steps inner, program.root.Path steps inner →
          (steps.countP fun step => step.1.holdsStatements step.2) +
            (steps.countP fun step => step.1.holdsExpression step.2) ≤ options.maxDepth) ∧
      ∀ (fuel more : Nat) {α : Type} (parser : Parse α),
        Production fuel (Grammar.closed more) parser →
          ∀ (context : Context) (cursor : Cursor) (answer : α) (after : Cursor),
            parser context cursor = some (answer, after) → after.depth = cursor.depth := by
  constructor
  · intro options source program parsed steps inner path
    obtain ⟨_, built, _⟩ := parse_builds parsed
    have within := Node.within_of_parts (built.within nofun)
    rw [Form.countP_opensLevel]
    exact Nat.le_trans (within steps inner path) (Nat.sub_le _ _)
  · intro fuel more α parser production context cursor answer after run
    exact production.depth_eq run

theorem parse_levels_le_closure :
    ∃ program, parse { maxDepth := 4 } (bytesOf "<?php return function () \x7b throw $a; \x7d;") =
        some program ∧ program.errors = [] ∧
      (∀ steps inner, program.root.Path steps inner →
        (steps.countP fun step => step.1.holdsStatements step.2) +
          (steps.countP fun step => step.1.holdsExpression step.2) ≤ 4) ∧
      ∃ last, (Parser.ofSource { maxDepth := 4 }
          (bytesOf "<?php return function () \x7b throw $a; \x7d;")).EndsIn Grammar.closed program
        last ∧ last.depth = 0 := by
  have ends : (parse { maxDepth := 4 }
      (bytesOf "<?php return function () \x7b throw $a; \x7d;")).map Program.errors = some [] := by
    decide +kernel
  obtain ⟨program, parsed, clean⟩ := Option.map_eq_some_iff.mp ends
  obtain ⟨after, ended⟩ := parse_eq_some.mp parsed
  have run := Parser.programWith_run ended
  obtain ⟨_, depth, _⟩ := Parser.ofSource_cursor { maxDepth := 4 }
    (bytesOf "<?php return function () \x7b throw $a; \x7d;")
  have same := parse_levels_le.2 _ _ _ .program _ _ _ _ run
  exact ⟨program, parsed, clean, parse_levels_le.1 parsed, _, ⟨_, run⟩, same.trans depth⟩

end PhpTree
