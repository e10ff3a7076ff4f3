import PhpTree.Proofs.Descent
import PhpTree.Proofs.Onward

/-! # Where nodes belong

Every slot of a form is a place that takes nodes of some kinds only, and some slots
must not stand empty.  `Sorted` says this of a whole tree; what is due is demanded
only of clean parses, and more can be asked of the bodies.

`Sorts survey parser cursor post`: whenever the parser has an answer, it stops at a
cursor that fits, and if that cursor is quiet, then so was the first one and `post`
holds.  No parser takes an error back, so whether a parse stays quiet is known at its
end; what was found on the way enters the postcondition of the rest as a premise. -/
set_option autoImplicit false
namespace PhpTree

/-- What is asked of a node that stands in a slot. -/
inductive Place where
  | statement
  | method
  | expr
  /-- What is called, accessed or named by a variable: an expression or a bare name. -/
  | operand
  | name
  | typeName
  | type
  /-- What `new` makes an instance of. -/
  | instantiated
  | «variable»
  /-- What is accessed by its name or by a variable. -/
  | member
  | parameter
  | capture
  | argument
  | namePart
  | identifier
deriving DecidableEq

namespace Form

variable {α : Type}

def isIdentifier : Form α → Bool
  | .leaf .identifier _ => true
  | _ => false

def isName : Form α → Bool
  | .name _ (_ :: _) => true
  | _ => false

def isVariable : Form α → Bool
  | .variableRef _ => true
  | _ => false

end Form

namespace Place

variable {α : Type}

/-- The forms that may stand in a place. -/
def admits : Place → Form α → Bool
  | .statement, form =>
    match form with
    | .expression _ | .stmtList _ | .function .. | .classDecl _ _ [] .. | .throwStmt _ |
      .returnStmt _ | .echo _ => true
    | _ => false
  | .method, form =>
    match form with
    | .classMethod .. => true
    | _ => false
  | .expr, form => form.isExpr || form.isIdentifier
  | .operand, form => form.isExpr || form.isIdentifier || form.isName
  | .name, form => form.isName
  | .typeName, form => form.isName || form.isIdentifier
  | .type, form =>
    match form with
    | .nullable _ => true
    | form => form.isName || form.isIdentifier
  | .instantiated, form =>
    match form with
    | .classDecl none [] .. => true
    | form => form.isName || form.isIdentifier || form.isVariable
  | .variable, form => form.isVariable
  | .member, form => form.isIdentifier || form.isVariable
  | .parameter, form =>
    match form with
    | .parameter .. => true
    | _ => false
  | .capture, form =>
    match form with
    | .closureUse _ => true
    | _ => false
  | .argument, form =>
    match form with
    | .argument _ => true
    | _ => false
  | .namePart, form =>
    match form with
    | .leaf .namePart _ => true
    | _ => false
  | .identifier, form => form.isIdentifier

/-- The slots that may stand empty. A class lacks its name only where it is instantiated. -/
def mayLack (place : Place) : Form α → Slot → Bool
  | .returnStmt _, .expr => true
  | .classDecl .., .className => place == .instantiated
  | _, .variableType | _, .defaultValue | _, .returnType | _, .extends => true
  | _, _ => false

end Place

/-- Of the lists only that of an `echo` must not be empty. -/
def Slot.isFilledBy {α : Type} : Slot → Field α → Bool
  | .exprs, .list nodes => !nodes.isEmpty
  | _, field => field.isFilled

def Place.isFilledBy {α : Type} (place : Place) (form : Form α) : Bool :=
  form.fields.all fun field => field.1.isFilledBy field.2 || place.mayLack form field.1

/-- The places of a form. -/
def Form.place {α : Type} : Form α → Slot → Place
  | .classDecl .., .stmts => .method
  | _, .stmts => .statement
  | .nullable _, .expr => .typeName
  | .new .., .class => .instantiated
  | .methodCall .., .variable | .propertyFetch .., .variable | .assign .., .variable => .expr
  | _, .variable => .variable
  | .staticPropertyFetch .., .property => .variable
  | _, .expr | _, .exprs | _, .expression | _, .defaultValue => .expr
  | _, .class | _, .function | _, .varName => .operand
  | _, .method | _, .call | _, .property => .member
  | _, .constant | _, .extends | _, .implements => .name
  | _, .variableType | _, .returnType => .type
  | _, .params => .parameter
  | _, .uses => .capture
  | _, .arguments | _, .args => .argument
  | _, .parts => .namePart
  | _, .constantName | _, .functionName | _, .className | _, .methodName | _, .modifiers =>
    .identifier

/-- Elements of a body. Comments that stand before them are attached to no other nodes. -/
def Place.isElement : Place → Bool
  | .statement | .method => true
  | _ => false

/-- What a tour through the parses of one source is about: the cursors it may come by, whether it
ends without errors, and what is asked of the bodies it finds and of what nodes carry. -/
structure Survey where
  context : Context
  clean : Prop
  fits : Cursor → Prop
  fits_step : ∀ {before after : Cursor}, Cursor.Step context before after → fits before → fits after
  body : Place → List Node → Prop
  body_nil : ∀ place, body place []
  carries : (isElement : Bool) → Attributes → Prop
  carries_plain : ∀ isElement {attributes : Attributes}, attributes.docComment = none →
    attributes.comments = [] → carries isElement attributes
  /-- A doc comment is taken from the cursor. -/
  carries_doc : ∀ isElement {cursor : Cursor} {attributes : Attributes}, fits cursor →
    attributes.docComment = none → attributes.comments = [] →
      carries isElement (attributes.withDocComment cursor.pendingDoc)
  carries_comments : ∀ {attributes : Attributes} (comments : List Comment),
    carries true attributes → carries true (attributes.prependComments comments)

def Survey.plain (context : Context) (clean : Prop) : Survey where
  context
  clean
  fits _ := True
  fits_step _ _ := trivial
  body _ _ := True
  body_nil _ := trivial
  carries _ _ := True
  carries_plain _ _ _ _ := trivial
  carries_doc _ _ _ _ _ _ := trivial
  carries_comments _ _ := trivial

def Survey.Grants (survey : Survey) (doc : Option String) : Prop :=
  ∀ {isElement : Bool} {attributes : Attributes}, attributes.docComment = none →
    attributes.comments = [] → survey.carries isElement (attributes.withDocComment doc)

/-- A tree with its nodes where they belong. -/
inductive Sorted (survey : Survey) : Place → Node → Prop where
  | node {place : Place} {node : Node} (admitted : place.admits node.form = true)
      (filled : survey.clean → place.isFilledBy node.form = true)
      (carried : survey.carries place.isElement node.attributes)
      (bodies : ∀ stmts, (Slot.stmts, Field.list stmts) ∈ node.form.fields →
        survey.body (node.form.place .stmts) stmts)
      (children : ∀ field ∈ node.form.fields, ∀ child ∈ field.2.toList,
        Sorted survey (node.form.place field.1) child) : Sorted survey place node

namespace Sorted

variable {survey : Survey} {place : Place} {node : Node}

theorem admitted (sorted : Sorted survey place node) : place.admits node.form = true := by
  cases sorted
  assumption

theorem filled (sorted : Sorted survey place node) (clean : survey.clean) :
    place.isFilledBy node.form = true := by
  cases sorted with
  | node admitted filled carried bodies children => exact filled clean

theorem carried (sorted : Sorted survey place node) :
    survey.carries place.isElement node.attributes := by
  cases sorted
  assumption

theorem child (sorted : Sorted survey place node) {field : Slot × Field Node}
    (inForm : field ∈ node.form.fields) {child : Node} (inField : child ∈ field.2.toList) :
    Sorted survey (node.form.place field.1) child := by
  cases sorted with
  | node admitted filled carried bodies children => exact children field inForm child inField

theorem body (sorted : Sorted survey place node) {stmts : List Node}
    (listed : (Slot.stmts, Field.list stmts) ∈ node.form.fields) :
    survey.body (node.form.place .stmts) stmts := by
  cases sorted with
  | node admitted filled carried bodies children => exact bodies stmts listed

theorem prependComments (sorted : Sorted survey place node) (isElement : place.isElement = true)
    (comments : List Comment) :
    Sorted survey place
      (node.modifyAttributes fun attributes => attributes.prependComments comments) := by
  cases sorted with
  | node admitted filled carried bodies children =>
      rw [isElement] at carried
      refine .node admitted filled ?_ bodies children
      rw [isElement]
      exact survey.carries_comments comments carried

theorem operand (sorted : Sorted survey .expr node) : Sorted survey .operand node := by
  cases sorted with
  | node admitted filled carried bodies children =>
      refine .node ?_ filled carried bodies children
      simpa [Place.admits] using Or.inl admitted

end Sorted

/-! ## Putting nodes together -/

/-- What is due was found, or an error was recorded. -/
def Due (survey : Survey) (place : Place) : Option Node → Prop
  | some node => Sorted survey place node
  | none => ¬ survey.clean

/-- What may be missing is right when it was found. -/
def Allowed (survey : Survey) (place : Place) (found : Option Node) : Prop :=
  ∀ node ∈ found, Sorted survey place node

def Listed (survey : Survey) (place : Place) (nodes : List Node) : Prop :=
  ∀ node ∈ nodes, Sorted survey place node

theorem Due.allowed {survey : Survey} {place : Place} {found : Option Node}
    (due : Due survey place found) : Allowed survey place found := by
  rintro node ⟨⟩
  exact due

theorem Allowed.some {survey : Survey} {place : Place} {node : Node}
    (sorted : Sorted survey place node) : Allowed survey place (some node) := by
  rintro other ⟨⟩
  exact sorted

theorem Allowed.none {survey : Survey} {place : Place} : Allowed survey place none := by
  rintro node ⟨⟩

/-- What is asked of a slot before a node is put together. -/
def Belongs (survey : Survey) (place : Place) (form : Form Node) : Slot × Field Node → Prop
  | (slot, .single child) =>
    match place.mayLack form slot with
    | true => Allowed survey (form.place slot) child
    | false => Due survey (form.place slot) child
  | (.exprs, .list nodes) =>
    Listed survey (form.place .exprs) nodes ∧ (nodes = [] → ¬ survey.clean)
  | (.stmts, .list nodes) =>
    Listed survey (form.place .stmts) nodes ∧ survey.body (form.place .stmts) nodes
  | (slot, .list nodes) => Listed survey (form.place slot) nodes

def AllBelong (survey : Survey) (place : Place) (form : Form Node) :
    List (Slot × Field Node) → Prop
  | [] => True
  | [field] => Belongs survey place form field
  | field :: next :: rest =>
    Belongs survey place form field ∧ AllBelong survey place form (next :: rest)

theorem AllBelong.of_mem {survey : Survey} {place : Place} {form : Form Node}
    {fields : List (Slot × Field Node)} (all : AllBelong survey place form fields)
    {field : Slot × Field Node} (member : field ∈ fields) : Belongs survey place form field :=
  forall_mem_of_spelled (fun _ only => only) (fun _ _ _ parts => parts) all field member

namespace Belongs

variable {survey : Survey} {place : Place} {form : Form Node} {slot : Slot} {field : Field Node}

theorem children (belongs : Belongs survey place form (slot, field)) :
    ∀ child ∈ field.toList, Sorted survey (form.place slot) child := by
  intro child member
  cases field with
  | single only =>
      obtain rfl : only = some child := by simpa [Field.toList] using member
      cases lack : place.mayLack form slot with
      | true =>
          simp only [Belongs, lack] at belongs
          exact belongs child rfl
      | false =>
          simp only [Belongs, lack] at belongs
          exact belongs
  | list nodes =>
      unfold Belongs at belongs
      split at belongs <;> simp_all [Listed, Field.toList]

theorem filled (belongs : Belongs survey place form (slot, field)) (clean : survey.clean) :
    (slot.isFilledBy field || place.mayLack form slot) = true := by
  cases field with
  | single only =>
      cases lack : place.mayLack form slot with
      | true => exact Bool.or_true _
      | false =>
          simp only [Belongs, lack] at belongs
          cases only with
          | none => exact absurd clean belongs
          | some node => simp [Slot.isFilledBy, Field.isFilled]
  | list nodes =>
      unfold Belongs at belongs
      split at belongs <;> simp_all [Slot.isFilledBy, Field.isFilled]

theorem body {nodes : List Node} (belongs : Belongs survey place form (.stmts, .list nodes)) :
    survey.body (form.place .stmts) nodes := belongs.2

end Belongs

namespace Sorted

variable {survey : Survey} {place : Place} {node : Node}

theorem of_carrying {form : Form Node} (shape : node.form = form)
    (admitted : place.admits form = true) (all : AllBelong survey place form form.fields)
    (carried : survey.carries place.isElement node.attributes) : Sorted survey place node := by
  subst shape
  refine .node admitted (fun clean => ?_) carried (fun stmts member => ?_) (fun field member => ?_)
  · exact List.all_eq_true.mpr fun field member => (all.of_mem member).filled clean
  · exact (all.of_mem member).body
  · exact (all.of_mem member).children

theorem of_fields {form : Form Node}
    (plain : (node.form, node.attributes.docComment, node.attributes.comments) = (form, none, []))
    (admitted : place.admits form = true) (all : AllBelong survey place form form.fields) :
    Sorted survey place node := by
  obtain ⟨shape, undocumented, uncommented⟩ :
      node.form = form ∧ node.attributes.docComment = none ∧ node.attributes.comments = [] := by
    simpa using plain
  exact .of_carrying shape admitted all (survey.carries_plain _ undocumented uncommented)

/-- Every node of a sorted tree is sorted, wherever it stands. -/
theorem exists_of_mem (inner : Node) :
    ∀ {place : Place}, Sorted survey place node → inner ∈ node.nodes →
      ∃ place, Sorted survey place inner := by
  induction node using Node.induction with
  | step node inductionHypothesis =>
      intro place sorted member
      rcases Node.mem_nodes.mp member with rfl | ⟨child, inside, below⟩
      · exact ⟨place, sorted⟩
      · obtain ⟨field, inForm, inField⟩ := List.mem_flatMap.mp inside
        exact inductionHypothesis child inside (sorted.child inForm inField) below

end Sorted

/-! ## Moves -/

namespace Survey

/-- No error is on record where the parse is to end without any. -/
def quiet (survey : Survey) (cursor : Cursor) : Prop := survey.clean → cursor.errors = []

/-- What every parser does to the cursor. -/
structure KeepsSurvey (survey : Survey) (before after : Cursor) : Prop where
  fits : survey.fits before → survey.fits after
  quiet : survey.quiet after → survey.quiet before

variable {survey : Survey}

theorem quiet_of_suffix {before after : Cursor} (grows : before.errors <:+ after.errors)
    (quiet : survey.quiet after) : survey.quiet before :=
  fun clean => List.suffix_nil.mp (quiet clean ▸ grows)

theorem not_clean_of_record {cursor : Cursor} {error : ParseError}
    (quiet : survey.quiet (cursor.record error)) : ¬ survey.clean :=
  fun clean => cursor.record_errors_ne_nil error (quiet clean)

namespace KeepsSurvey

theorem trans {before middle after : Cursor} (first : survey.KeepsSurvey before middle)
    (second : survey.KeepsSurvey middle after) : survey.KeepsSurvey before after :=
  ⟨second.fits ∘ first.fits, first.quiet ∘ second.quiet⟩

theorem refl (cursor : Cursor) : survey.KeepsSurvey cursor cursor := ⟨id, id⟩

theorem step {before after : Cursor} (step : before.Step survey.context after) :
    survey.KeepsSurvey before after :=
  ⟨survey.fits_step step, quiet_of_suffix step.onward.errors⟩

theorem advance (cursor : Cursor) : survey.KeepsSurvey cursor (cursor.advance survey.context) :=
  step .advance

theorem report (cursor : Cursor) (expected : Expected) :
    survey.KeepsSurvey cursor (cursor.report survey.context expected) :=
  step (.report expected)

theorem clearDoc (cursor : Cursor) : survey.KeepsSurvey cursor cursor.clearDoc := step .clearDoc

theorem note (cursor : Cursor) (entry : JournalEntry) : survey.KeepsSurvey cursor
    (cursor.note entry) :=
  step (.note entry)

theorem lasts (cursor : Cursor) : Cursor.HoldsThroughout survey.context
    (survey.KeepsSurvey cursor) where
  advance moves := moves.trans (advance _)
  note entry moves := moves.trans (note _ entry)
  clearDoc moves := moves.trans (clearDoc _)

theorem skipToStatementEnd (cursor : Cursor) :
    survey.KeepsSurvey cursor (cursor.skipToStatementEnd survey.context) :=
  (lasts cursor).skipToStatementEnd (refl cursor)

theorem skipStatement (cursor : Cursor) :
    survey.KeepsSurvey cursor (cursor.skipStatement survey.context) :=
  (lasts cursor).skipStatement (refl cursor)

end KeepsSurvey
end Survey

/-! ## Rules -/

/-- What is so at the end of a run that stayed quiet. -/
def Survey.Finds {α : Type} (survey : Survey) (parser : Parse α) (cursor : Cursor)
    (post : α → Cursor → Prop) : Prop :=
  ∀ {answer : α} {after : Cursor}, parser survey.context cursor = some (answer, after) →
    survey.fits cursor → survey.quiet after → post answer after

structure Sorts {α : Type} (survey : Survey) (parser : Parse α) (cursor : Cursor)
    (post : α → Cursor → Prop) : Prop where
  moves : ∀ {answer : α} {after : Cursor}, parser survey.context cursor = some (answer, after) →
    survey.KeepsSurvey cursor after
  finds : survey.Finds parser cursor post

namespace Sorts
open Parse

variable {α β : Type} {survey : Survey} {cursor : Cursor}

theorem mono {parser : Parse α} {post weaker : α → Cursor → Prop}
    (sorts : Sorts survey parser cursor post)
    (weaken : ∀ answer after, post answer after → weaker answer after) :
    Sorts survey parser cursor weaker :=
  ⟨sorts.moves, fun run fits quiet => weaken _ _ (sorts.finds run fits quiet)⟩

theorem and {parser : Parse α} {post other : α → Cursor → Prop}
    (sorts : Sorts survey parser cursor post) (also : survey.Finds parser cursor other) :
    Sorts survey parser cursor fun answer after => post answer after ∧ other answer after :=
  ⟨sorts.moves, fun run fits quiet => ⟨sorts.finds run fits quiet, also run fits quiet⟩⟩

/-- That the first cursor fits can be used for what is so at the end. -/
theorem given {parser : Parse α} {post : α → Cursor → Prop}
    (sorts : Sorts survey parser cursor fun answer after =>
      survey.fits cursor → post answer after) :
    Sorts survey parser cursor post :=
  ⟨sorts.moves, fun run fits quiet => sorts.finds run fits quiet fits⟩

theorem lands {parser : Parse α} {post : α → Cursor → Prop}
    (sorts : Sorts survey parser cursor post) :
    Sorts survey parser cursor fun answer after => post answer after ∧ survey.fits after :=
  ⟨sorts.moves, fun run fits quiet => ⟨sorts.finds run fits quiet, (sorts.moves run).fits fits⟩⟩

theorem of_runs {parser : Parse α} {post : α → Cursor → Prop}
    (runs : ∀ {answer : α} {after : Cursor},
      parser survey.context cursor = some (answer, after) →
        survey.KeepsSurvey cursor after ∧
          (survey.fits cursor → survey.quiet after → post answer after)) :
    Sorts survey parser cursor post :=
  ⟨fun run => (runs run).1, fun run => (runs run).2⟩

/-- A parser that has one answer for sure. -/
theorem done {parser : Parse α} {post : α → Cursor → Prop} {answer : α} {after : Cursor}
    (run : parser survey.context cursor = some (answer, after))
    (moves : survey.KeepsSurvey cursor after)
    (holds : survey.quiet after → post answer after) : Sorts survey parser cursor post := by
  apply of_runs
  intro other stop otherRun
  rw [run] at otherRun
  cases otherRun
  exact ⟨moves, fun _ => holds⟩

theorem pure {post : α → Cursor → Prop} {answer : α} (holds : post answer cursor) :
    Sorts survey (Pure.pure answer) cursor post :=
  done rfl (.refl cursor) fun _ => holds

theorem bind {parser : Parse α} {next : α → Parse β} {middle : α → Cursor → Prop}
    {post : β → Cursor → Prop} (first : Sorts survey parser cursor middle)
    (rest : ∀ answer between, Sorts survey (next answer) between fun last after =>
      middle answer between → post last after) :
    Sorts survey (parser >>= next) cursor post := by
  apply of_runs
  intro last after run
  have unfolded : (parser survey.context cursor).bind (fun result =>
      next result.1 survey.context result.2) = some (last, after) := run
  obtain ⟨⟨answer, between⟩, firstRun, restRun⟩ := Option.bind_eq_some_iff.mp unfolded
  have firstMoves := first.moves firstRun
  have restMoves := (rest answer between).moves restRun
  refine ⟨firstMoves.trans restMoves, fun fits quiet => ?_⟩
  have found := first.finds firstRun fits (restMoves.quiet quiet)
  exact (rest answer between).finds restRun (firstMoves.fits fits) quiet found

theorem skip {parser : Parse α} {next : α → Parse β} {middle : α → Cursor → Prop}
    {post : β → Cursor → Prop} (first : Sorts survey parser cursor middle)
    (rest : ∀ answer between, Sorts survey (next answer) between post) :
    Sorts survey (parser >>= next) cursor post :=
  bind first fun answer between => (rest answer between).mono fun _ _ holds _ => holds

theorem map {parser : Parse α} {change : α → β} {post : β → Cursor → Prop}
    (sorts : Sorts survey parser cursor fun answer after => post (change answer) after) :
    Sorts survey (change <$> parser) cursor post :=
  bind sorts fun _ _ => pure id

theorem ite {condition : Prop} [Decidable condition] {first second : Parse α}
    {post : α → Cursor → Prop} (whenTrue : condition → Sorts survey first cursor post)
    (whenFalse : ¬ condition → Sorts survey second cursor post) :
    Sorts survey (if condition then first else second) cursor post := by
  by_cases holds : condition
  · rw [if_pos holds]
    exact whenTrue holds
  · rw [if_neg holds]
    exact whenFalse holds

/-! Primitive parsers in front of a continuation. -/

section Continuation
variable {post : α → Cursor → Prop}

theorem step {parser : Parse β} {next : β → Parse α} {answer : β} {between : Cursor}
    (run : parser survey.context cursor = some (answer, between))
    (moves : survey.KeepsSurvey cursor between)
    (rest : Sorts survey (next answer) between fun last after =>
      survey.quiet between → post last after) :
    Sorts survey (parser >>= next) cursor post := by
  apply of_runs
  intro last after both
  have restRun : (parser survey.context cursor).bind (fun result =>
      next result.1 survey.context result.2) = some (last, after) := both
  rw [run] at restRun
  have restMoves := rest.moves restRun
  refine ⟨moves.trans restMoves, fun fits quiet => ?_⟩
  exact rest.finds restRun (moves.fits fits) quiet (restMoves.quiet quiet)

theorem pass {parser : Parse β} {next : β → Parse α} {answer : β} {between : Cursor}
    (run : parser survey.context cursor = some (answer, between))
    (moves : survey.KeepsSurvey cursor between) (rest : Sorts survey (next answer) between post) :
    Sorts survey (parser >>= next) cursor post :=
  step run moves (rest.mono fun _ _ holds _ => holds)

theorem kind {next : TokenKind → Parse α} (rest : Sorts survey (next cursor.kind) cursor post) :
    Sorts survey (Parse.kind >>= next) cursor post :=
  pass rfl (.refl cursor) rest

theorem nextKind {next : TokenKind → Parse α}
    (rest : Sorts survey (next cursor.nextKind) cursor post) :
    Sorts survey (Parse.nextKind >>= next) cursor post :=
  pass rfl (.refl cursor) rest

theorem start {next : Nat → Parse α} (rest : Sorts survey (next cursor.start) cursor post) :
    Sorts survey (Parse.start >>= next) cursor post :=
  pass rfl (.refl cursor) rest

theorem advance {next : Unit → Parse α}
    (rest : Sorts survey (next ()) (cursor.advance survey.context) post) :
    Sorts survey (Parse.advance >>= next) cursor post :=
  pass rfl (.advance cursor) rest

theorem report {expected : Expected} {next : Unit → Parse α}
    (rest : Sorts survey (next ()) (cursor.report survey.context expected) fun last after =>
      ¬ survey.clean → post last after) :
    Sorts survey (Parse.report expected >>= next) cursor post :=
  step rfl (.report cursor _) <| rest.mono fun _ _ holds quiet =>
    holds (Survey.not_clean_of_record quiet)

theorem clearDoc {next : Unit → Parse α} (rest : Sorts survey (next ()) cursor.clearDoc post) :
    Sorts survey (Parse.clearDoc >>= next) cursor post :=
  pass rfl (.clearDoc cursor) rest

theorem takeDoc {next : Option String → Parse α}
    (rest : Sorts survey (next cursor.pendingDoc) cursor.clearDoc post) :
    Sorts survey (Parse.takeDoc >>= next) cursor post :=
  pass rfl (.clearDoc cursor) rest

/-- A run that takes the doc comment goes on where nothing waits. -/
theorem run_takeDoc {next : Option String → Parse α} {answer : α} {after : Cursor}
    (run : (Parse.takeDoc >>= next) survey.context cursor = some (answer, after))
    (fits : survey.fits cursor.clearDoc) (quiet : survey.quiet after)
    (rest : Sorts survey (next cursor.pendingDoc) cursor.clearDoc post) : post answer after :=
  rest.finds run fits quiet

theorem takeComments {next : List Comment → Parse α}
    (rest : Sorts survey (next (cursor.comments survey.context)) cursor.dropComments post) :
    Sorts survey (Parse.takeComments >>= next) cursor post :=
  pass rfl (.step .dropComments) rest

theorem finish {start : Nat} {node : Node} {next : Node → Parse α}
    (rest : Sorts survey
      (next (node.withPosition (cursor.positionFrom survey.context start))) cursor post) :
    Sorts survey (Parse.finish start node >>= next) cursor post :=
  pass rfl (.refl cursor) rest

theorem leaf {kind : LeafKind} {next : Node → Parse α}
    (rest : Sorts survey
      (next ((Node.leaf kind cursor.current.token.text).withPosition
        (cursor.position survey.context)))
      (cursor.advance survey.context) post) :
    Sorts survey (Parse.leaf kind >>= next) cursor post :=
  pass rfl (.advance cursor) rest

theorem skipToStatementEnd {next : Unit → Parse α}
    (rest : Sorts survey (next ()) (cursor.skipToStatementEnd survey.context) post) :
    Sorts survey (Parse.modify Cursor.skipToStatementEnd >>= next) cursor post :=
  pass rfl (.skipToStatementEnd cursor) rest

theorem eat {wanted : TokenKind} {next : Bool → Parse α}
    (found : cursor.kind = wanted →
      Sorts survey (next true) (cursor.advance survey.context) post)
    (missing : cursor.kind ≠ wanted → Sorts survey (next false) cursor post) :
    Sorts survey (Parse.eat wanted >>= next) cursor post := by
  by_cases same : cursor.kind = wanted
  · exact pass (eat_of_eq same) (.advance cursor) (found same)
  · exact pass (eat_of_ne same) (.refl cursor) (missing same)

theorem expect {wanted : TokenKind} {expected : Expected} {next : Bool → Parse α}
    (found : cursor.kind = wanted →
      Sorts survey (next true) (cursor.advance survey.context) post)
    (missing : cursor.kind ≠ wanted →
      Sorts survey (next false) (cursor.report survey.context expected) fun last after =>
        ¬ survey.clean → post last after) :
    Sorts survey (Parse.expect wanted expected >>= next) cursor post := by
  by_cases same : cursor.kind = wanted
  · exact pass (expect_of_eq expected same) (.advance cursor) (found same)
  · refine step (expect_of_ne expected same) (.report cursor _) ?_
    exact (missing same).mono fun _ _ holds quiet => holds (Survey.not_clean_of_record quiet)

theorem eatAny {wanted : TokenKind} {next : Bool → Parse α}
    (rest : ∀ found between, Sorts survey (next found) between post) :
    Sorts survey (Parse.eat wanted >>= next) cursor post :=
  eat (fun _ => rest _ _) (fun _ => rest _ _)

theorem expectAny {wanted : TokenKind} {expected : Expected} {next : Bool → Parse α}
    (rest : ∀ found between, Sorts survey (next found) between post) :
    Sorts survey (Parse.expect wanted expected >>= next) cursor post :=
  expect (fun _ => rest _ _) (fun _ => (rest _ _).mono fun _ _ holds _ => holds)

end Continuation

theorem finished {start : Nat} {node : Node} {post : Node → Cursor → Prop}
    (holds : post (node.withPosition (cursor.positionFrom survey.context start)) cursor) :
    Sorts survey (Parse.finish start node) cursor post :=
  done rfl (.refl cursor) fun _ => holds

theorem someLeaf {kind : LeafKind} {post : Option Node → Cursor → Prop}
    (holds : post (some ((Node.leaf kind cursor.current.token.text).withPosition
      (cursor.position survey.context))) (cursor.advance survey.context)) :
    Sorts survey (some <$> Parse.leaf kind) cursor post :=
  done rfl (.advance cursor) fun _ => holds

theorem deeper {refused parser : Parse α} {post : α → Cursor → Prop}
    (declines : Sorts survey refused (cursor.reportTooDeep survey.context) fun answer after =>
      ¬ survey.clean → post answer after)
    (enters : Sorts survey parser { cursor with depth := cursor.depth + 1 } fun answer after =>
      post answer { after with depth := after.depth - 1 }) :
    Sorts survey (Parse.deeper refused parser) cursor post := by
  apply of_runs
  intro answer after run
  by_cases full : survey.context.options.maxDepth ≤ cursor.depth
  · rw [deeper_of_full full] at run
    have moves := declines.moves run
    have reported : survey.KeepsSurvey cursor (cursor.reportTooDeep survey.context) :=
      .step .reportTooDeep
    refine ⟨reported.trans moves, fun fits quiet => ?_⟩
    exact declines.finds run (reported.fits fits) quiet
      (Survey.not_clean_of_record (moves.quiet quiet))
  · rw [deeper_of_room (Nat.lt_of_not_le full)] at run
    obtain ⟨⟨inner, stopped⟩, innerRun, result⟩ := Option.map_eq_some_iff.mp run
    obtain ⟨rfl, rfl⟩ := Prod.mk.inj result
    have entered : survey.KeepsSurvey cursor { cursor with depth := cursor.depth + 1 } :=
      .step (.nest _)
    refine ⟨(entered.trans (enters.moves innerRun)).trans (.step (.nest _)),
      fun fits quiet => ?_⟩
    exact enters.finds innerRun (entered.fits fits) quiet

/-! Loops. -/

theorem loop {step : α → Parse (α × Bool)} {invariant final : α → Cursor → Prop}
    (round : ∀ value cursor, Sorts survey (step value) cursor fun answer after =>
      invariant value cursor →
        (answer.2 = true → invariant answer.1 after) ∧ (answer.2 = false → final answer.1 after))
    (fuel : Nat) : ∀ value cursor, Sorts survey (Parse.loop step fuel value) cursor
      fun answer after => invariant value cursor → final answer after := by
  induction fuel with
  | zero =>
      intro value cursor
      apply of_runs
      intro answer after run
      cases run
  | succ fuel inductionHypothesis =>
      intro value cursor
      apply of_runs
      intro answer after run
      simp only [Parse.loop] at run
      cases stepRun : step value survey.context cursor with
      | none => simp [stepRun] at run
      | some result =>
          obtain ⟨⟨next, continues⟩, between⟩ := result
          have firstMoves := (round value cursor).moves stepRun
          have found := (round value cursor).finds stepRun
          rw [stepRun] at run
          cases continues with
          | false =>
              cases run
              exact ⟨firstMoves, fun fits quiet holds => (found fits quiet holds).2 rfl⟩
          | true =>
              have restMoves := (inductionHypothesis next between).moves run
              refine ⟨firstMoves.trans restMoves, fun fits quiet holds => ?_⟩
              refine (inductionHypothesis next between).finds run (firstMoves.fits fits) quiet ?_
              exact (found fits (restMoves.quiet quiet) holds).1 rfl

theorem collect {round : Parse (Option α × Bool)} {invariant final : List α → Cursor → Prop}
    (collects : ∀ found cursor, Sorts survey round cursor fun answer after =>
      invariant found cursor →
        (answer.2 = true → invariant (found ++ answer.1.toList) after) ∧
        (answer.2 = false → final (found ++ answer.1.toList) after))
    (fuel : Nat) : Sorts survey (Parse.collect fuel round) cursor fun found after =>
      invariant [] cursor → final found after := by
  have step : ∀ found cursor, Sorts survey (collectStep round found) cursor fun answer after =>
      invariant found.reverse cursor →
        (answer.2 = true → invariant answer.1.reverse after) ∧
        (answer.2 = false → final answer.1.reverse after) := by
    intro found cursor
    refine bind (collects found.reverse cursor) ?_
    rintro ⟨item, continues⟩ between
    have reversed : (item.toList ++ found).reverse = found.reverse ++ item.toList := by
      cases item <;> simp
    refine pure fun collected holds => ?_
    simpa only [reversed] using collected holds
  have looped := @loop (List α) survey (collectStep round) (fun found => invariant found.reverse)
    (fun found => final found.reverse) step fuel [] cursor
  exact bind looped fun found after => pure id

theorem collect_all {round : Parse (Option α × Bool)} {holds : α → Prop}
    (each : ∀ cursor, Sorts survey round cursor fun answer _ => ∀ item ∈ answer.1, holds item)
    (fuel : Nat) : Sorts survey (Parse.collect fuel round) cursor fun found _ =>
      ∀ item ∈ found, holds item := by
  have collects : ∀ (found : List α) (cursor : Cursor), Sorts survey round cursor
      fun answer _ => (∀ item ∈ found, holds item) →
        (answer.2 = true → ∀ item ∈ found ++ answer.1.toList, holds item) ∧
        (answer.2 = false → ∀ item ∈ found ++ answer.1.toList, holds item) := by
    intro found cursor
    refine (each cursor).mono fun answer after given before => ?_
    have both : ∀ item ∈ found ++ answer.1.toList, holds item := by
      simpa [or_imp, forall_and] using ⟨before, given⟩
    exact ⟨fun _ => both, fun _ => both⟩
  exact (collect collects fuel).mono fun found after all => all (by simp)

end Sorts
end PhpTree
