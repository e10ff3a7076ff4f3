import Mathlib.Logic.Relation
import PhpTree.Proofs.Elements
import PhpTree.Proofs.Heights

/-! # How a parse builds its nodes

A parser takes nodes that were built before it and leaves others.  What it does in
between is steps of the cursor, levels that are entered and left again, and nodes put
together from all parts that were built for them.  `BuildsParts` says so of two cursors of
one parse: a node that carries a doc comment has taken the one that waited where it
was claimed, and no other node carries one.  A property of trees follows by induction
on how they were built, whatever productions there are. -/
set_option autoImplicit false
namespace PhpTree

/-! ## Parts -/

/-- A statement of a body; the members of a class are not counted. -/
def Form.holdsStatements {α : Type} : Form α → Slot → Bool
  | .stmtList .., .stmts | .function .., .stmts | .classMethod .., .stmts | .closure .., .stmts =>
    true
  | _, _ => false

def Form.holdsExpression {α : Type} : Form α → Slot → Bool
  | .assign .., .expression | .parameter .., .defaultValue | .echo .., .exprs |
    .argument .., .expr | .throwStmt .., .expr | .returnStmt .., .expr => true
  | _, _ => false

def Form.opensLevel {α : Type} (form : Form α) (slot : Slot) : Bool :=
  form.holdsStatements slot || form.holdsExpression slot

/-- How a node stands to the level of the node around it. Of a node on the same level it is known
how many nodes lie at most from it down to where the next level begins. -/
inductive Level where
  | same (rank : Nat)
  | deeper

/-- A node that waits for the node around it. -/
structure Part where
  node : Node
  level : Level

namespace Part

def mark (level : Level) (nodes : List Node) : List Part := nodes.map fun node => ⟨node, level⟩

abbrev here (rank : Nat) (nodes : List Node) : List Part := mark (.same rank) nodes

abbrev below (nodes : List Node) : List Part := mark .deeper nodes

@[simp]
theorem mark_nil (level : Level) : mark level [] = [] := rfl

@[simp]
theorem mark_append (level : Level) (nodes more : List Node) :
    mark level (nodes ++ more) = mark level nodes ++ mark level more := by
  simp [mark]

end Part

def Place.rank : Place → Nat
  | .namePart => 1
  | .identifier | .name | .typeName | .variable | .member => 2
  | .type | .capture => 3
  | .parameter | .argument => 4
  | .method => 5
  | .statement | .instantiated => 6
  | .expr | .operand => 7

namespace Form

/-- A variable is named by a word or by an expression, so the rank of its name is left open. Of the
expressions only closures are evaluated on the level of their statement. -/
def slotLevel {α : Type} (naming : Nat) (form : Form α) (slot : Slot) : Level :=
  if form.opensLevel slot then .deeper
  else
    match form with
    | .variableRef _ => .same naming
    | .expression _ => .same 5
    | _ => .same (form.place slot).rank

def rank {α : Type} (naming : Nat) : Form α → Nat
  | .leaf .. => 1
  | .name .. => 2
  | .variableRef _ => naming + 1
  | .nullable _ | .constFetch _ | .closureUse _ => 3
  | .argument _ | .parameter .. => 4
  | .stmtList _ | .echo _ | .throwStmt _ | .returnStmt _ => 4
  | .closure .. | .function .. | .classMethod .. => 5
  | .classDecl .. | .expression _ => 6
  | .new .. | .functionCall .. | .methodCall .. | .staticCall .. | .propertyFetch .. |
    .staticPropertyFetch .. | .classConstFetch .. => 7
  | .assign .. => 8

def parts (naming : Nat) (form : Form Node) : List Part :=
  form.fields.foldl (fun parts field =>
    parts ++ Part.mark (form.slotLevel naming field.1) field.2.toList) []

theorem parts_eq (naming : Nat) (form : Form Node) :
    form.parts naming = form.fields.flatMap fun field =>
      Part.mark (form.slotLevel naming field.1) field.2.toList :=
  (List.flatMap_eq_foldl ..).symm

theorem map_node_parts (naming : Nat) (form : Form Node) :
    (form.parts naming).map Part.node = form.children := by
  simp [parts_eq, children, Part.mark, List.map_flatMap, Function.comp_def]

end Form

/-! ## Doc comments -/

def Cursor.Passes (accepts : TokenKind → Bool) (before after : Cursor) : Prop :=
  ∃ passed, before.tokens = passed ++ after.tokens ∧ ∀ token ∈ passed, accepts token.kind = true

namespace Cursor.Passes

variable {accepts : TokenKind → Bool} {before after : Cursor}

theorem refl (cursor : Cursor) : cursor.Passes accepts cursor := ⟨[], rfl, by simp⟩

theorem advance (context : Context) (passes : before.Passes accepts after)
    (accepted : accepts after.kind = true) : before.Passes accepts (after.advance context) := by
  obtain ⟨passed, ahead, all⟩ := passes
  cases following : after.following with
  | nil =>
      have stays : (after.advance context).tokens = after.tokens := by
        simp [Cursor.tokens, Cursor.advance, following]
      exact ⟨passed, by rw [stays, ahead], all⟩
  | cons item rest =>
      obtain ⟨errors, journal, equation, _⟩ := after.advance_cons context item rest following
      refine ⟨passed ++ [after.current.token], ?_, ?_⟩
      · rw [ahead, equation]
        simp [Cursor.tokens, following]
      · intro token member
        rcases List.mem_append.mp member with earlier | last
        · exact all token earlier
        · obtain rfl := List.mem_singleton.mp last
          exact accepted

end Cursor.Passes

/-- Where a node that begins at one cursor claims its doc comment: where it begins, or at the
`function` of a method. Other nodes claim none. -/
def Form.Claims {α : Type} (form : Form α) (before claim : Cursor) : Prop :=
  match form with
  | .function .. | .classDecl .. | .closure .. => claim = before
  | .classMethod .. => before.Passes TokenKind.isModifier claim ∧ claim.kind = .keyword .function
  | _ => False

/-! ## Building -/

/-- From the parts given at one cursor the parts held at another are built. -/
inductive BuildsParts (context : Context) : List Part → Cursor → List Part → Cursor → Prop
  | here {given : List Part} {origin : Cursor} : BuildsParts context given origin given origin
  | steps {given held : List Part} {origin cursor after : Cursor}
      (built : BuildsParts context given origin held cursor)
      (moved : Relation.ReflTransGen (Cursor.Step context) cursor after)
      (level : after.depth = cursor.depth) : BuildsParts context given origin held after
  | drop {given held parts : List Part} {origin cursor : Cursor}
      (built : BuildsParts context given origin (held ++ parts) cursor) :
      BuildsParts context given origin held cursor
  | lower {given held : List Part} {origin cursor : Cursor} {nodes : List Node}
      (built : BuildsParts context given origin (held ++ Part.below nodes) cursor) :
      BuildsParts context given origin (held ++ Part.here 3 nodes) cursor
  | raise {given held : List Part} {origin cursor : Cursor} {nodes : List Node} {rank higher : Nat}
      (built : BuildsParts context given origin (held ++ Part.here rank nodes) cursor)
      (le : rank ≤ higher) :
        BuildsParts context given origin (held ++ Part.here higher nodes) cursor
  | deeper {given held : List Part} {origin cursor after : Cursor} {nodes : List Node}
      (built : BuildsParts context given origin held cursor)
      (room : cursor.depth < context.options.maxDepth)
      (inner : BuildsParts context [] { cursor with depth := cursor.depth + 1 } (Part.here 8 nodes)
        after) :
      BuildsParts context given origin (held ++ Part.below nodes)
        { after with depth := after.depth - 1 }
  | node {given held : List Part} {origin cursor : Cursor} {node : Node}
      (naming : Nat)
      (built : BuildsParts context given origin (held ++ node.form.parts naming) cursor)
      (plain : node.attributes.docComment = none) :
      BuildsParts context given origin (held ++ Part.here (node.form.rank naming) [node]) cursor
  | declaration {given held front parts : List Part} {origin before claim after : Cursor}
      {node : Node} (built : BuildsParts context given origin held before)
      (opening : BuildsParts context [] before front claim) (claims : node.form.Claims before claim)
      (rest : BuildsParts context [] claim.clearDoc parts after)
      (complete : (front ++ parts).Perm (node.form.parts 1))
      (doc : node.attributes.docComment = claim.pendingDoc)
      (placed : node.position = some (after.positionFrom context before.start)) :
      BuildsParts context given origin (held ++ Part.here (node.form.rank 1) [node]) after
  | commented {given held : List Part} {origin cursor : Cursor} {node : Node} {rank : Nat}
      (comments : List Comment)
      (built : BuildsParts context given origin (held ++ Part.here rank [node]) cursor) :
      BuildsParts context given origin (held ++ Part.here rank
        [node.modifyAttributes fun attributes => attributes.prependComments comments]) cursor

/-! ## Steps -/

def Survey.reached (context : Context) (origin : Cursor) : Survey where
  context
  clean := True
  fits := Relation.ReflTransGen (Cursor.Step context) origin
  fits_step step reaches := reaches.tail step
  body _ _ := True
  body_nil _ := trivial
  carries _ _ := True
  carries_plain _ _ _ _ := trivial
  carries_doc _ _ _ _ _ _ := trivial
  carries_comments _ _ := trivial

namespace BuildsParts

variable {context : Context} {given held : List Part} {origin cursor after : Cursor}

theorem step (built : BuildsParts context given origin held cursor)
    (moved : cursor.Step context after)
    (level : after.depth = cursor.depth) : BuildsParts context given origin held after :=
  built.steps (.single moved) level

theorem advance (built : BuildsParts context given origin held cursor) :
    BuildsParts context given origin held (cursor.advance context) :=
  built.step .advance (cursor.depth_advance context)

theorem report (expected : Expected) (built : BuildsParts context given origin held cursor) :
    BuildsParts context given origin held (cursor.report context expected) :=
  built.step (.report expected) (cursor.depth_record _)

theorem reportTooDeep (built : BuildsParts context given origin held cursor) :
    BuildsParts context given origin held (cursor.reportTooDeep context) :=
  built.step .reportTooDeep (cursor.depth_record _)

theorem clearDoc (built : BuildsParts context given origin held cursor) :
    BuildsParts context given origin held cursor.clearDoc :=
  built.step .clearDoc rfl

theorem dropComments (built : BuildsParts context given origin held cursor) :
    BuildsParts context given origin held cursor.dropComments :=
  built.step .dropComments rfl

theorem skipToStatementEnd (built : BuildsParts context given origin held cursor) :
    BuildsParts context given origin held (cursor.skipToStatementEnd context) :=
  built.steps ((@Survey.KeepsSurvey.skipToStatementEnd (.reached context cursor) cursor).fits .refl)
    (cursor.depth_skipToStatementEnd context)

theorem skipStatement (built : BuildsParts context given origin held cursor) :
    BuildsParts context given origin held (cursor.skipStatement context) :=
  built.steps ((@Survey.KeepsSurvey.skipStatement (.reached context cursor) cursor).fits .refl)
    (cursor.depth_skipStatement context)

/-- Levels are left as they are entered. -/
theorem depth_eq (built : BuildsParts context given origin held cursor) :
    cursor.depth = origin.depth := by
  induction built with
  | here => rfl
  | steps _ _ level inductionHypothesis => exact level.trans inductionHypothesis
  | drop _ inductionHypothesis => exact inductionHypothesis
  | lower _ inductionHypothesis => exact inductionHypothesis
  | raise _ _ inductionHypothesis => exact inductionHypothesis
  | deeper _ _ _ outerHypothesis innerHypothesis =>
      rw [← outerHypothesis]
      simp [innerHypothesis]
  | node _ _ _ inductionHypothesis => exact inductionHypothesis
  | declaration _ _ claims _ _ _ _ outerHypothesis openingHypothesis restHypothesis =>
      exact restHypothesis.trans (openingHypothesis.trans outerHypothesis)
  | commented _ _ inductionHypothesis => exact inductionHypothesis

end BuildsParts

/-! ## Parsers that build -/

/-- The parser takes the parts held last and leaves others in their place. -/
structure Assembles {α : Type} (context : Context) (taken : List Part) (parser : Parse α)
    (left : α → List Part) : Prop where
  outcome : ∀ {given held : List Part} {origin cursor : Cursor},
    BuildsParts context given origin (held ++ taken) cursor →
      RunMeets True context parser cursor fun answer after =>
        BuildsParts context given origin (held ++ left answer) after

theorem RunMeets.and {α : Type} {context : Context} {cursor : Cursor} {parser : Parse α}
    {post other : α → Cursor → Prop} (first : RunMeets True context parser cursor post)
    (second : RunMeets True context parser cursor other) :
    RunMeets True context parser cursor fun answer after =>
      post answer after ∧ other answer after :=
  .of_forall_run fun _ _ run => ⟨first.of_run run, second.of_run run⟩

namespace Assembles
open Parse

variable {α β : Type} {context : Context} {taken : List Part}

theorem adds {parser : Parse α} {left : α → List Part}
    (assembles : Assembles context [] parser left)
    {given held : List Part} {origin cursor : Cursor}
    (built : BuildsParts context given origin held cursor) :
    RunMeets True context parser cursor fun answer after =>
      BuildsParts context given origin (held ++ left answer) after :=
  assembles.outcome (by simpa using built)

theorem of_adds {parser : Parse α} {left : α → List Part}
    (adds : ∀ {given held : List Part} {origin cursor : Cursor},
      BuildsParts context given origin held cursor →
        RunMeets True context parser cursor fun answer after =>
          BuildsParts context given origin (held ++ left answer) after) :
    Assembles context [] parser left :=
  ⟨fun built => adds (by simpa using built)⟩

theorem pure {left : α → List Part} {answer : α} (same : taken = left answer) :
    Assembles context taken (Pure.pure answer) left := by
  subst same
  exact ⟨fun built => .pure built⟩

theorem bind {parser : Parse α} {next : α → Parse β} {middle : α → List Part}
    {left : β → List Part} (first : Assembles context taken parser middle)
    (rest : ∀ answer, Assembles context (middle answer) (next answer) left) :
    Assembles context taken (parser >>= next) left :=
  ⟨fun built => (first.outcome built).bind fun answer _ built => (rest answer).outcome built⟩

theorem map {parser : Parse α} {change : α → β} {left : β → List Part}
    (assembles : Assembles context taken parser fun answer => left (change answer)) :
    Assembles context taken (change <$> parser) left :=
  bind assembles fun _ => pure rfl

theorem framed {parser : Parse α} {parts : α → List Part}
    (assembles : Assembles context [] parser parts) :
    Assembles context taken parser fun answer => taken ++ parts answer := by
  constructor
  intro given held origin cursor built
  have added := assembles.adds built
  simpa only [List.append_assoc] using added

theorem phrase {parser : Parse α} {next : α → Parse β} {parts : α → List Part}
    {left : β → List Part} (first : Assembles context [] parser parts)
    (rest : ∀ answer, Assembles context (taken ++ parts answer) (next answer) left) :
    Assembles context taken (parser >>= next) left :=
  bind first.framed rest

theorem ite {condition : Prop} [Decidable condition] {first second : Parse α} {left : α → List Part}
    (whenTrue : Assembles context taken first left)
    (whenFalse : Assembles context taken second left) :
    Assembles context taken (if condition then first else second) left := by
  split
  · exact whenTrue
  · exact whenFalse

theorem lowered {parser : Parse α} {nodes : α → List Node}
    (assembles : Assembles context [] parser fun answer => Part.below (nodes answer)) :
    Assembles context [] parser fun answer => Part.here 3 (nodes answer) :=
  ⟨fun built => (assembles.outcome built).mono fun _ _ built => built.lower⟩

theorem raised {parser : Parse α} {nodes : α → List Node} {rank higher : Nat}
    (assembles : Assembles context taken parser fun answer => Part.here rank (nodes answer))
    (le : rank ≤ higher) :
    Assembles context taken parser fun answer => Part.here higher (nodes answer) :=
  ⟨fun built => (assembles.outcome built).mono fun _ _ built => built.raise le⟩

theorem moves {parser : Parse α} {answer : Cursor → α} {moved : Cursor → Cursor}
    (run : ∀ cursor, parser context cursor = some (answer cursor, moved cursor))
    (keeps : ∀ {given held : List Part} {origin cursor : Cursor},
      BuildsParts context given origin held cursor →
        BuildsParts context given origin held (moved cursor)) :
    Assembles context taken parser fun _ => taken :=
  ⟨fun built => .done (run _) (keeps built)⟩

/-! Primitive parsers in front of a continuation. -/

section Continuation
variable {left : α → List Part}

theorem read {get : Cursor → β} {next : β → Parse α}
    (rest : ∀ answer, Assembles context taken (next answer) left) :
    Assembles context taken (Parse.read get >>= next) left :=
  bind (moves (fun _ => rfl) id) rest

theorem advance {next : Unit → Parse α} (rest : Assembles context taken (next ()) left) :
    Assembles context taken (Parse.advance >>= next) left :=
  bind (moves (fun _ => rfl) BuildsParts.advance) fun _ => rest

theorem report {expected : Expected} {next : Unit → Parse α}
    (rest : Assembles context taken (next ()) left) :
    Assembles context taken (Parse.report expected >>= next) left :=
  bind (moves (fun _ => rfl) (BuildsParts.report expected)) fun _ => rest

theorem clearDoc {next : Unit → Parse α} (rest : Assembles context taken (next ()) left) :
    Assembles context taken (Parse.clearDoc >>= next) left :=
  bind (moves (fun _ => rfl) BuildsParts.clearDoc) fun _ => rest

theorem eat {wanted : TokenKind} {next : Bool → Parse α}
    (rest : ∀ found, Assembles context taken (next found) left) :
    Assembles context taken (Parse.eat wanted >>= next) left :=
  bind (read fun _ => ite (advance (pure rfl)) (pure rfl)) rest

theorem expect {wanted : TokenKind} {expected : Expected} {next : Bool → Parse α}
    (rest : ∀ found, Assembles context taken (next found) left) :
    Assembles context taken (Parse.expect wanted expected >>= next) left :=
  bind (eat fun _ => ite (pure rfl) (report (pure rfl))) rest

end Continuation

/-! Primitive parsers by themselves. -/

theorem eaten {wanted : TokenKind} : Assembles context [] (Parse.eat wanted) fun _ => [] :=
  read fun _ => ite (advance (pure rfl)) (pure rfl)

theorem expected {wanted : TokenKind} {expected : Expected} :
    Assembles context [] (Parse.expect wanted expected) fun _ => [] :=
  eat fun _ => ite (pure rfl) (report (pure rfl))

theorem skipToStatementEnd :
    Assembles context taken (Parse.modify Cursor.skipToStatementEnd) fun _ => taken :=
  moves (fun _ => rfl) BuildsParts.skipToStatementEnd

theorem leaf {kind : LeafKind} :
    Assembles context [] (Parse.leaf kind) fun node => Part.here 1 [node] := by
  constructor
  intro given held origin cursor built
  exact .done rfl (.node 1 built.advance rfl)

theorem finishNamed {start : Nat} {node : Node} (naming : Nat)
    (plain : node.attributes.docComment = none) (complete : taken = node.form.parts naming) :
    Assembles context taken (Parse.finish start node) fun answer =>
      Part.here (node.form.rank naming) [answer] := by
  subst complete
  constructor
  intro given held origin cursor built
  have finished : BuildsParts context given origin (held ++ (node.withPosition
    (cursor.positionFrom context start)).form.parts naming) cursor := built
  exact .done rfl (.node naming finished plain)

theorem finish {start : Nat} {node : Node} (plain : node.attributes.docComment = none)
    (complete : taken = node.form.parts 1) :
    Assembles context taken (Parse.finish start node) fun answer =>
      Part.here (node.form.rank 1) [answer] :=
  finishNamed 1 plain complete

/-- One level deeper. -/
theorem deeper {refused parser : Parse α} {nodes : α → List Node}
    (declines : Assembles context [] refused fun answer => Part.below (nodes answer))
    (enters : Assembles context [] parser fun answer => Part.here 8 (nodes answer)) :
    Assembles context [] (Parse.deeper refused parser) fun answer => Part.below (nodes answer) := by
  constructor
  intro given held origin cursor built
  by_cases full : context.options.maxDepth ≤ cursor.depth
  · have refuses := declines.outcome built.reportTooDeep
    constructor
    rw [Parse.deeper_of_full full]
    exact refuses.outcome
  · have room := Nat.lt_of_not_le full
    refine .of_forall_run fun answer after run => ?_
    rw [Parse.deeper_of_room room] at run
    obtain ⟨⟨inner, stopped⟩, innerRun, result⟩ := Option.map_eq_some_iff.mp run
    obtain ⟨rfl, rfl⟩ := Prod.mk.inj result
    have empty : BuildsParts context [] { cursor with depth := cursor.depth + 1 } ([] ++ [])
      { cursor with depth := cursor.depth + 1 } := .here
    exact BuildsParts.deeper (by simpa using built) room ((enters.outcome empty).of_run innerRun)

theorem loop {step : α → Parse (α × Bool)} {parts : α → List Part}
    (round : ∀ value, Assembles context (parts value) (step value) fun answer => parts answer.1)
    (fuel : Nat) (value : α) :
    Assembles context (parts value) (Parse.loop step fuel value) parts := by
  constructor
  intro given held origin cursor built
  have keeps : ∀ value cursor, BuildsParts context given origin (held ++ parts value) cursor →
      RunMeets True context (step value) cursor fun answer after =>
        (answer.2 = true → BuildsParts context given origin (held ++ parts answer.1) after ∧
          (True ∨ after.remaining < cursor.remaining)) ∧
        (answer.2 = false → BuildsParts context given origin (held ++ parts answer.1) after) :=
    fun value cursor built => ((round value).outcome built).mono fun _ _ built =>
      ⟨fun _ => ⟨built, .inl trivial⟩, fun _ => built⟩
  exact RunMeets.loop keeps fuel value cursor built (.inl trivial)

theorem collect {round : Parse (Option Node × Bool)} {level : Level}
    (each : Assembles context [] round fun answer => Part.mark level answer.1.toList)
    (fuel : Nat) :
    Assembles context [] (Parse.collect fuel round) fun nodes => Part.mark level nodes := by
  have step : ∀ found : List Node, Assembles context (Part.mark level found.reverse)
      (collectStep round found) fun answer => Part.mark level answer.1.reverse := by
    intro found
    refine phrase each fun answer => pure ?_
    cases answer.1 <;> simp
  exact bind (@loop _ _ _ (fun found => Part.mark level found.reverse) step fuel [])
    fun found => pure rfl

end Assembles
end PhpTree
