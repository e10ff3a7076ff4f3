import PhpTree.Parse.Program

/-! # Reasoning about one parse

`RunMeets lost context parser cursor post`: run from the cursor, the parser answers so
that `post` holds of the answer and of the cursor it stops at, or it has no answer
and `lost` holds.  With `lost` true this says what is so whenever there is an
answer; with `lost` false it says as well that there is one, so that both are proved
together. -/
set_option autoImplicit false
namespace PhpTree

namespace Parse

variable {α : Type} {refused parser : Parse α} {context : Context} {cursor : Cursor}
  {wanted : TokenKind}

theorem deeper_of_full (full : context.options.maxDepth ≤ cursor.depth) :
    deeper refused parser context cursor = refused context (cursor.reportTooDeep context) := by
  show (ite _ _ _ : Parse α) context cursor = _
  rw [if_pos full]
  rfl

theorem deeper_of_room (room : cursor.depth < context.options.maxDepth) :
    deeper refused parser context cursor =
      (parser context { cursor with depth := cursor.depth + 1 }).map fun result =>
        (result.1, { result.2 with depth := result.2.depth - 1 }) := by
  show (ite _ _ _ : Parse α) context cursor = _
  rw [if_neg (Nat.not_le_of_lt room)]
  show (parser context { cursor with depth := cursor.depth + 1 }).bind _ = _
  cases parser context { cursor with depth := cursor.depth + 1 } <;> rfl

theorem eat_of_eq (same : cursor.kind = wanted) :
    eat wanted context cursor = some (true, cursor.advance context) := by
  show (ite _ _ _ : Parse Bool) context cursor = _
  rw [if_pos same]
  rfl

theorem eat_of_ne (different : cursor.kind ≠ wanted) :
    eat wanted context cursor = some (false, cursor) := by
  show (ite _ _ _ : Parse Bool) context cursor = _
  rw [if_neg different]
  rfl

theorem expect_of_eq (expected : Expected) (same : cursor.kind = wanted) :
    expect wanted expected context cursor = some (true, cursor.advance context) := by
  show (eat wanted context cursor).bind _ = _
  rw [eat_of_eq same]
  rfl

theorem expect_of_ne (expected : Expected) (different : cursor.kind ≠ wanted) :
    expect wanted expected context cursor = some (false, cursor.report context expected) := by
  show (eat wanted context cursor).bind _ = _
  rw [eat_of_ne different]
  rfl

end Parse

structure RunMeets {α : Type} (lost : Prop) (context : Context) (parser : Parse α) (cursor : Cursor)
    (post : α → Cursor → Prop) : Prop where
  outcome :
    match parser context cursor with
    | none => lost
    | some (answer, after) => post answer after

namespace RunMeets
open Parse

variable {α β : Type} {lost : Prop} {context : Context} {cursor : Cursor}

theorem of_run {parser : Parse α} {post : α → Cursor → Prop}
    (meets : RunMeets lost context parser cursor post) {answer : α} {after : Cursor}
    (run : parser context cursor = some (answer, after)) : post answer after := by
  have outcome := meets.outcome
  rw [run] at outcome
  exact outcome

theorem exists_run {parser : Parse α} {post : α → Cursor → Prop}
    (meets : RunMeets False context parser cursor post) :
    ∃ answer after, parser context cursor = some (answer, after) ∧ post answer after := by
  have outcome := meets.outcome
  cases run : parser context cursor with
  | none => simp [run] at outcome
  | some result =>
      rw [run] at outcome
      exact ⟨result.1, result.2, rfl, outcome⟩

theorem of_forall_run {parser : Parse α} {post : α → Cursor → Prop}
    (holds : ∀ answer after, parser context cursor = some (answer, after) → post answer after) :
    RunMeets True context parser cursor post := by
  constructor
  cases run : parser context cursor with
  | none => trivial
  | some result => exact holds result.1 result.2 run

theorem mono {parser : Parse α} {post weaker : α → Cursor → Prop}
    (meets : RunMeets lost context parser cursor post)
    (weaken : ∀ answer after, post answer after → weaker answer after) :
    RunMeets lost context parser cursor weaker := by
  have outcome := meets.outcome
  constructor
  cases run : parser context cursor with
  | none => simpa [run] using outcome
  | some result =>
      rw [run] at outcome
      exact weaken result.1 result.2 outcome

theorem out {parser : Parse α} {post : α → Cursor → Prop} (excuse : lost)
    (run : parser context cursor = none) : RunMeets lost context parser cursor post := by
  constructor
  rw [run]
  exact excuse

theorem done {parser : Parse α} {post : α → Cursor → Prop} {answer : α} {after : Cursor}
    (run : parser context cursor = some (answer, after)) (holds : post answer after) :
    RunMeets lost context parser cursor post := by
  constructor
  rw [run]
  exact holds

/-! ## Sequencing -/

theorem pure {post : α → Cursor → Prop} {answer : α} (holds : post answer cursor) :
    RunMeets lost context (Pure.pure answer) cursor post :=
  done rfl holds

theorem bind {parser : Parse α} {next : α → Parse β} {middle : α → Cursor → Prop}
    {post : β → Cursor → Prop} (first : RunMeets lost context parser cursor middle)
    (rest : ∀ answer after, middle answer after → RunMeets lost context (next answer) after post) :
    RunMeets lost context (parser >>= next) cursor post := by
  have outcome := first.outcome
  cases run : parser context cursor with
  | none =>
      rw [run] at outcome
      exact out outcome (by show (parser context cursor).bind _ = none; rw [run]; rfl)
  | some result =>
      rw [run] at outcome
      have continued := (rest result.1 result.2 outcome).outcome
      constructor
      have unfolded : (parser >>= next) context cursor = next result.1 context result.2 := by
        show (parser context cursor).bind _ = _
        rw [run]
        rfl
      rw [unfolded]
      exact continued

theorem map {parser : Parse α} {change : α → β} {post : β → Cursor → Prop}
    (meets : RunMeets lost context parser cursor fun answer after => post (change answer) after) :
    RunMeets lost context (change <$> parser) cursor post :=
  bind meets fun _ _ holds => pure holds

/-! ## Primitive parsers in front of a continuation -/

section Continuation
variable {post : α → Cursor → Prop}

theorem kind {next : TokenKind → Parse α}
    (rest : RunMeets lost context (next cursor.kind) cursor post) :
    RunMeets lost context (Parse.kind >>= next) cursor post :=
  ⟨rest.outcome⟩

theorem nextKind {next : TokenKind → Parse α}
    (rest : RunMeets lost context (next cursor.nextKind) cursor post) :
    RunMeets lost context (Parse.nextKind >>= next) cursor post :=
  ⟨rest.outcome⟩

theorem start {next : Nat → Parse α}
    (rest : RunMeets lost context (next cursor.start) cursor post) :
    RunMeets lost context (Parse.start >>= next) cursor post :=
  ⟨rest.outcome⟩

theorem modify {change : Context → Cursor → Cursor} {next : Unit → Parse α}
    (rest : RunMeets lost context (next ()) (change context cursor) post) :
    RunMeets lost context (Parse.modify change >>= next) cursor post :=
  ⟨rest.outcome⟩

theorem advance {next : Unit → Parse α}
    (rest : RunMeets lost context (next ()) (cursor.advance context) post) :
    RunMeets lost context (Parse.advance >>= next) cursor post :=
  ⟨rest.outcome⟩

theorem report {expected : Expected} {next : Unit → Parse α}
    (rest : RunMeets lost context (next ()) (cursor.report context expected) post) :
    RunMeets lost context (Parse.report expected >>= next) cursor post :=
  ⟨rest.outcome⟩

theorem clearDoc {next : Unit → Parse α}
    (rest : RunMeets lost context (next ()) cursor.clearDoc post) :
    RunMeets lost context (Parse.clearDoc >>= next) cursor post :=
  ⟨rest.outcome⟩

theorem takeDoc {next : Option String → Parse α}
    (rest : RunMeets lost context (next cursor.pendingDoc) cursor.clearDoc post) :
    RunMeets lost context (Parse.takeDoc >>= next) cursor post :=
  ⟨rest.outcome⟩

theorem takeComments {next : List Comment → Parse α}
    (rest : RunMeets lost context (next (cursor.comments context)) cursor.dropComments post) :
    RunMeets lost context (Parse.takeComments >>= next) cursor post :=
  ⟨rest.outcome⟩

theorem finish {start : Nat} {node : Node} {next : Node → Parse α}
    (rest : RunMeets lost context
      (next (node.withPosition (cursor.positionFrom context start))) cursor post) :
    RunMeets lost context (Parse.finish start node >>= next) cursor post :=
  ⟨rest.outcome⟩

theorem leaf {kind : LeafKind} {next : Node → Parse α}
    (rest : RunMeets lost context
      (next ((Node.leaf kind cursor.current.token.text).withPosition (cursor.position context)))
      (cursor.advance context) post) :
    RunMeets lost context (Parse.leaf kind >>= next) cursor post :=
  ⟨rest.outcome⟩

theorem eat {wanted : TokenKind} {next : Bool → Parse α}
    (found : cursor.kind = wanted →
      RunMeets lost context (next true) (cursor.advance context) post)
    (missing : cursor.kind ≠ wanted → RunMeets lost context (next false) cursor post) :
    RunMeets lost context (Parse.eat wanted >>= next) cursor post := by
  by_cases same : cursor.kind = wanted
  · have eaten : RunMeets lost context (Parse.eat wanted) cursor fun answer after =>
        answer = true ∧ after = cursor.advance context := by
      refine kind ?_
      rw [if_pos same]
      exact advance (pure ⟨rfl, rfl⟩)
    refine bind eaten ?_
    rintro _ _ ⟨rfl, rfl⟩
    exact found same
  · have kept : RunMeets lost context (Parse.eat wanted) cursor fun answer after =>
        answer = false ∧ after = cursor := by
      refine kind ?_
      rw [if_neg same]
      exact pure ⟨rfl, rfl⟩
    refine bind kept ?_
    rintro _ _ ⟨rfl, rfl⟩
    exact missing same

theorem expect {wanted : TokenKind} {expected : Expected} {next : Bool → Parse α}
    (found : cursor.kind = wanted →
      RunMeets lost context (next true) (cursor.advance context) post)
    (missing : cursor.kind ≠ wanted →
      RunMeets lost context (next false) (cursor.report context expected) post) :
    RunMeets lost context (Parse.expect wanted expected >>= next) cursor post := by
  have expected : RunMeets lost context (Parse.expect wanted expected) cursor fun answer after =>
      (answer = true ∧ cursor.kind = wanted ∧ after = cursor.advance context) ∨
        (answer = false ∧ cursor.kind ≠ wanted ∧ after = cursor.report context expected) := by
    refine eat (fun same => ?_) (fun different => ?_)
    · exact pure (Or.inl ⟨rfl, same, rfl⟩)
    · exact report (pure (Or.inr ⟨rfl, different, rfl⟩))
  refine bind expected ?_
  rintro _ _ (⟨rfl, same, rfl⟩ | ⟨rfl, different, rfl⟩)
  · exact found same
  · exact missing different

end Continuation

/-! ## Primitive parsers by themselves -/

theorem finished {start : Nat} {node : Node} {post : Node → Cursor → Prop}
    (holds : post (node.withPosition (cursor.positionFrom context start)) cursor) :
    RunMeets lost context (Parse.finish start node) cursor post :=
  done rfl holds

theorem someLeaf {kind : LeafKind} {post : Option Node → Cursor → Prop}
    (holds : post
      (some ((Node.leaf kind cursor.current.token.text).withPosition (cursor.position context)))
      (cursor.advance context)) :
    RunMeets lost context (some <$> Parse.leaf kind) cursor post :=
  done rfl holds

theorem deeper {refused parser : Parse α} {post : α → Cursor → Prop}
    (declines : RunMeets lost context refused (cursor.reportTooDeep context) post)
    (enters : RunMeets lost context parser { cursor with depth := cursor.depth + 1 }
      fun answer after => post answer { after with depth := after.depth - 1 }) :
    RunMeets lost context (Parse.deeper refused parser) cursor post := by
  constructor
  by_cases full : context.options.maxDepth ≤ cursor.depth
  · rw [Parse.deeper_of_full full]
    exact declines.outcome
  · have outcome := enters.outcome
    rw [Parse.deeper_of_room (Nat.lt_of_not_le full)]
    cases run : parser context { cursor with depth := cursor.depth + 1 } with
    | none =>
        rw [run] at outcome
        exact outcome
    | some result =>
        rw [run] at outcome
        exact outcome

/-! ## Loops -/

/-- A loop keeps its invariant. It comes to an end when every round that goes on consumes a token
and there is fuel for as many rounds as there are tokens. -/
theorem loop {step : α → Parse (α × Bool)} {invariant final : α → Cursor → Prop}
    (round : ∀ value cursor, invariant value cursor →
      RunMeets lost context (step value) cursor fun answer after =>
        (answer.2 = true →
          invariant answer.1 after ∧ (lost ∨ after.remaining < cursor.remaining)) ∧
        (answer.2 = false → final answer.1 after)) :
    ∀ (fuel : Nat) (value : α) (cursor : Cursor), invariant value cursor →
      (lost ∨ cursor.remaining < fuel) →
      RunMeets lost context (Parse.loop step fuel value) cursor final := by
  intro fuel
  induction fuel with
  | zero =>
      intro value cursor _ enough
      exact out (enough.resolve_right (Nat.not_lt_zero _)) rfl
  | succ fuel inductionHypothesis =>
      intro value cursor holds enough
      have outcome := (round value cursor holds).outcome
      constructor
      simp only [Parse.loop]
      cases run : step value context cursor with
      | none =>
          rw [run] at outcome
          exact outcome
      | some result =>
          obtain ⟨⟨answer, continues⟩, after⟩ := result
          rw [run] at outcome
          cases continues with
          | false => exact outcome.2 rfl
          | true =>
              obtain ⟨kept, fewer⟩ := outcome.1 rfl
              refine (inductionHypothesis answer after kept ?_).outcome
              rcases enough with excuse | enough
              · exact Or.inl excuse
              · exact fewer.imp_right fun fewer => by omega

/-- As `loop`, for rounds that collect items; the invariant speaks of the items in their order. -/
theorem collect {round : Parse (Option α × Bool)} {invariant final : List α → Cursor → Prop}
    (collects : ∀ found cursor, invariant found cursor →
      RunMeets lost context round cursor fun answer after =>
        (answer.2 = true → invariant (found ++ answer.1.toList) after ∧
          (lost ∨ after.remaining < cursor.remaining)) ∧
        (answer.2 = false → final (found ++ answer.1.toList) after))
    {fuel : Nat} (holds : invariant [] cursor) (enough : lost ∨ cursor.remaining < fuel) :
    RunMeets lost context (Parse.collect fuel round) cursor final := by
  have step : ∀ found cursor, invariant found.reverse cursor →
      RunMeets lost context (collectStep round found) cursor fun answer after =>
        (answer.2 = true → invariant answer.1.reverse after ∧
          (lost ∨ after.remaining < cursor.remaining)) ∧
        (answer.2 = false → final answer.1.reverse after) := by
    intro found cursor holds
    refine bind (collects found.reverse cursor holds) ?_
    rintro ⟨item, continues⟩ after post
    have reversed : (item.toList ++ found).reverse = found.reverse ++ item.toList := by
      cases item <;> simp
    refine pure ?_
    simpa only [reversed] using post
  have looped := @loop (List α) lost context (collectStep round)
    (fun found => invariant found.reverse) (fun found => final found.reverse) step fuel [] cursor
    holds enough
  exact bind looped fun found after holds => pure holds

end RunMeets
end PhpTree
