import PhpTree.Proofs.Sorting

/-! # Where a cursor stands

The cursors of a parse stand in the items of its source: the items ahead are the last
ones, and nothing goes back.  This is a matter of single steps, so it holds along any
tour through a parse. -/
set_option autoImplicit false
namespace PhpTree

/-! ## Items in source order -/

theorem Stream.of_append {offset : Nat} {front back : List Token} {token : Token}
    (stream : Stream offset (front ++ token :: back)) : Stream offset (token :: back) := by
  induction front generalizing offset with
  | nil => exact stream
  | cons head rest inductionHypothesis =>
      rw [List.cons_append] at stream
      generalize remaining : rest ++ token :: back = tail at stream
      cases stream with
      | last after ends => simp at remaining
      | cons after goesOn covers tail =>
          subst remaining
          exact (inductionHypothesis tail).weaken (Nat.le_trans after (Nat.le_of_lt covers))

/-- Items in source order, the end of file last. -/
def InStream (items : List Item) : Prop := Stream 0 (items.map Item.token)

namespace InStream

variable {items earlier rest : List Item} {item next : Item}

theorem rest_stream (stream : InStream items) (split : items = earlier ++ item :: rest) :
    Stream 0 (item.token :: rest.map Item.token) := by
  subst split
  rw [InStream, List.map_append] at stream
  exact stream.of_append

theorem last_kind (stream : InStream items) (split : items = earlier ++ [item]) :
    item.token.kind = .eof := by
  cases stream.rest_stream split with
  | last after ends => exact ends
  | cons after goesOn covers tail => exact absurd rfl tail.ne_nil

/-- What comes later begins where the item ends, or after. -/
theorem covers_before (stream : InStream items) (split : items = earlier ++ item :: rest)
    (later : next ∈ rest) :
    item.token.start < item.token.stop ∧ item.token.stop ≤ next.token.start := by
  have whole := stream.rest_stream split
  have member : next.token ∈ rest.map Item.token := List.mem_map_of_mem later
  generalize rest.map Item.token = tokens at whole member
  cases whole with
  | last after ends => simp at member
  | cons after goesOn covers tail => exact ⟨covers, tail.after_offset _ member⟩

theorem split_unique (stream : InStream items) {front back : List Item}
    (split : items = earlier ++ item :: rest) (other : items = front ++ next :: back)
    (same : item.token.start = next.token.start) : earlier = front ∧ item = next ∧ rest = back := by
  have apart : ∀ {earlier rest front back : List Item} {item next : Item},
      items = earlier ++ item :: rest → items = front ++ next :: back →
      item.token.start = next.token.start → ∀ between, front = earlier ++ between →
        between = [] := by
    intro earlier rest front back item next split other same between longer
    cases between with
    | nil => rfl
    | cons first between =>
        subst longer
        have inside : item :: rest = first :: (between ++ next :: back) := by
          simpa using split.symm.trans other
        obtain ⟨rfl, rfl⟩ := List.cons.inj inside
        have := stream.covers_before split (List.mem_append_right _ (List.mem_cons_self ..))
        omega
  rcases List.append_eq_append_iff.mp (split.symm.trans other) with
    ⟨between, longer, tails⟩ | ⟨between, longer, tails⟩
  · obtain rfl := apart split other same between longer
    obtain ⟨items, rests⟩ := List.cons.inj tails
    exact ⟨by simpa using longer.symm, items, rests⟩
  · obtain rfl := apart other split same.symm between longer
    obtain ⟨items, rests⟩ := List.cons.inj tails
    exact ⟨by simpa using longer, items.symm, rests.symm⟩

end InStream

theorem Cursor.lastEnd_advance (context : Context) (cursor : Cursor) :
    (cursor.advance context).lastEnd = cursor.current.token.stop := by
  cases following : cursor.following with
  | nil => simp only [advance, following]
  | cons next rest =>
      obtain ⟨errors, journal, equation, _⟩ := cursor.advance_cons context next rest following
      rw [equation]

/-- The cursor stands at an item, no earlier than `base`. -/
structure Cursor.StandsAtItem (items : List Item) (base : Nat) (cursor : Cursor) : Prop where
  ahead : ∃ earlier item, items = earlier ++ item :: cursor.following ∧
    item.token = cursor.current.token
  since : base ≤ cursor.start
  ordered : cursor.kind ≠ .eof → cursor.lastEnd ≤ cursor.start

namespace Cursor.StandsAtItem

variable {items : List Item} {base : Nat} {cursor : Cursor}

theorem kind_of_following_nil (stream : InStream items) (stands : cursor.StandsAtItem items base)
    (following : cursor.following = []) : cursor.kind = .eof := by
  obtain ⟨earlier, item, split, same⟩ := stands.ahead
  rw [following] at split
  rw [kind, ← same]
  exact stream.last_kind split

theorem covers_before_next (stream : InStream items) (stands : cursor.StandsAtItem items base)
    {next : Item} {rest : List Item} (following : cursor.following = next :: rest) :
    cursor.start < cursor.current.token.stop ∧ cursor.current.token.stop ≤ next.token.start := by
  obtain ⟨earlier, item, split, same⟩ := stands.ahead
  rw [following] at split
  rw [start, ← same]
  exact stream.covers_before split (List.mem_cons_self ..)

theorem advance (stream : InStream items) (context : Context)
    (stands : cursor.StandsAtItem items base) :
    (cursor.advance context).StandsAtItem items base := by
  obtain ⟨earlier, item, split, same⟩ := stands.ahead
  cases following : cursor.following with
  | nil =>
      have ends := stands.kind_of_following_nil stream following
      simp only [Cursor.advance, following]
      exact ⟨⟨earlier, item, by simpa [following] using split, same⟩, stands.since, absurd ends⟩
  | cons next rest =>
      rw [following] at split
      have order := stands.covers_before_next stream following
      obtain ⟨errors, journal, equation, _⟩ := cursor.advance_cons context next rest following
      rw [equation]
      refine ⟨⟨earlier ++ [item], next, by simpa using split, rfl⟩, ?_, fun _ => order.2⟩
      exact Nat.le_trans stands.since (Nat.le_trans (Nat.le_of_lt order.1) order.2)

theorem of_same {other : Cursor} (stands : cursor.StandsAtItem items base)
    (token : other.current.token = cursor.current.token)
    (following : other.following = cursor.following) (lastEnd : other.lastEnd = cursor.lastEnd) :
    other.StandsAtItem items base := by
  obtain ⟨ahead, since, ordered⟩ := stands
  refine ⟨by rwa [following, token], by rwa [start, token], fun goesOn => ?_⟩
  rw [lastEnd, start, token]
  exact ordered (by rwa [kind, ← token])

theorem step {context : Context} {after : Cursor} (stream : InStream items)
    (stands : cursor.StandsAtItem items base) (step : cursor.Step context after) :
    after.StandsAtItem items base := by
  rcases step.stays_or_advances with rfl | ⟨token, following, lastEnd, _⟩
  · exact stands.advance stream context
  · exact stands.of_same token following lastEnd

theorem from_start (stands : cursor.StandsAtItem items base) :
    cursor.StandsAtItem items cursor.start :=
  ⟨stands.ahead, Nat.le_refl _, stands.ordered⟩

theorem start_le_advance (stream : InStream items) (context : Context)
    (stands : cursor.StandsAtItem items base) : cursor.start ≤ (cursor.advance context).start :=
  (stands.from_start.advance stream context).since

theorem following_eq_nil (stream : InStream items) (stands : cursor.StandsAtItem items base)
    (ends : cursor.kind = .eof) : cursor.following = [] := by
  obtain ⟨earlier, item, split, same⟩ := stands.ahead
  have whole := stream.rest_stream split
  rw [same] at whole
  cases following : cursor.following with
  | nil => rfl
  | cons next rest =>
      rw [following, List.map_cons] at whole
      cases whole with
      | cons after goesOn covers tail => exact absurd ends goesOn

/-- What is known right after a token was consumed, of that token and of the item that follows. -/
theorem advance_split (context : Context) (stands : cursor.StandsAtItem items base)
    {earlier : List Item} {previous item : Item}
    (split : items = earlier ++ previous :: item :: (cursor.advance context).following)
    (stream : InStream items) (goesOn : (cursor.advance context).kind ≠ .eof) :
    previous.token = cursor.current.token ∧ base ≤ previous.token.stop ∧
      (cursor.advance context).lastEnd = previous.token.stop ∧
      (cursor.advance context).pendingDoc =
        (item.docComment?.map Token.text).or cursor.pendingDoc := by
  obtain ⟨front, current, whole, same⟩ := stands.ahead
  cases following : cursor.following with
  | nil =>
      have ends := stands.kind_of_following_nil stream following
      refine absurd ?_ goesOn
      simp only [Cursor.advance, following]
      exact ends
  | cons next rest =>
      obtain ⟨errors, journal, equation, _⟩ := cursor.advance_cons context next rest following
      rw [equation] at split ⊢
      rw [following] at whole
      have cut : (earlier ++ [previous, item]) ++ rest = (front ++ [current, next]) ++ rest := by
        simpa using split.symm.trans whole
      obtain ⟨rfl, heads⟩ := List.append_inj' (List.append_cancel_right cut) rfl
      obtain ⟨rfl, rfl⟩ : previous = current ∧ item = next := by simpa using heads
      have covers : base ≤ previous.token.stop := by
        rw [same]
        exact Nat.le_trans stands.since (Nat.le_add_right _ _)
      exact ⟨same, covers, by rw [same], rfl⟩

end Cursor.StandsAtItem

/-- The survey of the cursors that stand in the items of a source that is parsed without errors. -/
def Survey.standing (context : Context) {items : List Item} (stream : InStream items)
    (base : Nat) : Survey where
  context
  clean := True
  fits := Cursor.StandsAtItem items base
  fits_step step stands := stands.step stream step
  body _ _ := True
  body_nil _ := trivial
  carries _ _ := True
  carries_plain _ _ _ _ := trivial
  carries_doc _ _ _ _ _ _ := trivial
  carries_comments _ _ := trivial

theorem Grammar.closed_standing {context : Context} {items : List Item} (stream : InStream items)
    (base fuel : Nat) : Sorting (.standing context stream base) fuel (closed fuel) :=
  closed_sorting (fun _ _ _ _ _ _ _ => trivial) (fun _ _ _ _ _ _ _ => trivial) fuel

/-! ## Whole parses -/

theorem inStream_gather (lexer : Lexer) : InStream (Item.gather lexer.tokens) := by
  have significant := lexer.tokens_stream.filter Token.isSignificant Token.isSignificant_of_eof
  rw [InStream, Item.gather_tokens]
  exact significant.weaken (Nat.zero_le _)

theorem Parser.ofSource_items (options : Options) (source : List UInt8) :
    ∃ item following,
      Item.gather (Lexer.ofSource options.shortTags source).tokens = item :: following ∧
      (ofSource options source).cursor =
        Cursor.ofItems (ofSource options source).context item following := by
  unfold ofSource
  cases gathered : Item.gather (Lexer.ofSource options.shortTags source).tokens with
  | nil =>
      have stream := (Lexer.ofSource options.shortTags source).tokens_stream
      exact absurd gathered (Item.gather_ne_nil stream)
  | cons item following => exact ⟨item, following, rfl, rfl⟩

theorem Parser.ofSource_stands (options : Options) (source : List UInt8) :
    (ofSource options source).cursor.StandsAtItem
      (Item.gather (Lexer.ofSource options.shortTags source).tokens) 0 := by
  obtain ⟨item, following, gathered, begins⟩ := ofSource_items options source
  obtain ⟨errors, journal, equation, _⟩ :=
    Cursor.ofItems_eq (ofSource options source).context item following
  rw [gathered, begins, equation]
  exact ⟨⟨[], item, rfl, rfl⟩, Nat.zero_le _, fun _ => Nat.zero_le _⟩

namespace Parse

variable {survey : Survey} {fuel : Nat} {grammar : Grammar} {cursor : Cursor}

/-- Nothing but the end of file ends a program. -/
theorem collect_topLevel_ends (sorting : Sorting survey fuel grammar) :
    Sorts survey (collect fuel (topLevel grammar)) cursor fun _ after => after.kind = .eof := by
  have round : ∀ (_ : List Node) cursor, Sorts survey (topLevel grammar) cursor
      fun answer after => True → (answer.2 = true → True) ∧
        (answer.2 = false → after.kind = .eof) := by
    refine fun _ cursor => .kind ?_
    split
    · rename_i ends
      exact .pure fun _ => ⟨fun _ => trivial, fun _ => ends⟩
    · exact .report <| .advance <| .pure fun _ _ => ⟨fun _ => trivial, nofun⟩
    · exact .skip (sorting.statement cursor) fun _ _ => .pure fun _ => ⟨fun _ => trivial, nofun⟩
  have collected := @Sorts.collect _ survey cursor _ (fun _ _ => True)
    (fun _ after => after.kind = .eof) round fuel
  exact collected.mono fun _ _ ends => ends trivial

end Parse

/-- What a tour says of all cursors, it says of the one at which a parse ends. -/
theorem Survey.fits_at_end {survey : Survey} {options : Options} {source : List UInt8}
    {program : Program} (here : survey.context = (Parser.ofSource options source).context)
    (sorting : ∀ fuel, Sorting survey fuel (Grammar.closed fuel))
    (fits : survey.fits (Parser.ofSource options source).cursor) (always : ¬ survey.clean)
    (parsed : parse options source = some program) :
    ∃ last, survey.fits last ∧ last.kind = .eof ∧ program.errors = last.errors.reverse ∧
      program.root.attributes.comments = last.comments survey.context := by
  obtain ⟨after, ended⟩ := parse_eq_some.mp parsed
  have run := Parser.programWith_run ended
  rw [← here] at run
  obtain ⟨stmts, last, collected, root, errors, _⟩ := Parse.program_eq_some.mp run
  have ends := @Parse.collect_topLevel_ends survey _ _ (Parser.ofSource options source).cursor
    (sorting (Parser.ofSource options source).fuel)
  refine ⟨last, (ends.moves collected).fits fits, ?_, errors, by rw [root]; rfl⟩
  exact ends.finds collected fits fun clean => absurd clean always

end PhpTree
