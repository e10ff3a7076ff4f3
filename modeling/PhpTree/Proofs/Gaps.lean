import Mathlib.Data.List.Pairwise
import PhpTree.Proofs.Stream

/-! # What stands between significant tokens

Comments are gathered with the significant token after them.  So the items of a stream
cut it at its significant tokens, and each item holds what lies between its token and
the one before. -/
set_option autoImplicit false
namespace PhpTree

theorem Token.isSignificant_eq_true {token : Token} :
    token.isSignificant = true ↔
      token.kind.isTrivia = false ∧ token.isUnterminatedComment = false := by
  simp [isSignificant]

theorem Token.isSignificant_eq_false {token : Token} :
    token.isSignificant = false ↔
      token.kind.isTrivia = true ∨ token.isUnterminatedComment = true := by
  simp [isSignificant, Classical.or_iff_not_imp_left]

namespace Item

theorem place_of_not_isSignificant {token : Token} (passed : token.isSignificant = false)
    (item : Item) (rest : List Item) :
    place token (item :: rest) =
      { item with
        comments := [token].filter (·.kind.isTrivia) ++ item.comments
        unterminated := [token].filter Token.isUnterminatedComment ++ item.unterminated } ::
          rest := by
  by_cases trivia : token.kind.isTrivia = true
  · have closed : token.isUnterminatedComment = false := by
      cases kind : token.kind <;>
        simp_all [TokenKind.isTrivia, Token.isUnterminatedComment]
    simp [place, trivia, closed]
  · have opened := (Token.isSignificant_eq_false.mp passed).resolve_left trivia
    simp [place, trivia, opened]

theorem place_of_isSignificant {token : Token} (read : token.isSignificant = true)
    (items : List Item) : place token items = { token } :: items := by
  have plain := Token.isSignificant_eq_true.mp read
  cases items <;> simp [place, plain]

/-- Where an item stands in a stream: after the token of the item before and what the grammar does
not read in between. -/
structure CutsStream (tokens : List Token) (earlier : List Item) (item : Item) (later : List Item)
    (front gap back : List Token) : Prop where
  whole : tokens = front ++ (gap ++ item.token :: back)
  previous : front.getLast? = earlier.getLast?.map Item.token
  passed : ∀ token ∈ gap, token.isSignificant = false
  comments : item.comments = gap.filter (·.kind.isTrivia)
  unterminated : item.unterminated = gap.filter Token.isUnterminatedComment
  later : gather back = later

theorem exists_cut {tokens : List Token} {earlier later : List Item} {item : Item}
    (split : gather tokens = earlier ++ item :: later) :
    ∃ front gap back, CutsStream tokens earlier item later front gap back := by
  induction tokens generalizing earlier item with
  | nil => simp [gather] at split
  | cons token rest inductionHypothesis =>
      rw [gather_cons] at split
      by_cases read : token.isSignificant = true
      · rw [place_of_isSignificant read] at split
        cases earlier with
        | nil =>
            obtain ⟨rfl, same⟩ := List.cons.inj split
            exact ⟨[], [], rest, rfl, rfl, by simp, rfl, rfl, same⟩
        | cons first earlier =>
            obtain ⟨rfl, below⟩ := List.cons.inj split
            obtain ⟨front, gap, back, cut⟩ := inductionHypothesis below
            refine ⟨token :: front, gap, back, by rw [cut.whole]; rfl, ?_, cut.passed, cut.comments,
              cut.unterminated, cut.later⟩
            rw [List.getLast?_cons, List.getLast?_cons, cut.previous]
            cases earlier.getLast? <;> rfl
      · rw [Bool.not_eq_true] at read
        cases gathered : gather rest with
        | nil =>
            have none : place token [] = [] := by
              simp [place, Token.isSignificant_eq_false.mp read]
            simp [gathered, none] at split
        | cons next items =>
            rw [gathered, place_of_not_isSignificant read] at split
            cases earlier with
            | nil =>
                obtain ⟨rfl, rfl⟩ := List.cons.inj split
                obtain ⟨front, gap, back, cut⟩ := @inductionHypothesis [] next gathered
                obtain rfl : front = [] := by simpa using cut.previous
                refine ⟨[], token :: gap, back, by rw [cut.whole]; rfl, rfl, ?_, ?_, ?_, cut.later⟩
                · simpa [read] using cut.passed
                · rw [cut.comments, ← List.filter_append]
                  rfl
                · rw [cut.unterminated, ← List.filter_append]
                  rfl
            | cons first earlier =>
                obtain ⟨rfl, rfl⟩ := List.cons.inj split
                obtain ⟨front, gap, back, cut⟩ :=
                  @inductionHypothesis (next :: earlier) item gathered
                refine ⟨token :: front, gap, back, by rw [cut.whole]; rfl, ?_, cut.passed,
                  cut.comments, cut.unterminated, cut.later⟩
                have previous := cut.previous
                rw [List.getLast?_cons] at previous ⊢
                rw [previous, List.getLast?_cons]
                cases earlier.getLast? <;> rfl

theorem token_gather {tokens : List Token} {item : Item} (member : item ∈ gather tokens) :
    item.token ∈ tokens ∧ item.token.isSignificant = true := by
  have read : item.token ∈ (gather tokens).map token := List.mem_map_of_mem member
  rw [gather_tokens] at read
  exact List.mem_filter.mp read

/-- The comments of an item are tokens of the stream. -/
theorem comments_gather {tokens : List Token} {item : Item} (member : item ∈ gather tokens) :
    ∀ comment ∈ item.comments, comment ∈ tokens := by
  obtain ⟨earlier, later, split⟩ := List.append_of_mem member
  obtain ⟨front, gap, back, cut⟩ := exists_cut split
  intro comment inside
  rw [cut.comments] at inside
  rw [cut.whole]
  simp [(List.mem_filter.mp inside).1]

/-- They begin after the token of the item before. -/
theorem spaced_gather {offset : Nat} {tokens : List Token} (stream : Stream offset tokens)
    {earlier later : List Item} {previous item : Item}
    (split : gather tokens = earlier ++ previous :: item :: later) :
    ∀ comment ∈ item.comments, previous.token.stop ≤ comment.start := by
  have cutAt : gather tokens = (earlier ++ [previous]) ++ item :: later := by simpa using split
  obtain ⟨front, gap, back, cut⟩ := exists_cut cutAt
  have last : front.getLast? = some previous.token := by simp [cut.previous]
  have ordered := stream.ordered
  rw [cut.whole] at ordered
  intro comment inside
  rw [cut.comments] at inside
  exact (List.pairwise_append.mp ordered).2.2 _ (List.mem_of_getLast? last) comment
    (List.mem_append_left _ (List.mem_filter.mp inside).1)

/-- What the grammar does not read travels with items, in its order. -/
theorem flatMap_gather {part : Item → List Token} {keep : Token → Bool}
    (bare : ∀ token : Token, token.isSignificant = true → keep token = false ∧ part { token } = [])
    (joins : ∀ (token : Token) (item : Item),
      part { item with
        comments := [token].filter (·.kind.isTrivia) ++ item.comments
        unterminated := [token].filter Token.isUnterminatedComment ++ item.unterminated } =
      [token].filter keep ++ part item)
    {offset : Nat} {tokens : List Token} (stream : Stream offset tokens) :
    (gather tokens).flatMap part = tokens.filter keep := by
  induction stream with
  | @last offset token after ends =>
      have read := Token.isSignificant_of_eof token ends
      rw [gather_cons, place_of_isSignificant read]
      simp [gather, bare token read]
  | @cons offset token rest after goesOn covers tail inductionHypothesis =>
      rw [gather_cons]
      by_cases read : token.isSignificant = true
      · rw [place_of_isSignificant read]
        simp [inductionHypothesis, bare token read]
      · rw [Bool.not_eq_true] at read
        cases gathered : gather rest with
        | nil => exact absurd gathered (gather_ne_nil tail)
        | cons next items =>
            rw [gathered, List.flatMap_cons] at inductionHypothesis
            rw [place_of_not_isSignificant read, List.flatMap_cons, joins, List.append_assoc,
              inductionHypothesis, ← List.filter_append]
            rfl

theorem flatMap_unterminated {offset : Nat} {tokens : List Token} (stream : Stream offset tokens) :
    (gather tokens).flatMap unterminated = tokens.filter Token.isUnterminatedComment :=
  flatMap_gather (fun _ read => ⟨(Token.isSignificant_eq_true.mp read).2, rfl⟩)
    (fun _ _ => rfl) stream

theorem flatMap_comments {offset : Nat} {tokens : List Token} (stream : Stream offset tokens) :
    (gather tokens).flatMap comments = tokens.filter (·.kind.isTrivia) :=
  flatMap_gather (fun _ read => ⟨(Token.isSignificant_eq_true.mp read).1, rfl⟩)
    (fun _ _ => rfl) stream

/-- No two comments begin at the same offset, in one item or in two. -/
theorem comments_apart {offset : Nat} {tokens : List Token} (stream : Stream offset tokens) :
    (∀ item ∈ gather tokens, item.comments.Pairwise fun first second =>
      first.start ≠ second.start) ∧
      ∀ first ∈ gather tokens, ∀ second ∈ gather tokens, ∀ comment ∈ first.comments,
        ∀ other ∈ second.comments, comment.start = other.start → first = second := by
  have distinct : tokens.Pairwise fun first second => first.start ≠ second.start :=
    List.pairwise_map.mp (stream.starts.imp Nat.ne_of_lt)
  have kept : (tokens.filter (·.kind.isTrivia)).Pairwise
      fun first second => first.start ≠ second.start := distinct.sublist List.filter_sublist
  rw [← flatMap_comments stream, List.pairwise_flatMap] at kept
  have symmetric : Std.Symm fun first second : Item => ∀ comment ∈ first.comments,
      ∀ other ∈ second.comments, comment.start ≠ other.start :=
    ⟨fun _ _ apart comment inside other within => (apart other within comment inside).symm⟩
  refine ⟨kept.1, fun first found second also comment inside other within same => ?_⟩
  by_contra different
  exact kept.2.forall found also different comment inside other within same

end Item

/-- The comments between the last significant token before an offset, or the start of the file, and
the token at that offset. -/
def commentsBefore (tokens : List Token) (offset : Nat) : List Token :=
  let earlier := tokens.takeWhile fun token => token.start < offset
  (earlier.reverse.takeWhile fun token => !token.isSignificant).reverse.filter (·.kind.isTrivia)

theorem commentsBefore_item {offset : Nat} {tokens : List Token} (stream : Stream offset tokens)
    {item : Item} (member : item ∈ Item.gather tokens) :
    commentsBefore tokens item.token.start = item.comments := by
  obtain ⟨earlier, later, split⟩ := List.append_of_mem member
  obtain ⟨front, gap, back, cut⟩ := Item.exists_cut split
  have starts := List.pairwise_map.mp stream.starts
  rw [cut.whole, ← List.append_assoc] at starts
  have before : ∀ token ∈ front ++ gap, decide (token.start < item.token.start) = true := by
    intro token inside
    exact decide_eq_true
      ((List.pairwise_append.mp starts).2.2 token inside item.token (List.mem_cons_self ..))
  have taken : tokens.takeWhile (fun token => token.start < item.token.start) = front ++ gap := by
    rw [cut.whole, ← List.append_assoc, List.takeWhile_append_of_pos before,
      List.takeWhile_cons_of_neg (by simp), List.append_nil]
  have passed : ∀ token ∈ gap.reverse, (!token.isSignificant) = true := by
    intro token inside
    simp [cut.passed token (List.mem_reverse.mp inside)]
  have stopped : front.reverse.takeWhile (fun token => !token.isSignificant) = [] := by
    cases last : front.reverse with
    | nil => rfl
    | cons token rest =>
        have isLast : front.getLast? = some token := by rw [← List.head?_reverse, last]; rfl
        rw [cut.previous] at isLast
        obtain ⟨previous, found, rfl⟩ := Option.map_eq_some_iff.mp isLast
        have gathered : previous ∈ Item.gather tokens := by
          rw [split]
          exact List.mem_append_left _ (List.mem_of_getLast? found)
        exact List.takeWhile_cons_of_neg (by simp [(Item.token_gather gathered).2])
  simp only [commentsBefore, taken, List.reverse_append]
  rw [List.takeWhile_append_of_pos passed, stopped, List.append_nil, List.reverse_reverse,
    cut.comments]

end PhpTree
