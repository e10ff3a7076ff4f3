import Mathlib.Data.List.GetD
import PhpTree.Source.Position

/-! # Lines are counted by line feeds

The table of line starts is in increasing order, so halving it finds how many lines begin
at or before an offset: one more than there are line feeds in front of the offset. -/
set_option autoImplicit false
namespace PhpTree

/-- The line of an offset, counted from one. -/
def lineAt (source : List UInt8) (offset : Nat) : Nat := 1 + (source.take offset).count lineFeed

/-! ## Halving -/

theorem getD_le_iff_lt_countP {numbers : List Nat} (increasing : numbers.Pairwise (· < ·))
    (bound : Nat) : ∀ index < numbers.length,
      numbers.getD index 0 ≤ bound ↔ index < numbers.countP (· ≤ bound) := by
  induction numbers with
  | nil => nofun
  | cons first rest inductionHypothesis =>
      obtain ⟨least, increasing⟩ := List.pairwise_cons.mp increasing
      intro index inside
      by_cases small : first ≤ bound
      · rw [List.countP_cons_of_pos (by simpa using small)]
        cases index with
        | zero => simp [small]
        | succ index =>
            rw [List.getD_cons_succ, Nat.add_lt_add_iff_right]
            exact inductionHypothesis increasing index (Nat.lt_of_succ_lt_succ inside)
      · have large : ∀ number ∈ first :: rest, ¬ number ≤ bound :=
          List.forall_mem_cons.mpr ⟨small, fun number member fits =>
            small (Nat.le_trans (Nat.le_of_lt (least number member)) fits)⟩
        rw [List.countP_eq_zero.mpr (by simpa using large), List.getD_eq_getElem _ _ inside]
        simpa using large _ (List.getElem_mem inside)

namespace LineIndex

/-- The search ends at the place where the table is cut. -/
theorem search_eq {starts : Array Nat} {offset place : Nat}
    (cut : ∀ index < starts.size, starts.getD index 0 ≤ offset ↔ index < place) (steps : Nat) :
    ∀ {low high : Nat}, low ≤ place → place ≤ high → high ≤ starts.size → high - low ≤ steps →
      search starts offset steps low high = place := by
  induction steps with
  | zero =>
      intro low high after before _ enough
      rw [search]
      omega
  | succ steps inductionHypothesis =>
      intro low high after before bounded enough
      rw [search]
      split
      · have middle := cut ((low + high) / 2) (by omega)
        simp only [middle]
        split
        · exact inductionHypothesis (by omega) before bounded (by omega)
        · exact inductionHypothesis after (by omega) (by omega) (by omega)
      · omega

end LineIndex

/-! ## The table -/

theorem lt_of_mem_startsAfterFeeds (source : List UInt8) :
    ∀ offset, ∀ start ∈ startsAfterFeeds offset source, offset < start := by
  induction source with
  | nil => nofun
  | cons byte rest inductionHypothesis =>
      intro offset start member
      have later := fun inside => Nat.lt_of_succ_lt (inductionHypothesis (offset + 1) start inside)
      rw [startsAfterFeeds] at member
      split at member
      · rcases List.mem_cons.mp member with rfl | inside
        · exact Nat.lt_succ_self offset
        · exact later inside
      · exact later member

theorem pairwise_startsAfterFeeds (source : List UInt8) :
    ∀ offset, (startsAfterFeeds offset source).Pairwise (· < ·) := by
  induction source with
  | nil => exact fun _ => .nil
  | cons byte rest inductionHypothesis =>
      intro offset
      rw [startsAfterFeeds]
      split
      · exact .cons (lt_of_mem_startsAfterFeeds rest _) (inductionHypothesis _)
      · exact inductionHypothesis _

/-- As many lines begin behind the first byte as line feeds come before. -/
theorem countP_startsAfterFeeds (source : List UInt8) (bound : Nat) :
    ∀ offset, (startsAfterFeeds offset source).countP (· ≤ bound) =
      (source.take (bound - offset)).count lineFeed := by
  induction source with
  | nil => simp [startsAfterFeeds]
  | cons byte rest inductionHypothesis =>
      intro offset
      by_cases reached : bound ≤ offset
      · have beyond : ∀ start ∈ startsAfterFeeds offset (byte :: rest), ¬ start ≤ bound :=
          fun start member fits => Nat.not_lt_of_le (Nat.le_trans fits reached)
            (lt_of_mem_startsAfterFeeds _ offset start member)
        rw [List.countP_eq_zero.mpr (by simpa using beyond), Nat.sub_eq_zero_of_le reached]
        simp
      · have one : bound - offset = bound - (offset + 1) + 1 := by omega
        rw [one, List.take_succ_cons, List.count_cons, ← inductionHypothesis, startsAfterFeeds]
        split
        · exact List.countP_cons_of_pos (by simpa using (by omega : offset + 1 ≤ bound))
        · rfl

namespace LineIndex

theorem line_ofSource (source : List UInt8) (offset : Nat) :
    (ofSource source).line offset = lineAt source offset := by
  have increasing : (0 :: startsAfterFeeds 0 source).Pairwise (· < ·) :=
    .cons (lt_of_mem_startsAfterFeeds source 0) (pairwise_startsAfterFeeds source 0)
  have count : (0 :: startsAfterFeeds 0 source).countP (· ≤ offset) = lineAt source offset := by
    rw [List.countP_cons_of_pos (by simp), countP_startsAfterFeeds, Nat.sub_zero, lineAt,
      Nat.add_comm]
  have few : lineAt source offset ≤ (ofSource source).starts.size := by
    rw [← count]
    exact List.countP_le_length
  refine search_eq (fun index inside => ?_) _ (Nat.zero_le _) few (Nat.le_refl _) (Nat.le_refl _)
  have listed : (ofSource source).starts.getD index 0 =
      (0 :: startsAfterFeeds 0 source).getD index 0 := by
    simp [ofSource]
  rw [← count, listed]
  exact getD_le_iff_lt_countP increasing offset index inside

end LineIndex

/-! ## Positions -/

/-- The position runs forwards inside the source, on the lines of its first and its last byte;
an empty one lies on a single line. -/
structure Position.IsCoherent (source : List UInt8) (position : Position) : Prop where
  forward : position.startOffset ≤ position.endOffset
  inside : position.endOffset ≤ source.length
  startLine : position.startLine = lineAt source position.startOffset
  endLine : position.endLine =
    if position.startOffset < position.endOffset then lineAt source (position.endOffset - 1)
    else position.startLine

instance (source : List UInt8) (position : Position) : Decidable (position.IsCoherent source) :=
  decidable_of_iff
    (position.startOffset ≤ position.endOffset ∧ position.endOffset ≤ source.length ∧
      position.startLine = lineAt source position.startOffset ∧
      position.endLine =
        if position.startOffset < position.endOffset then lineAt source (position.endOffset - 1)
        else position.startLine)
    ⟨fun ⟨forward, inside, startLine, endLine⟩ => ⟨forward, inside, startLine, endLine⟩,
      fun ⟨forward, inside, startLine, endLine⟩ => ⟨forward, inside, startLine, endLine⟩⟩

theorem LineIndex.position_isCoherent {source : List UInt8} {span : Span}
    (forward : span.start ≤ span.stop) (inside : span.stop ≤ source.length) :
    ((ofSource source).position span).IsCoherent source where
  forward
  inside
  startLine := line_ofSource source span.start
  endLine := by simp only [position, line_ofSource]

theorem Position.IsCoherent.through {source : List UInt8} {first last : Position}
    (begins : first.IsCoherent source) (ends : last.IsCoherent source)
    (covers : last.startOffset < last.endOffset) (forward : first.startOffset < last.endOffset) :
    (first.through last).IsCoherent source where
  forward := Nat.le_of_lt forward
  inside := ends.inside
  startLine := begins.startLine
  endLine := by
    have line := ends.endLine
    rw [if_pos covers] at line
    exact line.trans (if_pos forward).symm

/-! ## What the lookup answers -/

theorem lineAt_le_of_le (source : List UInt8) {offset later : Nat} (le : offset ≤ later) :
    lineAt source offset ≤ lineAt source later :=
  Nat.add_le_add_left ((List.take_prefix_take_left le).sublist.count_le _) 1

/-- Bytes from the offset on do not matter. -/
theorem lineAt_congr {source other : List UInt8} {offset bound : Nat} (le : offset ≤ bound)
    (same : other.take bound = source.take bound) : lineAt other offset = lineAt source offset := by
  have front : other.take offset = source.take offset := calc
    other.take offset = (other.take bound).take offset := by
      rw [List.take_take, Nat.min_eq_left le]
    _ = (source.take bound).take offset := by rw [same]
    _ = source.take offset := by rw [List.take_take, Nat.min_eq_left le]
  rw [lineAt, lineAt, front]

theorem length_startsAfterFeeds (source : List UInt8) :
    ∀ offset, (startsAfterFeeds offset source).length = source.count lineFeed := by
  induction source with
  | nil => exact fun _ => rfl
  | cons byte rest inductionHypothesis =>
      intro offset
      rw [startsAfterFeeds, List.count_cons, ← inductionHypothesis (offset + 1)]
      split <;> rfl

namespace LineIndex

theorem lineCount_ofSource (source : List UInt8) :
    (ofSource source).lineCount = 1 + source.count lineFeed := by
  rw [← length_startsAfterFeeds source 0, Nat.add_comm]
  rfl

theorem line_le_lineCount (source : List UInt8) (offset : Nat) :
    (ofSource source).line offset ≤ (ofSource source).lineCount := by
  rw [line_ofSource, lineCount_ofSource]
  exact Nat.add_le_add_left ((List.take_sublist offset source).count_le _) 1

theorem lines_position (source : List UInt8) (span : Span) :
    ((ofSource source).position span).startLine = lineAt source span.start ∧
      ((ofSource source).position span).endLine =
        lineAt source (if span.start < span.stop then span.stop - 1 else span.start) := by
  refine ⟨line_ofSource source span.start, ?_⟩
  simp only [position, line_ofSource]
  split <;> rfl

/-- The line of an offset is one more than the number of line feeds before it, wherever the offset
lies. So lines increase along the source, and none lies beyond the last. A position begins on the
line of its first byte, ends no earlier, on the line of its last byte, and its lines do not depend
on what comes after it. -/
theorem lookup_counts_feeds (source : List UInt8) :
    (∀ offset, (ofSource source).line offset = 1 + (source.take offset).count lineFeed) ∧
      (∀ offset later, offset ≤ later →
        (ofSource source).line offset ≤ (ofSource source).line later) ∧
      (∀ offset, 1 ≤ (ofSource source).line offset ∧
        (ofSource source).line offset ≤ (ofSource source).lineCount) ∧
      ∀ span : Span, span.start ≤ span.stop →
        let position := (ofSource source).position span
        position.startLine = (ofSource source).line span.start ∧
          position.startLine ≤ position.endLine ∧
          (span.start < span.stop → position.endLine = (ofSource source).line (span.stop - 1)) ∧
          ∀ other : List UInt8, other.take span.stop = source.take span.stop →
            ((ofSource other).position span).startLine = position.startLine ∧
              ((ofSource other).position span).endLine = position.endLine := by
  refine ⟨line_ofSource source, fun offset later le => ?_, fun offset => ⟨?_, ?_⟩,
    fun span forward => ?_⟩
  · rw [line_ofSource, line_ofSource]
    exact lineAt_le_of_le source le
  · rw [line_ofSource]
    exact Nat.le_add_right 1 _
  · exact line_le_lineCount source offset
  · obtain ⟨startLine, endLine⟩ := lines_position source span
    have last : span.start ≤ (if span.start < span.stop then span.stop - 1 else span.start) ∧
        (if span.start < span.stop then span.stop - 1 else span.start) ≤ span.stop := by
      split <;> omega
    refine ⟨rfl, ?_, fun covers => if_pos covers, fun other same => ?_⟩
    · rw [startLine, endLine]
      exact lineAt_le_of_le source last.1
    · obtain ⟨otherStart, otherEnd⟩ := lines_position other span
      rw [startLine, endLine, otherStart, otherEnd]
      exact ⟨lineAt_congr forward same, lineAt_congr last.2 same⟩

theorem lookup_counts_feeds_between_feeds :
    let source : List UInt8 := [97, 10, 98, 10, 99]
    let other : List UInt8 := [97, 10, 98, 10, 10, 10]
    (ofSource source).line 2 ≤ (ofSource source).line 7 ∧
      ((ofSource source).position ⟨1, 4⟩).startLine = 1 ∧
      ((ofSource source).position ⟨1, 4⟩).endLine = (ofSource source).line 3 ∧
      (ofSource source).line 3 = 2 ∧
      ((ofSource other).position ⟨1, 4⟩).endLine = ((ofSource source).position ⟨1, 4⟩).endLine := by
  intro source other
  obtain ⟨counts, increases, _, positions⟩ := lookup_counts_feeds source
  obtain ⟨begins, _, ends, stays⟩ := positions ⟨1, 4⟩ (by decide)
  exact ⟨increases 2 7 (by decide), begins.trans (counts 1), ends (by decide), counts 3,
    (stays other (by decide)).2⟩

end LineIndex
end PhpTree
