import PhpTree.Token.Scan

/-! # Searches that do not look everywhere

Page text is searched for a tag from one `<` to the next, and the end of a doc comment
behind its second star.  Both find what a search of every offset finds. -/
set_option autoImplicit false
namespace PhpTree

/-- `stop` is the first offset from `start` on at which something is found. -/
structure IsFirst (found : Nat → Prop) (start stop : Nat) : Prop where
  le : start ≤ stop
  passes : ∀ offset, start ≤ offset → offset < stop → ¬ found offset
  stops : found stop

namespace IsFirst

variable {found : Nat → Prop} {start stop : Nat}

theorem here (stops : found start) : IsFirst found start start :=
  ⟨Nat.le_refl _, fun _ after before => absurd before (Nat.not_lt.mpr after), stops⟩

theorem later (passed : ¬ found start) (behind : IsFirst found (start + 1) stop) :
    IsFirst found start stop := by
  refine ⟨Nat.le_of_succ_le behind.le, fun offset after before => ?_, behind.stops⟩
  rcases Nat.eq_or_lt_of_le after with rfl | after
  · exact passed
  · exact behind.passes offset after before

theorem unique {other : Nat} (first : IsFirst found start stop)
    (also : IsFirst found start other) : stop = other := by
  apply Nat.le_antisymm
  · exact Nat.le_of_not_lt fun before => first.passes other also.le before also.stops
  · exact Nat.le_of_not_lt fun before => also.passes stop first.le before first.stops

end IsFirst

theorem drop_eq_cons {source : List UInt8} {offset : Nat} {byte : UInt8} {rest : List UInt8}
    (here : source.drop offset = byte :: rest) :
    offset < source.length ∧ source.drop (offset + 1) = rest := by
  refine ⟨?_, by rw [← List.drop_drop, here, List.drop_succ_cons, List.drop_zero]⟩
  apply Nat.lt_of_not_le
  intro past
  rw [List.drop_eq_nil_of_le past] at here
  cases here

/-- A search that looks at one offset after another finds the first place to stop, or the end. -/
theorem isFirst_of_search (search : Nat → List UInt8 → Nat) (stops : List UInt8 → Prop)
    (atEnd : ∀ taken, search taken [] = taken)
    (stopped : ∀ taken byte rest, stops (byte :: rest) → search taken (byte :: rest) = taken)
    (passed : ∀ taken byte rest, ¬ stops (byte :: rest) →
      search taken (byte :: rest) = search (taken + 1) rest)
    {source : List UInt8} (start taken : Nat) (inside : start + taken ≤ source.length) :
    IsFirst (fun offset => stops (source.drop offset) ∨ offset = source.length) (start + taken)
      (start + search taken (source.drop (start + taken))) := by
  generalize input_eq : source.drop (start + taken) = input
  induction input generalizing taken with
  | nil =>
      rw [atEnd]
      exact .here (.inr (Nat.le_antisymm inside (List.drop_eq_nil_iff.mp input_eq)))
  | cons byte rest inductionHypothesis =>
      obtain ⟨here, behind⟩ := drop_eq_cons input_eq
      by_cases stop : stops (byte :: rest)
      · rw [stopped taken byte rest stop]
        exact .here (.inl (input_eq ▸ stop))
      · rw [passed taken byte rest stop]
        exact .later (not_or.mpr ⟨input_eq ▸ stop, Nat.ne_of_lt here⟩)
          (inductionHypothesis (taken + 1) here behind)

namespace Scan

/-- Length of the page text in front of the first open tag, every offset looked at. -/
def pageTextEnd (shortTags : Bool) : (taken : Nat) → List UInt8 → Nat
  | taken, [] => taken
  | taken, byte :: rest =>
    if (openTag? shortTags (byte :: rest)).isSome then taken
    else pageTextEnd shortTags (taken + 1) rest

theorem openTag?_of_ne {byte : UInt8} (other : byte ≠ byteOf '<') (shortTags : Bool)
    (rest : List UInt8) : openTag? shortTags (byte :: rest) = none := by
  have differs : (byteOf '<' == byte) = false := beq_eq_false_iff_ne.mpr (Ne.symm other)
  have noPrefix : ∀ symbol : List UInt8,
      (byteOf '<' :: symbol).isPrefixOf (byte :: rest) = false := by
    intro symbol
    rw [List.isPrefixOf, differs, Bool.false_and]
  have noTag : (bytesOf "<?php").isPrefixOf (byte :: rest) = false ∧
      (bytesOf "<?=").isPrefixOf (byte :: rest) = false ∧
      (bytesOf "<?").isPrefixOf (byte :: rest) = false :=
    ⟨noPrefix (bytesOf "?php"), noPrefix (bytesOf "?="), noPrefix (bytesOf "?")⟩
  simp [openTag?, noTag]

theorem seekOpenTag_eq_pageTextEnd (shortTags : Bool) (input : List UInt8) :
    ∀ skip taken : Nat, (∀ byte ∈ input.take skip, byte ≠ byteOf '<') →
      seekOpenTag shortTags skip taken input = pageTextEnd shortTags taken input := by
  induction input with
  | nil =>
      intro skip taken _
      cases skip <;> rfl
  | cons byte rest inductionHypothesis =>
      intro skip taken passed
      cases skip with
      | zero =>
          rw [seekOpenTag, pageTextEnd]
          split
          · rfl
          · apply inductionHypothesis
            rw [List.prefix_iff_eq_take.mp (List.takeWhile_prefix _) |>.symm]
            intro next member
            simpa using List.all_eq_true.mp List.all_takeWhile next member
      | succ skip =>
          have noTag := openTag?_of_ne (passed byte (by simp)) shortTags rest
          rw [seekOpenTag, pageTextEnd, noTag, if_neg (by simp)]
          exact inductionHypothesis skip (taken + 1)
            fun next member => passed next (by simp [member])

/-- An open tag begins here. -/
def opensTag (shortTags : Bool) (input : List UInt8) : Bool :=
  (bytesOf "<?php").isPrefixOf input || (bytesOf "<?=").isPrefixOf input ||
    shortTags && (bytesOf "<?").isPrefixOf input

theorem openTag?_isSome (shortTags : Bool) (input : List UInt8) :
    (openTag? shortTags input).isSome = opensTag shortTags input := by
  unfold openTag? opensTag
  split
  · simp [*]
  · split
    · simp [*]
    · split <;> simp [*]

/-- Read off a source from `start` on, page text stops where the first tag begins, or at the end. -/
theorem isFirst_pageTextEnd {shortTags : Bool} {source : List UInt8} (start taken : Nat)
    (inside : start + taken ≤ source.length) :
    IsFirst (fun offset => opensTag shortTags (source.drop offset) = true ∨ offset = source.length)
      (start + taken) (start + pageTextEnd shortTags taken (source.drop (start + taken))) := by
  refine isFirst_of_search (pageTextEnd shortTags) (opensTag shortTags · = true) (fun _ => rfl)
    ?_ ?_ start taken inside
  · intro taken byte rest tag
    rw [pageTextEnd, openTag?_isSome, if_pos tag]
  · intro taken byte rest noTag
    rw [pageTextEnd, openTag?_isSome, if_neg noTag]

theorem page_eq (shortTags : Bool) (input : List UInt8) :
    page shortTags input =
      if input.isEmpty then ⟨.eof, 0⟩
      else (openTag? shortTags input).getD ⟨.inlineHtml, pageTextEnd shortTags 0 input⟩ := by
  rw [page, seekOpenTag_eq_pageTextEnd shortTags input 0 0 (by simp)]

/-- Behind a doc opener, the byte after the second star keeps that star from closing the comment. -/
theorem blockCommentEnd?_of_isDocOpener {input : List UInt8} (doc : isDocOpener input = true) :
    blockCommentEnd? 3 (input.drop 3) = blockCommentEnd? 2 (input.drop 2) := by
  simp only [isDocOpener, Bool.and_eq_true, Bool.not_eq_true'] at doc
  obtain ⟨⟨behind, rfl⟩, notEmpty⟩ := doc.imp_left List.isPrefixOf_iff_prefix.mp
  have goesOn : (bytesOf "*/").isPrefixOf (byteOf '*' :: behind) = false := notEmpty
  show _ = blockCommentEnd? 2 (byteOf '*' :: behind)
  rw [blockCommentEnd?, goesOn]
  rfl

theorem blockComment?_eq (input : List UInt8) :
    blockComment? input =
      if (bytesOf "/*").isPrefixOf input then
        match blockCommentEnd? 2 (input.drop 2) with
        | some length => some ⟨if isDocOpener input then .docComment else .comment, length⟩
        | none => some ⟨.error, input.length⟩
      else none := by
  by_cases doc : isDocOpener input = true
  · have same := blockCommentEnd?_of_isDocOpener doc
    cases found : blockCommentEnd? 2 (input.drop 2) <;> simp [blockComment?, doc, same, found]
  · cases found : blockCommentEnd? 2 (input.drop 2) <;> simp [blockComment?, doc, found]

end Scan
end PhpTree
