import Mathlib.Data.List.Find
import PhpTree.Proofs.CursorAgreement
import PhpTree.Proofs.Tiling

/-! # Where a blank breaks the source

No token runs across a blank, comments and quoted text apart.  So what stands behind a
blank has no say in how the source before it is read, except that it may close a
comment or a quote that the source left open, and that a line feed joins a close tag
in front of it.  A source that ends with a semicolon, comments aside, leaves nothing
open: with a line feed behind it any other source may follow. -/
set_option autoImplicit false
namespace PhpTree

@[elab_as_elim]
theorem Byte.of_isBlank {property : UInt8 → Prop} {byte : UInt8} (blank : isBlank byte = true)
    (each : property 32 ∧ property 9 ∧ property 10 ∧ property 12 ∧ property 13) :
    property byte := by
  have cases : byte = 32 ∨ byte = 9 ∨ byte = 10 ∨ byte = 12 ∨ byte = 13 := by
    simpa [isBlank, or_assoc] using blank
  obtain ⟨space, tab, lineFeed, formFeed, carriageReturn⟩ := each
  rcases cases with rfl | rfl | rfl | rfl | rfl
  · exact space
  · exact tab
  · exact lineFeed
  · exact formFeed
  · exact carriageReturn

/-- The input ends here, or a blank comes. -/
def StartsWithBlank (tail : List UInt8) : Prop := ∀ byte ∈ tail.head?, Byte.isBlank byte = true

theorem StartsWithBlank.cases {tail : List UInt8} (breaks : StartsWithBlank tail) :
    tail = [] ∨ ∃ byte more, Byte.isBlank byte = true ∧ tail = byte :: more := by
  cases tail with
  | nil => exact .inl rfl
  | cons byte more => exact .inr ⟨byte, more, breaks byte rfl, rfl⟩

/-! ## Scanners -/

namespace Scan

variable {input tail : List UInt8}

theorem takeWhile_append_blank {accepts : UInt8 → Bool}
    (stops : ∀ {byte}, Byte.isBlank byte = true → accepts byte = false) (input : List UInt8)
    (breaks : StartsWithBlank tail) :
    (input ++ tail).takeWhile accepts = input.takeWhile accepts := by
  induction input with
  | nil =>
      rcases breaks.cases with rfl | ⟨byte, more, blank, rfl⟩
      · rfl
      · simp [stops blank]
  | cons byte input inductionHypothesis =>
      rw [List.cons_append, List.takeWhile_cons, List.takeWhile_cons, inductionHypothesis]

theorem isPrefixOf_append_blank {symbol : List UInt8} (unbroken : symbol.any Byte.isBlank = false)
    (input : List UInt8) (breaks : StartsWithBlank tail) :
    symbol.isPrefixOf (input ++ tail) = symbol.isPrefixOf input := by
  induction symbol generalizing input with
  | nil => simp
  | cons byte symbol inductionHypothesis =>
      obtain ⟨here, later⟩ := Bool.or_eq_false_iff.mp unbroken
      cases input with
      | nil =>
          rcases breaks.cases with rfl | ⟨blank, more, isBlank, rfl⟩
          · rfl
          · have differs : (byte == blank) = false := by
              apply beq_eq_false_iff_ne.mpr
              rintro rfl
              rw [here] at isBlank
              cases isBlank
            simp [List.isPrefixOf, differs]
      | cons next input =>
          rw [List.cons_append, List.isPrefixOf, List.isPrefixOf,
            inductionHypothesis later input]

theorem isNamePart_of_isBlank {byte : UInt8} (blank : Byte.isBlank byte = true) :
    Byte.isNamePart byte = false :=
  Byte.of_isBlank blank (by decide)

theorem word?_append_blank (left : input ≠ []) (breaks : StartsWithBlank tail) :
    word? (input ++ tail) = word? input := by
  cases input with
  | nil => exact absurd rfl left
  | cons first rest =>
      rw [List.cons_append, word?, word?,
        takeWhile_append_blank isNamePart_of_isBlank rest breaks]

theorem variableName?_append_blank (left : input ≠ []) (breaks : StartsWithBlank tail) :
    variableName? (input ++ tail) = variableName? input := by
  match input with
  | [] => exact absurd rfl left
  | [first] =>
      rcases breaks.cases with rfl | ⟨byte, more, blank, rfl⟩
      · rfl
      · have noName : Byte.isNameStart byte = false := Byte.of_isBlank blank (by decide)
        simp [variableName?, noName]
  | first :: second :: rest =>
      rw [List.cons_append, List.cons_append, variableName?, variableName?,
        takeWhile_append_blank isNamePart_of_isBlank rest breaks]

theorem decimalEnd_append_blank (fractional : Bool) (taken : Nat) (input : List UInt8)
    (breaks : StartsWithBlank tail) :
    decimalEnd fractional taken (input ++ tail) = decimalEnd fractional taken input := by
  fun_induction decimalEnd fractional taken input with
  | case1 fractional taken =>
      rcases breaks.cases with rfl | ⟨byte, more, blank, rfl⟩
      · rfl
      · have noMark : (Byte.isDigit byte || byte == byteOf '_') = false ∧
            (byte == byteOf '.') = false ∧ (Byte.toLower byte == byteOf 'e') = false :=
          Byte.of_isBlank blank (by decide)
        rw [List.nil_append, decimalEnd.eq_def]
        simp [noMark]
  | case2 fractional taken byte rest digit inductionHypothesis =>
      rw [List.cons_append, decimalEnd.eq_def]
      simp only [if_pos digit, inductionHypothesis]
  | case3 fractional taken byte rest digit point inductionHypothesis =>
      rw [List.cons_append, decimalEnd.eq_def]
      simp only [if_neg digit, if_pos point, inductionHypothesis]
  | case4 fractional taken byte digit point mark =>
      -- An exponent mark at the end of the input is no part of the number, nor before a blank.
      rcases breaks.cases with rfl | ⟨next, more, blank, rfl⟩
      · rw [List.append_nil, decimalEnd.eq_def]
        simp only [if_neg digit, if_neg point, if_pos mark]
      · have noSign : ¬ (next == byteOf '+' || next == byteOf '-') = true ∧
            ¬ Byte.isDigit next = true :=
          Byte.of_isBlank blank (by decide)
        rw [List.cons_append, List.nil_append, decimalEnd.eq_def]
        simp only [if_neg digit, if_neg point, if_pos mark, if_neg noSign.1, if_neg noSign.2]
  | case5 fractional taken byte digit point mark next rest sign inductionHypothesis =>
      rw [List.cons_append, List.cons_append, decimalEnd.eq_def]
      simp only [if_neg digit, if_neg point, if_pos mark, if_pos sign, inductionHypothesis]
  | case6 fractional taken byte digit point mark next rest sign nextDigit inductionHypothesis =>
      rw [List.cons_append] at inductionHypothesis
      rw [List.cons_append, List.cons_append, decimalEnd.eq_def]
      simp only [if_neg digit, if_neg point, if_pos mark, if_neg sign, if_pos nextDigit,
        inductionHypothesis]
  | case7 fractional taken byte digit point mark next rest sign nextDigit =>
      rw [List.cons_append, List.cons_append, decimalEnd.eq_def]
      simp only [if_neg digit, if_neg point, if_pos mark, if_neg sign, if_neg nextDigit]
  | case8 fractional taken byte rest digit point mark =>
      rw [List.cons_append, decimalEnd.eq_def]
      simp only [if_neg digit, if_neg point, if_neg mark]

theorem basedDigits?_stops {isBasedDigit : UInt8 → Bool}
    (found : basedDigits? input = some isBasedDigit) {byte : UInt8}
    (blank : Byte.isBlank byte = true) : (isBasedDigit byte || byte == byteOf '_') = false := by
  unfold basedDigits? at found
  split at found
  · split at found
    · cases found
    · dsimp only at found
      split at found
      · cases found
        exact Byte.of_isBlank blank (by decide)
      · split at found
        · cases found
          exact Byte.of_isBlank blank (by decide)
        · split at found
          · cases found
            exact Byte.of_isBlank blank (by decide)
          · cases found
  · cases found

theorem number?_append_blank (left : input ≠ []) (breaks : StartsWithBlank tail) :
    number? (input ++ tail) = number? input := by
  have starts : startsNumber (input ++ tail) = startsNumber input := by
    rcases input with _ | ⟨byte, _ | ⟨next, rest⟩⟩
    · exact absurd rfl left
    · rcases breaks.cases with rfl | ⟨blank, more, isBlank, rfl⟩
      · rfl
      · have noDigit : Byte.isDigit blank = false := Byte.of_isBlank isBlank (by decide)
        simp [startsNumber, noDigit]
    · rfl
  have based : basedDigits? (input ++ tail) = basedDigits? input := by
    rcases input with _ | ⟨zero, _ | ⟨marker, rest⟩⟩
    · exact absurd rfl left
    · rcases breaks.cases with rfl | ⟨blank, more, isBlank, rfl⟩
      · rfl
      · have noMarker : (Byte.toLower blank == byteOf 'x') = false ∧
            (Byte.toLower blank == byteOf 'b') = false ∧
            (Byte.toLower blank == byteOf 'o') = false :=
          Byte.of_isBlank isBlank (by decide)
        simp [basedDigits?, noMarker]
    · rfl
  rw [number?, number?, starts, based, decimalEnd_append_blank false 0 input breaks]
  by_cases number : startsNumber input = true
  · rw [if_pos number, if_pos number]
    rcases input with _ | ⟨zero, _ | ⟨marker, rest⟩⟩
    · rfl
    · rfl
    · cases found : basedDigits? (zero :: marker :: rest) with
      | none => rfl
      | some isBasedDigit =>
          simp only [List.cons_append, List.drop_succ_cons, List.drop_zero]
          rw [@takeWhile_append_blank tail (fun byte => isBasedDigit byte || byte == byteOf '_')
            (basedDigits?_stops found) rest breaks]
  · rw [if_neg number, if_neg number]

theorem quotedEnd?_append {quote : UInt8} (taken : Nat) {input : List UInt8} {length : Nat}
    (found : quotedEnd? quote taken input = some length) (tail : List UInt8) :
    quotedEnd? quote taken (input ++ tail) = some length := by
  fun_induction quotedEnd? quote taken input with
  | case1 => cases found
  | case2 taken byte rest closes =>
      rw [List.cons_append, quotedEnd?.eq_def]
      simpa only [if_pos closes] using found
  | case3 => cases found
  | case4 taken byte inside escapes next rest inductionHypothesis =>
      rw [List.cons_append, List.cons_append, quotedEnd?.eq_def]
      simpa only [if_neg inside, if_pos escapes] using inductionHypothesis found
  | case5 taken byte rest inside escapes inductionHypothesis =>
      rw [List.cons_append, quotedEnd?.eq_def]
      simpa only [if_neg inside, if_neg escapes] using inductionHypothesis found

theorem blockCommentEnd?_append (taken : Nat) {input : List UInt8} {length : Nat}
    (found : blockCommentEnd? taken input = some length) (breaks : StartsWithBlank tail) :
    blockCommentEnd? taken (input ++ tail) = some length := by
  fun_induction blockCommentEnd? taken input with
  | case1 => cases found
  | case2 taken byte rest closes =>
      rw [← isPrefixOf_append_blank (by decide) _ breaks] at closes
      rw [List.cons_append] at closes ⊢
      simpa only [blockCommentEnd?, if_pos closes] using found
  | case3 taken byte rest goesOn inductionHypothesis =>
      rw [← isPrefixOf_append_blank (by decide) _ breaks] at goesOn
      rw [List.cons_append] at goesOn ⊢
      simpa only [blockCommentEnd?, if_neg goesOn] using inductionHypothesis found

theorem lineCommentEnd_append (taken : Nat) (input : List UInt8) (breaks : StartsWithBlank tail) :
    lineCommentEnd taken (input ++ tail) = lineCommentEnd taken input ∨
      lineCommentEnd taken input = taken + input.length ∧ tail.head? ≠ some 10 := by
  fun_induction lineCommentEnd taken input with
  | case1 taken =>
      cases tail with
      | nil => exact .inl rfl
      | cons byte more =>
          by_cases lineFeed : byte = 10
          · subst lineFeed
            exact .inl rfl
          · exact .inr ⟨rfl, by simpa using lineFeed⟩
  | case2 taken byte rest ends =>
      rw [← isPrefixOf_append_blank (by decide) _ breaks] at ends
      rw [List.cons_append] at ends ⊢
      simp only [lineCommentEnd, if_pos ends, true_or]
  | case3 taken byte rest goesOn inductionHypothesis =>
      rw [← isPrefixOf_append_blank (by decide) _ breaks] at goesOn
      rw [List.cons_append] at goesOn ⊢
      simp only [lineCommentEnd, if_neg goesOn, List.length_cons]
      rwa [Nat.add_assoc, Nat.add_comm 1] at inductionHypothesis

end Scan

/-- A lexeme that could have been longer, had its input gone on. -/
structure Lexeme.IsOpen (lexeme : Lexeme) (input tail : List UInt8) : Prop where
  whole : lexeme.length = input.length
  kind : lexeme.kind = .error ∨ lexeme.kind = .closeTag ∨
    lexeme.kind = .comment ∧ tail.head? ≠ some 10

namespace Scan

/-- What the scanner says of an input it still says when a blank follows, unless what it found there
was left open. -/
def KeepsLexemes (scanner : List UInt8 → Option Lexeme) : Prop :=
  ∀ {input tail : List UInt8}, input ≠ [] → StartsWithBlank tail →
    scanner (input ++ tail) = scanner input ∨
      ∃ lexeme, scanner input = some lexeme ∧ lexeme.IsOpen input tail

theorem quoted?_keeps : KeepsLexemes quoted? := by
  intro input tail left breaks
  cases input with
  | nil => exact absurd rfl left
  | cons quote rest =>
      rw [List.cons_append]
      simp only [quoted?]
      split
      · cases ended : quotedEnd? quote 1 rest with
        | some length => exact .inl (by rw [quotedEnd?_append 1 ended tail])
        | none => exact .inr ⟨_, rfl, rfl, .inl rfl⟩
      · exact .inl rfl

theorem lineComment?_keeps : KeepsLexemes lineComment? := by
  intro input tail left breaks
  unfold lineComment?
  rw [isPrefixOf_append_blank (by decide) input breaks,
    isPrefixOf_append_blank (by decide) input breaks]
  -- With either opener the comment goes on to its end.
  have opened : ∀ count, count ≤ input.length →
      some (Lexeme.mk .comment (lineCommentEnd count ((input ++ tail).drop count))) =
          some ⟨.comment, lineCommentEnd count (input.drop count)⟩ ∨
        ∃ lexeme, some (Lexeme.mk .comment (lineCommentEnd count (input.drop count))) =
          some lexeme ∧ lexeme.IsOpen input tail := by
    intro count fits
    rw [List.drop_append_of_le_length fits]
    rcases lineCommentEnd_append count (input.drop count) breaks with same | ⟨whole, unended⟩
    · exact .inl (by rw [same])
    · refine .inr ⟨_, rfl, ?_, .inr (.inr ⟨rfl, unended⟩)⟩
      show lineCommentEnd count (input.drop count) = input.length
      rw [whole, List.length_drop]
      omega
  split
  · rename_i opens
    exact opened 1 (length_le_of_isPrefixOf opens)
  · split
    · rename_i opens
      exact opened 2 (length_le_of_isPrefixOf opens)
    · exact .inl rfl

theorem blockComment?_append_blank (input : List UInt8) {tail : List UInt8}
    (breaks : StartsWithBlank tail) :
    blockComment? (input ++ tail) = blockComment? input ∨
      blockComment? input = some ⟨.error, input.length⟩ := by
  rw [blockComment?_eq, blockComment?_eq]
  unfold isDocOpener
  simp only [isPrefixOf_append_blank (by decide : (bytesOf "/*").any _ = _) input breaks,
    isPrefixOf_append_blank (by decide : (bytesOf "/**").any _ = _) input breaks,
    isPrefixOf_append_blank (by decide : (bytesOf "/**/").any _ = _) input breaks]
  split
  · rename_i opens
    have fits : 2 ≤ input.length := length_le_of_isPrefixOf opens
    rw [List.drop_append_of_le_length fits]
    cases ended : blockCommentEnd? 2 (input.drop 2) with
    | some length => exact .inl (by rw [blockCommentEnd?_append 2 ended breaks])
    | none => exact .inr rfl
  · exact .inl rfl

theorem blockComment?_keeps : KeepsLexemes blockComment? := by
  intro input tail left breaks
  rcases blockComment?_append_blank input breaks with same | unclosed
  · exact .inl same
  · exact .inr ⟨_, unclosed, rfl, .inl rfl⟩

theorem closeTag?_keeps : KeepsLexemes closeTag? := by
  intro input tail left breaks
  unfold closeTag?
  rw [isPrefixOf_append_blank (by decide) input breaks]
  split
  · rename_i opens
    have fits : 2 ≤ input.length := length_le_of_isPrefixOf opens
    rw [List.drop_append_of_le_length fits]
    cases behind : input.drop 2 with
    | nil =>
        refine .inr ⟨_, rfl, ?_, .inr (.inl rfl)⟩
        have short := congrArg List.length behind
        rw [List.length_drop, List.length_nil] at short
        simp only [List.head?_nil]
        show 2 = input.length
        omega
    | cons byte rest => exact .inl rfl
  · exact .inl rfl

theorem symbolTable_unbroken : ∀ entry ∈ symbolTable, entry.1.any Byte.isBlank = false := by
  decide +kernel

theorem symbol?_append_blank (input : List UInt8) {tail : List UInt8}
    (breaks : StartsWithBlank tail) :
    symbol? (input ++ tail) = symbol? input := by
  have same : ∀ entry ∈ symbolTable,
      entry.1.isPrefixOf (input ++ tail) = entry.1.isPrefixOf input := fun entry member =>
    isPrefixOf_append_blank (symbolTable_unbroken entry member) input breaks
  rw [symbol?, symbol?, List.find?_congr same]

theorem scanners_keep : ∀ scanner ∈ scanners, KeepsLexemes scanner := by
  intro scanner member
  simp only [scanners, List.mem_cons, List.not_mem_nil, or_false] at member
  rcases member with rfl | rfl | rfl | rfl | rfl | rfl | rfl | rfl
  · exact fun left breaks => .inl (word?_append_blank left breaks)
  · exact fun left breaks => .inl (variableName?_append_blank left breaks)
  · exact fun left breaks => .inl (number?_append_blank left breaks)
  · exact quoted?_keeps
  · exact lineComment?_keeps
  · exact blockComment?_keeps
  · exact closeTag?_keeps
  · exact fun _ breaks => .inl (symbol?_append_blank _ breaks)

/-- Where no scanner changes its answer, but for answers that the token is not, the token stays. -/
theorem script_eq_of_agree {input other : List UInt8} (left : input ≠ []) (more : other ≠ [])
    {excused : Lexeme → Prop}
    (agree : ∀ scanner ∈ scanners, scanner other = scanner input ∨
      ∃ lexeme, scanner input = some lexeme ∧ excused lexeme)
    (firm : ¬ excused (script input)) : script other = script input := by
  have scanned : script input =
      (scanners.findSome? fun scanner => scanner input).getD ⟨.error, 1⟩ := by
    rw [script, if_neg (by simpa using left)]
  rw [scanned] at firm ⊢
  rw [script, if_neg (by simpa using more)]
  congr 1
  cases found : scanners.findSome? fun scanner => scanner input with
  | none =>
      rw [List.findSome?_eq_none_iff] at found ⊢
      intro scanner member
      rcases agree scanner member with same | ⟨lexeme, here, _⟩
      · rw [same, found scanner member]
      · rw [found scanner member] at here
        cases here
  | some lexeme =>
      rw [found] at firm
      obtain ⟨earlier, scanner, later, split, here, missed⟩ :=
        List.findSome?_eq_some_iff.mp found
      -- No scanner before the one that found the token finds anything now.
      refine List.findSome?_eq_some_iff.mpr ⟨earlier, scanner, later, split, ?_, ?_⟩
      · rcases agree scanner (by simp [split]) with same | ⟨answer, also, isExcused⟩
        · rw [same, here]
        · rw [here] at also
          cases also
          exact absurd isExcused firm
      · intro scanner member
        rcases agree scanner (by simp [split, member]) with same | ⟨answer, also, _⟩
        · rw [same, missed scanner member]
        · rw [missed scanner member] at also
          cases also

/-- The token at the front stays what it is when a blank follows. -/
theorem script_append_blank {input tail : List UInt8} (left : input ≠ [])
    (breaks : StartsWithBlank tail)
    (closed : ¬ (script input).IsOpen input tail) : script (input ++ tail) = script input :=
  script_eq_of_agree left (by simp [left])
    (fun scanner member => scanners_keep scanner member left breaks) closed

def isDull (byte : UInt8) : Bool :=
  !Byte.isNameStart byte && byte != byteOf '$' && !Byte.isDigit byte && byte != byteOf '.'

theorem script_of_dull {byte : UInt8} (dull : isDull byte = true) (rest : List UInt8) :
    script (byte :: rest) =
      ([quoted?, lineComment?, blockComment?, closeTag?, symbol?].findSome? fun scanner =>
        scanner (byte :: rest)).getD ⟨.error, 1⟩ := by
  simp only [isDull, Bool.and_eq_true, Bool.not_eq_true', bne_iff_ne] at dull
  obtain ⟨⟨⟨noName, noDollar⟩, noDigit⟩, noPoint⟩ := dull
  have noWord : word? (byte :: rest) = none := by simp [word?, noName]
  have noVariable : variableName? (byte :: rest) = none := by
    cases rest <;> simp [variableName?, noDollar]
  have noNumber : number? (byte :: rest) = none := by
    cases rest <;> simp [number?, startsNumber, noDigit, noPoint]
  simp [script, scanners, noWord, noVariable, noNumber]

/-! ## Page text -/

section Page
variable {shortTags : Bool} {input tail : List UInt8}

theorem openTag?_append_isSome (breaks : StartsWithBlank tail) (input : List UInt8) :
    (openTag? shortTags (input ++ tail)).isSome = (openTag? shortTags input).isSome := by
  unfold openTag?
  simp only [isPrefixOf_append_blank (by decide : (bytesOf "<?php").any _ = _) input breaks,
    isPrefixOf_append_blank (by decide : (bytesOf "<?=").any _ = _) input breaks,
    isPrefixOf_append_blank (by decide : (bytesOf "<?").any _ = _) input breaks]
  repeat' split
  all_goals rfl

theorem blankAfterTag_append {count : Nat} (inside : count < input.length) :
    blankAfterTag ((input ++ tail).drop count) = blankAfterTag (input.drop count) := by
  rw [List.drop_append_of_le_length (Nat.le_of_lt inside)]
  cases behind : input.drop count with
  | nil =>
      rw [List.drop_eq_nil_iff] at behind
      omega
  | cons byte rest => rfl

theorem openTag?_append (breaks : StartsWithBlank tail) {lexeme : Lexeme}
    (found : openTag? shortTags input = some lexeme) (inside : lexeme.length < input.length) :
    openTag? shortTags (input ++ tail) = some lexeme := by
  unfold openTag? at found ⊢
  simp only [isPrefixOf_append_blank (by decide : (bytesOf "<?php").any _ = _) input breaks,
    isPrefixOf_append_blank (by decide : (bytesOf "<?=").any _ = _) input breaks,
    isPrefixOf_append_blank (by decide : (bytesOf "<?").any _ = _) input breaks]
  split at found
  · cases found
    rw [if_pos ‹_›, blankAfterTag_append (Nat.lt_of_le_of_lt (Nat.le_add_right _ _) inside)]
  · rw [if_neg ‹_›]
    split at found
    · rw [if_pos ‹_›, found]
    · rw [if_neg ‹_›]
      split at found
      · cases found
        rw [if_pos ‹_›, blankAfterTag_append (Nat.lt_of_le_of_lt (Nat.le_add_right _ _) inside)]
      · cases found

theorem pageTextEnd_append (breaks : StartsWithBlank tail) (taken : Nat) (input : List UInt8)
    (inside : pageTextEnd shortTags taken input < taken + input.length) :
    pageTextEnd shortTags taken (input ++ tail) = pageTextEnd shortTags taken input := by
  fun_induction pageTextEnd shortTags taken input with
  | case1 taken => exact absurd inside (Nat.lt_irrefl _)
  | case2 taken byte rest tag =>
      rw [← openTag?_append_isSome breaks] at tag
      rw [List.cons_append] at tag ⊢
      rw [pageTextEnd, if_pos tag]
  | case3 taken byte rest noTag inductionHypothesis =>
      rw [← openTag?_append_isSome breaks] at noTag
      rw [List.cons_append] at noTag ⊢
      rw [pageTextEnd, if_neg noTag]
      apply inductionHypothesis
      rw [List.length_cons] at inside
      omega

theorem page_append_blank (breaks : StartsWithBlank tail)
    (inside : (page shortTags input).length < input.length) :
    page shortTags (input ++ tail) = page shortTags input := by
  have left : input ≠ [] := by
    rintro rfl
    exact absurd inside (Nat.not_lt_zero _)
  have more : input ++ tail ≠ [] := by simp [left]
  have here : page shortTags input =
      (openTag? shortTags input).getD ⟨.inlineHtml, pageTextEnd shortTags 0 input⟩ := by
    rw [page_eq, if_neg (by simpa using left)]
  rw [here] at inside ⊢
  rw [page_eq, if_neg (by simpa using more)]
  cases found : openTag? shortTags input with
  | some lexeme =>
      rw [found] at inside
      rw [openTag?_append breaks found inside]
      rfl
  | none =>
      rw [found] at inside
      have still : openTag? shortTags (input ++ tail) = none := by
        rw [← Option.isNone_iff_eq_none, ← Option.not_isSome, openTag?_append_isSome breaks, found]
        rfl
      rw [still]
      exact congrArg (Lexeme.mk .inlineHtml)
        (pageTextEnd_append breaks 0 input (by simpa using inside))

theorem page_kind (shortTags : Bool) (input : List UInt8) :
    (page shortTags input).kind = .eof ∨ (page shortTags input).kind = .openTag ∨
      (page shortTags input).kind = .openTagEcho ∨ (page shortTags input).kind = .inlineHtml := by
  unfold page openTag?
  repeat' split
  all_goals simp

end Page

end Scan

/-! ## The lexer -/

namespace Lexer

def followedBy (lexer : Lexer) (tail : List UInt8) : Lexer :=
  { lexer with rest := lexer.rest ++ tail }

section Step
variable {lexer : Lexer} {tail : List UInt8}

theorem skipBlanks_followedBy (left : lexer.skipBlanks.rest ≠ []) :
    (lexer.followedBy tail).skipBlanks = lexer.skipBlanks.followedBy tail := by
  obtain ⟨shortTags, mode, offset, rest⟩ := lexer
  cases mode with
  | page => rfl
  | script =>
      have short : ¬ (rest.takeWhile Byte.isBlank).length = rest.length := by
        intro whole
        exact left (by simp [skipBlanks, skip, whole])
      have fits := (List.takeWhile_prefix Byte.isBlank (l := rest)).length_le
      simp only [skipBlanks, followedBy, skip]
      rw [List.takeWhile_append, if_neg short, List.drop_append_of_le_length fits]

theorem next_followedBy (left : lexer.skipBlanks.rest ≠ [])
    (same : (lexer.skipBlanks.followedBy tail).lexeme = lexer.skipBlanks.lexeme) :
    (lexer.followedBy tail).next = (lexer.next.1, lexer.next.2.followedBy tail) := by
  have fits := lexer.skipBlanks.lexeme_length_le
  unfold next
  rw [skipBlanks_followedBy left, same]
  simp only [take, followedBy, skip]
  rw [List.take_append_of_le_length fits, List.drop_append_of_le_length fits]

end Step

theorem mode_skipBlanks (lexer : Lexer) : lexer.skipBlanks.mode = lexer.mode := by
  rw [lexer.skipBlanks_eq.1]
  rfl

theorem shortTags_skipBlanks (lexer : Lexer) : lexer.skipBlanks.shortTags = lexer.shortTags := by
  rw [lexer.skipBlanks_eq.1]
  rfl

theorem skipBlanks_inside {lexer : Lexer} {source : List UInt8} (inside : lexer.LiesInside source) :
    lexer.skipBlanks.LiesInside source := by
  obtain ⟨skips, splits⟩ := lexer.skipBlanks_eq
  have total := congrArg List.length splits
  have left := congrArg List.length inside.rest_eq
  have offset_le := inside.offset_le
  simp only [List.length_append, List.length_drop] at total left
  rw [skips]
  refine ⟨?_, ?_⟩
  · simp only [skip]
    omega
  · simp only [skip]
    rw [inside.rest_eq, List.drop_drop]

structure IsScanned (source : List UInt8) (token : Token) : Prop where
  start_le : token.start ≤ source.length
  kind : token.kind = (Scan.script (source.drop token.start)).kind
  bytes : token.bytes =
    (source.drop token.start).take (Scan.script (source.drop token.start)).length

theorem IsScanned.stop {source : List UInt8} {token : Token} (scanned : IsScanned source token) :
    token.stop = token.start + (Scan.script (source.drop token.start)).length := by
  rw [Token.stop, scanned.bytes, List.length_take, Nat.min_eq_left (Scan.script_length_le _)]

theorem next_isScanned {lexer : Lexer} {source : List UInt8} (inside : lexer.LiesInside source)
    (inScript : lexer.mode = .script) : IsScanned source lexer.next.1 := by
  have stripped := skipBlanks_inside inside
  have lexeme : lexer.skipBlanks.lexeme = Scan.script (source.drop lexer.skipBlanks.offset) := by
    rw [Lexer.lexeme, mode_skipBlanks, inScript, ← stripped.rest_eq]
  refine ⟨stripped.offset_le, ?_, ?_⟩
  · rw [next, take, lexeme]
  · rw [next, take, lexeme, stripped.rest_eq]

theorem shortTags_next (lexer : Lexer) : lexer.next.2.shortTags = lexer.shortTags :=
  lexer.shortTags_skipBlanks

theorem collect_eq_of_lt (fuel : Nat) :
    ∀ (lexer : Lexer) {more : Nat}, lexer.rest.length < fuel → lexer.rest.length < more →
      lexer.collect fuel [] = lexer.collect more [] := by
  induction fuel with
  | zero => exact fun lexer more enough => absurd enough (Nat.not_lt_zero _)
  | succ fuel inductionHypothesis =>
      intro lexer more enough otherEnough
      obtain ⟨more, rfl⟩ := Nat.exists_eq_add_one_of_ne_zero (Nat.ne_zero_of_lt otherEnough)
      simp only [collect]
      rcases lexer.next_cases with ⟨ends, _⟩ | ⟨goesOn, _, _, _, shorter⟩
      · rw [if_pos ends, if_pos ends]
      · rw [if_neg goesOn, if_neg goesOn, collect_eq fuel, collect_eq more,
          @inductionHypothesis lexer.next.2 more (by omega) (by omega)]

theorem tokens_of_eof {lexer : Lexer} (ends : lexer.next.1.kind = .eof) :
    lexer.tokens = [lexer.next.1] := by
  simp only [tokens, collect, if_pos ends]
  rfl

theorem tokens_of_ne_eof {lexer : Lexer} (goesOn : lexer.next.1.kind ≠ .eof) :
    lexer.tokens = lexer.next.1 :: lexer.next.2.tokens := by
  rcases lexer.next_cases with ⟨ends, _⟩ | ⟨_, _, _, _, shorter⟩
  · exact absurd ends goesOn
  · simp only [tokens, collect, if_neg goesOn]
    rw [collect_eq, collect_eq_of_lt _ lexer.next.2 shorter (Nat.lt_succ_self _)]
    rfl

def kinds (lexer : Lexer) : List TokenKind :=
  (lexer.tokens.filter fun token => token.isSignificant && token.kind ≠ .eof).map Token.kind

theorem kinds_of_eof {lexer : Lexer} (ends : lexer.next.1.kind = .eof) : lexer.kinds = [] := by
  simp [kinds, tokens_of_eof ends, ends]

theorem kinds_of_ne_eof {lexer : Lexer} (goesOn : lexer.next.1.kind ≠ .eof) :
    lexer.kinds = if lexer.next.1.isSignificant then lexer.next.1.kind :: lexer.next.2.kinds
      else lexer.next.2.kinds := by
  rw [kinds, tokens_of_ne_eof goesOn, List.filter_cons]
  simp only [goesOn, ne_eq, not_false_eq_true, decide_true, Bool.and_true]
  split <;> rfl

/-- The last significant token from here on, `before` standing for those that came earlier, is a
semicolon, and no comment is left open. -/
structure EndsAtSemicolon (before : TokenKind) (lexer : Lexer) : Prop where
  last : lexer.kinds.getLastD before = .semicolon
  inScript : before = .semicolon → lexer.mode = .script
  comments : ∀ token ∈ lexer.tokens, token.isUnterminatedComment = false

section Settling
variable {before : TokenKind} {lexer : Lexer} (settles : lexer.EndsAtSemicolon before)
include settles

theorem EndsAtSemicolon.next (goesOn : lexer.next.1.kind ≠ .eof) :
    lexer.next.2.EndsAtSemicolon
      (if lexer.next.1.isSignificant then lexer.next.1.kind else before) := by
  have cuts := lexer.next_cuts
  have comments := settles.comments
  rw [tokens_of_ne_eof goesOn, List.forall_mem_cons] at comments
  have last := settles.last
  rw [kinds_of_ne_eof goesOn] at last
  by_cases significant : lexer.next.1.isSignificant = true
  · rw [if_pos significant] at last ⊢
    refine ⟨by rwa [List.getLastD_cons] at last, fun semicolon => ?_, comments.2⟩
    have inScript : lexer.mode = .script := by
      cases mode : lexer.mode with
      | script => rfl
      | page =>
          have kind := Scan.page_kind lexer.shortTags lexer.rest
          have taken : lexer.next.1.kind = (Scan.page lexer.shortTags lexer.rest).kind := by
            simp only [Lexer.next, take, skipBlanks, mode, lexeme]
          rw [← taken, semicolon] at kind
          simp at kind
    rw [cuts.mode, semicolon, inScript]
    rfl
  · rw [if_neg significant] at last ⊢
    refine ⟨last, fun semicolon => ?_, comments.2⟩
    have trivia : lexer.next.1.kind.isTrivia = true := by
      simpa [Token.isSignificant, comments.1] using significant
    rw [cuts.mode, settles.inScript semicolon]
    revert trivia
    cases lexer.next.1.kind <;> simp [TokenKind.isTrivia, Mode.after]

theorem EndsAtSemicolon.before_eq (used : lexer.rest = []) : before = .semicolon := by
  have last := settles.last
  rwa [kinds_of_eof (by rw [next_of_rest_eq_nil used])] at last

theorem EndsAtSemicolon.kind_at_end (left : lexer.skipBlanks.rest ≠ [])
    (whole : lexer.skipBlanks.lexeme.length = lexer.skipBlanks.rest.length) :
    lexer.skipBlanks.lexeme.kind.isTrivia = true ∨ lexer.skipBlanks.lexeme.kind = .semicolon := by
  have goesOn : lexer.next.1.kind ≠ .eof := (lexer.skipBlanks.lexeme_takes left).2
  have closed := settles.comments lexer.next.1 (by simp [tokens_of_ne_eof goesOn])
  have later := settles.next goesOn
  have last := later.before_eq (by simp [Lexer.next, take, skip, whole])
  by_cases significant : lexer.next.1.isSignificant = true
  · rw [if_pos significant] at last
    exact .inr last
  · have trivia : lexer.next.1.kind.isTrivia = true := by
      simpa [Token.isSignificant, closed] using significant
    exact .inl trivia

/-- A line feed and more may follow: the next token stays what it is. -/
theorem EndsAtSemicolon.lexeme_eq (left : lexer.skipBlanks.rest ≠ []) (more : List UInt8) :
    (lexer.skipBlanks.followedBy (10 :: more)).lexeme = lexer.skipBlanks.lexeme := by
  have breaks : StartsWithBlank (10 :: more) := by
    rintro byte ⟨⟩
    rfl
  have fits := lexer.skipBlanks.lexeme_length_le
  have atEnd := settles.kind_at_end left
  generalize lexer.skipBlanks = stripped at *
  obtain ⟨shortTags, mode, offset, rest⟩ := stripped
  cases mode with
  | page =>
      have inside : (Scan.page shortTags rest).length < rest.length := by
        refine Nat.lt_of_le_of_ne fits fun whole => ?_
        have special := atEnd whole
        have kind := Scan.page_kind shortTags rest
        simp only [lexeme] at special
        rcases kind with kind | kind | kind | kind <;> simp [kind, TokenKind.isTrivia] at special
      exact Scan.page_append_blank breaks inside
  | script =>
      refine Scan.script_append_blank left breaks fun isOpen => ?_
      have special := atEnd isOpen.whole
      simp only [lexeme] at special
      rcases isOpen.kind with kind | kind | ⟨_, other⟩
      · simp [kind, TokenKind.isTrivia] at special
      · simp [kind, TokenKind.isTrivia] at special
      · exact other rfl

end Settling

/-- The tokens stay what they are when a line feed and more source follow, and the rest is read as
script. -/
theorem tokens_followedBy (more : List UInt8) :
    ∀ (size : Nat) {before : TokenKind} {lexer : Lexer}, lexer.rest.length < size →
      lexer.EndsAtSemicolon before →
      ∃ done last offset blanks, lexer.tokens = done ++ [last] ∧ last.kind = .eof ∧
        (∀ token ∈ done, token.kind ≠ .eof) ∧ (∀ byte ∈ blanks, Byte.isBlank byte = true) ∧
        (lexer.followedBy (10 :: more)).tokens =
          done ++ (Lexer.mk lexer.shortTags .script offset (blanks ++ 10 :: more)).tokens := by
  intro size
  induction size with
  | zero => exact fun few => absurd few (Nat.not_lt_zero _)
  | succ size inductionHypothesis =>
      intro before lexer few settles
      have cuts := lexer.next_cuts
      rcases lexer.next_cases with ⟨ends, _⟩ | ⟨goesOn, _, _, _, shorter⟩
      · have blanks : lexer.rest = lexer.gap := by
          obtain ⟨noBytes, noRest⟩ := cuts.ends ends
          rw [cuts.split, noBytes, noRest, List.append_nil, List.append_nil]
        have last := settles.last
        rw [kinds_of_eof ends] at last
        refine ⟨[], lexer.next.1, lexer.offset, lexer.gap, tokens_of_eof ends, ends, by simp,
          cuts.blank, ?_⟩
        rw [followedBy, settles.inScript last, blanks]
        rfl
      · have left : lexer.skipBlanks.rest ≠ [] := by
          intro used
          exact goesOn (by simp [Lexer.next, take, lexeme_at_end _ used])
        have next := next_followedBy left (settles.lexeme_eq left more)
        obtain ⟨done, last, offset, blanks, tokens, ends, goOn, blank, others⟩ :=
          inductionHypothesis (by omega) (settles.next goesOn)
        refine ⟨lexer.next.1 :: done, last, offset, blanks, ?_, ends,
          List.forall_mem_cons.mpr ⟨goesOn, goOn⟩, blank, ?_⟩
        · rw [tokens_of_ne_eof goesOn, tokens]
          rfl
        · have goesOnToo : (lexer.followedBy (10 :: more)).next.1.kind ≠ .eof := by
            rw [next]
            exact goesOn
          rw [tokens_of_ne_eof goesOnToo, next, others]
          rw [shortTags_next]
          rfl

/-! ## Offsets and blanks in front make no difference -/

/-- Both have the same source left, blanks in front of a token aside. -/
structure ReadsAs (one other : Lexer) : Prop where
  shortTags : one.shortTags = other.shortTags
  mode : one.mode = other.mode
  rest : one.skipBlanks.rest = other.skipBlanks.rest

theorem ReadsAs.next {one other : Lexer} (same : one.ReadsAs other) :
    one.next.1.kind = other.next.1.kind ∧ one.next.1.bytes = other.next.1.bytes ∧
      one.next.2.ReadsAs other.next.2 := by
  have modes : one.skipBlanks.mode = other.skipBlanks.mode := by
    rw [mode_skipBlanks, mode_skipBlanks, same.mode]
  have tags : one.skipBlanks.shortTags = other.skipBlanks.shortTags := by
    rw [shortTags_skipBlanks, shortTags_skipBlanks, same.shortTags]
  have lexemes : one.skipBlanks.lexeme = other.skipBlanks.lexeme := by
    rw [lexeme, lexeme, modes, tags, same.rest]
  have rests : one.next.2.rest = other.next.2.rest := by
    simp only [Lexer.next, take, skip, lexemes, same.rest]
  have nextModes : one.next.2.mode = other.next.2.mode := by
    simp only [Lexer.next, take, lexemes, modes]
  refine ⟨by simp only [Lexer.next, take, lexemes], ?_, ?_, nextModes, ?_⟩
  · simp only [Lexer.next, take, lexemes, same.rest]
  · rw [shortTags_next, shortTags_next, same.shortTags]
  · -- From equal rests equal blanks are skipped.
    unfold skipBlanks
    rw [nextModes]
    split
    · exact rests
    · simp only [skip, rests]

theorem ReadsAs.map_face : ∀ (size : Nat) {one other : Lexer}, one.rest.length < size →
    one.ReadsAs other → one.tokens.map Token.face = other.tokens.map Token.face := by
  intro size
  induction size with
  | zero => exact fun few => absurd few (Nat.not_lt_zero _)
  | succ size inductionHypothesis =>
      intro one other few same
      obtain ⟨kinds, bytes, later⟩ := same.next
      have face : one.next.1.face = other.next.1.face := by
        rw [Token.face, Token.face, Token.text, Token.text, kinds, bytes]
      rcases one.next_cases with ⟨ends, _⟩ | ⟨goesOn, _, _, _, shorter⟩
      · have otherEnds : other.next.1.kind = .eof := kinds ▸ ends
        rw [tokens_of_eof ends, tokens_of_eof otherEnds, List.map_singleton, List.map_singleton,
          face]
      · have otherGoesOn : other.next.1.kind ≠ .eof := kinds ▸ goesOn
        rw [tokens_of_ne_eof goesOn, tokens_of_ne_eof otherGoesOn, List.map_cons, List.map_cons,
          face, inductionHypothesis (by omega) later]

theorem ReadsAs.map_gist {one other : Lexer} (same : one.ReadsAs other) :
    (Item.gather one.tokens).map Item.gist = (Item.gather other.tokens).map Item.gist := by
  have faces : ∀ tokens : List Token,
      (tokens.filter fun token => token.kind ≠ .comment).map Token.face =
        (tokens.map Token.face).filter fun face => face.1 ≠ .comment := by
    intro tokens
    rw [List.filter_map]
    rfl
  rw [Item.map_gist_gather, Item.map_gist_gather, faces, faces,
    map_face _ (Nat.lt_succ_self _) same]

theorem rest_skipBlanks {lexer : Lexer} (inScript : lexer.mode = .script) :
    lexer.skipBlanks.rest = lexer.rest.dropWhile Byte.isBlank := by
  have parts := @List.takeWhile_append_dropWhile _ Byte.isBlank lexer.rest
  have dropped := congrArg (List.drop (lexer.rest.takeWhile Byte.isBlank).length) parts.symm
  rw [List.drop_left] at dropped
  simpa only [skipBlanks, inScript, skip] using dropped

theorem readsAs_of_blanks {shortTags : Bool} {offset other : Nat} {blanks rest : List UInt8}
    (blank : ∀ byte ∈ blanks, Byte.isBlank byte = true) :
    (Lexer.mk shortTags .script offset (blanks ++ rest)).ReadsAs
      ⟨shortTags, .script, other, rest⟩ := by
  refine ⟨rfl, rfl, ?_⟩
  rw [rest_skipBlanks rfl, rest_skipBlanks rfl, List.dropWhile_append_of_pos blank]

end Lexer
end PhpTree
