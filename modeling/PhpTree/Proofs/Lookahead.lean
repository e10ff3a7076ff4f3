import PhpTree.Proofs.BlankTails

/-! # How far the scanners look

What a scanner finds inside the front of an input it finds in the front alone, and what
it misses there it misses then too.  So the bytes behind a token have no say in what the
token is.  Two tokens end because of what comes behind them: a close tag ends a line
comment, and an open tag ends page text.  These tags have to be there as a whole. -/
set_option autoImplicit false
namespace PhpTree

/-- The lexeme reaches out of the front, or the close tag behind a line comment does. -/
def Lexeme.IsCut (lexeme : Lexeme) (front back : List UInt8) : Prop :=
  front.length < lexeme.length ∨
    Scan.lineComment? (front ++ back) = some lexeme ∧ lexeme.length + 1 = front.length ∧
      (bytesOf "?>").isPrefixOf ((front ++ back).drop lexeme.length) = true

namespace Scan

variable {front back : List UInt8}

/-! ## Searches -/

theorem takeWhile_of_fits {accepts : UInt8 → Bool}
    (fits : ((front ++ back).takeWhile accepts).length ≤ front.length) :
    (front ++ back).takeWhile accepts = front.takeWhile accepts := by
  rw [List.takeWhile_append] at fits ⊢
  split
  · rename_i whole
    rw [if_pos whole, List.length_append] at fits
    have none : back.takeWhile accepts = [] := List.length_eq_zero_iff.mp (by omega)
    rw [none, List.append_nil]
    exact ((List.takeWhile_prefix accepts).eq_of_length whole).symm
  · rfl

theorem isPrefixOf_append {symbol : List UInt8} (begins : symbol.isPrefixOf front = true)
    (back : List UInt8) : symbol.isPrefixOf (front ++ back) = true :=
  isPrefixOf_of_front begins (List.prefix_append _ _)

theorem isPrefixOf_append_of_fits {symbol : List UInt8} (fits : symbol.length ≤ front.length)
    (back : List UInt8) : symbol.isPrefixOf (front ++ back) = symbol.isPrefixOf front := by
  rw [Bool.eq_iff_iff]
  refine ⟨fun begins => ?_, fun begins => isPrefixOf_append begins back⟩
  rw [List.isPrefixOf_iff_prefix] at begins ⊢
  exact List.prefix_of_prefix_length_le begins (List.prefix_append _ _) fits

theorem isPrefixOf_eq_false {symbol : List UInt8}
    (missed : symbol.isPrefixOf (front ++ back) = false) : symbol.isPrefixOf front = false := by
  rw [Bool.eq_false_iff] at missed ⊢
  exact fun begins => missed (isPrefixOf_append begins back)

/-- A number goes on with a digit, a point or an exponent, or it ends here. -/
theorem decimalEnd_eq_or_gt (fractional : Bool) (taken : Nat) (input : List UInt8) :
    decimalEnd fractional taken input = (fractional, taken) ∨
      taken < (decimalEnd fractional taken input).2 := by
  fun_cases decimalEnd fractional taken input with
  | case1 => exact .inl rfl
  | case2 fractional taken byte rest digit => exact .inr (le_decimalEnd fractional (taken + 1) rest)
  | case3 fractional taken byte rest digit point => exact .inr (le_decimalEnd true (taken + 1) rest)
  | case4 => exact .inl rfl
  | case5 fractional taken byte digit point mark next rest sign =>
      exact .inr (Nat.lt_of_succ_le (Nat.le_of_succ_le (le_decimalEnd true (taken + 2) rest)))
  | case6 fractional taken byte digit point mark next rest sign nextDigit =>
      exact .inr (le_decimalEnd true (taken + 1) (next :: rest))
  | case7 => exact .inl rfl
  | case8 => exact .inl rfl

theorem decimalEnd_of_fits (fractional : Bool) (taken : Nat) (front : List UInt8)
    (fits : (decimalEnd fractional taken (front ++ back)).2 ≤ taken + front.length) :
    decimalEnd fractional taken front = decimalEnd fractional taken (front ++ back) := by
  fun_induction decimalEnd fractional taken front with
  | case1 fractional taken =>
      rcases decimalEnd_eq_or_gt fractional taken back with ends | goesOn
      · exact ends.symm
      · exact absurd fits (Nat.not_le_of_lt goesOn)
  | case2 fractional taken byte rest digit inductionHypothesis =>
      rw [List.cons_append, decimalEnd.eq_def _ _ (byte :: _)] at fits ⊢
      simp only [if_pos digit, List.length_cons] at fits ⊢
      exact inductionHypothesis (by omega)
  | case3 fractional taken byte rest digit point inductionHypothesis =>
      rw [List.cons_append, decimalEnd.eq_def _ _ (byte :: _)] at fits ⊢
      simp only [if_neg digit, if_pos point, List.length_cons] at fits ⊢
      exact inductionHypothesis (by omega)
  | case4 fractional taken byte digit point mark =>
      -- With a sign or a digit behind it the mark would be part of the number.
      rw [List.cons_append, List.nil_append, decimalEnd.eq_def _ _ (byte :: _)] at fits ⊢
      simp only [if_neg digit, if_neg point, if_pos mark, List.length_singleton] at fits ⊢
      cases back with
      | nil => rfl
      | cons next more =>
          dsimp only at fits ⊢
          split
          · rename_i sign
            rw [if_pos sign] at fits
            have := le_decimalEnd true (taken + 2) more
            omega
          · rename_i sign
            rw [if_neg sign] at fits
            split
            · rename_i nextDigit
              rw [if_pos nextDigit, decimalEnd.eq_def] at fits
              simp only [nextDigit, Bool.true_or, if_true] at fits
              have := le_decimalEnd true (taken + 1 + 1) more
              omega
            · rfl
  | case5 fractional taken byte digit point mark next rest sign inductionHypothesis =>
      rw [List.cons_append, List.cons_append, decimalEnd.eq_def _ _ (byte :: _)] at fits ⊢
      simp only [if_neg digit, if_neg point, if_pos mark, if_pos sign, List.length_cons] at fits ⊢
      exact inductionHypothesis (by omega)
  | case6 fractional taken byte digit point mark next rest sign nextDigit inductionHypothesis =>
      rw [List.cons_append] at inductionHypothesis
      rw [List.cons_append, List.cons_append, decimalEnd.eq_def _ _ (byte :: _)] at fits ⊢
      simp only [if_neg digit, if_neg point, if_pos mark, if_neg sign, if_pos nextDigit,
        List.length_cons] at fits ⊢
      exact inductionHypothesis (by simp only [List.length_cons]; omega)
  | case7 fractional taken byte digit point mark next rest sign nextDigit =>
      rw [List.cons_append, List.cons_append, decimalEnd.eq_def _ _ (byte :: _)]
      simp only [if_neg digit, if_neg point, if_pos mark, if_neg sign, if_neg nextDigit]
  | case8 fractional taken byte rest digit point mark =>
      rw [List.cons_append, decimalEnd.eq_def _ _ (byte :: _)]
      simp only [if_neg digit, if_neg point, if_neg mark]

theorem quotedEnd?_of_fits {quote : UInt8} (taken : Nat) {front : List UInt8} {length : Nat}
    (found : quotedEnd? quote taken (front ++ back) = some length)
    (fits : length ≤ taken + front.length) : quotedEnd? quote taken front = some length := by
  fun_induction quotedEnd? quote taken front with
  | case1 taken =>
      have := quotedEnd?_gt quote taken _ length found
      simp only [List.length_nil] at fits
      omega
  | case2 taken byte rest closes =>
      rw [List.cons_append, quotedEnd?.eq_def] at found
      simpa only [if_pos closes] using found
  | case3 taken byte inside escapes =>
      rw [List.cons_append, List.nil_append, quotedEnd?.eq_def] at found
      simp only [if_neg inside, if_pos escapes] at found
      cases back with
      | nil => cases found
      | cons next more =>
          have := quotedEnd?_gt quote (taken + 2) more length found
          simp only [List.length_singleton] at fits
          omega
  | case4 taken byte inside escapes next rest inductionHypothesis =>
      rw [List.cons_append, List.cons_append, quotedEnd?.eq_def] at found
      simp only [if_neg inside, if_pos escapes] at found
      simp only [List.length_cons] at fits
      exact inductionHypothesis found (by omega)
  | case5 taken byte rest inside escapes inductionHypothesis =>
      rw [List.cons_append, quotedEnd?.eq_def] at found
      simp only [if_neg inside, if_neg escapes] at found
      simp only [List.length_cons] at fits
      exact inductionHypothesis found (by omega)

theorem add_two_le_of_blockCommentEnd? {taken : Nat} {input : List UInt8} {length : Nat}
    (found : blockCommentEnd? taken input = some length) : taken + 2 ≤ length := by
  fun_induction blockCommentEnd? taken input with
  | case1 => cases found
  | case2 taken byte rest closes =>
      cases found
      exact Nat.le_refl _
  | case3 taken byte rest goesOn inductionHypothesis =>
      have := inductionHypothesis found
      omega

theorem blockCommentEnd?_of_fits (taken : Nat) {front : List UInt8} {length : Nat}
    (found : blockCommentEnd? taken (front ++ back) = some length)
    (fits : length ≤ taken + front.length) : blockCommentEnd? taken front = some length := by
  fun_induction blockCommentEnd? taken front with
  | case1 taken =>
      have := blockCommentEnd?_gt taken _ length found
      simp only [List.length_nil] at fits
      omega
  | case2 taken byte rest closes =>
      have still := isPrefixOf_append closes back
      rw [List.cons_append] at found still
      simpa only [blockCommentEnd?, if_pos still] using found
  | case3 taken byte rest goesOn inductionHypothesis =>
      have long := add_two_le_of_blockCommentEnd? found
      have short : (bytesOf "*/").length ≤ (byte :: rest).length := by
        show 2 ≤ _
        omega
      rw [← isPrefixOf_append_of_fits short back] at goesOn
      rw [List.cons_append] at found goesOn
      rw [blockCommentEnd?, if_neg goesOn] at found
      simp only [List.length_cons] at fits
      exact inductionHypothesis found (by omega)

/-- A line comment ends where it did, or at a close tag that is cut in its middle. -/
theorem lineCommentEnd_of_fits (taken : Nat) (front : List UInt8)
    (fits : lineCommentEnd taken (front ++ back) ≤ taken + front.length) :
    lineCommentEnd taken front = lineCommentEnd taken (front ++ back) ∨
      lineCommentEnd taken (front ++ back) + 1 = taken + front.length ∧
        (bytesOf "?>").isPrefixOf
          ((front ++ back).drop (lineCommentEnd taken (front ++ back) - taken)) = true := by
  fun_induction lineCommentEnd taken front with
  | case1 taken => exact .inl (Nat.le_antisymm (le_lineCommentEnd taken back) fits)
  | case2 taken byte rest ends =>
      left
      have still : (byte == 10 || byte == 13 ||
          (bytesOf "?>").isPrefixOf (byte :: (rest ++ back))) = true := by
        simp only [Bool.or_eq_true] at ends ⊢
        exact ends.imp_right fun tag => isPrefixOf_append tag back
      rw [List.cons_append, lineCommentEnd, if_pos still]
  | case3 taken byte rest goesOn inductionHypothesis =>
      rw [List.cons_append, lineCommentEnd] at fits ⊢
      split
      · rename_i ends
        right
        have tag : (bytesOf "?>").isPrefixOf (byte :: (rest ++ back)) = true := by
          simp only [Bool.or_eq_true, not_or] at goesOn ends
          exact ends.resolve_left (not_or.mpr goesOn.1)
        have short : rest = [] := by
          by_contra more
          have long : (bytesOf "?>").length ≤ (byte :: rest).length :=
            Nat.succ_le_succ (List.length_pos_iff.mpr more)
          rw [← List.cons_append, isPrefixOf_append_of_fits long] at tag
          exact goesOn (by rw [tag, Bool.or_true])
        rw [short, Nat.sub_self, List.drop_zero]
        exact ⟨rfl, short ▸ tag⟩
      · rename_i still
        rw [if_neg still, List.length_cons] at fits
        have later := le_lineCommentEnd (taken + 1) (rest ++ back)
        rcases inductionHypothesis (by omega) with same | ⟨whole, tag⟩
        · exact .inl same
        · refine .inr ⟨by rw [List.length_cons]; omega, ?_⟩
          have next : lineCommentEnd (taken + 1) (rest ++ back) - taken =
              lineCommentEnd (taken + 1) (rest ++ back) - (taken + 1) + 1 := by omega
          rw [next, List.drop_succ_cons]
          exact tag

/-! ## Scanners -/

/-- What the scanner says of an input it says of the front alone, unless the front cuts it. -/
def LooksNoFurther (scanner : List UInt8 → Option Lexeme) : Prop :=
  ∀ {front back : List UInt8}, front ≠ [] → scanner front = scanner (front ++ back) ∨
    ∃ lexeme, scanner (front ++ back) = some lexeme ∧ lexeme.IsCut front back

theorem looksNoFurther_of {scanner : List UInt8 → Option Lexeme}
    (misses : ∀ {front back : List UInt8}, front ≠ [] → scanner (front ++ back) = none →
      scanner front = none)
    (finds : ∀ {front back : List UInt8} {lexeme : Lexeme}, front ≠ [] →
      scanner (front ++ back) = some lexeme → lexeme.length ≤ front.length →
        scanner front = some lexeme) : LooksNoFurther scanner := by
  intro front back left
  cases found : scanner (front ++ back) with
  | none => exact .inl (misses left found)
  | some lexeme =>
      by_cases fits : lexeme.length ≤ front.length
      · exact .inl (finds left found fits)
      · exact .inr ⟨lexeme, rfl, .inl (Nat.lt_of_not_le fits)⟩

theorem word?_length {first : UInt8} {rest : List UInt8} {lexeme : Lexeme}
    (found : word? (first :: rest) = some lexeme) :
    lexeme.length = (rest.takeWhile Byte.isNamePart).length + 1 := by
  simp only [word?] at found
  split at found
  · split at found <;> cases found <;> rfl
  · cases found

theorem word?_looksNoFurther : LooksNoFurther word? := by
  apply looksNoFurther_of
  · intro front back left missed
    obtain ⟨first, rest, rfl⟩ := List.exists_cons_of_ne_nil left
    rw [List.cons_append] at missed
    simp only [word?] at missed ⊢
    split at missed
    · split at missed <;> cases missed
    · rw [if_neg ‹_›]
  · intro front back lexeme left found fits
    obtain ⟨first, rest, rfl⟩ := List.exists_cons_of_ne_nil left
    rw [List.cons_append] at found
    have length := word?_length found
    simp only [List.length_cons] at fits
    rw [word?, takeWhile_of_fits (by omega)] at found
    exact found

theorem variableName?_looksNoFurther : LooksNoFurther variableName? := by
  apply looksNoFurther_of
  · intro front back left missed
    rcases front with _ | ⟨first, _ | ⟨second, rest⟩⟩
    · rfl
    · rfl
    · rw [List.cons_append, List.cons_append, variableName?] at missed
      rw [variableName?]
      split at missed
      · cases missed
      · rw [if_neg ‹_›]
  · intro front back lexeme left found fits
    rcases front with _ | ⟨first, _ | ⟨second, rest⟩⟩
    · exact absurd rfl left
    · cases back with
      | nil => cases found
      | cons second more =>
          rw [List.cons_append, List.nil_append, variableName?] at found
          split at found
          · cases found
            simp only [List.length_singleton] at fits
            omega
          · cases found
    · rw [List.cons_append, List.cons_append, variableName?] at found
      rw [variableName?]
      split at found
      · cases found
        simp only [List.length_cons] at fits
        rw [if_pos ‹_›, takeWhile_of_fits (by omega)]
      · cases found

theorem startsNumber_of_number? {input : List UInt8} {lexeme : Lexeme}
    (found : number? input = some lexeme) : startsNumber input = true := by
  unfold number? at found
  split at found
  · assumption
  · cases found

theorem number?_isSome {input : List UInt8} (starts : startsNumber input = true) :
    (number? input).isSome = true := by
  rw [number?, if_pos starts]
  split <;> rfl

theorem number?_of_base {input : List UInt8} {isBasedDigit : UInt8 → Bool}
    (starts : startsNumber input = true) (based : basedDigits? input = some isBasedDigit) :
    number? input = some ⟨.integer,
      2 + ((input.drop 2).takeWhile fun byte =>
        isBasedDigit byte || byte == byteOf '_').length⟩ := by
  rw [number?, if_pos starts, based]

theorem number?_of_no_base {input : List UInt8} (starts : startsNumber input = true)
    (based : basedDigits? input = none) :
    number? input = some ⟨if (decimalEnd false 0 input).1 then .decimal else .integer,
      (decimalEnd false 0 input).2⟩ := by
  rw [number?, if_pos starts, based]

/-- A point alone is no number, and with a digit behind it the number has two bytes. -/
theorem isDigit_of_number? {byte : UInt8} {back : List UInt8} {lexeme : Lexeme}
    (found : number? (byte :: back) = some lexeme) (short : lexeme.length ≤ 1) :
    Byte.isDigit byte = true := by
  have starts := startsNumber_of_number? found
  cases back with
  | nil => exact starts
  | cons next more =>
      by_contra noDigit
      obtain ⟨point, digit⟩ : byte = byteOf '.' ∧ Byte.isDigit next = true := by
        simpa [startsNumber, noDigit] using starts
      subst point
      have based : basedDigits? (byteOf '.' :: next :: more) = none := rfl
      rw [number?_of_no_base starts based] at found
      obtain rfl := Option.some.inj found
      have two : decimalEnd false 0 (byteOf '.' :: next :: more) = decimalEnd true 2 more := by
        calc decimalEnd false 0 (byteOf '.' :: next :: more)
            = decimalEnd true 1 (next :: more) := by rw [decimalEnd.eq_def]; rfl
          _ = decimalEnd true 2 more := by
            rw [decimalEnd.eq_def]
            simp only [digit, Bool.true_or, if_true]
      have long := le_decimalEnd true 2 more
      rw [two] at short
      exact absurd short (Nat.not_le_of_lt long)

theorem number?_looksNoFurther : LooksNoFurther number? := by
  apply looksNoFurther_of
  · intro front back left missed
    rw [← Option.not_isSome_iff_eq_none] at missed ⊢
    intro some
    obtain ⟨lexeme, found⟩ := Option.isSome_iff_exists.mp some
    apply missed
    apply number?_isSome
    have starts := startsNumber_of_number? found
    rcases front with _ | ⟨byte, _ | ⟨next, rest⟩⟩
    · exact absurd rfl left
    · have digit : Byte.isDigit byte = true := starts
      cases back with
      | nil => exact digit
      | cons next more => simp [startsNumber, digit]
    · exact starts
  · intro front back lexeme left found fits
    have starts := startsNumber_of_number? found
    rcases front with _ | ⟨zero, _ | ⟨marker, rest⟩⟩
    · exact absurd rfl left
    · have digit : startsNumber [zero] = true := isDigit_of_number? found fits
      cases based : basedDigits? ([zero] ++ back) with
      | some isBasedDigit =>
          rw [number?_of_base starts based] at found
          obtain rfl := Option.some.inj found
          simp only [List.length_singleton] at fits
          omega
      | none =>
          rw [number?_of_no_base starts based] at found
          obtain rfl := Option.some.inj found
          rw [number?_of_no_base digit rfl,
            decimalEnd_of_fits false 0 [zero] (by simpa using fits)]
    · have startsAlone : startsNumber (zero :: marker :: rest) = true := starts
      cases based : basedDigits? (zero :: marker :: rest) with
      | some isBasedDigit =>
          rw [number?_of_base starts based] at found
          obtain rfl := Option.some.inj found
          rw [number?_of_base startsAlone based]
          simp only [List.cons_append, List.drop_succ_cons, List.drop_zero,
            List.length_cons] at fits ⊢
          rw [takeWhile_of_fits (by omega)]
      | none =>
          rw [number?_of_no_base starts based] at found
          obtain rfl := Option.some.inj found
          rw [number?_of_no_base startsAlone based,
            decimalEnd_of_fits false 0 (zero :: marker :: rest) (by simpa using fits)]

theorem quoted?_looksNoFurther : LooksNoFurther quoted? := by
  apply looksNoFurther_of
  · intro front back left missed
    obtain ⟨quote, rest, rfl⟩ := List.exists_cons_of_ne_nil left
    rw [List.cons_append, quoted?] at missed
    rw [quoted?]
    split at missed
    · split at missed <;> cases missed
    · rw [if_neg ‹_›]
  · intro front back lexeme left found fits
    obtain ⟨quote, rest, rfl⟩ := List.exists_cons_of_ne_nil left
    rw [List.cons_append, quoted?] at found
    rw [quoted?]
    split at found
    · rw [if_pos ‹_›]
      cases ended : quotedEnd? quote 1 (rest ++ back) with
      | some length =>
          rw [ended] at found
          obtain rfl := Option.some.inj found
          simp only [List.length_cons] at fits
          rw [quotedEnd?_of_fits 1 ended (by omega)]
      | none =>
          -- An error reaches to the end, so nothing is behind the front.
          rw [ended] at found
          obtain rfl := Option.some.inj found
          simp only [List.length_cons, List.length_append] at fits
          obtain rfl : back = [] := List.length_eq_zero_iff.mp (by omega)
          rw [List.append_nil] at ended ⊢
          rw [ended]
    · cases found

theorem lineComment?_of_opener {opener : List UInt8}
    (isOpener : opener ∈ [bytesOf "#", bytesOf "//"]) {input : List UInt8}
    (opens : opener.isPrefixOf input = true) : lineComment? input =
      some ⟨.comment, lineCommentEnd opener.length (input.drop opener.length)⟩ := by
  obtain ⟨rest, rfl⟩ := List.isPrefixOf_iff_prefix.mp opens
  simp only [List.mem_cons, List.not_mem_nil, or_false] at isOpener
  rcases isOpener with rfl | rfl <;> rfl

theorem exists_opener {input : List UInt8} {lexeme : Lexeme}
    (found : lineComment? input = some lexeme) :
    ∃ opener ∈ [bytesOf "#", bytesOf "//"], opener.isPrefixOf input = true ∧
      lexeme = ⟨.comment, lineCommentEnd opener.length (input.drop opener.length)⟩ := by
  unfold lineComment? at found
  split at found
  · exact ⟨bytesOf "#", by simp, ‹_›, (Option.some.inj found).symm⟩
  · split at found
    · exact ⟨bytesOf "//", by simp, ‹_›, (Option.some.inj found).symm⟩
    · cases found

theorem lineComment?_looksNoFurther : LooksNoFurther lineComment? := by
  intro front back left
  cases found : lineComment? (front ++ back) with
  | none =>
      cases alone : lineComment? front with
      | none => exact .inl rfl
      | some lexeme =>
          obtain ⟨opener, isOpener, opens, _⟩ := exists_opener alone
          rw [lineComment?_of_opener isOpener (isPrefixOf_append opens back)] at found
          cases found
  | some lexeme =>
      obtain ⟨opener, isOpener, opens, rfl⟩ := exists_opener found
      by_cases fits :
          lineCommentEnd opener.length ((front ++ back).drop opener.length) ≤ front.length
      · have long : opener.length ≤ front.length :=
          Nat.le_trans (le_lineCommentEnd opener.length _) fits
        rw [isPrefixOf_append_of_fits long] at opens
        rw [lineComment?_of_opener isOpener opens]
        have later := le_lineCommentEnd opener.length ((front ++ back).drop opener.length)
        rw [List.drop_append_of_le_length long] at fits later found ⊢
        have inside : opener.length + (front.drop opener.length).length = front.length := by
          rw [List.length_drop, Nat.add_sub_cancel' long]
        rcases lineCommentEnd_of_fits opener.length (front.drop opener.length)
          (Nat.le_trans fits (Nat.le_of_eq inside.symm)) with same | ⟨whole, tag⟩
        · exact .inl (by rw [same])
        · refine .inr ⟨_, rfl, .inr ⟨found, by rw [whole, inside], ?_⟩⟩
          rw [← List.drop_append_of_le_length long, List.drop_drop,
            List.drop_append_of_le_length long, Nat.add_sub_cancel' later] at tag
          exact tag
      · exact .inr ⟨_, rfl, .inl (Nat.lt_of_not_le fits)⟩

theorem blockComment?_looksNoFurther : LooksNoFurther blockComment? := by
  apply looksNoFurther_of
  · intro front back left missed
    rw [blockComment?_eq] at missed ⊢
    split at missed
    · split at missed <;> cases missed
    · rename_i noOpener
      rw [isPrefixOf_eq_false (Bool.eq_false_iff.mpr noOpener)]
      rfl
  · intro front back lexeme left found fits
    rw [blockComment?_eq] at found ⊢
    split at found
    · rename_i opens
      cases ended : blockCommentEnd? 2 ((front ++ back).drop 2) with
      | some length =>
          have long := add_two_le_of_blockCommentEnd? ended
          rw [ended] at found
          obtain rfl := Option.some.inj found
          change length ≤ front.length at fits
          have same : ∀ symbol : List UInt8, symbol.length ≤ 4 →
              symbol.isPrefixOf (front ++ back) = symbol.isPrefixOf front := fun symbol short =>
            isPrefixOf_append_of_fits (by omega) back
          rw [List.drop_append_of_le_length (by omega)] at ended
          have alone := blockCommentEnd?_of_fits 2 ended (by rw [List.length_drop]; omega)
          rw [same _ (by decide)] at opens
          have doc : isDocOpener (front ++ back) = isDocOpener front := by
            rw [isDocOpener, isDocOpener, same _ (by decide), same _ (by decide)]
          rw [if_pos opens, alone, doc]
      | none =>
          rw [ended] at found
          obtain rfl := Option.some.inj found
          simp only [List.length_append] at fits
          obtain rfl : back = [] := List.length_eq_zero_iff.mp (by omega)
          rw [List.append_nil] at ended opens ⊢
          rw [if_pos opens, ended]
    · cases found

theorem closeTag?_looksNoFurther : LooksNoFurther closeTag? := by
  apply looksNoFurther_of
  · intro front back left missed
    unfold closeTag? at missed ⊢
    split at missed
    · cases missed
    · rename_i noOpener
      rw [isPrefixOf_eq_false (Bool.eq_false_iff.mpr noOpener)]
      rfl
  · intro front back lexeme left found fits
    unfold closeTag? at found ⊢
    split at found
    · rename_i opens
      obtain rfl := Option.some.inj found
      dsimp only at fits
      have long : 2 ≤ front.length := by split at fits <;> omega
      have opener : (bytesOf "?>").length ≤ front.length := long
      rw [isPrefixOf_append_of_fits opener] at opens
      rw [List.drop_append_of_le_length long] at fits ⊢
      rw [if_pos opens]
      cases behind : front.drop 2 with
      | nil =>
          -- A line feed would be part of the tag and not of the front.
          have short := List.drop_eq_nil_iff.mp behind
          rw [behind, List.nil_append] at fits
          have noFeed : ¬ (back.head? == some 10) = true := by
            intro feed
            rw [if_pos feed] at fits
            omega
          rw [List.nil_append, if_neg noFeed]
          rfl
      | cons byte rest => rfl
    · cases found

theorem symbol?_looksNoFurther : LooksNoFurther symbol? := by
  apply looksNoFurther_of
  · intro front back left missed
    rw [symbol?, Option.map_eq_none_iff, List.find?_eq_none] at missed ⊢
    intro entry member begins
    exact missed entry member (isPrefixOf_append begins back)
  · intro front back lexeme left found fits
    rw [symbol?] at found ⊢
    obtain ⟨entry, entryFound, rfl⟩ := Option.map_eq_some_iff.mp found
    obtain ⟨begins, earlier, later, split, missed⟩ :=
      List.find?_eq_some_iff_append.mp entryFound
    rw [isPrefixOf_append_of_fits fits] at begins
    have alone : (symbolTable.find? fun entry => entry.1.isPrefixOf front) = some entry := by
      refine List.find?_eq_some_iff_append.mpr ⟨begins, earlier, later, split, ?_⟩
      intro other member
      have missed := missed other member
      rw [Bool.not_eq_true'] at missed ⊢
      exact isPrefixOf_eq_false missed
    rw [alone]
    rfl

theorem scanners_lookNoFurther : ∀ scanner ∈ scanners, LooksNoFurther scanner := by
  intro scanner member
  simp only [scanners, List.mem_cons, List.not_mem_nil, or_false] at member
  rcases member with rfl | rfl | rfl | rfl | rfl | rfl | rfl | rfl
  · exact word?_looksNoFurther
  · exact variableName?_looksNoFurther
  · exact number?_looksNoFurther
  · exact quoted?_looksNoFurther
  · exact lineComment?_looksNoFurther
  · exact blockComment?_looksNoFurther
  · exact closeTag?_looksNoFurther
  · exact symbol?_looksNoFurther

/-- The token at the front is what it is in the front alone, unless the front cuts it. -/
theorem script_of_front {front back : List UInt8} (left : front ≠ [])
    (whole : ¬ (script (front ++ back)).IsCut front back) :
    script front = script (front ++ back) :=
  script_eq_of_agree (by simp [left]) left
    (fun scanner member => scanners_lookNoFurther scanner member left) whole

/-! ## Page text -/

section Page
variable {shortTags : Bool} {front back : List UInt8}

theorem blankAfterTag_of_fits {count : Nat}
    (fits : count + blankAfterTag ((front ++ back).drop count) ≤ front.length) :
    blankAfterTag (front.drop count) = blankAfterTag ((front ++ back).drop count) := by
  have long : count ≤ front.length := Nat.le_trans (Nat.le_add_right _ _) fits
  rw [List.drop_append_of_le_length long] at fits ⊢
  cases behind : front.drop count with
  | nil =>
      have short := List.drop_eq_nil_iff.mp behind
      rw [behind] at fits
      exact (Nat.le_zero.mp (by omega)).symm
  | cons byte rest => rfl

theorem opensTag_of_front (opens : opensTag shortTags front = true) (back : List UInt8) :
    opensTag shortTags (front ++ back) = true := by
  simp only [opensTag, Bool.or_eq_true, Bool.and_eq_true] at opens ⊢
  rcases opens with (opens | opens) | ⟨short, opens⟩
  · exact .inl (.inl (isPrefixOf_append opens back))
  · exact .inl (.inr (isPrefixOf_append opens back))
  · exact .inr ⟨short, isPrefixOf_append opens back⟩

theorem openTag?_of_fits {lexeme : Lexeme}
    (found : openTag? shortTags (front ++ back) = some lexeme)
    (fits : lexeme.length ≤ front.length) : openTag? shortTags front = some lexeme := by
  have missed : ∀ {symbol : List UInt8}, ¬ symbol.isPrefixOf (front ++ back) = true →
      ¬ symbol.isPrefixOf front = true := fun missed begins =>
    missed (isPrefixOf_append begins back)
  unfold openTag? at found ⊢
  split at found
  · rename_i opens
    obtain rfl := Option.some.inj found
    have long : (bytesOf "<?php").length ≤ front.length :=
      Nat.le_trans (Nat.le_add_right 5 _) fits
    rw [isPrefixOf_append_of_fits long] at opens
    rw [if_pos opens, blankAfterTag_of_fits fits]
  · rename_i noLong
    rw [if_neg (missed noLong)]
    split at found
    · rename_i opens
      obtain rfl := Option.some.inj found
      have long : (bytesOf "<?=").length ≤ front.length := fits
      rw [isPrefixOf_append_of_fits long] at opens
      rw [if_pos opens]
    · rename_i noEcho
      rw [if_neg (missed noEcho)]
      split at found
      · rename_i opens
        obtain rfl := Option.some.inj found
        have long : (bytesOf "<?").length ≤ front.length :=
          Nat.le_trans (Nat.le_add_right 2 _) fits
        rw [isPrefixOf_append_of_fits long] at opens
        rw [if_pos opens, blankAfterTag_of_fits fits]
      · cases found

/-- Page text ends where it did if the tag that ends it is in the front. -/
theorem pageTextEnd_of_front (taken : Nat) (front : List UInt8)
    (tag : opensTag shortTags
      (front.drop (pageTextEnd shortTags taken (front ++ back) - taken)) = true) :
    pageTextEnd shortTags taken front = pageTextEnd shortTags taken (front ++ back) := by
  fun_induction pageTextEnd shortTags taken front with
  | case1 taken =>
      have noTag : opensTag shortTags [] = false := by cases shortTags <;> rfl
      rw [List.drop_nil, noTag] at tag
      cases tag
  | case2 taken byte rest opens =>
      rw [openTag?_isSome] at opens
      rw [List.cons_append, pageTextEnd, openTag?_isSome, ← List.cons_append,
        if_pos (opensTag_of_front opens back)]
  | case3 taken byte rest noTag inductionHypothesis =>
      rw [openTag?_isSome] at noTag
      rw [List.cons_append, pageTextEnd] at tag ⊢
      split
      · rename_i opens
        rw [if_pos opens, Nat.sub_self, List.drop_zero] at tag
        exact absurd tag noTag
      · rename_i goesOn
        rw [if_neg goesOn] at tag
        have later := le_pageTextEnd shortTags (taken + 1) (rest ++ back)
        have next : pageTextEnd shortTags (taken + 1) (rest ++ back) - taken =
            pageTextEnd shortTags (taken + 1) (rest ++ back) - (taken + 1) + 1 := by omega
        rw [next, List.drop_succ_cons] at tag
        exact inductionHypothesis tag

theorem page_of_front (left : front ≠ [])
    (fits : (page shortTags (front ++ back)).length ≤ front.length)
    (tag : (page shortTags (front ++ back)).kind = .inlineHtml →
      opensTag shortTags (front.drop (page shortTags (front ++ back)).length) = true) :
    page shortTags front = page shortTags (front ++ back) := by
  have more : front ++ back ≠ [] := by simp [left]
  have whole : page shortTags (front ++ back) = (openTag? shortTags (front ++ back)).getD
      ⟨.inlineHtml, pageTextEnd shortTags 0 (front ++ back)⟩ := by
    rw [page_eq, if_neg (by simpa using more)]
  rw [whole] at fits tag ⊢
  rw [page_eq, if_neg (by simpa using left)]
  cases found : openTag? shortTags (front ++ back) with
  | some lexeme =>
      rw [found] at fits
      rw [openTag?_of_fits found fits]
      rfl
  | none =>
      rw [found] at tag
      have missed : openTag? shortTags front = none := by
        rw [← Option.not_isSome_iff_eq_none, openTag?_isSome] at found ⊢
        exact fun opens => found (opensTag_of_front opens back)
      rw [missed]
      exact congrArg (Lexeme.mk .inlineHtml) (pageTextEnd_of_front 0 front (tag rfl))

end Page

end Scan
end PhpTree
