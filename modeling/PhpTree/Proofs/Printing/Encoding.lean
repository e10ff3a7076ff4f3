import Mathlib.Tactic.Common
import PhpTree.Text.Bytes

/-! # Texts as bytes

The bytes of a text in UTF-8, from which reading bytes as text gives the text back:
every character is written with the bytes that its first byte announces. -/
set_option autoImplicit false
namespace PhpTree

namespace Utf8

def encode (text : String) : List UInt8 := text.toList.flatMap String.utf8EncodeChar

theorem isContinuation_ofNat {bits : Nat} (small : bits < 64) :
    isContinuation (UInt8.ofNat (bits + 0x80)) = true := by
  have fits : (UInt8.ofNat (bits + 0x80)).toNat = bits + 0x80 :=
    UInt8.toNat_ofNat_of_lt' (show bits + 0x80 < 256 by omega)
  simp only [isContinuation, Bool.and_eq_true, decide_eq_true_eq, UInt8.le_iff_toNat_le, fits]
  constructor
  · show 128 ≤ bits + 128
    omega
  · show bits + 128 ≤ 191
    omega

theorem extend_ofNat (code : Nat) {bits : Nat} (small : bits < 64) :
    extend code (UInt8.ofNat (bits + 0x80)) = code * 64 + bits := by
  have fits : (UInt8.ofNat (bits + 0x80)).toNat = bits + 0x80 :=
    UInt8.toNat_ofNat_of_lt' (show bits + 0x80 < 256 by omega)
  rw [extend, fits]
  omega

theorem character_of_lead {first second : UInt8} {value : Nat} {lead : Lead} (rest : List UInt8)
    (several : 0x80 ≤ first.toNat) (found : lead? first = some lead)
    (second_eq : second.toNat = value) (low : lead.low.toNat ≤ value)
    (high : value ≤ lead.high.toNat) :
    character first (second :: rest) =
      finishCharacter lead.further (extend lead.bits second) 1 rest := by
  have notOne : ¬ first < 0x80 := by
    rw [UInt8.lt_iff_toNat_lt]
    exact Nat.not_lt_of_le several
  have inRange : (lead.low ≤ second && second ≤ lead.high) = true := by
    simp [UInt8.le_iff_toNat_le, second_eq, low, high]
  simp [character, notOne, found, inRange]

theorem toNat_ofNat_add {bits mark : Nat} (small : bits + mark < 256) :
    (UInt8.ofNat (bits + mark)).toNat = bits + mark :=
  UInt8.toNat_ofNat_of_lt' small

theorem character_of_two {code : Nat} (low : 0x80 ≤ code) (high : code ≤ 0x7FF)
    (rest : List UInt8) :
    character (UInt8.ofNat (code / 64 % 0x20 + 0xC0)) (UInt8.ofNat (code % 0x40 + 0x80) :: rest) =
      (Char.ofNat code, 1) := by
  have first := @toNat_ofNat_add (code / 64 % 0x20) 0xC0 (by omega)
  have second := @toNat_ofNat_add (code % 0x40) 0x80 (by omega)
  have found : lead? (UInt8.ofNat (code / 64 % 0x20 + 0xC0)) =
      some ⟨0x80, 0xBF, 0, code / 64 % 0x20⟩ := by
    simp only [lead?, first]
    rw [if_neg (by omega), if_pos (by omega), Nat.add_sub_cancel]
  rw [character_of_lead rest (by omega) found second (Nat.le_add_left ..)
    (show code % 0x40 + 0x80 ≤ 0xBF by omega)]
  rw [finishCharacter, extend_ofNat _ (by omega),
    show code / 64 % 0x20 * 64 + code % 0x40 = code by omega]

theorem character_of_three {code : Nat} (low : 0x800 ≤ code) (high : code ≤ 0xFFFF)
    (scalar : code < 0xD800 ∨ 0xDFFF < code) (rest : List UInt8) :
    character (UInt8.ofNat (code / 4096 % 0x10 + 0xE0))
        (UInt8.ofNat (code / 64 % 0x40 + 0x80) :: UInt8.ofNat (code % 0x40 + 0x80) :: rest) =
      (Char.ofNat code, 2) := by
  have first := @toNat_ofNat_add (code / 4096 % 0x10) 0xE0 (by omega)
  have second := @toNat_ofNat_add (code / 64 % 0x40) 0x80 (by omega)
  have found : ∃ lead, lead? (UInt8.ofNat (code / 4096 % 0x10 + 0xE0)) = some lead ∧
      lead.low.toNat ≤ code / 64 % 0x40 + 0x80 ∧ code / 64 % 0x40 + 0x80 ≤ lead.high.toNat ∧
      lead.further = 1 ∧ lead.bits = code / 4096 % 0x10 := by
    simp only [lead?, first]
    rw [if_neg (by omega), if_neg (by omega)]
    by_cases overlong : code / 4096 % 0x10 + 0xE0 = 0xE0
    · rw [if_pos overlong]
      exact ⟨_, rfl, show 0xA0 ≤ _ by omega, show _ ≤ 0xBF by omega, rfl, show 0 = _ by omega⟩
    by_cases surrogate : code / 4096 % 0x10 + 0xE0 = 0xED
    · rw [if_neg overlong, if_pos surrogate]
      exact ⟨_, rfl, show 0x80 ≤ _ by omega, show _ ≤ 0x9F by omega, rfl, show 0xD = _ by omega⟩
    · rw [if_neg overlong, if_neg surrogate, if_pos (by omega)]
      exact ⟨_, rfl, show 0x80 ≤ _ by omega, show _ ≤ 0xBF by omega, rfl,
        Nat.add_sub_cancel ..⟩
  obtain ⟨lead, found, above, below, further, bits⟩ := found
  rw [character_of_lead _ (by omega) found second above below, further, bits]
  simp only [finishCharacter]
  rw [if_pos (isContinuation_ofNat (by omega)), extend_ofNat _ (by omega),
    extend_ofNat _ (by omega),
    show (code / 4096 % 0x10 * 64 + code / 64 % 0x40) * 64 + code % 0x40 = code by omega]

theorem character_of_four {code : Nat} (low : 0x10000 ≤ code) (high : code < 0x110000)
    (rest : List UInt8) :
    character (UInt8.ofNat (code / 262144 % 0x08 + 0xF0))
        (UInt8.ofNat (code / 4096 % 0x40 + 0x80) :: UInt8.ofNat (code / 64 % 0x40 + 0x80) ::
          UInt8.ofNat (code % 0x40 + 0x80) :: rest) =
      (Char.ofNat code, 3) := by
  have first := @toNat_ofNat_add (code / 262144 % 0x08) 0xF0 (by omega)
  have second := @toNat_ofNat_add (code / 4096 % 0x40) 0x80 (by omega)
  have found : ∃ lead, lead? (UInt8.ofNat (code / 262144 % 0x08 + 0xF0)) = some lead ∧
      lead.low.toNat ≤ code / 4096 % 0x40 + 0x80 ∧ code / 4096 % 0x40 + 0x80 ≤ lead.high.toNat ∧
      lead.further = 2 ∧ lead.bits = code / 262144 % 0x08 := by
    simp only [lead?, first]
    rw [if_neg (by omega), if_neg (by omega), if_neg (by omega), if_neg (by omega),
      if_neg (by omega)]
    by_cases overlong : code / 262144 % 0x08 + 0xF0 = 0xF0
    · rw [if_pos overlong]
      exact ⟨_, rfl, show 0x90 ≤ _ by omega, show _ ≤ 0xBF by omega, rfl, show 0 = _ by omega⟩
    by_cases middle : code / 262144 % 0x08 + 0xF0 ≤ 0xF3
    · rw [if_neg overlong, if_pos middle]
      exact ⟨_, rfl, show 0x80 ≤ _ by omega, show _ ≤ 0xBF by omega, rfl,
        Nat.add_sub_cancel ..⟩
    · rw [if_neg overlong, if_neg middle, if_pos (by omega)]
      exact ⟨_, rfl, show 0x80 ≤ _ by omega, show _ ≤ 0x8F by omega, rfl, show 4 = _ by omega⟩
  obtain ⟨lead, found, above, below, further, bits⟩ := found
  rw [character_of_lead _ (by omega) found second above below, further, bits]
  simp only [finishCharacter]
  rw [if_pos (isContinuation_ofNat (by omega)), if_pos (isContinuation_ofNat (by omega)),
    extend_ofNat _ (by omega), extend_ofNat _ (by omega), extend_ofNat _ (by omega),
    show ((code / 262144 % 0x08 * 64 + code / 4096 % 0x40) * 64 + code / 64 % 0x40) * 64 +
      code % 0x40 = code by omega]

theorem character_encoded (char : Char) :
    ∃ first others, String.utf8EncodeChar char = first :: others ∧
      ∀ rest, character first (others ++ rest) = (char, others.length) := by
  have scalar : char.toNat < 0xD800 ∨ 0xDFFF < char.toNat ∧ char.toNat < 0x110000 := char.valid
  have back : Char.ofNat char.val.toNat = char := Char.ofNat_toNat char
  change char.val.toNat < _ ∨ _ < char.val.toNat ∧ char.val.toNat < _ at scalar
  unfold String.utf8EncodeChar
  by_cases one : char.val.toNat ≤ 0x7F
  · refine ⟨_, _, if_pos one, fun rest => ?_⟩
    have fits : (UInt8.ofNat char.val.toNat).toNat = char.val.toNat :=
      UInt8.toNat_ofNat_of_lt' (show char.val.toNat < 256 by omega)
    have small : UInt8.ofNat char.val.toNat < 0x80 := by
      rw [UInt8.lt_iff_toNat_lt, fits]
      exact Nat.lt_succ_of_le one
    unfold character
    rw [if_pos small, fits, back]
    rfl
  by_cases two : char.val.toNat ≤ 0x7FF
  · refine ⟨_, _, (if_neg one).trans (if_pos two), fun rest => ?_⟩
    rw [List.cons_append, List.nil_append, character_of_two (by omega) two, back]
    rfl
  by_cases three : char.val.toNat ≤ 0xFFFF
  · refine ⟨_, _, (if_neg one).trans ((if_neg two).trans (if_pos three)), fun rest => ?_⟩
    rw [List.cons_append, List.cons_append, List.nil_append,
      character_of_three (by omega) three (by omega), back]
    rfl
  · refine ⟨_, _, (if_neg one).trans ((if_neg two).trans (if_neg three)), fun rest => ?_⟩
    rw [List.cons_append, List.cons_append, List.cons_append, List.nil_append,
      character_of_four (by omega) (by omega), back]
    rfl

theorem decodeFrom_skipped (skipped rest : List UInt8) (done : List Char) :
    decodeFrom skipped.length (skipped ++ rest) done = decodeFrom 0 rest done := by
  induction skipped with
  | nil => rfl
  | cons byte skipped inductionHypothesis => exact inductionHypothesis

theorem decodeFrom_encoded (chars : List Char) (done : List Char) :
    decodeFrom 0 (chars.flatMap String.utf8EncodeChar) done = done.reverse ++ chars := by
  induction chars generalizing done with
  | nil => simp [decodeFrom]
  | cons char chars inductionHypothesis =>
      obtain ⟨first, others, encoded, reads⟩ := character_encoded char
      rw [List.flatMap_cons, encoded, List.cons_append, decodeFrom, reads]
      rw [decodeFrom_skipped, inductionHypothesis]
      simp

/-- A text is read back from its bytes. -/
theorem decode_encode (text : String) : decode (encode text) = text := by
  rw [decode, encode, decodeFrom_encoded]
  simp

end Utf8
end PhpTree
