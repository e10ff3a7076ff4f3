import PhpTree.Proofs.BlankTails
import PhpTree.Proofs.Printing.Encoding
import PhpTree.Proofs.Reading.Programs

/-! # Words

A source written as words: the open tag, and after it each word with one blank in
front.  A word that scans on its own to one token scans to the same token inside
such a source, so the tokens of the source are its words. -/
set_option autoImplicit false
namespace PhpTree

/-! ## What follows a blank does not matter -/

def IsSeparated (tail : List UInt8) : Prop := tail = [] ∨ ∃ more, tail = 32 :: more

theorem IsSeparated.startsWithBlank {tail : List UInt8} (separated : IsSeparated tail) :
    StartsWithBlank tail := by
  rcases separated with rfl | ⟨more, rfl⟩
  · rintro byte ⟨⟩
  · rintro byte ⟨⟩
    rfl

namespace Scan

/-- What the scanner finds, or misses, in a whole input, it finds or misses when a blank follows. -/
def KeepsPlainLexemes (scanner : List UInt8 → Option Lexeme) : Prop :=
  ∀ input tail : List UInt8, input ≠ [] → IsSeparated tail →
    (scanner input = none → scanner (input ++ tail) = none) ∧
      ∀ kind : TokenKind, kind.isPlain = true → scanner input = some ⟨kind, input.length⟩ →
        scanner (input ++ tail) = some ⟨kind, input.length⟩

theorem scanners_keepPlainLexemes : ∀ scanner ∈ scanners, KeepsPlainLexemes scanner := by
  intro scanner member input tail left separated
  rcases scanners_keep scanner member left separated.startsWithBlank with same |
    ⟨lexeme, found, isOpen⟩
  · rw [same]
    exact ⟨id, fun _ _ => id⟩
  · refine ⟨fun missing => ?_, fun kind plain also => ?_⟩
    · rw [found] at missing
      cases missing
    · rw [found] at also
      cases also
      rcases isOpen.kind with rfl | rfl | ⟨rfl, _⟩ <;> cases plain

theorem findSome?_steady {list : List (List UInt8 → Option Lexeme)} {input tail : List UInt8}
    {kind : TokenKind} (steady : ∀ scanner ∈ list, KeepsPlainLexemes scanner) (left : input ≠ [])
    (separated : IsSeparated tail) (plain : kind.isPlain = true)
    (found : list.findSome? (fun scanner => scanner input) = some ⟨kind, input.length⟩) :
    list.findSome? (fun scanner => scanner (input ++ tail)) = some ⟨kind, input.length⟩ := by
  induction list with
  | nil => cases found
  | cons scanner list inductionHypothesis =>
      obtain ⟨misses, finds⟩ := steady scanner (List.mem_cons_self ..) input tail left separated
      rw [List.findSome?_cons] at found ⊢
      cases scanned : scanner input with
      | none =>
          rw [scanned] at found
          rw [misses scanned]
          exact inductionHypothesis (fun scanner member => steady scanner (.tail _ member)) found
      | some lexeme =>
          rw [scanned] at found
          obtain rfl := Option.some.inj found
          rw [finds kind plain scanned]

/-- A token that reaches to the end of its input is still there when a blank follows. -/
theorem script_append_separated {input tail : List UInt8} {kind : TokenKind}
    (separated : IsSeparated tail)
    (plain : kind.isPlain = true) (whole : script input = ⟨kind, input.length⟩) :
    script (input ++ tail) = ⟨kind, input.length⟩ := by
  have left : input ≠ [] := by
    rintro rfl
    cases whole
    cases plain
  have more : input ++ tail ≠ [] := by simp [left]
  rw [script, if_neg (by simpa using left)] at whole
  rw [script, if_neg (by simpa using more)]
  cases found : scanners.findSome? (fun scanner => scanner input) with
  | none =>
      rw [found] at whole
      obtain rfl : TokenKind.error = kind := congrArg Lexeme.kind whole
      cases plain
  | some lexeme =>
      rw [found] at whole
      obtain rfl : lexeme = ⟨kind, input.length⟩ := whole
      rw [findSome?_steady scanners_keepPlainLexemes left separated plain found]
      rfl

/-! ## No token begins with a blank -/

def StartsNonblank (symbol : List UInt8) : Prop :=
  ∃ first ∈ symbol.head?, Byte.isBlank first = false

instance (symbol : List UInt8) : Decidable (StartsNonblank symbol) :=
  inferInstanceAs (Decidable (∃ first ∈ symbol.head?, Byte.isBlank first = false))

theorem isPrefixOf_blank {symbol : List UInt8} (sharp : StartsNonblank symbol) {byte : UInt8}
    (blank : Byte.isBlank byte = true) (rest : List UInt8) :
    symbol.isPrefixOf (byte :: rest) = false := by
  obtain ⟨first, isFirst, noBlank⟩ := sharp
  cases symbol with
  | nil => cases isFirst
  | cons head others =>
      cases isFirst
      have differs : (first == byte) = false := by
        apply beq_eq_false_iff_ne.mpr
        rintro rfl
        rw [blank] at noBlank
        cases noBlank
      simp [List.isPrefixOf, differs]

theorem symbolTable_startsNonblank : ∀ entry ∈ symbolTable,
    StartsNonblank entry.1 := by decide +kernel

theorem script_of_blank {byte : UInt8} (blank : Byte.isBlank byte = true) (rest : List UInt8) :
    script (byte :: rest) = ⟨.error, 1⟩ := by
  have dull : isDull byte = true ∧ ¬ Byte.isQuote byte = true := Byte.of_isBlank blank (by decide)
  have noSymbol : symbol? (byte :: rest) = none := by
    rw [symbol?, List.find?_eq_none.mpr, Option.map_none]
    intro entry member
    simp [isPrefixOf_blank (symbolTable_startsNonblank entry member) blank rest]
  have noString : quoted? (byte :: rest) = none := by rw [quoted?, if_neg dull.2]
  have noLine : lineComment? (byte :: rest) = none := by
    rw [lineComment?, isPrefixOf_blank (by decide) blank, isPrefixOf_blank (by decide) blank]
    rfl
  have noBlock : blockComment? (byte :: rest) = none := by
    rw [blockComment?, isPrefixOf_blank (by decide) blank]
    rfl
  have noClose : closeTag? (byte :: rest) = none := by
    rw [closeTag?, isPrefixOf_blank (by decide) blank]
    rfl
  simp [script_of_dull dull.1, noString, noLine, noBlock, noClose, noSymbol]

end Scan
/-- What the grammar sees of a token. -/
structure Word where
  kind : TokenKind
  text : String
deriving DecidableEq

def Token.word (token : Token) : Word := ⟨token.kind, token.text⟩

namespace Word

def bytes (word : Word) : List UInt8 := Utf8.encode word.text

structure ScansAsItself (word : Word) : Prop where
  plain : word.kind.isPlain = true
  whole : Scan.script word.bytes = ⟨word.kind, word.bytes.length⟩

instance (word : Word) : Decidable word.ScansAsItself :=
  decidable_of_iff (word.kind.isPlain = true ∧
      Scan.script word.bytes = ⟨word.kind, word.bytes.length⟩)
    ⟨fun ⟨plain, whole⟩ => ⟨plain, whole⟩, fun scans => ⟨scans.plain, scans.whole⟩⟩

def spaced (words : List Word) : List UInt8 := words.flatMap fun word => 32 :: word.bytes

def source (words : List Word) : List UInt8 := bytesOf "<?php" ++ spaced words

theorem isSeparated_spaced (words : List Word) : IsSeparated (spaced words) := by
  cases words with
  | nil => exact Or.inl rfl
  | cons word words => exact Or.inr ⟨_, List.cons_append⟩

theorem ScansAsItself.dropWhile_bytes {word : Word} (scans : word.ScansAsItself)
    (tail : List UInt8) :
    (word.bytes ++ tail).dropWhile Byte.isBlank = word.bytes ++ tail := by
  obtain ⟨plain, whole⟩ := scans
  cases bytes : word.bytes with
  | nil =>
      rw [bytes] at whole
      obtain kind : TokenKind.eof = word.kind := congrArg Lexeme.kind whole
      rw [← kind] at plain
      cases plain
  | cons byte rest =>
      have noBlank : ¬ Byte.isBlank byte = true := by
        intro blank
        rw [bytes, Scan.script_of_blank blank] at whole
        obtain kind : TokenKind.error = word.kind := congrArg Lexeme.kind whole
        rw [← kind] at plain
        cases plain
      rw [List.cons_append, List.dropWhile_cons_of_neg noBlank]

theorem dropWhile_spaced {word : Word} (scans : word.ScansAsItself) (words : List Word) :
    (spaced (word :: words)).dropWhile Byte.isBlank = word.bytes ++ spaced words := by
  show ((32 :: word.bytes) ++ spaced words).dropWhile Byte.isBlank = _
  rw [List.cons_append, List.dropWhile_cons_of_pos (by decide), scans.dropWhile_bytes]

end Word

/-! ## The tokens of words -/

namespace Lexer

theorem mode_after_plain {kind : TokenKind} (plain : kind.isPlain = true) (mode : Mode) :
    mode.after kind = mode := by
  cases kind <;> first | rfl | cases plain

theorem next_of_word {lexer : Lexer} {word : Word} {tail : List UInt8}
    (inScript : lexer.mode = .script) (scans : word.ScansAsItself) (separated : IsSeparated tail)
    (ahead : lexer.rest.dropWhile Byte.isBlank = word.bytes ++ tail) :
    lexer.next.1.word = word ∧ lexer.next.2.mode = .script ∧ lexer.next.2.rest = tail := by
  have stripped : lexer.skipBlanks.rest = word.bytes ++ tail := by
    rw [rest_skipBlanks inScript, ahead]
  have mode : lexer.skipBlanks.mode = .script := by
    simp [skipBlanks, inScript, skip]
  have lexeme : lexer.skipBlanks.lexeme = ⟨word.kind, word.bytes.length⟩ := by
    simp only [Lexer.lexeme, mode, stripped]
    exact Scan.script_append_separated separated scans.plain scans.whole
  simp only [next, take, lexeme, skip, stripped, mode, mode_after_plain scans.plain]
  refine ⟨?_, trivial, ?_⟩
  · simp [Token.word, Token.text, Word.bytes, Utf8.decode_encode]
  · simp

theorem tokens_words (words : List Word) :
    ∀ lexer : Lexer, lexer.mode = .script → (∀ word ∈ words, word.ScansAsItself) →
      lexer.rest.dropWhile Byte.isBlank = (Word.spaced words).dropWhile Byte.isBlank →
      lexer.tokens.map Token.word = words ++ [⟨.eof, ""⟩] := by
  induction words with
  | nil =>
      intro lexer inScript _ ahead
      have stripped : lexer.skipBlanks.rest = [] := by
        rw [rest_skipBlanks inScript, ahead]
        rfl
      have next : lexer.next = lexer.skipBlanks.take ⟨.eof, 0⟩ := by
        rw [Lexer.next, lexeme_at_end _ stripped]
      rw [tokens_of_eof (by rw [next]; rfl), next]
      rfl
  | cons word words inductionHypothesis =>
      intro lexer inScript scan ahead
      obtain ⟨scans, scanLater⟩ := List.forall_mem_cons.mp scan
      rw [Word.dropWhile_spaced scans] at ahead
      obtain ⟨same, stays, rest⟩ :=
        next_of_word inScript scans (Word.isSeparated_spaced words) ahead
      have goesOn : lexer.next.1.kind ≠ .eof := by
        intro ends
        have kind : lexer.next.1.kind = word.kind := congrArg Word.kind same
        have plain := scans.plain
        rw [← kind, ends] at plain
        cases plain
      rw [tokens_of_ne_eof goesOn, List.map_cons, same,
        inductionHypothesis lexer.next.2 stays scanLater (by rw [rest])]
      rfl

/-- The tokens of words written out as a source are the words, between the open tag and the end of
file. -/
theorem tokens_source {words : List Word} (scan : ∀ word ∈ words, word.ScansAsItself)
    (shortTags : Bool) :
    ∃ tag : Word, tag.kind = .openTag ∧
      (ofSource shortTags (Word.source words)).tokens.map Token.word =
        tag :: words ++ [⟨.eof, ""⟩] := by
  have opens : Scan.page shortTags (Word.source words) =
      ⟨.openTag, 5 + Scan.blankAfterTag (Word.spaced words)⟩ := by
    rfl
  have next : (ofSource shortTags (Word.source words)).next =
      (ofSource shortTags (Word.source words)).take
        ⟨.openTag, 5 + Scan.blankAfterTag (Word.spaced words)⟩ := by
    rw [← opens]
    rfl
  have rest : (ofSource shortTags (Word.source words)).next.2.rest.dropWhile Byte.isBlank =
      (Word.spaced words).dropWhile Byte.isBlank := by
    rw [next]
    show (List.drop (5 + Scan.blankAfterTag (Word.spaced words))
      (bytesOf "<?php" ++ Word.spaced words)).dropWhile Byte.isBlank = _
    rw [← List.drop_drop]
    show (List.drop _ (Word.spaced words)).dropWhile Byte.isBlank = _
    cases words with
    | nil => rfl
    | cons word words => rfl
  have kind : (ofSource shortTags (Word.source words)).next.1.kind = .openTag := by
    rw [next]
    rfl
  have goesOn : (ofSource shortTags (Word.source words)).next.1.kind ≠ .eof := by
    rw [kind]
    decide
  have inScript : (ofSource shortTags (Word.source words)).next.2.mode = .script := by
    rw [next]
    rfl
  refine ⟨(ofSource shortTags (Word.source words)).next.1.word, kind, ?_⟩
  rw [tokens_of_ne_eof goesOn, List.map_cons, tokens_words words _ inScript scan rest]
  rfl

end Lexer
end PhpTree
