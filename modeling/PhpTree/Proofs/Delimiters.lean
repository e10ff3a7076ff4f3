import Mathlib.Algebra.Group.Nat.Even
import PhpTree.Proofs.BlankTails
import PhpTree.Tree.Attributes

/-! # Where delimited tokens end

A comment or a quote ends where the first closing delimiter does.  In a quote a
backslash hides the byte behind it, so a quote closes if the backslashes in front of
it pair off.  The scanners keep no count of backslashes: they pass over two bytes at
a time, and the count is even wherever they stand. -/
set_option autoImplicit false
namespace PhpTree

/-- What a search from `start` on answers: the end of the first closing delimiter, if there is
one. -/
def FindsEnd (closes : Nat → Prop) (start width : Nat) : Option Nat → Prop
  | some stop => ∃ offset, IsFirst closes start offset ∧ stop = offset + width
  | none => ∀ offset, start ≤ offset → ¬ closes offset

namespace FindsEnd

variable {closes : Nat → Prop} {start width : Nat}

theorem here (closed : closes start) : FindsEnd closes start width (some (start + width)) :=
  ⟨start, .here closed, rfl⟩

theorem later (passed : ¬ closes start) {answer : Option Nat}
    (behind : FindsEnd closes (start + 1) width answer) : FindsEnd closes start width answer := by
  cases answer with
  | some stop =>
      obtain ⟨offset, first, stop_eq⟩ := behind
      exact ⟨offset, .later passed first, stop_eq⟩
  | none =>
      intro offset after
      rcases Nat.eq_or_lt_of_le after with rfl | after
      · exact passed
      · exact behind offset after

end FindsEnd

/-! ## The searches of the scanners -/

/-- A line ends in front of these bytes, or script does. -/
def EndsLine (ahead : List UInt8) : Prop :=
  ahead.head? = some 10 ∨ ahead.head? = some 13 ∨ (bytesOf "?>").isPrefixOf ahead = true

def ClosesBlock (ahead : List UInt8) : Prop := (bytesOf "*/").isPrefixOf ahead = true

/-- How many backslashes stand right in front of `offset`, none before `start`. -/
def backslashesBefore (source : List UInt8) (start offset : Nat) : Nat :=
  (((source.take offset).drop start).reverse.takeWhile (· == byteOf '\\')).length

/-- The quote at this offset is not hidden by a backslash. -/
def ClosesQuote (source : List UInt8) (start : Nat) (quote : UInt8) (offset : Nat) : Prop :=
  source[offset]? = some quote ∧ Even (backslashesBefore source start offset)

theorem getElem?_of_drop {source : List UInt8} {offset : Nat} {byte : UInt8} {rest : List UInt8}
    (here : source.drop offset = byte :: rest) : source[offset]? = some byte := by
  rw [← List.head?_drop, here]
  rfl

theorem getElem?_of_drop_nil {source : List UInt8} {offset : Nat} (used : source.drop offset = [])
    {later : Nat} (after : offset ≤ later) : source[later]? = none := by
  rw [List.drop_eq_nil_iff] at used
  exact List.getElem?_eq_none (Nat.le_trans used after)

section Backslashes
variable {source : List UInt8} {start offset : Nat} {byte : UInt8} {rest : List UInt8}
  (here : source.drop offset = byte :: rest) (inside : start ≤ offset)
include here inside

theorem before_succ : (source.take (offset + 1)).drop start =
    (source.take offset).drop start ++ [byte] := by
  have long : start ≤ (source.take offset).length := by
    rw [List.length_take, Nat.min_eq_left (Nat.le_of_lt (drop_eq_cons here).1)]
    exact inside
  rw [List.take_add_one, getElem?_of_drop here, List.drop_append_of_le_length long]
  rfl

theorem backslashesBefore_succ : backslashesBefore source start (offset + 1) =
    if byte == byteOf '\\' then backslashesBefore source start offset + 1 else 0 := by
  rw [backslashesBefore, before_succ here inside, List.reverse_append, List.reverse_singleton,
    List.singleton_append, List.takeWhile_cons]
  split <;> rfl

end Backslashes

namespace Scan

variable {source : List UInt8}

theorem isFirst_lineCommentEnd (start taken : Nat) (inside : start + taken ≤ source.length) :
    IsFirst (fun offset => EndsLine (source.drop offset) ∨ offset = source.length) (start + taken)
      (start + lineCommentEnd taken (source.drop (start + taken))) := by
  have endsLine : ∀ {byte : UInt8} {rest : List UInt8}, EndsLine (byte :: rest) ↔
      (byte == 10 || byte == 13 || (bytesOf "?>").isPrefixOf (byte :: rest)) = true := by
    intro byte rest
    simp [EndsLine, or_assoc]
  refine isFirst_of_search lineCommentEnd EndsLine (fun _ => rfl) ?_ ?_ start taken inside
  · intro taken byte rest ends
    rw [lineCommentEnd, if_pos (endsLine.mp ends)]
  · intro taken byte rest goesOn
    rw [lineCommentEnd, if_neg (mt endsLine.mpr goesOn)]

theorem ends_blockCommentEnd? (start taken : Nat) :
    FindsEnd (fun offset => ClosesBlock (source.drop offset)) (start + taken) 2
      ((blockCommentEnd? taken (source.drop (start + taken))).map (start + ·)) := by
  generalize input_eq : source.drop (start + taken) = input
  fun_induction blockCommentEnd? taken input with
  | case1 taken =>
      intro offset after closes
      rw [List.drop_eq_nil_iff] at input_eq
      rw [List.drop_eq_nil_of_le (Nat.le_trans input_eq after)] at closes
      cases closes
  | case2 taken byte rest closes => exact .here (by rwa [input_eq])
  | case3 taken byte rest goesOn inductionHypothesis =>
      exact .later (by rwa [input_eq]) (inductionHypothesis (drop_eq_cons input_eq).2)

theorem ends_quotedEnd? {quote : UInt8} (start taken : Nat)
    (even : Even (backslashesBefore source start (start + taken))) :
    FindsEnd (ClosesQuote source start quote) (start + taken) 1
      ((quotedEnd? quote taken (source.drop (start + taken))).map (start + ·)) := by
  generalize input_eq : source.drop (start + taken) = input
  have inside : start ≤ start + taken := Nat.le_add_right _ _
  -- A byte that is no quote closes nothing, however many backslashes are in front of it.
  have other : ∀ {offset : Nat} {byte : UInt8} {rest : List UInt8}, ¬ (byte == quote) = true →
      source.drop offset = byte :: rest → ¬ ClosesQuote source start quote offset := by
    intro offset byte rest differs here closes
    rw [ClosesQuote, getElem?_of_drop here, Option.some_inj] at closes
    exact differs (beq_iff_eq.mpr closes.1)
  have nowhere : ∀ {offset : Nat}, source.drop offset = [] →
      FindsEnd (ClosesQuote source start quote) offset 1 none := by
    intro offset used later after closes
    rw [ClosesQuote, getElem?_of_drop_nil used after] at closes
    cases closes.1
  fun_induction quotedEnd? quote taken input with
  | case1 taken => exact nowhere input_eq
  | case2 taken byte rest closes =>
      refine .here ⟨?_, even⟩
      rw [getElem?_of_drop input_eq, beq_iff_eq.mp closes]
  | case3 taken byte differs escapes =>
      exact .later (other differs input_eq) (nowhere (drop_eq_cons input_eq).2)
  | case4 taken byte differs escapes next rest inductionHypothesis =>
      have hidden := (drop_eq_cons input_eq).2
      have one := backslashesBefore_succ input_eq inside
      have two := backslashesBefore_succ hidden (Nat.le_succ_of_le inside)
      rw [if_pos escapes] at one
      -- Behind one backslash more than an even number a quote is hidden.
      have passed : ¬ ClosesQuote source start quote (start + taken + 1) := by
        rintro ⟨_, odd⟩
        rw [one, Nat.even_add_one] at odd
        exact odd even
      refine .later (other differs input_eq) (.later passed ?_)
      refine inductionHypothesis ?_ (drop_eq_cons hidden).2 (Nat.le_add_right _ _)
      rw [← Nat.add_assoc, two, one]
      split
      · rwa [Nat.even_add_one, Nat.even_add_one, not_not]
      · exact Even.zero
  | case5 taken byte rest differs escapes inductionHypothesis =>
      refine .later (other differs input_eq) ?_
      refine inductionHypothesis ?_ (drop_eq_cons input_eq).2 (Nat.le_add_right _ _)
      rw [← Nat.add_assoc, backslashesBefore_succ input_eq inside, if_neg escapes]
      exact Even.zero

/-! ## What is asked first -/

theorem script_of_quote {quote : UInt8} (isQuote : Byte.isQuote quote = true)
    (rest : List UInt8) : quoted? (quote :: rest) = some (script (quote :: rest)) := by
  have dull : isDull quote = true := by
    have cases : quote = byteOf '\x27' ∨ quote = byteOf '"' ∨ quote = byteOf '\x60' := by
      simpa [Byte.isQuote, or_assoc] using isQuote
    rcases cases with rfl | rfl | rfl <;> decide
  obtain ⟨lexeme, found⟩ : ∃ lexeme, quoted? (quote :: rest) = some lexeme := by
    rw [quoted?, if_pos isQuote]
    split <;> exact ⟨_, rfl⟩
  rw [script_of_dull dull, List.findSome?_cons, found]
  rfl

/-- Where neither a word, a variable or a number nor a quote can begin, comments come first. -/
theorem script_of_comment {first : UInt8} (dull : isDull first = true)
    (noQuote : ¬ Byte.isQuote first = true) {rest : List UInt8} {lexeme : Lexeme}
    (found : (lineComment? (first :: rest)).or (blockComment? (first :: rest)) = some lexeme) :
    script (first :: rest) = lexeme := by
  have noString : quoted? (first :: rest) = none := by rw [quoted?, if_neg noQuote]
  rw [script_of_dull dull, List.findSome?_cons, noString]
  simp only [List.findSome?_cons]
  cases line : lineComment? (first :: rest) with
  | some comment =>
      rw [line] at found
      exact Option.some.inj found
  | none =>
      rw [line, Option.none_or] at found
      rw [found]
      rfl

theorem script_of_lineComment {opener : List UInt8}
    (isOpener : opener ∈ [bytesOf "#", bytesOf "//"]) {input : List UInt8}
    (opens : opener.isPrefixOf input = true) :
    script input = ⟨.comment, lineCommentEnd opener.length (input.drop opener.length)⟩ := by
  obtain ⟨rest, rfl⟩ := List.isPrefixOf_iff_prefix.mp opens
  simp only [List.mem_cons, List.not_mem_nil, or_false] at isOpener
  rcases isOpener with rfl | rfl
  · exact script_of_comment (by decide) (by decide) rfl
  · exact script_of_comment (by decide) (by decide) rfl

theorem script_of_blockComment {input : List UInt8}
    (opens : (bytesOf "/*").isPrefixOf input = true) :
    blockComment? input = some (script input) := by
  obtain ⟨rest, rfl⟩ := List.isPrefixOf_iff_prefix.mp opens
  obtain ⟨lexeme, found⟩ : ∃ lexeme, blockComment? (bytesOf "/*" ++ rest) = some lexeme := by
    rw [blockComment?_eq, if_pos opens]
    split <;> exact ⟨_, rfl⟩
  have noLine : lineComment? (bytesOf "/*" ++ rest) = none := rfl
  have scanned : script (bytesOf "/*" ++ rest) = lexeme :=
    script_of_comment (by decide) (by decide) (by exact noLine ▸ found)
  rw [found, scanned]

end Scan

/-! ## Tokens -/

/-- The token ends behind the first closing delimiter from `start` on. Where there is none, and only
there, it is an error that reaches to the end of the source. -/
structure ClosedBy (closes : Nat → Prop) (start width : Nat) (source : List UInt8)
    (token : Token) : Prop where
  closed : ∀ offset, IsFirst closes start offset →
    token.kind ≠ .error ∧ token.stop = offset + width
  unclosed : token.kind = .error ∧ token.stop = source.length ↔
    ∀ offset, start ≤ offset → ¬ closes offset

theorem FindsEnd.closedBy {closes : Nat → Prop} {start width : Nat} {answer : Option Nat}
    (ends : FindsEnd closes start width answer) {source : List UInt8} {token : Token}
    (closed : ∀ stop ∈ answer, token.kind ≠ .error ∧ token.stop = stop)
    (unclosed : answer = none → token.kind = .error ∧ token.stop = source.length) :
    ClosedBy closes start width source token := by
  cases answer with
  | some stop =>
      obtain ⟨offset, first, rfl⟩ := ends
      obtain ⟨noError, stop⟩ := closed _ rfl
      refine ⟨fun other also => ⟨noError, ?_⟩, fun isError => absurd isError.1 noError, ?_⟩
      · rw [stop, first.unique also]
      · exact fun nowhere => absurd first.stops (nowhere offset first.le)
  | none =>
      refine ⟨fun offset first => absurd first.stops (ends offset first.le), fun _ => ends, ?_⟩
      exact fun _ => unclosed rfl

/-- The token ends where its delimiters say, and a comment that is closed is a doc comment if its
text is that of one. -/
structure Delimited (source : List UInt8) (token : Token) : Prop where
  line : ∀ opener ∈ [bytesOf "#", bytesOf "//"],
    opener.isPrefixOf (source.drop token.start) = true →
      token.kind = .comment ∧
        IsFirst (fun offset => EndsLine (source.drop offset) ∨ offset = source.length)
          (token.start + opener.length) token.stop
  block : (bytesOf "/*").isPrefixOf (source.drop token.start) = true →
    ClosedBy (fun offset => ClosesBlock (source.drop offset)) (token.start + 2) 2 source token
  quoted : ∀ quote, Byte.isQuote quote = true → source[token.start]? = some quote →
    ClosedBy (ClosesQuote source token.start quote) (token.start + 1) 1 source token
  doc : token.kind.isTrivia = true →
    ∀ position, token.kind = .docComment ↔ (Comment.mk token.text position).isDoc = true

theorem Comment.isDoc_decode (bytes : List UInt8) (position : Option Position) :
    (Comment.mk (Utf8.decode bytes) position).isDoc = true ↔
      (bytesOf "/**").isPrefixOf bytes = true ∧ Utf8.decode bytes ≠ "/**/" := by
  rw [isDoc, Bool.and_eq_true, bne_iff_ne, Utf8.isPrefixOf_decode (by simp)]

namespace Scan

/-- The scanner looks at the byte behind two stars, the tree at the text as a whole. -/
theorem docComment_iff_of_block {input : List UInt8} {lexeme : Lexeme}
    (found : blockComment? input = some lexeme) (isTrivia : lexeme.kind.isTrivia = true)
    (position : Option Position) : lexeme.kind = .docComment ↔
      (Comment.mk (Utf8.decode (input.take lexeme.length)) position).isDoc = true := by
  rw [Comment.isDoc_decode]
  rw [blockComment?_eq] at found
  split at found
  case isFalse => cases found
  split at found
  case h_2 =>
    cases found
    cases isTrivia
  rename_i length closed
  cases found
  by_cases doc : isDocOpener input = true
  · simp only [doc, if_true, true_iff]
    simp only [isDocOpener, Bool.and_eq_true, Bool.not_eq_true'] at doc
    refine ⟨?_, fun empty => ?_⟩
    · have long : 3 ≤ length := blockCommentEnd?_gt 2 _ length closed
      obtain ⟨rest, rfl⟩ := List.isPrefixOf_iff_prefix.mp doc.1
      rw [List.isPrefixOf_iff_prefix]
      exact List.prefix_take_iff.mpr ⟨List.prefix_append _ _, long⟩
    · have begins : "/**/".toList.isPrefixOf (Utf8.decode (input.take length)).toList = true := by
        rw [empty]
        rfl
      rw [Utf8.isPrefixOf_decode (by simp)] at begins
      rw [isPrefixOf_of_front begins (List.take_prefix _ _)] at doc
      cases doc.2
  · have noDoc : (if isDocOpener input = true then TokenKind.docComment else .comment) =
        .comment := if_neg doc
    simp only [noDoc, reduceCtorEq, false_iff, not_and, not_not]
    intro stars
    have begins := isPrefixOf_of_front stars (List.take_prefix _ _)
    have empty : (bytesOf "/**/").isPrefixOf input = true := by
      simpa [isDocOpener, begins] using doc
    obtain ⟨rest, rfl⟩ := List.isPrefixOf_iff_prefix.mp empty
    cases closed
    rfl

theorem comment_of_isTrivia {input : List UInt8} (isTrivia : (script input).kind.isTrivia = true) :
    lineComment? input = some (script input) ∨ blockComment? input = some (script input) := by
  have left : input ≠ [] := by
    rintro rfl
    cases isTrivia
  rcases script_cases left with only | plain | quoted | line | block | close
  · rw [only] at isTrivia
    cases isTrivia
  · revert plain isTrivia
    cases (script input).kind <;> simp [TokenKind.isPlain, TokenKind.isTrivia]
  · rcases quoted?_kind quoted with kind | kind <;> rw [kind] at isTrivia <;> cases isTrivia
  · exact .inl line
  · exact .inr block
  · rw [closeTag?_kind close] at isTrivia
    cases isTrivia

theorem docComment_iff {input : List UInt8} (isTrivia : (script input).kind.isTrivia = true)
    (position : Option Position) : (script input).kind = .docComment ↔
      (Comment.mk (Utf8.decode (input.take (script input).length)) position).isDoc = true := by
  rcases comment_of_isTrivia isTrivia with line | block
  · have noStars : ¬ (bytesOf "/**").isPrefixOf input = true := by
      intro stars
      obtain ⟨rest, rfl⟩ := List.isPrefixOf_iff_prefix.mp stars
      cases line
    rw [lineComment?_kind line, Comment.isDoc_decode]
    refine iff_of_false (by decide) fun begins => noStars ?_
    exact isPrefixOf_of_front begins.1 (List.take_prefix _ _)
  · exact docComment_iff_of_block block isTrivia position

end Scan

namespace Lexer.IsScanned

variable {source : List UInt8} {token : Token} (scanned : IsScanned source token)
include scanned

theorem line {opener : List UInt8} (isOpener : opener ∈ [bytesOf "#", bytesOf "//"])
    (opens : opener.isPrefixOf (source.drop token.start) = true) :
    token.kind = .comment ∧
      IsFirst (fun offset => EndsLine (source.drop offset) ∨ offset = source.length)
        (token.start + opener.length) token.stop := by
  have script := Scan.script_of_lineComment isOpener opens
  have inside : token.start + opener.length ≤ source.length := by
    have fits := Scan.length_le_of_isPrefixOf opens
    have := scanned.start_le
    rw [List.length_drop] at fits
    omega
  rw [List.drop_drop] at script
  refine ⟨by rw [scanned.kind, script], ?_⟩
  rw [scanned.stop, script]
  exact Scan.isFirst_lineCommentEnd token.start opener.length inside

theorem stop_of_whole {kind : TokenKind}
    (whole : Scan.script (source.drop token.start) = ⟨kind, (source.drop token.start).length⟩) :
    token.stop = source.length := by
  rw [scanned.stop, whole]
  show token.start + (source.drop token.start).length = source.length
  rw [List.length_drop, Nat.add_sub_cancel' scanned.start_le]

theorem block (opens : (bytesOf "/*").isPrefixOf (source.drop token.start) = true) :
    ClosedBy (fun offset => ClosesBlock (source.drop offset)) (token.start + 2) 2 source token := by
  have found := Scan.script_of_blockComment opens
  rw [Scan.blockComment?_eq, if_pos opens, List.drop_drop] at found
  apply (Scan.ends_blockCommentEnd? token.start 2).closedBy
  · intro stop closed
    obtain ⟨length, searched, rfl⟩ := Option.mem_map.mp closed
    rw [Option.mem_def.mp searched] at found
    rw [scanned.kind, scanned.stop, ← Option.some.inj found]
    refine ⟨?_, rfl⟩
    dsimp only
    split <;> decide
  · intro unclosed
    rw [Option.map_eq_none_iff.mp unclosed] at found
    have whole := (Option.some.inj found).symm
    exact ⟨by rw [scanned.kind, whole], scanned.stop_of_whole whole⟩

theorem quoted {quote : UInt8} (isQuote : Byte.isQuote quote = true)
    (opens : source[token.start]? = some quote) :
    ClosedBy (ClosesQuote source token.start quote) (token.start + 1) 1 source token := by
  obtain ⟨rest, here⟩ : ∃ rest, source.drop token.start = quote :: rest := by
    rw [← List.head?_drop] at opens
    exact List.head?_eq_some_iff.mp opens
  have noBackslash : ¬ (quote == byteOf '\\') = true := by
    intro same
    rw [beq_iff_eq.mp same] at isQuote
    exact absurd isQuote (by decide)
  have even : Even (backslashesBefore source token.start (token.start + 1)) := by
    rw [backslashesBefore_succ here (Nat.le_refl _), if_neg noBackslash]
    exact Even.zero
  have found := Scan.script_of_quote isQuote rest
  have behind := (drop_eq_cons here).2
  rw [Scan.quoted?, if_pos isQuote, ← here, ← behind] at found
  apply (Scan.ends_quotedEnd? token.start 1 even).closedBy
  · intro stop closed
    obtain ⟨length, searched, rfl⟩ := Option.mem_map.mp closed
    rw [Option.mem_def.mp searched] at found
    rw [scanned.kind, scanned.stop, ← Option.some.inj found]
    exact ⟨by simp, rfl⟩
  · intro unclosed
    rw [Option.map_eq_none_iff.mp unclosed] at found
    have length : rest.length + 1 = (source.drop token.start).length := by rw [here]; rfl
    have whole := (Option.some.inj found).symm
    rw [behind, length] at whole
    exact ⟨by rw [scanned.kind, whole], scanned.stop_of_whole whole⟩

theorem doc (isTrivia : token.kind.isTrivia = true) (position : Option Position) :
    token.kind = .docComment ↔ (Comment.mk token.text position).isDoc = true := by
  rw [Token.text, scanned.bytes, scanned.kind]
  rw [scanned.kind] at isTrivia
  exact Scan.docComment_iff isTrivia position

end Lexer.IsScanned

open Lexer in
/-- Every token that is read in script ends where its delimiters say, whatever the source. -/
theorem delimited_tokens (shortTags : Bool) (source : List UInt8) (index : Nat)
    (inScript : ((ofSource shortTags source).after index).mode = .script) :
    Delimited source ((ofSource shortTags source).token index) := by
  have inside := (ofSource_inside shortTags source).after index
  have scanned : IsScanned source ((ofSource shortTags source).token index) :=
    next_isScanned inside inScript
  exact ⟨fun _ => scanned.line, scanned.block, fun _ => scanned.quoted, scanned.doc⟩

open Lexer in
/-- Two backslashes hide each other, and the quote behind them closes. -/
theorem delimited_tokens_backslashes :
    ((ofSource false (bytesOf "<?php '\\\\'b'")).after 1).mode = .script ∧
      Delimited (bytesOf "<?php '\\\\'b'") ⟨.string, 6, bytesOf "'\\\\'"⟩ := by
  have inScript : ((ofSource false (bytesOf "<?php '\\\\'b'")).after 1).mode = .script := by
    decide +kernel
  have token : (ofSource false (bytesOf "<?php '\\\\'b'")).token 1 =
      ⟨.string, 6, bytesOf "'\\\\'"⟩ := by
    decide +kernel
  have delimited := delimited_tokens false (bytesOf "<?php '\\\\'b'") 1 inScript
  rw [token] at delimited
  exact ⟨inScript, delimited⟩

end PhpTree
