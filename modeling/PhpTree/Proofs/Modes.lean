import Mathlib.Computability.Language
import Mathlib.Order.CompletePartialOrder
import PhpTree.Proofs.BlankTails

/-! # Page text and script by turns

The kinds of the tokens are words over an alphabet, and the turns that page text and
script take are a regular language of such words.  Whether the lexer is in script, in
front of a tag or in front of page text says which words can still come.  Every token
takes one letter off them.

Page text is cut where a search of every offset would cut it. -/
set_option autoImplicit false
namespace PhpTree

open scoped Computability

/-! ## The turns -/

namespace TokenKind

def pageText : Language TokenKind := 1 + {[.inlineHtml]}

def openTags : Language TokenKind := {[.openTag]} + {[.openTagEcho]}

/-- Neither page text nor a tag nor the end of file. -/
def IsScripted (kind : TokenKind) : Prop :=
  kind ∉ [.inlineHtml, .openTag, .openTagEcho, .closeTag, .eof]

def scripted : Language TokenKind := {kinds | ∃ kind, IsScripted kind ∧ kinds = [kind]}

/-- Page text if there is any, an open tag and script. -/
def opened : Language TokenKind := pageText * openTags * scripted∗

/-- Close tags come behind script only, and the end of file comes behind either. -/
def turns : Language TokenKind :=
  (opened * {[.closeTag]})∗ * (pageText + opened) * {[.eof]}

def inScript : Language TokenKind := scripted∗ * ({[.closeTag]} * turns + {[.eof]})

/-- What may come in front of an open tag, or where nothing is left. -/
def atTag : Language TokenKind := {[.eof]} + openTags * inScript

theorem IsScripted.after {kind : TokenKind} (scripted : kind.IsScripted) (mode : Mode) :
    mode.after kind = mode := by
  revert scripted
  cases kind <;> simp [IsScripted, Mode.after]

theorem after_of_openTags {kind : TokenKind} (opens : [kind] ∈ openTags) (mode : Mode) :
    mode.after kind = .script := by
  rcases opens with opens | opens <;> cases opens <;> rfl

theorem inlineHtml_notMem_openTags : [.inlineHtml] ∉ openTags := by
  rintro (opens | opens) <;> cases opens

theorem scripted_mul_inScript : scripted * inScript ≤ inScript := by
  rw [inScript, ← mul_assoc]
  exact mul_le_mul_left mul_kstar_le_kstar _

theorem closeTag_mul_turns : {[.closeTag]} * turns ≤ inScript :=
  le_trans le_sup_left (le_mul_of_one_le_left' one_le_kstar)

theorem eof_le_inScript : {[.eof]} ≤ inScript :=
  le_trans le_sup_right (le_mul_of_one_le_left' one_le_kstar)

theorem opened_mul_turns : opened * ({[.closeTag]} * turns) ≤ turns := by
  rw [turns, ← mul_assoc, ← mul_assoc, ← mul_assoc]
  exact mul_le_mul_left (mul_le_mul_left mul_kstar_le_kstar _) _

theorem last_le_turns : (pageText + opened) * {[.eof]} ≤ turns :=
  mul_le_mul_left (le_mul_of_one_le_left' one_le_kstar) _

theorem pageText_mul_atTag : pageText * atTag ≤ turns := by
  have last := last_le_turns
  rw [add_mul] at last
  calc pageText * atTag
      = pageText * {[.eof]} + (opened * ({[.closeTag]} * turns) + opened * {[.eof]}) := by
        simp only [atTag, inScript, opened, mul_add, mul_assoc]
    _ ≤ turns :=
        sup_le (le_trans le_sup_left last)
          (sup_le opened_mul_turns (le_trans le_sup_right last))

end TokenKind

/-! ## Letters -/

namespace Scan

theorem script_kind (input : List UInt8) :
    (script input).kind = .eof ∨ (script input).kind = .closeTag ∨
      (script input).kind.IsScripted := by
  by_cases left : input = []
  · exact .inl (by rw [left]; rfl)
  right
  have scripted : ∀ {kind : TokenKind},
      kind.isPlain = true ∨ kind.isTrivia = true ∨ kind = .string ∨ kind = .error →
        kind.IsScripted := by
    intro kind
    cases kind <;> simp [TokenKind.isPlain, TokenKind.isTrivia, TokenKind.IsScripted]
  rcases script_cases left with only | plain | quoted | line | block | close
  · exact .inr (scripted (.inr (.inr (.inr (congrArg Lexeme.kind only)))))
  · exact .inr (scripted (.inl plain))
  · exact .inr (scripted (.inr (.inr (quoted?_kind quoted))))
  · exact .inr (scripted (.inr (.inl (congrArg TokenKind.isTrivia (lineComment?_kind line)))))
  · exact .inr (scripted (.inr ((blockComment?_kind block).imp_right .inr)))
  · exact .inl (closeTag?_kind close)

theorem page_of_openTag? {shortTags : Bool} {input : List UInt8} {tag : Lexeme}
    (found : openTag? shortTags input = some tag) : page shortTags input = tag := by
  cases input with
  | nil => cases shortTags <;> cases found
  | cons byte rest =>
      rw [page, found]
      rfl

theorem page_of_no_tag {shortTags : Bool} {input : List UInt8} (left : input ≠ [])
    (noTag : opensTag shortTags input = false) :
    page shortTags input = ⟨.inlineHtml, pageTextEnd shortTags 0 input⟩ := by
  have missed : openTag? shortTags input = none := by
    rw [← Option.not_isSome_iff_eq_none, openTag?_isSome, noTag]
    decide
  rw [page_eq, if_neg (by simpa using left), missed]
  rfl

theorem openTag?_kind {shortTags : Bool} {input : List UInt8} {lexeme : Lexeme}
    (found : openTag? shortTags input = some lexeme) : [lexeme.kind] ∈ TokenKind.openTags := by
  unfold openTag? at found
  repeat' split at found
  · cases found
    exact .inl rfl
  · cases found
    exact .inr rfl
  · cases found
    exact .inl rfl
  · cases found

/-- No tag begins where page text does. -/
theorem no_tag_of_inlineHtml {shortTags : Bool} {input : List UInt8}
    (isText : (page shortTags input).kind = .inlineHtml) :
    input ≠ [] ∧ opensTag shortTags input = false := by
  refine ⟨?_, ?_⟩
  · rintro rfl
    cases isText
  · rw [← openTag?_isSome, Bool.eq_false_iff]
    intro tag
    obtain ⟨lexeme, found⟩ := Option.isSome_iff_exists.mp tag
    have isTag := openTag?_kind found
    rw [← page_of_openTag? found, isText] at isTag
    exact TokenKind.inlineHtml_notMem_openTags isTag

end Scan

/-! ## Every token is a letter of a word that may come -/

namespace Lexer

/-- The words that may come, from how the lexer stands. -/
def expects (lexer : Lexer) : Language TokenKind :=
  match lexer.mode with
  | .script => TokenKind.inScript
  | .page =>
    if lexer.rest.isEmpty || Scan.opensTag lexer.shortTags lexer.rest then TokenKind.atTag
    else {[.inlineHtml]} * TokenKind.atTag

theorem expects_le_turns {lexer : Lexer} (onPage : lexer.mode = .page) :
    lexer.expects ≤ TokenKind.turns := by
  refine le_trans ?_ TokenKind.pageText_mul_atTag
  rw [expects, onPage, TokenKind.pageText]
  dsimp only
  split
  · exact le_mul_of_one_le_left' le_sup_left
  · exact mul_le_mul_left le_sup_right _

theorem next_kind_of_script {lexer : Lexer} (inScript : lexer.mode = .script) :
    lexer.next.1.kind = .eof ∨ lexer.next.1.kind = .closeTag ∨ lexer.next.1.kind.IsScripted := by
  have kind : lexer.next.1.kind = (Scan.script lexer.skipBlanks.rest).kind := by
    rw [next, take, lexeme, mode_skipBlanks, inScript]
  rw [kind]
  exact Scan.script_kind lexer.skipBlanks.rest

section OnPage
variable {lexer : Lexer} (onPage : lexer.mode = .page) (left : lexer.rest ≠ [])
include onPage

theorem skipBlanks_of_page : lexer.skipBlanks = lexer := by
  rw [skipBlanks, onPage]

theorem lexeme_of_page : lexer.lexeme = Scan.page lexer.shortTags lexer.rest := by
  rw [lexeme, onPage]

theorem next_of_tag (tag : Scan.opensTag lexer.shortTags lexer.rest = true) :
    [lexer.next.1.kind] ∈ TokenKind.openTags := by
  rw [← Scan.openTag?_isSome, Option.isSome_iff_exists] at tag
  obtain ⟨found, tag⟩ := tag
  have lexeme : lexer.lexeme = found := by
    rw [lexeme_of_page onPage, Scan.page_of_openTag? tag]
  rw [next, skipBlanks_of_page onPage, take, lexeme]
  exact Scan.openTag?_kind tag

include left

theorem next_of_no_tag {source : List UInt8} (inside : lexer.LiesInside source)
    (noTag : Scan.opensTag lexer.shortTags lexer.rest = false) :
    lexer.next.1.kind = .inlineHtml ∧
      IsFirst (fun offset => Scan.opensTag lexer.shortTags (source.drop offset) = true ∨
        offset = source.length) lexer.next.1.start lexer.next.1.stop := by
  have lexeme : lexer.lexeme =
      ⟨.inlineHtml, Scan.pageTextEnd lexer.shortTags 0 lexer.rest⟩ := by
    rw [lexeme_of_page onPage, Scan.page_of_no_tag left noTag]
  have fits := lexer.lexeme_length_le
  have searched := @Scan.isFirst_pageTextEnd lexer.shortTags source lexer.offset 0
    inside.offset_le
  rw [Nat.add_zero, ← inside.rest_eq] at searched
  rw [lexeme] at fits
  rw [next, skipBlanks_of_page onPage, take, lexeme]
  refine ⟨rfl, ?_⟩
  rwa [Token.stop, List.length_take, Nat.min_eq_left fits]

end OnPage

/-- A letter, and then a word that may come. -/
theorem next_expects {lexer : Lexer} {source : List UInt8} (inside : lexer.LiesInside source)
    (goesOn : lexer.next.1.kind ≠ .eof) :
    {[lexer.next.1.kind]} * lexer.next.2.expects ≤ lexer.expects := by
  have cuts := lexer.next_cuts
  cases mode : lexer.mode with
  | script =>
      have expected : lexer.expects = TokenKind.inScript := by rw [expects, mode]
      rw [expected]
      rcases next_kind_of_script mode with ends | closes | scripted
      · exact absurd ends goesOn
      · have onPage : lexer.next.2.mode = .page := by rw [cuts.mode, closes]; rfl
        rw [closes]
        exact le_trans (mul_le_mul_right (expects_le_turns onPage) _)
          TokenKind.closeTag_mul_turns
      · have stays : lexer.next.2.mode = .script := by
          rw [cuts.mode, scripted.after, mode]
        have behind : lexer.next.2.expects = TokenKind.inScript := by rw [expects, stays]
        rw [behind]
        refine le_trans (mul_le_mul_left ?_ _) TokenKind.scripted_mul_inScript
        rintro _ rfl
        exact ⟨_, scripted, rfl⟩
  | page =>
      have left : lexer.rest ≠ [] := by
        intro used
        exact goesOn (by rw [next_of_rest_eq_nil used])
      cases tag : Scan.opensTag lexer.shortTags lexer.rest with
      | true =>
          have opens := next_of_tag mode tag
          have behind : lexer.next.2.expects = TokenKind.inScript := by
            rw [expects, cuts.mode, TokenKind.after_of_openTags opens]
          have expected : lexer.expects = TokenKind.atTag := by simp [expects, mode, tag]
          rw [behind, expected]
          refine le_trans (mul_le_mul_left ?_ _) le_sup_right
          rintro _ rfl
          exact opens
      | false =>
          obtain ⟨kind, stops⟩ := next_of_no_tag mode left inside tag
          have onPage : lexer.next.2.mode = .page := by rw [cuts.mode, kind, mode]; rfl
          have further := cuts.inside inside
          have behind : lexer.next.2.expects = TokenKind.atTag := by
            rw [expects, onPage, shortTags_next, further.rest_eq, cuts.offset]
            rcases stops.stops with tag | atEnd
            · simp [tag]
            · simp [atEnd]
          have expected : lexer.expects = {[.inlineHtml]} * TokenKind.atTag := by
            simp [expects, mode, tag, left]
          rw [behind, expected, kind]

theorem eof_le_expects {lexer : Lexer} (ends : lexer.next.1.kind = .eof) :
    {[.eof]} ≤ lexer.expects := by
  cases mode : lexer.mode with
  | script =>
      rw [expects, mode]
      exact TokenKind.eof_le_inScript
  | page =>
      have cuts := lexer.next_cuts
      have used : lexer.rest = [] := by
        rw [cuts.split, (cuts.ends ends).1, (cuts.ends ends).2, gap, mode]
        rfl
      have expected : lexer.expects = TokenKind.atTag := by simp [expects, mode, used]
      rw [expected]
      exact le_sup_left

theorem map_kind_mem_expects {source : List UInt8} (size : Nat) :
    ∀ {lexer : Lexer}, lexer.LiesInside source → lexer.rest.length < size →
      lexer.tokens.map Token.kind ∈ lexer.expects := by
  induction size with
  | zero => exact fun _ few => absurd few (Nat.not_lt_zero _)
  | succ size inductionHypothesis =>
      intro lexer inside few
      rcases lexer.next_cases with ⟨ends, _⟩ | ⟨goesOn, _, _, _, shorter⟩
      · rw [tokens_of_eof ends, List.map_singleton, ends]
        exact eof_le_expects ends rfl
      · have later := inductionHypothesis (lexer.next_cuts.inside inside) (by omega)
        rw [tokens_of_ne_eof goesOn, List.map_cons]
        have letter : [lexer.next.1.kind] ∈ ({[lexer.next.1.kind]} : Language TokenKind) := rfl
        exact next_expects inside goesOn (Language.append_mem_mul letter later)

theorem shortTags_after (lexer : Lexer) (index : Nat) :
    (lexer.after index).shortTags = lexer.shortTags := by
  induction index with
  | zero => rfl
  | succ index inductionHypothesis => rw [after, shortTags_next, inductionHypothesis]

theorem isFirst_of_inlineHtml {lexer : Lexer} {source : List UInt8}
    (inside : lexer.LiesInside source) (isText : lexer.next.1.kind = .inlineHtml) :
    IsFirst (fun offset => Scan.opensTag lexer.shortTags (source.drop offset) = true ∨
      offset = source.length) lexer.next.1.start lexer.next.1.stop := by
  cases mode : lexer.mode with
  | script =>
      have kind := next_kind_of_script mode
      simp [isText, TokenKind.IsScripted] at kind
  | page =>
      have kind : (Scan.page lexer.shortTags lexer.rest).kind = .inlineHtml := by
        rwa [next, skipBlanks_of_page mode, take, lexeme_of_page mode] at isText
      obtain ⟨left, noTag⟩ := Scan.no_tag_of_inlineHtml kind
      exact (next_of_no_tag mode left inside noTag).2

end Lexer

open Lexer in
/-- Page text and script take turns, page text reaches from where it begins to the first offset at
which a tag begins, and the search that jumps from one `<` to the next finds the same end as the one
that looks at every offset. -/
theorem tokens_alternate (shortTags : Bool) (source : List UInt8) :
    (ofSource shortTags source).tokens.map Token.kind ∈ TokenKind.turns ∧
      (∀ token ∈ (ofSource shortTags source).tokens, token.kind = .inlineHtml →
        IsFirst (fun offset => Scan.opensTag shortTags (source.drop offset) = true ∨
          offset = source.length) token.start token.stop) ∧
      ∀ input, Scan.seekOpenTag shortTags 0 0 input = Scan.pageTextEnd shortTags 0 input := by
  have start := ofSource_inside shortTags source
  refine ⟨?_, ?_, fun input => Scan.seekOpenTag_eq_pageTextEnd shortTags input 0 0 (by simp)⟩
  · exact expects_le_turns rfl (map_kind_mem_expects _ start (Nat.lt_succ_self _))
  · intro token member isText
    obtain ⟨index, rfl⟩ := exists_index_of_mem member
    have stops := isFirst_of_inlineHtml (start.after index) isText
    rwa [shortTags_after] at stops

/-- A tag begins in the middle of what could be one: page text stops right in front of it. -/
theorem tokens_alternate_overlapping :
    IsFirst (fun offset => Scan.opensTag false ((bytesOf "a<<?<?=b?>").drop offset) = true ∨
      offset = 10) 0 4 :=
  (tokens_alternate false (bytesOf "a<<?<?=b?>")).2.1 ⟨.inlineHtml, 0, bytesOf "a<<?"⟩
    (by decide +kernel) rfl

end PhpTree
