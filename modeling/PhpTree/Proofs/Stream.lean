import PhpTree.Parse.Program
import PhpTree.Proofs.Searches

/-! # Token streams

Whatever the bytes, the lexer answers with tokens in source order: none begins before
the one in front of it ends, all but the end of file cover a byte, and the end of
file comes last and only there.  Leaving comments out keeps this. -/
set_option autoImplicit false
namespace PhpTree

/-- Tokens in source order that begin at `offset` or later and end with the end of file. -/
inductive Stream : Nat → List Token → Prop where
  | last {offset : Nat} {token : Token} (after : offset ≤ token.start)
      (ends : token.kind = .eof) : Stream offset [token]
  | cons {offset : Nat} {token : Token} {rest : List Token} (after : offset ≤ token.start)
      (goesOn : token.kind ≠ .eof) (covers : token.start < token.stop)
      (tail : Stream token.stop rest) : Stream offset (token :: rest)

namespace Stream

theorem weaken {offset earlier : Nat} {tokens : List Token} (stream : Stream offset tokens)
    (le : earlier ≤ offset) : Stream earlier tokens := by
  cases stream with
  | last after ends => exact .last (Nat.le_trans le after) ends
  | cons after goesOn covers tail => exact .cons (Nat.le_trans le after) goesOn covers tail

theorem from_head {offset : Nat} {token : Token} {rest : List Token}
    (stream : Stream offset (token :: rest)) : Stream token.start (token :: rest) := by
  cases stream with
  | last after ends => exact .last (Nat.le_refl _) ends
  | cons after goesOn covers tail => exact .cons (Nat.le_refl _) goesOn covers tail

theorem ne_nil {offset : Nat} {tokens : List Token} (stream : Stream offset tokens) :
    tokens ≠ [] := by
  cases stream <;> simp

theorem filter {offset : Nat} {tokens : List Token} (stream : Stream offset tokens)
    (keeps : Token → Bool) (keepsEnd : ∀ token, token.kind = .eof → keeps token = true) :
    Stream offset (tokens.filter keeps) := by
  induction stream with
  | last after ends =>
      rw [List.filter_cons_of_pos (keepsEnd _ ends)]
      exact .last after ends
  | @cons offset token rest after goesOn covers tail inductionHypothesis =>
      by_cases kept : keeps token = true
      · rw [List.filter_cons_of_pos kept]
        exact .cons after goesOn covers inductionHypothesis
      · rw [List.filter_cons_of_neg kept]
        exact inductionHypothesis.weaken (Nat.le_trans after (Nat.le_of_lt covers))

theorem after_offset {offset : Nat} {tokens : List Token} (stream : Stream offset tokens) :
    ∀ token ∈ tokens, offset ≤ token.start := by
  induction stream with
  | last after ends => simpa using after
  | @cons offset head rest after goesOn covers tail inductionHypothesis =>
      intro token member
      rcases List.mem_cons.mp member with rfl | member
      · exact after
      · have := inductionHypothesis token member
        omega

theorem ordered {offset : Nat} {tokens : List Token} (stream : Stream offset tokens) :
    tokens.Pairwise fun first second => first.stop ≤ second.start := by
  induction stream with
  | last after ends => simp
  | cons after goesOn covers tail inductionHypothesis =>
      exact List.pairwise_cons.mpr ⟨tail.after_offset, inductionHypothesis⟩

theorem starts {offset : Nat} {tokens : List Token} (stream : Stream offset tokens) :
    (tokens.map Token.start).Pairwise (· < ·) := by
  induction stream with
  | last after ends => simp
  | cons after goesOn covers tail inductionHypothesis =>
      refine List.pairwise_cons.mpr ⟨?_, inductionHypothesis⟩
      intro start member
      obtain ⟨token, found, rfl⟩ := List.mem_map.mp member
      exact Nat.lt_of_lt_of_le covers (tail.after_offset token found)

theorem covers {offset : Nat} {tokens : List Token} (stream : Stream offset tokens) :
    ∀ token ∈ tokens, token.kind ≠ .eof → token.start < token.stop := by
  induction stream with
  | last after ends =>
      intro token member goesOn
      rw [List.mem_singleton] at member
      exact absurd (member ▸ ends) goesOn
  | @cons offset head rest after goesOn covers tail inductionHypothesis =>
      intro token member tokenGoesOn
      rcases List.mem_cons.mp member with rfl | member
      · exact covers
      · exact inductionHypothesis token member tokenGoesOn

theorem goesOn_of_mem {offset : Nat} {tokens : List Token} {last : Token}
    (stream : Stream offset (tokens ++ [last])) : ∀ token ∈ tokens, token.kind ≠ .eof := by
  induction tokens generalizing offset with
  | nil => simp
  | cons head rest inductionHypothesis =>
      rw [List.cons_append] at stream
      generalize remaining : rest ++ [last] = tail at stream
      cases stream with
      | last after ends => simp at remaining
      | cons after goesOn covers tail =>
          intro token member
          rcases List.mem_cons.mp member with rfl | member
          · exact goesOn
          · subst remaining
            exact inductionHypothesis tail token member

end Stream

/-! ## What the scanners answer -/

/-- Tokens that leave the lexer in script and are no comments. -/
def TokenKind.isPlain : TokenKind → Bool
  | .comment | .docComment | .inlineHtml | .openTag | .openTagEcho | .closeTag | .eof | .error =>
    false
  | _ => true

namespace Scan

theorem symbolTable_plain : ∀ entry ∈ symbolTable, entry.2.isPlain = true := by
  decide

theorem quoted?_kind {input : List UInt8} {lexeme : Lexeme}
    (found : quoted? input = some lexeme) : lexeme.kind = .string ∨ lexeme.kind = .error := by
  cases input with
  | nil => cases found
  | cons quote rest =>
      simp only [quoted?] at found
      split at found
      · split at found <;> cases found
        · exact .inl rfl
        · exact .inr rfl
      · cases found

theorem lineComment?_kind {input : List UInt8} {lexeme : Lexeme}
    (found : lineComment? input = some lexeme) : lexeme.kind = .comment := by
  unfold lineComment? at found
  repeat' split at found
  all_goals cases found
  all_goals rfl

theorem blockComment?_kind {input : List UInt8} {lexeme : Lexeme}
    (found : blockComment? input = some lexeme) :
    lexeme.kind.isTrivia = true ∨ lexeme.kind = .error := by
  rw [blockComment?_eq] at found
  split at found
  · split at found <;> cases found
    · exact .inl (by dsimp only; split <;> rfl)
    · exact .inr rfl
  · cases found

theorem closeTag?_kind {input : List UInt8} {lexeme : Lexeme}
    (found : closeTag? input = some lexeme) : lexeme.kind = .closeTag := by
  unfold closeTag? at found
  split at found <;> cases found
  rfl

theorem scanner_cases {scanner : List UInt8 → Option Lexeme} (member : scanner ∈ scanners)
    {input : List UInt8} {lexeme : Lexeme} (found : scanner input = some lexeme) :
    lexeme.kind.isPlain = true ∨ quoted? input = some lexeme ∨ lineComment? input = some lexeme ∨
      blockComment? input = some lexeme ∨ closeTag? input = some lexeme := by
  simp only [scanners, List.mem_cons, List.not_mem_nil, or_false] at member
  rcases member with rfl | rfl | rfl | rfl | rfl | rfl | rfl | rfl
  · left
    cases input with
    | nil => cases found
    | cons first rest =>
        simp only [word?] at found
        split at found
        · split at found <;> cases found <;> rfl
        · cases found
  · left
    unfold variableName? at found
    repeat' split at found
    all_goals cases found
    rfl
  · left
    unfold number? at found
    repeat' split at found
    all_goals cases found
    all_goals rfl
  · exact .inr (.inl found)
  · exact .inr (.inr (.inl found))
  · exact .inr (.inr (.inr (.inl found)))
  · exact .inr (.inr (.inr (.inr found)))
  · obtain ⟨entry, entryFound, rfl⟩ := Option.map_eq_some_iff.mp found
    exact .inl (symbolTable_plain entry (List.mem_of_find?_eq_some entryFound))

theorem script_cases {input : List UInt8} (left : input ≠ []) :
    script input = ⟨.error, 1⟩ ∨ (script input).kind.isPlain = true ∨
      quoted? input = some (script input) ∨ lineComment? input = some (script input) ∨
      blockComment? input = some (script input) ∨ closeTag? input = some (script input) := by
  unfold script
  rw [if_neg (by simpa using left)]
  cases found : scanners.findSome? fun scanner => scanner input with
  | none => exact .inl rfl
  | some lexeme =>
      obtain ⟨scanner, member, found⟩ := List.exists_of_findSome?_eq_some found
      exact .inr (scanner_cases member found)

end Scan

/-! ## Every scanner takes at least one byte -/

namespace Scan

/-- A lexeme that covers something and is not the end of file. -/
def TakesByte (lexeme : Lexeme) : Prop := 0 < lexeme.length ∧ lexeme.kind ≠ .eof

theorem quotedEnd?_gt (quote : UInt8) (taken : Nat) (input : List UInt8) (length : Nat)
    (found : quotedEnd? quote taken input = some length) : taken < length := by
  fun_induction quotedEnd? quote taken input with
  | case1 => simp at found
  | case2 taken byte rest closes =>
      simp only [Option.some.injEq] at found
      omega
  | case3 => simp at found
  | case4 taken byte notClosed escape hidden rest inductionHypothesis =>
      have := inductionHypothesis found
      omega
  | case5 taken byte rest notClosed notEscape inductionHypothesis =>
      have := inductionHypothesis found
      omega

theorem le_lineCommentEnd (taken : Nat) (input : List UInt8) :
    taken ≤ lineCommentEnd taken input := by
  fun_induction lineCommentEnd taken input with
  | case1 => exact Nat.le_refl _
  | case2 => exact Nat.le_refl _
  | case3 taken byte rest goesOn inductionHypothesis => omega

theorem blockCommentEnd?_gt (taken : Nat) (input : List UInt8) (length : Nat)
    (found : blockCommentEnd? taken input = some length) : taken < length := by
  fun_induction blockCommentEnd? taken input with
  | case1 => simp at found
  | case2 taken byte rest closes =>
      simp only [Option.some.injEq] at found
      omega
  | case3 taken byte rest goesOn inductionHypothesis =>
      have := inductionHypothesis found
      omega

theorem le_decimalEnd (fractional : Bool) (taken : Nat) (input : List UInt8) :
    taken ≤ (decimalEnd fractional taken input).2 := by
  fun_induction decimalEnd fractional taken input with
  | case1 => exact Nat.le_refl _
  | case2 fractional taken byte rest digit inductionHypothesis => omega
  | case3 fractional taken byte rest notDigit point inductionHypothesis => omega
  | case4 => exact Nat.le_refl _
  | case5 fractional taken byte notDigit notPoint mark next afterSign sign inductionHypothesis =>
      omega
  | case6 fractional taken byte notDigit notPoint mark next afterSign notSign digit
      inductionHypothesis => omega
  | case7 => exact Nat.le_refl _
  | case8 => exact Nat.le_refl _

theorem decimalEnd_pos (input : List UInt8) (starts : startsNumber input = true) :
    0 < (decimalEnd false 0 input).2 := by
  cases input with
  | nil => simp [startsNumber] at starts
  | cons byte rest =>
      have first : Byte.isDigit byte = true ∨ byte == byteOf '.' := by
        cases rest with
        | nil => exact Or.inl (by simpa [startsNumber] using starts)
        | cons next tail =>
            simp only [startsNumber, Bool.or_eq_true, Bool.and_eq_true] at starts
            exact starts.imp_right And.left
      rw [decimalEnd.eq_def]
      dsimp only
      split
      · exact le_decimalEnd _ 1 rest
      · rename_i notDigit
        have point : byte == byteOf '.' := by
          rcases first with digit | point
          · simp [digit] at notDigit
          · exact point
        rw [if_pos (by simp [point])]
        exact le_decimalEnd _ 1 rest

theorem symbolTable_takes :
    ∀ entry ∈ symbolTable, 0 < entry.1.length ∧ entry.2 ≠ .eof := by
  decide +kernel

theorem word?_takes (input : List UInt8) (lexeme : Lexeme) (found : word? input = some lexeme) :
    TakesByte lexeme := by
  cases input with
  | nil => simp [word?] at found
  | cons first rest =>
      simp only [word?] at found
      split at found
      · split at found <;> cases found <;> exact ⟨Nat.succ_pos _, by simp⟩
      · simp at found

theorem variableName?_takes (input : List UInt8) (lexeme : Lexeme)
    (found : variableName? input = some lexeme) : TakesByte lexeme := by
  unfold variableName? at found
  split at found
  · split at found
    · cases found
      exact ⟨by dsimp only; omega, by simp⟩
    · simp at found
  · simp at found

theorem number?_takes (input : List UInt8) (lexeme : Lexeme)
    (found : number? input = some lexeme) : TakesByte lexeme := by
  unfold number? at found
  split at found
  · rename_i starts
    split at found
    · cases found
      exact ⟨by dsimp only; omega, by simp⟩
    · cases found
      exact ⟨decimalEnd_pos input starts, by dsimp only; split <;> simp⟩
  · simp at found

theorem quoted?_takes (input : List UInt8) (lexeme : Lexeme)
    (found : quoted? input = some lexeme) : TakesByte lexeme := by
  cases input with
  | nil => simp [quoted?] at found
  | cons quote rest =>
      simp only [quoted?] at found
      split at found
      · split at found
        · rename_i length closed
          cases found
          have := quotedEnd?_gt quote 1 rest length closed
          exact ⟨by dsimp only; omega, by simp⟩
        · cases found
          exact ⟨Nat.succ_pos _, by simp⟩
      · simp at found

theorem lineComment?_takes (input : List UInt8) (lexeme : Lexeme)
    (found : lineComment? input = some lexeme) : TakesByte lexeme := by
  unfold lineComment? at found
  split at found
  · cases found
    exact ⟨le_lineCommentEnd 1 _, by simp⟩
  · split at found
    · cases found
      exact ⟨Nat.lt_of_lt_of_le Nat.zero_lt_two (le_lineCommentEnd 2 _), by simp⟩
    · simp at found

theorem blockComment?_takes (input : List UInt8) (lexeme : Lexeme)
    (found : blockComment? input = some lexeme) : TakesByte lexeme := by
  rw [blockComment?_eq] at found
  split at found
  · rename_i opens
    split at found
    · rename_i length closed
      cases found
      have := blockCommentEnd?_gt 2 _ length closed
      exact ⟨by dsimp only; omega, by dsimp only; split <;> simp⟩
    · cases found
      cases input with
      | nil => simp [bytesOf] at opens
      | cons byte rest => exact ⟨Nat.succ_pos _, by simp⟩
  · simp at found

theorem closeTag?_takes (input : List UInt8) (lexeme : Lexeme)
    (found : closeTag? input = some lexeme) : TakesByte lexeme := by
  unfold closeTag? at found
  split at found
  · cases found
    exact ⟨by dsimp only; split <;> omega, by simp⟩
  · simp at found

theorem symbol?_takes (input : List UInt8) (lexeme : Lexeme)
    (found : symbol? input = some lexeme) : TakesByte lexeme := by
  unfold symbol? at found
  obtain ⟨entry, entryFound, rfl⟩ := Option.map_eq_some_iff.mp found
  exact symbolTable_takes entry (List.mem_of_find?_eq_some entryFound)

theorem scanner_takes (scanner : List UInt8 → Option Lexeme) (member : scanner ∈ scanners)
    (input : List UInt8) (lexeme : Lexeme) (found : scanner input = some lexeme) :
    TakesByte lexeme := by
  simp only [scanners, List.mem_cons, List.not_mem_nil, or_false] at member
  rcases member with rfl | rfl | rfl | rfl | rfl | rfl | rfl | rfl
  · exact word?_takes input lexeme found
  · exact variableName?_takes input lexeme found
  · exact number?_takes input lexeme found
  · exact quoted?_takes input lexeme found
  · exact lineComment?_takes input lexeme found
  · exact blockComment?_takes input lexeme found
  · exact closeTag?_takes input lexeme found
  · exact symbol?_takes input lexeme found

theorem script_takes (input : List UInt8) (left : input ≠ []) : TakesByte (script input) := by
  unfold script
  rw [if_neg (by simpa using left)]
  cases found : scanners.findSome? fun scanner => scanner input with
  | none => exact ⟨Nat.one_pos, by simp⟩
  | some lexeme =>
      obtain ⟨scanner, member, found⟩ := List.exists_of_findSome?_eq_some found
      exact scanner_takes scanner member input lexeme found

theorem openTag?_takes (shortTags : Bool) (input : List UInt8) (lexeme : Lexeme)
    (found : openTag? shortTags input = some lexeme) : TakesByte lexeme := by
  unfold openTag? at found
  split at found
  · cases found
    exact ⟨by dsimp only; omega, by simp⟩
  · split at found
    · cases found
      exact ⟨by dsimp only; omega, by simp⟩
    · split at found
      · cases found
        exact ⟨by dsimp only; omega, by simp⟩
      · simp at found

theorem le_pageTextEnd (shortTags : Bool) (taken : Nat) (input : List UInt8) :
    taken ≤ pageTextEnd shortTags taken input := by
  fun_induction pageTextEnd shortTags taken input with
  | case1 => exact Nat.le_refl _
  | case2 => exact Nat.le_refl _
  | case3 taken byte rest noTag inductionHypothesis => omega

theorem page_takes (shortTags : Bool) (input : List UInt8) (left : input ≠ []) :
    TakesByte (page shortTags input) := by
  rw [page_eq, if_neg (by simpa using left)]
  cases found : openTag? shortTags input with
  | some lexeme => exact openTag?_takes shortTags input lexeme found
  | none =>
      cases input with
      | nil => exact absurd rfl left
      | cons byte rest =>
          refine ⟨?_, by simp⟩
          show 0 < pageTextEnd shortTags 0 (byte :: rest)
          rw [pageTextEnd, if_neg (by simp [found])]
          exact le_pageTextEnd shortTags 1 rest

end Scan

/-! ## The lexer -/

namespace Lexer

theorem lexeme_takes (lexer : Lexer) (left : lexer.rest ≠ []) : Scan.TakesByte lexer.lexeme := by
  unfold lexeme
  split
  · exact Scan.page_takes lexer.shortTags lexer.rest left
  · exact Scan.script_takes lexer.rest left

theorem lexeme_at_end (lexer : Lexer) (used : lexer.rest = []) : lexer.lexeme = ⟨.eof, 0⟩ := by
  unfold lexeme
  split <;> simp [Scan.page, Scan.script, used]

theorem offset_le_skipBlanks (lexer : Lexer) : lexer.offset ≤ lexer.skipBlanks.offset := by
  unfold skipBlanks
  split
  · exact Nat.le_refl _
  · exact Nat.le_add_right _ _

theorem length_skipBlanks_le (lexer : Lexer) :
    lexer.skipBlanks.rest.length ≤ lexer.rest.length := by
  unfold skipBlanks
  split
  · exact Nat.le_refl _
  · simp [skip]

/-- Either the source is used up and the token is the end of file, or the token covers the next
bytes and the lexer moves past them. -/
theorem next_cases (lexer : Lexer) :
    (lexer.next.1.kind = .eof ∧ lexer.offset ≤ lexer.next.1.start) ∨
      (lexer.next.1.kind ≠ .eof ∧ lexer.offset ≤ lexer.next.1.start ∧
        lexer.next.1.start < lexer.next.1.stop ∧ lexer.next.1.stop ≤ lexer.next.2.offset ∧
        lexer.next.2.rest.length < lexer.rest.length) := by
  have later := lexer.offset_le_skipBlanks
  have shorter := lexer.length_skipBlanks_le
  unfold next
  generalize lexer.skipBlanks = stripped at later shorter
  by_cases used : stripped.rest = []
  · left
    simp only [take, lexeme_at_end stripped used]
    exact ⟨trivial, later⟩
  · right
    obtain ⟨longer, goesOn⟩ := lexeme_takes stripped used
    have some : 0 < stripped.rest.length := List.length_pos_iff.mpr used
    simp only [take, skip, Token.stop, List.length_take, List.length_drop]
    refine ⟨goesOn, later, ?_, ?_, ?_⟩ <;> omega

theorem collect_eq (fuel : Nat) :
    ∀ (lexer : Lexer) (done : List Token),
      lexer.collect fuel done = done.reverse ++ lexer.collect fuel [] := by
  induction fuel with
  | zero => intro lexer done; simp [collect]
  | succ fuel inductionHypothesis =>
      intro lexer done
      simp only [collect]
      split
      · simp
      · rw [inductionHypothesis lexer.next.2 (lexer.next.1 :: done),
          inductionHypothesis lexer.next.2 [lexer.next.1]]
        simp

theorem collect_stream (fuel : Nat) :
    ∀ lexer : Lexer, lexer.rest.length < fuel →
      Stream lexer.offset (lexer.collect fuel []) := by
  induction fuel with
  | zero => intro lexer enough; omega
  | succ fuel inductionHypothesis =>
      intro lexer enough
      simp only [collect]
      rcases lexer.next_cases with ⟨ends, after⟩ | ⟨goesOn, after, covers, later, shorter⟩
      · rw [if_pos ends]
        exact .last after ends
      · rw [if_neg goesOn, collect_eq]
        have tail := inductionHypothesis lexer.next.2 (by omega)
        exact .cons after goesOn covers (tail.weaken later)

theorem tokens_stream (lexer : Lexer) : Stream lexer.offset lexer.tokens :=
  collect_stream _ lexer (Nat.lt_succ_self _)

end Lexer

/-! ## Items -/

namespace Token

def isSignificant (token : Token) : Bool := !(token.kind.isTrivia || token.isUnterminatedComment)

theorem isSignificant_of_eof (token : Token) (ends : token.kind = .eof) :
    token.isSignificant = true := by
  simp [isSignificant, isUnterminatedComment, ends, TokenKind.isTrivia]

end Token

namespace Item

theorem gather_cons (token : Token) (tokens : List Token) :
    gather (token :: tokens) = place token (gather tokens) := rfl

/-- The tokens of the items are those that the grammar reads. -/
theorem gather_tokens (tokens : List Token) :
    (gather tokens).map Item.token = tokens.filter Token.isSignificant := by
  induction tokens with
  | nil => rfl
  | cons token rest inductionHypothesis =>
      rw [gather_cons]
      by_cases significant : token.isSignificant = true
      · rw [List.filter_cons_of_pos significant, ← inductionHypothesis]
        have plain : token.kind.isTrivia = false ∧ token.isUnterminatedComment = false := by
          simpa [Token.isSignificant] using significant
        cases gather rest <;> simp [place, plain]
      · rw [List.filter_cons_of_neg significant, ← inductionHypothesis]
        have passed : token.kind.isTrivia = true ∨ token.isUnterminatedComment = true := by
          simpa [Token.isSignificant, Classical.or_iff_not_imp_left] using significant
        cases gather rest with
        | nil => simp [place, passed]
        | cons item items =>
            simp only [place]
            split
            · rfl
            · split
              · rfl
              · rename_i noTrivia noComment
                exact absurd passed (by simp [noTrivia, noComment])

theorem gather_ne_nil {offset : Nat} {tokens : List Token} (stream : Stream offset tokens) :
    gather tokens ≠ [] := by
  intro empty
  have kept := (stream.filter Token.isSignificant Token.isSignificant_of_eof).ne_nil
  rw [← gather_tokens, empty] at kept
  exact kept rfl

/-- A comment that was never closed travels with the item after it. -/
theorem unterminated_of_mem {offset : Nat} {tokens : List Token} (stream : Stream offset tokens)
    (token : Token) (member : token ∈ tokens) (opened : token.isUnterminatedComment = true) :
    ∃ item ∈ gather tokens, token ∈ item.unterminated := by
  have noTrivia : ∀ token : Token, token.isUnterminatedComment = true →
      token.kind.isTrivia = false := by
    intro token unterminated
    have isError : token.kind = .error := by
      simp only [Token.isUnterminatedComment, Bool.and_eq_true, beq_iff_eq] at unterminated
      exact unterminated.1
    simp [isError, TokenKind.isTrivia]
  induction stream with
  | last after ends =>
      rw [List.mem_singleton] at member
      subst member
      simp [Token.isUnterminatedComment, ends] at opened
  | @cons offset head rest after goesOn covers tail inductionHypothesis =>
      rw [gather_cons]
      cases gathered : gather rest with
      | nil => exact absurd gathered (gather_ne_nil tail)
      | cons item items =>
          rcases List.mem_cons.mp member with rfl | member
          · refine ⟨{ item with unterminated := token :: item.unterminated }, ?_, by simp⟩
            simp [place, noTrivia token opened, opened]
          · obtain ⟨holder, holds, inside⟩ := inductionHypothesis member
            rw [gathered] at holds
            simp only [place]
            rcases List.mem_cons.mp holds with rfl | holds
            · split
              · exact ⟨_, List.mem_cons_self .., inside⟩
              · split
                · exact ⟨_, List.mem_cons_self .., List.mem_cons_of_mem _ inside⟩
                · exact ⟨holder, by simp, inside⟩
            · refine ⟨holder, ?_, inside⟩
              split
              · exact List.mem_cons_of_mem _ holds
              · split
                · exact List.mem_cons_of_mem _ holds
                · exact List.mem_cons_of_mem _ (List.mem_cons_of_mem _ holds)

end Item
end PhpTree
