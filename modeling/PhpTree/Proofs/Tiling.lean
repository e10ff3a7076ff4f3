import PhpTree.Proofs.Stream

/-! # Tokens tile the source

No scanner takes more bytes than there are, so every step of the lexer splits what is
left into blanks, a token and the rest.  Put together, the blanks and the tokens of a
whole run are the source, and the lexer never stands outside of it. -/
set_option autoImplicit false
namespace PhpTree

/-! ## No scanner takes more than there is -/

namespace Scan

theorem length_takeWhile_le (accepts : UInt8 → Bool) (input : List UInt8) :
    (input.takeWhile accepts).length ≤ input.length :=
  (List.takeWhile_prefix accepts).length_le

theorem quotedEnd?_le (quote : UInt8) (taken : Nat) (input : List UInt8) (length : Nat)
    (found : quotedEnd? quote taken input = some length) : length ≤ taken + input.length := by
  fun_induction quotedEnd? quote taken input with
  | case1 => simp at found
  | case2 taken byte rest closes =>
      simp only [Option.some.injEq] at found
      simp only [List.length_cons]
      omega
  | case3 => simp at found
  | case4 taken byte notClosed escape hidden rest inductionHypothesis =>
      have := inductionHypothesis found
      simp only [List.length_cons]
      omega
  | case5 taken byte rest notClosed notEscape inductionHypothesis =>
      have := inductionHypothesis found
      simp only [List.length_cons]
      omega

theorem lineCommentEnd_le (taken : Nat) (input : List UInt8) :
    lineCommentEnd taken input ≤ taken + input.length := by
  fun_induction lineCommentEnd taken input with
  | case1 => exact Nat.le_refl _
  | case2 => exact Nat.le_add_right _ _
  | case3 taken byte rest goesOn inductionHypothesis =>
      simp only [List.length_cons]
      omega

theorem length_le_of_isPrefixOf {symbol input : List UInt8}
    (begins : symbol.isPrefixOf input = true) : symbol.length ≤ input.length :=
  (List.isPrefixOf_iff_prefix.mp begins).length_le

theorem isPrefixOf_of_front {symbol front whole : List UInt8}
    (begins : symbol.isPrefixOf front = true) (within : front <+: whole) :
    symbol.isPrefixOf whole = true := by
  rw [List.isPrefixOf_iff_prefix] at begins ⊢
  exact begins.trans within

theorem blockCommentEnd?_le (taken : Nat) (input : List UInt8) (length : Nat)
    (found : blockCommentEnd? taken input = some length) : length ≤ taken + input.length := by
  fun_induction blockCommentEnd? taken input with
  | case1 => simp at found
  | case2 taken byte rest closes =>
      have long : 2 ≤ (byte :: rest).length := length_le_of_isPrefixOf closes
      simp only [Option.some.injEq] at found
      omega
  | case3 taken byte rest goesOn inductionHypothesis =>
      have := inductionHypothesis found
      simp only [List.length_cons]
      omega

theorem decimalEnd_le (fractional : Bool) (taken : Nat) (input : List UInt8) :
    (decimalEnd fractional taken input).2 ≤ taken + input.length := by
  fun_induction decimalEnd fractional taken input with
  | case1 => exact Nat.le_refl _
  | case2 fractional taken byte rest digit inductionHypothesis =>
      simp only [List.length_cons]
      omega
  | case3 fractional taken byte rest notDigit point inductionHypothesis =>
      simp only [List.length_cons]
      omega
  | case4 => exact Nat.le_add_right _ _
  | case5 fractional taken byte notDigit notPoint mark next afterSign sign inductionHypothesis =>
      simp only [List.length_cons]
      omega
  | case6 fractional taken byte notDigit notPoint mark next afterSign notSign digit
      inductionHypothesis =>
      simp only [List.length_cons] at inductionHypothesis ⊢
      omega
  | case7 => exact Nat.le_add_right _ _
  | case8 => exact Nat.le_add_right _ _

theorem word?_length_le (input : List UInt8) (lexeme : Lexeme)
    (found : word? input = some lexeme) : lexeme.length ≤ input.length := by
  cases input with
  | nil => simp [word?] at found
  | cons first rest =>
      have inside := length_takeWhile_le Byte.isNamePart rest
      simp only [word?] at found
      split at found
      · split at found <;> cases found <;> simpa using inside
      · simp at found

theorem variableName?_length_le (input : List UInt8) (lexeme : Lexeme)
    (found : variableName? input = some lexeme) : lexeme.length ≤ input.length := by
  unfold variableName? at found
  split at found
  · rename_i first second rest
    have inside := length_takeWhile_le Byte.isNamePart rest
    split at found
    · cases found
      simp only [List.length_cons]
      omega
    · simp at found
  · simp at found

theorem number?_length_le (input : List UInt8) (lexeme : Lexeme)
    (found : number? input = some lexeme) : lexeme.length ≤ input.length := by
  unfold number? at found
  split at found
  · split at found
    · rename_i isBasedDigit based
      cases found
      match input, based with
      | zero :: marker :: rest, _ =>
          have inside := length_takeWhile_le
            (fun byte => isBasedDigit byte || byte == byteOf '_') rest
          simp only [List.drop_succ_cons, List.drop_zero, List.length_cons]
          omega
    · cases found
      simpa using decimalEnd_le false 0 input
  · simp at found

theorem quoted?_length_le (input : List UInt8) (lexeme : Lexeme)
    (found : quoted? input = some lexeme) : lexeme.length ≤ input.length := by
  cases input with
  | nil => simp [quoted?] at found
  | cons quote rest =>
      simp only [quoted?] at found
      split at found
      · split at found
        · rename_i length closed
          cases found
          have := quotedEnd?_le quote 1 rest length closed
          simp only [List.length_cons]
          omega
        · cases found
          exact Nat.le_refl _
      · simp at found

theorem lineComment?_length_le (input : List UInt8) (lexeme : Lexeme)
    (found : lineComment? input = some lexeme) : lexeme.length ≤ input.length := by
  unfold lineComment? at found
  split at found
  · rename_i opens
    have long : 1 ≤ input.length := length_le_of_isPrefixOf opens
    have inside := lineCommentEnd_le 1 (input.drop 1)
    cases found
    simp only [List.length_drop] at inside ⊢
    omega
  · split at found
    · rename_i opens
      have long : 2 ≤ input.length := length_le_of_isPrefixOf opens
      have inside := lineCommentEnd_le 2 (input.drop 2)
      cases found
      simp only [List.length_drop] at inside ⊢
      omega
    · simp at found

theorem blockComment?_length_le (input : List UInt8) (lexeme : Lexeme)
    (found : blockComment? input = some lexeme) : lexeme.length ≤ input.length := by
  rw [blockComment?_eq] at found
  split at found
  · rename_i opens
    have long : 2 ≤ input.length := length_le_of_isPrefixOf opens
    split at found
    · rename_i length closed
      have inside := blockCommentEnd?_le 2 _ length closed
      cases found
      simp only [List.length_drop] at inside ⊢
      omega
    · cases found
      exact Nat.le_refl _
  · simp at found

theorem closeTag?_length_le (input : List UInt8) (lexeme : Lexeme)
    (found : closeTag? input = some lexeme) : lexeme.length ≤ input.length := by
  unfold closeTag? at found
  split at found
  · rename_i opens
    have long : 2 ≤ input.length := length_le_of_isPrefixOf opens
    cases found
    dsimp only
    split
    · rename_i feed
      have more : input.drop 2 ≠ [] := by
        intro empty
        simp [empty] at feed
      have := List.length_pos_iff.mpr more
      simp only [List.length_drop] at this
      omega
    · exact long
  · simp at found

theorem symbol?_length_le (input : List UInt8) (lexeme : Lexeme)
    (found : symbol? input = some lexeme) : lexeme.length ≤ input.length := by
  unfold symbol? at found
  obtain ⟨entry, entryFound, rfl⟩ := Option.map_eq_some_iff.mp found
  have begins := List.find?_some entryFound
  exact length_le_of_isPrefixOf begins

theorem scanner_length_le (scanner : List UInt8 → Option Lexeme) (member : scanner ∈ scanners)
    (input : List UInt8) (lexeme : Lexeme) (found : scanner input = some lexeme) :
    lexeme.length ≤ input.length := by
  simp only [scanners, List.mem_cons, List.not_mem_nil, or_false] at member
  rcases member with rfl | rfl | rfl | rfl | rfl | rfl | rfl | rfl
  · exact word?_length_le input lexeme found
  · exact variableName?_length_le input lexeme found
  · exact number?_length_le input lexeme found
  · exact quoted?_length_le input lexeme found
  · exact lineComment?_length_le input lexeme found
  · exact blockComment?_length_le input lexeme found
  · exact closeTag?_length_le input lexeme found
  · exact symbol?_length_le input lexeme found

theorem script_length_le (input : List UInt8) : (script input).length ≤ input.length := by
  unfold script
  split
  · exact Nat.zero_le _
  · rename_i left
    cases found : scanners.findSome? fun scanner => scanner input with
    | none => exact List.length_pos_iff.mpr (by simpa using left)
    | some lexeme =>
        obtain ⟨scanner, member, found⟩ := List.exists_of_findSome?_eq_some found
        exact scanner_length_le scanner member input lexeme found

theorem blankAfterTag_le (rest : List UInt8) : blankAfterTag rest ≤ rest.length := by
  cases rest with
  | nil => exact Nat.le_refl _
  | cons byte rest =>
      simp only [blankAfterTag, List.length_cons]
      split <;> omega

theorem openTag?_length_le (shortTags : Bool) (input : List UInt8) (lexeme : Lexeme)
    (found : openTag? shortTags input = some lexeme) : lexeme.length ≤ input.length := by
  have tagged : ∀ count, count ≤ input.length →
      count + blankAfterTag (input.drop count) ≤ input.length := by
    intro count long
    have := blankAfterTag_le (input.drop count)
    simp only [List.length_drop] at this
    omega
  unfold openTag? at found
  split at found
  · rename_i opens
    cases found
    exact tagged 5 (length_le_of_isPrefixOf opens)
  · split at found
    · rename_i opens
      cases found
      exact length_le_of_isPrefixOf opens
    · split at found
      · rename_i opens
        cases found
        exact tagged 2 (length_le_of_isPrefixOf (Bool.and_eq_true_iff.mp opens).2)
      · simp at found

theorem pageTextEnd_le (shortTags : Bool) (taken : Nat) (input : List UInt8) :
    pageTextEnd shortTags taken input ≤ taken + input.length := by
  fun_induction pageTextEnd shortTags taken input with
  | case1 => exact Nat.le_refl _
  | case2 => exact Nat.le_add_right _ _
  | case3 taken byte rest noTag inductionHypothesis =>
      simp only [List.length_cons]
      omega

theorem page_length_le (shortTags : Bool) (input : List UInt8) :
    (page shortTags input).length ≤ input.length := by
  rw [page_eq]
  split
  · exact Nat.zero_le _
  · cases found : openTag? shortTags input with
    | some lexeme => exact openTag?_length_le shortTags input lexeme found
    | none => simpa using pageTextEnd_le shortTags 0 input

end Scan

/-! ## One step of the lexer -/

namespace Lexer

theorem lexeme_length_le (lexer : Lexer) : lexer.lexeme.length ≤ lexer.rest.length := by
  unfold lexeme
  split
  · exact Scan.page_length_le lexer.shortTags lexer.rest
  · exact Scan.script_length_le lexer.rest

def gap (lexer : Lexer) : List UInt8 :=
  match lexer.mode with
  | .page => []
  | .script => lexer.rest.takeWhile Byte.isBlank

theorem isBlank_of_mem_gap {lexer : Lexer} : ∀ byte ∈ lexer.gap, Byte.isBlank byte = true := by
  intro byte member
  unfold gap at member
  split at member
  · simp at member
  · exact List.all_eq_true.mp List.all_takeWhile byte member

theorem skipBlanks_eq (lexer : Lexer) :
    lexer.skipBlanks = lexer.skip lexer.gap.length ∧
      lexer.rest = lexer.gap ++ lexer.skipBlanks.rest := by
  obtain ⟨shortTags, mode, offset, rest⟩ := lexer
  cases mode with
  | page => simp [skipBlanks, gap, skip]
  | script =>
      simp only [skipBlanks, gap, skip, true_and]
      exact (List.prefix_iff_eq_append.mp (List.takeWhile_prefix Byte.isBlank)).symm

/-- The lexer splits what is left into a gap, a token and the rest, and goes on behind the token.
Gaps are blank, and there are none on a page. -/
structure CutsToken (lexer : Lexer) (token : Token) (rest : Lexer) : Prop where
  blank : ∀ byte ∈ lexer.gap, Byte.isBlank byte = true
  inScript : lexer.gap ≠ [] → lexer.mode = .script
  fits : lexer.skipBlanks.lexeme.length ≤ lexer.skipBlanks.rest.length
  split : lexer.rest = lexer.gap ++ token.bytes ++ rest.rest
  start : token.start = lexer.offset + lexer.gap.length
  offset : rest.offset = token.stop
  mode : rest.mode = lexer.mode.after token.kind
  ends : token.kind = .eof → token.bytes = [] ∧ rest.rest = []
  goesOn : token.kind ≠ .eof → token.bytes ≠ []

theorem next_cuts (lexer : Lexer) : lexer.CutsToken lexer.next.1 lexer.next.2 := by
  obtain ⟨skips, splits⟩ := lexer.skipBlanks_eq
  have kept : lexer.skipBlanks.mode = lexer.mode := by rw [skips]; rfl
  have offset : lexer.skipBlanks.offset = lexer.offset + lexer.gap.length := by rw [skips]; rfl
  have fits := lexer.skipBlanks.lexeme_length_le
  have inScript : lexer.gap ≠ [] → lexer.mode = .script := by
    cases mode : lexer.mode with
    | page => simp [gap, mode]
    | script => exact fun _ => rfl
  refine ⟨isBlank_of_mem_gap, inScript, fits, ?_, offset, ?_, ?_, ?_, ?_⟩
  all_goals unfold next
  all_goals generalize lexer.skipBlanks = stripped at *
  · rw [splits, List.append_assoc]
    exact congrArg (lexer.gap ++ ·) (List.take_append_drop ..).symm
  · simp only [take, skip, Token.stop, List.length_take, Nat.min_eq_left fits]
  · rw [← kept]
    rfl
  · intro ends
    by_cases used : stripped.rest = []
    · simp [take, skip, used]
    · exact absurd ends (stripped.lexeme_takes used).2
  · intro goesOn empty
    by_cases used : stripped.rest = []
    · exact goesOn (by simp [take, lexeme_at_end stripped used])
    · have longer := (stripped.lexeme_takes used).1
      have none : (stripped.rest.take stripped.lexeme.length).length = 0 := by
        simpa [take] using congrArg List.length empty
      rw [List.length_take, Nat.min_eq_left fits] at none
      omega

/-- The lexer stands inside the source, and what is left is what the source has from there on. -/
structure LiesInside (source : List UInt8) (lexer : Lexer) : Prop where
  offset_le : lexer.offset ≤ source.length
  rest_eq : lexer.rest = source.drop lexer.offset

namespace CutsToken

variable {lexer rest : Lexer} {token : Token} {source : List UInt8}

theorem inside (cuts : lexer.CutsToken token rest) (inside : lexer.LiesInside source) :
    rest.LiesInside source := by
  have total := congrArg List.length cuts.split
  have left := congrArg List.length inside.rest_eq
  simp only [List.length_append, List.length_drop] at total left
  have offset : rest.offset = lexer.offset + (lexer.gap ++ token.bytes).length := by
    simp only [cuts.offset, Token.stop, cuts.start, List.length_append]
    omega
  constructor
  · have := inside.offset_le
    simp only [List.length_append] at offset
    omega
  · rw [offset, ← List.drop_drop, ← inside.rest_eq, cuts.split, List.drop_left]

theorem stop_le (cuts : lexer.CutsToken token rest) (inside : lexer.LiesInside source) :
    token.stop ≤ source.length := by
  rw [← cuts.offset]
  exact (cuts.inside inside).offset_le

theorem slice?_span (cuts : lexer.CutsToken token rest) (inside : lexer.LiesInside source) :
    token.span.slice? source = some token.bytes := by
  have ahead : source.drop token.start = token.bytes ++ rest.rest := by
    rw [cuts.start, ← List.drop_drop, ← inside.rest_eq, cuts.split, List.append_assoc,
      List.drop_left]
  have length : token.stop - token.start = token.bytes.length := by simp [Token.stop]
  rw [Span.slice?, if_pos ⟨Nat.le_add_right _ _, cuts.stop_le inside⟩]
  simp only [Token.span, length, ahead, List.take_left]

end CutsToken

/-! ## Whole runs -/

def after : Nat → Lexer → Lexer
  | 0, lexer => lexer
  | count + 1, lexer => (lexer.after count).next.2

def token (lexer : Lexer) (index : Nat) : Token := (lexer.after index).next.1

theorem after_next (lexer : Lexer) (count : Nat) :
    lexer.next.2.after count = lexer.after (count + 1) := by
  induction count with
  | zero => rfl
  | succ count inductionHypothesis => rw [after, inductionHypothesis, ← after]

theorem token_next (lexer : Lexer) (index : Nat) :
    lexer.next.2.token index = lexer.token (index + 1) := by
  rw [token, token, after_next]

theorem after_cuts (lexer : Lexer) (index : Nat) :
    (lexer.after index).CutsToken (lexer.token index) (lexer.after (index + 1)) :=
  (lexer.after index).next_cuts

theorem LiesInside.after {source : List UInt8} {lexer : Lexer} (inside : lexer.LiesInside source)
    (index : Nat) : (lexer.after index).LiesInside source := by
  induction index with
  | zero => exact inside
  | succ index inductionHypothesis => exact (lexer.after_cuts index).inside inductionHypothesis

theorem firstTokens_eq_map (count : Nat) :
    ∀ lexer : Lexer, lexer.firstTokens count = (List.range count).map lexer.token := by
  induction count with
  | zero => exact fun _ => rfl
  | succ count inductionHypothesis =>
      intro lexer
      rw [firstTokens, inductionHypothesis, List.range_succ_eq_map, List.map_cons, List.map_map]
      exact congrArg (_ :: ·) (List.map_congr_left fun index _ => lexer.token_next index)

/-- Gaps and tokens by turns are what is read; the rest is still left. -/
theorem rest_eq_flatMap (lexer : Lexer) (count : Nat) :
    lexer.rest = (List.range count).flatMap (fun index =>
      (lexer.after index).gap ++ (lexer.token index).bytes) ++ (lexer.after count).rest := by
  induction count with
  | zero => rfl
  | succ count inductionHypothesis =>
      rw [List.range_succ, List.flatMap_append, List.flatMap_singleton, List.append_assoc,
        ← (lexer.after_cuts count).split]
      exact inductionHypothesis

/-- Once the source is used up, the lexer stands still. -/
theorem next_of_rest_eq_nil {lexer : Lexer} (used : lexer.rest = []) :
    lexer.next = (⟨.eof, lexer.offset, []⟩, lexer) := by
  obtain ⟨shortTags, mode, offset, rest⟩ := lexer
  obtain rfl : rest = [] := used
  cases mode <;> rfl

/-- The tokens are those up to the first end of file, of which there is one after no more tokens
than there are bytes. -/
theorem collect_eq_map (fuel : Nat) :
    ∀ lexer : Lexer, lexer.rest.length < fuel → ∃ count ≤ lexer.rest.length,
      lexer.collect fuel [] = (List.range (count + 1)).map lexer.token ∧
      (∀ index < count, (lexer.token index).kind ≠ .eof) ∧ (lexer.token count).kind = .eof := by
  induction fuel with
  | zero => intro lexer enough; omega
  | succ fuel inductionHypothesis =>
      intro lexer enough
      simp only [collect]
      by_cases ends : lexer.next.1.kind = .eof
      · rw [if_pos ends]
        exact ⟨0, Nat.zero_le _, rfl, by simp, ends⟩
      · have cuts := lexer.next_cuts
        have covers := List.length_pos_iff.mpr (cuts.goesOn ends)
        have total := congrArg List.length cuts.split
        simp only [List.length_append] at total
        obtain ⟨count, few, collected, goOn, last⟩ :=
          inductionHypothesis lexer.next.2 (by omega)
        refine ⟨count + 1, by omega, ?_, ?_, ?_⟩
        · rw [if_neg ends, collect_eq, collected, List.range_succ_eq_map (n := count + 1),
            List.map_cons, List.map_map]
          exact congrArg (_ :: ·) (List.map_congr_left fun index _ => lexer.token_next index)
        · intro index before
          cases index with
          | zero => exact ends
          | succ index =>
              rw [← token_next]
              exact goOn index (Nat.lt_of_succ_lt_succ before)
        · rw [← token_next]
          exact last

theorem tokens_eq_map (lexer : Lexer) :
    ∃ count ≤ lexer.rest.length, lexer.tokens = (List.range (count + 1)).map lexer.token ∧
      (∀ index < count, (lexer.token index).kind ≠ .eof) ∧ (lexer.token count).kind = .eof :=
  collect_eq_map _ lexer (Nat.lt_succ_self _)

/-- From the first end of file on, every token is the same end of file. -/
theorem token_eq_of_eof {lexer : Lexer} {source : List UInt8} (inside : lexer.LiesInside source)
    {count : Nat} (ends : (lexer.token count).kind = .eof) (more : Nat) :
    lexer.token (count + more) = ⟨.eof, source.length, []⟩ ∧
      (lexer.after (count + more + 1)).rest = [] := by
  have cuts := lexer.after_cuts count
  obtain ⟨empty, used⟩ := cuts.ends ends
  have behind := (lexer.after_cuts count).inside (inside.after count)
  have atEnd : (lexer.after (count + 1)).offset = source.length := by
    have left := congrArg List.length behind.rest_eq
    have := behind.offset_le
    simp only [used, List.length_nil, List.length_drop] at left
    omega
  induction more with
  | zero =>
      refine ⟨?_, used⟩
      have start : (lexer.token count).start = source.length := by
        rw [← atEnd, cuts.offset, Token.stop, empty, List.length_nil, Nat.add_zero]
      calc lexer.token count
          = ⟨(lexer.token count).kind, (lexer.token count).start, (lexer.token count).bytes⟩ := rfl
        _ = ⟨.eof, source.length, []⟩ := by rw [ends, start, empty]
  | succ more inductionHypothesis =>
      obtain ⟨same, still⟩ := inductionHypothesis
      have stays := next_of_rest_eq_nil still
      have offset : (lexer.after (count + more + 1)).offset = source.length := by
        rw [(lexer.after_cuts (count + more)).offset, same]
        rfl
      constructor
      · show (lexer.after (count + more + 1)).next.1 = _
        rw [stays, offset]
      · show (lexer.after (count + more + 1)).next.2.rest = []
        rw [stays]
        exact still

theorem ofSource_inside (shortTags : Bool) (source : List UInt8) :
    (ofSource shortTags source).LiesInside source :=
  ⟨Nat.zero_le _, rfl⟩

theorem exists_index_of_mem {lexer : Lexer} {token : Token} (member : token ∈ lexer.tokens) :
    ∃ index, lexer.token index = token := by
  obtain ⟨count, _, tokens, _⟩ := lexer.tokens_eq_map
  obtain ⟨index, _, same⟩ := List.mem_map.mp (tokens ▸ member)
  exact ⟨index, same⟩

theorem stop_le_length {shortTags : Bool} {source : List UInt8} {token : Token}
    (member : token ∈ (ofSource shortTags source).tokens) : token.stop ≤ source.length := by
  obtain ⟨index, rfl⟩ := exists_index_of_mem member
  exact ((ofSource shortTags source).after_cuts index).stop_le
    ((ofSource_inside shortTags source).after index)

theorem slice?_span_of_mem {shortTags : Bool} {source : List UInt8} {token : Token}
    (member : token ∈ (ofSource shortTags source).tokens) :
    token.span.slice? source = some token.bytes := by
  obtain ⟨index, rfl⟩ := exists_index_of_mem member
  exact ((ofSource shortTags source).after_cuts index).slice?_span
    ((ofSource_inside shortTags source).after index)

theorem span_of_eof {shortTags : Bool} {source : List UInt8} {token : Token}
    (member : token ∈ (ofSource shortTags source).tokens) (ends : token.kind = .eof) :
    token.span = ⟨source.length, source.length⟩ := by
  obtain ⟨count, _, tokens, goesOn, last⟩ := (ofSource shortTags source).tokens_eq_map
  rw [tokens] at member
  obtain ⟨index, inRange, rfl⟩ := List.mem_map.mp member
  have same : index = count := by
    have few := List.mem_range.mp inRange
    rcases Nat.lt_or_ge index count with before | after
    · exact absurd ends (goesOn index before)
    · omega
  have behind := (token_eq_of_eof (ofSource_inside shortTags source) last 0).1
  rw [Nat.add_zero] at behind
  rw [same, behind]
  rfl

/-- How a run of the lexer tiles its source: after `count` tokens comes the end of file. -/
structure Tiles (lexer : Lexer) (source : List UInt8) (count : Nat) : Prop where
  few : count ≤ source.length
  tokens : lexer.tokens = (List.range (count + 1)).map lexer.token
  goesOn : ∀ index < count, (lexer.token index).kind ≠ .eof
  ends : lexer.token count = ⟨.eof, source.length, []⟩
  /-- Whoever asks for more tokens gets the same end of file again. -/
  stays : ∀ more, lexer.firstTokens (count + 1 + more) =
    lexer.tokens ++ List.replicate more ⟨.eof, source.length, []⟩
  ordered : lexer.tokens.Pairwise fun first second => first.stop ≤ second.start
  covers : ∀ token ∈ lexer.tokens, token.kind ≠ .eof → token.start < token.stop
  within : ∀ token ∈ lexer.tokens, token.stop ≤ source.length
  slices : ∀ token ∈ lexer.tokens, token.span.clampedSlice? source = some token.bytes
  inside : ∀ index, (lexer.after index).LiesInside source
  cuts : ∀ index, (lexer.after index).CutsToken (lexer.token index) (lexer.after (index + 1))
  whole : source = (List.range (count + 1)).flatMap fun index =>
    (lexer.after index).gap ++ (lexer.token index).bytes

end Lexer

theorem Token.clamp_span {token : Token} {length : Nat} (inside : token.stop ≤ length) :
    token.span.clamp length = token.span := by
  have start_le : token.start ≤ length := Nat.le_trans (Nat.le_add_right _ _) inside
  simp only [Token.span, Span.clamp, Nat.min_eq_left start_le, Nat.min_eq_left inside]

open Lexer in
/-- The lexer tiles every source. There are at most as many tokens as bytes, and behind the last
byte the end of file, again and again. Tokens cover bytes, in order and without overlap, and gaps
and tokens by turns give the source back. In every step the lexer stands inside the source, cuts
off no more than there is, and leaves out nothing but blanks in script. -/
theorem exists_tiles_ofSource (shortTags : Bool) (source : List UInt8) :
    ∃ count, (ofSource shortTags source).Tiles source count := by
  have inside := ofSource_inside shortTags source
  obtain ⟨count, few, tokens, goOn, ends⟩ := (ofSource shortTags source).tokens_eq_map
  have behind := token_eq_of_eof inside ends
  have index_of_mem : ∀ token ∈ (ofSource shortTags source).tokens, ∃ index,
      (ofSource shortTags source).token index = token := by
    intro token member
    obtain ⟨index, _, same⟩ := List.mem_map.mp (tokens ▸ member)
    exact ⟨index, same⟩
  have within : ∀ token ∈ (ofSource shortTags source).tokens, token.stop ≤ source.length :=
    fun _ => stop_le_length
  refine ⟨count, few, tokens, goOn, (behind 0).1, ?_, (tokens_stream _).ordered,
    (tokens_stream _).covers, within, ?_, inside.after, after_cuts _, ?_⟩
  · intro more
    rw [firstTokens_eq_map, tokens, List.range_add, List.map_append, List.map_map]
    refine congrArg (_ ++ ·) (List.eq_replicate_iff.mpr ⟨by simp, ?_⟩)
    intro token member
    obtain ⟨index, _, rfl⟩ := List.mem_map.mp member
    rw [Function.comp_apply, Nat.add_assoc, Nat.add_comm 1 index]
    exact (behind (index + 1)).1
  · intro token member
    rw [Span.clampedSlice?, Token.clamp_span (within token member)]
    obtain ⟨index, rfl⟩ := index_of_mem token member
    exact ((ofSource shortTags source).after_cuts index).slice?_span (inside.after index)
  · have whole := (ofSource shortTags source).rest_eq_flatMap (count + 1)
    rw [(behind 0).2, List.append_nil] at whole
    exact whole

end PhpTree
