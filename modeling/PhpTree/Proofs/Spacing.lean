import PhpTree.Proofs.Delimiters
import PhpTree.Proofs.Lookahead
import PhpTree.Proofs.Modes

/-! # Blanks between tokens

Blanks that are put behind a token of script move the tokens behind them and change
nothing else.  A source is cut at the end of the token.  The tokens in front of the cut
are what they are without the rest of the source, and a blank there does not change
them.  Behind the cut the lexer skips the blanks. -/
set_option autoImplicit false
namespace PhpTree

namespace Token

def isLineComment (token : Token) : Bool :=
  (bytesOf "#").isPrefixOf token.bytes || (bytesOf "//").isPrefixOf token.bytes

def movedBy (count : Nat) (token : Token) : Token := { token with start := token.start + count }

/-- The token where it is once `count` bytes more come at the boundary. -/
def shifted (boundary count : Nat) (token : Token) : Token :=
  if token.start < boundary then token else token.movedBy count

end Token

namespace Scan

theorem isLineComment_of_lineComment? {input : List UInt8} {lexeme : Lexeme} {token : Token}
    (found : lineComment? input = some lexeme) (bytes : token.bytes = input.take lexeme.length) :
    token.isLineComment = true := by
  obtain ⟨opener, isOpener, opens, rfl⟩ := exists_opener found
  have begins : opener.isPrefixOf token.bytes = true := by
    rw [bytes, List.isPrefixOf_iff_prefix, List.prefix_take_iff]
    exact ⟨List.isPrefixOf_iff_prefix.mp opens, le_lineCommentEnd opener.length _⟩
  simp only [List.mem_cons, List.not_mem_nil, or_false] at isOpener
  rw [Token.isLineComment, Bool.or_eq_true]
  rcases isOpener with rfl | rfl
  · exact .inl begins
  · exact .inr begins

theorem script_append_blank_of_block {input tail : List UInt8}
    (opens : (bytesOf "/*").isPrefixOf input = true) (breaks : StartsWithBlank tail)
    (closed : (script input).kind ≠ .error) : script (input ++ tail) = script input := by
  have found := script_of_blockComment opens
  have foundToo := script_of_blockComment (isPrefixOf_append opens tail)
  rcases blockComment?_append_blank input breaks with same | unclosed
  · rw [same, found] at foundToo
    exact (Option.some.inj foundToo).symm
  · rw [unclosed] at found
    exact absurd (congrArg Lexeme.kind (Option.some.inj found).symm) closed

theorem opensTag_of_inlineHtml {shortTags : Bool} {input : List UInt8}
    (isText : (page shortTags input).kind = .inlineHtml)
    (goesOn : (page shortTags input).length < input.length) :
    opensTag shortTags (input.drop (page shortTags input).length) = true := by
  obtain ⟨left, noTag⟩ := no_tag_of_inlineHtml isText
  have length : (page shortTags input).length = pageTextEnd shortTags 0 input := by
    rw [page_of_no_tag left noTag]
  have first := @isFirst_pageTextEnd shortTags input 0 0 (Nat.zero_le _)
  simp only [Nat.zero_add, List.drop_zero, ← length] at first
  exact first.stops.resolve_right (Nat.ne_of_lt goesOn)

end Scan

namespace Lexer

/-! ## One token -/

/-- The next token stays what it is when more source follows. -/
structure KeepsLexeme (lexer : Lexer) (tail : List UInt8) : Prop where
  left : lexer.skipBlanks.rest ≠ []
  lexeme : (lexer.skipBlanks.followedBy tail).lexeme = lexer.skipBlanks.lexeme

theorem KeepsLexeme.next {lexer : Lexer} {tail : List UInt8} (stays : lexer.KeepsLexeme tail) :
    (lexer.followedBy tail).next = (lexer.next.1, lexer.next.2.followedBy tail) :=
  next_followedBy stays.left stays.lexeme

theorem stop_next (lexer : Lexer) :
    lexer.next.1.stop = lexer.skipBlanks.offset + lexer.skipBlanks.lexeme.length := by
  rw [Token.stop, Lexer.next, take, List.length_take,
    Nat.min_eq_left lexer.skipBlanks.lexeme_length_le]

theorem offset_next (lexer : Lexer) : lexer.next.2.offset = lexer.next.1.stop :=
  lexer.next_cuts.offset

theorem start_lt_stop {lexer : Lexer} (goesOn : lexer.next.1.kind ≠ .eof) :
    lexer.next.1.start < lexer.next.1.stop := by
  rcases lexer.next_cases with ⟨ends, _⟩ | ⟨_, _, covers, _⟩
  · exact absurd ends goesOn
  · exact covers

theorem offset_lt_stop {lexer : Lexer} (goesOn : lexer.next.1.kind ≠ .eof) :
    lexer.offset < lexer.next.1.stop := by
  refine Nat.lt_of_le_of_lt ?_ (start_lt_stop goesOn)
  rw [lexer.next_cuts.start]
  exact Nat.le_add_right _ _

def limit (lexer : Lexer) : Nat := lexer.offset + lexer.rest.length

theorem limit_skipBlanks (lexer : Lexer) : lexer.skipBlanks.limit = lexer.limit := by
  obtain ⟨skips, splits⟩ := lexer.skipBlanks_eq
  have total := congrArg List.length splits
  rw [List.length_append] at total
  have offset : lexer.skipBlanks.offset = lexer.offset + lexer.gap.length := by rw [skips]; rfl
  rw [limit, limit, offset, total, Nat.add_assoc]

section LiesInside
variable {lexer : Lexer} {back : List UInt8}
  (goesOn : (lexer.followedBy back).next.1.kind ≠ .eof)
  (inside : (lexer.followedBy back).next.1.stop ≤ lexer.limit)
include goesOn inside

theorem skipBlanks_ne_nil : lexer.skipBlanks.rest ≠ [] := by
  intro used
  have cuts := (lexer.followedBy back).next_cuts
  have blank : lexer.rest = lexer.gap := by
    have splits := lexer.skipBlanks_eq.2
    rwa [used, List.append_nil] at splits
  have covers := start_lt_stop goesOn
  have reaches : lexer.rest.length ≤ (lexer.followedBy back).gap.length := by
    cases mode : lexer.mode with
    | page =>
        rw [blank, gap, mode]
        exact Nat.zero_le _
    | script =>
        have allBlank : ∀ byte ∈ lexer.rest, Byte.isBlank byte = true := by
          rw [blank]
          exact isBlank_of_mem_gap
        rw [gap, followedBy, mode]
        dsimp only
        rw [List.takeWhile_append_of_pos allBlank, List.length_append]
        exact Nat.le_add_right _ _
  have start : (lexer.followedBy back).next.1.start =
      lexer.offset + (lexer.followedBy back).gap.length := cuts.start
  rw [limit] at inside
  omega

theorem next_eq_take : (lexer.followedBy back).next =
    (lexer.skipBlanks.followedBy back).take (lexer.skipBlanks.followedBy back).lexeme := by
  rw [next, skipBlanks_followedBy (skipBlanks_ne_nil goesOn inside)]

/-- What the next token is and what is left behind it. -/
theorem next_inside :
    (lexer.followedBy back).next.1.kind = (lexer.skipBlanks.followedBy back).lexeme.kind ∧
      (lexer.followedBy back).next.1.bytes = (lexer.skipBlanks.rest ++ back).take
        (lexer.skipBlanks.followedBy back).lexeme.length ∧
      (lexer.followedBy back).next.2.rest = (lexer.skipBlanks.rest ++ back).drop
        (lexer.skipBlanks.followedBy back).lexeme.length := by
  rw [next_eq_take goesOn inside]
  exact ⟨rfl, rfl, rfl⟩

theorem stop_inside : (lexer.followedBy back).next.1.stop + lexer.skipBlanks.rest.length =
    lexer.limit + (lexer.skipBlanks.followedBy back).lexeme.length := by
  have stop := (lexer.followedBy back).stop_next
  rw [skipBlanks_followedBy (skipBlanks_ne_nil goesOn inside)] at stop
  have offset : (lexer.skipBlanks.followedBy back).offset = lexer.skipBlanks.offset := rfl
  rw [stop, offset, ← limit_skipBlanks, limit]
  omega

theorem lexeme_inside :
    (lexer.skipBlanks.followedBy back).lexeme.length ≤ lexer.skipBlanks.rest.length := by
  have stop := stop_inside goesOn inside
  omega

end LiesInside

/-! ## A token with another one behind it -/

theorem two_le_of_closeTag {lexer : Lexer} (inScript : lexer.mode = .script)
    (tag : (bytesOf "?>").isPrefixOf lexer.rest = true) :
    lexer.offset + 2 ≤ lexer.next.1.stop := by
  obtain ⟨shortTags, mode, offset, rest⟩ := lexer
  obtain ⟨more, rfl⟩ := List.isPrefixOf_iff_prefix.mp tag
  obtain rfl : mode = .script := inScript
  have scanned : Scan.script (bytesOf "?>" ++ more) =
      ⟨.closeTag, if more.head? == some 10 then 3 else 2⟩ :=
    Scan.script_of_dull (by decide) (byteOf '>' :: more)
  have long : 2 ≤ (Scan.script (bytesOf "?>" ++ more)).length := by
    rw [scanned]
    dsimp only
    split <;> omega
  rw [stop_next]
  exact Nat.add_le_add_left long offset

section Middle
variable {lexer : Lexer} {back : List UInt8}
  (goesOn : (lexer.followedBy back).next.1.kind ≠ .eof)
  (inside : (lexer.followedBy back).next.1.stop ≤ lexer.limit)
  (further : (lexer.followedBy back).next.2.next.1.kind ≠ .eof)
  (alsoInside : (lexer.followedBy back).next.2.next.1.stop ≤ lexer.limit)
include goesOn inside further alsoInside

theorem lexeme_shorter :
    (lexer.skipBlanks.followedBy back).lexeme.length < lexer.skipBlanks.rest.length := by
  have covers := offset_lt_stop further
  have stop := stop_inside goesOn inside
  rw [offset_next] at covers
  omega

theorem lexeme_not_cut (inScript : lexer.mode = .script) :
    ¬ (Scan.script (lexer.skipBlanks.rest ++ back)).IsCut lexer.skipBlanks.rest back := by
  have lexeme : (lexer.skipBlanks.followedBy back).lexeme =
      Scan.script (lexer.skipBlanks.rest ++ back) := by
    rw [Lexer.lexeme, followedBy, mode_skipBlanks, inScript]
  obtain ⟨kind, _, rest⟩ := next_inside goesOn inside
  have shorter := lexeme_shorter goesOn inside further alsoInside
  have stop := stop_inside goesOn inside
  rw [lexeme] at kind rest shorter stop
  rintro (longer | ⟨line, last, tag⟩)
  · exact Nat.lt_asymm longer shorter
  · -- The close tag would be the next token, and would reach out of the front.
    rw [← rest] at tag
    have stays : (lexer.followedBy back).next.2.mode = .script := by
      rw [(lexer.followedBy back).next_cuts.mode, kind, Scan.lineComment?_kind line]
      exact inScript
    have covers := two_le_of_closeTag stays tag
    rw [offset_next] at covers
    omega

/-- The open tag behind page text is in the front as a whole. -/
theorem opensTag_inside (onPage : lexer.mode = .page)
    (isText : (Scan.page lexer.shortTags (lexer.skipBlanks.rest ++ back)).kind = .inlineHtml) :
    Scan.opensTag lexer.shortTags (lexer.skipBlanks.rest.drop
      (Scan.page lexer.shortTags (lexer.skipBlanks.rest ++ back)).length) = true := by
  have lexeme : (lexer.skipBlanks.followedBy back).lexeme =
      Scan.page lexer.shortTags (lexer.skipBlanks.rest ++ back) := by
    rw [Lexer.lexeme, followedBy, mode_skipBlanks, shortTags_skipBlanks, onPage]
  obtain ⟨kind, _, rest⟩ := next_inside goesOn inside
  have shorter := lexeme_shorter goesOn inside further alsoInside
  have stop := stop_inside goesOn inside
  rw [lexeme] at kind rest shorter stop
  have opens := Scan.opensTag_of_inlineHtml isText (by rw [List.length_append]; omega)
  rw [List.drop_append_of_le_length (Nat.le_of_lt shorter)] at opens rest
  -- The tag is the next token, so it does not reach out of the front.
  have tagMode : (lexer.followedBy back).next.2.mode = .page := by
    rw [(lexer.followedBy back).next_cuts.mode, kind, isText]
    exact onPage
  have tagStop := (lexer.followedBy back).next.2.stop_next
  rw [skipBlanks_of_page tagMode, offset_next, lexeme_of_page tagMode, rest, shortTags_next]
    at tagStop
  rw [← Scan.openTag?_isSome, Option.isSome_iff_exists] at opens
  obtain ⟨tag, found⟩ := opens
  have tags : (lexer.followedBy back).shortTags = lexer.shortTags := rfl
  rw [tags, Scan.page_of_openTag? found] at tagStop
  have fits : tag.length ≤ (lexer.skipBlanks.rest.drop
      (Scan.page lexer.shortTags (lexer.skipBlanks.rest ++ back)).length).length := by
    rw [List.length_drop]
    omega
  rw [← Scan.openTag?_isSome, Scan.openTag?_of_fits found fits]
  rfl

/-- Such a token stays what it is when the source goes on behind the front, or when a blank comes
there. -/
theorem keepsLexeme_of_middle {tail : List UInt8} (fitting : tail = back ∨ StartsWithBlank tail) :
    lexer.KeepsLexeme tail := by
  have left := skipBlanks_ne_nil goesOn inside
  have shorter := lexeme_shorter goesOn inside further alsoInside
  refine ⟨left, ?_⟩
  cases here : lexer.mode with
  | script =>
      have uncut := lexeme_not_cut goesOn inside further alsoInside here
      have same := Scan.script_of_front left uncut
      simp only [Lexer.lexeme, followedBy, mode_skipBlanks, here] at shorter ⊢
      rcases fitting with rfl | breaks
      · exact same.symm
      · refine Scan.script_append_blank left breaks fun isOpen => ?_
        rw [same] at isOpen
        exact absurd isOpen.whole (Nat.ne_of_lt shorter)
  | page =>
      have tag := opensTag_inside goesOn inside further alsoInside here
      simp only [Lexer.lexeme, followedBy, mode_skipBlanks, shortTags_skipBlanks, here]
        at shorter ⊢
      have same := Scan.page_of_front left (Nat.le_of_lt shorter) tag
      rcases fitting with rfl | breaks
      · exact same.symm
      · refine Scan.page_append_blank breaks ?_
        rwa [same]

end Middle

/-! ## A token that ends at the cut -/

/-- Such a token stays what it is too, if it is no line comment and nothing that a blank could
make longer. -/
theorem keepsLexeme_of_last {lexer : Lexer} {back : List UInt8} (inScript : lexer.mode = .script)
    (goesOn : (lexer.followedBy back).next.1.kind ≠ .eof)
    (inside : (lexer.followedBy back).next.1.stop ≤ lexer.limit)
    (noClose : (lexer.followedBy back).next.1.kind ≠ .closeTag)
    (noError : (lexer.followedBy back).next.1.kind ≠ .error)
    (noLine : (lexer.followedBy back).next.1.isLineComment = false)
    {tail : List UInt8} (fitting : tail = back ∨ StartsWithBlank tail) :
    lexer.KeepsLexeme tail := by
  have left := skipBlanks_ne_nil goesOn inside
  have fits := lexeme_inside goesOn inside
  obtain ⟨kind, bytes, _⟩ := next_inside goesOn inside
  refine ⟨left, ?_⟩
  generalize (lexer.followedBy back).next.1 = token at *
  simp only [Lexer.lexeme, followedBy, mode_skipBlanks, inScript] at fits kind bytes ⊢
  generalize lexer.skipBlanks.rest = front at *
  have noLineAt : ∀ {input : List UInt8},
      token.bytes = input.take (Scan.script (front ++ back)).length →
        ¬ Scan.lineComment? input = some (Scan.script (front ++ back)) := by
    intro input bytes found
    rw [Scan.isLineComment_of_lineComment? found bytes] at noLine
    cases noLine
  have same : Scan.script front = Scan.script (front ++ back) := by
    refine Scan.script_of_front left ?_
    rintro (longer | ⟨line, _⟩)
    · exact Nat.not_lt_of_le fits longer
    · exact noLineAt bytes line
  rcases fitting with rfl | breaks
  · exact same.symm
  rw [kind, ← same] at noClose noError
  by_cases opens : (bytesOf "/*").isPrefixOf front = true
  · exact Scan.script_append_blank_of_block opens breaks noError
  · refine Scan.script_append_blank left breaks fun isOpen => ?_
    rcases isOpen.kind with isError | isClose | ⟨isComment, _⟩
    · exact noError isError
    · exact noClose isClose
    · rcases Scan.comment_of_isTrivia (by rw [isComment]; rfl) with line | block
      · rw [same] at line
        exact noLineAt (by rw [bytes, List.take_append_of_le_length fits]) line
      · rw [Scan.blockComment?, if_neg opens] at block
        cases block

/-! ## Runs -/

theorem after_followedBy {lexer : Lexer} {tail : List UInt8} {count : Nat}
    (stays : ∀ index < count, (lexer.after index).KeepsLexeme tail) :
    (lexer.followedBy tail).after count = (lexer.after count).followedBy tail := by
  induction count with
  | zero => rfl
  | succ count inductionHypothesis =>
      have earlier := inductionHypothesis fun index before => stays index (by omega)
      rw [after, earlier, (stays count (Nat.lt_succ_self _)).next]
      rfl

theorem token_followedBy {lexer : Lexer} {tail : List UInt8} {count : Nat}
    (stays : ∀ index ≤ count, (lexer.after index).KeepsLexeme tail) :
    (lexer.followedBy tail).token count = lexer.token count := by
  rw [token, after_followedBy fun index before => stays index (Nat.le_of_lt before),
    (stays count (Nat.le_refl _)).next]
  rfl

theorem tokens_eq_firstTokens (count : Nat) :
    ∀ lexer : Lexer, (∀ index < count, (lexer.token index).kind ≠ .eof) →
      lexer.tokens = lexer.firstTokens count ++ (lexer.after count).tokens := by
  induction count with
  | zero => exact fun _ _ => rfl
  | succ count inductionHypothesis =>
      intro lexer goesOn
      have first : lexer.next.1.kind ≠ .eof := goesOn 0 (Nat.succ_pos _)
      have later := inductionHypothesis lexer.next.2 fun index before => by
        rw [token_next]
        exact goesOn (index + 1) (Nat.succ_lt_succ before)
      rw [tokens_of_ne_eof first, later, firstTokens, after_next]
      rfl

theorem stop_token_le (lexer : Lexer) {index count : Nat} (before : index ≤ count) :
    (lexer.token index).stop ≤ (lexer.token count).stop := by
  induction count, before using Nat.le_induction with
  | base => exact Nat.le_refl _
  | succ count _ inductionHypothesis =>
      have cuts := lexer.after_cuts (count + 1)
      have start := cuts.start
      rw [(lexer.after_cuts count).offset] at start
      refine Nat.le_trans inductionHypothesis ?_
      calc (lexer.token count).stop
          ≤ (lexer.token (count + 1)).start := start ▸ Nat.le_add_right _ _
        _ ≤ (lexer.token (count + 1)).stop := Nat.le_add_right _ _

def movedBy (count : Nat) (lexer : Lexer) : Lexer := { lexer with offset := lexer.offset + count }

theorem skipBlanks_movedBy (lexer : Lexer) (count : Nat) :
    (lexer.movedBy count).skipBlanks = lexer.skipBlanks.movedBy count := by
  obtain ⟨shortTags, mode, offset, rest⟩ := lexer
  cases mode with
  | page => rfl
  | script => simp [skipBlanks, skip, movedBy, Nat.add_right_comm]

theorem next_movedBy (lexer : Lexer) (count : Nat) : (lexer.movedBy count).next =
    (lexer.next.1.movedBy count, lexer.next.2.movedBy count) := by
  have lexeme : (lexer.skipBlanks.movedBy count).lexeme = lexer.skipBlanks.lexeme := rfl
  rw [next, skipBlanks_movedBy, lexeme]
  simp [next, take, skip, movedBy, Token.movedBy, Nat.add_right_comm]

theorem tokens_movedBy (count : Nat) (size : Nat) :
    ∀ lexer : Lexer, lexer.rest.length < size →
      (lexer.movedBy count).tokens = lexer.tokens.map (Token.movedBy count) := by
  induction size with
  | zero => exact fun _ few => absurd few (Nat.not_lt_zero _)
  | succ size inductionHypothesis =>
      intro lexer few
      have next := lexer.next_movedBy count
      rcases lexer.next_cases with ⟨ends, _⟩ | ⟨goesOn, _, _, _, shorter⟩
      · have endsToo : (lexer.movedBy count).next.1.kind = .eof := by rw [next]; exact ends
        rw [tokens_of_eof ends, tokens_of_eof endsToo, next, List.map_singleton]
      · have goesOnToo : (lexer.movedBy count).next.1.kind ≠ .eof := by rw [next]; exact goesOn
        rw [tokens_of_ne_eof goesOn, tokens_of_ne_eof goesOnToo, next, List.map_cons,
          inductionHypothesis lexer.next.2 (by omega)]

theorem tokens_congr {one other : Lexer} (same : one.next = other.next) :
    one.tokens = other.tokens := by
  by_cases ends : one.next.1.kind = .eof
  · have endsToo : other.next.1.kind = .eof := by rw [← same]; exact ends
    rw [tokens_of_eof ends, tokens_of_eof endsToo, same]
  · have goesOn : other.next.1.kind ≠ .eof := by rw [← same]; exact ends
    rw [tokens_of_ne_eof ends, tokens_of_ne_eof goesOn, same]

/-- Blanks in front of script move what comes behind them. -/
theorem tokens_of_blanks {shortTags : Bool} {offset : Nat} {blanks rest : List UInt8}
    (blank : ∀ byte ∈ blanks, Byte.isBlank byte = true) :
    (Lexer.mk shortTags .script offset (blanks ++ rest)).tokens =
      (Lexer.mk shortTags .script offset rest).tokens.map (Token.movedBy blanks.length) := by
  rw [← tokens_movedBy blanks.length _ _ (Nat.lt_succ_self _)]
  apply tokens_congr
  have skipped : (Lexer.mk shortTags .script offset (blanks ++ rest)).skipBlanks =
      ((Lexer.mk shortTags .script offset rest).movedBy blanks.length).skipBlanks := by
    simp [skipBlanks, skip, movedBy, List.takeWhile_append_of_pos blank, Nat.add_assoc]
  rw [next, next, skipped]

/-! ## The source cut at the end of a token -/

section CutsStream
variable {shortTags : Bool} {front back : List UInt8} {index : Nat}

theorem limit_after (shortTags : Bool) (front : List UInt8) (index : Nat) :
    ((ofSource shortTags front).after index).limit = front.length := by
  have inside := (ofSource_inside shortTags front).after index
  rw [limit, inside.rest_eq, List.length_drop, Nat.add_sub_cancel' inside.offset_le]

/-- The token at the index ends where the front does, and a blank makes it no longer. -/
structure EndsFront (shortTags : Bool) (front back : List UInt8) (index : Nat) : Prop where
  inScript : ((ofSource shortTags (front ++ back)).after index).mode = .script
  goesOn : ((ofSource shortTags (front ++ back)).token index).kind ≠ .eof
  noClose : ((ofSource shortTags (front ++ back)).token index).kind ≠ .closeTag
  noError : ((ofSource shortTags (front ++ back)).token index).kind ≠ .error
  noLine : ((ofSource shortTags (front ++ back)).token index).isLineComment = false
  stop : ((ofSource shortTags (front ++ back)).token index).stop = front.length

variable (ends : EndsFront shortTags front back index)
include ends

theorem EndsFront.goesOn_of_le {earlier : Nat} (before : earlier ≤ index) :
    ((ofSource shortTags (front ++ back)).token earlier).kind ≠ .eof := by
  intro isEnd
  have last := (token_eq_of_eof (ofSource_inside shortTags (front ++ back)) isEnd
    (index - earlier)).1
  rw [Nat.add_sub_cancel' before] at last
  exact ends.goesOn (by rw [last])

/-- The tokens up to this one are those of the front, whether the rest of the source follows or a
blank does. -/
theorem EndsFront.keepsLexeme {tail : List UInt8} (fitting : tail = back ∨ StartsWithBlank tail) :
    ∀ earlier ≤ index, ((ofSource shortTags front).after earlier).KeepsLexeme tail := by
  -- The rest of the source comes first, since the tokens of the source are where they are with it.
  suffices both : ∀ earlier ≤ index, ∀ tail, tail = back ∨ StartsWithBlank tail →
      ((ofSource shortTags front).after earlier).KeepsLexeme tail from
    fun earlier before => both earlier before tail fitting
  intro earlier
  induction earlier using Nat.strong_induction_on with
  | _ earlier inductionHypothesis =>
      intro before tail fitting
      have here : (ofSource shortTags (front ++ back)).after earlier =
          ((ofSource shortTags front).after earlier).followedBy back :=
        after_followedBy fun other less =>
          inductionHypothesis other less (by omega) back (.inl rfl)
      have inside : ∀ other ≤ index,
          ((ofSource shortTags (front ++ back)).token other).stop ≤
            ((ofSource shortTags front).after earlier).limit := by
        intro other atMost
        rw [limit_after, ← ends.stop]
        exact stop_token_le _ atMost
      have goesOnHere := ends.goesOn_of_le before
      have insideHere := inside earlier before
      rw [token, here] at goesOnHere insideHere
      rcases Nat.eq_or_lt_of_le before with rfl | less
      · have mode := ends.inScript
        have noClose := ends.noClose
        have noError := ends.noError
        have noLine := ends.noLine
        rw [here] at mode
        rw [token, here] at noClose noError noLine
        have inScript : ((ofSource shortTags front).after earlier).mode = .script := mode
        exact keepsLexeme_of_last inScript goesOnHere insideHere noClose noError noLine fitting
      · have goesOnNext := ends.goesOn_of_le less
        have insideNext := inside (earlier + 1) less
        rw [token, after, here] at goesOnNext insideNext
        exact keepsLexeme_of_middle goesOnHere insideHere goesOnNext insideNext fitting

/-- At the cut the front is used up, and the lexer is in script. -/
theorem EndsFront.after_succ :
    (ofSource shortTags front).after (index + 1) = ⟨shortTags, .script, front.length, []⟩ := by
  have atCut : (ofSource shortTags (front ++ back)).after (index + 1) =
      ((ofSource shortTags front).after (index + 1)).followedBy back :=
    after_followedBy fun other less => ends.keepsLexeme (.inl rfl) other (Nat.le_of_lt_succ less)
  have cuts := (ofSource shortTags (front ++ back)).after_cuts index
  have inside := (ofSource_inside shortTags front).after (index + 1)
  have offset : ((ofSource shortTags front).after (index + 1)).offset = front.length := by
    have offset := cuts.offset
    rw [atCut, ends.stop] at offset
    exact offset
  have mode : ((ofSource shortTags front).after (index + 1)).mode = .script := by
    have mode := cuts.mode
    rw [atCut, ends.inScript] at mode
    refine mode.trans ?_
    have noClose := ends.noClose
    revert noClose
    cases ((ofSource shortTags (front ++ back)).token index).kind <;> simp [Mode.after]
  have rest : ((ofSource shortTags front).after (index + 1)).rest = [] := by
    rw [inside.rest_eq, offset, List.drop_length]
  calc (ofSource shortTags front).after (index + 1)
      = ⟨((ofSource shortTags front).after (index + 1)).shortTags,
          ((ofSource shortTags front).after (index + 1)).mode,
          ((ofSource shortTags front).after (index + 1)).offset,
          ((ofSource shortTags front).after (index + 1)).rest⟩ := rfl
    _ = ⟨shortTags, .script, front.length, []⟩ := by
        rw [shortTags_after, mode, offset, rest]
        rfl

theorem EndsFront.tokens {tail : List UInt8} (fitting : tail = back ∨ StartsWithBlank tail) :
    (ofSource shortTags (front ++ tail)).tokens =
      (ofSource shortTags (front ++ back)).firstTokens (index + 1) ++
        (Lexer.mk shortTags .script front.length tail).tokens := by
  have same : ∀ other ≤ index, (ofSource shortTags (front ++ tail)).token other =
      (ofSource shortTags (front ++ back)).token other := by
    intro other before
    have alone : ∀ {more : List UInt8}, more = back ∨ StartsWithBlank more →
        (ofSource shortTags (front ++ more)).token other =
          (ofSource shortTags front).token other := fun fitting =>
      token_followedBy fun earlier less =>
        ends.keepsLexeme fitting earlier (Nat.le_trans less before)
    exact (alone fitting).trans (alone (.inl rfl)).symm
  have atCut : (ofSource shortTags (front ++ tail)).after (index + 1) =
      ((ofSource shortTags front).after (index + 1)).followedBy tail :=
    after_followedBy fun other less => ends.keepsLexeme fitting other (Nat.le_of_lt_succ less)
  rw [tokens_eq_firstTokens (index + 1), atCut, ends.after_succ, firstTokens_eq_map,
    firstTokens_eq_map]
  · refine congrArg (· ++ _) (List.map_congr_left fun other member => ?_)
    exact same other (Nat.le_of_lt_succ (List.mem_range.mp member))
  · intro other less
    rw [same other (Nat.le_of_lt_succ less)]
    exact ends.goesOn_of_le (Nat.le_of_lt_succ less)

theorem EndsFront.tokens_of_spaced {blanks : List UInt8}
    (blank : ∀ byte ∈ blanks, Byte.isBlank byte = true) :
    (ofSource shortTags (front ++ (blanks ++ back))).tokens =
      (ofSource shortTags (front ++ back)).tokens.map
        (Token.shifted front.length blanks.length) := by
  have fitting : blanks ++ back = back ∨ StartsWithBlank (blanks ++ back) := by
    cases blanks with
    | nil => exact .inl rfl
    | cons byte more =>
        right
        rintro first ⟨⟩
        exact blank byte (List.mem_cons_self ..)
  rw [ends.tokens fitting, ends.tokens (.inl rfl), List.map_append, tokens_of_blanks blank]
  congr 1
  · rw [firstTokens_eq_map, List.map_map]
    refine (List.map_congr_left fun other member => ?_).symm
    have before : other ≤ index := Nat.le_of_lt_succ (List.mem_range.mp member)
    have covers := start_lt_stop (ends.goesOn_of_le before)
    have inside := stop_token_le (ofSource shortTags (front ++ back)) before
    rw [ends.stop] at inside
    exact if_pos (Nat.lt_of_lt_of_le covers inside)
  · refine List.map_congr_left fun token member => ?_
    have after := (tokens_stream _).after_offset token member
    rw [Token.shifted, if_neg (Nat.not_lt_of_le after)]

end CutsStream

end Lexer

open Lexer in
/-- Blanks at the end of a token of script change no token. Those behind them are moved. This leaves
out close tags, errors, the end of file and line comments. -/
theorem tokens_spaced (shortTags : Bool) (source blanks : List UInt8) (index : Nat)
    (inScript : ((ofSource shortTags source).after index).mode = .script)
    (goesOn : ((ofSource shortTags source).token index).kind ∉ [.closeTag, .error, .eof])
    (noLine : ((ofSource shortTags source).token index).isLineComment = false)
    (blank : ∀ byte ∈ blanks, Byte.isBlank byte = true) :
    (ofSource shortTags
        (source.take ((ofSource shortTags source).token index).stop ++ blanks ++
          source.drop ((ofSource shortTags source).token index).stop)).tokens =
      (ofSource shortTags source).tokens.map
        (Token.shifted ((ofSource shortTags source).token index).stop blanks.length) := by
  generalize stop_eq : ((ofSource shortTags source).token index).stop = stop
  have inside : stop ≤ source.length := by
    rw [← stop_eq]
    exact ((ofSource shortTags source).after_cuts index).stop_le
      ((ofSource_inside shortTags source).after index)
  have parts := List.take_append_drop stop source
  have long : (source.take stop).length = stop := by
    rw [List.length_take, Nat.min_eq_left inside]
  simp only [List.mem_cons, List.not_mem_nil, or_false, not_or] at goesOn
  have ends : EndsFront shortTags (source.take stop) (source.drop stop) index := by
    constructor <;> rw [parts]
    · exact inScript
    · exact goesOn.2.2
    · exact goesOn.1
    · exact goesOn.2.1
    · exact noLine
    · rw [long, stop_eq]
  have spaced := ends.tokens_of_spaced blank
  rwa [parts, long, ← List.append_assoc] at spaced

open Lexer in
/-- The second point begins a number of its own, with a blank in front of it or not. -/
theorem tokens_spaced_points :
    ((ofSource false (bytesOf "<?php 1..2;")).token 1 = ⟨.decimal, 6, bytesOf "1."⟩) ∧
      (ofSource false (bytesOf "<?php 1. .2;")).tokens =
        (ofSource false (bytesOf "<?php 1..2;")).tokens.map (Token.shifted 8 1) := by
  have token : (ofSource false (bytesOf "<?php 1..2;")).token 1 = ⟨.decimal, 6, bytesOf "1."⟩ := by
    decide +kernel
  have spaced := tokens_spaced false (bytesOf "<?php 1..2;") [32] 1 (by decide +kernel)
    (by rw [token]; decide) (by rw [token]; decide) (List.forall_mem_singleton.mpr rfl)
  rw [token] at spaced
  exact ⟨token, spaced⟩

end PhpTree
