import PhpTree.Proofs.Passage

/-! # Skipping a statement that lies too deep

Such a statement is passed over without being read.  One counter stands for braces,
parentheses and square brackets alike, so what it does is compared with what the
brackets mean: a stretch of tokens is nested when every bracket in it is closed by its
own kind, in order.  Up to the end of the block around it the tokens ahead are nested,
and then the skip passes over a nested stretch, stays inside the block, and stops
where the statement first ends. -/
set_option autoImplicit false
namespace PhpTree

/-! ## Brackets -/

inductive Bracket where
  | brace
  | paren
  | square
deriving DecidableEq

namespace TokenKind

def opens? : TokenKind → Option Bracket
  | .openBrace => some .brace
  | .openParen => some .paren
  | .openBracket => some .square
  | _ => none

def closes? : TokenKind → Option Bracket
  | .closeBrace => some .brace
  | .closeParen => some .paren
  | .closeBracket => some .square
  | _ => none

theorem closes?_of_opens? {kind : TokenKind} {bracket : Bracket}
    (opens : kind.opens? = some bracket) : kind.closes? = none := by
  cases kind <;> first | rfl | cases opens

theorem closes?_eq_brace {kind : TokenKind} :
    kind.closes? = some .brace ↔ kind = .closeBrace := by
  cases kind <;> simp [closes?]

end TokenKind

/-- Every bracket that is opened is closed by its own kind, the last one first. -/
inductive Nested : List Token → Prop
  | nil : Nested []
  | plain {token : Token} {rest : List Token} (noOpening : token.kind.opens? = none)
      (noClosing : token.kind.closes? = none) (nested : Nested rest) : Nested (token :: rest)
  | group {opening closing : Token} {inner rest : List Token} {bracket : Bracket}
      (opens : opening.kind.opens? = some bracket) (inside : Nested inner)
      (closes : closing.kind.closes? = some bracket) (nested : Nested rest) :
      Nested (opening :: (inner ++ closing :: rest))

namespace Nested

theorem of_plain_cons {token : Token} {rest : List Token} (noOpening : token.kind.opens? = none)
    (nested : Nested (token :: rest)) : Nested rest := by
  cases nested with
  | plain _ _ nested => exact nested
  | group opens => simp [noOpening] at opens

theorem of_open_cons {token : Token} {rest : List Token} {bracket : Bracket}
    (opens : token.kind.opens? = some bracket) (nested : Nested (token :: rest)) :
    ∃ inner closing left, rest = inner ++ closing :: left ∧ Nested inner ∧
      closing.kind.closes? ≠ none ∧ Nested left := by
  cases nested with
  | plain noOpening => simp [noOpening] at opens
  | group _ inside closes nested => exact ⟨_, _, _, rfl, inside, by simp [closes], nested⟩

/-- The first closing bracket that nothing in front of it opened stands at one place: where one
reading of the tokens finds it, any other does. -/
theorem closer_unique {inner : List Token} (inside : Nested inner) :
    ∀ {other rest left : List Token} {closing last : Token}, Nested other →
      closing.kind.closes? ≠ none → last.kind.closes? ≠ none →
      inner ++ closing :: rest = other ++ last :: left →
      inner = other ∧ closing :: rest = last :: left := by
  induction inside with
  | nil =>
      intro other rest left closing last nested closes _ same
      cases nested with
      | nil => exact ⟨rfl, same⟩
      | plain _ noClosing _ =>
          rw [(List.cons.inj same).1] at closes
          exact absurd noClosing closes
      | group opens =>
          rw [(List.cons.inj same).1] at closes
          exact absurd (TokenKind.closes?_of_opens? opens) closes
  | plain noOpening noClosing _ inductionHypothesis =>
      intro other rest left closing last nested closes lastCloses same
      cases nested with
      | nil =>
          rw [← (List.cons.inj same).1] at lastCloses
          exact absurd noClosing lastCloses
      | plain _ _ nested =>
          obtain ⟨rfl, sameRest⟩ := List.cons.inj same
          obtain ⟨rfl, sameEnd⟩ := inductionHypothesis nested closes lastCloses sameRest
          exact ⟨rfl, sameEnd⟩
      | group opens =>
          rw [← (List.cons.inj same).1] at opens
          simp [noOpening] at opens
  | group opens _ closes _ insideHypothesis restHypothesis =>
      intro other rest left closing last nested closingCloses lastCloses same
      cases nested with
      | nil =>
          rw [← (List.cons.inj same).1] at lastCloses
          exact absurd (TokenKind.closes?_of_opens? opens) lastCloses
      | plain noOpening =>
          rw [(List.cons.inj same).1] at opens
          simp [noOpening] at opens
      | group _ otherInside otherCloses otherRest =>
          simp only [List.cons_append, List.append_assoc, List.cons.injEq] at same
          obtain ⟨rfl, sameTail⟩ := same
          obtain ⟨rfl, sameCloser⟩ :=
            insideHypothesis otherInside (by simp [closes]) (by simp [otherCloses]) sameTail
          obtain ⟨rfl, sameRest⟩ := List.cons.inj sameCloser
          obtain ⟨rfl, sameEnd⟩ := restHypothesis otherRest closingCloses lastCloses sameRest
          exact ⟨rfl, sameEnd⟩

theorem of_group_append {opening closing : Token} {inner rest : List Token} {bracket : Bracket}
    (opens : opening.kind.opens? = some bracket) (inside : Nested inner)
    (closes : closing.kind.closes? ≠ none)
    (nested : Nested (opening :: (inner ++ closing :: rest))) : Nested rest := by
  obtain ⟨other, last, left, same, otherInside, lastCloses, nested⟩ := of_open_cons opens nested
  obtain ⟨-, sameEnd⟩ := inside.closer_unique otherInside closes lastCloses same
  rw [(List.cons.inj sameEnd).2]
  exact nested

theorem append {front rest : List Token} (nested : Nested front) (more : Nested rest) :
    Nested (front ++ rest) := by
  induction nested with
  | nil => exact more
  | plain noOpening noClosing _ inductionHypothesis =>
      exact .plain noOpening noClosing inductionHypothesis
  | group opens inside closes _ _ inductionHypothesis =>
      simpa using group opens inside closes inductionHypothesis

theorem of_append {front rest : List Token} (nested : Nested front) (all : Nested (front ++ rest)) :
    Nested rest := by
  induction nested with
  | nil => exact all
  | plain noOpening _ _ inductionHypothesis =>
      exact inductionHypothesis (of_plain_cons noOpening all)
  | @group opening closing inner left _ opens inside closes _ _ inductionHypothesis =>
      have regrouped : Nested (opening :: (inner ++ closing :: (left ++ rest))) := by
        simpa using all
      exact inductionHypothesis (of_group_append opens inside (by simp [closes]) regrouped)

theorem single_group {opening closing : Token} {inner : List Token} {bracket : Bracket}
    (opens : opening.kind.opens? = some bracket) (inside : Nested inner)
    (closes : closing.kind.closes? = some bracket) : Nested (opening :: (inner ++ [closing])) :=
  .group opens inside closes .nil

/-- A bracket is not closed inside what it holds. -/
theorem not_open_cons {opening : Token} {front back : List Token} {bracket : Bracket}
    (inside : Nested (front ++ back)) (opens : opening.kind.opens? = some bracket) :
    ¬ Nested (opening :: front) := by
  intro nested
  obtain ⟨inner, closing, left, rfl, innerNested, closes, -⟩ := of_open_cons opens nested
  have same : (inner ++ closing :: left ++ back) ++ closing :: [] =
      inner ++ closing :: (left ++ back ++ [closing]) := by simp
  obtain ⟨longer, -⟩ := inside.closer_unique innerNested closes closes same
  simpa using congrArg List.length longer

end Nested

/-! ## Where a statement ends -/

/-- The statement may end between the tokens passed over and those left of the block. -/
inductive StatementEnds : List Token → List Token → Prop
  | afterSemicolon {before left : List Token} {token : Token} (outside : Nested before)
      (semicolon : token.kind = .semicolon) : StatementEnds (before ++ [token]) left
  | afterBrace {before left : List Token} {token : Token} (brace : token.kind = .closeBrace)
      (closed : Nested (before ++ [token])) : StatementEnds (before ++ [token]) left
  | beforeCloseTag {passed left : List Token} {token : Token} (outside : Nested passed)
      (tag : token.kind = .closeTag) : StatementEnds passed (token :: left)
  | atEnd {passed : List Token} : StatementEnds passed []

/-- The first place where the statement may end, with all brackets closed again. -/
structure EndsFirst (passed left : List Token) : Prop where
  nested : Nested passed
  ends : StatementEnds passed left
  first : ∀ earlier later, earlier ++ later = passed ++ left → StatementEnds earlier later →
    passed.length ≤ earlier.length

namespace StatementEnds

variable {front earlier later : List Token}

theorem append (nested : Nested front) (ends : StatementEnds earlier later) :
    StatementEnds (front ++ earlier) later := by
  cases ends with
  | afterSemicolon outside semicolon =>
      rw [← List.append_assoc]
      exact .afterSemicolon (nested.append outside) semicolon
  | afterBrace brace closed =>
      have all := nested.append closed
      rw [← List.append_assoc] at all ⊢
      exact .afterBrace brace all
  | beforeCloseTag outside tag => exact .beforeCloseTag (nested.append outside) tag
  | atEnd => exact .atEnd

theorem of_append (nested : Nested front)
    (noEnd : ∀ token ∈ front.getLast?, token.kind ≠ .semicolon ∧ token.kind ≠ .closeBrace)
    (ends : StatementEnds (front ++ earlier) later) : StatementEnds earlier later := by
  generalize same : front ++ earlier = passed at ends
  cases ends with
  | @afterSemicolon before _ token outside semicolon =>
      rcases List.eq_nil_or_concat' earlier with rfl | ⟨rest, last, rfl⟩
      · rw [List.append_nil] at same
        exact absurd semicolon (noEnd token (by simp [same])).1
      · rw [← List.append_assoc] at same
        obtain ⟨rfl, lastIs⟩ := List.append_inj' same rfl
        obtain rfl : last = token := by simpa using lastIs
        exact .afterSemicolon (nested.of_append outside) semicolon
  | @afterBrace before _ token brace closed =>
      rcases List.eq_nil_or_concat' earlier with rfl | ⟨rest, last, rfl⟩
      · rw [List.append_nil] at same
        exact absurd brace (noEnd token (by simp [same])).2
      · rw [← same] at closed
        rw [← List.append_assoc] at same
        obtain ⟨-, lastIs⟩ := List.append_inj' same rfl
        obtain rfl : last = token := by simpa using lastIs
        exact .afterBrace brace (nested.of_append closed)
  | beforeCloseTag outside tag =>
      subst same
      exact .beforeCloseTag (nested.of_append outside) tag
  | atEnd => exact .atEnd

theorem of_nil {token : Token} (ends : StatementEnds [] (token :: later)) :
    token.kind = .closeTag := by
  generalize same : ([] : List Token) = passed at ends
  cases ends with
  | afterSemicolon => simp at same
  | afterBrace => simp at same
  | beforeCloseTag _ tag => exact tag

/-- With the end of the block still ahead, a statement that ends behind a bracket has closed it. -/
theorem closes_of_open {opening token : Token} {bracket : Bracket}
    (opens : opening.kind.opens? = some bracket)
    (ends : StatementEnds (opening :: earlier) (token :: later)) :
    ∃ front, front <+: earlier ∧ Nested (opening :: front) := by
  generalize same : opening :: earlier = passed at ends
  cases ends with
  | @afterSemicolon before _ token outside semicolon =>
      cases before with
      | nil =>
          rw [(List.cons.inj same).1, semicolon] at opens
          cases opens
      | cons first front =>
          obtain ⟨rfl, rfl⟩ := List.cons.inj same
          exact ⟨front, List.prefix_append front _, outside⟩
  | afterBrace _ closed => exact ⟨earlier, List.prefix_rfl, same ▸ closed⟩
  | beforeCloseTag outside _ => exact ⟨earlier, List.prefix_rfl, same ▸ outside⟩

end StatementEnds

/-- A statement that begins with these tokens does not end before the last of them. -/
def EndsNoEarlier (front back : List Token) : Prop :=
  ∀ earlier token more, front = earlier ++ token :: more →
    ¬ StatementEnds earlier (token :: (more ++ back))

theorem endsNoEarlier_single {token : Token} (noTag : token.kind ≠ .closeTag) (back : List Token) :
    EndsNoEarlier [token] back := by
  intro earlier other more same ends
  cases earlier with
  | nil =>
      obtain ⟨rfl, -⟩ := List.cons.inj same
      exact noTag ends.of_nil
  | cons first earlier => simp at same

theorem endsNoEarlier_group {opening closing : Token} {inner : List Token} {bracket : Bracket}
    (opens : opening.kind.opens? = some bracket) (inside : Nested inner) (back : List Token) :
    EndsNoEarlier (opening :: (inner ++ [closing])) back := by
  intro earlier token more same ends
  cases earlier with
  | nil =>
      obtain ⟨rfl, -⟩ := List.cons.inj same
      rw [ends.of_nil] at opens
      cases opens
  | cons first earlier =>
      rw [List.cons_append] at same
      obtain ⟨rfl, split⟩ := List.cons.inj same
      obtain ⟨front, ⟨rest, rfl⟩, nested⟩ := ends.closes_of_open opens
      rw [List.append_assoc] at split
      obtain ⟨back, rfl⟩ : front <+: inner := by
        refine List.prefix_of_prefix_length_le ⟨_, split.symm⟩ (List.prefix_append inner _) ?_
        have lengths := congrArg List.length split
        simp only [List.length_append, List.length_cons, List.length_nil] at lengths
        omega
      exact inside.not_open_cons opens nested

namespace EndsFirst

variable {front passed left : List Token}

/-- The first end is not missed when nothing in front of it ends the statement. -/
theorem of_endsNoEarlier (nested : Nested passed) (ends : StatementEnds passed left)
    (goesOn : EndsNoEarlier passed left) : EndsFirst passed left where
  nested := nested
  ends := ends
  first := by
    intro earlier later same endsEarlier
    rcases List.append_eq_append_iff.mp same with ⟨more, rfl, rfl⟩ | ⟨more, rfl, rfl⟩
    · cases more with
      | nil => simp
      | cons token more => exact absurd endsEarlier (goesOn earlier token more rfl)
    · simp

theorem at_once (ends : StatementEnds [] left) : EndsFirst [] left :=
  of_endsNoEarlier .nil ends fun _ _ _ same => by simp at same

theorem append (nested : Nested front) (goesOn : EndsNoEarlier front (passed ++ left))
    (noEnd : ∀ token ∈ front.getLast?, token.kind ≠ .semicolon ∧ token.kind ≠ .closeBrace)
    (endsFirst : EndsFirst passed left) : EndsFirst (front ++ passed) left where
  nested := nested.append endsFirst.nested
  ends := endsFirst.ends.append nested
  first := by
    intro earlier later same endsEarlier
    rw [List.append_assoc] at same
    rcases List.append_eq_append_iff.mp same with ⟨more, rfl, rfl⟩ | ⟨more, rfl, sameRest⟩
    · cases more with
      | nil =>
          have atStart : StatementEnds [] (passed ++ left) :=
            .of_append nested noEnd (by simpa using endsEarlier)
          have atMost : passed.length ≤ 0 := endsFirst.first [] _ rfl atStart
          simp only [List.append_nil, List.length_append]
          omega
      | cons token more => exact absurd endsEarlier (goesOn earlier token more rfl)
    · have atLeast := endsFirst.first more later sameRest.symm (endsEarlier.of_append nested noEnd)
      simpa using atLeast

theorem semicolon {token : Token} (semicolon : token.kind = .semicolon) :
    EndsFirst [token] left := by
  have plain : Nested [token] :=
    .plain (by rw [semicolon]; rfl) (by rw [semicolon]; rfl) .nil
  exact .of_endsNoEarlier plain (.afterSemicolon .nil semicolon)
    (endsNoEarlier_single (by simp [semicolon]) left)

theorem braces {opening closing : Token} {inner : List Token}
    (opens : opening.kind.opens? = some .brace) (inside : Nested inner)
    (closes : closing.kind.closes? = some .brace) :
    EndsFirst (opening :: (inner ++ [closing])) left := by
  have nested := Nested.single_group opens inside closes
  have ends : StatementEnds (opening :: inner ++ [closing]) left :=
    .afterBrace (TokenKind.closes?_eq_brace.mp closes) nested
  exact .of_endsNoEarlier nested ends (endsNoEarlier_group opens inside left)

theorem plain_cons {token : Token} (noOpening : token.kind.opens? = none)
    (noClosing : token.kind.closes? = none) (noSemicolon : token.kind ≠ .semicolon)
    (noTag : token.kind ≠ .closeTag) (endsFirst : EndsFirst passed left) :
    EndsFirst (token :: passed) left := by
  have noBrace : token.kind ≠ .closeBrace := by
    intro brace
    rw [brace] at noClosing
    cases noClosing
  exact endsFirst.append (.plain noOpening noClosing .nil) (endsNoEarlier_single noTag _)
    (by simpa using ⟨noSemicolon, noBrace⟩)

theorem group_append {opening closing : Token} {inner : List Token} {bracket : Bracket}
    (opens : opening.kind.opens? = some bracket) (inside : Nested inner)
    (closes : closing.kind.closes? = some bracket) (noBrace : bracket ≠ .brace)
    (endsFirst : EndsFirst passed left) :
    EndsFirst (opening :: (inner ++ closing :: passed)) left := by
  have noEnd : closing.kind ≠ .semicolon ∧ closing.kind ≠ .closeBrace := by
    constructor
    · intro semicolon
      rw [semicolon] at closes
      cases closes
    · intro closed
      rw [TokenKind.closes?_eq_brace.mpr closed] at closes
      exact noBrace (Option.some.inj closes).symm
  have lastIs : (opening :: inner ++ [closing]).getLast? = some closing := List.getLast?_concat
  rw [List.cons_append] at lastIs
  have appended := endsFirst.append (Nested.single_group opens inside closes)
    (endsNoEarlier_group opens inside _) (by simpa [lastIs] using noEnd)
  simpa using appended

end EndsFirst

/-! ## Passing over a statement -/

namespace Cursor

variable {context : Context} {cursor : Cursor} {token : Token} {rest : List Token} {opened : Nat}

theorem kind_of_tokens (ahead : cursor.tokens = token :: rest) : cursor.kind = token.kind := by
  rw [kind, (List.cons.inj ahead).1]

theorem tokens_advance (context : Context) (ahead : cursor.tokens = token :: rest)
    (more : rest ≠ []) :
    (cursor.advance context).tokens = rest := by
  have following := (List.cons.inj ahead).2
  cases items : cursor.following with
  | nil =>
      rw [items] at following
      exact absurd following.symm more
  | cons item left =>
      obtain ⟨errors, journal, equation, -⟩ := advance_cons context cursor item left items
      rw [equation, ← following, items]
      rfl

theorem skipBalanced_plain (noOpening : cursor.kind.opens? = none)
    (noClosing : cursor.kind.closes? = none) (goesOn : cursor.kind ≠ .eof)
    (noSemicolon : cursor.kind = .semicolon → opened ≠ 0)
    (noTag : cursor.kind = .closeTag → opened ≠ 0) (fuel : Nat) :
    cursor.skipBalanced context (fuel + 1) opened =
      (cursor.advance context).skipBalanced context fuel opened := by
  rw [skipBalanced]
  split <;> simp_all [TokenKind.opens?, TokenKind.closes?]

theorem skipBalanced_open {bracket : Bracket} (opens : cursor.kind.opens? = some bracket)
    (fuel : Nat) :
    skipBalanced context (fuel + 1) opened cursor =
      skipBalanced context fuel (opened + 1) (cursor.advance context) := by
  rw [skipBalanced]
  split <;> simp_all [TokenKind.opens?]

theorem skipBalanced_close {bracket : Bracket} (closes : cursor.kind.closes? = some bracket)
    (fuel : Nat) :
    skipBalanced context (fuel + 1) (opened + 2) cursor =
      skipBalanced context fuel (opened + 1) (cursor.advance context) := by
  rw [skipBalanced]
  split <;> simp_all [TokenKind.closes?]

theorem skipBalanced_close_last {bracket : Bracket} (closes : cursor.kind.closes? = some bracket)
    (fuel : Nat) :
    skipBalanced context (fuel + 1) 1 cursor =
      if bracket = .brace then cursor.advance context
      else skipBalanced context fuel 0 (cursor.advance context) := by
  rw [skipBalanced]
  split <;> simp_all [TokenKind.closes?] <;> simp [← closes]

/-- Outside all brackets the skip ends before a close tag, the brace of the block around it and the
end of the source. -/
theorem skipBalanced_stop
    (stops : cursor.kind = .closeTag ∨ cursor.kind = .closeBrace ∨ cursor.kind = .eof)
    (fuel : Nat) : skipBalanced context (fuel + 1) 0 cursor = cursor := by
  rw [skipBalanced]
  rcases stops with tag | brace | eof
  · simp [tag]
  · simp [brace]
  · simp [eof]

theorem skipBalanced_semicolon (semicolon : cursor.kind = .semicolon) (fuel : Nat) :
    skipBalanced context (fuel + 1) 0 cursor = cursor.advance context := by
  simp [skipBalanced, semicolon]

theorem forall_mem_of_group {property : Token → Prop} {opening closing : Token}
    {inner back : List Token}
    (all : ∀ token ∈ opening :: (inner ++ closing :: back), property token) :
    (∀ token ∈ inner, property token) ∧ ∀ token ∈ back, property token := by
  refine ⟨fun token member => all token ?_, fun token member => all token ?_⟩
  · exact List.mem_cons_of_mem _ (List.mem_append_left _ member)
  · exact List.mem_cons_of_mem _ (List.mem_append_right _ (List.mem_cons_of_mem _ member))

theorem skipBalanced_nested (context : Context) {inner : List Token} (nested : Nested inner) :
    ∀ {cursor : Cursor} {rest : List Token} (opened : Nat), cursor.tokens = inner ++ rest →
      rest ≠ [] → (∀ token ∈ inner, token.kind ≠ .eof) →
      ∃ after : Cursor, after.tokens = rest ∧ ∀ fuel,
        skipBalanced context (fuel + inner.length) (opened + 1) cursor =
          skipBalanced context fuel (opened + 1) after := by
  induction nested with
  | nil =>
      intro cursor rest opened ahead _ _
      exact ⟨cursor, ahead, fun fuel => rfl⟩
  | plain noOpening noClosing _ inductionHypothesis =>
      intro cursor rest opened ahead more noEof
      obtain ⟨goesOn, noEof⟩ := List.forall_mem_cons.mp noEof
      have here := kind_of_tokens ahead
      obtain ⟨after, left, skips⟩ := inductionHypothesis opened
        (tokens_advance context ahead (by simp [more])) more noEof
      refine ⟨after, left, fun fuel => ?_⟩
      rw [List.length_cons, ← Nat.add_assoc, skipBalanced_plain (here ▸ noOpening)
        (here ▸ noClosing) (here ▸ goesOn) (by simp) (by simp), skips]
  | @group opening closing inner back bracket opens _ closes _ insideHypothesis restHypothesis =>
      intro cursor rest opened ahead more noEof
      obtain ⟨innerGoesOn, backGoesOn⟩ := forall_mem_of_group noEof
      have entered : (cursor.advance context).tokens = inner ++ closing :: (back ++ rest) :=
        tokens_advance context (by simpa using ahead) (by simp)
      obtain ⟨before, atClosing, skipsInner⟩ :=
        insideHypothesis (opened + 1) entered (by simp) innerGoesOn
      obtain ⟨after, left, skipsBack⟩ := restHypothesis opened
        (tokens_advance context atClosing (by simp [more])) more backGoesOn
      refine ⟨after, left, fun fuel => ?_⟩
      have length : fuel + (opening :: (inner ++ closing :: back)).length =
          fuel + back.length + 1 + inner.length + 1 := by
        simp only [List.length_cons, List.length_append]
        omega
      rw [length, skipBalanced_open (kind_of_tokens ahead ▸ opens), skipsInner,
        skipBalanced_close (kind_of_tokens atClosing ▸ closes), skipsBack]

/-- Outside all brackets the skip goes on to the first end of the statement. -/
theorem skipBalanced_endsFirst {body : List Token} (nested : Nested body) :
    ∀ {cursor : Cursor} {closer : Token} {rest : List Token} {fuel : Nat},
      cursor.tokens = body ++ closer :: rest → closer.kind = .closeBrace ∨ closer.kind = .eof →
      (∀ token ∈ body, token.kind ≠ .eof) → body.length < fuel →
      ∃ passed left, body = passed ++ left ∧ EndsFirst passed left ∧
        (skipBalanced context fuel 0 cursor).tokens = left ++ closer :: rest := by
  induction nested with
  | nil =>
      intro cursor closer rest fuel ahead closes _ enough
      have here := kind_of_tokens ahead
      refine ⟨[], [], rfl, .at_once .atEnd, ?_⟩
      cases fuel with
      | zero => simp at enough
      | succ fuel => rw [skipBalanced_stop (.inr (here ▸ closes)), ahead]
  | @plain token body noOpening noClosing nested inductionHypothesis =>
      intro cursor closer rest fuel ahead closes noEof enough
      obtain ⟨goesOn, noEof⟩ := List.forall_mem_cons.mp noEof
      have here := kind_of_tokens ahead
      have next : (cursor.advance context).tokens = body ++ closer :: rest :=
        tokens_advance context ahead (by simp)
      cases fuel with
      | zero => simp at enough
      | succ fuel =>
          by_cases semicolon : token.kind = .semicolon
          · refine ⟨[token], body, rfl, .semicolon semicolon, ?_⟩
            rw [skipBalanced_semicolon (here.trans semicolon), next]
          · by_cases tag : token.kind = .closeTag
            · refine ⟨[], token :: body, rfl, .at_once (.beforeCloseTag .nil tag), ?_⟩
              rw [skipBalanced_stop (.inl (here.trans tag)), ahead]
            · obtain ⟨passed, left, rfl, endsFirst, stops⟩ :=
                inductionHypothesis next closes noEof (Nat.lt_of_succ_lt_succ enough)
              refine ⟨token :: passed, left, rfl,
                endsFirst.plain_cons noOpening noClosing semicolon tag, ?_⟩
              rw [skipBalanced_plain (here ▸ noOpening) (here ▸ noClosing) (here ▸ goesOn)
                (by simp [here, semicolon]) (by simp [here, tag]), stops]
  | @group opening closing inner back bracket opens inside closesBracket _ _ inductionHypothesis =>
      intro cursor closer rest fuel ahead closes noEof enough
      obtain ⟨innerGoesOn, backGoesOn⟩ := forall_mem_of_group noEof
      have entered : (cursor.advance context).tokens =
          inner ++ closing :: (back ++ closer :: rest) :=
        tokens_advance context (by simpa using ahead) (by simp)
      obtain ⟨before, atClosing, skips⟩ :=
        skipBalanced_nested context inside 0 entered (by simp) innerGoesOn
      have next : (before.advance context).tokens = back ++ closer :: rest :=
        tokens_advance context atClosing (by simp)
      obtain ⟨spare, rfl, fewer⟩ :
          ∃ spare, fuel = spare + 1 + inner.length + 1 ∧ back.length < spare := by
        simp only [List.length_cons, List.length_append] at enough
        exact ⟨fuel - 2 - inner.length, by omega⟩
      rw [skipBalanced_open (kind_of_tokens ahead ▸ opens), skips,
        skipBalanced_close_last (kind_of_tokens atClosing ▸ closesBracket)]
      by_cases brace : bracket = .brace
      · subst brace
        exact ⟨opening :: (inner ++ [closing]), back, by simp,
          .braces opens inside closesBracket, next⟩
      · rw [if_neg brace]
        obtain ⟨passed, left, rfl, endsFirst, stops⟩ :=
          inductionHypothesis next closes backGoesOn fewer
        exact ⟨opening :: (inner ++ closing :: passed), left, by simp,
          endsFirst.group_append opens inside closesBracket brace, stops⟩

/-- The tokens up to the end of the block are nested: a statement that lies too deep is passed over
to its first end, with its brackets closed again and the end of the block still ahead. -/
theorem skipStatement_keeps_block (context : Context) (cursor : Cursor) (body rest : List Token)
    (closer : Token) (ahead : cursor.tokens = body ++ closer :: rest)
    (closes : closer.kind = .closeBrace ∨ closer.kind = .eof)
    (noEof : ∀ token ∈ body, token.kind ≠ .eof) (nested : Nested body) :
    ∃ passed left, body = passed ++ left ∧ EndsFirst passed left ∧
      (cursor.skipStatement context).tokens = left ++ closer :: rest := by
  have enough : body.length < cursor.remaining := by
    rw [remaining_eq_length, ahead, List.length_append, List.length_cons]
    omega
  exact skipBalanced_endsFirst nested ahead closes noEof enough

theorem skipStatement_keeps_block_around_call :
    let parser := Parser.ofSource {} (bytesOf "<?php \x7b f(\x7b;\x7d); $b; \x7d $c;")
    let cursor := (parser.cursor.advance parser.context).advance parser.context
    let block : List Token := [⟨.openBrace, 10, bytesOf "\x7b"⟩, ⟨.semicolon, 11, bytesOf ";"⟩,
      ⟨.closeBrace, 12, bytesOf "\x7d"⟩]
    let rest : List Token := [⟨.semicolon, 14, bytesOf ";"⟩, ⟨.variableName, 16, bytesOf "$b"⟩,
      ⟨.semicolon, 18, bytesOf ";"⟩]
    let body : List Token := ⟨.identifier, 8, bytesOf "f"⟩ :: ⟨.openParen, 9, bytesOf "("⟩ ::
      (block ++ ⟨.closeParen, 13, bytesOf ")"⟩ :: rest)
    let closer : Token := ⟨.closeBrace, 20, bytesOf "\x7d"⟩
    cursor.tokens = body ++ closer :: cursor.tokens.drop 10 ∧
      ∃ passed left, body = passed ++ left ∧ EndsFirst passed left ∧
        (cursor.skipStatement parser.context).tokens =
          left ++ closer :: cursor.tokens.drop 10 := by
  intro parser cursor block rest body closer
  have ahead : cursor.tokens = body ++ closer :: cursor.tokens.drop 10 := by decide +kernel
  have noEof : ∀ token ∈ body, token.kind ≠ .eof := by decide +kernel
  have blockNested : Nested block := .single_group rfl (.plain rfl rfl .nil) rfl
  have restNested : Nested rest := .plain rfl rfl (.plain rfl rfl (.plain rfl rfl .nil))
  have nested : Nested body := .plain rfl rfl (.group rfl blockNested rfl restNested)
  exact ⟨ahead, skipStatement_keeps_block parser.context cursor body (cursor.tokens.drop 10)
    closer ahead (.inl rfl) noEof nested⟩

end Cursor
end PhpTree
