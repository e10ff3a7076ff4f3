import Mathlib.Data.List.Nodup

/-! # Texts that can be read back

What makes a written text unambiguous.  An escaping has a reader that takes one
character at a time and stops at a quote, so a quoted text shows where it ends.  A
number ends where the digits do.  A slot that is left out when it is empty is known to
be empty, as long as the slots have different keys. -/
set_option autoImplicit false
namespace PhpTree

/-! ## Words -/

/-- What follows a word: nothing that could belong to it. -/
def StopsWord (inWord : Char → Bool) (rest : List Char) : Prop :=
  ∀ next ∈ rest.head?, inWord next = false

section Words
variable {inWord : Char → Bool}

theorem StopsWord.nil : StopsWord inWord [] := by
  intro first member
  cases member

theorem StopsWord.cons {next : Char} {rest : List Char} (outside : inWord next = false) :
    StopsWord inWord (next :: rest) := by
  intro first member
  obtain rfl : next = first := Option.some.inj member
  exact outside

theorem takeWhile_word {word rest : List Char} (inside : ∀ char ∈ word, inWord char = true)
    (stops : StopsWord inWord rest) : (word ++ rest).takeWhile inWord = word := by
  have nothing : rest.takeWhile inWord = [] := by
    cases rest with
    | nil => rfl
    | cons next rest => simp [stops next rfl]
  rw [List.takeWhile_append_of_pos inside, nothing, List.append_nil]

/-- A word and what comes after it can be told from the text. -/
theorem word_append_inj {word other rest others : List Char}
    (inside : ∀ char ∈ word, inWord char = true) (otherInside : ∀ char ∈ other, inWord char = true)
    (stops : StopsWord inWord rest) (otherStops : StopsWord inWord others)
    (same : word ++ rest = other ++ others) : word = other ∧ rest = others := by
  have words := congrArg (List.takeWhile inWord) same
  rw [takeWhile_word inside stops, takeWhile_word otherInside otherStops] at words
  subst words
  exact ⟨rfl, List.append_cancel_left same⟩

end Words

/-! ## Numbers -/

def digitValue (digit : Char) : Nat :=
  if digit.toNat < 58 then digit.toNat - 48 else digit.toNat - 87

def numberOf (base : Nat) (digits : List Char) : Nat :=
  digits.foldl (fun value digit => base * value + digitValue digit) 0

def isHexDigit (character : Char) : Bool :=
  (48 ≤ character.toNat && character.toNat < 58) || (97 ≤ character.toNat && character.toNat < 103)

theorem digitChar_spec : ∀ digit < 16,
    digitValue (Nat.digitChar digit) = digit ∧ isHexDigit (Nat.digitChar digit) = true := by
  decide

section Digits
variable {base : Nat}

theorem numberOf_toDigits (several : 1 < base) (few : base ≤ 16) (value : Nat) :
    numberOf base (Nat.toDigits base value) = value := by
  induction value using Nat.strongRecOn with
  | ind value inductionHypothesis =>
      rw [Nat.toDigits_eq_if several]
      split
      · rename_i small
        have digit := (digitChar_spec value (Nat.lt_of_lt_of_le small few)).1
        simp [numberOf, digit]
      · rename_i large
        have smaller : value / base < value := Nat.div_lt_self (by omega) several
        have last := (digitChar_spec (value % base)
          (Nat.lt_of_lt_of_le (Nat.mod_lt value (by omega)) few)).1
        have front := inductionHypothesis (value / base) smaller
        rw [numberOf] at front ⊢
        rw [List.foldl_append, front]
        simp only [List.foldl_cons, List.foldl_nil, last]
        exact Nat.div_add_mod value base

theorem isHexDigit_of_mem_toDigits (several : 1 < base) (few : base ≤ 16) (value : Nat) :
    ∀ digit ∈ Nat.toDigits base value, isHexDigit digit = true := by
  induction value using Nat.strongRecOn with
  | ind value inductionHypothesis =>
      rw [Nat.toDigits_eq_if several]
      split
      · rename_i small
        have digit := (digitChar_spec value (Nat.lt_of_lt_of_le small few)).2
        simpa using digit
      · rename_i large
        have smaller : value / base < value := Nat.div_lt_self (by omega) several
        have last := (digitChar_spec (value % base)
          (Nat.lt_of_lt_of_le (Nat.mod_lt value (by omega)) few)).2
        intro digit member
        rcases List.mem_append.mp member with earlier | same
        · exact inductionHypothesis (value / base) smaller digit earlier
        · rw [List.mem_singleton.mp same]
          exact last

theorem toDigits_append_inj (several : 1 < base) (few : base ≤ 16) {value other : Nat}
    {rest others : List Char} (ends : StopsWord isHexDigit rest)
    (otherEnds : StopsWord isHexDigit others)
    (same : Nat.toDigits base value ++ rest = Nat.toDigits base other ++ others) :
    value = other ∧ rest = others := by
  obtain ⟨digits, rests⟩ := word_append_inj (isHexDigit_of_mem_toDigits several few value)
    (isHexDigit_of_mem_toDigits several few other) ends otherEnds same
  refine ⟨?_, rests⟩
  rw [← numberOf_toDigits several few value, digits, numberOf_toDigits several few other]

end Digits

/-! ## Quoted texts -/

/-- The reader takes back what was written for a character, and reads nothing at a quote. -/
structure Reverses (escape : Char → List Char) (unescape : List Char → Option (Char × List Char)) :
    Prop where
  undoes : ∀ character rest, unescape (escape character ++ rest) = some (character, rest)
  stops : ∀ rest, unescape ('"' :: rest) = none

/-- A quoted text and what comes after it can be told from what is written. -/
theorem Reverses.quoted_inj {escape : Char → List Char}
    {unescape : List Char → Option (Char × List Char)} (reverses : Reverses escape unescape)
    {text other rest others : List Char}
    (same : text.flatMap escape ++ '"' :: rest = other.flatMap escape ++ '"' :: others) :
    text = other ∧ rest = others := by
  induction text generalizing other with
  | nil =>
      cases other with
      | nil => exact ⟨rfl, (List.cons.inj same).2⟩
      | cons character other =>
          have read := congrArg unescape same
          rw [List.flatMap_cons, List.append_assoc, reverses.undoes, List.flatMap_nil,
            List.nil_append, reverses.stops] at read
          cases read
  | cons character text inductionHypothesis =>
      cases other with
      | nil =>
          have read := congrArg unescape same
          rw [List.flatMap_cons, List.append_assoc, reverses.undoes, List.flatMap_nil,
            List.nil_append, reverses.stops] at read
          cases read
      | cons another other =>
          have read := congrArg unescape same
          rw [List.flatMap_cons, List.flatMap_cons, List.append_assoc, List.append_assoc,
            reverses.undoes, reverses.undoes] at read
          obtain ⟨rfl, tails⟩ := Prod.mk.inj (Option.some.inj read)
          obtain ⟨rfl, rests⟩ := inductionHypothesis tails
          exact ⟨rfl, rests⟩

/-- A reader of escapes.  Behind a backslash, `u` announces a code, and a mark of the table stands
for the character next to it; any other character stands for itself. -/
def readEscaped (table : List (Char × Char)) (readCode : List Char → Option (Char × List Char)) :
    List Char → Option (Char × List Char)
  | [] => none
  | first :: rest =>
    if first = '"' then none
    else if first = '\\' then
      match rest with
      | [] => none
      | mark :: rest =>
        if mark = 'u' then readCode rest else some ((table.lookup mark).getD mark, rest)
    else some (first, rest)

inductive Spelling (table : List (Char × Char)) (readCode : List Char → Option (Char × List Char))
    (character : Char) : List Char → Prop
  | itself (noQuote : character ≠ '"') (noBackslash : character ≠ '\\') :
    Spelling table readCode character [character]
  | marked (mark : Char) (noCode : mark ≠ 'u') (found : (table.lookup mark).getD mark = character) :
    Spelling table readCode character ['\\', mark]
  | coded (code : List Char) (found : ∀ rest, readCode (code ++ rest) = some (character, rest)) :
    Spelling table readCode character ('\\' :: 'u' :: code)

theorem Reverses.of_spelling {table : List (Char × Char)}
    {readCode : List Char → Option (Char × List Char)} {escape : Char → List Char}
    (spelled : ∀ character, Spelling table readCode character (escape character)) :
    Reverses escape (readEscaped table readCode) where
  undoes character rest := by
    have written := spelled character
    generalize escape character = text at written ⊢
    cases written with
    | itself noQuote noBackslash => simp [readEscaped, noQuote, noBackslash]
    | marked mark noCode found => simp [readEscaped, noCode, found]
    | coded code found => simp [readEscaped, found rest]
  stops rest := rfl

theorem map_inj_of_forall_mem {α β : Type} {write : α → β} {items others : List α}
    (known : ∀ item ∈ items, ∀ other, write item = write other → item = other)
    (same : items.map write = others.map write) : items = others := by
  induction items generalizing others with
  | nil => exact (List.map_eq_nil_iff.mp same.symm).symm
  | cons item items inductionHypothesis =>
      cases others with
      | nil => cases same
      | cons other others =>
          obtain ⟨heads, tails⟩ := List.cons.inj same
          rw [known item (by simp) other heads, inductionHypothesis
            (fun item member => known item (List.mem_cons_of_mem _ member)) tails]

/-- Items written one after the other can be told apart when every item opens in a way that what
comes behind the last does not. -/
theorem flatMap_append_inj {α β : Type} {write : α → List Char} {view : α → β}
    {opens ends : List Char → Prop} {items others : List α} {rest otherRest : List Char}
    (apart : ∀ text, ends text → ¬ opens text)
    (opening : ∀ item ∈ items ++ others, ∀ rest, opens (write item ++ rest))
    (known : ∀ item ∈ items, ∀ other ∈ others, ∀ rest otherRest, ends rest ∨ opens rest →
      ends otherRest ∨ opens otherRest → write item ++ rest = write other ++ otherRest →
      view item = view other ∧ rest = otherRest)
    (ended : ends rest) (otherEnded : ends otherRest)
    (same : items.flatMap write ++ rest = others.flatMap write ++ otherRest) :
    items.map view = others.map view ∧ rest = otherRest := by
  have goesOn : ∀ list : List α, (∀ item ∈ list, item ∈ items ++ others) → ∀ rest, ends rest →
      ends (list.flatMap write ++ rest) ∨ opens (list.flatMap write ++ rest) := by
    intro list inside rest ended
    cases list with
    | nil => exact .inl ended
    | cons item list =>
        rw [List.flatMap_cons, List.append_assoc]
        exact .inr (opening item (inside item (by simp)) _)
  induction items generalizing others with
  | nil =>
      cases others with
      | nil => exact ⟨rfl, same⟩
      | cons other others =>
          refine absurd ?_ (apart rest ended)
          rw [List.flatMap_nil, List.nil_append, List.flatMap_cons, List.append_assoc] at same
          exact same ▸ opening other (by simp) _
  | cons item items inductionHypothesis =>
      cases others with
      | nil =>
          refine absurd ?_ (apart otherRest otherEnded)
          rw [List.flatMap_nil, List.nil_append, List.flatMap_cons, List.append_assoc] at same
          exact same ▸ opening item (by simp) _
      | cons other others =>
          rw [List.flatMap_cons, List.flatMap_cons, List.append_assoc, List.append_assoc] at same
          obtain ⟨heads, tails⟩ := known item (by simp) other (by simp) _ _
            (goesOn items (by simp +contextual) rest ended)
            (goesOn others (by simp +contextual) otherRest otherEnded) same
          have widen : ∀ any ∈ items ++ others, any ∈ item :: items ++ other :: others := by
            simp +contextual [or_imp]
          obtain ⟨views, rests⟩ := inductionHypothesis
            (fun any member => opening any (widen any member))
            (fun item member other otherMember => known item (List.mem_cons_of_mem _ member) other
              (List.mem_cons_of_mem _ otherMember)) tails
            (fun list inside => goesOn list fun any member => widen any (inside any member))
          exact ⟨by rw [List.map_cons, List.map_cons, heads, views], rests⟩

/-! ## Slots that may be left out -/

def present {α : Type} (slots : List (String × Option α)) : List (String × α) :=
  slots.filterMap fun slot => slot.2.map fun value => (slot.1, value)

@[simp]
theorem present_nil {α : Type} : present ([] : List (String × Option α)) = [] := rfl

@[simp]
theorem present_cons_none {α : Type} (key : String) (slots : List (String × Option α)) :
    present ((key, none) :: slots) = present slots := rfl

@[simp]
theorem present_cons_some {α : Type} (key : String) (value : α)
    (slots : List (String × Option α)) :
    present ((key, some value) :: slots) = (key, value) :: present slots := rfl

theorem present_append {α : Type} (slots others : List (String × Option α)) :
    present (slots ++ others) = present slots ++ present others :=
  List.filterMap_append

theorem key_mem_of_mem_present {α : Type} {slots : List (String × Option α)} {entry : String × α}
    (member : entry ∈ present slots) : entry.1 ∈ slots.map Prod.fst := by
  obtain ⟨slot, inside, found⟩ := List.mem_filterMap.mp member
  obtain ⟨value, _, rfl⟩ := Option.map_eq_some_iff.mp found
  exact List.mem_map_of_mem inside

theorem present_map {α β : Type} (f : α → β) (slots : List (String × Option α)) :
    (present slots).map (fun entry => (entry.1, f entry.2)) =
      present (slots.map fun slot => (slot.1, slot.2.map f)) := by
  induction slots with
  | nil => rfl
  | cons slot slots inductionHypothesis =>
      obtain ⟨key, value⟩ := slot
      cases value with
      | none => exact inductionHypothesis
      | some value => exact congrArg (_ :: ·) inductionHypothesis

/-- Leaving empty slots out loses nothing where the keys are known, different from each other and
from what comes behind. -/
theorem present_append_inj {α : Type} {slots others : List (String × Option α)}
    {behind otherBehind : List (String × α)} (keys : slots.map Prod.fst = others.map Prod.fst)
    (distinct : (slots.map Prod.fst).Nodup)
    (apart : ∀ entry ∈ behind ++ otherBehind, entry.1 ∉ slots.map Prod.fst)
    (same : present slots ++ behind = present others ++ otherBehind) :
    slots = others ∧ behind = otherBehind := by
  induction slots generalizing others with
  | nil =>
      obtain rfl := List.map_eq_nil_iff.mp keys.symm
      exact ⟨rfl, same⟩
  | cons slot slots inductionHypothesis =>
      obtain ⟨key, value⟩ := slot
      cases others with
      | nil => cases keys
      | cons other others =>
          obtain ⟨otherKey, otherValue⟩ := other
          obtain ⟨rfl, otherKeys⟩ : key = otherKey ∧ slots.map Prod.fst = others.map Prod.fst :=
            List.cons.inj keys
          obtain ⟨absent, rest⟩ := List.nodup_cons.mp distinct
          have inner := inductionHypothesis otherKeys rest fun entry member inside =>
            apart entry member (List.mem_cons_of_mem _ inside)
          -- A key that is left out here does not turn up later.
          have noLater : ∀ found : α, (key, found) ∉ present slots ++ behind ∧
              (key, found) ∉ present others ++ otherBehind := by
            intro found
            constructor <;> intro member <;> rcases List.mem_append.mp member with inside | after
            · exact absent (key_mem_of_mem_present inside)
            · exact apart _ (List.mem_append_left _ after) (by simp)
            · exact absent (otherKeys ▸ key_mem_of_mem_present inside)
            · exact apart _ (List.mem_append_right _ after) (by simp)
          cases value with
          | none =>
              cases otherValue with
              | none =>
                  obtain ⟨rfl, behinds⟩ := inner same
                  exact ⟨rfl, behinds⟩
              | some found =>
                  have tails : present slots ++ behind =
                      (key, found) :: (present others ++ otherBehind) := same
                  exact absurd (tails ▸ List.mem_cons_self ..) (noLater found).1
          | some found =>
              cases otherValue with
              | none =>
                  have tails : (key, found) :: (present slots ++ behind) =
                      present others ++ otherBehind := same
                  exact absurd (tails ▸ List.mem_cons_self ..) (noLater found).2
              | some another =>
                  have tails : (key, found) :: (present slots ++ behind) =
                      (key, another) :: (present others ++ otherBehind) := same
                  obtain ⟨heads, tails⟩ := List.cons.inj tails
                  obtain ⟨rfl, behinds⟩ := inner tails
                  exact ⟨by rw [(Prod.mk.inj heads).2], behinds⟩

theorem present_inj {α : Type} {slots others : List (String × Option α)}
    (keys : slots.map Prod.fst = others.map Prod.fst) (distinct : (slots.map Prod.fst).Nodup)
    (same : present slots = present others) : slots = others := by
  have nothing : ∀ entry ∈ ([] ++ [] : List (String × α)), entry.1 ∉ slots.map Prod.fst := by simp
  exact (present_append_inj keys distinct nothing (by rw [same])).1

theorem lookup_present_append {α : Type} {slots : List (String × Option α)}
    {behind : List (String × α)} (distinct : (slots.map Prod.fst).Nodup)
    (apart : ∀ entry ∈ behind, entry.1 ∉ slots.map Prod.fst) {key : String} {value : Option α}
    (member : (key, value) ∈ slots) : (present slots ++ behind).lookup key = value := by
  induction slots with
  | nil => cases member
  | cons slot slots inductionHypothesis =>
      obtain ⟨absent, rest⟩ := List.nodup_cons.mp distinct
      have later := inductionHypothesis rest fun entry inside found =>
        apart entry inside (List.mem_cons_of_mem _ found)
      obtain ⟨other, content⟩ := slot
      rcases List.mem_cons.mp member with same | inside
      · obtain ⟨rfl, rfl⟩ := Prod.mk.inj same
        cases value with
        | some value => simp
        | none =>
            rw [present_cons_none, List.lookup_eq_none_iff]
            intro entry found
            refine bne_iff_ne.mpr ?_
            rintro rfl
            rcases List.mem_append.mp found with early | late
            · exact absent (key_mem_of_mem_present early)
            · exact apart entry late List.mem_cons_self
      · have different : key ≠ other := by
          rintro rfl
          have known : key ∈ slots.map Prod.fst := List.mem_map_of_mem (f := Prod.fst) inside
          exact absent known
        cases content with
        | none => exact later inside
        | some content =>
            have unequal : (key == other) = false := beq_eq_false_iff_ne.mpr different
            rw [present_cons_some, List.cons_append, List.lookup_cons, unequal]
            exact later inside

end PhpTree
