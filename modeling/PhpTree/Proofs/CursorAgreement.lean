import Mathlib.Algebra.Group.Nat.Defs
import Mathlib.Data.List.Nodup
import PhpTree.Proofs.Erasing
import PhpTree.Proofs.Onward

/-! # Cursors that differ in layout only

What of a source matters to the tree are the kinds and texts of its tokens, plain
comments left out.  The gist of an item is what is left of it then: offsets and plain
comments are gone.  Two cursors are alike when their gists are, and so is what was
gathered so far, up to positions.

Positions enter a parse at one place: an error is dropped when the last one begins at
the same offset.  Whether it does is a matter of gists again.  No token ahead begins
where an error was recorded, and after a token is consumed neither does the current
one. -/
set_option autoImplicit false
namespace PhpTree

/-! ## Leaving positions and comments out -/

namespace Node

/-- The tree without its positions and comments. -/
def stripped : Node → Node :=
  mapInfo fun info => { attributes := { info.attributes with comments := [] } }

theorem stripped_mk (info : Info) (form : Form Node) :
    (Node.mk info form).stripped =
      .mk { attributes := { info.attributes with comments := [] } } (form.map stripped) :=
  mapInfo_mk ..

end Node

def ParseError.stripped : ParseError → ParseError
  | .unexpectedToken text expected _ => .unexpectedToken text expected {}
  | .unexpectedEnd expected _ => .unexpectedEnd expected {}
  | .unterminatedComment _ => .unterminatedComment {}
  | .nestingTooDeep limit _ => .nestingTooDeep limit {}

def Program.stripped (program : Program) : Program where
  root := program.root.stripped
  errors := program.errors.map ParseError.stripped

/-! ## Text and bytes -/

namespace Utf8

theorem decodeFrom_eq_append (bytes : List UInt8) :
    ∀ (skip : Nat) (done : List Char),
      decodeFrom skip bytes done = done.reverse ++ decodeFrom skip bytes [] := by
  induction bytes with
  | nil => simp [decodeFrom]
  | cons byte rest inductionHypothesis =>
      intro skip done
      cases skip with
      | succ skip => exact inductionHypothesis skip done
      | zero =>
          simp only [decodeFrom]
          rw [inductionHypothesis, inductionHypothesis _ [_]]
          simp

theorem ofNat_ne {char : Char} (some : 0 < char.toNat) {code : Nat} (larger : char.toNat < code) :
    Char.ofNat code ≠ char := by
  rintro rfl
  by_cases valid : code.isValidChar
  · have same : (Char.ofNat code).toNat = code := by
      rw [Char.ofNat, dif_pos valid]
      rfl
    omega
  · rw [Char.ofNat, dif_neg valid] at some
    exact absurd some (by decide)

theorem finishCharacter_ne {char : Char} (some : 0 < char.toNat) (ascii : char.toNat < 128) :
    ∀ (owed code taken : Nat) (bytes : List UInt8), 128 ≤ code * 64 ^ owed →
      (finishCharacter owed code taken bytes).1 ≠ char := by
  have unknown : replacement ≠ char := ofNat_ne some (by omega)
  intro owed
  induction owed with
  | zero =>
      intro code taken bytes large
      exact ofNat_ne some (by omega)
  | succ owed inductionHypothesis =>
      intro code taken bytes large
      cases bytes with
      | nil => exact unknown
      | cons byte rest =>
          simp only [finishCharacter]
          split
          · apply inductionHypothesis
            calc 128 ≤ code * 64 ^ (owed + 1) := large
              _ = code * 64 * 64 ^ owed := by rw [Nat.pow_succ', Nat.mul_assoc]
              _ ≤ extend code byte * 64 ^ owed := Nat.mul_le_mul_right _ (Nat.le_add_right _ _)
          · exact unknown

theorem lead?_large {first second : UInt8} {lead : Lead} (found : lead? first = some lead)
    (low : lead.low ≤ second) (high : second ≤ lead.high) :
    128 ≤ extend lead.bits second * 64 ^ lead.further := by
  rw [UInt8.le_iff_toNat_le] at low high
  simp only [lead?] at found
  repeat' split at found
  all_goals cases found
  all_goals simp only [extend, UInt8.reduceToNat] at *
  all_goals omega

theorem character_ne {char : Char} (some : 0 < char.toNat) (ascii : char.toNat < 128)
    {first : UInt8} (several : ¬ first < 0x80) (rest : List UInt8) :
    (character first rest).1 ≠ char := by
  have unknown : replacement ≠ char := ofNat_ne some (by omega)
  unfold character
  rw [if_neg several]
  split
  · rename_i lead second rest found
    split
    · rename_i inRange
      simp only [Bool.and_eq_true, decide_eq_true_eq] at inRange
      exact finishCharacter_ne some ascii _ _ _ _ (lead?_large found inRange.1 inRange.2)
    · exact unknown
  · exact unknown

theorem toNat_byteOf {char : Char} (ascii : char.toNat < 128) :
    (byteOf char).toNat = char.toNat := by
  rw [byteOf, Char.toUInt8, UInt32.toNat_toUInt8]
  exact Nat.mod_eq_of_lt (Nat.lt_trans ascii (by decide))

theorem character_byteOf {char : Char} (ascii : char.toNat < 128) (rest : List UInt8) :
    character (byteOf char) rest = (char, 0) := by
  have code := toNat_byteOf ascii
  have single : byteOf char < 0x80 := UInt8.lt_iff_toNat_lt.mpr (code ▸ ascii)
  unfold character
  rw [if_pos single, code, Char.ofNat_toNat]

theorem character_ne_of_ne {char : Char} (some : 0 < char.toNat) (ascii : char.toNat < 128)
    {first : UInt8} (different : first ≠ byteOf char) (rest : List UInt8) :
    (character first rest).1 ≠ char := by
  by_cases single : first < 0x80
  · intro read
    have same : Char.ofNat first.toNat = char := by
      unfold character at read
      rwa [if_pos single] at read
    have small : first.toNat < 128 := UInt8.lt_iff_toNat_lt.mp single
    have unchanged : (Char.ofNat first.toNat).toNat = first.toNat := by
      rw [Char.ofNat, dif_pos (Or.inl (by omega))]
      rfl
    apply different
    rw [← UInt8.toNat_inj, toNat_byteOf ascii, ← same, unchanged]
  · exact character_ne some ascii single rest

theorem isPrefixOf_decodeFrom (word : List Char)
    (single : ∀ char ∈ word, 0 < char.toNat ∧ char.toNat < 128) :
    ∀ bytes, word.isPrefixOf (decodeFrom 0 bytes []) = (word.map byteOf).isPrefixOf bytes := by
  induction word with
  | nil => simp
  | cons char word inductionHypothesis =>
      intro bytes
      obtain ⟨some, ascii⟩ := single char (List.mem_cons_self ..)
      cases bytes with
      | nil => rfl
      | cons first rest =>
          have tail := inductionHypothesis
            (fun char member => single char (List.mem_cons_of_mem _ member)) rest
          rw [decodeFrom, decodeFrom_eq_append]
          by_cases same : first = byteOf char
          · rw [same, character_byteOf ascii]
            simpa [List.isPrefixOf] using tail
          · have other := character_ne_of_ne some ascii same rest
            have left : (char == (character first rest).1) = false :=
              beq_eq_false_iff_ne.mpr (Ne.symm other)
            have right : (byteOf char == first) = false := beq_eq_false_iff_ne.mpr (Ne.symm same)
            simp [List.isPrefixOf, left, right]

theorem isPrefixOf_decode {word : String}
    (single : ∀ char ∈ word.toList, 0 < char.toNat ∧ char.toNat < 128) (bytes : List UInt8) :
    word.toList.isPrefixOf (decode bytes).toList = (bytesOf word).isPrefixOf bytes := by
  have read : (decode bytes).toList = decodeFrom 0 bytes [] := by
    rw [decode, String.toList_ofList]
  rw [read]
  exact isPrefixOf_decodeFrom word.toList single bytes

end Utf8

/-! ## Gists -/

/-- The kind of a token and its text. -/
def Token.face (token : Token) : TokenKind × String := (token.kind, token.text)

/-- What of an item matters to the tree. -/
structure Gist where
  face : TokenKind × String
  doc : Option String := none
  unterminated : Nat := 0

def Item.gist (item : Item) : Gist where
  face := item.token.face
  doc := item.docComment?.map Token.text
  unterminated := item.unterminated.length

namespace Gist

def isUnterminated (face : TokenKind × String) : Bool :=
  face.1 == .error && "/*".toList.isPrefixOf face.2.toList

def place (face : TokenKind × String) : List Gist → List Gist
  | [] => if face.1 == .docComment || isUnterminated face then [] else [{ face }]
  | gist :: rest =>
    if face.1 = .docComment then { gist with doc := gist.doc.or (some face.2) } :: rest
    else if isUnterminated face then { gist with unterminated := gist.unterminated + 1 } :: rest
    else { face } :: gist :: rest

end Gist

theorem Token.isUnterminatedComment_eq (token : Token) :
    token.isUnterminatedComment = Gist.isUnterminated token.face := by
  rw [isUnterminatedComment, Gist.isUnterminated, face, text,
    Utf8.isPrefixOf_decode (by simp)]

namespace Item

theorem gist_comment (item : Item) (token : Token) :
    { item with comments := token :: item.comments : Item }.gist =
      if token.kind = .docComment then
        { item.gist with doc := item.gist.doc.or (some token.text) }
      else item.gist := by
  by_cases doc : token.kind = .docComment
  · cases found : item.docComment? <;>
      simp_all [gist, docComment?, List.find?_append]
  · simp [gist, docComment?, List.find?_append, doc]

theorem map_gist_place_comment {token : Token} (plain : token.kind = .comment) (items : List Item) :
    (place token items).map gist = items.map gist := by
  cases items with
  | nil => simp [place, plain, TokenKind.isTrivia]
  | cons item items => simp [place, plain, TokenKind.isTrivia, gist_comment]

theorem map_gist_place {token : Token} (kept : token.kind ≠ .comment) (items : List Item) :
    (place token items).map gist = Gist.place token.face (items.map gist) := by
  have trivia : token.kind.isTrivia = (token.face.1 == .docComment) := by
    rw [Token.face]
    revert kept
    cases token.kind <;> simp [TokenKind.isTrivia]
  cases items with
  | nil =>
      simp only [place, Gist.place, trivia, token.isUnterminatedComment_eq, List.map_nil]
      split
      · rfl
      · rfl
  | cons item items =>
      simp only [place, Gist.place, trivia, token.isUnterminatedComment_eq, List.map_cons,
        beq_iff_eq]
      split
      · rename_i doc
        have isDoc : token.kind = .docComment := doc
        rw [List.map_cons, gist_comment, if_pos isDoc]
        rfl
      · split
        · rfl
        · rfl

/-- The gists of a source depend on the kinds and texts of its tokens, plain comments left out. -/
theorem map_gist_gather (tokens : List Token) :
    (gather tokens).map gist =
      ((tokens.filter fun token => token.kind ≠ .comment).map Token.face).foldr Gist.place [] := by
  induction tokens with
  | nil => rfl
  | cons token rest inductionHypothesis =>
      rw [gather_cons]
      by_cases plain : token.kind = .comment
      · rw [List.filter_cons_of_neg (by simp [plain]), map_gist_place_comment plain,
          inductionHypothesis]
      · rw [List.filter_cons_of_pos (by simp [plain]), map_gist_place plain, inductionHypothesis]
        rfl

end Item

/-! ## Starts -/

namespace Item

theorem unterminated_gather (tokens : List Token) :
    ∀ item ∈ gather tokens, ∀ comment ∈ item.unterminated,
      comment ∈ tokens ∧ comment.isUnterminatedComment = true := by
  induction tokens with
  | nil => simp [gather]
  | cons token rest inductionHypothesis =>
      have kept : ∀ item ∈ gather rest, ∀ comment ∈ item.unterminated,
          comment ∈ token :: rest ∧ comment.isUnterminatedComment = true :=
        fun item member comment inside =>
          (inductionHypothesis item member comment inside).imp_left (List.mem_cons_of_mem _)
      rw [gather_cons]
      cases gathered : gather rest with
      | nil =>
          simp only [place]
          split <;> simp
      | cons next items =>
          rw [gathered, List.forall_mem_cons] at kept
          simp only [place]
          split
          · exact List.forall_mem_cons.mpr kept
          · split
            · rename_i opened
              exact List.forall_mem_cons.mpr
                ⟨List.forall_mem_cons.mpr ⟨⟨List.mem_cons_self .., opened⟩, kept.1⟩, kept.2⟩
            · exact List.forall_mem_cons.mpr
                ⟨List.forall_mem_nil _, List.forall_mem_cons.mpr kept⟩

/-- Where items begin, no unterminated comment does. -/
theorem start_ne_of_gather {offset : Nat} {tokens : List Token} (stream : Stream offset tokens) :
    ∀ item ∈ gather tokens, ∀ comment ∈ item.unterminated, ∀ other ∈ gather tokens,
      comment.start ≠ other.token.start := by
  intro item member comment inside other found same
  obtain ⟨listed, opened⟩ := unterminated_gather tokens item member comment inside
  have read : other.token ∈ tokens.filter Token.isSignificant := by
    rw [← gather_tokens]
    exact List.mem_map_of_mem found
  obtain ⟨otherListed, significant⟩ := List.mem_filter.mp read
  have distinct : (tokens.map Token.start).Nodup := stream.starts.imp Nat.ne_of_lt
  have equal := List.inj_on_of_nodup_map distinct listed otherListed same
  simp [Token.isSignificant, ← equal, opened] at significant

end Item

/-! ## Cursors -/

namespace Cursor

/-- Whether the last error begins where the current token does; another one there is dropped. -/
def isBlamed (cursor : Cursor) : Bool :=
  cursor.errors.head?.any fun last => last.position.startOffset == cursor.start

/-- Tokens ahead begin at different offsets. Unterminated comments begin at none of them, and the
last error at none after the current one. -/
structure HasDistinctStarts (cursor : Cursor) : Prop where
  tokens : (cursor.tokens.map Token.start).Nodup
  unterminated : ∀ item ∈ cursor.following, ∀ comment ∈ item.unterminated,
    ∀ token ∈ cursor.tokens, comment.start ≠ token.start
  errors : ∀ error ∈ cursor.errors.head?, ∀ item ∈ cursor.following,
    error.position.startOffset ≠ item.token.start

theorem advance_nil {context : Context} {cursor : Cursor} (ends : cursor.following = []) :
    cursor.advance context =
      { cursor with
        current := { token := cursor.current.token }
        lastEnd := cursor.current.token.stop } := by
  simp only [advance, ends]

def enter (cursor : Cursor) (item : Item) (rest : List Item) : Cursor :=
  { cursor with
    current := item
    following := rest
    pendingDoc := (item.docComment?.map Token.text).or cursor.pendingDoc
    lastEnd := cursor.current.token.stop }

theorem advance_eq_lookAhead {context : Context} {cursor : Cursor} {item : Item}
    {rest : List Item} (next : cursor.following = item :: rest) :
    cursor.advance context = (cursor.enter item rest).lookAhead context := by
  simp only [advance, next, enter]

namespace HasDistinctStarts

variable {cursor : Cursor} {item : Item} {rest : List Item}

theorem start_ne (apart : cursor.HasDistinctStarts) :
    ∀ item ∈ cursor.following, cursor.start ≠ item.token.start := by
  intro item member same
  have listed : item.token.start ∈ (cursor.following.map Item.token).map Token.start :=
    List.mem_map_of_mem (List.mem_map_of_mem member)
  rw [← same] at listed
  exact (List.nodup_cons.mp apart.tokens).1 listed

theorem enter (apart : cursor.HasDistinctStarts) (next : cursor.following = item :: rest) :
    (cursor.enter item rest).HasDistinctStarts := by
  have ahead : (cursor.enter item rest).tokens = cursor.following.map Item.token := by
    rw [next]
    rfl
  have later : ∀ other ∈ rest, other ∈ cursor.following := by
    rw [next]
    exact fun _ => List.mem_cons_of_mem _
  refine ⟨?_, fun other member comment inside token found => ?_, fun error last other member => ?_⟩
  · rw [ahead]
    exact (List.nodup_cons.mp apart.tokens).2
  · rw [ahead] at found
    exact apart.unterminated other (later other member) comment inside token
      (List.mem_cons_of_mem _ found)
  · exact apart.errors error last other (later other member)

theorem isBlamed_enter (apart : cursor.HasDistinctStarts) (next : cursor.following = item :: rest) :
    (cursor.enter item rest).isBlamed = false := by
  have ahead : item ∈ cursor.following := by simp [next]
  have fresh := apart.errors
  show cursor.errors.head?.any _ = false
  cases last : cursor.errors.head? with
  | none => rfl
  | some error => exact beq_eq_false_iff_ne.mpr (fresh error last item ahead)

end HasDistinctStarts

/-- Two cursors that no layout tells apart. -/
structure AgreesUpToPlaces (left right : Cursor) : Prop where
  face : left.current.token.face = right.current.token.face
  gists : left.following.map Item.gist = right.following.map Item.gist
  doc : left.pendingDoc = right.pendingDoc
  depth : left.depth = right.depth
  errors : left.errors.map ParseError.stripped = right.errors.map ParseError.stripped
  blamed : left.isBlamed = right.isBlamed
  leftApart : left.HasDistinctStarts
  rightApart : right.HasDistinctStarts

namespace AgreesUpToPlaces

variable {left right : Cursor} {first second : Context}

theorem kind (agrees : left.AgreesUpToPlaces right) : left.kind = right.kind :=
  congrArg Prod.fst agrees.face

theorem text (agrees : left.AgreesUpToPlaces right) :
    left.current.token.text = right.current.token.text :=
  congrArg Prod.snd agrees.face

theorem remaining (agrees : left.AgreesUpToPlaces right) : left.remaining = right.remaining := by
  have lengths := congrArg List.length agrees.gists
  simpa [Cursor.remaining] using lengths

theorem symm (agrees : left.AgreesUpToPlaces right) : right.AgreesUpToPlaces left where
  face := agrees.face.symm
  gists := agrees.gists.symm
  doc := agrees.doc.symm
  depth := agrees.depth.symm
  errors := agrees.errors.symm
  blamed := agrees.blamed.symm
  leftApart := agrees.rightApart
  rightApart := agrees.leftApart

theorem following_cases (agrees : left.AgreesUpToPlaces right) :
    (left.following = [] ∧ right.following = []) ∨
      ∃ item rest other others, left.following = item :: rest ∧
        right.following = other :: others ∧ item.gist = other.gist ∧
        rest.map Item.gist = others.map Item.gist := by
  have gists := agrees.gists
  cases here : left.following with
  | nil =>
      rw [here] at gists
      exact .inl ⟨rfl, List.map_eq_nil_iff.mp gists.symm⟩
  | cons item rest =>
      rw [here] at gists
      obtain ⟨other, others, there, same, rests⟩ := List.map_eq_cons_iff.mp gists.symm
      exact .inr ⟨item, rest, other, others, rfl, there, same.symm, rests.symm⟩

theorem nextKind (agrees : left.AgreesUpToPlaces right) : left.nextKind = right.nextKind := by
  obtain ⟨here, there⟩ | ⟨item, rest, other, others, here, there, same, _⟩ :=
    agrees.following_cases
  · simp only [Cursor.nextKind, here, there]
  · simp only [Cursor.nextKind, here, there]
    exact congrArg (fun gist => gist.face.1) same

/-! Steps that leave the tokens and the errors as they are. -/

theorem note (agrees : left.AgreesUpToPlaces right) (one other : JournalEntry) :
    (left.note one).AgreesUpToPlaces (right.note other) :=
  { agrees with
    leftApart := { agrees.leftApart with }
    rightApart := { agrees.rightApart with } }

theorem clearDoc (agrees : left.AgreesUpToPlaces right) :
    left.clearDoc.AgreesUpToPlaces right.clearDoc :=
  { agrees with
    doc := rfl
    leftApart := { agrees.leftApart with }
    rightApart := { agrees.rightApart with } }

theorem dropComments (agrees : left.AgreesUpToPlaces right) :
    left.dropComments.AgreesUpToPlaces right.dropComments :=
  { agrees with
    leftApart := { agrees.leftApart with }
    rightApart := { agrees.rightApart with } }

theorem withDepth (agrees : left.AgreesUpToPlaces right) (change : Nat → Nat) :
    { left with depth := change left.depth }.AgreesUpToPlaces
    { right with depth := change right.depth } :=
  { agrees with
    depth := congrArg change agrees.depth
    leftApart := { agrees.leftApart with }
    rightApart := { agrees.rightApart with } }

/-! Steps that add an error. -/

theorem push (agrees : left.AgreesUpToPlaces right) {one other : ParseError}
    (same : one.stripped = other.stripped)
    (blamed : (one.position.startOffset == left.start) =
      (other.position.startOffset == right.start))
    (here : ∀ item ∈ left.following, one.position.startOffset ≠ item.token.start)
    (there : ∀ item ∈ right.following, other.position.startOffset ≠ item.token.start) :
    { left with errors := one :: left.errors }.AgreesUpToPlaces
      { right with errors := other :: right.errors } where
  face := agrees.face
  gists := agrees.gists
  doc := agrees.doc
  depth := agrees.depth
  errors := by rw [List.map_cons, List.map_cons, same, agrees.errors]
  blamed := blamed
  leftApart := { agrees.leftApart with errors := by rintro _ ⟨⟩; exact here }
  rightApart := { agrees.rightApart with errors := by rintro _ ⟨⟩; exact there }

theorem record (agrees : left.AgreesUpToPlaces right) {one other : ParseError}
    (same : one.stripped = other.stripped) (here : one.position.startOffset = left.start)
    (there : other.position.startOffset = right.start) :
    (left.record one).AgreesUpToPlaces (right.record other) := by
  -- The two are recorded or dropped together.
  have dropped := agrees.blamed
  unfold isBlamed at dropped
  unfold Cursor.record
  rw [here, there]
  split
  · rename_i blamed
    rw [if_pos (dropped ▸ blamed)]
    exact agrees
  · rename_i fresh
    rw [if_neg (dropped ▸ fresh)]
    refine (agrees.note _ _).push same ?_ ?_ ?_
    · rw [here, there]
      exact (beq_self_eq_true _).trans (beq_self_eq_true _).symm
    · rw [here]
      exact fun item member => agrees.leftApart.start_ne item member
    · rw [there]
      exact fun item member => agrees.rightApart.start_ne item member

theorem expose (agrees : left.AgreesUpToPlaces right) {comment other : Token}
    (here : ∀ token ∈ left.tokens, comment.start ≠ token.start)
    (there : ∀ token ∈ right.tokens, other.start ≠ token.start) :
    AgreesUpToPlaces
      { left.note (.unterminatedComment (first.lines.position comment.span)) with
        errors := .unterminatedComment (first.lines.position comment.span) :: left.errors }
      { right.note (.unterminatedComment (second.lines.position other.span)) with
        errors := .unterminatedComment (second.lines.position other.span) :: right.errors } := by
  have apart : (comment.start == left.start) = false :=
    beq_eq_false_iff_ne.mpr (here _ (List.mem_cons_self ..))
  have otherApart : (other.start == right.start) = false :=
    beq_eq_false_iff_ne.mpr (there _ (List.mem_cons_self ..))
  refine (agrees.note _ _).push rfl (apart.trans otherApart.symm) ?_ ?_
  · exact fun item member => here _ (List.mem_cons_of_mem _ (List.mem_map_of_mem member))
  · exact fun item member => there _ (List.mem_cons_of_mem _ (List.mem_map_of_mem member))

theorem view (agrees : left.AgreesUpToPlaces right) {item other : Item}
    (same : item.unterminated.length = other.unterminated.length)
    (here : ∀ comment ∈ item.unterminated, ∀ token ∈ left.tokens, comment.start ≠ token.start)
    (there : ∀ comment ∈ other.unterminated, ∀ token ∈ right.tokens,
      comment.start ≠ token.start) :
    (left.view first item).AgreesUpToPlaces (right.view second other) := by
  unfold Cursor.view
  generalize item.unterminated = comments at *
  generalize other.unterminated = others at *
  induction comments generalizing left right others with
  | nil =>
      obtain rfl : others = [] := List.length_eq_zero_iff.mp same.symm
      exact agrees
  | cons comment comments inductionHypothesis =>
      obtain ⟨matching, rest, rfl⟩ := List.exists_cons_of_length_eq_add_one same.symm
      obtain ⟨hereNow, hereLater⟩ := List.forall_mem_cons.mp here
      obtain ⟨thereNow, thereLater⟩ := List.forall_mem_cons.mp there
      exact inductionHypothesis (agrees.expose hereNow thereNow) hereLater rest thereLater
        (Nat.succ.inj same)

theorem lookAhead (agrees : left.AgreesUpToPlaces right) :
    (left.lookAhead first).AgreesUpToPlaces (right.lookAhead second) := by
  obtain ⟨here, there⟩ | ⟨item, rest, other, others, here, there, same, _⟩ :=
    agrees.following_cases
  · simp only [Cursor.lookAhead, here, there]
    exact agrees
  · simp only [Cursor.lookAhead, here, there]
    exact agrees.view (congrArg Gist.unterminated same)
      (agrees.leftApart.unterminated item (by simp [here]))
      (agrees.rightApart.unterminated other (by simp [there]))

theorem advance (agrees : left.AgreesUpToPlaces right) :
    (left.advance first).AgreesUpToPlaces (right.advance second) := by
  obtain ⟨here, there⟩ | ⟨item, rest, other, others, here, there, same, rests⟩ :=
    agrees.following_cases
  · rw [advance_nil here, advance_nil there]
    exact
      { agrees with
        leftApart := { agrees.leftApart with }
        rightApart := { agrees.rightApart with } }
  · have doc : item.docComment?.map Token.text = other.docComment?.map Token.text :=
      congrArg Gist.doc same
    rw [advance_eq_lookAhead here, advance_eq_lookAhead there]
    -- Whatever was blamed before, the item that is entered is not.
    exact lookAhead
      { face := congrArg Gist.face same
        gists := rests
        doc := by simp only [enter, doc, agrees.doc]
        depth := agrees.depth
        errors := agrees.errors
        blamed := by
          rw [agrees.leftApart.isBlamed_enter here, agrees.rightApart.isBlamed_enter there]
        leftApart := agrees.leftApart.enter here
        rightApart := agrees.rightApart.enter there }

theorem report (agrees : left.AgreesUpToPlaces right) (expected : Expected) :
    (left.report first expected).AgreesUpToPlaces (right.report second expected) := by
  refine agrees.record ?_ ?_ ?_
  · rw [agrees.kind, agrees.text]
    split <;> rfl
  · split <;> rfl
  · split <;> rfl

theorem reportTooDeep (agrees : left.AgreesUpToPlaces right)
    (limit : first.options.maxDepth = second.options.maxDepth) :
    (left.reportTooDeep first).AgreesUpToPlaces (right.reportTooDeep second) :=
  agrees.record (by rw [limit]; rfl) rfl rfl

theorem paced : AdvancesInStep first second AgreesUpToPlaces where
  kind := kind
  remaining := remaining
  advance := advance
  note _ agrees := agrees.note _ _
  clearDoc := clearDoc

theorem kept : KeptInPlace AgreesUpToPlaces where
  depth := depth
  nest change agrees := agrees.withDepth change
  clearDoc := clearDoc
  dropComments := dropComments

end AgreesUpToPlaces

/-! ## Where a parse begins -/

def fresh (item : Item) (following : List Item) : Cursor :=
  { current := item, following, pendingDoc := item.docComment?.map Token.text }

section HasFreshComments
variable {offset : Nat} {tokens : List Token} {item : Item} {following : List Item}

theorem tokens_fresh (gathered : Item.gather tokens = item :: following) :
    (fresh item following).tokens = (Item.gather tokens).map Item.token := by
  rw [gathered]
  rfl

theorem start_ne_of_fresh (stream : Stream offset tokens)
    (gathered : Item.gather tokens = item :: following) :
    ∀ other ∈ item :: following, ∀ comment ∈ other.unterminated,
      ∀ token ∈ (fresh item following).tokens, comment.start ≠ token.start := by
  intro other member comment inside token found
  rw [tokens_fresh gathered] at found
  obtain ⟨reader, listed, rfl⟩ := List.mem_map.mp found
  rw [← gathered] at member
  exact Item.start_ne_of_gather stream other member comment inside reader listed

theorem hasDistinctStarts_fresh (stream : Stream offset tokens)
    (gathered : Item.gather tokens = item :: following) :
    (fresh item following).HasDistinctStarts where
  tokens := by
    rw [tokens_fresh gathered, Item.gather_tokens]
    have kept := stream.filter Token.isSignificant Token.isSignificant_of_eof
    exact kept.starts.imp Nat.ne_of_lt
  unterminated other member :=
    start_ne_of_fresh stream gathered other (List.mem_cons_of_mem _ member)
  errors := by simp [fresh]

end HasFreshComments

theorem agreesUpToPlaces_ofItems {first second : Context} {offset otherOffset : Nat}
    {tokens others : List Token} {item other : Item} {following otherFollowing : List Item}
    (stream : Stream offset tokens) (otherStream : Stream otherOffset others)
    (gathered : Item.gather tokens = item :: following)
    (otherGathered : Item.gather others = other :: otherFollowing)
    (same : (item :: following).map Item.gist = (other :: otherFollowing).map Item.gist) :
    (ofItems first item following).AgreesUpToPlaces (ofItems second other otherFollowing) := by
  obtain ⟨current, rest⟩ := List.cons.inj same
  have start : (fresh item following).AgreesUpToPlaces (fresh other otherFollowing) :=
    { face := congrArg Gist.face current
      gists := rest
      doc := congrArg Gist.doc current
      depth := rfl
      errors := rfl
      blamed := rfl
      leftApart := hasDistinctStarts_fresh stream gathered
      rightApart := hasDistinctStarts_fresh otherStream otherGathered }
  have seen :=
    @AgreesUpToPlaces.view _ _ first second start _ _ (congrArg Gist.unterminated current)
    (start_ne_of_fresh stream gathered item (List.mem_cons_self ..))
    (start_ne_of_fresh otherStream otherGathered other (List.mem_cons_self ..))
  exact seen.lookAhead

end Cursor

/-- The kinds and texts of the tokens, plain comments left out. -/
def Lexer.faces (lexer : Lexer) : List (TokenKind × String) :=
  (lexer.tokens.filter fun token => token.kind ≠ .comment).map Token.face

theorem Parser.ofSource_agreesUpToPlaces {options : Options} {source other : List UInt8}
    (same : (Lexer.ofSource options.shortTags source).faces =
      (Lexer.ofSource options.shortTags other).faces) :
    (ofSource options source).cursor.AgreesUpToPlaces (ofSource options other).cursor := by
  have stream := (Lexer.ofSource options.shortTags source).tokens_stream
  have otherStream := (Lexer.ofSource options.shortTags other).tokens_stream
  obtain ⟨item, following, gathered⟩ := List.exists_cons_of_ne_nil (Item.gather_ne_nil stream)
  obtain ⟨otherItem, otherFollowing, otherGathered⟩ :=
    List.exists_cons_of_ne_nil (Item.gather_ne_nil otherStream)
  have gists : (item :: following).map Item.gist = (otherItem :: otherFollowing).map Item.gist := by
    rw [← gathered, ← otherGathered, Item.map_gist_gather, Item.map_gist_gather]
    exact congrArg (List.foldr Gist.place []) same
  simp only [ofSource, gathered, otherGathered]
  exact Cursor.agreesUpToPlaces_ofItems stream otherStream gathered otherGathered gists

end PhpTree
