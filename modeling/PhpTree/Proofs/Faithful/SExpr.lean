import PhpTree.Proofs.Erasing
import PhpTree.Proofs.Faithful.Forms
import PhpTree.Proofs.Faithful.Rendering
import PhpTree.Proofs.Faithful.Text

/-! # The S-expression says everything but where

Each part of the text of a tree shows where it ends: a label at the first character
that is no letter, a quoted text at its quote, a child at its parenthesis, and the
children of a slot at a line that is indented less.  So the text gives back the tree, up
to what is not written: the positions of comments, and all positions when they are not
asked for. -/
set_option autoImplicit false
namespace PhpTree

/-! ## Quoted texts -/

namespace Quoted

def readCode (text : List Char) : Option (Char × List Char) :=
  let digits := text.tail.takeWhile isHexDigit
  some (Char.ofNat (numberOf 16 digits), text.tail.drop (digits.length + 1))

def marks : List (Char × Char) := [('n', '\n'), ('r', '\r'), ('t', '\t'), ('0', '\x00')]

theorem readCode_toDigits (character : Char) (rest : List Char) :
    readCode ('\x7b' :: (Nat.toDigits 16 character.toNat ++ ['\x7d']) ++ rest) =
      some (character, rest) := by
  have digits : (Nat.toDigits 16 character.toNat ++ '\x7d' :: rest).takeWhile isHexDigit =
      Nat.toDigits 16 character.toNat :=
    takeWhile_word (isHexDigit_of_mem_toDigits (by decide) (by decide) _) (.cons (by decide))
  simp only [readCode, List.cons_append, List.append_assoc, List.nil_append, List.tail_cons, digits]
  rw [numberOf_toDigits (by decide) (by decide), Char.ofNat_toNat, List.drop_append,
    List.drop_of_length_le (by omega), Nat.add_sub_cancel_left]
  rfl

theorem escapePlain_reverses : Reverses escapePlain (readEscaped [] fun _ => none) := by
  refine Reverses.of_spelling fun character => ?_
  unfold escapePlain
  split_ifs with backslash quote
  · exact .marked '\\' (by decide) (by rw [backslash]; rfl)
  · exact .marked '"' (by decide) (by rw [quote]; rfl)
  · exact .itself quote backslash

theorem escapeVisible_reverses : Reverses escapeVisible (readEscaped marks readCode) := by
  refine Reverses.of_spelling fun character => ?_
  unfold escapeVisible
  split_ifs with backslash quote newline carriage tab zero seen
  · exact .marked '\\' (by decide) (by rw [backslash]; rfl)
  · exact .marked '"' (by decide) (by rw [quote]; rfl)
  · exact .marked 'n' (by decide) (by rw [newline]; rfl)
  · exact .marked 'r' (by decide) (by rw [carriage]; rfl)
  · exact .marked 't' (by decide) (by rw [tab]; rfl)
  · exact .marked '0' (by decide) (by rw [zero]; rfl)
  · exact .itself quote backslash
  · exact .coded _ (readCode_toDigits character)

theorem enclose_inj {escape : Char → List Char} {unescape : List Char → Option (Char × List Char)}
    (reverses : Reverses escape unescape) {text other : String} {rest others : List Char}
    (same : (enclose escape text).toList ++ rest = (enclose escape other).toList ++ others) :
    text = other ∧ rest = others := by
  simp only [enclose, String.toList_ofList, List.cons_append, List.append_assoc, List.nil_append,
    List.cons.injEq, true_and] at same
  obtain ⟨texts, rests⟩ := reverses.quoted_inj same
  exact ⟨String.toList_injective texts, rests⟩

end Quoted

/-! ## Attributes as marks -/

/-- What stands in brackets behind a key. -/
inductive Mark where
  | flag (isSet : Bool)
  | text (value : String)

namespace Mark

def written : Mark → List Char
  | .flag isSet => (if isSet then "true" else "false").toList
  | .text value => (Quoted.visible value).toList

theorem written_inj {mark other : Mark} {rest others : List Char}
    (same : mark.written ++ rest = other.written ++ others) : mark = other ∧ rest = others := by
  cases mark with
  | flag isSet =>
      cases other with
      | flag other =>
          obtain rfl : isSet = other := by
            cases isSet <;> cases other <;> first | rfl | cases (List.cons.inj same).1
          exact ⟨rfl, List.append_cancel_left same⟩
      | text value =>
          simp only [written, Quoted.visible, Quoted.enclose, String.toList_ofList] at same
          cases isSet <;> cases (List.cons.inj same).1
  | text value =>
      cases other with
      | flag other =>
          simp only [written, Quoted.visible, Quoted.enclose, String.toList_ofList] at same
          cases other <;> cases (List.cons.inj same).1
      | text other =>
          obtain ⟨rfl, rests⟩ := Quoted.enclose_inj Quoted.escapeVisible_reverses same
          exact ⟨rfl, rests⟩

end Mark

def markText (mark : String × Mark) : List Char :=
  ' ' :: '[' :: (mark.1.toList ++ '=' :: (mark.2.written ++ [']']))

def IsAlphabetic (word : String) : Prop := ∀ char ∈ word.toList, char.isAlpha = true

theorem markText_inj {mark other : String × Mark} (key : IsAlphabetic mark.1)
    (otherKey : IsAlphabetic other.1) {rest others : List Char}
    (same : markText mark ++ rest = markText other ++ others) :
    mark = other ∧ rest = others := by
  simp only [markText, List.cons_append, List.append_assoc, List.cons.injEq, true_and,
    List.nil_append] at same
  obtain ⟨keys, values⟩ := word_append_inj key otherKey (.cons (by decide)) (.cons (by decide)) same
  obtain ⟨marks, rests⟩ := Mark.written_inj (List.cons.inj values).2
  exact ⟨Prod.ext (String.toList_injective keys) marks, (List.cons.inj rests).2⟩

namespace Attributes

def unplaced (attributes : Attributes) : Attributes :=
  { attributes with comments := attributes.comments.map fun comment => { value := comment.value } }

def markSlots (attributes : Attributes) : List (String × Option Mark) :=
  Flag.all.map (fun flag => (flag.name, (attributes.flag? flag).map .flag)) ++
    [("phpDocComment", attributes.docComment.map .text)]

/-- The marks of the attributes: one for each flag and the doc comment, and one for each comment. -/
def marks (attributes : Attributes) : List (String × Mark) :=
  present attributes.markSlots ++
    attributes.comments.map fun comment => ("comment", .text comment.value)

theorem isAlphabetic_of_mem_marks {attributes : Attributes} {mark : String × Mark}
    (member : mark ∈ attributes.marks) : IsAlphabetic mark.1 := by
  have key : mark.1 ∈
      ["byRef", "variadic", "static", "returnsRef", "phpDocComment", "comment"] := by
    rcases List.mem_append.mp member with slot | comment
    · exact List.mem_append_left ["comment"] (key_mem_of_mem_present slot)
    · obtain ⟨_, _, rfl⟩ := List.mem_map.mp comment
      simp
  have all : ["byRef", "variadic", "static", "returnsRef", "phpDocComment", "comment"].all
      (fun key => key.toList.all Char.isAlpha) = true := by
    decide
  exact List.all_eq_true.mp (List.all_eq_true.mp all mark.1 key)

theorem marks_inj {attributes other : Attributes} (same : attributes.marks = other.marks) :
    attributes.unplaced = other.unplaced := by
  have keys : attributes.markSlots.map Prod.fst = other.markSlots.map Prod.fst := rfl
  have distinct : (attributes.markSlots.map Prod.fst).Nodup :=
    (by decide : (({} : Attributes).markSlots.map Prod.fst).Nodup)
  have noComment : "comment" ∉ attributes.markSlots.map Prod.fst :=
    (by decide : "comment" ∉ ({} : Attributes).markSlots.map Prod.fst)
  have apart : ∀ mark ∈ (attributes.comments.map fun comment =>
      ("comment", Mark.text comment.value)) ++ other.comments.map fun comment =>
        ("comment", Mark.text comment.value), mark.1 ∉ attributes.markSlots.map Prod.fst := by
    intro mark member
    rw [← List.map_append] at member
    obtain ⟨_, _, rfl⟩ := List.mem_map.mp member
    exact noComment
  obtain ⟨slots, comments⟩ := present_append_inj keys distinct apart same
  obtain ⟨flags, docs⟩ := List.append_inj slots (by simp)
  have docsEqual : attributes.docComment = other.docComment :=
    Option.map_injective (fun _ _ => Mark.text.inj) (Prod.mk.inj (List.cons.inj docs).1).2
  refine eq_of_parts (fun flag => ?_) docsEqual ?_
  · have flagsEqual := flags_inj (fun _ _ => Mark.flag.inj) flags flag
    cases flag <;> exact flagsEqual
  · have wraps : Function.Injective fun value => ("comment", Mark.text value) :=
      fun _ _ equal => Mark.text.inj (Prod.mk.inj equal).2
    have values : attributes.comments.map Comment.value = other.comments.map Comment.value :=
      wraps.list_map (by simpa [Function.comp_def] using comments)
    have unplacedComments := congrArg (List.map fun value => ({ value } : Comment)) values
    simpa [unplaced, Function.comp_def] using unplacedComments

section Texts
variable (settings : SExpr.Settings)

theorem toList_flagText (key : String) (isSet : Bool) :
    (SExpr.attributeText settings (key, .flag isSet)).toList = markText (key, .flag isSet) := by
  simp [SExpr.attributeText, markText, Mark.written]

theorem toList_docText (key value : String) :
    (SExpr.attributeText settings (key, .text value)).toList = markText (key, .text value) := by
  simp [SExpr.attributeText, markText, Mark.written]

theorem toList_commentsText {settings : SExpr.Settings} (shown : settings.comments = true)
    (key : String) (list : List Comment) :
    (SExpr.attributeText settings (key, .comments list)).toList =
      (list.map fun comment => ("comment", Mark.text comment.value)).flatMap markText := by
  simp [SExpr.attributeText, shown, markText, Mark.written, String.toList_join, List.flatMap_map]

theorem flatMap_flagSlots (attributes : Attributes) (flags : List Flag) :
    (present (flags.map fun flag => (flag.name, (attributes.flag? flag).map
        AttributeValue.flag))).flatMap (fun entry => (SExpr.attributeText settings entry).toList) =
      (present (flags.map fun flag => (flag.name, (attributes.flag? flag).map
        Mark.flag))).flatMap markText := by
  induction flags with
  | nil => rfl
  | cons flag flags inductionHypothesis =>
      cases value : attributes.flag? flag with
      | none => simpa [value] using inductionHypothesis
      | some isSet => simpa [value, toList_flagText] using inductionHypothesis

end Texts

theorem toList_attributeText {settings : SExpr.Settings} (shown : settings.comments = true)
    (attributes : Attributes) :
    (String.join (attributes.entries.map (SExpr.attributeText settings))).toList =
      attributes.marks.flatMap markText := by
  have split : attributes.entries = present (Flag.all.map fun flag =>
      (flag.name, (attributes.flag? flag).map AttributeValue.flag)) ++
        (present [("phpDocComment", attributes.docComment.map .text),
          ("comments", attributes.comments?.map .comments)]) :=
    present_append _ _
  have flags := flatMap_flagSlots settings attributes Flag.all
  have comments := comments?_getD attributes
  rw [String.toList_join, List.flatMap_map, split, marks, markSlots, present_append,
    List.flatMap_append, flags, List.append_assoc, List.flatMap_append]
  congr 1
  rw [← comments]
  cases attributes.docComment <;> cases attributes.comments? <;>
    simp [toList_docText, toList_commentsText shown]

end Attributes

theorem Position.display_inj {position other : Position} {rest others : List Char}
    (ends : StopsWord isHexDigit rest) (otherEnds : StopsWord isHexDigit others)
    (same : position.display.toList ++ rest = other.display.toList ++ others) :
    position = other ∧ rest = others := by
  have number : ∀ {value other : Nat} {separator : Char} {rest others : List Char},
      isHexDigit separator = false →
      Nat.toDigits 10 value ++ separator :: rest = Nat.toDigits 10 other ++ separator :: others →
      value = other ∧ rest = others := by
    intro value other separator rest others noDigit same
    obtain ⟨rfl, rests⟩ := toDigits_append_inj (by decide) (by decide) (.cons noDigit)
      (.cons noDigit) same
    exact ⟨rfl, (List.cons.inj rests).2⟩
  obtain ⟨startLine, endLine, startOffset, endOffset⟩ := position
  obtain ⟨otherStartLine, otherEndLine, otherStart, otherEnd⟩ := other
  simp only [display, Nat.repr, String.toList_append, String.toList_ofList, List.append_assoc]
    at same
  obtain ⟨startLines, afterStartLine⟩ := number (by decide) same
  obtain ⟨starts, afterStart⟩ := number (by decide) afterStartLine
  obtain ⟨endLines, afterEndLine⟩ := number (by decide) afterStart
  obtain ⟨stops, rests⟩ := toDigits_append_inj (by decide) (by decide) ends otherEnds afterEndLine
  subst startLines starts endLines stops
  exact ⟨rfl, rests⟩

/-! ## What stands before the slots -/

namespace SExpr

/-- What is left of what a node carries. -/
def kept (settings : Settings) (info : Info) : Info where
  attributes := info.attributes.unplaced
  position := if settings.positions then info.position else none

/-- What comes behind the opening of a node: a slot on a new line, or its end. -/
def StartsClosing (text : List Char) : Prop := text.head? = some '\n' ∨ text.head? = some ')'

theorem StartsClosing.stops {inWord : Char → Bool} {text : List Char} (closing : StartsClosing text)
    (noNewline : inWord '\n' = false) (noParenthesis : inWord ')' = false) :
      StopsWord inWord text := by
  intro next member
  rcases closing with newline | parenthesis
  · obtain rfl := Option.mem_unique member newline
    exact noNewline
  · obtain rfl := Option.mem_unique member parenthesis
    exact noParenthesis

theorem StartsClosing.ne_space {text tail : List Char} (closing : StartsClosing text) :
    text ≠ ' ' :: tail := by
  rintro rfl
  rcases closing with newline | parenthesis
  · cases newline
  · cases parenthesis

theorem stops_isAlpha_append {part rest : List Char} (spaced : ∀ first ∈ part.head?, first = ' ')
    (stops : StopsWord Char.isAlpha rest) : StopsWord Char.isAlpha (part ++ rest) := by
  cases part with
  | nil => exact stops
  | cons first part =>
      obtain rfl := spaced first rfl
      exact .cons (by decide)

def textPart (node : Node) : List Char :=
  match node.text? with
  | some text => ' ' :: (Quoted.plain text).toList
  | none => []

def placePart (settings : Settings) (position : Option Position) : List Char :=
  match settings.positions, position with
  | true, some position => ' ' :: '@' :: position.display.toList
  | _, _ => []

theorem toList_header {settings : Settings} (shown : settings.comments = true) (node : Node) :
    (header settings node).toList = node.label.toList ++ (textPart node ++
      (node.attributes.marks.flatMap markText ++ placePart settings node.position)) := by
  have place : (positionText settings node).toList = placePart settings node.position := by
    unfold positionText placePart
    cases settings.positions <;> cases node.position <;> simp
  rw [header, String.toList_append, String.toList_append, String.toList_append, place,
    Attributes.toList_attributeText shown, textPart]
  cases node.text? <;> simp

theorem placePart_inj {settings : Settings} {position other : Option Position}
    {rest others : List Char} (closing : StartsClosing rest) (otherClosing : StartsClosing others)
    (same : placePart settings position ++ rest = placePart settings other ++ others) :
    (if settings.positions then position else none) =
      (if settings.positions then other else none) ∧ rest = others := by
  unfold placePart at same
  cases shown : settings.positions with
  | false =>
      simp only [shown] at same
      exact ⟨rfl, same⟩
  | true =>
      simp only [shown] at same
      cases position with
      | none =>
          cases other with
          | none => exact ⟨rfl, same⟩
          | some other => exact absurd same closing.ne_space
      | some position =>
          cases other with
          | none => exact absurd same.symm otherClosing.ne_space
          | some other =>
              have digits := (List.cons.inj (List.cons.inj same).2).2
              obtain ⟨rfl, rests⟩ := Position.display_inj (closing.stops (by decide) (by decide))
                (otherClosing.stops (by decide) (by decide)) digits
              exact ⟨rfl, rests⟩

def EndsMarks (text : List Char) : Prop := ∀ tail, text ≠ ' ' :: '[' :: tail

theorem endsMarks_placePart (settings : Settings) (position : Option Position) {rest : List Char}
    (closing : StartsClosing rest) : EndsMarks (placePart settings position ++ rest) := by
  intro tail
  unfold placePart
  split
  · intro same
    cases (List.cons.inj (List.cons.inj same).2).1
  · exact closing.ne_space

theorem marks_append_inj {attributes other : Attributes} {rest others : List Char}
    (ended : EndsMarks rest) (otherEnded : EndsMarks others)
    (same : attributes.marks.flatMap markText ++ rest = other.marks.flatMap markText ++ others) :
    attributes.marks = other.marks ∧ rest = others := by
  have apart : ∀ text, EndsMarks text → ¬ ∃ tail, text = ' ' :: '[' :: tail :=
    fun text ends ⟨tail, opens⟩ => ends tail opens
  obtain ⟨marks, rests⟩ := flatMap_append_inj apart (fun mark _ rest => ⟨_, rfl⟩)
    (fun mark member another otherMember rest others _ _ => markText_inj
      (Attributes.isAlphabetic_of_mem_marks member)
        (Attributes.isAlphabetic_of_mem_marks otherMember))
    ended otherEnded same
  exact ⟨by simpa using marks, rests⟩

theorem isAlphabetic_label (node : Node) : IsAlphabetic node.label := by
  have all : Form.blanks.all (fun form => form.label.toList.all Char.isAlpha) = true := by decide
  have mine := List.all_eq_true.mp (List.all_eq_true.mp all node.form.blank node.form.blank_mem)
  rw [Form.label_blank] at mine
  exact mine

theorem stops_after_label (settings : Settings) (node : Node) {rest : List Char}
    (closing : StartsClosing rest) :
    StopsWord Char.isAlpha (textPart node ++ (node.attributes.marks.flatMap markText ++
      (placePart settings node.position ++ rest))) := by
  refine stops_isAlpha_append ?_ (stops_isAlpha_append ?_ (stops_isAlpha_append ?_
    (closing.stops (by decide) (by decide))))
  · unfold textPart
    split <;> simp
  · cases node.attributes.marks <;> simp [markText]
  · unfold placePart
    split <;> simp

theorem textPart_inj {node other : Node} (labels : node.label = other.label)
    {rest others : List Char} (same : textPart node ++ rest = textPart other ++ others) :
    node.text? = other.text? ∧ rest = others := by
  have both : node.text?.isSome = other.text?.isSome := Form.isSome_text?_of_label labels
  unfold textPart at same
  cases text : node.text? with
  | none =>
      cases otherText : other.text? with
      | none => 
          simp only [text, otherText, List.nil_append] at same
          exact ⟨rfl, same⟩
      | some value => simp [text, otherText] at both
  | some value =>
      cases otherText : other.text? with
      | none => simp [text, otherText] at both
      | some otherValue =>
          simp only [text, otherText] at same
          obtain ⟨rfl, rests⟩ := Quoted.enclose_inj Quoted.escapePlain_reverses
            (List.cons.inj same).2
          exact ⟨rfl, rests⟩

/-- The opening of a node gives back its label, its text and what is kept of what it carries. -/
theorem header_inj {settings : Settings} (shown : settings.comments = true) {node other : Node}
    {rest others : List Char} (closing : StartsClosing rest) (otherClosing : StartsClosing others)
    (same : (header settings node).toList ++ rest = (header settings other).toList ++ others) :
    node.label = other.label ∧ node.text? = other.text? ∧
      kept settings node.info = kept settings other.info ∧ rest = others := by
  rw [toList_header shown, toList_header shown] at same
  simp only [List.append_assoc] at same
  obtain ⟨labels, afterLabel⟩ :=
    word_append_inj (isAlphabetic_label node) (isAlphabetic_label other)
    (stops_after_label settings node closing) (stops_after_label settings other otherClosing) same
  have labelsEqual := String.toList_injective labels
  obtain ⟨texts, afterText⟩ := textPart_inj labelsEqual afterLabel
  obtain ⟨marks, afterMarks⟩ := marks_append_inj (endsMarks_placePart settings _ closing)
    (endsMarks_placePart settings _ otherClosing) afterText
  obtain ⟨positions, rests⟩ := placePart_inj closing otherClosing afterMarks
  exact ⟨labelsEqual, texts, congrArg₂ Info.mk (Attributes.marks_inj marks) positions, rests⟩

/-! ## Slots and children -/

/-- What comes behind a slot: the next one, or the end of the node. -/
def EndsSlot (level : Nat) (text : List Char) : Prop :=
  (∃ tail, text = ')' :: tail) ∨ ∃ tail, text = indent (level + 1) ++ ':' :: tail

theorem EndsSlot.not_child {level : Nat} {text tail : List Char} (ends : EndsSlot level text) :
    text ≠ indent (level + 2) ++ tail := by
  have deeper : indent (level + 2) = indent (level + 1) ++ [' ', ' '] := by
    have wider : 2 * (level + 2) = 2 * (level + 1) + 2 := by omega
    rw [indent, indent, wider, List.replicate_add]
    rfl
  rintro rfl
  rcases ends with ⟨closed, same⟩ | ⟨next, same⟩
  · cases (List.cons.inj same).1
  · rw [deeper, List.append_assoc] at same
    cases (List.cons.inj (List.append_cancel_left same)).1

theorem EndsSlot.stops {level : Nat} {text : List Char} (ends : EndsSlot level text) :
    StopsWord Char.isAlpha text := by
  rcases ends with ⟨tail, rfl⟩ | ⟨tail, rfl⟩
  · exact .cons (by decide)
  · exact .cons (by decide)

/-- What is written of a node gives back its view and what comes behind. -/
def DeterminesView (write : Node → List Char) (view : Node → Node) (node : Node) : Prop :=
  ∀ other rest others, write node ++ rest = write other ++ others →
    view node = view other ∧ rest = others

section Children
variable {level : Nat} {write : Node → List Char} {view : Node → Node} {rest others : List Char}

theorem children_append_inj {nodes otherNodes : List Node}
    (known : ∀ node ∈ nodes, DeterminesView write view node)
    (ends : EndsSlot level rest) (otherEnds : EndsSlot level others)
    (same : nodes.flatMap (fun child => indent (level + 2) ++ write child) ++ rest =
      otherNodes.flatMap (fun child => indent (level + 2) ++ write child) ++ others) :
    nodes.map view = otherNodes.map view ∧ rest = others := by
  have apart : ∀ text, EndsSlot level text → ¬ ∃ tail, text = indent (level + 2) ++ tail :=
    fun text ends ⟨tail, opens⟩ => ends.not_child opens
  refine flatMap_append_inj apart (fun node _ rest => ⟨_, List.append_assoc ..⟩)
    (fun node member other _ rest others _ _ same => ?_) ends otherEnds same
  rw [List.append_assoc, List.append_assoc] at same
  exact known node member other rest others (List.append_cancel_left same)

theorem stops_after_slot (nodes : List Node) (ends : EndsSlot level rest) :
    StopsWord Char.isAlpha
      (nodes.flatMap (fun child => indent (level + 2) ++ write child) ++ rest) := by
  cases nodes with
  | nil => exact ends.stops
  | cons node nodes => exact .cons (by decide)

theorem slotText_inj {field other : Slot × Field Node} (lists : field.2.isList = field.1.holdsList)
    (otherLists : other.2.isList = other.1.holdsList)
    (known : ∀ node ∈ field.2.toList, DeterminesView write view node)
    (ends : EndsSlot level rest) (otherEnds : EndsSlot level others)
    (same : slotText level write field ++ rest = slotText level write other ++ others) :
    (field.1, field.2.map view) = (other.1, other.2.map view) ∧ rest = others := by
  have named : ∀ slot : Slot, IsAlphabetic slot.name := by
    intro slot
    have all : Slot.all.all (fun slot => slot.name.toList.all Char.isAlpha) = true := by decide
    exact List.all_eq_true.mp (List.all_eq_true.mp all slot slot.mem_all)
  simp only [slotText, List.append_assoc, List.cons_append] at same
  obtain ⟨names, afterName⟩ := word_append_inj (named field.1) (named other.1)
    (stops_after_slot _ ends) (stops_after_slot _ otherEnds)
    (List.cons.inj (List.append_cancel_left same)).2
  have slots : field.1 = other.1 := Slot.name_inj (String.toList_injective names)
  obtain ⟨children, rests⟩ := children_append_inj known ends otherEnds afterName
  have mapped : ∀ field : Field Node,
      field.map view = .ofList field.isList (field.toList.map view) := by
    intro field
    have isList : (field.map view).isList = field.isList := by cases field <;> rfl
    rw [← Field.ofList_toList (field.map view), isList, Field.toList_map]
  rw [mapped, mapped, lists, otherLists, slots, children]
  exact ⟨rfl, rests⟩

theorem slots_append_inj {form other : Form Node}
    (known : ∀ node ∈ form.children, DeterminesView write view node)
    (same : form.reported.flatMap (slotText level write) ++ ')' :: rest =
      other.reported.flatMap (slotText level write) ++ ')' :: others) :
    (form.map view).reported = (other.map view).reported ∧ rest = others := by
  have apart : ∀ text : List Char, (∃ tail, text = ')' :: tail) →
      ¬ ∃ tail, text = indent (level + 1) ++ ':' :: tail := by
    rintro text ⟨tail, rfl⟩ ⟨next, same⟩
    cases (List.cons.inj same).1
  have opening : ∀ field ∈ form.reported ++ other.reported, ∀ rest,
      ∃ tail, slotText level write field ++ rest = indent (level + 1) ++ ':' :: tail :=
    fun field _ rest => ⟨_, List.append_assoc ..⟩
  rw [Form.reported_map, Form.reported_map]
  obtain ⟨slots, rests⟩ := flatMap_append_inj apart opening
    (fun field member another otherMember rest others ends otherEnds same =>
      slotText_inj (Form.isList_of_mem_reported member) (Form.isList_of_mem_reported otherMember)
        (fun node inside => known node (Form.mem_children_of_reported member inside))
        ends otherEnds same) ⟨rest, rfl⟩ ⟨others, rfl⟩ same
  exact ⟨slots, (List.cons.inj rests).2⟩

end Children

theorem startsClosing_slots (level : Nat) (write : Node → List Char) (form : Form Node)
    (rest : List Char) :
    StartsClosing (form.reported.flatMap (slotText level write) ++ ')' :: rest) := by
  cases form.reported with
  | nil => exact .inr rfl
  | cons field fields => exact .inl rfl

/-- The text of a node gives back the node, up to what is not written, and what comes behind. -/
theorem rendered_inj {settings : Settings} (shown : settings.comments = true) (node : Node) :
    ∀ level,
      DeterminesView (fun node => rendered settings node level) (Node.mapInfo (kept settings))
      node := by
  induction node using Node.induction with
  | step node inductionHypothesis =>
      intro level other rest others same
      beta_reduce at same
      rw [rendered_eq, rendered_eq] at same
      simp only [List.cons_append, List.append_assoc, List.nil_append, List.cons.injEq,
        true_and] at same
      obtain ⟨labels, texts, infos, slots⟩ := header_inj shown (startsClosing_slots ..)
        (startsClosing_slots ..) same
      obtain ⟨fields, rests⟩ := slots_append_inj
        (fun child member => inductionHypothesis child member (level + 2)) slots
      have forms : node.form.map (Node.mapInfo (kept settings)) =
          other.form.map (Node.mapInfo (kept settings)) :=
        Form.eq_of_reported (by simpa [Node.label] using labels) (by simpa [Node.text?] using texts)
          fields
      cases node
      cases other
      rw [Node.mapInfo_mk, Node.mapInfo_mk]
      exact ⟨congrArg₂ Node.mk infos forms, rests⟩

theorem toList_header_kept {settings : Settings} (shown : settings.comments = true) (info : Info)
    (form : Form Node) (change : Node → Node) :
    (header settings (.mk (kept settings info) (form.map change))).toList =
      (header settings (.mk info form)).toList := by
  have labels : (Node.mk (kept settings info) (form.map change)).label =
      (Node.mk info form).label := form.label_map change
  have texts : textPart (.mk (kept settings info) (form.map change)) =
      textPart (.mk info form) := by
    rw [textPart, textPart, Node.text?, Node.text?, Node.form, Form.text?_map]
    rfl
  have marks : info.attributes.unplaced.marks = info.attributes.marks := by
    have slots : info.attributes.unplaced.markSlots = info.attributes.markSlots := rfl
    rw [Attributes.marks, slots, Attributes.marks]
    simp [Attributes.unplaced, Function.comp_def]
  have places : placePart settings (if settings.positions then info.position else none) =
      placePart settings info.position := by
    unfold placePart
    cases settings.positions <;> rfl
  rw [toList_header shown, toList_header shown, labels, texts]
  exact congrArg₂ (fun marks place => _ ++ (_ ++ (marks.flatMap markText ++ place))) marks places

/-- What is not kept is not written. -/
theorem rendered_mapInfo {settings : Settings} (shown : settings.comments = true) (node : Node) :
    ∀ level, rendered settings (node.mapInfo (kept settings)) level =
      rendered settings node level := by
  induction node using Node.induction with
  | step node inductionHypothesis =>
      intro level
      cases node with
      | mk info form =>
          have slots : ∀ field ∈ form.reported,
              slotText level (fun child => rendered settings child (level + 2))
                (field.1, field.2.map (Node.mapInfo (kept settings))) =
              slotText level (fun child => rendered settings child (level + 2)) field := by
            intro field member
            have children : ∀ child ∈ field.2.toList,
                rendered settings (child.mapInfo (kept settings)) (level + 2) =
                  rendered settings child (level + 2) :=
              fun child inside => inductionHypothesis child
                (Form.mem_children_of_reported member inside) (level + 2)
            rw [slotText, slotText, Field.toList_map, List.flatMap_map]
            congr 3
            exact List.flatMap_congr fun child inside => by rw [children child inside]
          rw [Node.mapInfo_mk, rendered_eq, rendered_eq, toList_header_kept shown, Node.form,
            Form.reported_map, List.flatMap_map, List.flatMap_congr slots]
          rfl

theorem format_eq_iff_kept {settings : Settings} (shown : settings.comments = true)
    (node other : Node) :
    format settings node = format settings other ↔
      node.mapInfo (kept settings) = other.mapInfo (kept settings) := by
  constructor
  · intro same
    have texts := congrArg String.toList same
    rw [toList_format, toList_format] at texts
    exact (rendered_inj shown node 0 other [] [] (congrArg (· ++ []) texts)).1
  · intro same
    refine String.toList_injective ?_
    rw [toList_format, toList_format, ← rendered_mapInfo shown, same, rendered_mapInfo shown]

end SExpr

namespace Node

/-- The tree without the positions of its nodes and comments. -/
def placeless : Node → Node := mapInfo fun info => { attributes := info.attributes.unplaced }

/-- The tree without the positions of its comments. -/
def withPlacelessComments : Node → Node :=
  mapInfo fun info => { info with attributes := info.attributes.unplaced }

end Node

/-- Two trees are written alike only if they differ in nothing but positions: in any of them, or,
when positions are shown, in those of comments. -/
theorem SExpr.format_eq_iff (node other : Node) :
    (format {} node = format {} other ↔ node.placeless = other.placeless) ∧
      (format { positions := true } node = format { positions := true } other ↔
        node.withPlacelessComments = other.withPlacelessComments) :=
  ⟨format_eq_iff_kept rfl node other, format_eq_iff_kept rfl node other⟩

end PhpTree
