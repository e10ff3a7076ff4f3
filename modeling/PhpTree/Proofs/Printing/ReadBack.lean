import PhpTree.Proofs.Erasing
import PhpTree.Proofs.Printing.Fitting

/-! # Reading words back

`ReadsBack context depth parser before after post`: from a cursor that faces the
words `before` and nothing else, the parser gets to one that faces `after`, without an
error, at the same depth, and with an answer of which `post` holds.  Running out of
fuel is left open: that reading ends is known for sources without a close tag. -/
set_option autoImplicit false
namespace PhpTree

namespace Node

/-- The tree without its positions. -/
def unplaced : Node → Node := mapInfo fun info => { info with position := none }

@[simp]
theorem unplaced_mk (info : Info) (form : Form Node) :
    (Node.mk info form).unplaced = .mk { info with position := none } (form.map unplaced) :=
  mapInfo_mk ..

@[simp]
theorem unplaced_withPosition (node : Node) (position : Position) :
    (node.withPosition position).unplaced = node.unplaced := by
  cases node with
  | mk info form => rw [withPosition, unplaced_mk, unplaced_mk]; rfl

@[simp]
theorem unplaced_bare (form : Form Node) : (bare form).unplaced = bare (form.map unplaced) :=
  unplaced_mk ..

@[simp]
theorem unplaced_flagged (attributes : Attributes) (form : Form Node) :
    (flagged attributes form).unplaced = flagged attributes (form.map unplaced) :=
  unplaced_mk ..

@[simp]
theorem unplaced_leaf (kind : LeafKind) (text : String) :
    (leaf kind text).unplaced = leaf kind text :=
  unplaced_mk ..

end Node

namespace Word

def headKind : List Word → TokenKind
  | [] => .eof
  | word :: _ => word.kind

/-- The words after a comma, if there is one. -/
def afterComma (words : List Word) : List Word :=
  if headKind words = .comma then words.tail else words

@[simp]
theorem headKind_cons (word : Word) (words : List Word) : headKind (word :: words) = word.kind :=
  rfl

@[simp]
theorem kind_fixed (kind : TokenKind) : (fixed kind).kind = kind := rfl

end Word

theorem Printed.BeginsWith.headKind {accepts : TokenKind → Bool} {printed : Printed}
    (begins : printed.BeginsWith accepts) (rest : List Word) :
    accepts (Word.headKind (printed.words ++ rest)) = true := by
  obtain ⟨word, others, words, accepted⟩ := begins
  rw [words]
  exact accepted

theorem Printed.BeginsWith.headKind_ne {accepts : TokenKind → Bool} {printed : Printed}
    (begins : printed.BeginsWith accepts) {kind : TokenKind} (refused : accepts kind = false)
    (rest : List Word) : Word.headKind (printed.words ++ rest) ≠ kind := by
  intro same
  have accepted := begins.headKind rest
  rw [same, refused] at accepted
  cases accepted

/-- The words are all that is ahead, and nothing has gone wrong so far. -/
structure Cursor.FacesWords (cursor : Cursor) (words : List Word) (depth : Nat) : Prop where
  ahead : cursor.tokens.map Token.word = words ++ [⟨.eof, ""⟩]
  quiet : ∀ item ∈ cursor.current :: cursor.following, item.comments = [] ∧ item.unterminated = []
  undocumented : cursor.pendingDoc = none
  clean : cursor.errors = []
  depth : cursor.depth = depth

namespace Cursor.FacesWords

variable {cursor : Cursor} {words : List Word} {depth : Nat}

theorem kind (faces : cursor.FacesWords words depth) : cursor.kind = Word.headKind words := by
  have ahead := faces.ahead
  cases words with
  | nil =>
      rw [tokens, List.map_cons, List.nil_append, List.cons.injEq] at ahead
      exact congrArg Word.kind ahead.1
  | cons word words =>
      rw [tokens, List.map_cons, List.cons_append, List.cons.injEq] at ahead
      exact congrArg Word.kind ahead.1

theorem text {word : Word} (faces : cursor.FacesWords (word :: words) depth) :
    cursor.current.token.text = word.text := by
  have ahead := faces.ahead
  rw [tokens, List.map_cons, List.cons_append, List.cons.injEq] at ahead
  exact congrArg Word.text ahead.1

theorem following {word : Word} (faces : cursor.FacesWords (word :: words) depth) :
    ∃ item rest, cursor.following = item :: rest ∧
      (item.token :: rest.map Item.token).map Token.word = words ++ [⟨.eof, ""⟩] := by
  have ahead := faces.ahead
  rw [tokens, List.map_cons, List.cons_append, List.cons.injEq] at ahead
  cases items : cursor.following with
  | nil => simp [items] at ahead
  | cons item rest =>
      rw [items] at ahead
      exact ⟨item, rest, rfl, ahead.2⟩

theorem nextKind {word : Word} (faces : cursor.FacesWords (word :: words) depth) :
    cursor.nextKind = Word.headKind words := by
  obtain ⟨item, rest, items, ahead⟩ := faces.following
  rw [Cursor.nextKind, items]
  cases words with
  | nil => exact congrArg Word.kind (List.cons.inj ahead).1
  | cons word words => exact congrArg Word.kind (List.cons.inj ahead).1

theorem advance {word : Word} (faces : cursor.FacesWords (word :: words) depth)
    (context : Context) :
    (cursor.advance context).FacesWords words depth := by
  obtain ⟨item, rest, items, ahead⟩ := faces.following
  have quiet : ∀ other ∈ item :: rest, other.comments = [] ∧ other.unterminated = [] := by
    intro other member
    apply faces.quiet
    rw [items]
    exact .tail _ member
  have noDoc : item.docComment? = none := by
    simp [Item.docComment?, (quiet item (List.mem_cons_self ..)).1]
  have stepped : cursor.advance context =
      { cursor with current := item, following := rest, lastEnd := cursor.current.token.stop } := by
    simp only [Cursor.advance, items, noDoc]
    cases rest with
    | nil => rfl
    | cons next rest =>
        have silent := (quiet next (.tail _ (List.mem_cons_self ..))).2
        simp [lookAhead, view, silent]
  rw [stepped]
  exact ⟨ahead, quiet, faces.undocumented, faces.clean, faces.depth⟩

theorem clearDoc (faces : cursor.FacesWords words depth) : cursor.clearDoc.FacesWords words depth :=
  ⟨faces.ahead, faces.quiet, rfl, faces.clean, faces.depth⟩

theorem dropComments (faces : cursor.FacesWords words depth) :
    cursor.dropComments.FacesWords words depth := by
  refine ⟨faces.ahead, ?_, faces.undocumented, faces.clean, faces.depth⟩
  intro item member
  rcases List.mem_cons.mp member with rfl | member
  · exact ⟨rfl, (faces.quiet cursor.current (List.mem_cons_self ..)).2⟩
  · exact faces.quiet item (.tail _ member)

theorem comments (faces : cursor.FacesWords words depth) (context : Context) :
    cursor.comments context = [] := by
  have quiet := (faces.quiet cursor.current (List.mem_cons_self ..)).1
  simp [Cursor.comments, quiet]

end Cursor.FacesWords

def ReadsBack {α : Type} (context : Context) (depth : Nat) (parser : Parse α)
    (before after : List Word) (post : α → Prop) : Prop :=
  ∀ cursor : Cursor, cursor.FacesWords before depth →
    RunMeets True context parser cursor fun answer last => post answer ∧ last.FacesWords after depth

namespace ReadsBack
open Parse

variable {α β : Type} {context : Context} {depth : Nat} {before middle after rest : List Word}

theorem mono {parser : Parse α} {post weaker : α → Prop}
    (reads : ReadsBack context depth parser before after post)
    (weaken : ∀ answer, post answer → weaker answer) :
    ReadsBack context depth parser before after weaker := by
  intro cursor faces
  exact (reads cursor faces).mono fun answer last ⟨holds, faces⟩ => ⟨weaken answer holds, faces⟩

theorem out {parser : Parse α} {post : α → Prop}
    (run : ∀ cursor, parser context cursor = none) :
    ReadsBack context depth parser before after post := by
  intro cursor _
  exact .out trivial (run cursor)

theorem pure {post : α → Prop} {answer : α} (holds : post answer) :
    ReadsBack context depth (Pure.pure answer) rest rest post := by
  intro cursor faces
  exact .pure ⟨holds, faces⟩

theorem bind {parser : Parse α} {next : α → Parse β} {mid : α → Prop} {post : β → Prop}
    (first : ReadsBack context depth parser before middle mid)
    (then_ : ∀ answer, mid answer → ReadsBack context depth (next answer) middle after post) :
    ReadsBack context depth (parser >>= next) before after post := by
  intro cursor faces
  apply (first cursor faces).bind
  intro answer last ⟨holds, faces⟩
  exact then_ answer holds last faces

theorem bind_some {parser : Parse (Option Node)} {next : Option Node → Parse β} {node : Node}
    {post : β → Prop}
    (first : ReadsBack context depth parser before middle fun answer =>
      answer.map Node.unplaced = some node)
    (then_ : ∀ read : Node, read.unplaced = node →
      ReadsBack context depth (next (some read)) middle after post) :
    ReadsBack context depth (parser >>= next) before after post := by
  apply bind first
  intro answer mapped
  obtain ⟨read, rfl, same⟩ := Option.map_eq_some_iff.mp mapped
  exact then_ read same

theorem map {parser : Parse α} {change : α → β} {post : β → Prop}
    (reads : ReadsBack context depth parser before after fun answer => post (change answer)) :
    ReadsBack context depth (change <$> parser) before after post :=
  bind reads fun _ holds => pure holds

theorem found {parser : Parse Node} {node : Node}
    (reads : ReadsBack context depth parser before after fun answer => answer.unplaced = node) :
    ReadsBack context depth (some <$> parser) before after fun answer =>
      answer.map Node.unplaced = some node :=
  map (reads.mono fun _ same => congrArg some same)

/-! ## Primitive parsers in front of a continuation -/

section Continuation
variable {post : α → Prop}

theorem kind {next : TokenKind → Parse α}
    (reads : ReadsBack context depth (next (Word.headKind before)) before after post) :
    ReadsBack context depth (Parse.kind >>= next) before after post := by
  intro cursor faces
  apply RunMeets.kind
  rw [faces.kind]
  exact reads cursor faces

theorem kind_eq (found : TokenKind) {next : TokenKind → Parse α}
    (same : Word.headKind before = found)
    (reads : ReadsBack context depth (next found) before after post) :
    ReadsBack context depth (Parse.kind >>= next) before after post :=
  kind (same ▸ reads)

theorem nextKind_eq (found : TokenKind) {word : Word} {next : TokenKind → Parse α}
    (same : Word.headKind rest = found)
    (reads : ReadsBack context depth (next found) (word :: rest) after post) :
    ReadsBack context depth (Parse.nextKind >>= next) (word :: rest) after post := by
  intro cursor faces
  apply RunMeets.nextKind
  rw [faces.nextKind, same]
  exact reads cursor faces

theorem nextKind_any {next : TokenKind → Parse α}
    (reads : ∀ found, ReadsBack context depth (next found) before after post) :
    ReadsBack context depth (Parse.nextKind >>= next) before after post := by
  intro cursor faces
  exact .nextKind (reads cursor.nextKind cursor faces)

theorem start {next : Nat → Parse α}
    (reads : ∀ start, ReadsBack context depth (next start) before after post) :
    ReadsBack context depth (Parse.start >>= next) before after post := by
  intro cursor faces
  exact .start (reads cursor.start cursor faces)

theorem advance {word : Word} {next : Unit → Parse α}
    (reads : ReadsBack context depth (next ()) rest after post) :
    ReadsBack context depth (Parse.advance >>= next) (word :: rest) after post := by
  intro cursor faces
  exact .advance (reads _ (faces.advance context))

theorem clearDoc {next : Unit → Parse α}
    (reads : ReadsBack context depth (next ()) before after post) :
    ReadsBack context depth (Parse.clearDoc >>= next) before after post := by
  intro cursor faces
  exact .clearDoc (reads _ faces.clearDoc)

theorem takeDoc {next : Option String → Parse α}
    (reads : ReadsBack context depth (next none) before after post) :
    ReadsBack context depth (Parse.takeDoc >>= next) before after post := by
  intro cursor faces
  apply RunMeets.takeDoc
  rw [faces.undocumented]
  exact reads _ faces.clearDoc

theorem takeComments {next : List Comment → Parse α}
    (reads : ReadsBack context depth (next []) before after post) :
    ReadsBack context depth (Parse.takeComments >>= next) before after post := by
  intro cursor faces
  apply RunMeets.takeComments
  rw [faces.comments context]
  exact reads _ faces.dropComments

theorem finish {start : Nat} {node : Node} {next : Node → Parse α}
    (reads : ∀ position, ReadsBack context depth (next (node.withPosition position)) before after
      post) :
    ReadsBack context depth (Parse.finish start node >>= next) before after post := by
  intro cursor faces
  exact .finish (reads _ cursor faces)

theorem leaf {word : Word} {kind : LeafKind} {next : Node → Parse α}
    (reads : ∀ position, ReadsBack context depth
      (next ((Node.leaf kind word.text).withPosition position)) rest after post) :
    ReadsBack context depth (Parse.leaf kind >>= next) (word :: rest) after post := by
  intro cursor faces
  apply RunMeets.leaf
  rw [faces.text]
  exact reads _ _ (faces.advance context)

theorem eat_found {word : Word} {wanted : TokenKind} {next : Bool → Parse α}
    (same : word.kind = wanted) (reads : ReadsBack context depth (next true) rest after post) :
    ReadsBack context depth (Parse.eat wanted >>= next) (word :: rest) after post := by
  intro cursor faces
  apply RunMeets.eat
  · intro _
    exact reads _ (faces.advance context)
  · intro differs
    exact absurd (faces.kind.trans same) differs

theorem eat_missing {wanted : TokenKind} {next : Bool → Parse α}
    (differs : Word.headKind before ≠ wanted)
    (reads : ReadsBack context depth (next false) before after post) :
    ReadsBack context depth (Parse.eat wanted >>= next) before after post := by
  intro cursor faces
  apply RunMeets.eat
  · intro same
    rw [faces.kind] at same
    exact absurd same differs
  · intro _
    exact reads cursor faces

theorem eat_given {flag : Bool} {wanted : TokenKind} {next : Bool → Parse α}
    (differs : Word.headKind rest ≠ wanted)
    (reads : ReadsBack context depth (next flag) rest after post) :
    ReadsBack context depth (Parse.eat wanted >>= next)
      ((Printed.given (some flag) (.token wanted)).words ++ rest) after post := by
  cases flag with
  | true => exact eat_found rfl reads
  | false => exact eat_missing differs reads

theorem expect {word : Word} {wanted : TokenKind} {expected : Expected} {next : Bool → Parse α}
    (same : word.kind = wanted) (reads : ReadsBack context depth (next true) rest after post) :
    ReadsBack context depth (Parse.expect wanted expected >>= next) (word :: rest) after post := by
  intro cursor faces
  apply RunMeets.expect
  · intro _
    exact reads _ (faces.advance context)
  · intro differs
    exact absurd (faces.kind.trans same) differs

end Continuation

/-! ## Primitive parsers by themselves -/

theorem finished {start : Nat} {node : Node} {post : Node → Prop}
    (holds : ∀ position, post (node.withPosition position)) :
    ReadsBack context depth (Parse.finish start node) rest rest post := by
  intro cursor faces
  exact .finished ⟨holds _, faces⟩

theorem someLeaf {word : Word} {kind : LeafKind} {post : Option Node → Prop}
    (holds : ∀ position, post (some ((Node.leaf kind word.text).withPosition position))) :
    ReadsBack context depth (some <$> Parse.leaf kind) (word :: rest) rest post :=
  fun _ faces => .someLeaf ⟨faces.text ▸ holds _, faces.advance context⟩

/-- A comma after an item is passed over, and says that another item follows. -/
theorem eat_comma {tail : List Word} {next : Bool → Parse α} {post : α → Prop}
    (reads : ReadsBack context depth (next (Word.headKind tail == .comma)) (Word.afterComma tail)
      after post) :
    ReadsBack context depth (Parse.eat .comma >>= next) tail after post := by
  by_cases comma : Word.headKind tail = .comma
  · cases tail with
    | nil => cases comma
    | cons word rest =>
        rw [Word.afterComma, if_pos comma, comma] at reads
        exact eat_found comma reads
  · rw [Word.afterComma, if_neg comma, beq_eq_false_iff_ne.mpr comma] at reads
    exact eat_missing comma reads

theorem deeper {refused parser : Parse α} {post : α → Prop}
    (room : depth < context.options.maxDepth)
    (reads : ReadsBack context (depth + 1) parser before after post) :
    ReadsBack context depth (Parse.deeper refused parser) before after post := by
  intro cursor faces
  have inner : ({ cursor with depth := cursor.depth + 1 } : Cursor).FacesWords before (depth + 1) :=
    ⟨faces.ahead, faces.quiet, faces.undocumented, faces.clean, congrArg (· + 1) faces.depth⟩
  have outcome := (reads _ inner).outcome
  constructor
  rw [deeper_of_room (faces.depth.symm ▸ room)]
  cases run : parser context { cursor with depth := cursor.depth + 1 } with
  | none => trivial
  | some result =>
      rw [run] at outcome
      obtain ⟨holds, faces⟩ := outcome
      exact ⟨holds, faces.ahead, faces.quiet, faces.undocumented, faces.clean,
        congrArg (· - 1) faces.depth⟩

/-! ## Loops -/

theorem loop {step : α → Parse (α × Bool)} {value : α} {mid : α × Bool → Prop} {post : α → Prop}
    (first : ReadsBack context depth (step value) before middle mid)
    (goesOn : ∀ fuel value, mid (value, true) →
      ReadsBack context depth (Parse.loop step fuel value) middle after post)
    (stops : ∀ value, mid (value, false) → middle = after ∧ post value) (fuel : Nat) :
    ReadsBack context depth (Parse.loop step fuel value) before after post := by
  cases fuel with
  | zero => exact out fun _ => rfl
  | succ fuel =>
      intro cursor faces
      have outcome := (first cursor faces).outcome
      constructor
      simp only [Parse.loop]
      cases run : step value context cursor with
      | none => trivial
      | some result =>
          obtain ⟨⟨value, continues⟩, last⟩ := result
          rw [run] at outcome
          obtain ⟨holds, faces⟩ := outcome
          cases continues with
          | true => exact (goesOn fuel value holds last faces).outcome
          | false =>
              obtain ⟨rfl, holds⟩ := stops value holds
              exact ⟨holds, faces⟩

def StopsRound (context : Context) (depth : Nat) (round : Parse (Option Node × Bool))
    (rest : List Word) : Prop :=
  ReadsBack context depth round rest rest (· = (none, false))

/-- A round that finds the node in front of the others. Only after the last node it may stop; if it
goes on there, another round finds nothing. -/
def Finds (context : Context) (depth : Nat) (round : Parse (Option Node × Bool))
    (ahead : List Node → List Word) (node : Node) (others : List Node) : Prop :=
  ReadsBack context depth round (ahead (node :: others)) (ahead others) fun answer =>
    answer.1.map Node.unplaced = some node ∧ (answer.2 = false → others = []) ∧
      (answer.2 = true → others = [] → StopsRound context depth round (ahead []))

section Collecting
variable {round : Parse (Option Node × Bool)} {ahead : List Node → List Word}

theorem collectStep_stops (stops : StopsRound context depth round rest) (found : List Node) :
    ReadsBack context depth (collectStep round found) rest rest (· = (found, false)) := by
  apply bind stops
  rintro _ rfl
  exact pure rfl

theorem collectStep_finds {node : Node} {others : List Node}
    (finds : Finds context depth round ahead node others) (found : List Node) :
    ReadsBack context depth (collectStep round found) (ahead (node :: others)) (ahead others)
      fun answer =>
        (∃ read, answer.1 = read :: found ∧ read.unplaced = node) ∧
          (answer.2 = false → others = []) ∧
          (answer.2 = true → others = [] → StopsRound context depth round (ahead [])) := by
  apply bind finds
  rintro ⟨item, continues⟩ ⟨mapped, last, more⟩
  obtain ⟨read, rfl, same⟩ := Option.map_eq_some_iff.mp mapped
  exact pure ⟨⟨read, rfl, same⟩, last, more⟩

theorem loop_collects (nodes : List Node)
    (ends : nodes = [] → StopsRound context depth round (ahead []))
    (each : ∀ node ∈ nodes, ∀ others, Finds context depth round ahead node others)
    (found : List Node) (fuel : Nat) :
    ReadsBack context depth (Parse.loop (collectStep round) fuel found) (ahead nodes) (ahead [])
      fun answer =>
        answer.reverse.map Node.unplaced = found.reverse.map Node.unplaced ++ nodes := by
  induction nodes generalizing found fuel with
  | nil =>
      apply loop (collectStep_stops (ends rfl) found)
      · rintro _ _ ⟨⟩
      · rintro _ ⟨⟩
        simp
  | cons node others inductionHypothesis =>
      apply loop (collectStep_finds (each node (List.mem_cons_self ..) others) found)
      · rintro fuel _ ⟨⟨read, rfl, same⟩, _, more⟩
        apply (inductionHypothesis (more rfl) (fun node member => each node (.tail _ member))
          (read :: found) fuel).mono
        intro answer collected
        simp [collected, same]
      · rintro _ ⟨⟨read, rfl, same⟩, last, _⟩
        obtain rfl := last rfl
        simp [same]

/-- Nodes are collected one by one; what is ahead follows from the nodes still to come. -/
theorem collect (nodes : List Node) (ends : nodes = [] → StopsRound context depth round (ahead []))
    (each : ∀ node ∈ nodes, ∀ others, Finds context depth round ahead node others)
    (fuel : Nat) :
    ReadsBack context depth (Parse.collect fuel round) (ahead nodes) (ahead []) fun answer =>
      answer.map Node.unplaced = nodes := by
  apply bind (loop_collects nodes ends each [] fuel)
  intro answer collected
  exact pure (by simpa using collected)

theorem finds_joined {print : Node → List Word} {node : Node}
    (stops : StopsRound context depth round rest)
    (reads : ∀ tail, ReadsBack context depth round (print node ++ tail) tail
      fun answer => answer.1.map Node.unplaced = some node ∧ answer.2 = true)
    (others : List Node) :
    Finds context depth round (fun nodes => nodes.flatMap print ++ rest) node others := by
  rw [Finds, List.flatMap_cons, List.append_assoc]
  apply (reads _).mono
  rintro answer ⟨same, goesOn⟩
  exact ⟨same, fun last => absurd (goesOn.symm.trans last) (by decide), fun _ _ => stops⟩

theorem collect_joined {print : Node → List Word} {nodes : List Node}
    (stops : StopsRound context depth round rest)
    (each : ∀ node ∈ nodes, ∀ tail, ReadsBack context depth round (print node ++ tail) tail
      fun answer => answer.1.map Node.unplaced = some node ∧ answer.2 = true)
    (fuel : Nat) :
    ReadsBack context depth (Parse.collect fuel round) (nodes.flatMap print ++ rest) rest
      fun answer => answer.map Node.unplaced = nodes :=
  @collect _ _ round (fun nodes => nodes.flatMap print ++ rest) nodes (fun _ => stops)
    (fun node member => finds_joined stops (each node member)) fuel

/-- Nodes with commas between them, and none at the end. -/
theorem collect_separated {print : Node → Printed} {nodes : List Node} {closer : TokenKind}
    (noComma : closer ≠ .comma) (closes : Word.headKind rest = closer)
    (stops : nodes = [] → StopsRound context depth round rest)
    (each : ∀ node ∈ nodes, ∀ tail, Word.headKind tail = .comma ∨ Word.headKind tail = closer →
      ReadsBack context depth round ((print node).words ++ tail) (Word.afterComma tail)
        fun answer => answer.1.map Node.unplaced = some node ∧
          answer.2 = (Word.headKind tail == .comma))
    (fuel : Nat) :
    ReadsBack context depth (Parse.collect fuel round)
      ((Printed.separated .comma (nodes.map print)).words ++ rest) rest
      fun answer => answer.map Node.unplaced = nodes := by
  apply @collect _ _ round
    (fun nodes => (Printed.separated .comma (nodes.map print)).words ++ rest) nodes stops
  intro node member others
  rw [Finds, List.map_cons, Printed.separated, Printed.words_append, List.append_assoc]
  cases others with
  | nil =>
      have reads := each node member rest (Or.inr closes)
      rw [Word.afterComma, if_neg (closes ▸ noComma), closes, beq_eq_false_iff_ne.mpr noComma]
        at reads
      apply reads.mono
      rintro answer ⟨same, last⟩
      exact ⟨same, fun _ => rfl, fun goesOn => absurd (last.symm.trans goesOn) (by decide)⟩
  | cons next others =>
      apply (each node member _ (Or.inl rfl)).mono
      rintro answer ⟨same, goesOn⟩
      have goesOn : answer.2 = true := goesOn
      exact ⟨same, fun last => absurd (goesOn.symm.trans last) (by decide),
        fun _ empty => absurd empty (List.cons_ne_nil next others)⟩

end Collecting

end ReadsBack
end PhpTree
