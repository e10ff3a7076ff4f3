import PhpTree.Parse.Program
import PhpTree.Proofs.Erasing
import PhpTree.Proofs.Onward

/-! # Two parses of one grammar

The same productions are read from two cursors.  A pairing says which cursors are
`aligned`, and how they stay so whatever single step the parses take together.  Behind a
semicolon they may also have `parted`: there the left source has come to its end, and the
right one goes on.  What the parses make of their sources need not be equal: offsets,
comments and what nodes carry are compared up to what the pairing looks at.

Only runs of the left parse that end at a clean cursor count, and those were clean all
along.  `Simulates pairing before after relates first second`: from cursors related by
`before`, every run of the first parser that counts is matched by a run of the second;
the answers are related, and so are the cursors behind.  There is a rule for every way to
build a parser. -/
set_option autoImplicit false
namespace PhpTree

/-- The attributes are the same up to doc comments and comments, and these are related. -/
structure Attributes.Accord (docView : Option String → Option String)
    (annotates : List Comment → List Comment → Prop) (attributes other : Attributes) : Prop where
  flags : { attributes with docComment := none, comments := [] } =
    { other with docComment := none, comments := [] }
  doc : docView attributes.docComment = docView other.docComment
  comments : annotates attributes.comments other.comments

theorem Attributes.Accord.eq {attributes other : Attributes}
    (accord : attributes.Accord id Eq other) :
    attributes = other := by
  have doc : attributes.docComment = other.docComment := accord.doc
  calc attributes
      = { { attributes with docComment := none, comments := [] } with
          docComment := attributes.docComment, comments := attributes.comments } := rfl
    _ = { { other with docComment := none, comments := [] } with
          docComment := other.docComment, comments := other.comments } := by
        rw [accord.flags, doc, accord.comments]
    _ = other := rfl

/-- Two contexts to parse in, and the cursors behind runs of the left parse that count. -/
structure Contexts where
  left : Context
  right : Context
  limit : left.options.maxDepth ≤ right.options.maxDepth
  clean : Cursor → Prop
  clean_of_onward : ∀ {before after : Cursor}, before.MovesOnward after → clean after → clean before
  /-- Where the left parse is refused for its limit and the right one is not. -/
  refused : left.options.maxDepth < right.options.maxDepth →
    ∀ cursor : Cursor, clean cursor → cursor.errors = []

/-- Every run counts. -/
@[reducible]
def Contexts.everyRun (left right : Context)
    (limit : left.options.maxDepth = right.options.maxDepth) : Contexts where
  left
  right
  limit := Nat.le_of_eq limit
  clean _ := True
  clean_of_onward _ _ := trivial
  refused higher := absurd limit (Nat.ne_of_lt higher)

/-- Only a run without errors counts, so no level is refused on the left. -/
@[reducible]
def Contexts.errorFree (left right : Context)
    (limit : left.options.maxDepth ≤ right.options.maxDepth) : Contexts where
  left
  right
  limit
  clean cursor := cursor.errors = []
  clean_of_onward := Cursor.MovesOnward.clean_before
  refused _ _ clean := clean

/-- Where the left source has come to its end, and the right one goes on. -/
structure Parting (contexts : Contexts) where
  parted : Cursor → Cursor → Prop
  parted_kept : Cursor.KeptInPlace parted
  kind_parted : ∀ {here there : Cursor}, parted here there → here.kind = .eof
  report_parted : ∀ {here there : Cursor} (expected : Expected), parted here there →
    ¬ contexts.clean (here.report contexts.left expected)

@[reducible]
def Parting.never (contexts : Contexts) : Parting contexts where
  parted _ _ := False
  parted_kept := .never
  kind_parted := False.elim
  report_parted _ := False.elim

structure Pairing extends Contexts, Parting toContexts where
  aligned : Cursor → Cursor → Prop
  aligned_kept : Cursor.KeptInPlace aligned
  kind : ∀ {here there : Cursor}, aligned here there → here.kind = there.kind
  text : ∀ {here there : Cursor}, aligned here there →
    here.current.token.text = there.current.token.text
  nextKind : ∀ {here there : Cursor}, aligned here there → here.kind ≠ .semicolon →
    here.nextKind = there.nextKind
  note : ∀ {here there : Cursor} (entry : Cursor → JournalEntry), aligned here there →
    aligned (here.note (entry here)) (there.note (entry there))
  advance : ∀ {here there : Cursor}, aligned here there → here.kind ≠ .semicolon →
    aligned (here.advance left) (there.advance right)
  report : ∀ {here there : Cursor} (expected : Expected), aligned here there →
    clean (here.report left expected) →
    aligned (here.report left expected) (there.report right expected)
  reportTooDeep : ∀ {here there : Cursor},
    left.options.maxDepth = right.options.maxDepth → aligned here there →
    clean (here.reportTooDeep left) → aligned (here.reportTooDeep left) (there.reportTooDeep right)
  semicolon : ∀ {here there : Cursor}, aligned here there → here.kind = .semicolon →
    aligned (here.advance left) (there.advance right) ∨
      parted (here.advance left) (there.advance right)
  skipToStatementEnd : ∀ {here there : Cursor}, aligned here there →
    aligned (here.skipToStatementEnd left) (there.skipToStatementEnd right) ∨
      parted (here.skipToStatementEnd left) (there.skipToStatementEnd right)
  skipStatement : ∀ {here there : Cursor}, aligned here there → here.errors ≠ [] →
    aligned (here.skipStatement left) (there.skipStatement right) ∨
      parted (here.skipStatement left) (there.skipStatement right)
  /-- Offsets at which the two begin the same node. -/
  begins : Nat → Nat → Prop
  start : ∀ {here there : Cursor}, aligned here there → begins here.start there.start
  /-- What is looked at of a doc comment. -/
  docView : Option String → Option String
  doc : ∀ {here there : Cursor}, aligned here there →
    docView here.pendingDoc = docView there.pendingDoc
  /-- Comments that the two attach to the same node. -/
  annotates : List Comment → List Comment → Prop
  uncommented : annotates [] []
  comments : ∀ {here there : Cursor}, aligned here there →
    annotates (here.comments left) (there.comments right)
  partners : (∀ cursor, clean cursor) ∨ (∀ start, ∃ begin, begins start begin) ∧
    ∀ comments, ∃ others, annotates comments others
  /-- What is looked at of the nodes of the one parse, and of the other. -/
  onLeft : Info → Info
  onRight : Info → Info
  settled : ∀ info, onRight (onLeft info) = onLeft info
  token : ∀ {here there : Cursor}, aligned here there →
    onLeft { position := some (here.position left) } =
      onRight { position := some (there.position right) }
  place : ∀ {here there : Cursor} {start begin : Nat} {attributes other : Attributes},
    aligned here there ∨ parted here there → begins start begin →
      attributes.Accord docView annotates other →
      onLeft { attributes, position := some (here.positionFrom left start) } =
        onRight { attributes := other, position := some (there.positionFrom right begin) }
  prepend : ∀ {comments others : List Comment} {info other : Info}, annotates comments others →
    onLeft info = onRight other →
      onLeft { info with attributes := info.attributes.prependComments comments } =
        onRight { other with attributes := other.attributes.prependComments others }

namespace Pairing

variable (pairing : Pairing)

/-! ## Where the parses stand -/

/-- Aligned, with something known about the left cursor. -/
def knowing (known : Cursor → Prop) (here there : Cursor) : Prop :=
  pairing.aligned here there ∧ known here

def atKind (kind : TokenKind) : Cursor → Cursor → Prop :=
  pairing.knowing fun here => here.kind = kind

def atKinds (kind next : TokenKind) : Cursor → Cursor → Prop :=
  pairing.knowing fun here => here.kind = kind ∧ here.nextKind = next

def meets (here there : Cursor) : Prop := pairing.aligned here there ∨ pairing.parted here there

variable {pairing}

theorem atKind_kept {kind : TokenKind} : Cursor.KeptInPlace (pairing.atKind kind) where
  depth related := pairing.aligned_kept.depth related.1
  nest change related := ⟨pairing.aligned_kept.nest change related.1, related.2⟩
  clearDoc related := ⟨pairing.aligned_kept.clearDoc related.1, related.2⟩
  dropComments related := ⟨pairing.aligned_kept.dropComments related.1, related.2⟩

theorem meets_kept : Cursor.KeptInPlace pairing.meets where
  depth met := met.elim pairing.aligned_kept.depth pairing.parted_kept.depth
  nest change met :=
    met.imp (pairing.aligned_kept.nest change) (pairing.parted_kept.nest change)
  clearDoc met := met.imp pairing.aligned_kept.clearDoc pairing.parted_kept.clearDoc
  dropComments met := met.imp pairing.aligned_kept.dropComments pairing.parted_kept.dropComments

/-! ## How answers are related -/

variable (pairing)

def leftView : Node → Node := Node.mapInfo pairing.onLeft

def rightView : Node → Node := Node.mapInfo pairing.onRight

abbrev Matched (node other : Node) : Prop := pairing.leftView node = pairing.rightView other

/-- Doc comments that the two put on the same node. -/
abbrev Documents (doc other : Option String) : Prop := pairing.docView doc = pairing.docView other

abbrev Found (answer other : Option Node) : Prop :=
  answer.map pairing.leftView = other.map pairing.rightView

abbrev Listed (nodes others : List Node) : Prop :=
  nodes.map pairing.leftView = others.map pairing.rightView

def DecidesAlike {α : Type} (relates : α → α → Prop) (answer other : α × Bool) : Prop :=
  relates answer.1 other.1 ∧ answer.2 = other.2

/-- New nodes, which have no position yet. -/
structure MatchesUnplaced (node other : Node) : Prop where
  form : node.form.map pairing.leftView = other.form.map pairing.rightView
  attributes : node.attributes.Accord pairing.docView pairing.annotates other.attributes

variable {pairing}

theorem found_some {node other : Node} (same : pairing.Matched node other) :
    pairing.Found (some node) (some other) :=
  congrArg some same

theorem found_cases {answer other : Option Node} (found : pairing.Found answer other) :
    (answer = none ∧ other = none) ∨
      ∃ node another, answer = some node ∧ other = some another ∧
        pairing.Matched node another := by
  cases answer with
  | none => exact .inl ⟨rfl, Option.map_eq_none_iff.mp found.symm⟩
  | some node =>
      obtain ⟨another, isOther, same⟩ := Option.map_eq_some_iff.mp found.symm
      exact .inr ⟨node, another, rfl, isOther, same.symm⟩

theorem listed_append {item other : Option Node} {found others : List Node}
    (items : pairing.Found item other) (listed : pairing.Listed found others) :
    pairing.Listed (item.toList ++ found) (other.toList ++ others) := by
  have toList := congrArg Option.toList items
  rw [Option.toList_map, Option.toList_map] at toList
  rw [Listed, List.map_append, List.map_append, toList, listed]

/-! New nodes. -/

namespace MatchesUnplaced

variable {node other : Node} {form shape : Form Node}

theorem flagged {attributes : Attributes}
    (same : form.map pairing.leftView = shape.map pairing.rightView)
    (plain : attributes.docComment = none ∧ attributes.comments = []) :
    pairing.MatchesUnplaced (.flagged attributes form) (.flagged attributes shape) := by
  refine ⟨same, rfl, ?_, ?_⟩
  · rfl
  · show pairing.annotates attributes.comments attributes.comments
    rw [plain.2]
    exact pairing.uncommented

theorem bare (same : form.map pairing.leftView = shape.map pairing.rightView) :
    pairing.MatchesUnplaced (.bare form) (.bare shape) :=
  flagged same ⟨rfl, rfl⟩

/-- New nodes carry no doc comments before. -/
theorem document {doc another : Option String} (related : pairing.Documents doc another)
    (raw : pairing.MatchesUnplaced node other)
    (plain : node.attributes.docComment = none ∧ other.attributes.docComment = none) :
    pairing.MatchesUnplaced (Parse.document doc node) (Parse.document another other) := by
  have documented : ∀ {doc : Option String} {node : Node}, node.attributes.docComment = none →
      (Parse.document doc node).form = node.form ∧
        (Parse.document doc node).attributes = { node.attributes with docComment := doc } := by
    intro doc node none
    cases doc with
    | none =>
        refine ⟨rfl, ?_⟩
        show node.attributes = _
        rw [← none]
    | some text => exact ⟨rfl, rfl⟩
  obtain ⟨form, attributes⟩ := @documented doc node plain.1
  obtain ⟨shape, others⟩ := @documented another other plain.2
  refine ⟨?_, ?_⟩
  · rw [form, shape]
    exact raw.form
  · rw [attributes, others]
    exact ⟨raw.attributes.flags, related, raw.attributes.comments⟩

theorem prependComments {comments others : List Comment} (raw : pairing.MatchesUnplaced node other)
    (plain : node.attributes.comments = [] ∧ other.attributes.comments = [])
    (related : pairing.annotates comments others) :
    pairing.MatchesUnplaced
      (node.modifyAttributes fun attributes => attributes.prependComments comments)
      (other.modifyAttributes fun attributes => attributes.prependComments others) := by
  refine ⟨raw.form, raw.attributes.flags, raw.attributes.doc, ?_⟩
  show pairing.annotates (comments ++ node.attributes.comments)
    (others ++ other.attributes.comments)
  rw [plain.1, plain.2, List.append_nil, List.append_nil]
  exact related

end MatchesUnplaced

theorem matched_prependComments {node other : Node} {comments others : List Comment}
    (related : pairing.annotates comments others) (same : pairing.Matched node other) :
    pairing.Matched (node.modifyAttributes fun attributes => attributes.prependComments comments)
      (other.modifyAttributes fun attributes => attributes.prependComments others) := by
  cases node with
  | mk info form =>
      cases other with
      | mk otherInfo shape =>
          rw [Matched, leftView, rightView, Node.mapInfo_mk, Node.mapInfo_mk] at same
          obtain ⟨infos, forms⟩ := Node.mk.inj same
          rw [Matched, leftView, rightView, Node.modifyAttributes, Node.modifyAttributes,
            Node.mapInfo_mk, Node.mapInfo_mk]
          exact congrArg₂ Node.mk (pairing.prepend related infos) forms

/-! What comes after an answer is known to stay clean only if the answer has a partner, so
where not every run counts there has to be one for each. -/

class HasPartners (pairing : Pairing) {α : Type} (relates : α → α → Prop) : Prop where
  partner : (∀ cursor, pairing.clean cursor) ∨ ∀ answer, ∃ other, relates answer other

theorem rightView_leftView (node : Node) :
    pairing.rightView (pairing.leftView node) = pairing.leftView node :=
  Node.mapInfo_of_settled pairing.settled node

theorem partner_view (node : Node) : pairing.Matched node (pairing.leftView node) :=
  (rightView_leftView node).symm

instance {α : Type} : HasPartners pairing (@Eq α) := ⟨.inr fun answer => ⟨answer, rfl⟩⟩

instance : HasPartners pairing pairing.Matched := ⟨.inr fun node => ⟨_, partner_view node⟩⟩

instance : HasPartners pairing pairing.Found := by
  refine ⟨.inr fun answer => ⟨answer.map pairing.leftView, ?_⟩⟩
  rw [Found, Option.map_map]
  exact Option.map_congr fun node _ => partner_view node

instance : HasPartners pairing pairing.Listed := by
  refine ⟨.inr fun nodes => ⟨nodes.map pairing.leftView, ?_⟩⟩
  rw [Listed, List.map_map]
  exact List.map_congr_left fun node _ => partner_view node

instance : HasPartners pairing pairing.begins := ⟨pairing.partners.imp_right And.left⟩

instance : HasPartners pairing pairing.Documents := ⟨.inr fun doc => ⟨doc, rfl⟩⟩

instance : HasPartners pairing pairing.annotates :=
  ⟨pairing.partners.imp_right And.right⟩

instance {α : Type} {relates : α → α → Prop} [partners : HasPartners pairing relates] :
    HasPartners pairing (DecidesAlike relates) := by
  refine ⟨partners.partner.imp_right fun partner answer => ?_⟩
  obtain ⟨other, related⟩ := partner answer.1
  exact ⟨(other, answer.2), related, rfl⟩

end Pairing

structure Simulates (pairing : Pairing) (before after : Cursor → Cursor → Prop) {α : Type}
    (relates : α → α → Prop) (first second : Parse α) : Prop where
  clean_before : ∀ {here later : Cursor} {answer : α},
    first pairing.left here = some (answer, later) → pairing.clean later → pairing.clean here
  matched : ∀ {here there later : Cursor} {answer : α}, before here there →
    first pairing.left here = some (answer, later) → pairing.clean later →
    ∃ other behind, second pairing.right there = some (other, behind) ∧ relates answer other ∧
      after later behind

abbrev StaysAligned (pairing : Pairing) {α : Type} (relates : α → α → Prop)
    (first second : Parse α) : Prop :=
  Simulates pairing pairing.aligned pairing.aligned relates first second

/-- The parses may have parted at the end, where a statement may have ended. -/
abbrev EndsMeeting (pairing : Pairing) {α : Type} (relates : α → α → Prop)
    (first second : Parse α) : Prop :=
  Simulates pairing pairing.aligned pairing.meets relates first second

theorem Parse.loop_succ {α : Type} (step : α → Parse (α × Bool)) (fuel : Nat) (value : α) :
    loop step (fuel + 1) value = step value >>= fun result =>
      if result.2 = true then loop step fuel result.1 else pure result.1 := by
  funext context cursor
  show _ = (step value context cursor).bind _
  simp only [loop]
  rcases step value context cursor with _ | ⟨⟨answer, _ | _⟩, after⟩ <;> rfl

/-! ## Rules -/

namespace Simulates
open Parse

variable {pairing : Pairing} {before middle after : Cursor → Cursor → Prop} {α γ : Type}
  {relates : α → α → Prop} {also : γ → γ → Prop}

theorem mono {first second : Parse α} {narrow wide : Cursor → Cursor → Prop}
    (simulates : Simulates pairing before after relates first second)
    (enters : ∀ {here there}, narrow here there → before here there)
    (leaves : ∀ {here there}, after here there → wide here there) :
    Simulates pairing narrow wide relates first second := by
  refine ⟨simulates.clean_before, fun related run clean => ?_⟩
  obtain ⟨other, behind, otherRun, same, ended⟩ := simulates.matched (enters related) run clean
  exact ⟨other, behind, otherRun, same, leaves ended⟩

/-- What is known of the left cursor may be forgotten. -/
theorem forget {known : Cursor → Prop} {first second : Parse α}
    (simulates : Simulates pairing pairing.aligned after relates first second) :
    Simulates pairing (pairing.knowing known) after relates first second :=
  simulates.mono And.left id

theorem ends {first second : Parse α}
    (simulates : Simulates pairing before pairing.aligned relates first second) :
    Simulates pairing before pairing.meets relates first second :=
  simulates.mono id .inl

/-- Where the parses have parted, a run that counts must not be possible. -/
theorem meeting {first second : Parse α}
    (simulates : Simulates pairing pairing.aligned after relates first second)
    (never : ∀ {here there later : Cursor} {answer : α}, pairing.parted here there →
      first pairing.left here = some (answer, later) → ¬ pairing.clean later) :
    Simulates pairing pairing.meets after relates first second := by
  refine ⟨simulates.clean_before, fun related run clean => ?_⟩
  rcases related with aligned | parted
  · exact simulates.matched aligned run clean
  · exact absurd clean (never parted run)

theorem outOfFuel {second : Parse α} :
    Simulates pairing before after relates Parse.outOfFuel second := by
  constructor
  · intro here later answer run
    cases run
  · intro here there later answer related run
    cases run

theorem of_total {first second : Parse α} {step otherStep : Cursor → α × Cursor}
    (steps : ∀ here, first pairing.left here = some (step here))
    (otherSteps : ∀ there, second pairing.right there = some (otherStep there))
    (onward : ∀ here : Cursor, here.MovesOnward (step here).2)
    (agrees : ∀ {here there : Cursor}, before here there → pairing.clean (step here).2 →
      relates (step here).1 (otherStep there).1 ∧ after (step here).2 (otherStep there).2) :
    Simulates pairing before after relates first second := by
  constructor
  · intro here later answer run clean
    rw [steps, Option.some.injEq, Prod.ext_iff] at run
    obtain ⟨rfl, rfl⟩ := run
    exact pairing.clean_of_onward (onward here) clean
  · intro here there later answer related run clean
    rw [steps, Option.some.injEq, Prod.ext_iff] at run
    obtain ⟨rfl, rfl⟩ := run
    exact ⟨_, _, otherSteps there, agrees related clean⟩

theorem of_look {first second : Parse α} {answer other : Cursor → α}
    (looks : ∀ here, first pairing.left here = some (answer here, here))
    (otherLooks : ∀ there, second pairing.right there = some (other there, there))
    (same : ∀ {here there : Cursor}, before here there → relates (answer here) (other there)) :
    Simulates pairing before before relates first second :=
  of_total looks otherLooks .refl fun related _ => ⟨same related, related⟩

theorem pure {answer other : α} (related : relates answer other) :
    Simulates pairing before before relates (Pure.pure answer) (Pure.pure other) :=
  of_look (fun _ => rfl) (fun _ => rfl) fun _ => related

theorem bind [partners : pairing.HasPartners relates] {first second : Parse α}
    {next other : α → Parse γ} (head : Simulates pairing before middle relates first second)
    (tail : ∀ answer another, relates answer another →
      Simulates pairing middle after also (next answer) (other another)) :
    Simulates pairing before after also (first >>= next) (second >>= other) := by
  have split : ∀ {here later : Cursor} {answer : γ},
      (first >>= next) pairing.left here = some (answer, later) → pairing.clean later →
      ∃ found between, first pairing.left here = some (found, between) ∧
        next found pairing.left between = some (answer, later) ∧ pairing.clean between := by
    intro here later answer run clean
    have unfolded : (first pairing.left here).bind (fun result =>
        next result.1 pairing.left result.2) = some (answer, later) := run
    obtain ⟨⟨found, between⟩, headRun, tailRun⟩ := Option.bind_eq_some_iff.mp unfolded
    refine ⟨found, between, headRun, tailRun, ?_⟩
    rcases partners.partner with all | partner
    · exact all between
    · obtain ⟨another, related⟩ := partner found
      exact (tail found another related).clean_before tailRun clean
  constructor
  · intro here later answer run clean
    obtain ⟨found, between, headRun, tailRun, cleanBetween⟩ := split run clean
    exact head.clean_before headRun cleanBetween
  · intro here there later answer related run clean
    obtain ⟨found, between, headRun, tailRun, cleanBetween⟩ := split run clean
    obtain ⟨another, opposite, otherRun, same, met⟩ := head.matched related headRun cleanBetween
    obtain ⟨result, behind, lastRun, also, ended⟩ :=
      (tail found another same).matched met tailRun clean
    refine ⟨result, behind, ?_, also, ended⟩
    show (second pairing.right there).bind (fun result => other result.1 pairing.right result.2) = _
    rw [otherRun]
    exact lastRun

theorem same {first second : Parse α} {next other : α → Parse γ}
    (head : Simulates pairing before middle Eq first second)
    (tail : ∀ answer, Simulates pairing middle after also (next answer) (other answer)) :
    Simulates pairing before after also (first >>= next) (second >>= other) :=
  bind head fun answer _ equal => equal ▸ tail answer

theorem found {first second : Parse Node}
    (node : Simulates pairing before after pairing.Matched first second) :
    Simulates pairing before after pairing.Found (some <$> first) (some <$> second) :=
  bind node fun _ _ same => pure (Pairing.found_some same)

theorem ite {condition : Prop} [Decidable condition] {first second another other : Parse α}
    (whenTrue : condition → Simulates pairing before after relates first second)
    (whenFalse : ¬ condition → Simulates pairing before after relates another other) :
    Simulates pairing before after relates (if condition then first else another)
      (if condition then second else other) := by
  by_cases holds : condition
  · rw [if_pos holds, if_pos holds]
    exact whenTrue holds
  · rw [if_neg holds, if_neg holds]
    exact whenFalse holds

/-! ### Reading -/

theorem read {get : Cursor → α}
    (related : ∀ {here there : Cursor}, before here there → relates (get here) (get there)) :
    Simulates pairing before before relates (Parse.read get) (Parse.read get) :=
  of_look (fun _ => rfl) (fun _ => rfl) related

theorem start (within : ∀ {here there : Cursor}, before here there → pairing.aligned here there) :
    Simulates pairing before before pairing.begins Parse.start Parse.start :=
  read fun related => pairing.start (within related)

theorem peek : StaysAligned pairing Eq Parse.kind Parse.kind := read pairing.kind

theorem kind {next other : TokenKind → Parse γ}
    (tail : ∀ kind, Simulates pairing (pairing.atKind kind) after also (next kind) (other kind)) :
    Simulates pairing pairing.aligned after also (Parse.kind >>= next) (Parse.kind >>= other) := by
  refine ⟨fun run => (tail _).clean_before run, ?_⟩
  intro here there later answer aligned run clean
  obtain ⟨found, behind, otherRun, same, ended⟩ := (tail here.kind).matched ⟨aligned, rfl⟩ run clean
  refine ⟨found, behind, ?_, same, ended⟩
  show other there.kind pairing.right there = some (found, behind)
  rw [← pairing.kind aligned]
  exact otherRun

theorem nextKind {kind : TokenKind} {next other : TokenKind → Parse γ}
    (inside : kind ≠ .semicolon)
    (tail : ∀ second, Simulates pairing (pairing.atKinds kind second) after also (next second)
      (other second)) :
    Simulates pairing (pairing.atKind kind) after also (Parse.nextKind >>= next)
      (Parse.nextKind >>= other) := by
  refine ⟨fun run => (tail _).clean_before run, ?_⟩
  intro here there later answer related run clean
  obtain ⟨aligned, atKind⟩ := related
  obtain ⟨found, behind, otherRun, same, ended⟩ :=
    (tail here.nextKind).matched ⟨aligned, atKind, rfl⟩ run clean
  refine ⟨found, behind, ?_, same, ended⟩
  show other there.nextKind pairing.right there = some (found, behind)
  rw [← pairing.nextKind aligned (atKind ▸ inside)]
  exact otherRun

/-! ### Changing the cursor -/

theorem modify {change : Context → Cursor → Cursor}
    (onward : ∀ cursor : Cursor, cursor.MovesOnward (change pairing.left cursor))
    (keeps : ∀ {here there : Cursor}, before here there → pairing.clean (change pairing.left here) →
      after (change pairing.left here) (change pairing.right there)) :
    Simulates pairing before after Eq (Parse.modify change) (Parse.modify change) :=
  of_total (fun _ => rfl) (fun _ => rfl) onward fun related clean => ⟨rfl, keeps related clean⟩

theorem advance {kind : TokenKind} (inside : kind ≠ .semicolon) :
    Simulates pairing (pairing.atKind kind) pairing.aligned Eq Parse.advance Parse.advance :=
  modify (Cursor.onward_advance _) fun related _ => pairing.advance related.1 (related.2 ▸ inside)

/-- The token behind comes to be the current one. -/
theorem advanceOnto {kind next : TokenKind} (goesOn : next ≠ .eof) (inside : kind ≠ .semicolon) :
    Simulates pairing (pairing.atKinds kind next) (pairing.atKind next) Eq Parse.advance
      Parse.advance := by
  refine modify (Cursor.onward_advance _) fun {here there} related _ => ?_
  obtain ⟨aligned, atKind, atNext⟩ := related
  refine ⟨pairing.advance aligned (atKind ▸ inside), ?_⟩
  cases following : here.following with
  | nil =>
      rw [Cursor.nextKind, following] at atNext
      exact absurd atNext.symm goesOn
  | cons item rest =>
      obtain ⟨errors, journal, equation, _⟩ :=
        Cursor.advance_cons pairing.left here item rest following
      rw [Cursor.nextKind, following] at atNext
      rw [equation]
      exact atNext

theorem semicolon :
    Simulates pairing (pairing.atKind .semicolon) pairing.meets Eq Parse.advance Parse.advance :=
  modify (Cursor.onward_advance _) fun related _ => pairing.semicolon related.1 related.2

theorem report (expected : Expected) :
    StaysAligned pairing Eq (Parse.report expected) (Parse.report expected) :=
  modify (fun cursor => cursor.onward_record _) fun aligned => pairing.report expected aligned

theorem reportAt {kind : TokenKind} (expected : Expected) :
    Simulates pairing (pairing.atKind kind) (pairing.atKind kind) Eq (Parse.report expected)
      (Parse.report expected) :=
  modify (fun cursor => cursor.onward_record _) fun {here _} related clean =>
    ⟨pairing.report expected related.1 clean, (here.record_kind _).trans related.2⟩

theorem skipToStatementEnd :
    EndsMeeting pairing Eq (Parse.modify Cursor.skipToStatementEnd)
      (Parse.modify Cursor.skipToStatementEnd) :=
  modify (Cursor.onward_skipToStatementEnd _) fun aligned _ => pairing.skipToStatementEnd aligned

theorem skipStatement :
    Simulates pairing (pairing.knowing fun here => here.errors ≠ []) pairing.meets Eq
      (Parse.modify Cursor.skipStatement) (Parse.modify Cursor.skipStatement) :=
  modify (Cursor.onward_skipStatement _) fun related _ => pairing.skipStatement related.1 related.2

theorem clearDoc (kept : Cursor.KeptInPlace before) :
    Simulates pairing before before Eq Parse.clearDoc Parse.clearDoc :=
  modify (fun _ => ⟨List.suffix_rfl, List.suffix_rfl⟩) fun related _ => kept.clearDoc related

theorem takeDoc (kept : Cursor.KeptInPlace before)
    (within : ∀ {here there : Cursor}, before here there → pairing.aligned here there) :
    Simulates pairing before before pairing.Documents Parse.takeDoc Parse.takeDoc :=
  of_total (fun _ => rfl) (fun _ => rfl) (fun _ => ⟨List.suffix_rfl, List.suffix_rfl⟩)
    fun related _ => ⟨pairing.doc (within related), kept.clearDoc related⟩

theorem takeComments :
    StaysAligned pairing pairing.annotates Parse.takeComments Parse.takeComments :=
  of_total (fun _ => rfl) (fun _ => rfl) (fun _ => ⟨List.suffix_rfl, List.suffix_rfl⟩)
    fun aligned _ => ⟨pairing.comments aligned, pairing.aligned_kept.dropComments aligned⟩

theorem finish (within : ∀ {here there : Cursor}, before here there → pairing.meets here there)
    {start begin : Nat} {node other : Node} (begins : pairing.begins start begin)
    (raw : pairing.MatchesUnplaced node other) :
    Simulates pairing before before pairing.Matched (Parse.finish start node)
      (Parse.finish begin other) := by
  refine of_look (fun _ => rfl) (fun _ => rfl) fun {here there} related => ?_
  show pairing.leftView (node.withPosition _) = pairing.rightView (other.withPosition _)
  rw [Node.withPosition, Node.withPosition, Pairing.leftView, Pairing.rightView, Node.mapInfo_mk,
    Node.mapInfo_mk]
  exact congrArg₂ Node.mk (pairing.place (within related) begins raw.attributes) raw.form

theorem leaf {kind : TokenKind} (leafKind : LeafKind) (inside : kind ≠ .semicolon) :
    Simulates pairing (pairing.atKind kind) pairing.aligned pairing.Matched (Parse.leaf leafKind)
      (Parse.leaf leafKind) := by
  have current : Simulates pairing (pairing.atKind kind) (pairing.atKind kind) pairing.Matched
      (currentLeaf leafKind) (currentLeaf leafKind) := by
    refine of_look (fun _ => rfl) (fun _ => rfl) fun {here there} related => ?_
    show pairing.leftView (.mk { position := some _ } (.leaf leafKind _)) =
      pairing.rightView (.mk { position := some _ } (.leaf leafKind _))
    rw [Pairing.leftView, Pairing.rightView, Node.mapInfo_mk, Node.mapInfo_mk,
      pairing.token related.1, pairing.text related.1]
    rfl
  refine bind current fun node other matched => ?_
  exact same (advance inside) fun _ => pure matched

theorem eat {wanted : TokenKind} (inside : wanted ≠ .semicolon) :
    StaysAligned pairing Eq (Parse.eat wanted) (Parse.eat wanted) := by
  refine kind fun kind => ?_
  refine ite (fun isWanted => ?_) fun _ => forget (pure rfl)
  exact same (advance (isWanted ▸ inside)) fun _ => pure rfl

theorem expect {wanted : TokenKind} (expected : Expected) (inside : wanted ≠ .semicolon) :
    StaysAligned pairing Eq (Parse.expect wanted expected) (Parse.expect wanted expected) := by
  refine same (eat inside) fun eaten => ?_
  refine ite (fun _ => pure rfl) fun _ => ?_
  exact same (report expected) fun _ => pure rfl

theorem missing (expected : Expected) :
    StaysAligned pairing pairing.Found
      (do
        Parse.report expected
        Pure.pure none)
      (do
        Parse.report expected
        Pure.pure none) :=
  same (report expected) fun _ => pure rfl

theorem deeper (kept : Cursor.KeptInPlace after) {refused other first second : Parse α}
    (declines : Simulates pairing (pairing.knowing fun here => here.errors ≠ []) after relates
      refused other)
    (enters : Simulates pairing pairing.aligned after relates first second) :
    Simulates pairing pairing.aligned after relates (Parse.deeper refused first)
      (Parse.deeper other second) := by
  have surfaced : ∀ cursor : Cursor, cursor.MovesOnward { cursor with depth := cursor.depth - 1 } :=
    fun _ => ⟨List.suffix_rfl, List.suffix_rfl⟩
  have deepened : ∀ cursor : Cursor, cursor.MovesOnward { cursor with depth := cursor.depth + 1 } :=
    fun _ => ⟨List.suffix_rfl, List.suffix_rfl⟩
  constructor
  · intro here later answer run clean
    by_cases full : pairing.left.options.maxDepth ≤ here.depth
    · rw [deeper_of_full full] at run
      exact pairing.clean_of_onward (here.onward_record _) (declines.clean_before run clean)
    · rw [deeper_of_room (Nat.lt_of_not_le full)] at run
      obtain ⟨⟨found, between⟩, inner, same⟩ := Option.map_eq_some_iff.mp run
      cases same
      exact pairing.clean_of_onward (deepened here)
        (enters.clean_before inner (pairing.clean_of_onward (surfaced between) clean))
  · intro here there later answer aligned run clean
    have depths := pairing.aligned_kept.depth aligned
    by_cases full : pairing.left.options.maxDepth ≤ here.depth
    · rw [deeper_of_full full] at run
      have cleanBefore := declines.clean_before run clean
      have equal : pairing.left.options.maxDepth = pairing.right.options.maxDepth := by
        refine Nat.le_antisymm pairing.limit (Nat.le_of_not_lt fun higher => ?_)
        exact here.record_errors_ne_nil _ (pairing.refused higher _ cleanBefore)
      rw [deeper_of_full (equal ▸ depths ▸ full)]
      exact declines.matched ⟨pairing.reportTooDeep equal aligned cleanBefore,
        here.record_errors_ne_nil _⟩ run clean
    · have room := Nat.lt_of_not_le full
      rw [deeper_of_room room] at run
      obtain ⟨⟨found, between⟩, inner, same⟩ := Option.map_eq_some_iff.mp run
      cases same
      obtain ⟨another, behind, otherRun, related, ended⟩ := enters.matched
        (pairing.aligned_kept.nest (· + 1) aligned) inner
        (pairing.clean_of_onward (surfaced between) clean)
      rw [deeper_of_room (Nat.lt_of_lt_of_le (depths ▸ room) pairing.limit), otherRun]
      exact ⟨another, _, rfl, related, kept.nest (· - 1) ended⟩

/-! ### Loops -/

theorem loop [pairing.HasPartners relates] {step another : α → Parse (α × Bool)}
    (round : ∀ value other, relates value other →
      StaysAligned pairing (Pairing.DecidesAlike relates) (step value) (another other))
    {fuel : Nat} : ∀ {more : Nat}, fuel ≤ more → ∀ {value other : α}, relates value other →
      StaysAligned pairing relates (Parse.loop step fuel value)
        (Parse.loop another more other) := by
  induction fuel with
  | zero => exact fun _ _ _ _ => outOfFuel
  | succ fuel inductionHypothesis =>
      intro more enough value other related
      obtain ⟨more, rfl⟩ : ∃ fewer, more = fewer + 1 := ⟨more - 1, by omega⟩
      rw [loop_succ, loop_succ]
      apply bind (round value other related)
      rintro ⟨found, continues⟩ ⟨otherFound, otherContinues⟩ ⟨answers, decisions⟩
      -- Both loops go on or stop together, so their rounds stay aligned.
      obtain rfl : continues = otherContinues := decisions
      exact ite (fun _ => inductionHypothesis (Nat.le_of_succ_le_succ enough) answers)
        fun _ => pure answers

theorem collectStep {round another : Parse (Option Node × Bool)}
    (rounds : Simulates pairing before after (Pairing.DecidesAlike pairing.Found) round another)
    {found others : List Node} (listed : pairing.Listed found others) :
    Simulates pairing before after (Pairing.DecidesAlike pairing.Listed)
      (Parse.collectStep round found) (Parse.collectStep another others) := by
  apply bind rounds
  rintro ⟨item, continues⟩ ⟨other, otherContinues⟩ ⟨items, decisions⟩
  exact pure ⟨Pairing.listed_append items listed, decisions⟩

theorem collect {round another : Parse (Option Node × Bool)}
    (rounds : StaysAligned pairing (Pairing.DecidesAlike pairing.Found) round another)
    {fuel more : Nat} (enough : fuel ≤ more) :
    StaysAligned pairing pairing.Listed (Parse.collect fuel round)
      (Parse.collect more another) := by
  refine bind (loop (fun _ _ => collectStep rounds) enough rfl) fun found others listed => ?_
  exact pure (by simp [Pairing.Listed, listed])

end Simulates
end PhpTree
