import Mathlib.Data.List.Nodup
import PhpTree.Proofs.Elements
import PhpTree.Proofs.Extents
import PhpTree.Proofs.Gaps
import PhpTree.Proofs.Standing
import PhpTree.Proofs.Tiling

/-! # Where comments are attached

The comments in front of an item are handed out once, where a statement or a member
begins.  An element of a list always begins at an item whose comments have not been
handed out yet: what was read before it went on past the items it drew on.  So each
element carries all comments in front of its first token, and nothing else does. -/
set_option autoImplicit false
namespace PhpTree

/-- A comment as it is attached to a node. -/
def Token.comment (lines : LineIndex) (token : Token) : Comment :=
  { value := token.text, position := some (lines.position token.span) }

theorem Cursor.comments_eq {context : Context} (attached : context.options.attachComments = true)
    (cursor : Cursor) :
    cursor.comments context = cursor.current.comments.map (Token.comment context.lines) := by
  rw [comments, if_pos attached]
  rfl

theorem Form.isElement_place {α : Type} (form : Form α) (slot : Slot) :
    (form.place slot).isElement = (slot == .stmts) := by
  unfold place
  split <;> simp_all [Place.isElement]

/-! ## Items whose comments are not handed out -/

/-- The comments in front of the current item have not been handed out, or it is a close tag. -/
def Cursor.HasFreshComments (items : List Item) (cursor : Cursor) : Prop :=
  cursor.kind ≠ .closeTag → cursor.current :: cursor.following <:+ items

namespace Cursor

variable {items : List Item} {base : Nat} {cursor after : Cursor}

theorem StandsAtItem.following_suffix (stands : cursor.StandsAtItem items base) :
    cursor.following <:+ items := by
  obtain ⟨earlier, item, split, _⟩ := stands.ahead
  exact ⟨earlier ++ [item], by simp [split]⟩

theorem StandsAtItem.wf (stream : InStream items) (stands : cursor.StandsAtItem items base)
    (goesOn : cursor.kind ≠ .eof) : cursor.Wf := by
  obtain ⟨earlier, item, split, same⟩ := stands.ahead
  have ahead := stream.rest_stream split
  rw [same] at ahead
  exact ahead.from_head.weaken (stands.ordered goesOn)

theorem StandsAtItem.advance_eq (stream : InStream items) (stands : cursor.StandsAtItem items base)
    (goesOn : cursor.kind ≠ .eof) (context : Context) :
    ∃ rest, cursor.following = (cursor.advance context).current :: rest ∧
      (cursor.advance context).following = rest ∧
      cursor.start < (cursor.advance context).start := by
  cases following : cursor.following with
  | nil => exact absurd (stands.kind_of_following_nil stream following) goesOn
  | cons next rest =>
      have order := stands.covers_before_next stream following
      obtain ⟨errors, journal, equation, _⟩ := cursor.advance_cons context next rest following
      rw [equation]
      exact ⟨rest, rfl, rfl, Nat.lt_of_lt_of_le order.1 order.2⟩

theorem HasFreshComments.of_advance (stream : InStream items)
    (stands : cursor.StandsAtItem items base)
    (goesOn : cursor.kind ≠ .eof) (context : Context) :
    (cursor.advance context).HasFreshComments items := by
  obtain ⟨rest, following, same, _⟩ := stands.advance_eq stream goesOn context
  intro _
  rw [same, ← following]
  exact stands.following_suffix

theorem HasFreshComments.yields {context : Context} {nodes : List Node}
    (fresh : cursor.HasFreshComments items)
    (stands : cursor.StandsAtItem items base) (yields : YieldsNodes context cursor nodes after) :
    after.HasFreshComments items := by
  obtain ⟨pieces, passage, _⟩ := yields
  intro inside
  rcases List.suffix_cons_iff.mp (passage.reaches.current inside) with same | later
  · obtain ⟨current, following⟩ := List.cons.inj same
    rw [same]
    exact fresh (by rwa [kind, ← current])
  · exact later.trans stands.following_suffix

end Cursor

inductive Phrase.IsElement : Phrase → Prop where
  | statement : IsElement .statement
  | member : IsElement .member

theorem Parse.ne_eof_of_goesOn {kind : TokenKind} (goesOn : endsBody kind = false) :
    kind ≠ .eof := by
  rintro rfl
  simp [endsBody] at goesOn

theorem Grammar.closed_elapsed {context : Context} {items : List Item} (stream : InStream items)
    {fuel base : Nat} {phrase : Phrase} (isElement : phrase.IsElement) {cursor after : Cursor}
    {answer : Option Node} (stands : cursor.StandsAtItem items base)
    (goesOn : Parse.endsBody cursor.kind = false)
    (run : closed fuel phrase context cursor = some (answer, after)) :
    ReadsElement True context cursor answer after := by
  have wf := stands.wf stream (Parse.ne_eof_of_goesOn goesOn)
  cases isElement with
  | statement => exact (closed_reads fuel .statement cursor goesOn wf).of_run run
  | member => exact (closed_reads fuel .member cursor goesOn wf).of_run run

/-! ## Elements -/

/-- The survey of the cursors no earlier than `base`, errors or not, with a demand on elements.
Comments are attached to them only. -/
def Survey.commenting (context : Context) {items : List Item} (stream : InStream items)
    (base : Nat) (holds : Node → Prop) : Survey where
  context
  clean := False
  fits := Cursor.StandsAtItem items base
  fits_step step stands := stands.step stream step
  body _ stmts := ∀ stmt ∈ stmts, holds stmt
  body_nil _ := List.forall_mem_nil _
  carries isElement attributes := isElement = false → attributes.comments = []
  carries_plain _ _ _ none _ := none
  carries_doc _ cursor _ _ _ none _ := by cases cursor.pendingDoc <;> exact none
  carries_comments _ _ := nofun

structure BeginsAtHead (context : Context) (head : Cursor) (node : Node) : Prop where
  inside : head.kind ≠ .closeTag
  placed : node.position.map Position.startOffset = some head.start
  commented : node.attributes.comments = head.comments context

namespace Parse

variable {survey : Survey} {fuel : Nat} {grammar : Grammar} {cursor : Cursor}

theorem statement_begun (sorting : Sorting survey fuel grammar) :
    Sorts survey (statement fuel grammar) cursor fun answer _ =>
      ∀ node ∈ answer, BeginsAtHead survey.context cursor node := by
  have ends : Endings survey fuel grammar fun _ => True :=
    ⟨fun _ _ _ _ _ _ _ => trivial, fun _ _ _ _ _ _ _ => trivial, fun _ _ _ _ _ _ _ => trivial⟩
  refine statement_left sorting ends fun noTag stmt between _ left => ?_
  exact ⟨noTag, by rw [left.placed]; rfl, left.commented⟩

theorem member_begun (sorting : Sorting survey fuel grammar) :
    Sorts survey (member fuel grammar) cursor fun answer _ =>
      ∀ node ∈ answer, BeginsAtHead survey.context cursor node := by
  have keeps : ∀ middle : Cursor, middle.kind.isModifier = true →
      (cursor.kind = .closeTag → middle.kind = .closeTag) →
        cursor.kind = .closeTag → (middle.advance survey.context).kind = .closeTag := by
    intro middle modifier kept tag
    simp [kept tag, TokenKind.isModifier] at modifier
  have body : ∀ middle, Sorts survey (methodBody fuel grammar) middle fun _ _ =>
      survey.clean → True := by
    refine fun middle => .eat (fun bodiless => .pure fun _ => trivial) fun braced => ?_
    exact (block_sorts sorting).mono fun _ _ _ _ => trivial
  refine .start <| .takeComments <| .bind (modifiers_preserve keeps) fun modifiers between => ?_
  refine .kind <| .ite (fun function => .map ?_) fun other => ?_
  · have left := @method_left survey (fun _ => True) cursor.start fuel grammar between sorting
      (cursor.comments survey.context) modifiers body
    refine left.mono fun method after left kept => ?_
    rintro _ ⟨⟩
    refine ⟨fun tag => ?_, by rw [left.placed]; rfl, left.commented⟩
    simp [kept id tag] at function
  · exact .report <| .skipToStatementEnd <| .pure (by simp)

end Parse

/-! ## Lists -/

namespace Survey

variable (context : Context) {items : List Item} (stream : InStream items) (base : Nat)

def roaming : Survey := commenting context stream base fun _ => True

/-- The survey in which all elements that are met begin after the first token. -/
def later : Survey := commenting context stream base fun stmt =>
  ∃ position ∈ stmt.position, base < position.startOffset

end Survey

/-- An element carries all comments in front of its first token. The elements inside begin after
that token. -/
structure CarriesItsComments (context : Context) {items : List Item} (stream : InStream items)
    (node : Node) : Prop where
  carried : ∃ item ∈ items, item.token.kind ≠ .eof ∧
    node.position.map Position.startOffset = some item.token.start ∧
    node.attributes.comments = item.comments.map (Token.comment context.lines)
  inner : ∀ position ∈ node.position,
    ∃ place, Sorted (.later context stream position.startOffset) place node
  solid : ¬ node.IsHollow

def Survey.attaching (context : Context) {items : List Item} (stream : InStream items) : Survey :=
  commenting context stream 0 (CarriesItsComments context stream)

namespace Grammar

variable {context : Context} {items : List Item} (stream : InStream items) {base : Nat}
  {phrase : Phrase}

theorem closed_begun (isElement : phrase.IsElement) {survey : Survey}
    (sorting : ∀ fuel, Sorting survey fuel (closed fuel)) (fuel : Nat) (cursor : Cursor) :
    Sorts survey (closed fuel phrase) cursor fun answer _ =>
      ∀ node ∈ answer, BeginsAtHead survey.context cursor node := by
  cases fuel with
  | zero => exact .of_runs fun run => (by cases run)
  | succ fuel =>
      cases isElement with
      | statement => exact Parse.statement_begun (sorting fuel)
      | member => exact Parse.member_begun (sorting fuel)

theorem closed_roaming (fuel : Nat) :
    Sorting (.roaming context stream base) fuel (closed fuel) := by
  have any : ∀ place stmts, (Survey.roaming context stream base).body place stmts :=
    fun _ _ _ _ => trivial
  exact closed_sorting (fun _ _ _ _ _ _ _ => any _ _) (fun _ _ _ _ _ _ _ => any _ _) fuel

theorem braced_later (isElement : phrase.IsElement) (fuel : Nat) (cursor : Cursor) :
    (Survey.later context stream base).Finds (Parse.braced fuel (closed fuel phrase)) cursor
      fun stmts _ => ∀ stmt ∈ stmts, ∃ position ∈ stmt.position, base < position.startOffset := by
  have begun : ∀ base cursor, Sorts (.roaming context stream base) (closed fuel phrase) cursor
      fun answer _ => ∀ node ∈ answer, BeginsAtHead context cursor node := fun base =>
    closed_begun isElement (closed_roaming stream) fuel
  have each : ∀ (found : List Node) cursor, Parse.endsBody cursor.kind = false →
      Sorts (.roaming context stream base) (closed fuel phrase) cursor fun answer after =>
        cursor.StandsAtItem items (base + 1) ∧
            (∀ stmt ∈ found, ∃ position ∈ stmt.position, base < position.startOffset) →
          after.StandsAtItem items (base + 1) ∧
            ∀ stmt ∈ found ++ answer.toList,
              ∃ position ∈ stmt.position, base < position.startOffset := by
    intro found cursor _
    refine ⟨(begun base cursor).moves, fun run fits quiet holds => ?_⟩
    obtain ⟨stands, later⟩ := holds
    refine ⟨((begun (base + 1) cursor).moves run).fits stands, fun stmt member => ?_⟩
    rcases List.mem_append.mp member with earlier | new
    · exact later stmt earlier
    · have placed := ((begun base cursor).finds run fits quiet stmt (by simpa using new)).placed
      obtain ⟨position, found, starts⟩ := Option.map_eq_some_iff.mp placed
      exact ⟨position, found, starts ▸ stands.since⟩
  intro stmts after run fits quiet
  rcases (Parse.braced_elements each).finds run fits quiet with rfl | ⟨opens, collected⟩
  · simp
  · have stands : cursor.StandsAtItem items base := fits
    obtain ⟨_, _, _, further⟩ := stands.advance_eq stream (by simp [opens]) context
    have begins := stands.advance stream context
    have behind : (cursor.advance context).StandsAtItem items (base + 1) :=
      ⟨begins.ahead, Nat.lt_of_le_of_lt stands.since further, begins.ordered⟩
    obtain ⟨last, _, later⟩ := collected ⟨behind, by simp⟩
    exact later

theorem closed_later (fuel : Nat) : Sorting (.later context stream base) fuel (closed fuel) :=
  closed_sorting (braced_later stream .statement) (braced_later stream .member) fuel

theorem closed_attaches (isElement : phrase.IsElement)
    (attached : context.options.attachComments = true) (fuel : Nat) (found : List Node)
    (cursor : Cursor) (goesOn : Parse.endsBody cursor.kind = false) :
    Sorts (.roaming context stream 0) (closed fuel phrase) cursor fun answer after =>
      cursor.HasFreshComments items ∧ (∀ stmt ∈ found, CarriesItsComments context stream stmt) →
        after.HasFreshComments items ∧ ∀ stmt ∈ found ++ answer.toList,
          CarriesItsComments context stream stmt := by
  have begun : Sorts (.roaming context stream 0) (closed fuel phrase) cursor fun answer _ =>
      ∀ node ∈ answer, BeginsAtHead context cursor node :=
    closed_begun isElement (closed_roaming stream) fuel cursor
  refine ⟨begun.moves, fun {answer after} run fits quiet holds => ?_⟩
  have stands : cursor.StandsAtItem items 0 := fits
  obtain ⟨fresh, carried⟩ := holds
  have elapsed := closed_elapsed stream isElement stands goesOn run
  refine ⟨fresh.yields stands elapsed.yields, ?_⟩
  intro stmt member
  rcases List.mem_append.mp member with earlier | new
  · exact carried stmt earlier
  · have isNew : stmt ∈ answer := by simpa using new
    have begun := begun.finds run fits quiet stmt isNew
    have current : cursor.current ∈ items := (fresh begun.inside).subset (List.mem_cons_self ..)
    refine ⟨⟨cursor.current, current, Parse.ne_eof_of_goesOn goesOn, begun.placed, ?_⟩, ?_,
      elapsed.solid stmt isNew⟩
    · rw [begun.commented]
      exact cursor.comments_eq attached
    · intro position placed
      have starts : position.startOffset = cursor.start := by
        simpa [Option.mem_def.mp placed] using begun.placed
      rw [starts]
      have sorting : Sorting (.later context stream cursor.start) fuel (closed fuel) :=
        closed_later stream fuel
      cases isElement with
      | statement =>
          exact ⟨_, (sorting.statement cursor).finds run stands.from_start nofun stmt isNew⟩
      | member => exact ⟨_, (sorting.member cursor).finds run stands.from_start nofun stmt isNew⟩

theorem braced_attaches (isElement : phrase.IsElement)
    (attached : context.options.attachComments = true) (fuel : Nat) (cursor : Cursor) :
    (Survey.attaching context stream).Finds (Parse.braced fuel (closed fuel phrase)) cursor
      fun stmts _ => ∀ stmt ∈ stmts, CarriesItsComments context stream stmt := by
  intro stmts after run fits quiet
  rcases (Parse.braced_elements (closed_attaches stream isElement attached fuel)).finds
    run fits quiet with rfl | ⟨opens, collected⟩
  · simp
  · have stands : cursor.StandsAtItem items 0 := fits
    obtain ⟨last, _, carried⟩ :=
      collected ⟨.of_advance stream stands (by simp [opens]) context, by simp⟩
    exact carried

theorem closed_attaching (attached : context.options.attachComments = true) (fuel : Nat) :
    Sorting (.attaching context stream) fuel (closed fuel) :=
  closed_sorting (braced_attaches stream .statement attached)
    (braced_attaches stream .member attached) fuel

end Grammar

theorem Parse.topLevel_attaches {context : Context} {items : List Item} (stream : InStream items)
    (attached : context.options.attachComments = true) {fuel : Nat} {cursor : Cursor}
    (fresh : cursor.HasFreshComments items) :
    (Survey.attaching context stream).Finds (collect fuel (topLevel (Grammar.closed fuel))) cursor
      fun stmts _ => ∀ stmt ∈ stmts, CarriesItsComments context stream stmt := by
  have stray : ∀ (found : List Node) (cursor : Cursor), cursor.StandsAtItem items 0 →
      cursor.kind = .closeBrace →
      cursor.HasFreshComments items ∧ (∀ stmt ∈ found, CarriesItsComments context stream stmt) →
        ((cursor.report context .statement).advance context).HasFreshComments items ∧
          ∀ stmt ∈ found, CarriesItsComments context stream stmt := by
    intro found cursor stands isBrace holds
    have goesOn : (cursor.report context .statement).kind ≠ .eof := by
      rw [Cursor.report, Cursor.record_kind, isBrace]
      simp
    exact ⟨.of_advance stream (stands.step stream (.report .statement)) goesOn context, holds.2⟩
  intro stmts after run fits quiet
  obtain ⟨last, _, carried⟩ := (topLevel_elements
    (Grammar.closed_attaches stream .statement attached fuel) fun _ => stray).finds run fits quiet
      ⟨fresh, by simp⟩
  exact carried

/-! ## Trees -/

theorem Form.exists_stmts {form : Form Node} {field : Field Node}
    (inForm : (Slot.stmts, field) ∈ form.fields) : ∃ stmts, field = .list stmts := by
  cases form <;> simp [fields] at inForm <;> exact ⟨_, inForm⟩

namespace Sorted

variable {context : Context} {items : List Item} {stream : InStream items} {base : Nat}
  {holds : Node → Prop} {place : Place} {node inner : Node}

/-- Whatever carries comments inside a tree is an element of a list. -/
theorem of_comments (carries : inner.attributes.comments ≠ []) :
    ∀ {place : Place}, Sorted (.commenting context stream base holds) place node →
      inner ∈ node.form.children.flatMap Node.nodes → holds inner := by
  induction node using Node.induction with
  | step node inductionHypothesis =>
      intro place sorted below
      obtain ⟨child, isChild, inside⟩ := List.mem_flatMap.mp below
      obtain ⟨⟨slot, field⟩, inForm, inField⟩ := List.mem_flatMap.mp isChild
      have childSorted := sorted.child inForm inField
      rcases Node.mem_nodes.mp inside with rfl | ⟨next, isNext, further⟩
      · have isElement : slot = .stmts := by
          by_contra other
          refine carries (childSorted.carried ?_)
          rw [Form.isElement_place]
          exact beq_false_of_ne other
        subst isElement
        obtain ⟨stmts, rfl⟩ := Form.exists_stmts inForm
        exact sorted.body inForm _ inField
      · exact inductionHypothesis child isChild childSorted
          (List.mem_flatMap.mpr ⟨next, isNext, further⟩)

end Sorted

/-- Two nodes do not begin at the same offset if both carry comments. -/
def Node.ApartFrom (first second : Node) : Prop :=
  first.attributes.comments ≠ [] → second.attributes.comments ≠ [] →
    first.position.map Position.startOffset ≠ second.position.map Position.startOffset

theorem LaidOut.start_within {lines : LineIndex} {clean : Prop} {node inner : Node}
    {tokens : List Token} (laid : LaidOut lines clean node tokens) (order : InOrder tokens)
    (member : inner ∈ node.nodes) (solid : ¬ inner.IsHollow) :
    ∃ outer ∈ node.position, outer.IsCovering ∧ ∃ position ∈ inner.position,
      outer.startOffset ≤ position.startOffset ∧ position.startOffset < outer.endOffset := by
  obtain ⟨part, innerLaid, partOf⟩ := laid.exists_of_mem_nodes inner member
  have consumed : part ≠ [] := by
    rintro rfl
    exact solid innerLaid.of_nil.2.1
  have whole : tokens ≠ [] := by
    rintro rfl
    exact consumed (List.sublist_nil.mp partOf)
  obtain ⟨outer, outerPlaced, outerSpans⟩ := laid.spans order whole
  obtain ⟨position, placed, spans⟩ := innerLaid.spans (order.sublist partOf) consumed
  have within := outerSpans.within spans partOf.subset
  have covering := spans.isCovering (order.sublist partOf).covers
  exact ⟨outer, outerPlaced, outerSpans.isCovering order.covers, position, placed, within.1,
    Nat.lt_of_lt_of_le covering within.2⟩

section Programs

variable {options : Options} {source : List UInt8} {program : Program} {pieces : List Piece}
  {context : Context} {items : List Item} {stream : InStream items}

/-- Elements inside an element begin after it. -/
theorem CarriesItsComments.apartFrom {node inner : Node}
    (commented : CarriesItsComments context stream node)
    (below : inner ∈ node.form.children.flatMap Node.nodes) : node.ApartFrom inner := by
  intro _ carries same
  obtain ⟨item, _, _, placed, _⟩ := commented.carried
  obtain ⟨position, found, _⟩ := Option.map_eq_some_iff.mp placed
  obtain ⟨place, later⟩ := commented.inner position found
  obtain ⟨other, otherFound, further⟩ := later.of_comments carries below
  rw [found, Option.mem_def.mp otherFound] at same
  simp only [Option.map_some, Option.some.injEq] at same
  omega

theorem Program.Covers.start_lt (covers : program.Covers options source pieces)
    {node first second : Node} (member : node ∈ program.root.nodes)
    (isFirst : first ∈ node.form.children) (isSecond : second ∈ node.form.children)
    (precedes : first.Precedes second) {inner other : Node} (inside : inner ∈ first.nodes)
    (within : other ∈ second.nodes) (solid : ¬ inner.IsHollow) (otherSolid : ¬ other.IsHollow) :
    ∃ position ∈ inner.position, ∃ otherPosition ∈ other.position,
      position.startOffset < otherPosition.startOffset := by
  obtain ⟨part, order, laid⟩ := covers.laidOut_of_mem_children member isFirst
  obtain ⟨otherPart, otherOrder, otherLaid⟩ := covers.laidOut_of_mem_children member isSecond
  obtain ⟨outer, placed, isCovering, position, found, _, early⟩ :=
    laid.start_within order inside solid
  obtain ⟨otherOuter, otherPlaced, alsoCovering, otherPosition, otherFound, late, _⟩ :=
    otherLaid.start_within otherOrder within otherSolid
  have apart : outer.endOffset ≤ otherOuter.startOffset :=
    precedes outer placed otherOuter otherPlaced isCovering alsoCovering
  exact ⟨position, found, otherPosition, otherFound, by omega⟩

/-- No two nodes inside a node that carry comments begin at the same offset: siblings lie apart,
and the elements inside an element begin after its first token. -/
theorem Program.Covers.apart (covers : program.Covers options source pieces) {node : Node} :
    ∀ {place : Place}, Sorted (.attaching context stream) place node → node ∈ program.root.nodes →
      (node.form.children.flatMap Node.nodes).Pairwise Node.ApartFrom := by
  induction node using Node.induction with
  | step node inductionHypothesis =>
      intro place sorted member
      have commented : ∀ child ∈ node.form.children, ∀ inner ∈ child.nodes,
          inner.attributes.comments ≠ [] → CarriesItsComments context stream inner :=
        fun child isChild inner inside carries =>
          sorted.of_comments carries (List.mem_flatMap.mpr ⟨child, isChild, inside⟩)
      refine List.pairwise_flatMap.mpr ⟨fun child isChild => ?_, ?_⟩
      · obtain ⟨field, inForm, inField⟩ := List.mem_flatMap.mp isChild
        have childMember := Node.mem_nodes_of_mem_children member isChild
        have symmetric : ∀ {first second : Node}, first.ApartFrom second →
            second.ApartFrom first := fun apart also carries => (apart carries also).symm
        refine (child.nodes_perm.pairwise_iff symmetric).mpr (List.pairwise_cons.mpr
          ⟨fun inner below carries => ?_,
            inductionHypothesis child isChild (sorted.child inForm inField) childMember⟩)
        exact (commented child isChild child child.self_mem_nodes carries).apartFrom below carries
      · refine (covers.nested node member).apart.imp_of_mem ?_
        intro first second isFirst isSecond apart inner inside other within carries also same
        have solid := (commented first isFirst inner inside carries).solid
        have otherSolid := (commented second isSecond other within also).solid
        rcases apart with ahead | behind
        · obtain ⟨position, found, otherPosition, otherFound, early⟩ :=
            covers.start_lt member isFirst isSecond ahead inside within solid otherSolid
          rw [Option.mem_def.mp found, Option.mem_def.mp otherFound] at same
          exact absurd (Option.some.inj same) (Nat.ne_of_lt early)
        · obtain ⟨position, found, otherPosition, otherFound, early⟩ :=
            covers.start_lt member isSecond isFirst behind within inside otherSolid solid
          rw [Option.mem_def.mp found, Option.mem_def.mp otherFound] at same
          exact absurd (Option.some.inj same) (Nat.ne_of_gt early)

end Programs

/-! ## Whose comments they are -/

section Positions

variable {offset : Nat} {tokens : List Token} {lines : LineIndex}

theorem Item.positions_nodup (stream : Stream offset tokens) {item : Item}
    (member : item ∈ gather tokens) :
    ((item.comments.map (Token.comment lines)).map Comment.position).Nodup := by
  rw [List.map_map]
  refine List.pairwise_map.mpr (((comments_apart stream).1 item member).imp ?_)
  intro first second apart same
  exact apart (congrArg Position.startOffset (Option.some.inj same))

theorem Item.eq_of_position (stream : Stream offset tokens) {item other : Item}
    (member : item ∈ gather tokens) (also : other ∈ gather tokens) {position : Option Position}
    (inside : position ∈ (item.comments.map (Token.comment lines)).map Comment.position)
    (within : position ∈ (other.comments.map (Token.comment lines)).map Comment.position) :
    item = other := by
  rw [List.map_map] at inside within
  obtain ⟨comment, found, rfl⟩ := List.mem_map.mp inside
  obtain ⟨second, alsoFound, same⟩ := List.mem_map.mp within
  exact (comments_apart stream).2 item member other also comment found second alsoFound
    (congrArg Position.startOffset (Option.some.inj same)).symm

/-- The items whose comments the nodes of a tree carry; those of the root stand before the end of
file. -/
structure Node.CarriesCommentsOfItems (lines : LineIndex) (items : List Item)
    (root : Node) : Prop where
  inner : ∀ node ∈ root.form.children.flatMap nodes, node.attributes.comments ≠ [] →
    ∃ item ∈ items, item.token.kind ≠ .eof ∧
      node.position.map Position.startOffset = some item.token.start ∧
      node.attributes.comments = item.comments.map (Token.comment lines)
  behind : ∃ item ∈ items, item.token.kind = .eof ∧
    root.attributes.comments = item.comments.map (Token.comment lines)
  apart : (root.form.children.flatMap nodes).Pairwise ApartFrom

theorem Node.CarriesCommentsOfItems.nodup (stream : Stream offset tokens) {root : Node}
    (drawn : root.CarriesCommentsOfItems lines (Item.gather tokens)) :
    (root.nodes.flatMap fun node => node.attributes.comments.map Comment.position).Nodup := by
  have carries : ∀ {node : Node} {position : Option Position},
      position ∈ node.attributes.comments.map Comment.position → node.attributes.comments ≠ [] := by
    rintro node position inside none
    simp [none] at inside
  obtain ⟨last, lastMember, ends, rootComments⟩ := drawn.behind
  refine ((root.nodes_perm.flatMap_right _).nodup_iff).mpr ?_
  rw [List.flatMap_cons, List.nodup_append, List.nodup_flatMap]
  refine ⟨?_, ⟨fun node inside => ?_, ?_⟩, ?_⟩
  · rw [rootComments]
    exact Item.positions_nodup stream lastMember
  · by_cases none : node.attributes.comments = []
    · simp [none]
    · obtain ⟨item, member, _, _, comments⟩ := drawn.inner node inside none
      rw [comments]
      exact Item.positions_nodup stream member
  · refine drawn.apart.imp_of_mem ?_
    intro first second isFirst isSecond apart position inside within
    obtain ⟨item, member, _, starts, comments⟩ := drawn.inner first isFirst (carries inside)
    obtain ⟨other, also, _, otherStarts, otherComments⟩ :=
      drawn.inner second isSecond (carries within)
    have found : position ∈ first.attributes.comments.map Comment.position := inside
    have alsoFound : position ∈ second.attributes.comments.map Comment.position := within
    rw [comments] at found
    rw [otherComments] at alsoFound
    have same := Item.eq_of_position stream member also found alsoFound
    exact apart (carries inside) (carries within) (by rw [starts, otherStarts, same])
  · rintro position inside _ within rfl
    obtain ⟨node, below, carried⟩ := List.mem_flatMap.mp within
    obtain ⟨item, member, goesOn, _, comments⟩ := drawn.inner node below (carries carried)
    rw [rootComments] at inside
    rw [comments] at carried
    exact goesOn (Item.eq_of_position stream lastMember member inside carried ▸ ends)

end Positions

/-- Comments are attached exactly where they stand. -/
structure Program.Attaches (options : Options) (source : List UInt8)
    (program : Program) : Prop where
  /-- An element of a list begins at a token and carries the comments in front of it. -/
  elements : ∀ parent ∈ program.root.nodes, ∀ stmts,
    (Slot.stmts, Field.list stmts) ∈ parent.form.fields → ∀ node ∈ stmts,
      ∃ token ∈ (Lexer.ofSource options.shortTags source).tokens,
        token.isSignificant = true ∧
        node.position.map Position.startOffset = some token.start ∧
        node.attributes.comments =
          (commentsBefore (Lexer.ofSource options.shortTags source).tokens token.start).map
            (Token.comment (LineIndex.ofSource source))
  /-- The comments behind the last token are those of the root. -/
  root : program.root.attributes.comments =
    (commentsBefore (Lexer.ofSource options.shortTags source).tokens source.length).map
      (Token.comment (LineIndex.ofSource source))
  others : ∀ parent ∈ program.root.nodes, ∀ field ∈ parent.form.fields, field.1 ≠ .stmts →
    ∀ child ∈ field.2.toList, child.attributes.comments = []
  once : (program.root.nodes.flatMap fun node =>
    node.attributes.comments.map Comment.position).Nodup

/-- Nothing has been handed out where a parse begins. -/
theorem Parser.ofSource_fresh (options : Options) (source : List UInt8) :
    (ofSource options source).cursor.HasFreshComments
      (Item.gather (Lexer.ofSource options.shortTags source).tokens) := by
  obtain ⟨item, following, gathered, begins⟩ := ofSource_items options source
  obtain ⟨errors, journal, equation, _⟩ :=
    Cursor.ofItems_eq (ofSource options source).context item following
  have whole : (ofSource options source).cursor.current ::
      (ofSource options source).cursor.following =
        Item.gather (Lexer.ofSource options.shortTags source).tokens := by
    rw [begins, equation, gathered]
  exact fun _ => ⟨[], whole⟩

section Programs

variable {options : Options} {source : List UInt8} {program : Program}

theorem parse_attaching (attached : options.attachComments = true)
    (parsed : parse options source = some program) :
    Sorted (.attaching (Parser.ofSource options source).context
      (inStream_gather (Lexer.ofSource options.shortTags source))) .statement program.root := by
  obtain ⟨after, ended⟩ := parse_eq_some.mp parsed
  have run := Parser.programWith_run ended
  have stream := inStream_gather (Lexer.ofSource options.shortTags source)
  exact Parse.program_sorted (Grammar.closed_attaching stream attached _)
    (Parse.topLevel_attaches stream attached (Parser.ofSource_fresh options source)) run
    (Parser.ofSource_stands options source) nofun

theorem parse_comments_behind (attached : options.attachComments = true)
    (parsed : parse options source = some program) :
    ∃ item ∈ Item.gather (Lexer.ofSource options.shortTags source).tokens,
      item.token.kind = .eof ∧ program.root.attributes.comments =
        item.comments.map (Token.comment (LineIndex.ofSource source)) := by
  obtain ⟨wf, _⟩ := Parser.ofSource_cursor options source
  obtain ⟨after, ended⟩ := parse_eq_some.mp parsed
  obtain ⟨stmts, last, yields, ends, _, root, _⟩ :=
    (Parse.program_closed_reads _ wf).of_run (Parser.programWith_run ended)
  have fresh := (Parser.ofSource_fresh options source).yields
    (Parser.ofSource_stands options source) yields
  have atEnd := fresh (by simp [ends])
  refine ⟨last.current, atEnd.subset (List.mem_cons_self ..), ends, ?_⟩
  rw [root]
  exact last.comments_eq attached

theorem parse_draws (attached : options.attachComments = true)
    (parsed : parse options source = some program) :
    program.root.CarriesCommentsOfItems (LineIndex.ofSource source)
      (Item.gather (Lexer.ofSource options.shortTags source).tokens) := by
  have sorted := parse_attaching attached parsed
  obtain ⟨pieces, covers⟩ := parse_covers parsed
  exact ⟨fun node below carries => (sorted.of_comments carries below).carried,
    parse_comments_behind attached parsed, covers.apart sorted program.root.self_mem_nodes⟩

/-- With comments attached, each element of a list carries exactly the comments in front of its
first token, the root those at the end, and no other node any. None is attached twice. -/
theorem parse_attaches_comments (attached : options.attachComments = true)
    (parsed : parse options source = some program) : program.Attaches options source := by
  have tokens := (Lexer.ofSource options.shortTags source).tokens_stream
  have sorted := parse_attaching attached parsed
  have drawn := parse_draws attached parsed
  refine ⟨fun parent member stmts listed node inside => ?_, ?_,
    fun parent member field inForm other child inField => ?_, drawn.nodup tokens⟩
  · obtain ⟨place, parentSorted⟩ := Sorted.exists_of_mem parent sorted member
    obtain ⟨item, gathered, _, starts, comments⟩ :=
      (parentSorted.body listed node inside).carried
    obtain ⟨listed, read⟩ := Item.token_gather gathered
    refine ⟨item.token, listed, read, starts, ?_⟩
    rw [commentsBefore_item tokens gathered]
    exact comments
  · obtain ⟨item, gathered, ends, comments⟩ := drawn.behind
    have start : item.token.start = source.length :=
      congrArg Span.start (Lexer.span_of_eof (Item.token_gather gathered).1 ends)
    rw [← start, commentsBefore_item tokens gathered]
    exact comments
  · obtain ⟨place, parentSorted⟩ := Sorted.exists_of_mem parent sorted member
    refine (parentSorted.child inForm inField).carried ?_
    rw [Form.isElement_place]
    exact beq_false_of_ne other

theorem parse_attaches_comments_nested :
    ∃ program,
      parse {}
        (bytesOf "<?php # a\n\x7b /* b */ echo /* c */ 1; /** d */ \x7d // e") = some program ∧
      program.root.attributes.comments.map Comment.value = ["// e"] ∧
      program.Attaches {}
        (bytesOf "<?php # a\n\x7b /* b */ echo /* c */ 1; /** d */ \x7d // e") := by
  have checked : (parse {}
      (bytesOf "<?php # a\n\x7b /* b */ echo /* c */ 1; /** d */ \x7d // e")).any (fun program =>
        program.root.attributes.comments.map Comment.value == ["// e"]) = true := by decide +kernel
  obtain ⟨program, parsed, behind⟩ := (Option.any_eq_true _ _).mp checked
  exact ⟨program, parsed, beq_iff_eq.mp behind, parse_attaches_comments rfl parsed⟩

end Programs
end PhpTree
