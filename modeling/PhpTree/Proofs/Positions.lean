import PhpTree.Proofs.CursorAgreement
import PhpTree.Proofs.Extents
import PhpTree.Proofs.Gaps
import PhpTree.Proofs.Lines
import PhpTree.Proofs.Pairing.Revisions
import PhpTree.Proofs.Standing
import PhpTree.Proofs.Tiling

/-! # The positions of a result

Nodes, comments and errors are placed by spans of tokens, or from an offset on to the end
of the last consumed token.  As long as nothing ahead of the cursor and nothing behind it
lies outside the source, no such span does either.  That a tree has only positions of this
kind is said by a revision: the tree stays what it is when all other positions are left
out. -/
set_option autoImplicit false
namespace PhpTree

/-! ## Tokens lie in their source -/

def Item.tokens (item : Item) : List Token := item.token :: (item.comments ++ item.unterminated)

theorem Item.tokens_gather {tokens : List Token} {item : Item} (member : item ∈ gather tokens) :
    ∀ token ∈ item.tokens, token ∈ tokens := by
  refine List.forall_mem_cons.mpr ⟨(token_gather member).1, fun token inside => ?_⟩
  rcases List.mem_append.mp inside with comment | unterminated
  · exact comments_gather member token comment
  · exact (unterminated_gather tokens item member token unterminated).1

theorem Token.position_isCoherent {source : List UInt8} {token : Token}
    (inside : token.stop ≤ source.length) :
    ((LineIndex.ofSource source).position token.span).IsCoherent source :=
  LineIndex.position_isCoherent (Nat.le_add_right _ _) inside

/-! ## Cursors inside a source -/

structure Cursor.LiesInside (source : List UInt8) (cursor : Cursor) : Prop where
  ahead : ∀ item ∈ cursor.current :: cursor.following, ∀ token ∈ item.tokens,
    token.stop ≤ source.length
  lastEnd : cursor.lastEnd ≤ source.length
  errors : ∀ error ∈ cursor.errors, error.position.IsCoherent source

namespace Cursor.LiesInside

variable {source : List UInt8} {context : Context} {cursor : Cursor}

theorem stop_le (inside : cursor.LiesInside source) : cursor.current.token.stop ≤ source.length :=
  inside.ahead _ (List.mem_cons_self ..) _ (List.mem_cons_self ..)

theorem start_le (inside : cursor.LiesInside source) : cursor.start ≤ source.length :=
  Nat.le_trans (Nat.le_add_right _ _) inside.stop_le

theorem view (lines : context.lines = .ofSource source) (inside : cursor.LiesInside source)
    {item : Item} (opened : ∀ token ∈ item.tokens, token.stop ≤ source.length) :
    (cursor.view context item).LiesInside source := by
  rw [view_eq]
  refine ⟨inside.ahead, inside.lastEnd,
    List.forall_mem_append.mpr ⟨fun error member => ?_, inside.errors⟩⟩
  obtain ⟨token, unclosed, rfl⟩ := List.mem_map.mp (List.mem_reverse.mp member)
  rw [lines]
  exact Token.position_isCoherent (opened token (by simp [Item.tokens, unclosed]))

theorem lookAhead (lines : context.lines = .ofSource source) (inside : cursor.LiesInside source) :
    (cursor.lookAhead context).LiesInside source := by
  unfold Cursor.lookAhead
  split
  · rename_i item rest following
    exact inside.view lines (inside.ahead item (by simp [following]))
  · exact inside

theorem record {error : ParseError} (inside : cursor.LiesInside source)
    (coherent : error.position.IsCoherent source) : (cursor.record error).LiesInside source := by
  unfold Cursor.record
  split
  · exact inside
  · exact ⟨inside.ahead, inside.lastEnd, List.forall_mem_cons.mpr ⟨coherent, inside.errors⟩⟩

theorem position (lines : context.lines = .ofSource source) (inside : cursor.LiesInside source) :
    (cursor.position context).IsCoherent source := by
  rw [Cursor.position, lines]
  exact Token.position_isCoherent inside.stop_le

theorem positionFrom (lines : context.lines = .ofSource source) (inside : cursor.LiesInside source)
    {start : Nat} (bounded : start ≤ source.length) :
    (cursor.positionFrom context start).IsCoherent source := by
  rw [Cursor.positionFrom, lines]
  exact LineIndex.position_isCoherent (Nat.le_max_right _ _)
    (Nat.max_le.mpr ⟨inside.lastEnd, bounded⟩)

theorem advance (lines : context.lines = .ofSource source) (inside : cursor.LiesInside source) :
    (cursor.advance context).LiesInside source := by
  cases next : cursor.following with
  | nil =>
      rw [advance_nil next]
      refine ⟨?_, inside.stop_le, inside.errors⟩
      simpa [next, Item.tokens] using inside.stop_le
  | cons item rest =>
      rw [advance_eq_lookAhead next]
      refine lookAhead lines ⟨fun other member => ?_, inside.stop_le, inside.errors⟩
      exact inside.ahead other (List.mem_cons_of_mem _ (next ▸ member))

theorem step {after : Cursor} (lines : context.lines = .ofSource source)
    (step : cursor.Step context after) (inside : cursor.LiesInside source) :
    after.LiesInside source := by
  cases step with
  | advance => exact inside.advance lines
  | report expected =>
      unfold Cursor.report
      split
      · exact inside.record (inside.position lines)
      · exact inside.record (inside.position lines)
  | reportTooDeep => exact inside.record (inside.position lines)
  | dropComments =>
      refine ⟨?_, inside.lastEnd, inside.errors⟩
      obtain ⟨current, following⟩ := List.forall_mem_cons.mp inside.ahead
      refine List.forall_mem_cons.mpr ⟨fun token member => current token ?_, following⟩
      have kept : token = cursor.current.token ∨ token ∈ cursor.current.unterminated := by
        simpa [Cursor.dropComments, Item.tokens] using member
      rcases kept with rfl | unterminated
      · exact List.mem_cons_self ..
      · exact List.mem_cons_of_mem _ (List.mem_append_right _ unterminated)
  | clearDoc => exact ⟨inside.ahead, inside.lastEnd, inside.errors⟩
  | note entry => exact ⟨inside.ahead, inside.lastEnd, inside.errors⟩
  | nest depth => exact ⟨inside.ahead, inside.lastEnd, inside.errors⟩

end Cursor.LiesInside

theorem Parser.ofSource_inside (options : Options) (source : List UInt8) :
    (ofSource options source).cursor.LiesInside source := by
  obtain ⟨item, following, gathered, begins⟩ := ofSource_items options source
  have ahead : ∀ other ∈ item :: following, ∀ token ∈ other.tokens,
      token.stop ≤ source.length := fun other member token inside =>
    Lexer.stop_le_length (Item.tokens_gather (gathered ▸ member) token inside)
  rw [begins]
  exact .lookAhead rfl (.view rfl ⟨ahead, Nat.zero_le _, List.forall_mem_nil _⟩
    (ahead item (List.mem_cons_self ..)))

/-! ## Trees with coherent positions -/

/-- The comment has a position, and a coherent one. -/
def Comment.IsPlaced (source : List UInt8) (comment : Comment) : Prop :=
  ∃ position ∈ comment.position, position.IsCoherent source

instance (source : List UInt8) (comment : Comment) : Decidable (comment.IsPlaced source) :=
  inferInstanceAs (Decidable (∃ position ∈ comment.position, position.IsCoherent source))

theorem Cursor.LiesInside.comments {source : List UInt8} {context : Context} {cursor : Cursor}
    (lines : context.lines = .ofSource source) (inside : cursor.LiesInside source) :
    ∀ comment ∈ cursor.comments context, comment.IsPlaced source := by
  unfold Cursor.comments
  split
  · intro comment member
    obtain ⟨token, stands, rfl⟩ := List.mem_map.mp member
    have bounded := inside.ahead _ (List.mem_cons_self ..) token (by simp [Item.tokens, stands])
    exact ⟨_, rfl, lines ▸ Token.position_isCoherent bounded⟩
  · exact List.forall_mem_nil _

/-- All positions that a node carries are coherent. -/
structure Info.IsCoherent (source : List UInt8) (info : Info) : Prop where
  position : ∀ position ∈ info.position, position.IsCoherent source
  comments : ∀ comment ∈ info.attributes.comments, comment.IsPlaced source

namespace Info

variable {source : List UInt8}

/-- Leaves out what has no coherent position. -/
def keepCoherent (source : List UInt8) (info : Info) : Info where
  attributes := { info.attributes with
    comments := info.attributes.comments.filter fun comment => comment.IsPlaced source }
  position := info.position.filter fun position => position.IsCoherent source

theorem keepCoherent_eq_self {info : Info} :
    info.keepCoherent source = info ↔ info.IsCoherent source := by
  have parts : info.keepCoherent source = info ↔
      (info.position.filter fun position => position.IsCoherent source) = info.position ∧
      (info.attributes.comments.filter fun comment => comment.IsPlaced source) =
        info.attributes.comments := by
    constructor
    · exact fun same => ⟨congrArg Info.position same,
        congrArg (fun info : Info => info.attributes.comments) same⟩
    · rintro ⟨position, comments⟩
      rw [keepCoherent, comments, position]
  have position : (info.position.filter fun position => position.IsCoherent source) =
      info.position ↔ ∀ position ∈ info.position, position.IsCoherent source := by
    cases info.position <;> simp [Option.filter]
  have comments := @List.filter_eq_self _ (fun comment : Comment => comment.IsPlaced source)
    info.attributes.comments
  rw [parts, position, comments]
  simp only [decide_eq_true_eq]
  exact ⟨fun both => ⟨both.1, both.2⟩, fun coherent => ⟨coherent.position, coherent.comments⟩⟩

theorem keepCoherent_prependComments (info : Info) {comments : List Comment}
    (placed : ∀ comment ∈ comments, comment.IsPlaced source) :
    keepCoherent source { info with attributes := info.attributes.prependComments comments } =
      { info.keepCoherent source with
        attributes := (info.keepCoherent source).attributes.prependComments comments } := by
  have all : (comments.filter fun comment => comment.IsPlaced source) = comments :=
    List.filter_eq_self.mpr (by simpa using placed)
  simp only [keepCoherent, Attributes.prependComments, List.filter_append, all]

end Info

def Revision.coherent (options : Options) (source : List UInt8) : Revision where
  toContexts :=
    .everyRun { options, lines := .ofSource source } { options, lines := .ofSource source } rfl
  lines := rfl
  fits := Cursor.LiesInside source
  fits_step step inside := inside.step rfl step
  begins start := start ≤ source.length
  start inside := inside.start_le
  annotates comments others :=
    comments = others ∧ ∀ comment ∈ comments, comment.IsPlaced source
  uncommented := ⟨rfl, List.forall_mem_nil _⟩
  comments inside := ⟨rfl, inside.comments rfl⟩
  partners := .inl fun _ => trivial
  change := Info.keepCoherent source
  token inside := by
    refine Info.keepCoherent_eq_self.mpr ⟨?_, List.forall_mem_nil _⟩
    rintro _ ⟨⟩
    exact inside.position rfl
  place {cursor start attributes other} inside bounded accord := by
    obtain ⟨flags, doc, comments, placed⟩ := accord
    have same : attributes.Accord id Eq other := ⟨flags, doc, comments⟩
    rw [← same.eq]
    refine Info.keepCoherent_eq_self.mpr ⟨?_, placed⟩
    rintro _ ⟨⟩
    exact inside.positionFrom rfl bounded
  prepend := by
    rintro comments _ info ⟨rfl, placed⟩
    exact info.keepCoherent_prependComments placed

/-! ## Results -/

section Programs

variable {options : Options} {source : List UInt8} {program : Program}

/-- A parse ends at a cursor inside the source, and all that its nodes carry is coherent. -/
theorem exists_coherent_stmts (parsed : parse options source = some program) :
    ∃ stmts, ∃ last : Cursor, last.LiesInside source ∧
      (∀ stmt ∈ stmts, ∀ node ∈ stmt.nodes, node.info.IsCoherent source) ∧
      program.root = .mk
        { attributes := { comments := last.comments (Parser.ofSource options source).context }
          position := Parse.extent? stmts } (.stmtList stmts) ∧
      program.errors = last.errors.reverse := by
  obtain ⟨after, ended⟩ := parse_eq_some.mp parsed
  obtain ⟨stmts, last, collected, root, errors, _⟩ :=
    Parse.program_eq_some.mp (Parser.programWith_run ended)
  have begins := Parser.ofSource_inside options source
  obtain ⟨_, inside⟩ := Revision.statements_of_run (.coherent options source)
    (Grammar.closed_simulates (Nat.le_refl _) .statement) (Nat.le_refl _) begins collected trivial
  have kept := Revision.change_eq_self (.coherent options source) rfl begins collected trivial
  exact ⟨stmts, last, inside, fun stmt member node below =>
    Info.keepCoherent_eq_self.mp (kept stmt member node below), root, errors⟩

/-- Every position in a result is there and is coherent. -/
structure Program.IsPositioned (source : List UInt8) (program : Program) : Prop where
  /-- The root has a position if and only if there are statements. -/
  root : ∃ stmts, program.root.form = .stmtList stmts ∧
    (program.root.position.isSome = true ↔ stmts ≠ [])
  /-- All other nodes have one. -/
  inner : ∀ node ∈ program.root.form.children.flatMap Node.nodes, node.position.isSome = true
  nodes : ∀ node ∈ program.root.nodes, ∀ position ∈ node.position, position.IsCoherent source
  comments : ∀ node ∈ program.root.nodes, ∀ comment ∈ node.attributes.comments,
    comment.IsPlaced source
  errors : ∀ error ∈ program.errors, error.position.IsCoherent source

/-- The extent from the first to the last of some statements is coherent. -/
theorem extent?_isCoherent {stmts : List Node}
    (coherent : ∀ stmt ∈ stmts, stmt.info.IsCoherent source)
    (covering : ∀ stmt ∈ stmts, ∃ position ∈ stmt.position, position.IsCovering)
    {position : Position} (placed : position ∈ Parse.extent? stmts) (covers : position.IsCovering) :
    position.IsCoherent source := by
  unfold Parse.extent? at placed
  split at placed
  · rename_i first last begins ends
    obtain rfl : first.through last = position := Option.some.inj placed
    obtain ⟨firstStmt, isFirst, firstPlaced⟩ := Option.bind_eq_some_iff.mp begins
    obtain ⟨lastStmt, isLast, lastPlaced⟩ := Option.bind_eq_some_iff.mp ends
    have firstMember := List.mem_of_head? isFirst
    have lastMember := List.mem_of_getLast? isLast
    obtain ⟨own, ownPlaced, lastCovers⟩ := covering lastStmt lastMember
    obtain rfl := Option.mem_unique lastPlaced ownPlaced
    exact ((coherent firstStmt firstMember).position first firstPlaced).through
      ((coherent lastStmt lastMember).position last lastPlaced) lastCovers covers
  · cases placed

theorem Program.Covers.root_isSome {pieces : List Piece}
    (covers : program.Covers options source pieces) :
    program.root.position.isSome = true ↔ nodesOf pieces ≠ [] := by
  obtain ⟨_, covering, encloses⟩ := covers.root_encloses
  constructor
  · intro some none
    simp [covers.placed, none, Parse.extent?] at some
  · intro some
    obtain ⟨stmt, member⟩ := List.exists_mem_of_ne_nil _ some
    obtain ⟨inner, placed, _⟩ := covering stmt member
    obtain ⟨outer, outerPlaced, _⟩ := encloses stmt member inner placed
    exact Option.isSome_iff_exists.mpr ⟨outer, outerPlaced⟩

theorem Program.Covers.inner_isSome {pieces : List Piece}
    (covers : program.Covers options source pieces) :
    ∀ node ∈ program.root.form.children.flatMap Node.nodes, node.position.isSome = true := by
  intro node member
  obtain ⟨child, isChild, inside⟩ := List.mem_flatMap.mp member
  obtain ⟨_, _, laid⟩ := covers.laidOut_of_mem_children program.root.self_mem_nodes isChild
  obtain ⟨_, below, _⟩ := laid.exists_of_mem_nodes node inside
  exact Option.isSome_iff_exists.mpr below.exists_position

/-- Whatever is parsed, with errors or without: every node inside the root has a position, the root
has one if and only if there are statements, and all positions, those of comments and errors
included, run forwards inside the source and have the lines of their first and their last byte. -/
theorem parse_isPositioned (parsed : parse options source = some program) :
    program.IsPositioned source := by
  obtain ⟨stmts, last, inside, coherent, root, errors⟩ := exists_coherent_stmts parsed
  obtain ⟨pieces, covers⟩ := parse_covers parsed
  have forms : Form.stmtList stmts = .stmtList (nodesOf pieces) := by
    rw [← covers.root, root]
    rfl
  obtain rfl : stmts = nodesOf pieces := Form.stmtList.inj forms
  have rootCoherent : program.root.info.IsCoherent source := by
    constructor
    · intro position placed
      refine extent?_isCoherent (fun stmt member => coherent stmt member stmt stmt.self_mem_nodes)
        covers.root_encloses.2.1 ?_ (covers.root_isCovering placed)
      rw [← covers.placed]
      exact placed
    · rw [root]
      exact inside.comments rfl
  have all : ∀ node ∈ program.root.nodes, node.info.IsCoherent source := by
    intro node member
    rcases Node.mem_nodes.mp member with rfl | ⟨stmt, isStmt, below⟩
    · exact rootCoherent
    · refine coherent stmt ?_ node below
      rw [covers.root] at isStmt
      simpa [Form.children, Form.fields, Field.toList] using isStmt
  exact {
    root := ⟨nodesOf pieces, covers.root, covers.root_isSome⟩
    inner := covers.inner_isSome
    nodes := fun node member => (all node member).position
    comments := fun node member => (all node member).comments
    errors := by
      rw [errors]
      exact fun error member => inside.errors error (List.mem_reverse.mp member) }

theorem parse_isPositioned_broken :
    let source := bytesOf "<?php\n/* c */\nfunction f($x,, &) \x7b g(;\n\x7d"
    ∃ program, parse {} source = some program ∧ program.hasErrors = true ∧
      program.IsPositioned source := by
  intro source
  have ends : (parse {} source).map Program.hasErrors = some true := by decide +kernel
  obtain ⟨program, parsed, broken⟩ := Option.map_eq_some_iff.mp ends
  exact ⟨program, parsed, broken, parse_isPositioned parsed⟩

end Programs
end PhpTree
