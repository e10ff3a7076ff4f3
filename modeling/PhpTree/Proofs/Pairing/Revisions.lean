import PhpTree.Proofs.Pairing.Productions

/-! # Two parses from one cursor

Two contexts with the same lines take a parse the same way: they can only make a
difference to the comments that are attached, and to the levels that are refused.  A
revision is a change to what nodes carry that turns what the one parse reads into what the
other does.  In one and the same context it says that the change alters nothing.

A comparison is a revision that changes nothing: one parse has the answer of the other. -/
set_option autoImplicit false
namespace PhpTree

structure Revision extends Contexts where
  lines : right.lines = left.lines
  fits : Cursor → Prop
  fits_step : ∀ {before after : Cursor}, before.Step left after → fits before → fits after
  /-- Offsets at which a node may begin. -/
  begins : Nat → Prop
  start : ∀ {cursor : Cursor}, fits cursor → begins cursor.start
  annotates : List Comment → List Comment → Prop
  uncommented : annotates [] []
  comments : ∀ {cursor : Cursor}, fits cursor →
    annotates (cursor.comments left) (cursor.comments right)
  partners : (∀ cursor, clean cursor) ∨
    (∀ start, begins start) ∧ ∀ comments, ∃ others, annotates comments others
  change : Info → Info
  token : ∀ {cursor : Cursor}, fits cursor →
    change { position := some (cursor.position left) } = { position := some (cursor.position left) }
  place : ∀ {cursor : Cursor} {start : Nat} {attributes other : Attributes}, fits cursor →
    begins start → attributes.Accord id annotates other →
      change { attributes, position := some (cursor.positionFrom left start) } =
        { attributes := other, position := some (cursor.positionFrom left start) }
  prepend : ∀ {comments others : List Comment} {info : Info}, annotates comments others →
    change { info with attributes := info.attributes.prependComments comments } =
      { change info with attributes := (change info).attributes.prependComments others }

namespace Revision

variable (revision : Revision)

/-- The one parse stands where the other does. -/
def SharesCursor (here there : Cursor) : Prop := here = there ∧ revision.fits here

variable {revision}

theorem SharesCursor.step {here there later behind : Cursor}
    (shared : revision.SharesCursor here there)
    (step : here.Step revision.left later) (same : later = behind) :
    revision.SharesCursor later behind :=
  ⟨same, revision.fits_step step shared.2⟩

theorem SharesCursor.kept : Cursor.KeptInPlace revision.SharesCursor where
  depth shared := congrArg Cursor.depth shared.1
  nest change shared := shared.step (.nest _) (by rw [shared.1])
  clearDoc shared := shared.step .clearDoc (by rw [shared.1])
  dropComments shared := shared.step .dropComments (by rw [shared.1])

theorem SharesCursor.advance {here there : Cursor} (shared : revision.SharesCursor here there) :
    revision.SharesCursor (here.advance revision.left) (there.advance revision.right) :=
  shared.step .advance (by rw [shared.1, Cursor.advance_congr revision.lines])

theorem lasts_fits : Cursor.HoldsThroughout revision.left revision.fits where
  advance := revision.fits_step .advance
  note entry := revision.fits_step (.note entry)
  clearDoc := revision.fits_step .clearDoc

variable (revision)

def pairing : Pairing where
  toContexts := revision.toContexts
  toParting := .never _
  aligned := revision.SharesCursor
  aligned_kept := SharesCursor.kept
  kind shared := congrArg Cursor.kind shared.1
  text shared := congrArg (fun cursor : Cursor => cursor.current.token.text) shared.1
  nextKind shared _ := congrArg Cursor.nextKind shared.1
  note entry shared := shared.step (.note _) (by rw [shared.1])
  advance shared _ := shared.advance
  report expected shared _ := shared.step (.report expected) <| by
    rw [shared.1, Cursor.report_congr revision.lines]
  reportTooDeep equal shared _ := shared.step .reportTooDeep <| by
    rw [shared.1, Cursor.reportTooDeep, Cursor.reportTooDeep, Cursor.position, Cursor.position,
      revision.lines, equal]
  semicolon shared _ := .inl shared.advance
  skipToStatementEnd := by
    rintro here _ ⟨rfl, fits⟩
    exact .inl ⟨by rw [Cursor.skipToStatementEnd_congr revision.lines],
      lasts_fits.skipToStatementEnd fits⟩
  skipStatement := by
    rintro here _ ⟨rfl, fits⟩ _
    exact .inl ⟨by rw [Cursor.skipStatement_congr revision.lines], lasts_fits.skipStatement fits⟩
  begins start begin := start = begin ∧ revision.begins start
  start := by
    rintro here _ ⟨rfl, fits⟩
    exact ⟨rfl, revision.start fits⟩
  docView := id
  doc shared := congrArg Cursor.pendingDoc shared.1
  annotates := revision.annotates
  uncommented := revision.uncommented
  comments := by
    rintro here _ ⟨rfl, fits⟩
    exact revision.comments fits
  partners := by
    refine revision.partners.imp_right fun partners => ⟨fun start => ?_, partners.2⟩
    exact ⟨start, rfl, partners.1 start⟩
  onLeft := revision.change
  onRight := id
  settled _ := rfl
  token := by
    rintro here _ ⟨rfl, fits⟩
    rw [revision.token fits, Cursor.position, Cursor.position, revision.lines]
    rfl
  place := by
    rintro here _ start _ attributes other (⟨rfl, fits⟩ | ⟨⟨⟩⟩) ⟨rfl, begins⟩ accord
    rw [revision.place fits begins accord, Cursor.positionFrom, Cursor.positionFrom,
      revision.lines]
    rfl
  prepend := by
    rintro comments others info _ related rfl
    exact revision.prepend related

variable {cursor last : Cursor} {fuel more : Nat} {grammar other : Grammar}
  {stmts : List Node}

/-- The statements that are read on the right are those that are read on the left, revised, and the
parses stop at the same cursor. -/
theorem statements_of_run
    (statement : PhraseSimulates revision.pairing .statement (grammar .statement)
      (other .statement)) (enough : fuel ≤ more) (fits : revision.fits cursor)
    (run : Parse.collect fuel (Parse.topLevel grammar) revision.left cursor = some (stmts, last))
    (clean : revision.clean last) :
    Parse.collect more (Parse.topLevel other) revision.right cursor =
        some (stmts.map (Node.mapInfo revision.change), last) ∧
      revision.fits last := by
  have round : StaysAligned revision.pairing (Pairing.DecidesAlike revision.pairing.Found)
      (Parse.topLevel grammar) (Parse.topLevel other) :=
    (Parse.topLevel_simulates statement).mono id fun met => met.resolve_right False.elim
  have shared : revision.pairing.aligned cursor cursor := ⟨rfl, fits⟩
  obtain ⟨others, behind, otherRun, listed, rfl, lastFits⟩ :=
    (Simulates.collect round enough).matched shared run clean
  have kept : others.map revision.pairing.rightView = others :=
    (List.map_congr_left fun node _ => (Node.mapInfo_eq_self node).mpr fun _ _ => rfl).trans
      (List.map_id' others)
  obtain rfl : others = stmts.map (Node.mapInfo revision.change) := (listed.trans kept).symm
  exact ⟨otherRun, lastFits⟩

theorem change_eq_self (same : revision.right = revision.left) (fits : revision.fits cursor)
    (run : Parse.collect fuel (Parse.topLevel (Grammar.closed fuel)) revision.left cursor =
      some (stmts, last)) (clean : revision.clean last) :
    ∀ stmt ∈ stmts, ∀ node ∈ stmt.nodes, revision.change node.info = node.info := by
  obtain ⟨again, _⟩ :=
    revision.statements_of_run (Grammar.closed_simulates (Nat.le_refl fuel) .statement)
      (Nat.le_refl _) fits
      run clean
  rw [same, run] at again
  have kept : stmts = stmts.map (Node.mapInfo revision.change) :=
    congrArg Prod.fst (Option.some.inj again)
  intro stmt member
  exact stmt.mapInfo_eq_self.mp
    (List.map_inj_left.mp (kept.symm.trans (List.map_id stmts).symm) stmt member)

end Revision

/-! ## Comparisons -/

structure Comparison extends Contexts where
  lines : right.lines = left.lines
  attachComments : right.options.attachComments = left.options.attachComments
  fits : Cursor → Prop
  fits_of_onward : ∀ {before after : Cursor}, before.MovesOnward after → fits before → fits after

namespace Comparison

/-- All cursors and all runs are compared, in one and the same context. -/
def plain (context : Context) : Comparison where
  toContexts := .everyRun context context rfl
  lines := rfl
  attachComments := rfl
  fits _ := True
  fits_of_onward _ _ := trivial

variable (comparison : Comparison)

theorem comments_eq (cursor : Cursor) :
    cursor.comments comparison.right = cursor.comments comparison.left := by
  simp only [Cursor.comments, comparison.lines, comparison.attachComments]

def revision : Revision where
  toContexts := comparison.toContexts
  lines := comparison.lines
  fits := comparison.fits
  fits_step step := comparison.fits_of_onward step.onward
  begins _ := True
  start _ := trivial
  annotates := Eq
  uncommented := rfl
  comments _ := (comparison.comments_eq _).symm
  partners := .inr ⟨fun _ => trivial, fun comments => ⟨comments, rfl⟩⟩
  change := id
  token _ := rfl
  place _ _ accord := by rw [accord.eq, id_eq]
  prepend := by
    rintro comments _ info rfl
    rfl

abbrev pairing : Pairing := comparison.revision.pairing

/-- In one and the same context every parser has its own answers. -/
theorem plain_simulates (context : Context) {before : Cursor → Cursor → Prop}
    (within : ∀ {here there : Cursor}, before here there → here = there)
    (parser : Parse (Option Node)) :
    Simulates (plain context).pairing before (plain context).pairing.meets
      (plain context).pairing.Found parser parser := by
  refine ⟨fun _ _ => trivial, fun related run _ => ?_⟩
  obtain rfl := within related
  exact ⟨_, _, run, rfl, .inl ⟨rfl, trivial⟩⟩

end Comparison

end PhpTree
