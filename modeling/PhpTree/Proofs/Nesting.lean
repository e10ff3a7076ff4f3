import PhpTree.Proofs.Levels
import PhpTree.Proofs.Printing.RoundTrip

/-! # How deep trees get

Statements and expressions inside each other are counted while they are parsed, and
none begins at the limit.  Between one that is counted and the next lie five nodes at
most.  Calls and accesses are not counted: a loop wraps each around what it follows, so
a chain of them makes a tree as high as the chain is long.  The limit bounds the tree
when such a chain counts as one node. -/
set_option autoImplicit false
namespace PhpTree

/-! ## Ranks -/

/-- With five nodes to a level, an expression or a statement has three left on the level around
it. -/
def Level.rank : Level → Nat
  | .same rank => rank
  | .deeper => 3

theorem Form.one_le_rank {α : Type} (naming : Nat) (form : Form α) : 1 ≤ form.rank naming := by
  cases form <;> simp [rank]

/-- The rank of a form leaves room for whatever stands in its slots. -/
theorem Form.rank_slotLevel_le (naming : Nat) (form : Form Node) :
    ∀ field ∈ form.fields, (form.slotLevel naming field.1).rank +
      (if form.isChained field.1 then 0 else 1) ≤ form.rank naming := by
  have checked : (form.fields.all fun field => decide ((form.slotLevel naming field.1).rank +
      (if form.isChained field.1 then 0 else 1) ≤ form.rank naming)) = true := by
    cases form with
    | variableRef varName => exact List.all_eq_true.mpr <|
        List.forall_mem_singleton.mpr (decide_eq_true (Nat.le_refl (naming + 1)))
    | _ => rfl
  exact fun field inForm => of_decide_eq_true (List.all_eq_true.mp checked field inForm)

/-- A node is nested no deeper than the ranks of its parts say. -/
theorem Node.nesting_le_of_parts {naming room : Nat} {node : Node}
    (parts : ∀ part ∈ node.form.parts naming, part.node.nesting ≤ room + part.level.rank) :
    node.nesting ≤ room + node.form.rank naming := by
  refine heightBy_le.mpr ⟨?_, fun field inForm child inField => ?_⟩
  · exact Nat.le_add_left_of_le (node.form.one_le_rank naming)
  · have below : child.nesting ≤ room + (node.form.slotLevel naming field.1).rank :=
      parts _ (Form.mem_parts inForm inField)
    have fits := node.form.rank_slotLevel_le naming field inForm
    change (if _ then child.nesting else child.nesting + 1) ≤ _
    split at fits <;> rename_i chained
    · rw [if_pos chained]
      omega
    · rw [if_neg chained]
      omega

/-- Whatever is built at a depth is nested as deep as its rank and the levels left there allow. -/
theorem BuildsParts.nesting_le {context : Context} {given held : List Part} {origin cursor : Cursor}
    (built : BuildsParts context given origin held cursor)
    (fits : ∀ part ∈ given, part.node.nesting ≤
      5 * (context.options.maxDepth - origin.depth) + part.level.rank) :
    ∀ part ∈ held, part.node.nesting ≤
      5 * (context.options.maxDepth - origin.depth) + part.level.rank := by
  induction built with
  | here => exact fits
  | steps _ _ _ inductionHypothesis => exact inductionHypothesis fits
  | drop _ inductionHypothesis =>
      exact fun part member => inductionHypothesis fits part (List.mem_append_left _ member)
  | lower _ inductionHypothesis =>
      obtain ⟨before, nodes⟩ := List.forall_mem_append.mp (inductionHypothesis fits)
      exact List.forall_mem_append.mpr
        ⟨before, Part.forall_mark.mpr fun node member => Part.forall_mark.mp nodes node member⟩
  | raise _ le inductionHypothesis =>
      obtain ⟨before, nodes⟩ := List.forall_mem_append.mp (inductionHypothesis fits)
      refine List.forall_mem_append.mpr ⟨before, Part.forall_mark.mpr fun node member => ?_⟩
      exact Nat.le_trans (Part.forall_mark.mp nodes node member) (Nat.add_le_add_left le _)
  | deeper built room _ outerHypothesis innerHypothesis =>
      refine List.forall_mem_append.mpr ⟨outerHypothesis fits, Part.forall_mark.mpr ?_⟩
      intro node member
      have below := Part.forall_mark.mp (innerHypothesis nofun) node member
      have same := built.depth_eq
      simp only [Level.rank] at below ⊢
      omega
  | node _ _ _ inductionHypothesis =>
      obtain ⟨before, parts⟩ := List.forall_mem_append.mp (inductionHypothesis fits)
      refine List.forall_mem_append.mpr ⟨before, Part.forall_mark.mpr fun node member => ?_⟩
      obtain rfl := List.mem_singleton.mp member
      exact Node.nesting_le_of_parts parts
  | declaration built opening claims rest complete _ _ outerHypothesis openingHypothesis
      restHypothesis =>
      have level := built.depth_eq
      have claimLevel := opening.depth_eq
      rw [level] at openingHypothesis
      rw [Cursor.clearDoc, claimLevel, level] at restHypothesis
      have parts := List.forall_mem_append.mpr ⟨openingHypothesis nofun, restHypothesis nofun⟩
      refine List.forall_mem_append.mpr ⟨outerHypothesis fits, Part.forall_mark.mpr ?_⟩
      intro node member
      obtain rfl := List.mem_singleton.mp member
      exact Node.nesting_le_of_parts fun part inForm => parts part (complete.mem_iff.mpr inForm)
  | commented comments _ inductionHypothesis =>
      obtain ⟨before, one⟩ := List.forall_mem_append.mp (inductionHypothesis fits)
      refine List.forall_mem_append.mpr ⟨before, Part.forall_mark.mpr fun node member => ?_⟩
      obtain rfl := List.mem_singleton.mp member
      rw [Node.nesting_modifyAttributes]
      exact Part.forall_mark.mp one _ (List.mem_singleton.mpr rfl)

/-- Whatever is parsed is nested no deeper than the limit allows, with five nodes to a level, if a
chain of calls and accesses counts as one node. -/
theorem parse_nesting_le {options : Options} {source : List UInt8} {program : Program}
    (parsed : parse options source = some program) :
    program.root.nesting ≤ 5 * (options.maxDepth + 1) := by
  obtain ⟨_, built, _⟩ := parse_builds parsed
  obtain ⟨stmts, form⟩ : ∃ stmts, program.root.form = .stmtList stmts := by
    obtain ⟨after, ended⟩ := parse_eq_some.mp parsed
    obtain ⟨stmts, _, _, root, _⟩ := Parse.program_eq_some.mp (Parser.programWith_run ended)
    exact ⟨stmts, by rw [root]; rfl⟩
  obtain ⟨_, depth, _⟩ := Parser.ofSource_cursor options source
  have shallow := Node.nesting_le_of_parts (built.nesting_le nofun)
  rw [form, depth] at shallow
  change program.root.nesting ≤ 5 * (options.maxDepth - 0) + 4 at shallow
  omega

theorem parse_nesting_le_properties :
    ∃ program, parse { maxDepth := 2 } (bytesOf "<?php $a->b->c->d->e;") = some program ∧
      program.root.height = 8 ∧ program.root.nesting ≤ 15 := by
  have checked : (parse { maxDepth := 2 } (bytesOf "<?php $a->b->c->d->e;")).any (fun program =>
      program.root.height == 8) = true := by decide +kernel
  obtain ⟨program, parsed, high⟩ := (Option.any_eq_true _ _).mp checked
  exact ⟨program, parsed, beq_iff_eq.mp high, parse_nesting_le parsed⟩

/-! ## Chains -/

namespace Node

theorem height_unplaced (node : Node) : node.unplaced.height = node.height := by
  induction node using Node.induction with
  | step node inductionHypothesis =>
      cases node with
      | mk info form =>
          rw [unplaced_mk, height_eq, height_eq]
          show ((form.map unplaced).children.map height).foldr max 0 + 1 = _
          rw [Form.children_map, List.map_map]
          congr 2
          exact List.map_congr_left inductionHypothesis

def properties : Nat → Node
  | 0 => bare (.variableRef (some (leaf .identifier "$a")))
  | count + 1 => bare (.propertyFetch (some (properties count)) (some (leaf .identifier "b")))

theorem properties_isOperand (count : Nat) : (properties count).isOperand false = true := by
  cases count <;> rfl

theorem properties_isRefClosure (count : Nat) : (properties count).isRefClosure = false := by
  cases count <;> rfl

theorem fits_properties (count : Nat) : Fits .expr (properties count) := by
  induction count with
  | zero => exact .variable (.mk (.mk ⟨by decide +kernel, by decide +kernel⟩))
  | succ count inductionHypothesis =>
      exact .property inductionHypothesis
        (.identifier (.mk ⟨by decide +kernel, by decide +kernel⟩))

theorem levels_properties (count : Nat) : (properties count).printed.levels = 0 := by
  induction count with
  | zero => decide +kernel
  | succ count inductionHypothesis =>
      rw [properties, printed_propertyFetch, operand_of_isOperand (properties_isOperand count)]
      simp [inductionHypothesis, printed_leaf]

theorem lt_height_properties (count : Nat) : count < (properties count).height := by
  induction count with
  | zero => decide +kernel
  | succ count inductionHypothesis =>
      refine Nat.lt_of_le_of_lt inductionHypothesis (height_lt_of_mem_children ?_)
      simp [properties, bare, Node.form, Form.children, Form.fields, Field.toList]

end Node

open Node in
/-- No multiple of the limit bounds the heights of trees: with two levels, a chain can be parsed
that is as long as one likes. -/
theorem height_not_bounded_by_maxDepth :
    ¬ ∃ factor, ∀ (options : Options) (source : List UInt8) (program : Program),
      parse options source = some program →
        program.root.height ≤ factor * (options.maxDepth + 1) := by
  rintro ⟨factor, bounded⟩
  have statement : Fits .statement (bare (.expression (some (properties (factor * 3))))) :=
    .expression (fits_properties _)
  obtain ⟨program, parsed, _, tree⟩ := parse_source_of_fits
    (List.forall_mem_singleton.mpr statement) { maxDepth := 2 } (by
      show (Printed.joined [Printed.nested _]).levels ≤ 2
      rw [printed_expression (properties_isRefClosure _)]
      simp [Printed.joined, levels_properties])
  have low : program.root.height ≤ factor * 3 := bounded _ _ _ parsed
  have high := lt_height_properties (factor * 3)
  rw [← height_unplaced, tree] at low
  have inner : (properties (factor * 3)).height <
      (bare (.expression (some (properties (factor * 3))))).height :=
    height_lt_of_mem_children (by simp [bare, Node.form, Form.children, Form.fields, Field.toList])
  have outer : (bare (.expression (some (properties (factor * 3))))).height <
      (bare (.stmtList [bare (.expression (some (properties (factor * 3))))])).height :=
    height_lt_of_mem_children (by simp [bare, Node.form, Form.children, Form.fields, Field.toList])
  omega

end PhpTree
