import Mathlib.Data.List.Basic
import PhpTree.Proofs.Descent
import PhpTree.Tree.SExpr

/-! # The S-expression as a recursion

The writer of S-expressions is a visitor that walks the tree with the text written so
far.  Its text is that of a plain recursion: the opening of a node, then slot after slot
the children, each on a line of its own.  Trees written one after another are printed
each by itself, with a line feed between them. -/
set_option autoImplicit false
namespace PhpTree
namespace SExpr

def indent (level : Nat) : List Char := '\n' :: List.replicate (2 * level) ' '

theorem toList_newline (level : Nat) : (newline level).toList = indent level :=
  String.toList_ofList

/-- A slot: its name on one line, then every child on a line of its own. -/
def slotText {α : Type} (level : Nat) (write : α → List Char) (field : Slot × Field α) :
    List Char :=
  indent (level + 1) ++ ':' :: (field.1.name.toList ++
    field.2.toList.flatMap fun child => indent (level + 2) ++ write child)

def rendered (settings : Settings) : Node → Nat → List Char :=
  Node.fold fun node children level =>
    '(' :: ((header settings node).toList ++
      (children.reported.flatMap (slotText level fun child => child () (level + 2)) ++ [')']))

theorem rendered_eq (settings : Settings) (node : Node) (level : Nat) :
    rendered settings node level = '(' :: ((header settings node).toList ++
      (node.form.reported.flatMap (slotText level fun child =>
        rendered settings child (level + 2)) ++ [')'])) := by
  cases node with
  | mk info form =>
      rw [rendered, Node.fold_mk, Form.reported_map]
      simp only [List.flatMap_map, slotText, Field.toList_map]
      rfl

theorem toList_foldl {α : Type} {step : String → α → String} {text : α → List Char} {items : List α}
    (puts : ∀ item ∈ items, ∀ output : String, output ≠ "" →
      (step output item).toList = output.toList ++ text item) :
    ∀ output : String, output ≠ "" →
      (items.foldl step output).toList = output.toList ++ items.flatMap text := by
  induction items with
  | nil => simp
  | cons item items inductionHypothesis =>
      intro output started
      have written := puts item (by simp) output started
      have still : step output item ≠ "" := by
        intro empty
        rw [empty] at written
        exact started (String.toList_eq_nil_iff.mp (List.append_eq_nil_iff.mp written.symm).1)
      rw [List.foldl_cons, inductionHypothesis (fun other member => puts other (by simp [member]))
        _ still, written, List.flatMap_cons, List.append_assoc]

def start (output : String) (level : Nat) : List Char := if output = "" then [] else indent level

theorem toList_enter (settings : Settings) (node : Node) (level : Nat) (output : String) :
    ((formatter settings).enter level node output).2.toList =
      output.toList ++ (start output level ++ '(' :: (header settings node).toList) := by
  by_cases empty : output = ""
  · simp [formatter, start, empty]
  · simp [formatter, start, empty, toList_newline]

theorem toList_descend (settings : Settings) (slot : Slot) (level : Nat) (output : String) :
    ((formatter settings).descend level slot output).2.toList =
      output.toList ++ (indent (level + 1) ++ ':' :: slot.name.toList) := by
  simp [formatter, toList_newline]

theorem ne_empty_of_toList {output : String} {front back : List Char} {char : Char}
    (written : output.toList = front ++ char :: back) : output ≠ "" := by
  rintro rfl
  simp at written

/-- Walking a tree writes its text behind what is there. -/
theorem walk_formatter (settings : Settings) (node : Node) : ∀ (level : Nat) (output : String),
    (node.walk (formatter settings) level output).toList =
      output.toList ++ (start output level ++ rendered settings node level) := by
  induction node using Node.induction with
  | step node inductionHypothesis =>
      intro level output
      have entered : ((formatter settings).enter level node output).1 = true := rfl
      have opened := toList_enter settings node level output
      have slots : ∀ field ∈ node.form.reported, ∀ output : String, output ≠ "" →
          (field.2.toList.foldl (fun state child => child.walk (formatter settings)
            ((formatter settings).descend level field.1 output).1 state)
            ((formatter settings).descend level field.1 output).2).toList =
          output.toList ++ slotText level (fun child => rendered settings child (level + 2))
            field := by
        intro field reported output started
        have named := toList_descend settings field.1 level output
        have children : ∀ child ∈ field.2.toList, ∀ before : String, before ≠ "" →
            (child.walk (formatter settings)
              ((formatter settings).descend level field.1 output).1 before).toList =
            before.toList ++ (indent (level + 2) ++ rendered settings child (level + 2)) := by
          intro child inside before started
          rw [inductionHypothesis child (Form.mem_children_of_reported reported inside), start,
            if_neg started]
          rfl
        have begun : ((formatter settings).descend level field.1 output).2 ≠ "" :=
          ne_empty_of_toList named
        rw [toList_foldl children _ begun, named]
        simp [slotText]
      have begun : ((formatter settings).enter level node output).2 ≠ "" :=
        ne_empty_of_toList (opened.trans (List.append_assoc ..).symm)
      have closed : ∀ state, ((formatter settings).leave level node state).toList =
          state.toList ++ [')'] := by
        simp [formatter]
      rw [Node.walk_eq, if_pos entered, closed, toList_foldl slots _ begun, opened, rendered_eq]
      simp

theorem toList_format (settings : Settings) (node : Node) :
    (format settings node).toList = rendered settings node 0 :=
  walk_formatter settings node 0 ""

/-! ## Printing by plain recursion -/

def lineBreak (width : Nat) : String := "\n" ++ String.ofList (List.replicate width ' ')

def valueText (node : Node) : String :=
  (node.text?.map fun text => " " ++ Quoted.plain text).getD ""

/-- Prints a node with nothing but its depth known: what it is and carries, then slot after slot,
the children of a slot one level deeper. -/
def render (settings : Settings) : Node → (depth : Nat) → String :=
  Node.fold fun node children depth =>
    "(" ++ node.label ++ valueText node ++
      String.join (node.attributes.entries.map (attributeText settings)) ++
      positionText settings node ++
      String.join (children.reported.map fun field =>
        lineBreak (4 * depth + 2) ++ ":" ++ field.1.name ++
          String.join (field.2.toList.map fun child =>
            lineBreak (4 * (depth + 1)) ++ child () (depth + 1))) ++ ")"

theorem render_eq (settings : Settings) (node : Node) (depth : Nat) :
    render settings node depth =
      "(" ++ node.label ++ valueText node ++
        String.join (node.attributes.entries.map (attributeText settings)) ++
        positionText settings node ++
        String.join (node.form.reported.map fun field =>
          lineBreak (4 * depth + 2) ++ ":" ++ field.1.name ++
            String.join (field.2.toList.map fun child =>
              lineBreak (4 * (depth + 1)) ++ render settings child (depth + 1))) ++ ")" := by
  cases node with
  | mk info form =>
      rw [render, Node.fold_mk, Form.reported_map, List.map_map]
      simp only [Function.comp_def, Field.toList_map, List.map_map]
      rfl

theorem toList_lineBreak {width level : Nat} (double : width = 2 * level) :
    (lineBreak width).toList = indent level := by
  simp [lineBreak, indent, double]

theorem header_eq (settings : Settings) (node : Node) :
    header settings node = node.label ++ valueText node ++
      String.join (node.attributes.entries.map (attributeText settings)) ++
      positionText settings node := by
  rw [header, valueText]
  cases node.text? <;> rfl

/-- Every depth is two levels of the formatter. -/
theorem toList_render (settings : Settings) (node : Node) : ∀ depth : Nat,
    (render settings node depth).toList = rendered settings node (2 * depth) := by
  induction node using Node.induction with
  | step node inductionHypothesis =>
      intro depth
      have slotLine : (lineBreak (4 * depth + 2)).toList = indent (2 * depth + 1) :=
        toList_lineBreak (by omega)
      have childLine : (lineBreak (4 * (depth + 1))).toList = indent (2 * depth + 2) :=
        toList_lineBreak (by omega)
      have slots : node.form.reported.flatMap (fun field =>
          (lineBreak (4 * depth + 2) ++ ":" ++ field.1.name ++
            String.join (field.2.toList.map fun child =>
              lineBreak (4 * (depth + 1)) ++ render settings child (depth + 1))).toList) =
          node.form.reported.flatMap (slotText (2 * depth) fun child =>
            rendered settings child (2 * depth + 2)) := by
        refine List.flatMap_congr fun field reported => ?_
        have children : (field.2.toList.flatMap fun child =>
            (lineBreak (4 * (depth + 1)) ++ render settings child (depth + 1)).toList) =
            field.2.toList.flatMap fun child =>
              indent (2 * depth + 2) ++ rendered settings child (2 * depth + 2) := by
          refine List.flatMap_congr fun child inside => ?_
          rw [String.toList_append, childLine,
            inductionHypothesis child (Form.mem_children_of_reported reported inside)]
          rfl
        rw [slotText, ← children, ← slotLine]
        simp [String.toList_join, List.flatMap_map]
      rw [render_eq, rendered_eq, ← slots, header_eq]
      simp [String.toList_join, List.flatMap_map]

theorem toList_intercalate_cons (first : String) (rest : List String) :
    ("\n".intercalate (first :: rest)).toList =
      first.toList ++ rest.flatMap fun text => '\n' :: text.toList := by
  induction rest generalizing first with
  | nil => simp
  | cons next rest inductionHypothesis =>
      rw [String.intercalate_cons_cons, String.toList_append, inductionHypothesis]
      simp

/-- Trees that are formatted one after another into the same text are printed each by itself, and a
line feed stands between any two of them. -/
theorem formatAll_eq_render (settings : Settings) (nodes : List Node) :
    formatAll settings nodes = "\n".intercalate (nodes.map fun node => render settings node 0) := by
  cases nodes with
  | nil => exact String.intercalate_nil.symm
  | cons first rest =>
      -- Only the first tree meets an empty text.
      have begun : (first.walk (formatter settings) 0 "").toList =
          (render settings first 0).toList := by
        rw [walk_formatter, toList_render]
        rfl
      have started : first.walk (formatter settings) 0 "" ≠ "" := by
        rw [toList_render, rendered_eq] at begun
        exact ne_empty_of_toList (begun.trans (List.nil_append _).symm)
      have further : ∀ node ∈ rest, ∀ output : String, output ≠ "" →
          (node.walk (formatter settings) 0 output).toList =
            output.toList ++ '\n' :: (render settings node 0).toList := by
        intro node _ output written
        rw [walk_formatter, start, if_neg written, toList_render]
        rfl
      apply String.toList_injective
      rw [formatAll, List.foldl_cons, toList_foldl further _ started, begun, List.map_cons,
        toList_intercalate_cons, List.flatMap_map]

end SExpr
end PhpTree
