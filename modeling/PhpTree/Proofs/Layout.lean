import Mathlib.Data.List.Basic
import PhpTree.Proofs.Descent
import PhpTree.Proofs.Stream

/-! # How a tree lies on the tokens it was read from

The tokens of a node are cut into pieces, each the tokens of one child or a token
that the construct itself consists of.  `LaidOut` says that this can be done all the
way down to the leaves, that no child is left out, and that every node is placed
from its first token to its last. -/
set_option autoImplicit false
namespace PhpTree

namespace Node

/-! New nodes have the form they are built with, and changes to a node leave its form. -/

@[simp]
theorem form_bare (form : Form Node) : (bare form).form = form := rfl

@[simp]
theorem form_flagged (attributes : Attributes) (form : Form Node) :
    (flagged attributes form).form = form := rfl

@[simp]
theorem form_withPosition (node : Node) (position : Position) :
    (node.withPosition position).form = node.form := rfl

@[simp]
theorem form_modifyAttributes (node : Node) (change : Attributes → Attributes) :
    (node.modifyAttributes change).form = node.form := rfl

end Node

/-- Tokens that stand for themselves in a construct. -/
def TokenKind.isStructural : TokenKind → Bool
  | .keyword _ | .compound _ | .inlineHtml | .dollar | .backslash | .arrow | .nullSafeArrow |
    .doubleColon | .ellipsis | .equals | .ampersand | .question | .semicolon | .colon | .comma |
    .openBrace | .closeBrace | .openParen | .closeParen | .openTag | .openTagEcho |
    .closeTag => true
  | _ => false

/-- Which tokens a leaf can come from. -/
def LeafKind.fits : LeafKind → TokenKind → Bool
  | .identifier, kind => kind.isNameLike || kind == .variableName
  | .namePart, kind => kind.isNameLike
  | .integer, kind => kind == .integer
  | .decimal, kind => kind == .decimal
  | .string, kind => kind == .string

/-- A stretch of the tokens that were read: one that stands for itself, or those of a node. -/
inductive Piece where
  | loose (token : Token)
  | node (child : Node) (tokens : List Token)

namespace Piece

def tokens : Piece → List Token
  | .loose token => [token]
  | .node _ tokens => tokens

def node? : Piece → Option Node
  | .loose _ => none
  | .node child _ => some child

def mapNode (change : Node → Node) : Piece → Piece
  | .loose token => .loose token
  | .node child tokens => .node (change child) tokens

end Piece

def tokensOf (pieces : List Piece) : List Token := pieces.flatMap Piece.tokens

def nodesOf (pieces : List Piece) : List Node := pieces.filterMap Piece.node?

@[simp]
theorem tokensOf_append (first second : List Piece) :
    tokensOf (first ++ second) = tokensOf first ++ tokensOf second :=
  List.flatMap_append

@[simp]
theorem nodesOf_append (first second : List Piece) :
    nodesOf (first ++ second) = nodesOf first ++ nodesOf second :=
  List.filterMap_append

theorem tokensOf_mapNode (change : Node → Node) (pieces : List Piece) :
    tokensOf (pieces.map (Piece.mapNode change)) = tokensOf pieces := by
  induction pieces with
  | nil => rfl
  | cons piece rest inductionHypothesis =>
      have same : (piece.mapNode change).tokens = piece.tokens := by cases piece <;> rfl
      simpa [tokensOf, same] using inductionHypothesis

theorem nodesOf_mapNode (change : Node → Node) (pieces : List Piece) :
    nodesOf (pieces.map (Piece.mapNode change)) = (nodesOf pieces).map change := by
  induction pieces with
  | nil => rfl
  | cons piece rest inductionHypothesis =>
      cases piece with
      | loose token => exact inductionHypothesis
      | node child tokens => exact congrArg (change child :: ·) inductionHypothesis

theorem mem_nodesOf {pieces : List Piece} {child : Node} :
    child ∈ nodesOf pieces ↔ ∃ tokens, Piece.node child tokens ∈ pieces := by
  rw [nodesOf, List.mem_filterMap]
  constructor
  · rintro ⟨piece, member, same⟩
    cases piece with
    | loose token => cases same
    | node original tokens =>
        cases same
        exact ⟨tokens, member⟩
  · rintro ⟨tokens, member⟩
    exact ⟨.node child tokens, member, rfl⟩

theorem sublist_tokensOf {pieces : List Piece} {piece : Piece} (member : piece ∈ pieces) :
    piece.tokens.Sublist (tokensOf pieces) := by
  rw [tokensOf, List.flatMap_def]
  exact List.sublist_flatten_of_mem (List.mem_map_of_mem member)

namespace Form

/-- The nodes are what the form holds, slot after slot in some order. -/
def HoldsFieldsInOrder (form : Form Node) (nodes : List Node) : Prop :=
  ∃ order : List (Slot × Field Node), order.Perm form.fields ∧
    nodes = order.flatMap fun field => field.2.toList

theorem HoldsFieldsInOrder.of_children {form : Form Node} {nodes : List Node}
    (same : nodes = form.children) : form.HoldsFieldsInOrder nodes :=
  ⟨form.fields, .refl _, same⟩

/-- The second slot may be filled before the first. -/
theorem HoldsFieldsInOrder.of_swapped {form : Form Node} {nodes : List Node}
    {first second : Slot × Field Node}
    {rest : List (Slot × Field Node)} (fields : form.fields = first :: second :: rest)
    (same : nodes = (second :: first :: rest).flatMap fun field => field.2.toList) :
    form.HoldsFieldsInOrder nodes :=
  ⟨second :: first :: rest, fields ▸ .swap .., same⟩

theorem HoldsFieldsInOrder.perm {form : Form Node} {nodes : List Node}
    (holds : form.HoldsFieldsInOrder nodes) :
    nodes.Perm form.children := by
  obtain ⟨order, same, rfl⟩ := holds
  exact same.flatMap_right _

/-- The nodes of one slot keep their order. -/
theorem HoldsFieldsInOrder.sublist {form : Form Node} {nodes : List Node}
    (holds : form.HoldsFieldsInOrder nodes)
    (field : Slot × Field Node) (member : field ∈ form.fields) :
    field.2.toList.Sublist nodes := by
  obtain ⟨order, same, rfl⟩ := holds
  obtain ⟨front, back, rfl⟩ := List.append_of_mem (same.mem_iff.mpr member)
  rw [List.flatMap_append, List.flatMap_cons]
  exact (List.sublist_append_left _ _).trans (List.sublist_append_right _ _)

end Form

/-- `LaidOut lines clean node tokens`: the node was read from the tokens. When `clean` holds,
nothing was skipped and no parameter is without a token. -/
inductive LaidOut (lines : LineIndex) (clean : Prop) : Node → List Token → Prop where
  | leaf {node : Node} {token : Token} {kind : LeafKind}
      (form : node.form = .leaf kind token.text) (fits : kind.fits token.kind = true)
      (placed : node.position = some (lines.position token.span)) :
      LaidOut lines clean node [token]
  | branch {node : Node} {tokens : List Token} {pieces : List Piece} {first last : Token}
      (inner : node.form.text? = none) (read : tokens = tokensOf pieces)
      (holds : node.form.HoldsFieldsInOrder (nodesOf pieces))
      (laid : ∀ child tokens, Piece.node child tokens ∈ pieces → LaidOut lines clean child tokens)
      (loose : clean → ∀ token, Piece.loose token ∈ pieces → token.kind.isStructural = true)
      (begins : tokens.head? = some first) (ends : tokens.getLast? = some last)
      (placed : node.position = some (lines.position ⟨first.start, last.stop⟩)) :
      LaidOut lines clean node tokens
  | hollow {node : Node} {offset : Nat} (blamed : ¬ clean)
      (form : node.form = .parameter none none none)
      (unmarked : node.attributes.byRef = some false ∧ node.attributes.variadic = some false)
      (placed : node.position = some (lines.position ⟨offset, offset⟩)) :
      LaidOut lines clean node []

namespace LaidOut

variable {lines : LineIndex} {clean : Prop}

/-- What is laid without errors so far may turn out to have errors around it. -/
theorem weaken {cleaner : Prop} {node : Node} {tokens : List Token}
    (laid : LaidOut lines clean node tokens) (implies : cleaner → clean) :
    LaidOut lines cleaner node tokens := by
  induction laid with
  | leaf form fits placed => exact .leaf form fits placed
  | branch inner read holds _ loose begins ends placed inductionHypothesis =>
      exact .branch inner read holds inductionHypothesis (fun cleaner => loose (implies cleaner))
        begins ends placed
  | hollow blamed form unmarked placed =>
      exact .hollow (fun cleaner => blamed (implies cleaner)) form unmarked placed

theorem modifyAttributes {node : Node} {tokens : List Token}
    (laid : LaidOut lines clean node tokens) {change : Attributes → Attributes}
    (keeps : ∀ attributes, (change attributes).byRef = attributes.byRef ∧
      (change attributes).variadic = attributes.variadic) :
    LaidOut lines clean (node.modifyAttributes change) tokens := by
  cases node with
  | mk info form =>
      cases laid with
      | leaf form fits placed => exact .leaf form fits placed
      | branch inner read holds laid loose begins ends placed =>
          exact .branch inner read holds laid loose begins ends placed
      | hollow blamed form unmarked placed =>
          refine .hollow blamed form ⟨?_, ?_⟩ placed
          · exact (keeps info.attributes).1.trans unmarked.1
          · exact (keeps info.attributes).2.trans unmarked.2

/-- Every node below was read from some of the tokens. -/
theorem exists_of_mem_nodes {node : Node} {tokens : List Token}
    (laid : LaidOut lines clean node tokens) :
    ∀ inner ∈ node.nodes, ∃ part, LaidOut lines clean inner part ∧ part.Sublist tokens := by
  induction laid with
  | @leaf node token kind form fits placed =>
      intro inner member
      have only : node.nodes = [node] := Node.nodes_of_no_children (by rw [form]; rfl)
      rw [only, List.mem_singleton] at member
      subst member
      exact ⟨[token], .leaf form fits placed, .refl _⟩
  | @branch node tokens pieces first last inner read holds laid loose begins ends placed
      inductionHypothesis =>
      intro below member
      rcases Node.mem_nodes.mp member with rfl | ⟨child, childMember, member⟩
      · exact ⟨tokens, .branch inner read holds laid loose begins ends placed, .refl _⟩
      · obtain ⟨childTokens, inside⟩ := mem_nodesOf.mp (holds.perm.mem_iff.mpr childMember)
        obtain ⟨part, partLaid, partOf⟩ := inductionHypothesis child childTokens inside below member
        rw [read]
        exact ⟨part, partLaid, partOf.trans (sublist_tokensOf inside)⟩
  | @hollow node offset blamed form unmarked placed =>
      intro inner member
      have only : node.nodes = [node] := Node.nodes_of_no_children (by rw [form]; rfl)
      rw [only, List.mem_singleton] at member
      subst member
      exact ⟨[], .hollow blamed form unmarked placed, .refl _⟩

end LaidOut
end PhpTree
