import PhpTree.Tree.Attributes
import PhpTree.Tree.Form

/-! # Nodes

A node is a form over nodes, with attributes and, where it is known, a position.
Traversals are folds: an algebra says what to do at a node whose children are
already taken care of.  The children are handed over suspended, so that a traversal
that turns away from a subtree never pays for it. -/
set_option autoImplicit false
namespace PhpTree

/-- What every node carries, whatever its form. -/
structure Info where
  attributes : Attributes := {}
  position : Option Position := none
deriving DecidableEq

inductive Node where
  | mk (info : Info) (form : Form Node)

namespace Node

def info : Node → Info
  | .mk info _ => info

def form : Node → Form Node
  | .mk _ form => form

def attributes (node : Node) : Attributes := node.info.attributes

/-- An unknown position is that of the nearest node around with a known one. -/
def position (node : Node) : Option Position := node.info.position

def kindName (node : Node) : String := node.form.kindName

def label (node : Node) : String := node.form.label

def text? (node : Node) : Option String := node.form.text?

def isStmt (node : Node) : Bool := node.form.isStmt

def isExpr (node : Node) : Bool := node.form.isExpr

def withPosition (node : Node) (position : Position) : Node :=
  .mk { node.info with position := some position } node.form

def modifyAttributes (node : Node) (change : Attributes → Attributes) : Node :=
  .mk { node.info with attributes := change node.info.attributes } node.form

mutual

/-- Folds a tree: the algebra sees each node and the suspended results of its children. -/
def fold {β : Type} (algebra : Node → Form (Unit → β) → β) : Node → β
  | .mk info form => algebra (.mk info form) (foldForm algebra form)

def foldForm {β : Type} (algebra : Node → Form (Unit → β) → β) : Form Node → Form (Unit → β)
  | .leaf kind text => .leaf kind text
  | .argument expr => .argument (foldOption algebra expr)
  | .parameter type binding initial =>
    .parameter (foldOption algebra type) (foldOption algebra binding)
      (foldOption algebra initial)
  | .nullable expr => .nullable (foldOption algebra expr)
  | .name qualification parts => .name qualification (foldList algebra parts)
  | .variableRef varName => .variableRef (foldOption algebra varName)
  | .assign mode target source =>
    .assign mode (foldOption algebra target) (foldOption algebra source)
  | .classConstFetch scope constant =>
    .classConstFetch (foldOption algebra scope) (foldOption algebra constant)
  | .constFetch constant => .constFetch (foldOption algebra constant)
  | .closure params uses returnType stmts =>
    .closure (foldList algebra params) (foldList algebra uses) (foldOption algebra returnType)
      (foldList algebra stmts)
  | .closureUse captured => .closureUse (foldOption algebra captured)
  | .new scope arguments => .new (foldOption algebra scope) (foldList algebra arguments)
  | .functionCall callee arguments =>
    .functionCall (foldOption algebra callee) (foldList algebra arguments)
  | .methodCall object method arguments =>
    .methodCall (foldOption algebra object) (foldOption algebra method)
      (foldList algebra arguments)
  | .staticCall scope method arguments =>
    .staticCall (foldOption algebra scope) (foldOption algebra method)
      (foldList algebra arguments)
  | .propertyFetch object property =>
    .propertyFetch (foldOption algebra object) (foldOption algebra property)
  | .staticPropertyFetch scope property =>
    .staticPropertyFetch (foldOption algebra scope) (foldOption algebra property)
  | .expression expr => .expression (foldOption algebra expr)
  | .stmtList stmts => .stmtList (foldList algebra stmts)
  | .function functionName params returnType stmts =>
    .function (foldOption algebra functionName) (foldList algebra params)
      (foldOption algebra returnType) (foldList algebra stmts)
  | .classDecl className modifiers args parent interfaces stmts =>
    .classDecl (foldOption algebra className) (foldList algebra modifiers)
      (foldList algebra args) (foldOption algebra parent) (foldList algebra interfaces)
      (foldList algebra stmts)
  | .classMethod methodName modifiers params returnType stmts =>
    .classMethod (foldOption algebra methodName) (foldList algebra modifiers)
      (foldList algebra params) (foldOption algebra returnType) (foldList algebra stmts)
  | .throwStmt expr => .throwStmt (foldOption algebra expr)
  | .returnStmt expr => .returnStmt (foldOption algebra expr)
  | .echo exprs => .echo (foldList algebra exprs)

def foldOption {β : Type} (algebra : Node → Form (Unit → β) → β) :
    Option Node → Option (Unit → β)
  | none => none
  | some node => some fun _ => fold algebra node

def foldList {β : Type} (algebra : Node → Form (Unit → β) → β) : List Node → List (Unit → β)
  | [] => []
  | node :: rest => (fun _ => fold algebra node) :: foldList algebra rest

end

theorem foldOption_eq_map {β : Type} (algebra : Node → Form (Unit → β) → β)
    (child : Option Node) :
    foldOption algebra child = child.map fun node _ => fold algebra node := by
  cases child with
  | none => rfl
  | some node => rfl

theorem foldList_eq_map {β : Type} (algebra : Node → Form (Unit → β) → β)
    (children : List Node) :
    foldList algebra children = children.map fun node _ => fold algebra node := by
  induction children with
  | nil => rfl
  | cons node rest inductionHypothesis => simp [foldList, inductionHypothesis]

theorem foldForm_eq_map {β : Type} (algebra : Node → Form (Unit → β) → β) (form : Form Node) :
    foldForm algebra form = form.map fun node _ => fold algebra node := by
  cases form <;> simp [foldForm, Form.map, foldOption_eq_map, foldList_eq_map]

theorem fold_mk {β : Type} (algebra : Node → Form (Unit → β) → β) (info : Info)
    (form : Form Node) :
    fold algebra (.mk info form) =
      algebra (.mk info form) (form.map fun node _ => fold algebra node) := by
  rw [fold, foldForm_eq_map]

/-- Equal nodes have equal infos, equal shapes and pairwise equal children. -/
def equalStep (node : Node) (children : Form (Unit → Node → Bool)) (other : Node) : Bool :=
  node.info == other.info && node.form.shape == other.form.shape &&
    (children.children.zip other.form.children).all fun pair => pair.1 () pair.2

def equal : Node → Node → Bool := fold equalStep

instance : BEq Node := ⟨equal⟩

end Node

/-! ## Building nodes

New nodes have no position.  Forms that can carry flags get all of their flags set,
true or false; other forms have no attributes at first.  Nothing checks that the
children make sense together: that is for the grammar. -/

namespace Node

def bare (form : Form Node) : Node := .mk {} form

def flagged (attributes : Attributes) (form : Form Node) : Node := .mk { attributes } form

def leaf (kind : LeafKind) (text : String) : Node := bare (.leaf kind text)

def argument (expr : Option Node) (variadic : Bool) : Node :=
  flagged { variadic := some variadic } (.argument expr)

def parameter (type binding initial : Option Node) (byRef variadic : Bool) : Node :=
  flagged { byRef := some byRef, variadic := some variadic } (.parameter type binding initial)

def closure (params uses : List Node) (returnType : Option Node) (stmts : List Node)
    (static returnsRef : Bool) : Node :=
  flagged { static := some static, returnsRef := some returnsRef }
    (.closure params uses returnType stmts)

def closureUse (captured : Option Node) (byRef : Bool) : Node :=
  flagged { byRef := some byRef } (.closureUse captured)

def function (functionName : Option Node) (returnsRef : Bool) (params : List Node)
    (returnType : Option Node) (stmts : List Node) : Node :=
  flagged { returnsRef := some returnsRef } (.function functionName params returnType stmts)

def classMethod (methodName : Option Node) (modifiers : List Node) (returnsRef : Bool)
    (params : List Node) (returnType : Option Node) (stmts : List Node) : Node :=
  flagged { returnsRef := some returnsRef }
    (.classMethod methodName modifiers params returnType stmts)

end Node
end PhpTree
