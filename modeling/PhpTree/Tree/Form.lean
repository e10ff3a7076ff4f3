import PhpTree.Token.AssignOp

/-! # Forms

A form is one layer of the tree: which construct a node stands for, with its
children in place.  The type of the children is left open, so that a traversal can
put its own results where the children were. -/
set_option autoImplicit false
namespace PhpTree

/-- Leaves keep the text of one token. -/
inductive LeafKind where
  | identifier
  | namePart
  | integer
  | decimal
  | string
deriving DecidableEq

/-- How a name begins: with its first part, with a backslash, or with `namespace`. -/
inductive Qualification where
  | unqualified
  | fullyQualified
  | relative
deriving DecidableEq

inductive AssignMode where
  | value
  | reference
  | compound (op : AssignOp)
deriving DecidableEq

/-- A construct over children of type `α`. Children may be missing, since broken sources have
trees as well. -/
inductive Form (α : Type) where
  | leaf (kind : LeafKind) (text : String)
  | argument (expr : Option α)
  | parameter (type : Option α) (binding : Option α) (initial : Option α)
  | nullable (expr : Option α)
  | name (qualification : Qualification) (parts : List α)
  | variableRef (varName : Option α)
  | assign (mode : AssignMode) (target : Option α) (source : Option α)
  | classConstFetch (scope : Option α) (constant : Option α)
  | constFetch (constant : Option α)
  | closure (params : List α) (uses : List α) (returnType : Option α) (stmts : List α)
  | closureUse (captured : Option α)
  | new (scope : Option α) (arguments : List α)
  | functionCall (callee : Option α) (arguments : List α)
  | methodCall (object : Option α) (method : Option α) (arguments : List α)
  | staticCall (scope : Option α) (method : Option α) (arguments : List α)
  | propertyFetch (object : Option α) (property : Option α)
  | staticPropertyFetch (scope : Option α) (property : Option α)
  | expression (expr : Option α)
  | stmtList (stmts : List α)
  | function (functionName : Option α) (params : List α) (returnType : Option α)
      (stmts : List α)
  | classDecl (className : Option α) (modifiers : List α) (args : List α) (parent : Option α)
      (interfaces : List α) (stmts : List α)
  | classMethod (methodName : Option α) (modifiers : List α) (params : List α)
      (returnType : Option α) (stmts : List α)
  | throwStmt (expr : Option α)
  | returnStmt (expr : Option α)
  | echo (exprs : List α)
deriving DecidableEq

inductive Slot where
  | expr
  | exprs
  | variableType
  | «variable»
  | defaultValue
  | parts
  | varName
  | expression
  | «class»
  | constantName
  | constant
  | params
  | uses
  | returnType
  | stmts
  | arguments
  | function
  | method
  | call
  | property
  | functionName
  | className
  | modifiers
  | args
  | «extends»
  | implements
  | methodName
deriving DecidableEq

def Slot.name : Slot → String
  | .expr => "expr"
  | .exprs => "exprs"
  | .variableType => "variableType"
  | .variable => "variable"
  | .defaultValue => "defaultValue"
  | .parts => "parts"
  | .varName => "varName"
  | .expression => "expression"
  | .class => "class"
  | .constantName => "constantName"
  | .constant => "constant"
  | .params => "params"
  | .uses => "uses"
  | .returnType => "returnType"
  | .stmts => "stmts"
  | .arguments => "arguments"
  | .function => "function"
  | .method => "method"
  | .call => "call"
  | .property => "property"
  | .functionName => "functionName"
  | .className => "className"
  | .modifiers => "modifiers"
  | .args => "args"
  | .extends => "extends"
  | .implements => "implements"
  | .methodName => "methodName"

/-- What stands in a slot: at most one child, or any number of them. -/
inductive Field (α : Type) where
  | single (child : Option α)
  | list (children : List α)
deriving DecidableEq

namespace Field

def toList {α : Type} : Field α → List α
  | .single child => child.toList
  | .list children => children

/-- A list counts as filled even when it is empty. -/
def isFilled {α : Type} : Field α → Bool
  | .single child => child.isSome
  | .list _ => true

def isList {α : Type} : Field α → Bool
  | .single _ => false
  | .list _ => true

end Field

namespace Form

def map {α β : Type} (f : α → β) : Form α → Form β
  | .leaf kind text => .leaf kind text
  | .argument expr => .argument (expr.map f)
  | .parameter type binding initial =>
    .parameter (type.map f) (binding.map f) (initial.map f)
  | .nullable expr => .nullable (expr.map f)
  | .name qualification parts => .name qualification (parts.map f)
  | .variableRef varName => .variableRef (varName.map f)
  | .assign mode target source => .assign mode (target.map f) (source.map f)
  | .classConstFetch scope constant => .classConstFetch (scope.map f) (constant.map f)
  | .constFetch constant => .constFetch (constant.map f)
  | .closure params uses returnType stmts =>
    .closure (params.map f) (uses.map f) (returnType.map f) (stmts.map f)
  | .closureUse captured => .closureUse (captured.map f)
  | .new scope arguments => .new (scope.map f) (arguments.map f)
  | .functionCall callee arguments => .functionCall (callee.map f) (arguments.map f)
  | .methodCall object method arguments =>
    .methodCall (object.map f) (method.map f) (arguments.map f)
  | .staticCall scope method arguments =>
    .staticCall (scope.map f) (method.map f) (arguments.map f)
  | .propertyFetch object property => .propertyFetch (object.map f) (property.map f)
  | .staticPropertyFetch scope property => .staticPropertyFetch (scope.map f) (property.map f)
  | .expression expr => .expression (expr.map f)
  | .stmtList stmts => .stmtList (stmts.map f)
  | .function functionName params returnType stmts =>
    .function (functionName.map f) (params.map f) (returnType.map f) (stmts.map f)
  | .classDecl className modifiers args parent interfaces stmts =>
    .classDecl (className.map f) (modifiers.map f) (args.map f) (parent.map f)
      (interfaces.map f) (stmts.map f)
  | .classMethod methodName modifiers params returnType stmts =>
    .classMethod (methodName.map f) (modifiers.map f) (params.map f) (returnType.map f)
      (stmts.map f)
  | .throwStmt expr => .throwStmt (expr.map f)
  | .returnStmt expr => .returnStmt (expr.map f)
  | .echo exprs => .echo (exprs.map f)

/-- All slots of the form with what stands in them, in the order they are written down. -/
def fields {α : Type} : Form α → List (Slot × Field α)
  | .leaf _ _ => []
  | .argument expr => [(.expr, .single expr)]
  | .parameter type binding initial =>
    [(.variableType, .single type), (.variable, .single binding), (.defaultValue, .single initial)]
  | .nullable expr => [(.expr, .single expr)]
  | .name _ parts => [(.parts, .list parts)]
  | .variableRef varName => [(.varName, .single varName)]
  | .assign _ target source => [(.variable, .single target), (.expression, .single source)]
  | .classConstFetch scope constant => [(.class, .single scope), (.constantName, .single constant)]
  | .constFetch constant => [(.constant, .single constant)]
  | .closure params uses returnType stmts =>
    [(.params, .list params), (.uses, .list uses), (.returnType, .single returnType),
      (.stmts, .list stmts)]
  | .closureUse captured => [(.variable, .single captured)]
  | .new scope arguments => [(.class, .single scope), (.arguments, .list arguments)]
  | .functionCall callee arguments => [(.function, .single callee), (.arguments, .list arguments)]
  | .methodCall object method arguments =>
    [(.variable, .single object), (.method, .single method), (.arguments, .list arguments)]
  | .staticCall scope method arguments =>
    [(.class, .single scope), (.call, .single method), (.arguments, .list arguments)]
  | .propertyFetch object property => [(.variable, .single object), (.property, .single property)]
  | .staticPropertyFetch scope property => [(.class, .single scope), (.property, .single property)]
  | .expression expr => [(.expr, .single expr)]
  | .stmtList stmts => [(.stmts, .list stmts)]
  | .function functionName params returnType stmts =>
    [(.functionName, .single functionName), (.params, .list params),
      (.returnType, .single returnType), (.stmts, .list stmts)]
  | .classDecl className modifiers args parent interfaces stmts =>
    [(.className, .single className), (.modifiers, .list modifiers), (.args, .list args),
      (.extends, .single parent), (.implements, .list interfaces), (.stmts, .list stmts)]
  | .classMethod methodName modifiers params returnType stmts =>
    [(.methodName, .single methodName), (.modifiers, .list modifiers), (.params, .list params),
      (.returnType, .single returnType), (.stmts, .list stmts)]
  | .throwStmt expr => [(.expr, .single expr)]
  | .returnStmt expr => [(.expr, .single expr)]
  | .echo exprs => [(.exprs, .list exprs)]

/-- All children, in the order they are written down. -/
def children {α : Type} (form : Form α) : List α := form.fields.flatMap fun field => field.2.toList

/-- The slots in the order a walk visits them: the constant of a class is visited before the
class, all else as written down. -/
def walkFields {α : Type} : Form α → List (Slot × Field α)
  | .classConstFetch scope constant => [(.constantName, .single constant), (.class, .single scope)]
  | form => form.fields

/-- The slots a walk reports: lists always, single children when there is one. -/
def reported {α : Type} (form : Form α) : List (Slot × Field α) :=
  form.walkFields.filter fun field => field.2.isFilled

/-- The form with its children forgotten; how many stand in each slot remains. -/
def shape {α : Type} (form : Form α) : Form Unit := form.map fun _ => ()

def kindName {α : Type} : Form α → String
  | .leaf .identifier _ => "Identifier"
  | .leaf .namePart _ => "NamePart"
  | .leaf .integer _ => "Lnumber"
  | .leaf .decimal _ => "Dnumber"
  | .leaf .string _ => "StringLiteral"
  | .argument .. => "Argument"
  | .parameter .. => "Parameter"
  | .nullable .. => "Nullable"
  | .name .unqualified _ => "Name"
  | .name .fullyQualified _ => "FullyQualified"
  | .name .relative _ => "Relative"
  | .variableRef .. => "Variable"
  | .assign .value .. => "Assign"
  | .assign .reference .. => "AssignRef"
  | .assign (.compound _) .. => "AssignOp"
  | .classConstFetch .. => "ClassConstFetch"
  | .constFetch .. => "ConstFetch"
  | .closure .. => "Closure"
  | .closureUse .. => "ClosureUse"
  | .new .. => "New"
  | .functionCall .. => "FunctionCall"
  | .methodCall .. => "MethodCall"
  | .staticCall .. => "StaticCall"
  | .propertyFetch .. => "PropertyFetch"
  | .staticPropertyFetch .. => "StaticPropertyFetch"
  | .expression .. => "Expression"
  | .stmtList .. => "StmtList"
  | .function .. => "Function"
  | .classDecl .. => "Class"
  | .classMethod .. => "ClassMethod"
  | .throwStmt .. => "Throw"
  | .returnStmt .. => "Return"
  | .echo .. => "Echo"

/-- The name shown to a reader: compound assignments name their operator. -/
def label {α : Type} : Form α → String
  | .assign (.compound op) .. => op.label
  | form => form.kindName

def compoundOp? {α : Type} : Form α → Option AssignOp
  | .assign (.compound op) .. => some op
  | _ => none

def text? {α : Type} : Form α → Option String
  | .leaf _ text => some text
  | _ => none

def isStmt {α : Type} : Form α → Bool
  | .expression .. | .stmtList .. | .function .. | .classDecl .. | .classMethod .. |
    .throwStmt .. | .returnStmt .. | .echo .. => true
  | _ => false

def isExpr {α : Type} : Form α → Bool
  | .leaf kind _ => kind == .integer || kind == .decimal || kind == .string
  | .variableRef .. | .assign .. | .classConstFetch .. | .constFetch .. | .closure .. |
    .new .. | .functionCall .. | .methodCall .. | .staticCall .. | .propertyFetch .. |
    .staticPropertyFetch .. => true
  | _ => false

end Form
end PhpTree
