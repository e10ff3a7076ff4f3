import PhpTree.Proofs.Printing.Words

/-! # Printing a tree

The canonical words of a tree.  Operands stand bare where what follows may follow them
and in parentheses otherwise; lists have no comma at their end; `new`
always has its parentheses and a method always its braces.  Along with the words goes
the number of statements and expressions that are open at once inside them, which is
what the depth limit of a parse is compared with. -/
set_option autoImplicit false
namespace PhpTree

def TokenKind.spellings : List (String × TokenKind) :=
  Scan.threeByteSymbols ++ Scan.compoundSymbols ++ Scan.twoByteSymbols ++ Scan.oneByteSymbols ++
    Keyword.spellings.map fun entry => (entry.1, .keyword entry.2)

/-- How a symbol or a keyword is written; empty for tokens whose text varies. -/
def TokenKind.spelling (kind : TokenKind) : String :=
  ((spellings.find? fun entry => entry.2 == kind).map Prod.fst).getD ""

namespace Word

def fixed (kind : TokenKind) : Word := ⟨kind, kind.spelling⟩

/-- A text, with the kind of token it begins with. -/
def ofText (text : String) : Word := ⟨(Scan.script (Utf8.encode text)).kind, text⟩

theorem spellings_scan : ∀ entry ∈ TokenKind.spellings, ScansAsItself ⟨entry.2, entry.1⟩ := by
  decide +kernel

theorem fixed_scans {kind : TokenKind} (spelled : kind.spelling ≠ "") :
    (fixed kind).ScansAsItself := by
  rw [fixed]
  rw [TokenKind.spelling] at spelled ⊢
  cases found : TokenKind.spellings.find? fun entry => entry.2 == kind with
  | none => simp [found] at spelled
  | some entry =>
      have same : entry.2 = kind := by simpa using List.find?_some found
      have scans := spellings_scan entry (List.mem_of_find?_eq_some found)
      rw [same] at scans
      exact scans

end Word

structure Printed where
  words : List Word := []
  levels : Nat := 0

namespace Printed

instance : Append Printed :=
  ⟨fun first second => ⟨first.words ++ second.words, max first.levels second.levels⟩⟩

@[simp]
theorem words_append (first second : Printed) :
    (first ++ second).words = first.words ++ second.words := rfl

@[simp]
theorem levels_append (first second : Printed) :
    (first ++ second).levels = max first.levels second.levels := rfl

theorem append_assoc (first second third : Printed) :
    first ++ second ++ third = first ++ (second ++ third) :=
  congrArg₂ Printed.mk (List.append_assoc ..) (Nat.max_assoc ..)

def token (kind : TokenKind) : Printed := { words := [.fixed kind] }

@[simp]
theorem words_token (kind : TokenKind) : (token kind).words = [.fixed kind] := rfl

@[simp]
theorem levels_token (kind : TokenKind) : (token kind).levels = 0 := rfl

/-- As a statement or an expression of its own. -/
def nested (printed : Printed) : Printed := { printed with levels := printed.levels + 1 }

@[simp]
theorem words_nested (printed : Printed) : printed.nested.words = printed.words := rfl

@[simp]
theorem levels_nested (printed : Printed) : printed.nested.levels = printed.levels + 1 := rfl

def joined (list : List Printed) : Printed := list.foldr (· ++ ·) {}

@[simp]
theorem words_joined (list : List Printed) : (joined list).words = list.flatMap words := by
  induction list with
  | nil => rfl
  | cons first others inductionHypothesis =>
      rw [List.flatMap_cons, ← inductionHypothesis]
      rfl

theorem levels_le_joined {printed : Printed} {list : List Printed} (member : printed ∈ list) :
    printed.levels ≤ (joined list).levels := by
  induction member with
  | head => exact Nat.le_max_left ..
  | tail first _ inductionHypothesis => exact Nat.le_trans inductionHypothesis (Nat.le_max_right ..)

def separated (separator : TokenKind) : List Printed → Printed
  | [] => {}
  | first :: others => first ++ joined (others.map (token separator ++ ·))

theorem levels_le_separated {printed : Printed} {list : List Printed} (separator : TokenKind)
    (member : printed ∈ list) : printed.levels ≤ (separated separator list).levels := by
  cases member with
  | head => exact Nat.le_max_left ..
  | tail first member =>
      have below := levels_le_joined (List.mem_map_of_mem (f := (token separator ++ ·)) member)
      simp only [levels_append, levels_token, Nat.zero_max] at below
      exact Nat.le_trans below (Nat.le_max_right ..)

def parens (printed : Printed) : Printed := token .openParen ++ printed ++ token .closeParen

def braces (printed : Printed) : Printed := token .openBrace ++ printed ++ token .closeBrace

@[simp]
theorem levels_parens (printed : Printed) : printed.parens.levels = printed.levels := by
  simp [parens]

@[simp]
theorem levels_braces (printed : Printed) : printed.braces.levels = printed.levels := by
  simp [braces]

def listed (items : List Printed) : Printed := (separated .comma items).parens

theorem levels_le_listed {printed : Printed} {items : List Printed} (member : printed ∈ items) :
    printed.levels ≤ (listed items).levels := by
  rw [listed, levels_parens]
  exact levels_le_separated .comma member

def block (stmts : List Printed) : Printed := (joined (stmts.map nested)).braces

theorem levels_le_block {printed : Printed} {stmts : List Printed} (member : printed ∈ stmts) :
    printed.nested.levels ≤ (block stmts).levels := by
  rw [block, levels_braces]
  exact levels_le_joined (List.mem_map_of_mem member)

/-- Something that is there only when the flag is set. -/
def given (flag : Option Bool) (printed : Printed) : Printed :=
  if flag = some true then printed else {}

@[simp]
theorem given_true (printed : Printed) : given (some true) printed = printed := rfl

@[simp]
theorem given_false (printed : Printed) : given (some false) printed = {} := rfl

/-- Something that is there only with a list after it. -/
def before (printed : Printed) (items : List Printed) (list : Printed) : Printed :=
  if items.isEmpty then {} else printed ++ list

def required (child : Option Printed) : Printed := child.getD {}

def ifAny (introduction : Printed) : Option Printed → Printed
  | none => {}
  | some child => introduction ++ child

end Printed
/-! ## The printer -/

namespace Node

/-- Whether an access, or a call, may follow the node as it is printed. A property that is called
would be a method. -/
def isOperand (called : Bool) (node : Node) : Bool :=
  match node.form with
  | .constFetch .. | .closure .. | .assign .. => false
  | .propertyFetch .. | .staticPropertyFetch .. | .classConstFetch .. => !called
  | _ => true

def isVariableName (node : Node) : Bool :=
  match node.form with
  | .leaf .identifier text => (Word.ofText text).kind == .variableName
  | _ => false

/-- Whether the node begins with `function &`; as a statement it is read without an expression
around it. -/
def isRefClosure (node : Node) : Bool :=
  match node.form with
  | .closure .. =>
    node.attributes.static != some true && node.attributes.returnsRef == some true
  | _ => false

def isClass (node : Node) : Bool :=
  match node.form with
  | .classDecl .. => true
  | _ => false

end Node

structure PrintedNode where
  node : Node
  printed : Printed

namespace PrintedNode
open Printed

def operand (called : Bool) (child : PrintedNode) : Printed :=
  if child.node.isOperand called then child.printed else child.printed.nested.parens

def nested (child : PrintedNode) : Printed := child.printed.nested

def variableOf (child : PrintedNode) : Printed :=
  if child.node.isVariableName then child.printed else token .dollar ++ child.nested.braces

def expressionOf (child : PrintedNode) : Printed :=
  if child.node.isRefClosure then child.printed else child.nested

def instanceOf (child : PrintedNode) (arguments : Printed) : Printed :=
  if child.node.isClass then child.printed else child.printed ++ arguments

end PrintedNode

namespace Printed

def qualified : Qualification → Printed
  | .unqualified => {}
  | .fullyQualified => token .backslash
  | .relative => token (.keyword .namespace) ++ token .backslash

def assigns : AssignMode → Printed
  | .value => token .equals
  | .reference => token .equals ++ token .ampersand
  | .compound op => token (.compound op)

def classTail (parent : Option Printed) (interfaces stmts : List Printed) : Printed :=
  ifAny (token (.keyword .extends)) parent ++
    before (token (.keyword .implements)) interfaces (separated .comma interfaces) ++
    (joined stmts).braces

def functionTail (params uses : List Printed) (returnType : Option Printed)
    (stmts : List Printed) : Printed :=
  listed params ++ before (token (.keyword .use)) uses (listed uses) ++
    ifAny (token .colon) returnType ++ block stmts

def ofForm (attributes : Attributes) : Form PrintedNode → Printed
  | .leaf _ text => { words := [.ofText text] }
  | .argument expr =>
    given attributes.variadic (token .ellipsis) ++ required (expr.map (·.nested))
  | .parameter type binding initial =>
    required (type.map (·.printed)) ++ given attributes.byRef (token .ampersand) ++
      given attributes.variadic (token .ellipsis) ++ required (binding.map (·.printed)) ++
      ifAny (token .equals) (initial.map (·.nested))
  | .nullable expr => token .question ++ required (expr.map (·.printed))
  | .name qualification parts =>
    qualified qualification ++ separated .backslash (parts.map (·.printed))
  | .variableRef varName => required (varName.map (·.variableOf))
  | .assign mode target source =>
    required (target.map (·.operand false)) ++ assigns mode ++ required (source.map (·.nested))
  | .classConstFetch scope constant =>
    required (scope.map (·.operand false)) ++ token .doubleColon ++
      required (constant.map (·.printed))
  | .constFetch constant => required (constant.map (·.printed))
  | .closure params uses returnType stmts =>
    given attributes.static (token (.keyword .static)) ++ token (.keyword .function) ++
      given attributes.returnsRef (token .ampersand) ++
      functionTail (params.map (·.printed)) (uses.map (·.printed)) (returnType.map (·.printed))
        (stmts.map (·.printed))
  | .closureUse captured =>
    given attributes.byRef (token .ampersand) ++ required (captured.map (·.printed))
  | .new scope arguments =>
    token (.keyword .new) ++
      required (scope.map (·.instanceOf (listed (arguments.map (·.printed)))))
  | .functionCall callee arguments =>
    required (callee.map (·.operand true)) ++ listed (arguments.map (·.printed))
  | .methodCall object method arguments =>
    required (object.map (·.operand false)) ++ token .arrow ++ required (method.map (·.printed)) ++
      listed (arguments.map (·.printed))
  | .staticCall scope method arguments =>
    required (scope.map (·.operand false)) ++ token .doubleColon ++
      required (method.map (·.printed)) ++ listed (arguments.map (·.printed))
  | .propertyFetch object property =>
    required (object.map (·.operand false)) ++ token .arrow ++ required (property.map (·.printed))
  | .staticPropertyFetch scope property =>
    required (scope.map (·.operand false)) ++ token .doubleColon ++
      required (property.map (·.printed))
  | .expression expr => required (expr.map (·.expressionOf)) ++ token .semicolon
  | .stmtList stmts => block (stmts.map (·.printed))
  | .function functionName params returnType stmts =>
    token (.keyword .function) ++ given attributes.returnsRef (token .ampersand) ++
      required (functionName.map (·.printed)) ++
      functionTail (params.map (·.printed)) [] (returnType.map (·.printed))
        (stmts.map (·.printed))
  | .classDecl none _ args parent interfaces stmts =>
    token (.keyword .class) ++ listed (args.map (·.printed)) ++
      classTail (parent.map (·.printed)) (interfaces.map (·.printed)) (stmts.map (·.printed))
  | .classDecl (some className) modifiers _ parent interfaces stmts =>
    joined (modifiers.map (·.printed)) ++ token (.keyword .class) ++ className.printed ++
      classTail (parent.map (·.printed)) (interfaces.map (·.printed)) (stmts.map (·.printed))
  | .classMethod methodName modifiers params returnType stmts =>
    joined (modifiers.map (·.printed)) ++ token (.keyword .function) ++
      given attributes.returnsRef (token .ampersand) ++
      required (methodName.map (·.printed)) ++
      functionTail (params.map (·.printed)) [] (returnType.map (·.printed))
        (stmts.map (·.printed))
  | .throwStmt expr =>
    token (.keyword .throw) ++ required (expr.map (·.nested)) ++ token .semicolon
  | .returnStmt expr =>
    token (.keyword .return) ++ required (expr.map (·.nested)) ++ token .semicolon
  | .echo exprs =>
    token (.keyword .echo) ++ separated .comma (exprs.map (·.nested)) ++ token .semicolon

end Printed

namespace Node

def rendered : Node → PrintedNode :=
  fold fun node children =>
    ⟨node, .ofForm node.attributes (children.map fun child => child ())⟩

def printed (node : Node) : Printed := node.rendered.printed

def program (tree : Node) : Printed :=
  match tree.form with
  | .stmtList stmts => .joined (stmts.map fun stmt => stmt.printed.nested)
  | _ => {}

def source (tree : Node) : List UInt8 := Word.source tree.program.words

theorem printed_mk (info : Info) (form : Form Node) :
    (Node.mk info form).printed =
      .ofForm info.attributes (form.map fun child => ⟨child, child.printed⟩) := by
  have rendered_eq : ∀ node : Node, node.rendered = ⟨node, node.printed⟩ := by
    intro node
    cases node
    rfl
  have mapped : (form.map fun child => child.rendered) =
      form.map fun child => ⟨child, child.printed⟩ := by
    simp only [rendered_eq]
  rw [printed, rendered, fold_mk, ← mapped, Form.map_map]
  rfl

/-- The node before a call, or before an access or an assignment. -/
def operand (called : Bool) (node : Node) : Printed :=
  PrintedNode.operand called ⟨node, node.printed⟩

theorem operand_of_isOperand {called : Bool} {node : Node}
    (isOperand : node.isOperand called = true) : node.operand called = node.printed :=
  if_pos isOperand

theorem operand_of_not_isOperand {called : Bool} {node : Node}
    (isOperand : node.isOperand called = false) :
    node.operand called = node.printed.nested.parens := by
  rw [operand, PrintedNode.operand, if_neg]
  simp [isOperand]

/-! ### What is printed for each form -/

open Printed

theorem printed_leaf (kind : LeafKind) (text : String) :
    (leaf kind text).printed =
      { words := [.ofText text] } :=
  printed_mk ..

theorem printed_argument (expr : Node) (variadic : Bool) :
    (argument (some expr) variadic).printed =
      given (some variadic) (token .ellipsis) ++ expr.printed.nested :=
  printed_mk ..

theorem printed_parameter (type initial : Option Node) (binding : Node) (byRef variadic : Bool) :
    (parameter type (some binding) initial byRef variadic).printed =
      required (type.map printed) ++ given (some byRef) (token .ampersand) ++
        given (some variadic) (token .ellipsis) ++ binding.printed ++
        ifAny (token .equals) (initial.map fun expr => expr.printed.nested) := by
  rw [parameter, flagged, printed_mk]
  simp only [Form.map, ofForm, Option.map_map]
  rfl

theorem printed_nullable (type : Node) :
    (bare (.nullable (some type))).printed =
      token .question ++ type.printed :=
  printed_mk ..

theorem printed_name (qualification : Qualification) (parts : List Node) :
    (bare (.name qualification parts)).printed =
      qualified qualification ++ separated .backslash (parts.map printed) := by
  rw [bare, printed_mk]
  simp only [Form.map, ofForm, List.map_map]
  rfl

theorem printed_assign (mode : AssignMode) (target source : Node) :
    (bare (.assign mode (some target) (some source))).printed =
      target.operand false ++ assigns mode ++ source.printed.nested :=
  printed_mk ..

theorem printed_classConstFetch (scope constant : Node) :
    (bare (.classConstFetch (some scope) (some constant))).printed =
      scope.operand false ++ token .doubleColon ++ constant.printed :=
  printed_mk ..

theorem printed_constFetch (name : Node) :
    (bare (.constFetch (some name))).printed =
      name.printed :=
  printed_mk ..

theorem printed_closure (params uses : List Node) (returnType : Option Node) (stmts : List Node)
    (static returnsRef : Bool) :
    (closure params uses returnType stmts static returnsRef).printed =
      given (some static) (token (.keyword .static)) ++ token (.keyword .function) ++
        given (some returnsRef) (token .ampersand) ++
        functionTail (params.map printed) (uses.map printed) (returnType.map printed)
          (stmts.map printed) := by
  rw [closure, flagged, printed_mk]
  simp only [Form.map, ofForm, List.map_map, Option.map_map]
  rfl

theorem printed_closureUse (captured : Node) (byRef : Bool) :
    (closureUse (some captured) byRef).printed =
      given (some byRef) (token .ampersand) ++ captured.printed :=
  printed_mk ..

theorem printed_functionCall (callee : Node) (args : List Node) :
    (bare (.functionCall (some callee) args)).printed =
      callee.operand true ++ listed (args.map printed) := by
  rw [bare, printed_mk]
  simp only [Form.map, ofForm, List.map_map]
  rfl

theorem printed_methodCall (object method : Node) (args : List Node) :
    (bare (.methodCall (some object) (some method) args)).printed =
      object.operand false ++ token .arrow ++ method.printed ++ listed (args.map printed) := by
  rw [bare, printed_mk]
  simp only [Form.map, ofForm, List.map_map]
  rfl

theorem printed_staticCall (scope method : Node) (args : List Node) :
    (bare (.staticCall (some scope) (some method) args)).printed =
      scope.operand false ++ token .doubleColon ++ method.printed ++ listed (args.map printed) := by
  rw [bare, printed_mk]
  simp only [Form.map, ofForm, List.map_map]
  rfl

theorem printed_propertyFetch (object property : Node) :
    (bare (.propertyFetch (some object) (some property))).printed =
      object.operand false ++ token .arrow ++ property.printed :=
  printed_mk ..

theorem printed_staticPropertyFetch (scope property : Node) :
    (bare (.staticPropertyFetch (some scope) (some property))).printed =
      scope.operand false ++ token .doubleColon ++ property.printed :=
  printed_mk ..

theorem printed_stmtList (stmts : List Node) :
    (bare (.stmtList stmts)).printed =
      block (stmts.map printed) := by
  rw [bare, printed_mk]
  simp only [Form.map, ofForm, List.map_map]
  rfl

theorem printed_function (functionName : Node) (returnsRef : Bool) (params : List Node)
    (returnType : Option Node) (stmts : List Node) :
    (function (some functionName) returnsRef params returnType stmts).printed =
      token (.keyword .function) ++ given (some returnsRef) (token .ampersand) ++
        functionName.printed ++
        functionTail (params.map printed) [] (returnType.map printed) (stmts.map printed) := by
  rw [function, flagged, printed_mk]
  simp only [Form.map, ofForm, List.map_map, Option.map_map]
  rfl

theorem printed_anonymousClass (args : List Node) (parent : Option Node)
    (interfaces stmts : List Node) :
    (bare (.classDecl none [] args parent interfaces stmts)).printed =
      token (.keyword .class) ++ listed (args.map printed) ++
        classTail (parent.map printed) (interfaces.map printed) (stmts.map printed) := by
  rw [bare, printed_mk]
  simp only [Form.map, Option.map_none, ofForm, List.map_map, Option.map_map]
  rfl

theorem printed_class (className : Node) (modifiers : List Node) (parent : Option Node)
    (interfaces stmts : List Node) :
    (bare (.classDecl (some className) modifiers [] parent interfaces stmts)).printed =
      joined (modifiers.map printed) ++ token (.keyword .class) ++ className.printed ++
        classTail (parent.map printed) (interfaces.map printed) (stmts.map printed) := by
  rw [bare, printed_mk]
  simp only [Form.map, Option.map_some, ofForm, List.map_map, Option.map_map]
  rfl

theorem printed_method (methodName : Node) (modifiers : List Node) (returnsRef : Bool)
    (params : List Node) (returnType : Option Node) (stmts : List Node) :
    (classMethod (some methodName) modifiers returnsRef params returnType stmts).printed =
      joined (modifiers.map printed) ++ token (.keyword .function) ++
        given (some returnsRef) (token .ampersand) ++ methodName.printed ++
        functionTail (params.map printed) [] (returnType.map printed) (stmts.map printed) := by
  rw [classMethod, flagged, printed_mk]
  simp only [Form.map, ofForm, List.map_map, Option.map_map]
  rfl

theorem printed_throw (expr : Node) :
    (bare (.throwStmt (some expr))).printed =
      token (.keyword .throw) ++ expr.printed.nested ++ token .semicolon :=
  printed_mk ..

theorem printed_return (expr : Option Node) :
    (bare (.returnStmt expr)).printed =
      token (.keyword .return) ++ required (expr.map fun expr => expr.printed.nested) ++
        token .semicolon := by
  rw [bare, printed_mk]
  simp only [Form.map, ofForm, Option.map_map]
  rfl

theorem printed_echo (exprs : List Node) :
    (bare (.echo exprs)).printed =
      token (.keyword .echo) ++ separated .comma (exprs.map fun expr => expr.printed.nested) ++
        token .semicolon := by
  rw [bare, printed_mk]
  simp only [Form.map, ofForm, List.map_map]
  rfl

theorem printed_variable {varName : Node} (isName : varName.isVariableName = true) :
    (bare (.variableRef (some varName))).printed = varName.printed :=
  (printed_mk ..).trans (if_pos isName)

theorem printed_computed {varName : Node} (isName : varName.isVariableName = false) :
    (bare (.variableRef (some varName))).printed =
      token .dollar ++ varName.printed.nested.braces :=
  (printed_mk ..).trans (if_neg (by simp [isName]))

theorem printed_new {scope : Node} (isClass : scope.isClass = false) (args : List Node) :
    (bare (.new (some scope) args)).printed =
      token (.keyword .new) ++ (scope.printed ++ listed (args.map printed)) := by
  rw [bare, printed_mk]
  simp only [Form.map, ofForm, List.map_map]
  exact congrArg (token (.keyword .new) ++ ·) (if_neg (by simp [isClass]))

theorem printed_new_class {scope : Node} (isClass : scope.isClass = true) (args : List Node) :
    (bare (.new (some scope) args)).printed = token (.keyword .new) ++ scope.printed := by
  rw [bare, printed_mk]
  exact congrArg (token (.keyword .new) ++ ·) (if_pos isClass)

theorem printed_expression {expr : Node} (isRefClosure : expr.isRefClosure = false) :
    (bare (.expression (some expr))).printed = expr.printed.nested ++ token .semicolon :=
  (printed_mk ..).trans
    (congrArg (· ++ token .semicolon) (if_neg (by simp [isRefClosure])))

theorem printed_expression_refClosure {expr : Node} (isRefClosure : expr.isRefClosure = true) :
    (bare (.expression (some expr))).printed = expr.printed ++ token .semicolon :=
  (printed_mk ..).trans (congrArg (· ++ token .semicolon) (if_pos isRefClosure))

end Node
end PhpTree
