import PhpTree.Proofs.Printing.Printer

/-! # Trees that can be printed

Which nodes fit in which place: what the grammar can build there, with nothing
missing, no more attributes than the builder sets, and every leaf spelled as one token
of the kind that the place asks for. -/
set_option autoImplicit false
namespace PhpTree

/-- The text is one token, of an accepted kind. -/
structure Spells (accepts : TokenKind → Bool) (text : String) : Prop where
  scans : (Word.ofText text).ScansAsItself
  accepted : accepts (Word.ofText text).kind = true

namespace Node

/-- A leaf whose text is one token of an accepted kind. -/
inductive IsLeaf (kind : LeafKind) (accepts : TokenKind → Bool) : Node → Prop where
  | mk {text : String} (spells : Spells accepts text) : IsLeaf kind accepts (.leaf kind text)

/-- `$x`, with its name as written. -/
inductive IsVariable : Node → Prop where
  | mk {varName : Node} (isName : IsLeaf .identifier (· == .variableName) varName) :
      IsVariable (.bare (.variableRef (some varName)))

/-- A name of at least one part, of which the first is no keyword. -/
inductive IsName : Node → Prop where
  | mk {qualification : Qualification} {first : Node} {others : List Node}
      (isFirst : IsLeaf .namePart (· == .identifier) first)
      (areParts : ∀ part ∈ others, IsLeaf .namePart TokenKind.isNameLike part) :
      IsName (.bare (.name qualification (first :: others)))

abbrev IsStatic : Node → Prop := IsLeaf .identifier (· == .keyword .static)

/-- An identifier or a keyword in its place. -/
abbrev IsIdentifier : Node → Prop := IsLeaf .identifier TokenKind.isNameLike

inductive IsTypeName : Node → Prop where
  | static {node : Node} (isStatic : IsStatic node) : IsTypeName node
  | name {node : Node} (isName : IsName node) : IsTypeName node

inductive IsType : Node → Prop where
  | plain {node : Node} (isTypeName : IsTypeName node) : IsType node
  | nullable {node : Node} (isTypeName : IsTypeName node) : IsType (.bare (.nullable (some node)))

/-- What may follow an arrow, or `::` in a call. -/
inductive IsMember : Node → Prop where
  | identifier {node : Node} (isIdentifier : IsIdentifier node) : IsMember node
  | «variable» {node : Node} (isVariable : IsVariable node) : IsMember node

inductive IsCapture : Node → Prop where
  | mk {captured : Node} (isVariable : IsVariable captured) (byRef : Bool) :
      IsCapture (.closureUse (some captured) byRef)

/-- What a plain `new` can name. -/
inductive IsInstantiated : Node → Prop where
  | name {node : Node} (isName : IsName node) : IsInstantiated node
  | static {node : Node} (isStatic : IsStatic node) : IsInstantiated node
  | «variable» {node : Node} (isVariable : IsVariable node) : IsInstantiated node

end Node

/-- The places where trees of any size may stand. -/
inductive Role where
  | expr
  /-- What is called, and what `::` looks into: an expression or a name. -/
  | callee
  | argument
  | parameter
  | statement
  | method

open Node in
inductive Fits : Role → Node → Prop where
  | «variable» {node : Node} (isVariable : IsVariable node) : Fits .expr node
  | computed {varName : Node} (name : Fits .expr varName) :
      Fits .expr (.bare (.variableRef (some varName)))
  | integer {node : Node} (isLeaf : IsLeaf .integer (· == .integer) node) : Fits .expr node
  | decimal {node : Node} (isLeaf : IsLeaf .decimal (· == .decimal) node) : Fits .expr node
  | string {node : Node} (isLeaf : IsLeaf .string (· == .string) node) : Fits .expr node
  | static {node : Node} (isStatic : IsStatic node) : Fits .expr node
  | constant {name : Node} (isName : IsName name) : Fits .expr (.bare (.constFetch (some name)))
  | closure {params uses : List Node} {returnType : Option Node} {stmts : List Node}
      (static returnsRef : Bool) (parameters : ∀ param ∈ params, Fits .parameter param)
      (captures : ∀ use ∈ uses, IsCapture use) (type : ∀ node ∈ returnType, IsType node)
      (body : ∀ stmt ∈ stmts, Fits .statement stmt) :
      Fits .expr (.closure params uses returnType stmts static returnsRef)
  | new {scope : Node} {args : List Node} (isInstantiated : IsInstantiated scope)
      (arguments : ∀ arg ∈ args, Fits .argument arg) : Fits .expr (.bare (.new (some scope) args))
  | anonymous {args : List Node} {parent : Option Node} {interfaces stmts : List Node}
      (arguments : ∀ arg ∈ args, Fits .argument arg) (extends_ : ∀ name ∈ parent, IsName name)
      (implements_ : ∀ name ∈ interfaces, IsName name)
      (body : ∀ stmt ∈ stmts, Fits .method stmt) :
      Fits .expr (.bare (.new (some (.bare (.classDecl none [] args parent interfaces stmts))) []))
  | functionCall {callee : Node} {args : List Node} (called : Fits .callee callee)
      (arguments : ∀ arg ∈ args, Fits .argument arg) :
      Fits .expr (.bare (.functionCall (some callee) args))
  | methodCall {object method : Node} {args : List Node} (called : Fits .expr object)
      (isMember : IsMember method) (arguments : ∀ arg ∈ args, Fits .argument arg) :
      Fits .expr (.bare (.methodCall (some object) (some method) args))
  | staticCall {scope method : Node} {args : List Node} (called : Fits .callee scope)
      (isMember : IsMember method) (arguments : ∀ arg ∈ args, Fits .argument arg) :
      Fits .expr (.bare (.staticCall (some scope) (some method) args))
  | property {object property : Node} (accessed : Fits .expr object)
      (isMember : IsMember property) :
      Fits .expr (.bare (.propertyFetch (some object) (some property)))
  | staticProperty {scope property : Node} (accessed : Fits .callee scope)
      (isVariable : IsVariable property) :
      Fits .expr (.bare (.staticPropertyFetch (some scope) (some property)))
  | classConstant {scope constant : Node} (accessed : Fits .callee scope)
      (isIdentifier : IsIdentifier constant) :
      Fits .expr (.bare (.classConstFetch (some scope) (some constant)))
  | assign {target source : Node} (mode : AssignMode) (assigned : Fits .expr target)
      (value : Fits .expr source) : Fits .expr (.bare (.assign mode (some target) (some source)))
  | calledExpr {node : Node} (expr : Fits .expr node) : Fits .callee node
  | calledName {node : Node} (isName : IsName node) : Fits .callee node
  | argument {expr : Node} (variadic : Bool) (value : Fits .expr expr) :
      Fits .argument (.argument (some expr) variadic)
  | parameter {type initial : Option Node} {binding : Node} (byRef variadic : Bool)
      (typed : ∀ node ∈ type, IsType node) (isVariable : IsVariable binding)
      (default : ∀ node ∈ initial, Fits .expr node) :
      Fits .parameter (.parameter type (some binding) initial byRef variadic)
  | expression {expr : Node} (evaluated : Fits .expr expr) :
      Fits .statement (.bare (.expression (some expr)))
  | block {stmts : List Node} (body : ∀ stmt ∈ stmts, Fits .statement stmt) :
      Fits .statement (.bare (.stmtList stmts))
  | function {functionName : Node} {params : List Node} {returnType : Option Node}
      {stmts : List Node} (returnsRef : Bool) (isIdentifier : IsIdentifier functionName)
      (parameters : ∀ param ∈ params, Fits .parameter param)
      (type : ∀ node ∈ returnType, IsType node) (body : ∀ stmt ∈ stmts, Fits .statement stmt) :
      Fits .statement (.function (some functionName) returnsRef params returnType stmts)
  | «class» {className : Node} {modifiers : List Node} {parent : Option Node}
      {interfaces stmts : List Node} (isIdentifier : IsIdentifier className)
      (areModifiers : ∀ modifier ∈ modifiers, IsLeaf .identifier Parse.isClassModifier modifier)
      (extends_ : ∀ name ∈ parent, IsName name) (implements_ : ∀ name ∈ interfaces, IsName name)
      (body : ∀ stmt ∈ stmts, Fits .method stmt) :
      Fits .statement
        (.bare (.classDecl (some className) modifiers [] parent interfaces stmts))
  | throw {expr : Node} (thrown : Fits .expr expr) :
    Fits .statement (.bare (.throwStmt (some expr)))
  | «return» {expr : Option Node} (returned : ∀ node ∈ expr, Fits .expr node) :
      Fits .statement (.bare (.returnStmt expr))
  | echo {first : Node} {others : List Node} (printed : ∀ node ∈ first :: others, Fits .expr node) :
      Fits .statement (.bare (.echo (first :: others)))
  | method {methodName : Node} {modifiers params : List Node} {returnType : Option Node}
      {stmts : List Node} (returnsRef : Bool) (isIdentifier : IsIdentifier methodName)
      (areModifiers : ∀ modifier ∈ modifiers, IsLeaf .identifier TokenKind.isModifier modifier)
      (parameters : ∀ param ∈ params, Fits .parameter param)
      (type : ∀ node ∈ returnType, IsType node) (body : ∀ stmt ∈ stmts, Fits .statement stmt) :
      Fits .method (.classMethod (some methodName) modifiers returnsRef params returnType stmts)

/-- A list of statements that all fit. -/
inductive Node.IsPrintable : Node → Prop where
  | mk {stmts : List Node} (body : ∀ stmt ∈ stmts, Fits .statement stmt) :
      IsPrintable (.bare (.stmtList stmts))

/-! ## Every printed word is one token -/

def TokenKind.isUsed : TokenKind → Bool
  | .ellipsis | .ampersand | .equals | .question | .backslash | .dollar | .openBrace |
    .closeBrace | .doubleColon | .arrow | .colon | .comma | .openParen | .closeParen |
    .semicolon | .compound _ => true
  | .keyword .namespace | .keyword .static | .keyword .function | .keyword .use |
    .keyword .new | .keyword .class | .keyword .extends | .keyword .implements |
    .keyword .throw | .keyword .return | .keyword .echo => true
  | _ => false

theorem TokenKind.spelling_ne_of_isUsed {kind : TokenKind} (used : kind.isUsed = true) :
    kind.spelling ≠ "" := by
  cases kind with
  | keyword word => cases word <;> decide +kernel
  | compound op => cases op <;> decide +kernel
  | _ => first | decide +kernel | cases used

namespace Printed

def ScansWhole (printed : Printed) : Prop := ∀ word ∈ printed.words, word.ScansAsItself

@[simp]
theorem scansWhole_empty : ScansWhole {} := by simp [ScansWhole]

@[simp]
theorem scansWhole_word (word : Word) :
    ScansWhole { words := [word] } ↔ word.ScansAsItself := by simp [ScansWhole]

@[simp]
theorem scansWhole_token {kind : TokenKind} (used : kind.isUsed = true) : (token kind).ScansWhole :=
  (scansWhole_word _).mpr (Word.fixed_scans (TokenKind.spelling_ne_of_isUsed used))

@[simp]
theorem scansWhole_append (first second : Printed) :
    (first ++ second).ScansWhole ↔ first.ScansWhole ∧ second.ScansWhole := by
  simp [ScansWhole, or_imp, forall_and]

@[simp]
theorem scansWhole_nested (printed : Printed) : printed.nested.ScansWhole ↔ printed.ScansWhole :=
  Iff.rfl

@[simp]
theorem scansWhole_parens (printed : Printed) : printed.parens.ScansWhole ↔ printed.ScansWhole := by
  simp (disch := decide) [parens]

@[simp]
theorem scansWhole_braces (printed : Printed) : printed.braces.ScansWhole ↔ printed.ScansWhole := by
  simp (disch := decide) [braces]

@[simp]
theorem scansWhole_joined (list : List Printed) :
    (joined list).ScansWhole ↔ ∀ printed ∈ list, printed.ScansWhole := by
  simp only [ScansWhole, words_joined, List.mem_flatMap]
  exact ⟨fun sound printed inside word member => sound word ⟨printed, inside, member⟩,
    fun sound word ⟨printed, inside, member⟩ => sound printed inside word member⟩

@[simp]
theorem scansWhole_separated {separator : TokenKind} (used : separator.isUsed = true)
    (list : List Printed) :
    (separated separator list).ScansWhole ↔ ∀ printed ∈ list, printed.ScansWhole := by
  cases list with
  | nil => simp [separated]
  | cons first others => simp [separated, scansWhole_token used]

@[simp]
theorem scansWhole_given (flag : Option Bool) {kind : TokenKind} (used : kind.isUsed = true) :
    (given flag (token kind)).ScansWhole := by
  by_cases isSet : flag = some true
  · rw [given, if_pos isSet]
    exact scansWhole_token used
  · rw [given, if_neg isSet]
    exact scansWhole_empty

@[simp]
theorem scansWhole_required (child : Option Printed) :
    (required child).ScansWhole ↔ ∀ printed ∈ child, printed.ScansWhole := by
  cases child <;> simp [required]

@[simp]
theorem scansWhole_ifAny {kind : TokenKind} (used : kind.isUsed = true) (child : Option Printed) :
    (ifAny (token kind) child).ScansWhole ↔ ∀ printed ∈ child, printed.ScansWhole := by
  cases child <;> simp [ifAny, scansWhole_token used]

@[simp]
theorem scansWhole_before {kind : TokenKind} (used : kind.isUsed = true) (items : List Printed)
    (list : Printed) :
    (before (token kind) items list).ScansWhole ↔ (items ≠ [] → list.ScansWhole) := by
  cases items <;> simp [before, scansWhole_token used]

theorem scansWhole_listed (items : List Printed) :
    (listed items).ScansWhole ↔ ∀ printed ∈ items, printed.ScansWhole := by
  simp (disch := decide) [listed]

theorem scansWhole_functionTail {params uses stmts : List Printed} {returnType : Option Printed}
    (parameters : ∀ param ∈ params, param.ScansWhole) (captures : ∀ use ∈ uses, use.ScansWhole)
    (type : ∀ printed ∈ returnType, printed.ScansWhole) (body : ∀ stmt ∈ stmts, stmt.ScansWhole) :
    (functionTail params uses returnType stmts).ScansWhole := by
  simp (disch := decide) only [functionTail, block, scansWhole_append, scansWhole_listed,
    scansWhole_before,
    scansWhole_ifAny, scansWhole_braces, scansWhole_joined, List.forall_mem_map, scansWhole_nested]
  exact ⟨⟨⟨parameters, fun _ => captures⟩, type⟩, body⟩

theorem scansWhole_classTail {parent : Option Printed} {interfaces stmts : List Printed}
    (extends_ : ∀ name ∈ parent, name.ScansWhole)
    (implements_ : ∀ name ∈ interfaces, name.ScansWhole)
    (body : ∀ stmt ∈ stmts, stmt.ScansWhole) : (classTail parent interfaces stmts).ScansWhole := by
  simp (disch := decide) only [classTail, scansWhole_append, scansWhole_ifAny, scansWhole_before,
    scansWhole_separated, scansWhole_braces, scansWhole_joined]
  exact ⟨⟨extends_, fun _ => implements_⟩, body⟩

theorem scansWhole_assigns (mode : AssignMode) : (assigns mode).ScansWhole := by
  cases mode with
  | value => exact scansWhole_token rfl
  | reference => exact (scansWhole_append ..).mpr ⟨scansWhole_token rfl, scansWhole_token rfl⟩
  | compound op => exact scansWhole_token rfl

end Printed

namespace Node
open Printed

theorem scansWhole_operand {node : Node} (sound : node.printed.ScansWhole) (called : Bool) :
    (node.operand called).ScansWhole := by
  by_cases isOperand : node.isOperand called = true
  · rwa [operand_of_isOperand isOperand]
  · rw [operand_of_not_isOperand (by simpa using isOperand)]
    simpa using sound

theorem IsLeaf.scansWhole {kind : LeafKind} {accepts : TokenKind → Bool} {node : Node}
    (isLeaf : IsLeaf kind accepts node) : node.printed.ScansWhole := by
  cases isLeaf with
  | mk spells => simpa [printed_leaf] using spells.scans

theorem IsLeaf.isVariableName {node : Node}
    (isLeaf : IsLeaf .identifier (· == .variableName) node) : node.isVariableName = true := by
  cases isLeaf with
  | mk spells => exact spells.accepted

theorem IsVariable.scansWhole {node : Node} (isVariable : IsVariable node) :
    node.printed.ScansWhole := by
  cases isVariable with
  | mk isName =>
      rw [printed_variable isName.isVariableName]
      exact isName.scansWhole

theorem IsName.scansWhole {node : Node} (isName : IsName node) : node.printed.ScansWhole := by
  cases isName with
  | @mk qualification first others isFirst areParts =>
      have sound : (qualified qualification).ScansWhole := by
        cases qualification <;> simp (disch := decide) [qualified]
      have parts : ∀ part ∈ others, part.printed.ScansWhole := fun part member =>
        (areParts part member).scansWhole
      simpa (disch := decide) [printed_name, sound, isFirst.scansWhole] using parts

theorem IsTypeName.scansWhole {node : Node} (isTypeName : IsTypeName node) :
    node.printed.ScansWhole := by
  cases isTypeName with
  | static isStatic => exact isStatic.scansWhole
  | name isName => exact isName.scansWhole

theorem IsType.scansWhole {node : Node} (isType : IsType node) : node.printed.ScansWhole := by
  cases isType with
  | plain isTypeName => exact isTypeName.scansWhole
  | nullable isTypeName => simp (disch := decide) [printed_nullable, isTypeName.scansWhole]

theorem IsMember.scansWhole {node : Node} (isMember : IsMember node) : node.printed.ScansWhole := by
  cases isMember with
  | identifier isIdentifier => exact isIdentifier.scansWhole
  | «variable» isVariable => exact isVariable.scansWhole

theorem IsCapture.scansWhole {node : Node} (isCapture : IsCapture node) :
    node.printed.ScansWhole := by
  cases isCapture with
  | mk isVariable byRef => simp (disch := decide) [printed_closureUse, isVariable.scansWhole]

theorem IsInstantiated.scansWhole {node : Node} (isInstantiated : IsInstantiated node) :
    node.printed.ScansWhole := by
  cases isInstantiated with
  | name isName => exact isName.scansWhole
  | static isStatic => exact isStatic.scansWhole
  | «variable» isVariable => exact isVariable.scansWhole

theorem IsInstantiated.isClass {node : Node} (isInstantiated : IsInstantiated node) :
    node.isClass = false := by
  rcases isInstantiated with ⟨⟨_, _⟩⟩ | ⟨⟨_⟩⟩ | ⟨⟨_⟩⟩ <;> rfl

end Node

/-- An expression is no name of a variable: `$x` by itself is one with a node around it. -/
theorem Fits.isVariableName {node : Node} (fits : Fits .expr node) :
    node.isVariableName = false := by
  cases fits with
  | «variable» isVariable =>
      cases isVariable
      rfl
  | static isStatic =>
      cases isStatic with
      | @mk text spells =>
          have kind : (Word.ofText text).kind = .keyword .static := by simpa using spells.accepted
          simp [Node.isVariableName, Node.leaf, Node.bare, Node.form, kind]
  | integer isLeaf =>
      cases isLeaf
      rfl
  | decimal isLeaf =>
      cases isLeaf
      rfl
  | string isLeaf =>
      cases isLeaf
      rfl
  | _ => rfl

open Printed Node in
/-- Every word of a tree that fits scans to one token. -/
theorem Fits.scansWhole {role : Role} {node : Node} (fits : Fits role node) :
    node.printed.ScansWhole := by
  have mapped : ∀ {nodes : List Node}, (∀ node ∈ nodes, node.printed.ScansWhole) →
      ∀ printed ∈ nodes.map Node.printed, printed.ScansWhole := by
    intro nodes sound printed member
    obtain ⟨node, inside, rfl⟩ := List.mem_map.mp member
    exact sound node inside
  have typed : ∀ {type : Option Node}, (∀ node ∈ type, IsType node) →
      ∀ printed ∈ type.map Node.printed, printed.ScansWhole := by
    intro type isType printed member
    obtain ⟨node, inside, rfl⟩ := Option.map_eq_some_iff.mp member
    exact (isType node inside).scansWhole
  have named : ∀ {name : Option Node}, (∀ node ∈ name, IsName node) →
      ∀ printed ∈ name.map Node.printed, printed.ScansWhole := by
    intro name isName printed member
    obtain ⟨node, inside, rfl⟩ := Option.map_eq_some_iff.mp member
    exact (isName node inside).scansWhole
  induction fits with
  | «variable» isVariable => exact isVariable.scansWhole
  | computed name sound =>
      simp (disch := decide) [printed_computed name.isVariableName, sound]
  | integer isLeaf => exact isLeaf.scansWhole
  | decimal isLeaf => exact isLeaf.scansWhole
  | string isLeaf => exact isLeaf.scansWhole
  | static isStatic => exact isStatic.scansWhole
  | constant isName =>
      rw [printed_constFetch]
      exact isName.scansWhole
  | closure static returnsRef parameters captures type body soundParameters soundBody =>
      have soundCaptures := mapped fun use member => (captures use member).scansWhole
      have tail := scansWhole_functionTail (mapped soundParameters) soundCaptures (typed type)
        (mapped soundBody)
      simp (disch := decide) [printed_closure, tail]
  | new isInstantiated arguments soundArguments =>
      have list := (scansWhole_listed _).mpr (mapped soundArguments)
      simp (disch := decide) [printed_new isInstantiated.isClass, isInstantiated.scansWhole, list]
  | anonymous arguments extends_ implements_ body soundArguments soundBody =>
      have list := (scansWhole_listed _).mpr (mapped soundArguments)
      have tail := scansWhole_classTail (named extends_)
        (mapped fun name member => (implements_ name member).scansWhole) (mapped soundBody)
      simp (disch := decide) [@printed_new_class (bare (.classDecl ..)) rfl, printed_anonymousClass,
        list, tail]
  | functionCall called arguments soundCallee soundArguments =>
      have list := (scansWhole_listed _).mpr (mapped soundArguments)
      simp [printed_functionCall, scansWhole_operand soundCallee, list]
  | methodCall called isMember arguments soundObject soundArguments =>
      have list := (scansWhole_listed _).mpr (mapped soundArguments)
      simp (disch := decide) [printed_methodCall, scansWhole_operand soundObject,
        isMember.scansWhole, list]
  | staticCall called isMember arguments soundScope soundArguments =>
      have list := (scansWhole_listed _).mpr (mapped soundArguments)
      simp (disch := decide) [printed_staticCall, scansWhole_operand soundScope,
        isMember.scansWhole, list]
  | property accessed isMember soundObject =>
      simp (disch := decide) [printed_propertyFetch, scansWhole_operand soundObject,
        isMember.scansWhole]
  | staticProperty accessed isVariable soundScope =>
      simp (disch := decide) [printed_staticPropertyFetch, scansWhole_operand soundScope,
        isVariable.scansWhole]
  | classConstant accessed isIdentifier soundScope =>
      simp (disch := decide) [printed_classConstFetch, scansWhole_operand soundScope,
        isIdentifier.scansWhole]
  | assign mode assigned value soundTarget soundSource =>
      simp [printed_assign, scansWhole_operand soundTarget, scansWhole_assigns mode, soundSource]
  | calledExpr expr sound => exact sound
  | calledName isName => exact isName.scansWhole
  | argument variadic value sound => simp (disch := decide) [printed_argument, sound]
  | parameter byRef variadic isType isVariable default soundDefault =>
      have soundType := (scansWhole_required _).mpr (typed isType)
      simpa (disch := decide) [printed_parameter, soundType, isVariable.scansWhole] using
        soundDefault
  | @expression expr evaluated sound =>
      by_cases isRefClosure : expr.isRefClosure = true
      · simp (disch := decide) [printed_expression_refClosure isRefClosure, sound]
      · simp (disch := decide) [printed_expression (Bool.eq_false_iff.mpr isRefClosure), sound]
  | block body soundBody => simpa [printed_stmtList, Printed.block] using soundBody
  | function returnsRef isIdentifier parameters type body soundParameters soundBody =>
      have tail := @scansWhole_functionTail _ [] _ _ (mapped soundParameters) (by simp) (typed type)
        (mapped soundBody)
      simp (disch := decide) [printed_function, isIdentifier.scansWhole, tail]
  | «class» isIdentifier areModifiers extends_ implements_ body soundBody =>
      have modifiers := mapped fun modifier member => (areModifiers modifier member).scansWhole
      have tail := scansWhole_classTail (named extends_)
        (mapped fun name member => (implements_ name member).scansWhole) (mapped soundBody)
      simp (disch := decide) [printed_class, isIdentifier.scansWhole, tail,
        (scansWhole_joined _).mpr modifiers]
  | throw thrown sound => simp (disch := decide) [printed_throw, sound]
  | «return» returned sound => simpa (disch := decide) [printed_return] using sound
  | echo printed sound => simpa (disch := decide) [printed_echo] using sound
  | method returnsRef isIdentifier areModifiers parameters type body soundParameters soundBody =>
      have modifiers := mapped fun modifier member => (areModifiers modifier member).scansWhole
      have tail := @scansWhole_functionTail _ [] _ _ (mapped soundParameters) (by simp) (typed type)
        (mapped soundBody)
      simp (disch := decide) [printed_method, isIdentifier.scansWhole, tail,
        (scansWhole_joined _).mpr modifiers]

/-! ## How printed trees begin -/

namespace Printed

def BeginsWith (accepts : TokenKind → Bool) (printed : Printed) : Prop :=
  ∃ word others, printed.words = word :: others ∧ accepts word.kind = true

theorem BeginsWith.mono {accepts wider : TokenKind → Bool} {printed : Printed}
    (begins : printed.BeginsWith accepts)
    (widen : ∀ kind, accepts kind = true → wider kind = true) :
    printed.BeginsWith wider := by
  obtain ⟨word, others, words, accepted⟩ := begins
  exact ⟨word, others, words, widen word.kind accepted⟩

theorem BeginsWith.append {accepts : TokenKind → Bool} {first : Printed}
    (begins : first.BeginsWith accepts) (second : Printed) :
    (first ++ second).BeginsWith accepts := by
  obtain ⟨word, others, words, accepted⟩ := begins
  exact ⟨word, others ++ second.words, by simp [words], accepted⟩

theorem begins_token {accepts : TokenKind → Bool} {kind : TokenKind}
    (accepted : accepts kind = true) : (token kind).BeginsWith accepts :=
  ⟨.fixed kind, [], rfl, accepted⟩

theorem begins_given {accepts : TokenKind → Bool} {kind : TokenKind} (flag : Bool)
    {second : Printed} (accepted : accepts kind = true) (begins : second.BeginsWith accepts) :
    (given (some flag) (token kind) ++ second).BeginsWith accepts := by
  cases flag with
  | true => exact (begins_token accepted).append second
  | false => exact begins

theorem begins_required {accepts : TokenKind → Bool} {child : Option Printed} {second : Printed}
    (each : ∀ printed ∈ child, printed.BeginsWith accepts) (begins : second.BeginsWith accepts) :
    (required child ++ second).BeginsWith accepts := by
  cases child with
  | none => exact begins
  | some child => exact (each child rfl).append second

theorem begins_joined {accepts : TokenKind → Bool} {list : List Printed} {second : Printed}
    (each : ∀ printed ∈ list, printed.BeginsWith accepts) (begins : second.BeginsWith accepts) :
    (joined list ++ second).BeginsWith accepts := by
  cases list with
  | nil => exact begins
  | cons first others =>
      exact ((each first (List.mem_cons_self ..)).append (joined others)).append second

end Printed

namespace Node
open Printed

theorem IsLeaf.begins {kind : LeafKind} {accepts : TokenKind → Bool} {node : Node}
    (isLeaf : IsLeaf kind accepts node) : node.printed.BeginsWith accepts := by
  cases isLeaf with
  | @mk text spells => exact ⟨.ofText text, [], rfl, spells.accepted⟩

theorem IsVariable.begins {node : Node} (isVariable : IsVariable node) :
    node.printed.BeginsWith (· == .variableName) := by
  cases isVariable with
  | mk isName =>
      rw [printed_variable isName.isVariableName]
      exact isName.begins

theorem IsName.begins {node : Node} (isName : IsName node) :
    node.printed.BeginsWith Parse.startsName := by
  cases isName with
  | @mk qualification first others isFirst areParts =>
      rw [printed_name]
      cases qualification with
      | unqualified =>
          have begins : first.printed.BeginsWith Parse.startsName := by
            apply isFirst.begins.mono
            intro kind isIdentifier
            rw [beq_iff_eq.mp isIdentifier]
            rfl
          exact begins.append _
      | fullyQualified => exact (begins_token rfl).append _
      | relative => exact ((begins_token rfl).append _).append _

theorem IsTypeName.begins {node : Node} (isTypeName : IsTypeName node) :
    node.printed.BeginsWith fun kind => Parse.startsName kind || kind == .keyword .static := by
  cases isTypeName with
  | static isStatic => exact isStatic.begins.mono fun kind isStatic => by simp [isStatic]
  | name isName => exact isName.begins.mono fun kind starts => by simp [starts]

theorem IsType.begins {node : Node} (isType : IsType node) :
    node.printed.BeginsWith Parse.startsType := by
  cases isType with
  | plain isTypeName =>
      apply isTypeName.begins.mono
      intro kind starts
      rcases Bool.or_eq_true_iff.mp starts with starts | isStatic
      · simp [Parse.startsType, starts]
      · simp [Parse.startsType, isStatic]
  | nullable isTypeName =>
      rw [printed_nullable]
      exact (begins_token rfl).append _

end Node

theorem Node.IsCapture.begins {node : Node} (isCapture : node.IsCapture) :
    node.printed.BeginsWith fun kind => kind == .ampersand || kind == .variableName := by
  cases isCapture with
  | @mk captured isVariable byRef =>
      have begins : captured.printed.BeginsWith fun kind =>
        kind == .ampersand || kind == .variableName :=
        isVariable.begins.mono fun kind isName => by simp [isName]
      rw [Node.printed_closureUse]
      exact Printed.begins_given byRef rfl begins

def startsOperand : TokenKind → Bool
  | .variableName | .dollar | .integer | .decimal | .string | .identifier | .backslash |
    .keyword .namespace | .keyword .static | .keyword .new | .openParen => true
  | _ => false

def startsExpr (kind : TokenKind) : Bool := startsOperand kind || kind == .keyword .function

def startsParameter (kind : TokenKind) : Bool :=
  Parse.startsType kind || kind == .ampersand || kind == .ellipsis || kind == .variableName

def startsStatement (kind : TokenKind) : Bool :=
  startsExpr kind || Parse.isClassModifier kind ||
    kind ∈ [.openBrace, .keyword .echo, .keyword .throw, .keyword .return, .keyword .class]

theorem startsOperand_of_startsName {kind : TokenKind} (starts : Parse.startsName kind = true) :
    startsOperand kind = true := by
  unfold Parse.startsName at starts
  split at starts <;> first | rfl | cases starts

theorem startsExpr_of_startsOperand {kind : TokenKind} (starts : startsOperand kind = true) :
    startsExpr kind = true := by
  simp [startsExpr, starts]

theorem startsOperand_of_beq {expected kind : TokenKind} (starts : startsOperand expected = true)
    (same : (kind == expected) = true) : startsOperand kind = true := by
  rw [beq_iff_eq.mp same]
  exact starts

namespace Node
open Printed

theorem begins_operand {node : Node} (begins : node.printed.BeginsWith startsOperand)
    (called : Bool) :
    (node.operand called).BeginsWith startsOperand := by
  by_cases isOperand : node.isOperand called = true
  · rw [operand_of_isOperand isOperand]
    exact begins
  · rw [operand_of_not_isOperand (by simpa using isOperand)]
    exact ((begins_token rfl).append _).append _

theorem begins_parens {called : Bool} {node : Node} (isOperand : node.isOperand called = false) :
    (node.operand called).BeginsWith startsOperand := by
  rw [operand_of_not_isOperand isOperand]
  exact ((begins_token rfl).append _).append _

end Node

open Printed Node in
/-- The operand on the left of all calls and accesses comes first. -/
theorem Fits.operand_begins {role : Role} {node : Node} (fits : Fits role node) :
    role = .expr ∨ role = .callee → ∀ called, (node.operand called).BeginsWith startsOperand := by
  intro isExpr
  induction fits with
  | «variable» isVariable =>
      exact begins_operand (isVariable.begins.mono fun _ => startsOperand_of_beq rfl)
  | computed name _ =>
      apply begins_operand
      rw [printed_computed name.isVariableName]
      exact (begins_token rfl).append _
  | integer isLeaf | decimal isLeaf | string isLeaf | static isLeaf =>
      exact begins_operand (isLeaf.begins.mono fun _ => startsOperand_of_beq rfl)
  | constant isName => exact fun called => begins_parens rfl
  | closure static returnsRef => exact fun called => begins_parens rfl
  | new isInstantiated arguments _ =>
      apply begins_operand
      rw [printed_new isInstantiated.isClass]
      exact (begins_token rfl).append _
  | anonymous =>
      apply begins_operand
      rw [printed_new_class rfl]
      exact (begins_token rfl).append _
  | functionCall called arguments calledBegins _ =>
      apply begins_operand
      rw [printed_functionCall]
      exact (calledBegins (Or.inr rfl) true).append _
  | methodCall called isMember arguments calledBegins _ =>
      apply begins_operand
      rw [printed_methodCall]
      exact (((calledBegins (Or.inl rfl) false).append _).append _).append _
  | staticCall called isMember arguments calledBegins _ =>
      apply begins_operand
      rw [printed_staticCall]
      exact (((calledBegins (Or.inr rfl) false).append _).append _).append _
  | property accessed isMember accessedBegins =>
      apply begins_operand
      rw [printed_propertyFetch]
      exact ((accessedBegins (Or.inl rfl) false).append _).append _
  | staticProperty accessed isVariable accessedBegins =>
      apply begins_operand
      rw [printed_staticPropertyFetch]
      exact ((accessedBegins (Or.inr rfl) false).append _).append _
  | classConstant accessed isIdentifier accessedBegins =>
      apply begins_operand
      rw [printed_classConstFetch]
      exact ((accessedBegins (Or.inr rfl) false).append _).append _
  | assign mode assigned value _ _ => exact fun called => begins_parens rfl
  | calledExpr expr begins => exact begins (Or.inl rfl)
  | calledName isName =>
      exact begins_operand (isName.begins.mono fun _ => startsOperand_of_startsName)
  | _ => rcases isExpr with isExpr | isExpr <;> cases isExpr

open Printed Node in
/-- An expression begins like an operand, unless it is a closure that begins with `function`. -/
theorem Fits.begins_or_closure {node : Node} (fits : Fits .expr node) :
    node.printed.BeginsWith startsOperand ∨
      ∃ params uses returnType stmts returnsRef,
        node = .closure params uses returnType stmts false returnsRef := by
  have operand := fits.operand_begins (Or.inl rfl) false
  by_cases isOperand : node.isOperand false = true
  · rw [operand_of_isOperand isOperand] at operand
    exact Or.inl operand
  · cases fits with
    | constant isName =>
        rw [printed_constFetch]
        exact Or.inl (isName.begins.mono fun _ => startsOperand_of_startsName)
    | closure static returnsRef =>
        cases static with
        | true =>
            rw [printed_closure]
            exact Or.inl ((((begins_token rfl).append _).append _).append _)
        | false => exact Or.inr ⟨_, _, _, _, _, rfl⟩
    | assign mode assigned value =>
        rw [printed_assign]
        exact Or.inl (((assigned.operand_begins (Or.inl rfl) false).append _).append _)
    | «variable» isVariable =>
        cases isVariable
        exact absurd rfl isOperand
    | integer isLeaf | decimal isLeaf | string isLeaf | static isLeaf =>
        cases isLeaf
        exact absurd rfl isOperand
    | _ => exact absurd rfl isOperand

open Printed Node in
theorem Fits.expr_begins {node : Node} (fits : Fits .expr node) :
    node.printed.BeginsWith startsExpr := by
  rcases fits.begins_or_closure with begins | ⟨_, _, _, _, returnsRef, rfl⟩
  · exact begins.mono fun _ => startsExpr_of_startsOperand
  · rw [printed_closure]
    exact ((begins_token rfl).append _).append _

open Printed Node in
theorem Fits.parameter_begins {node : Node} (fits : Fits .parameter node) :
    node.printed.BeginsWith startsParameter := by
  cases fits with
  | @parameter type initial binding byRef variadic isType isVariable default =>
      have bound : binding.printed.BeginsWith startsParameter :=
        isVariable.begins.mono fun kind isName => by simp [startsParameter, isName]
      have typed : ∀ printed ∈ type.map Node.printed, printed.BeginsWith startsParameter := by
        intro printed member
        obtain ⟨node, inside, rfl⟩ := Option.map_eq_some_iff.mp member
        exact (isType node inside).begins.mono fun kind starts => by simp [startsParameter, starts]
      rw [printed_parameter]
      simp only [append_assoc]
      apply begins_required typed
      apply begins_given byRef rfl
      apply begins_given variadic rfl
      exact bound.append _

open Printed Node in
theorem Fits.method_begins {node : Node} (fits : Fits .method node) :
    node.printed.BeginsWith fun kind => kind.isModifier || kind == .keyword .function := by
  cases fits with
  | method returnsRef isIdentifier areModifiers parameters type body =>
      rw [printed_method]
      simp only [append_assoc]
      apply begins_joined
      · intro printed member
        obtain ⟨modifier, inside, rfl⟩ := List.mem_map.mp member
        exact (areModifiers modifier inside).begins.mono fun kind isModifier => by simp [isModifier]
      · exact (begins_token rfl).append _

open Printed Node in
theorem Fits.statement_begins {node : Node} (fits : Fits .statement node) :
    node.printed.BeginsWith startsStatement := by
  cases fits with
  | @expression expr evaluated =>
      have begins : expr.printed.BeginsWith startsStatement :=
        evaluated.expr_begins.mono fun kind starts => by simp [startsStatement, starts]
      by_cases isRefClosure : expr.isRefClosure = true
      · rw [printed_expression_refClosure isRefClosure]
        exact begins.append _
      · rw [printed_expression (Bool.eq_false_iff.mpr isRefClosure)]
        exact begins.append _
  | block body =>
      rw [printed_stmtList]
      exact ((begins_token rfl).append _).append _
  | function returnsRef isIdentifier parameters type body =>
      rw [printed_function]
      exact (((begins_token rfl).append _).append _).append _
  | «class» isIdentifier areModifiers extends_ implements_ body =>
      rw [printed_class]
      simp only [append_assoc]
      apply begins_joined
      · intro printed member
        obtain ⟨modifier, inside, rfl⟩ := List.mem_map.mp member
        exact (areModifiers modifier inside).begins.mono fun kind isModifier => by
          simp [startsStatement, isModifier]
      · exact (begins_token rfl).append _
  | throw thrown =>
      rw [printed_throw]
      exact ((begins_token rfl).append _).append _
  | «return» returned =>
      rw [printed_return]
      exact ((begins_token rfl).append _).append _
  | echo printed =>
      rw [printed_echo]
      exact ((begins_token rfl).append _).append _

open Printed Node in
theorem Fits.argument_begins {node : Node} (fits : Fits .argument node) :
    node.printed.BeginsWith fun kind => startsExpr kind || kind == .ellipsis := by
  cases fits with
  | @argument expr variadic value =>
      have begins : expr.printed.BeginsWith fun kind => startsExpr kind || kind == .ellipsis :=
        value.expr_begins.mono fun kind starts => by simp [starts]
      rw [printed_argument]
      exact begins_given variadic rfl begins

end PhpTree
