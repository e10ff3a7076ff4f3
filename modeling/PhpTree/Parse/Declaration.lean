import PhpTree.Parse.Expr

/-! # Functions, closures and classes

Declarations take the pending doc comment when they begin: functions, closures and
classes at their first token, methods at their `function`. -/
set_option autoImplicit false
namespace PhpTree
namespace Parse

def document (doc : Option String) (node : Node) : Node :=
  node.modifyAttributes fun attributes => attributes.withDocComment doc

def endsBody : TokenKind → Bool
  | .closeBrace | .eof => true
  | _ => false

/-- A body in braces, of which every round reads one element. Doc comments inside that nothing
took are dropped at its end. Nothing is read without the opening brace. -/
def braced (fuel : Nat) (element : Parse (Option Node)) : Parse (List Node) := do
  if ← expect .openBrace .openBrace then
    let elements ← collect fuel do
      if endsBody (← kind) then pure (none, false)
      else
        let element ← element
        pure (element, true)
    let _ ← expect .closeBrace .closeBrace
    clearDoc
    pure elements
  else pure []

def block (fuel : Nat) (grammar : Grammar) : Parse (List Node) :=
  braced fuel (grammar .statement)

def closureTail (fuel : Nat) (grammar : Grammar) (start : Nat) (doc : Option String)
    (static returnsRef : Bool) : Parse Node := do
  let params ← parameters fuel grammar
  let uses ← captures fuel
  let returnType ← returnType fuel
  let stmts ← block fuel grammar
  finish start (document doc (.closure params uses returnType stmts static returnsRef))

/-- `[static] function [&] (params) [use (...)] [: type] { ... }` -/
def closure (fuel : Nat) (grammar : Grammar) : Parse Node := do
  let start ← start
  let doc ← takeDoc
  let static ← eat (.keyword .static)
  let _ ← expect (.keyword .function) .functionKeyword
  let returnsRef ← eat .ampersand
  closureTail fuel grammar start doc static returnsRef

/-- The body of a method; a semicolon stands for none. -/
def methodBody (fuel : Nat) (grammar : Grammar) : Parse (List Node) := do
  if ← eat .semicolon then pure [] else block fuel grammar

def method (fuel : Nat) (grammar : Grammar) (start : Nat) (comments : List Comment)
    (modifiers : List Node) : Parse Node := do
  let doc ← takeDoc
  advance
  let returnsRef ← eat .ampersand
  let methodName ← identifier .methodName
  let params ← parameters fuel grammar
  let returnType ← returnType fuel
  let stmts ← methodBody fuel grammar
  let method := document doc
    (.classMethod methodName modifiers returnsRef params returnType stmts)
  finish start (method.modifyAttributes fun attributes => attributes.prependComments comments)

/-- A method, or `none` for a member that is no method, which is reported and given up. -/
def member (fuel : Nat) (grammar : Grammar) : Parse (Option Node) := do
  let start ← start
  let comments ← takeComments
  let modifiers ← modifiers fuel TokenKind.isModifier
  if (← kind) = .keyword .function then some <$> method fuel grammar start comments modifiers
  else
    report .functionKeyword
    modify Cursor.skipToStatementEnd
    pure none

/-- The methods of a class. A close tag among them is no member and ends nothing, so reading does
not get past it. -/
def classBody (fuel : Nat) (grammar : Grammar) : Parse (List Node) :=
  braced fuel (grammar .member)

def isClassModifier : TokenKind → Bool
  | .keyword .abstract | .keyword .final | .keyword .readonly => true
  | _ => false

def classDeclaration (fuel : Nat) (grammar : Grammar) : Parse Node := do
  let start ← start
  let doc ← takeDoc
  let modifiers ← modifiers fuel isClassModifier
  let _ ← expect (.keyword .class) .classKeyword
  let className ← identifier .className
  let parent ← parent fuel
  let interfaces ← interfaces fuel
  let stmts ← classBody fuel grammar
  finish start
    (document doc (.bare (.classDecl className modifiers [] parent interfaces stmts)))

/-- A class without a name, from its `class` on. Its arguments are those of the constructor. -/
def anonymousClass (fuel : Nat) (grammar : Grammar) : Parse Node := do
  let start ← start
  let doc ← takeDoc
  advance
  let args ← optionalArguments fuel grammar
  let parent ← parent fuel
  let interfaces ← interfaces fuel
  let stmts ← classBody fuel grammar
  finish start (document doc (.bare (.classDecl none [] args parent interfaces stmts)))

/-- What a plain `new` names: a class, `static`, or a variable that holds a class name. -/
def instantiated (fuel : Nat) : Parse (Option Node) := do
  let kind ← kind
  if startsName kind then name fuel
  else if kind = .keyword .static then some <$> leaf .identifier
  else if kind = .variableName then simpleVariable
  else
    report .className
    pure none

/-- `new Foo(...)`, `new $class(...)` or `new class (...) extends A { ... }` -/
def instantiation (fuel : Nat) (grammar : Grammar) : Parse Node := do
  let start ← start
  advance
  if (← kind) = .keyword .class then
    let scope ← anonymousClass fuel grammar
    finish start (.bare (.new (some scope) []))
  else
    let scope ← instantiated fuel
    let arguments ← optionalArguments fuel grammar
    finish start (.bare (.new scope arguments))

end Parse
end PhpTree
