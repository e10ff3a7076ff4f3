import PhpTree.Parse.Declaration

/-! # Statements and the closed grammar

The productions of the recursive phrases, and the grammar that feeds them to each
other with one unit of fuel less at every level. -/
set_option autoImplicit false
namespace PhpTree
namespace Parse

/-- `$$a` and `${expr}`. -/
def variableVariable (grammar : Grammar) : Parse Node := do
  let start ← start
  advance
  if ← eat .openBrace then
    let varName ← grammar .expr
    let _ ← expect .closeBrace .closeBrace
    finish start (.bare (.variableRef varName))
  else
    let varName ← deeper (pure none) (grammar .primary)
    finish start (.bare (.variableRef varName))

/-- Parentheses leave no trace in the tree. -/
def group (grammar : Grammar) : Parse (Option Node) := do
  advance
  let expr ← grammar .expr
  let _ ← expect .closeParen .closeParen
  pure expr

def noExpression : Parse (Option Node) := do
  report .expression
  pure none

def primary (fuel : Nat) (grammar : Grammar) : Parse (Option Node) := do
  match ← kind with
  | .variableName => simpleVariable
  | .dollar => some <$> variableVariable grammar
  | .integer => some <$> leaf .integer
  | .decimal => some <$> leaf .decimal
  | .string => some <$> leaf .string
  | .identifier | .backslash => nameExpr fuel
  | .keyword .namespace =>
    if (← nextKind) = .backslash then nameExpr fuel else noExpression
  | .keyword .static =>
    if (← nextKind) = .keyword .function then some <$> closure fuel grammar
    else some <$> leaf .identifier
  | .keyword .function => some <$> closure fuel grammar
  | .keyword .new => some <$> instantiation fuel grammar
  | .openParen => group grammar
  | _ => noExpression

def exprBody (fuel : Nat) (grammar : Grammar) : Parse (Option Node) := do
  let start ← start
  match ← primary fuel grammar with
  | none => pure none
  | some operand =>
    let target ← trailers fuel grammar start operand
    some <$> assignment grammar start target

/-- An expression; `none` after a report when none begins here. -/
def expr (fuel : Nat) (grammar : Grammar) : Parse (Option Node) :=
  deeper (pure none) (exprBody fuel grammar)

/-- Ends a statement. A close tag or the end of file serves as well and is left alone. -/
def expectSemicolon : Parse Unit := do
  clearDoc
  match ← kind with
  | .semicolon => advance
  | .closeTag | .eof => pure ()
  | _ =>
    report .semicolon
    modify Cursor.skipToStatementEnd

def echoStatement (fuel : Nat) (grammar : Grammar) (start : Nat) : Parse Node := do
  advance
  let exprs ← exprList fuel grammar
  expectSemicolon
  finish start (.bare (.echo exprs))

def throwStatement (grammar : Grammar) (start : Nat) : Parse Node := do
  advance
  let expr ← grammar .expr
  expectSemicolon
  finish start (.bare (.throwStmt expr))

def endsReturn : TokenKind → Bool
  | .semicolon | .closeTag | .eof => true
  | _ => false

def returned (grammar : Grammar) : Parse (Option Node) := do
  if endsReturn (← kind) then pure none else grammar .expr

def returnStatement (grammar : Grammar) (start : Nat) : Parse Node := do
  advance
  let expr ← returned grammar
  expectSemicolon
  finish start (.bare (.returnStmt expr))

/-- A named function. With no name at all, `function &() { ... }` is a closure. -/
def functionStatement (fuel : Nat) (grammar : Grammar) (start : Nat) : Parse Node := do
  let doc ← takeDoc
  advance
  let returnsRef ← eat .ampersand
  if (← kind) = .openParen then
    let closure ← closureTail fuel grammar start doc false returnsRef
    expectSemicolon
    finish start (.bare (.expression (some closure)))
  else
    let functionName ← identifier .functionName
    let params ← parameters fuel grammar
    let returnType ← returnType fuel
    let stmts ← block fuel grammar
    finish start (document doc (.function functionName returnsRef params returnType stmts))

/-- Ends a statement after its expression; without one the rest of the statement is given up. -/
def endExpression (found : Bool) : Parse Unit :=
  if found then expectSemicolon else modify Cursor.skipToStatementEnd

def expressionStatement (grammar : Grammar) (start : Nat) : Parse Node := do
  let expr ← grammar .expr
  endExpression expr.isSome
  finish start (.bare (.expression expr))

def blockStatement (fuel : Nat) (grammar : Grammar) (start : Nat) : Parse Node := do
  let stmts ← block fuel grammar
  finish start (.bare (.stmtList stmts))

def statementByKind (fuel : Nat) (grammar : Grammar) (start : Nat) : Parse Node := do
  match ← kind with
  | .openTagEcho | .keyword .echo => echoStatement fuel grammar start
  | .keyword .throw => throwStatement grammar start
  | .keyword .return => returnStatement grammar start
  | .openBrace => blockStatement fuel grammar start
  | .keyword .function =>
    if (← nextKind) = .openParen then expressionStatement grammar start
    else functionStatement fuel grammar start
  | .keyword .class | .keyword .abstract | .keyword .final | .keyword .readonly =>
    classDeclaration fuel grammar
  | _ => expressionStatement grammar start

def statementBody (fuel : Nat) (grammar : Grammar) : Parse Node := do
  let start ← start
  let comments ← takeComments
  let stmt ← statementByKind fuel grammar start
  pure (stmt.modifyAttributes fun attributes => attributes.prependComments comments)

/-- Page text leaves no node. -/
def skipPageText : Parse Unit :=
  modify fun context cursor =>
    (cursor.note (.skippingPageText cursor.current.token.span)).advance context

/-- What stands where a statement is due: a statement, or something that leaves no node. -/
def statement (fuel : Nat) (grammar : Grammar) : Parse (Option Node) := do
  match ← kind with
  | .openTag | .closeTag =>
    advance
    pure none
  | .inlineHtml =>
    skipPageText
    pure none
  | .semicolon =>
    advance
    clearDoc
    pure none
  | _ =>
    deeper
      (do
        modify Cursor.skipStatement
        pure none)
      (some <$> statementBody fuel grammar)

end Parse

namespace Grammar

def rule (fuel : Nat) (grammar : Grammar) : Grammar
  | .expr => Parse.expr fuel grammar
  | .primary => Parse.primary fuel grammar
  | .statement => Parse.statement fuel grammar
  | .member => Parse.member fuel grammar

/-- The grammar with phrases nested at most `fuel` times, and loops of at most `fuel` rounds. -/
def closed : (fuel : Nat) → Grammar
  | 0 => fun _ => Parse.outOfFuel
  | fuel + 1 => fun phrase => rule fuel (closed fuel) phrase

end Grammar
end PhpTree
