import PhpTree.Parse.Basic

/-! # Names, variables and types

The phrases without expressions or statements inside. -/
set_option autoImplicit false
namespace PhpTree
namespace Parse

def identifier (expected : Expected) : Parse (Option Node) := do
  if (← kind).isNameLike then some <$> leaf .identifier
  else
    report expected
    pure none

def simpleVariable : Parse (Option Node) := do
  let start ← start
  if (← kind) = .variableName then
    let varName ← leaf .identifier
    some <$> finish start (.bare (.variableRef (some varName)))
  else
    report .variable
    pure none

/-- A further part of a name, with the backslash before it. A backslash that no part follows is
left alone. -/
def furtherPart : Parse (Option Node × Bool) := do
  if (← kind) = .backslash && (← nextKind).isNameLike then
    advance
    let part ← leaf .namePart
    pure (some part, true)
  else pure (none, false)

def qualification : Parse Qualification := do
  match ← kind with
  | .backslash =>
    advance
    pure .fullyQualified
  | .keyword .namespace =>
    if (← nextKind) = .backslash then
      advance
      advance
      pure .relative
    else pure .unqualified
  | _ => pure .unqualified

/-- `Foo\Bar`, `\Foo\Bar` or `namespace\Foo`. Only parts after the first may be keywords. -/
def name (fuel : Nat) : Parse (Option Node) := do
  let start ← start
  let qualification ← qualification
  if (← kind) = .identifier then
    let first ← leaf .namePart
    let others ← collect fuel furtherPart
    some <$> finish start (.bare (.name qualification (first :: others)))
  else
    report .identifier
    pure none

def startsName : TokenKind → Bool
  | .identifier | .backslash | .keyword .namespace => true
  | _ => false

def className (fuel : Nat) : Parse (Option Node) := do
  if startsName (← kind) then name fuel
  else
    report .className
    pure none

def typeName (fuel : Nat) : Parse (Option Node) := do
  let kind ← kind
  if kind = .keyword .static then some <$> leaf .identifier
  else if startsName kind then name fuel
  else
    report .type
    pure none

def type (fuel : Nat) : Parse (Option Node) := do
  let start ← start
  if ← eat .question then
    let expr ← typeName fuel
    some <$> finish start (.bare (.nullable expr))
  else typeName fuel

def startsType (kind : TokenKind) : Bool :=
  startsName kind || kind == .question || kind == .keyword .static

def returnType (fuel : Nat) : Parse (Option Node) := do
  if ← eat .colon then type fuel else pure none

def modifiers (fuel : Nat) (accepts : TokenKind → Bool) : Parse (List Node) :=
  collect fuel do
    if accepts (← kind) then
      let modifier ← leaf .identifier
      pure (some modifier, true)
    else pure (none, false)

/-- One interface and the comma after it; a missing name is passed over. -/
def interface (fuel : Nat) : Parse (Option Node × Bool) := do
  let name ← className fuel
  let continues ← eat .comma
  pure (name, continues)

def parent (fuel : Nat) : Parse (Option Node) := do
  if ← eat (.keyword .extends) then className fuel else pure none

def interfaces (fuel : Nat) : Parse (List Node) := do
  if ← eat (.keyword .implements) then collect fuel (interface fuel) else pure []

def endsList : TokenKind → Bool
  | .closeParen | .eof => true
  | _ => false

/-- A list in parentheses. Nothing is read without the opening one. -/
def parenthesised (fuel : Nat) (round : Parse (Option Node × Bool)) : Parse (List Node) := do
  if ← expect .openParen .openParen then
    let items ← collect fuel do
      if endsList (← kind) then pure (none, false) else round
    let _ ← expect .closeParen .closeParen
    pure items
  else pure []

/-- One captured variable. A lone `&` stands for a variable that is missing. -/
def capture : Parse (Option Node × Bool) := do
  let start ← start
  let byRef ← eat .ampersand
  let captured ← simpleVariable
  if captured.isNone && !byRef then pure (none, false)
  else
    let use ← finish start (.closureUse captured byRef)
    let continues ← eat .comma
    pure (some use, continues)

def captures (fuel : Nat) : Parse (List Node) := do
  if ← eat (.keyword .use) then parenthesised fuel capture else pure []

end Parse
end PhpTree
