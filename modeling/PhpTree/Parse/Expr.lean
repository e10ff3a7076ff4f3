import PhpTree.Parse.Name

/-! # Calls and lists of expressions

What a grammar for expressions gives at once: lists of expressions, arguments and
parameters, and the calls and accesses that follow an operand. -/
set_option autoImplicit false
namespace PhpTree
namespace Parse

def listedExpr (grammar : Grammar) : Parse (Option Node × Bool) := do
  match ← grammar .expr with
  | none => pure (none, false)
  | some expr =>
    let continues ← eat .comma
    pure (some expr, continues)

def exprList (fuel : Nat) (grammar : Grammar) : Parse (List Node) :=
  collect fuel (listedExpr grammar)

def argument (grammar : Grammar) : Parse (Option Node × Bool) := do
  let start ← start
  let variadic ← eat .ellipsis
  match ← grammar .expr with
  | none => pure (none, false)
  | some expr =>
    let argument ← finish start (.argument (some expr) variadic)
    let continues ← eat .comma
    pure (some argument, continues)

def arguments (fuel : Nat) (grammar : Grammar) : Parse (List Node) :=
  parenthesised fuel (argument grammar)

def optionalArguments (fuel : Nat) (grammar : Grammar) : Parse (List Node) := do
  if (← kind) = .openParen then arguments fuel grammar else pure []

def parameterType (fuel : Nat) : Parse (Option Node) := do
  if startsType (← kind) then type fuel else pure none

def parameterDefault (grammar : Grammar) : Parse (Option Node) := do
  if ← eat .equals then grammar .expr else pure none

/-- `[?Type] [&] [...] $name [= default]`; every parameter leaves a node. -/
def parameter (fuel : Nat) (grammar : Grammar) : Parse (Option Node × Bool) := do
  let start ← start
  let type ← parameterType fuel
  let byRef ← eat .ampersand
  let variadic ← eat .ellipsis
  let binding ← simpleVariable
  let initial ← parameterDefault grammar
  let parameter ← finish start (.parameter type binding initial byRef variadic)
  let continues ← eat .comma
  pure (some parameter, continues)

def parameters (fuel : Nat) (grammar : Grammar) : Parse (List Node) :=
  parenthesised fuel (parameter fuel grammar)

def memberName (expected : Expected) : Parse (Option Node) := do
  if (← kind) = .variableName then simpleVariable else identifier expected

/-- What follows `->`: a property, or a method with its arguments. -/
def memberAccess (fuel : Nat) (grammar : Grammar) (start : Nat) (object : Node) : Parse Node := do
  let member ← memberName .memberName
  if (← kind) = .openParen then
    let arguments ← arguments fuel grammar
    finish start (.bare (.methodCall (some object) member arguments))
  else finish start (.bare (.propertyFetch (some object) member))

/-- What follows `::`: a static property, a constant, or a static method with its arguments. -/
def staticAccess (fuel : Nat) (grammar : Grammar) (start : Nat) (scope : Node) : Parse Node := do
  let first ← kind
  let member ← memberName .identifier
  if (← kind) = .openParen then
    let arguments ← arguments fuel grammar
    finish start (.bare (.staticCall (some scope) member arguments))
  else if first = .variableName then
    finish start (.bare (.staticPropertyFetch (some scope) member))
  else finish start (.bare (.classConstFetch (some scope) member))

/-- One call or access after an operand. A null-safe arrow reads like a plain one. -/
def trailer (fuel : Nat) (grammar : Grammar) (start : Nat) (operand : Node) :
    Parse (Node × Bool) := do
  match ← kind with
  | .openParen =>
    let arguments ← arguments fuel grammar
    let call ← finish start (.bare (.functionCall (some operand) arguments))
    pure (call, true)
  | .arrow | .nullSafeArrow =>
    advance
    let access ← memberAccess fuel grammar start operand
    pure (access, true)
  | .doubleColon =>
    advance
    let access ← staticAccess fuel grammar start operand
    pure (access, true)
  | _ => pure (operand, false)

def trailers (fuel : Nat) (grammar : Grammar) (start : Nat) (operand : Node) : Parse Node :=
  loop (trailer fuel grammar start) fuel operand

/-- Assignments associate to the right: `$a = $b = 1` assigns `$b = 1` to `$a`. -/
def assignment (grammar : Grammar) (start : Nat) (target : Node) : Parse Node := do
  match ← kind with
  | .equals =>
    advance
    let byRef ← eat .ampersand
    let source ← grammar .expr
    finish start
      (.bare (.assign (if byRef then .reference else .value) (some target) source))
  | .compound op =>
    advance
    let source ← grammar .expr
    finish start (.bare (.assign (.compound op) (some target) source))
  | _ => pure target

/-- A name by itself is a constant, unless a call or `::` follows. -/
def nameExpr (fuel : Nat) : Parse (Option Node) := do
  let start ← start
  match ← name fuel with
  | none => pure none
  | some name =>
    match ← kind with
    | .openParen | .doubleColon => pure (some name)
    | _ => some <$> finish start (.bare (.constFetch (some name)))

end Parse
end PhpTree
