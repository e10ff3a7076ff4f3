import PhpTree.Source.Position

/-! # Parse errors

Errors are part of a result, beside the tree.  Each names its cause and where it
was noticed; the wording is kept in one place. -/
set_option autoImplicit false
namespace PhpTree

inductive Expected where
  | semicolon
  | openBrace
  | closeBrace
  | openParen
  | closeParen
  | classKeyword
  | functionKeyword
  | statement
  | expression
  | identifier
  | «variable»
  | type
  | functionName
  | className
  | methodName
  | memberName
deriving DecidableEq

def Expected.describe : Expected → String
  | .semicolon => "';'"
  | .openBrace => "'\x7b'"
  | .closeBrace => "'\x7d'"
  | .openParen => "'('"
  | .closeParen => "')'"
  | .classKeyword => "'class'"
  | .functionKeyword => "'function'"
  | .statement => "statement"
  | .expression => "expression"
  | .identifier => "identifier"
  | .variable => "variable"
  | .type => "type"
  | .functionName => "function name"
  | .className => "class name"
  | .methodName => "method name"
  | .memberName => "member name"

def quoteToken (text : String) : String := "'" ++ text ++ "'"

inductive ParseError where
  | unexpectedToken (text : String) (expected : Expected) (position : Position)
  | unexpectedEnd (expected : Expected) (position : Position)
  | unterminatedComment (position : Position)
  | nestingTooDeep (limit : Nat) (position : Position)
deriving DecidableEq

namespace ParseError

def position : ParseError → Position
  | .unexpectedToken _ _ position => position
  | .unexpectedEnd _ position => position
  | .unterminatedComment position => position
  | .nestingTooDeep _ position => position

def message : ParseError → String
  | .unexpectedToken text expected position =>
    "syntax error, unexpected " ++ quoteToken text ++ ", expecting " ++ expected.describe ++
      " at " ++ position.display
  | .unexpectedEnd expected position =>
    "syntax error, unexpected end of file, expecting " ++ expected.describe ++ " at " ++
      position.display
  | .unterminatedComment position => "unterminated comment starting at " ++ position.display
  | .nestingTooDeep limit position =>
    "nesting deeper than " ++ Nat.repr limit ++ " levels at " ++ position.display

end ParseError

/-- What a parse noted down on its way, besides the errors it returns. -/
inductive JournalEntry where
  | reported (error : ParseError)
  | unterminatedComment (position : Position)
  | skippingStatement (offset : Nat)
  | skippingToStatementEnd (offset : Nat)
  | skippingPageText (span : Span)
deriving DecidableEq

end PhpTree
