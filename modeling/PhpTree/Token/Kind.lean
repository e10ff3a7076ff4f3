import PhpTree.Token.AssignOp
import PhpTree.Token.Keyword

/-! # Token kinds

What a token is, apart from its text.  Keywords and compound assignment operators
are carried by their own types. -/
set_option autoImplicit false
namespace PhpTree

inductive TokenKind where
  | keyword (word : Keyword)
  | compound (op : AssignOp)
  | identifier
  | integer
  | decimal
  | string
  | variableName
  | inlineHtml
  | dollar
  | backslash
  | comment
  | docComment
  | arrow
  | nullSafeArrow
  | doubleArrow
  | doubleColon
  | ellipsis
  | plus
  | minus
  | asterisk
  | slash
  | percent
  | dot
  | power
  | increment
  | decrement
  | equals
  | equal
  | identical
  | bang
  | notEqual
  | notIdentical
  | less
  | lessEqual
  | greater
  | greaterEqual
  | spaceship
  | ampersand
  | pipe
  | caret
  | tilde
  | shiftLeft
  | shiftRight
  | andAnd
  | orOr
  | question
  | coalesce
  | atSign
  | semicolon
  | colon
  | comma
  | openBrace
  | closeBrace
  | openParen
  | closeParen
  | openBracket
  | closeBracket
  | openTag
  | openTagEcho
  | closeTag
  | eof
  | error
deriving DecidableEq

namespace TokenKind

/-- Keywords may stand where only a name can. -/
def isSemiReserved : TokenKind → Bool
  | .keyword _ => true
  | _ => false

def isModifier : TokenKind → Bool
  | .keyword word => word.isModifier
  | _ => false

/-- Comments stand between the tokens that matter to the grammar. -/
def isTrivia : TokenKind → Bool
  | .comment | .docComment => true
  | _ => false

def isNameLike : TokenKind → Bool
  | .identifier | .keyword _ => true
  | _ => false

def compoundName : AssignOp → String
  | .bitwiseAnd => "AndEq"
  | .bitwiseOr => "OrEq"
  | .bitwiseXor => "XorEq"
  | .coalesce => "CoalesceEq"
  | .concat => "ConcatEq"
  | .div => "DivEq"
  | .minus => "MinusEq"
  | .mod => "ModEq"
  | .mul => "MulEq"
  | .plus => "PlusEq"
  | .pow => "PowEq"
  | .shiftLeft => "SlEq"
  | .shiftRight => "SrEq"

def name : TokenKind → String
  | .keyword word => word.name
  | .compound op => compoundName op
  | .identifier => "Identifier"
  | .integer => "LNumber"
  | .decimal => "DNumber"
  | .string => "StringLiteral"
  | .variableName => "Variable"
  | .inlineHtml => "InlineHtml"
  | .dollar => "Dollar"
  | .backslash => "NsSeparator"
  | .comment => "Comment"
  | .docComment => "DocComment"
  | .arrow => "Arrow"
  | .nullSafeArrow => "NullSafeArrow"
  | .doubleArrow => "DoubleArrow"
  | .doubleColon => "DoubleColon"
  | .ellipsis => "Ellipsis"
  | .plus => "Plus"
  | .minus => "Minus"
  | .asterisk => "Asterisk"
  | .slash => "Slash"
  | .percent => "Percent"
  | .dot => "Dot"
  | .power => "Pow"
  | .increment => "Inc"
  | .decrement => "Dec"
  | .equals => "Eq"
  | .equal => "EqEq"
  | .identical => "EqEqEq"
  | .bang => "Bang"
  | .notEqual => "BangEq"
  | .notIdentical => "BangEqEq"
  | .less => "Lt"
  | .lessEqual => "LtEq"
  | .greater => "Gt"
  | .greaterEqual => "GtEq"
  | .spaceship => "Spaceship"
  | .ampersand => "Ampersand"
  | .pipe => "Pipe"
  | .caret => "Caret"
  | .tilde => "BitNot"
  | .shiftLeft => "Sl"
  | .shiftRight => "Sr"
  | .andAnd => "AmpersandAmpersand"
  | .orOr => "PipePipe"
  | .question => "Question"
  | .coalesce => "Coalesce"
  | .atSign => "At"
  | .semicolon => "SemiColon"
  | .colon => "Colon"
  | .comma => "Comma"
  | .openBrace => "OpenBrace"
  | .closeBrace => "CloseBrace"
  | .openParen => "OpenParen"
  | .closeParen => "CloseParen"
  | .openBracket => "OpenBracket"
  | .closeBracket => "CloseBracket"
  | .openTag => "OpenTag"
  | .openTagEcho => "OpenTagEcho"
  | .closeTag => "CloseTag"
  | .eof => "Eof"
  | .error => "Error"

end TokenKind
end PhpTree
