import PhpTree.Token.Kind

/-! # Scanning one token

Each scanner looks at the front of the input and answers with a kind and a length
when a token of its class begins there.  In script the scanners are asked in turn;
a byte that none of them knows is an error of its own.  Page text runs up to the
first open tag. -/
set_option autoImplicit false
namespace PhpTree

/-- The kind of the token at the front of an input and the number of bytes it covers. -/
structure Lexeme where
  kind : TokenKind
  length : Nat
deriving DecidableEq

namespace Scan

def variableName? : List UInt8 → Option Lexeme
  | first :: second :: rest =>
    if first == byteOf '$' && Byte.isNameStart second then
      some ⟨.variableName, 2 + (rest.takeWhile Byte.isNamePart).length⟩
    else none
  | _ => none

def word? : List UInt8 → Option Lexeme
  | [] => none
  | first :: rest =>
    if Byte.isNameStart first then
      let word := first :: rest.takeWhile Byte.isNamePart
      match Keyword.ofWord? word with
      | some keyword => some ⟨.keyword keyword, word.length⟩
      | none => some ⟨.identifier, word.length⟩
    else none

/-- Length up to and including the closing quote. A backslash hides the byte after it. -/
def quotedEnd? (quote : UInt8) : (taken : Nat) → List UInt8 → Option Nat
  | _, [] => none
  | taken, byte :: rest =>
    if byte == quote then some (taken + 1)
    else if byte == byteOf '\\' then
      match rest with
      | [] => none
      | _ :: rest => quotedEnd? quote (taken + 2) rest
    else quotedEnd? quote (taken + 1) rest

/-- Without a closing quote the error reaches to the end of the input. -/
def quoted? : List UInt8 → Option Lexeme
  | [] => none
  | quote :: rest =>
    if Byte.isQuote quote then
      match quotedEnd? quote 1 rest with
      | some length => some ⟨.string, length⟩
      | none => some ⟨.error, rest.length + 1⟩
    else none

def lineCommentEnd : (taken : Nat) → List UInt8 → Nat
  | taken, [] => taken
  | taken, byte :: rest =>
    if byte == 10 || byte == 13 || (bytesOf "?>").isPrefixOf (byte :: rest) then taken
    else lineCommentEnd (taken + 1) rest

def lineComment? (input : List UInt8) : Option Lexeme :=
  if (bytesOf "#").isPrefixOf input then some ⟨.comment, lineCommentEnd 1 (input.drop 1)⟩
  else if (bytesOf "//").isPrefixOf input then some ⟨.comment, lineCommentEnd 2 (input.drop 2)⟩
  else none

def blockCommentEnd? : (taken : Nat) → List UInt8 → Option Nat
  | _, [] => none
  | taken, byte :: rest =>
    if (bytesOf "*/").isPrefixOf (byte :: rest) then some (taken + 2)
    else blockCommentEnd? (taken + 1) rest

/-- A second star opens a doc comment, unless it closes the comment at once. -/
def isDocOpener (input : List UInt8) : Bool :=
  (bytesOf "/**").isPrefixOf input && !(bytesOf "/**/").isPrefixOf input

/-- The end is looked for behind the opener, which has a second star in a doc comment. -/
def blockComment? (input : List UInt8) : Option Lexeme :=
  if (bytesOf "/*").isPrefixOf input then
    let opener := if isDocOpener input then 3 else 2
    match blockCommentEnd? opener (input.drop opener) with
    | some length => some ⟨if isDocOpener input then .docComment else .comment, length⟩
    | none => some ⟨.error, input.length⟩
  else none

def closeTag? (input : List UInt8) : Option Lexeme :=
  if (bytesOf "?>").isPrefixOf input then
    some ⟨.closeTag, if (input.drop 2).head? == some 10 then 3 else 2⟩
  else none

/-- The digits that a base marker such as `0x` announces. -/
def basedDigits? : List UInt8 → Option (UInt8 → Bool)
  | zero :: marker :: _ =>
    if zero != byteOf '0' then none
    else
      let marker := Byte.toLower marker
      if marker == byteOf 'x' then some Byte.isHexDigit
      else if marker == byteOf 'b' then some Byte.isBinaryDigit
      else if marker == byteOf 'o' then some Byte.isOctalDigit
      else none
  | _ => none

/-- Whether a number has a point or an exponent, and its length: digits and underscores, one point
if no exponent mark comes before it, and exponent marks that a digit or a sign follows. -/
def decimalEnd : (fractional : Bool) → (taken : Nat) → List UInt8 → Bool × Nat
  | fractional, taken, [] => (fractional, taken)
  | fractional, taken, byte :: rest =>
    if Byte.isDigit byte || byte == byteOf '_' then decimalEnd fractional (taken + 1) rest
    else if byte == byteOf '.' && !fractional then decimalEnd true (taken + 1) rest
    else if Byte.toLower byte == byteOf 'e' then
      match rest with
      | [] => (fractional, taken)
      | next :: afterSign =>
        if next == byteOf '+' || next == byteOf '-' then decimalEnd true (taken + 2) afterSign
        else if Byte.isDigit next then decimalEnd true (taken + 1) (next :: afterSign)
        else (fractional, taken)
    else (fractional, taken)

def startsNumber : List UInt8 → Bool
  | [] => false
  | [byte] => Byte.isDigit byte
  | byte :: next :: _ => Byte.isDigit byte || (byte == byteOf '.' && Byte.isDigit next)

def number? (input : List UInt8) : Option Lexeme :=
  if startsNumber input then
    match basedDigits? input with
    | some isBasedDigit =>
      let digits := (input.drop 2).takeWhile fun byte => isBasedDigit byte || byte == byteOf '_'
      some ⟨.integer, 2 + digits.length⟩
    | none =>
      let (fractional, length) := decimalEnd false 0 input
      some ⟨if fractional then .decimal else .integer, length⟩
  else none

def threeByteSymbols : List (String × TokenKind) :=
  [("?->", .nullSafeArrow), ("...", .ellipsis), ("===", .identical), ("!==", .notIdentical),
    ("<=>", .spaceship)]

def twoByteSymbols : List (String × TokenKind) :=
  [("->", .arrow), ("=>", .doubleArrow), ("::", .doubleColon), ("**", .power),
    ("++", .increment), ("--", .decrement), ("==", .equal), ("!=", .notEqual),
    ("<>", .notEqual), ("<=", .lessEqual), (">=", .greaterEqual), ("<<", .shiftLeft),
    (">>", .shiftRight), ("&&", .andAnd), ("||", .orOr), ("??", .coalesce)]

def oneByteSymbols : List (String × TokenKind) :=
  [("$", .dollar), ("\\", .backslash), ("+", .plus), ("-", .minus), ("*", .asterisk),
    ("/", .slash), ("%", .percent), (".", .dot), ("=", .equals), ("!", .bang), ("<", .less),
    (">", .greater), ("&", .ampersand), ("|", .pipe), ("^", .caret), ("~", .tilde),
    ("?", .question), ("@", .atSign), (";", .semicolon), (":", .colon), (",", .comma),
    ("\x7b", .openBrace), ("\x7d", .closeBrace), ("(", .openParen), (")", .closeParen),
    ("[", .openBracket), ("]", .closeBracket)]

def compoundSymbols : List (String × TokenKind) :=
  AssignOp.all.map fun op => (op.symbol, .compound op)

/-- All symbols, ordered so that no symbol comes before a longer one that it begins. -/
def symbolTable : List (List UInt8 × TokenKind) :=
  (threeByteSymbols ++ compoundSymbols ++ twoByteSymbols ++ oneByteSymbols).map fun entry =>
    (bytesOf entry.1, entry.2)

def symbol? (input : List UInt8) : Option Lexeme :=
  (symbolTable.find? fun entry => entry.1.isPrefixOf input).map fun entry =>
    ⟨entry.2, entry.1.length⟩

def scanners : List (List UInt8 → Option Lexeme) :=
  [word?, variableName?, number?, quoted?, lineComment?, blockComment?, closeTag?, symbol?]

def script (input : List UInt8) : Lexeme :=
  if input.isEmpty then ⟨.eof, 0⟩
  else (scanners.findSome? fun scanner => scanner input).getD ⟨.error, 1⟩

/-- One blank right after an open tag belongs to the tag. -/
def blankAfterTag (rest : List UInt8) : Nat :=
  match rest with
  | byte :: _ => if Byte.isBlank byte then 1 else 0
  | [] => 0

def openTag? (shortTags : Bool) (input : List UInt8) : Option Lexeme :=
  if (bytesOf "<?php").isPrefixOf input then
    some ⟨.openTag, 5 + blankAfterTag (input.drop 5)⟩
  else if (bytesOf "<?=").isPrefixOf input then some ⟨.openTagEcho, 3⟩
  else if shortTags && (bytesOf "<?").isPrefixOf input then
    some ⟨.openTag, 2 + blankAfterTag (input.drop 2)⟩
  else none

/-- Length of the page text in front of the first open tag. Where no tag begins, the next place to
look is the next `<`, behind `skip` bytes that are passed over. -/
def seekOpenTag (shortTags : Bool) : (skip taken : Nat) → List UInt8 → Nat
  | _, taken, [] => taken
  | skip + 1, taken, _ :: rest => seekOpenTag shortTags skip (taken + 1) rest
  | 0, taken, byte :: rest =>
    if (openTag? shortTags (byte :: rest)).isSome then taken
    else seekOpenTag shortTags (rest.takeWhile (· != byteOf '<')).length (taken + 1) rest

def page (shortTags : Bool) (input : List UInt8) : Lexeme :=
  if input.isEmpty then ⟨.eof, 0⟩
  else (openTag? shortTags input).getD ⟨.inlineHtml, seekOpenTag shortTags 0 0 input⟩

end Scan
end PhpTree
