import PhpTree.Source.Position
import PhpTree.Text.Bytes
import PhpTree.Token.Kind
import PhpTree.Token.Scan

/-! # Tokens

From a source to its tokens, and from these to what the grammar reads. -/
set_option autoImplicit false
namespace PhpTree

/-! ## Tokens

A token knows its kind, the offset it begins at and the bytes it covers; its span
and its text follow from these. -/

structure Token where
  kind : TokenKind
  start : Nat
  bytes : List UInt8
deriving DecidableEq

namespace Token

def stop (token : Token) : Nat := token.start + token.bytes.length

def span (token : Token) : Span := ⟨token.start, token.stop⟩

def text (token : Token) : String := Utf8.decode token.bytes

/-- A block comment that reaches the end of the source without being closed. -/
def isUnterminatedComment (token : Token) : Bool :=
  token.kind == .error && (bytesOf "/*").isPrefixOf token.bytes

end Token

/-! ## The lexer

The lexer reads a source in two modes, page text and script, and switches at tags.
It never ends: once the source is used up it keeps answering with the end of file. -/

inductive Mode where
  | page
  | script
deriving DecidableEq

def Mode.after (mode : Mode) : TokenKind → Mode
  | .openTag | .openTagEcho => .script
  | .closeTag => .page
  | _ => mode

/-- What is left of a source, how to read it, and how many bytes came before. -/
structure Lexer where
  shortTags : Bool
  mode : Mode
  offset : Nat
  rest : List UInt8
deriving DecidableEq

namespace Lexer

def ofSource (shortTags : Bool) (source : List UInt8) : Lexer := ⟨shortTags, .page, 0, source⟩

def skip (lexer : Lexer) (count : Nat) : Lexer :=
  { lexer with offset := lexer.offset + count, rest := lexer.rest.drop count }

/-- Blanks before a token are no part of it; page text has none to skip. -/
def skipBlanks (lexer : Lexer) : Lexer :=
  match lexer.mode with
  | .page => lexer
  | .script => lexer.skip (lexer.rest.takeWhile Byte.isBlank).length

def lexeme (lexer : Lexer) : Lexeme :=
  match lexer.mode with
  | .page => Scan.page lexer.shortTags lexer.rest
  | .script => Scan.script lexer.rest

def take (lexer : Lexer) (lexeme : Lexeme) : Token × Lexer :=
  (⟨lexeme.kind, lexer.offset, lexer.rest.take lexeme.length⟩,
    { lexer.skip lexeme.length with mode := lexer.mode.after lexeme.kind })

def next (lexer : Lexer) : Token × Lexer :=
  lexer.skipBlanks.take lexer.skipBlanks.lexeme

def collect : (fuel : Nat) → Lexer → (done : List Token) → List Token
  | 0, _, done => done.reverse
  | fuel + 1, lexer, done =>
    let (token, lexer) := lexer.next
    if token.kind = .eof then (token :: done).reverse else collect fuel lexer (token :: done)

/-- The tokens up to and including the end of file. Every other token covers a byte at least, so
one more than the bytes left are enough. -/
def tokens (lexer : Lexer) : List Token := lexer.collect (lexer.rest.length + 1) []

def firstTokens : (count : Nat) → Lexer → List Token
  | 0, _ => []
  | count + 1, lexer => lexer.next.1 :: firstTokens count lexer.next.2

end Lexer

/-! ## Tokens with what stands before them

The grammar reads significant tokens.  Comments in front of one travel with it, and
so does a comment that was never closed, which is no token of the grammar either. -/

/-- A significant token, the comments between it and the one before, and any unterminated
comment there, each in source order. -/
structure Item where
  comments : List Token := []
  unterminated : List Token := []
  token : Token
deriving DecidableEq

namespace Item

/-- Puts a token in front of items already gathered: comments join the next item. -/
def place (token : Token) : List Item → List Item
  | [] =>
    if token.kind.isTrivia || token.isUnterminatedComment then []
    else [{ token }]
  | item :: rest =>
    if token.kind.isTrivia then { item with comments := token :: item.comments } :: rest
    else if token.isUnterminatedComment then
      { item with unterminated := token :: item.unterminated } :: rest
    else { token } :: item :: rest

def gather (tokens : List Token) : List Item := tokens.foldr place []

/-- The last doc comment in front of the token. -/
def docComment? (item : Item) : Option Token :=
  item.comments.reverse.find? fun token => token.kind == .docComment

end Item
end PhpTree
