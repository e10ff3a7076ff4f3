import PhpTree.Parse.Error
import PhpTree.Source.Position
import PhpTree.Token.Lexer
import PhpTree.Tree.Build

/-! # The cursor

Where a parse stands: the item it looks at, the items after it, and what has been
gathered so far.  Every step of a parse is a function on cursors.  Past the last
item, the end of file stands still. -/
set_option autoImplicit false
namespace PhpTree

structure Options where
  /-- Whether a bare `<?` opens script. -/
  shortTags : Bool := false
  /-- Whether comments are attached to the nodes they stand before. -/
  attachComments : Bool := true
  /-- How many statements and expressions may be open inside each other; what lies deeper is
  reported and skipped. -/
  maxDepth : Nat := 256
deriving DecidableEq

structure Context where
  options : Options
  lines : LineIndex

structure Cursor where
  current : Item
  following : List Item
  /-- The last doc comment passed that no declaration has taken. -/
  pendingDoc : Option String := none
  /-- Where the last consumed token ended. -/
  lastEnd : Nat := 0
  /-- Statements and expressions that are open. -/
  depth : Nat := 0
  /-- Newest first. -/
  errors : List ParseError := []
  /-- Newest first. -/
  journal : List JournalEntry := []

namespace Cursor

def kind (cursor : Cursor) : TokenKind := cursor.current.token.kind

def nextKind (cursor : Cursor) : TokenKind :=
  match cursor.following with
  | item :: _ => item.token.kind
  | [] => .eof

def start (cursor : Cursor) : Nat := cursor.current.token.start

def note (cursor : Cursor) (entry : JournalEntry) : Cursor :=
  { cursor with journal := entry :: cursor.journal }

/-- Comments that were never closed are errors as soon as their item comes into view. -/
def view (context : Context) (cursor : Cursor) (item : Item) : Cursor :=
  item.unterminated.foldl (fun cursor token =>
    let position := context.lines.position token.span
    { cursor.note (.unterminatedComment position) with
      errors := .unterminatedComment position :: cursor.errors }) cursor

def lookAhead (context : Context) (cursor : Cursor) : Cursor :=
  match cursor.following with
  | item :: _ => cursor.view context item
  | [] => cursor

/-- Stands at the first of the items, with the second in view. -/
def ofItems (context : Context) (item : Item) (following : List Item) : Cursor :=
  (view context { current := item, following, pendingDoc := item.docComment?.map Token.text }
    item).lookAhead context

def advance (context : Context) (cursor : Cursor) : Cursor :=
  match cursor.following with
  | [] =>
    { cursor with
      current := { token := cursor.current.token }
      lastEnd := cursor.current.token.stop }
  | item :: rest =>
    lookAhead context
      { cursor with
        current := item
        following := rest
        pendingDoc := (item.docComment?.map Token.text).or cursor.pendingDoc
        lastEnd := cursor.current.token.stop }

def clearDoc (cursor : Cursor) : Cursor := { cursor with pendingDoc := none }

/-- The comments before the current token are handed out once. -/
def dropComments (cursor : Cursor) : Cursor :=
  { cursor with current := { cursor.current with comments := [] } }

/-- Records an error, unless the last one begins at the same offset. -/
def record (cursor : Cursor) (error : ParseError) : Cursor :=
  if cursor.errors.head?.any fun last =>
      last.position.startOffset == error.position.startOffset then cursor
  else { cursor.note (.reported error) with errors := error :: cursor.errors }

def position (context : Context) (cursor : Cursor) : Position :=
  context.lines.position cursor.current.token.span

def report (context : Context) (expected : Expected) (cursor : Cursor) : Cursor :=
  cursor.record <|
    if cursor.kind = .eof then .unexpectedEnd expected (cursor.position context)
    else .unexpectedToken cursor.current.token.text expected (cursor.position context)

def reportTooDeep (context : Context) (cursor : Cursor) : Cursor :=
  cursor.record (.nestingTooDeep context.options.maxDepth (cursor.position context))

def advanceWhile (context : Context) (accepts : TokenKind → Bool) : (fuel : Nat) → Cursor → Cursor
  | 0, cursor => cursor
  | fuel + 1, cursor =>
    if accepts cursor.kind then advanceWhile context accepts fuel (cursor.advance context)
    else cursor

def remaining (cursor : Cursor) : Nat := cursor.following.length + 1

def endsStatement : TokenKind → Bool
  | .semicolon | .closeBrace | .closeTag | .eof => true
  | _ => false

/-- Gives a statement up: passes over everything to its semicolon, or to what ends it without
being part of it. -/
def skipToStatementEnd (context : Context) (cursor : Cursor) : Cursor :=
  let stopped := advanceWhile context (fun kind => !endsStatement kind) cursor.remaining
    (cursor.note (.skippingToStatementEnd cursor.start))
  (if stopped.kind = .semicolon then stopped.advance context else stopped).clearDoc

/-- Passes over a statement whose brackets are counted, not understood: it ends after a semicolon
outside all brackets or the brace that closes the last of them, and before a close tag outside all
brackets or the brace of the block around it. -/
def skipBalanced (context : Context) : (fuel opened : Nat) → Cursor → Cursor
  | 0, _, cursor => cursor
  | fuel + 1, opened, cursor =>
    match cursor.kind with
    | .eof => cursor
    | .semicolon =>
      if opened = 0 then cursor.advance context
      else skipBalanced context fuel opened (cursor.advance context)
    | .closeTag =>
      if opened = 0 then cursor else skipBalanced context fuel opened (cursor.advance context)
    | .closeBrace =>
      if opened = 0 then cursor
      else if opened = 1 then cursor.advance context
      else skipBalanced context fuel (opened - 1) (cursor.advance context)
    | .openBrace | .openParen | .openBracket =>
      skipBalanced context fuel (opened + 1) (cursor.advance context)
    | .closeParen | .closeBracket =>
      skipBalanced context fuel (opened - 1) (cursor.advance context)
    | _ => skipBalanced context fuel opened (cursor.advance context)

def skipStatement (context : Context) (cursor : Cursor) : Cursor :=
  (skipBalanced context cursor.remaining 0
    (cursor.note (.skippingStatement cursor.start))).clearDoc

def comments (context : Context) (cursor : Cursor) : List Comment :=
  if context.options.attachComments then
    cursor.current.comments.map fun token =>
      { value := token.text, position := some (context.lines.position token.span) }
  else []

/-- The extent from `start` to the end of the last consumed token; empty when nothing was consumed
since. -/
def positionFrom (context : Context) (start : Nat) (cursor : Cursor) : Position :=
  context.lines.position ⟨start, max cursor.lastEnd start⟩

end Cursor
end PhpTree
