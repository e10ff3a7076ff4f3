import PhpTree.Parse.Statement

/-! # Programs

A source is parsed to a program: the tree of its statements and the errors met on
the way.  There is no program only where reading does not end. -/
set_option autoImplicit false
namespace PhpTree

structure Program where
  root : Node
  errors : List ParseError

namespace Program

def hasErrors (program : Program) : Bool := !program.errors.isEmpty

end Program

namespace Parse

/-- What stands at the outermost level; a closing brace there belongs to nothing. -/
def topLevel (grammar : Grammar) : Parse (Option Node × Bool) := do
  match ← kind with
  | .eof => pure (none, false)
  | .closeBrace =>
    report .statement
    advance
    pure (none, true)
  | _ =>
    let stmt ← grammar .statement
    pure (stmt, true)

def extent? (stmts : List Node) : Option Position :=
  match stmts.head?.bind Node.position, stmts.getLast?.bind Node.position with
  | some first, some last => some (first.through last)
  | _, _ => none

def takeErrors : Parse (List ParseError) := fun _ cursor =>
  some (cursor.errors.reverse, { cursor with errors := [] })

/-- The whole source. Comments after the last statement belong to the root. -/
def program (fuel : Nat) (grammar : Grammar) : Parse Program := do
  let stmts ← collect fuel (topLevel grammar)
  let comments ← takeComments
  let root := Node.mk { attributes := { comments }, position := extent? stmts } (.stmtList stmts)
  let errors ← takeErrors
  pure { root, errors }

end Parse

structure Parser where
  context : Context
  cursor : Cursor

namespace Parser

def ofSource (options : Options) (source : List UInt8) : Parser :=
  let context : Context := { options, lines := LineIndex.ofSource source }
  let cursor :=
    match Item.gather (Lexer.ofSource options.shortTags source).tokens with
    | item :: following => Cursor.ofItems context item following
    | [] => Cursor.ofItems context { token := ⟨.eof, source.length, []⟩ } []
  { context, cursor }

def programWith (fuel : Nat) (parser : Parser) : Option (Program × Parser) :=
  match Parse.program fuel (Grammar.closed fuel) parser.context parser.cursor with
  | some (program, cursor) => some (program, { parser with cursor })
  | none => none

/-- Every level of phrases and every round of a loop consumes a token sooner or later, so this much
fuel is enough wherever any amount is. -/
def fuel (parser : Parser) : Nat := 8 * (parser.cursor.remaining + 1)

def program (parser : Parser) : Option (Program × Parser) := parser.programWith parser.fuel

/-- What has been noted down, oldest first. -/
def journal (parser : Parser) : List JournalEntry := parser.cursor.journal.reverse

end Parser

/-- Parses a source; `none` when reading it does not end. -/
def parse (options : Options) (source : List UInt8) : Option Program :=
  (Parser.ofSource options source).program.map Prod.fst

end PhpTree
