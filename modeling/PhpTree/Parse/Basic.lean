import PhpTree.Parse.Cursor
import PhpTree.Tree.Build

/-! # Parsers

A parser reads a context, moves a cursor and answers with a value; it has no answer
only when it runs out of fuel.  The grammar is open in its recursive phrases, which
are passed to the productions as a parameter, and every loop is an instance of one. -/
set_option autoImplicit false
namespace PhpTree

abbrev Parse := ReaderT Context (StateT Cursor Option)

namespace Parse

def read {α : Type} (get : Cursor → α) : Parse α := fun _ cursor => some (get cursor, cursor)

def modify (change : Context → Cursor → Cursor) : Parse Unit := fun context cursor =>
  some ((), change context cursor)

def outOfFuel {α : Type} : Parse α := fun _ _ => none

def kind : Parse TokenKind := read Cursor.kind

def nextKind : Parse TokenKind := read Cursor.nextKind

def start : Parse Nat := read Cursor.start

def advance : Parse Unit := modify Cursor.advance

def report (expected : Expected) : Parse Unit :=
  modify fun context => Cursor.report context expected

def clearDoc : Parse Unit := modify fun _ => Cursor.clearDoc

def takeDoc : Parse (Option String) := fun _ cursor => some (cursor.pendingDoc, cursor.clearDoc)

def takeComments : Parse (List Comment) := fun context cursor =>
  some (cursor.comments context, cursor.dropComments)

def eat (wanted : TokenKind) : Parse Bool := do
  if (← kind) = wanted then
    advance
    pure true
  else pure false

/-- As `eat`, but reports anything else. -/
def expect (wanted : TokenKind) (expected : Expected) : Parse Bool := do
  if ← eat wanted then pure true
  else
    report expected
    pure false

/-- Places a node from `start` to the end of the last consumed token. -/
def finish (start : Nat) (node : Node) : Parse Node := fun context cursor =>
  some (node.withPosition (cursor.positionFrom context start), cursor)

def currentLeaf (kind : LeafKind) : Parse Node := fun context cursor =>
  some ((Node.leaf kind cursor.current.token.text).withPosition (cursor.position context), cursor)

def leaf (kind : LeafKind) : Parse Node := do
  let node ← currentLeaf kind
  advance
  pure node

/-- Runs a parser one level deeper. At the depth limit the level is refused and reported. -/
def deeper {α : Type} (refused : Parse α) (parser : Parse α) : Parse α := do
  let context ← ReaderT.read
  if context.options.maxDepth ≤ (← read Cursor.depth) then
    modify Cursor.reportTooDeep
    refused
  else
    modify fun _ cursor => { cursor with depth := cursor.depth + 1 }
    let answer ← parser
    modify fun _ cursor => { cursor with depth := cursor.depth - 1 }
    pure answer

/-- Repeats a step, which answers with a new value and whether to go on. -/
def loop {α : Type} (step : α → Parse (α × Bool)) : (fuel : Nat) → α → Parse α
  | 0, _ => outOfFuel
  | fuel + 1, value => fun context cursor =>
    match step value context cursor with
    | none => none
    | some ((value, true), cursor) => loop step fuel value context cursor
    | some ((value, false), cursor) => some (value, cursor)

def collectStep {α : Type} (round : Parse (Option α × Bool)) (found : List α) :
    Parse (List α × Bool) := do
  let (item, continues) ← round
  pure (item.toList ++ found, continues)

/-- Repeats a round, which answers with what it found, if anything, and whether to go on. -/
def collect {α : Type} (fuel : Nat) (round : Parse (Option α × Bool)) : Parse (List α) := do
  let found ← loop (collectStep round) fuel []
  pure found.reverse

end Parse

/-- The phrases that recur inside themselves: expressions, operands, statements and members of
classes. -/
inductive Phrase where
  | expr
  | primary
  | statement
  | member
deriving DecidableEq

abbrev Grammar := Phrase → Parse (Option Node)

end PhpTree
