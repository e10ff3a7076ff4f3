import PhpTree.Parse.Cursor
import PhpTree.Tree.SExpr

/-! # Command line arguments

Paths and options may be mixed.  Every option is given at most once and only
`--format` takes a value, in the same argument after `=` or in the next one.  After
`--` everything is a path. -/
set_option autoImplicit false
namespace PhpTree
namespace CommandLine

inductive Format where
  | sexpr
  | json
deriving DecidableEq

/-- Format names are written in small letters only. -/
def Format.ofName? (text : String) : Option Format :=
  if text = "sexpr" then some .sexpr else if text = "json" then some .json else none

structure Draft where
  paths : List String := []
  format : Option Format := none
  positions : Bool := false
  noComments : Bool := false
  shortTags : Bool := false
deriving DecidableEq

structure Request where
  paths : List String
  format : Format
  positions : Bool
  attachComments : Bool
  shortTags : Bool
deriving DecidableEq

namespace Draft

/-- An empty path is refused. -/
def addPath (draft : Draft) (path : String) : Option Draft :=
  if path.isEmpty then none else some { draft with paths := path :: draft.paths }

def addFormat (draft : Draft) (value : String) : Option Draft :=
  match draft.format, Format.ofName? value with
  | none, some format => some { draft with format := some format }
  | _, _ => none

def addSwitch (draft : Draft) (option : String) : Option Draft :=
  if option = "--positions" && !draft.positions then some { draft with positions := true }
  else if option = "--no-comments" && !draft.noComments then
    some { draft with noComments := true }
  else if option = "--short-open-tag" && !draft.shortTags then
    some { draft with shortTags := true }
  else none

def formatValue? (argument : String) : Option String :=
  if "--format=".toList.isPrefixOf argument.toList then
    some (String.ofList (argument.toList.drop "--format=".length))
  else none

/-- One argument by itself: an option, or a path. A lone dash is a path. -/
def addArgument (draft : Draft) (argument : String) : Option Draft :=
  match formatValue? argument with
  | some value => draft.addFormat value
  | none =>
    if argument.toList.head? = some '-' && argument ≠ "-" then draft.addSwitch argument
    else draft.addPath argument

def addArguments (draft : Draft) : List String → Option Draft
  | [] => some draft
  | ["--format"] => none
  | argument :: value :: rest =>
    if argument = "--" then (value :: rest).foldlM addPath draft
    else if argument = "--format" then
      match draft.addFormat value with
      | some draft => addArguments draft rest
      | none => none
    else
      match draft.addArgument argument with
      | some draft => addArguments draft (value :: rest)
      | none => none
  | [argument] => if argument = "--" then some draft else draft.addArgument argument

end Draft

/-- The request that the arguments make; `none` when they are refused. At least one path is
needed. -/
def Request.ofArguments? (arguments : List String) : Option Request :=
  match ({} : Draft).addArguments arguments with
  | some draft =>
    if draft.paths.isEmpty then none
    else some {
      paths := draft.paths.reverse
      format := draft.format.getD .sexpr
      positions := draft.positions
      attachComments := !draft.noComments
      shortTags := draft.shortTags }
  | none => none

def Request.options (request : Request) : Options :=
  { shortTags := request.shortTags, attachComments := request.attachComments }

def Request.settings (request : Request) : SExpr.Settings :=
  { positions := request.positions, comments := request.attachComments }

end CommandLine
end PhpTree
