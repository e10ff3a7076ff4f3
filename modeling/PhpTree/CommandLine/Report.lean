import PhpTree.CommandLine.FileStore
import PhpTree.CommandLine.Request
import PhpTree.Parse.Program
import PhpTree.Tree.Json

/-! # Reports

What the command line writes for a request: the tree of every file, and the errors
of every file that has some.  A file that cannot be read stops everything before
anything is written. -/
set_option autoImplicit false
namespace PhpTree
namespace CommandLine

structure Report where
  output : String := ""
  diagnostics : String := ""
  exitCode : Nat := 0
deriving DecidableEq

def treeText (request : Request) (root : Node) : String :=
  match request.format with
  | .sexpr => SExpr.format request.settings root
  | .json => root.jsonText

def errorLines (path : String) (errors : List ParseError) : String :=
  String.join (errors.map fun error => path ++ ": " ++ error.message ++ "\n")

def Report.add (request : Request) (report : Report) (path : String) (program : Program) :
    Report where
  output := report.output ++ "// " ++ path ++ "\n" ++ treeText request program.root ++ "\n"
  diagnostics := report.diagnostics ++ errorLines path program.errors
  exitCode := if program.hasErrors then 1 else report.exitCode

/-- The report on files already read; `none` when one of them cannot be read to its end. -/
def reportAll (request : Request) : List (String × List UInt8) → Report → Option Report
  | [], report => some report
  | (path, source) :: sources, report =>
    match parse request.options source with
    | some program => reportAll request sources (report.add request path program)
    | none => none

def unreadable (path : String) (failure : ReadFailure) : Report where
  diagnostics := "Error: reading " ++ path ++ "\n\nCaused by:\n    " ++ failure.message ++ "\n"
  exitCode := 1

def run {m : Type → Type} [Monad m] (store : FileStore m) (request : Request) :
    m (Option Report) := do
  let paths ← expandAll store request.paths
  match ← readAll store paths with
  | .error (path, failure) => pure (some (unreadable path failure))
  | .ok sources => pure (reportAll request sources {})

end CommandLine
end PhpTree
