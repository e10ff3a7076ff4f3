import PhpTree.CommandLine.Report

/-! # The command line program

Reads the arguments, takes files from the disk and writes the report. -/
set_option autoImplicit false
namespace PhpTree
namespace CommandLine

/-- The cause of a failed read. The code of a name that is too long is 36, and some calls give
their codes negated. -/
def readFailure : IO.Error → ReadFailure
  | .noFileOrDirectory .. => .notFound
  | .inappropriateType .. => .notDirectory
  | .permissionDenied .. => .other "Permission denied (os error 13)"
  | .invalidArgument file code details =>
    if code = 36 || code + 36 = 0 then .nameTooLong
    else .other (IO.Error.invalidArgument file code details).toString
  | error => .other error.toString

/-- The files below a directory, by the components of their paths from there. Directories that
cannot be looked into are passed over, and so is whatever is neither a directory nor a file. -/
partial def diskFilesBelow (directory : String) (components : List String) :
    IO (List (List String)) := do
  let entries ←
    try (← IO.FS.realPath (String.intercalate "/" (directory :: components))).readDir
    catch _ => pure #[]
  let mut found := []
  for entry in entries do
    let path := components ++ [entry.fileName]
    match (← entry.path.symlinkMetadata).type with
    | .dir => found := found ++ (← diskFilesBelow directory path)
    | .file => found := found ++ [path]
    | _ => pure ()
  pure found

def diskStore : FileStore IO where
  isDirectory path := do
    if pathFits path then
      try (← IO.FS.realPath path).isDir
      catch _ => pure false
    else pure false
  filesBelow path := diskFilesBelow path []
  read path := do
    try
      let bytes ← IO.FS.readBinFile path
      pure (.ok bytes.toList)
    catch error => pure (.error (readFailure error))

end CommandLine
end PhpTree

open PhpTree.CommandLine in
def main (arguments : List String) : IO UInt32 := do
  match Request.ofArguments? arguments with
  | none =>
    IO.eprintln
      "usage: [--format sexpr|json] [--positions] [--no-comments] [--short-open-tag] PATH..."
    pure 2
  | some request =>
    match ← run diskStore request with
    | none =>
      IO.eprintln "a close tag stands among the members of a class"
      pure 1
    | some report =>
      IO.print report.output
      IO.eprint report.diagnostics
      pure report.exitCode.toUInt32
