/-! # Where files come from

What the command line needs to know about files, whether they are on a disk or in
memory: which paths are directories, what lies below one, and the bytes of a file.
Names and whole paths have a greatest length, counted in bytes. -/
set_option autoImplicit false
namespace PhpTree
namespace CommandLine

inductive ReadFailure where
  | notFound
  | notDirectory
  | nameTooLong
  | other (description : String)
deriving DecidableEq

def ReadFailure.message : ReadFailure → String
  | .notFound => "No such file or directory (os error 2)"
  | .notDirectory => "Not a directory (os error 20)"
  | .nameTooLong => "File name too long (os error 36)"
  | .other description => description

def nameFits (name : String) : Bool := decide (name.utf8ByteSize ≤ 255)

/-- Whether a path is short enough to be followed at all, wherever it would lead. -/
def pathFits (path : String) : Bool := decide (path.utf8ByteSize ≤ 4095)

/-- Access to files in some monad. Files below a directory are given by the components of their
paths from there. -/
structure FileStore (m : Type → Type) where
  isDirectory : String → m Bool
  filesBelow : String → m (List (List String))
  read : String → m (Except ReadFailure (List UInt8))

def pathLe : List String → List String → Bool
  | [], _ => true
  | _ :: _, [] => false
  | left :: lefts, right :: rights =>
    if left = right then pathLe lefts rights else decide (left < right)

/-- Whether a file name ends in `.php` after something else. -/
def isScript (name : String) : Bool :=
  ".php".toList.isSuffixOf name.toList && name != ".php"

def joinPath (directory : String) (components : List String) : String :=
  let relative := String.intercalate "/" components
  if directory.toList.getLast? = some '/' then directory ++ relative
  else directory ++ "/" ++ relative

/-- Whether the directory that a file stands in can be looked into. The path of the file itself
may be too long to read it. -/
def isListed (directory : String) (components : List String) : Bool :=
  match components.dropLast with
  | [] => true
  | parents => pathFits (joinPath directory parents)

def scriptsBelow (directory : String) (files : List (List String)) : List String :=
  ((files.filter fun components =>
      components.getLast?.any isScript && isListed directory components).mergeSort pathLe).map
    (joinPath directory)

section
variable {m : Type → Type} [Monad m]

/-- A directory stands for the scripts below it, any other path for itself. -/
def expand (store : FileStore m) (path : String) : m (List String) := do
  if ← store.isDirectory path then
    let files ← store.filesBelow path
    pure (scriptsBelow path files)
  else pure [path]

def expandAll (store : FileStore m) : List String → m (List String)
  | [] => pure []
  | path :: paths => do
    let files ← expand store path
    let others ← expandAll store paths
    pure (files ++ others)

def readAll (store : FileStore m) :
    List String → m (Except (String × ReadFailure) (List (String × List UInt8)))
  | [] => pure (.ok [])
  | path :: paths => do
    match ← store.read path with
    | .error failure => pure (.error (path, failure))
    | .ok source =>
      match ← readAll store paths with
      | .error failure => pure (.error failure)
      | .ok sources => pure (.ok ((path, source) :: sources))

end

end CommandLine
end PhpTree
