import PhpTree.CommandLine.FileStore

/-! # Files in memory

A tree of directories and files, and the rules by which a path leads through it. -/
set_option autoImplicit false
namespace PhpTree
namespace CommandLine

inductive FileTree where
  | file (bytes : List UInt8)
  | directory (entries : List (String × FileTree))

namespace FileTree

def empty : FileTree := .directory []

def isDirectory : FileTree → Bool
  | .file _ => false
  | .directory _ => true

def entries : FileTree → List (String × FileTree)
  | .file _ => []
  | .directory entries => entries

def setEntry (name : String) (entry : FileTree) : List (String × FileTree) →
    List (String × FileTree)
  | [] => [(name, entry)]
  | (other, kept) :: rest =>
    if other = name then (name, entry) :: rest else (other, kept) :: setEntry name entry rest

def insert (entry : FileTree) : List String → FileTree → FileTree
  | [], _ => entry
  | name :: path, tree =>
    .directory (setEntry name (insert entry path ((tree.entries.lookup name).getD empty))
      tree.entries)

/-- A directory that is already there stays as it is. -/
def insertDirectory : List String → FileTree → FileTree
  | [], tree => if tree.isDirectory then tree else empty
  | name :: path, tree =>
    .directory (setEntry name (insertDirectory path ((tree.entries.lookup name).getD empty))
      tree.entries)

def step (place : List String) (component : String) : List String :=
  if component = "" || component = "." then place
  else if component = ".." then place.dropLast
  else place ++ [component]

def makeDirectories (components : List String) (tree : FileTree) : List String × FileTree :=
  components.foldl (fun reached component =>
    let place := step reached.1 component
    (place, insertDirectory place reached.2)) ([], tree)

def addDirectory (path : String) (tree : FileTree) : FileTree :=
  (makeDirectories (path.splitOn "/") tree).2

def addFile (path : String) (bytes : List UInt8) (tree : FileTree) : FileTree :=
  let components := path.splitOn "/"
  let (place, made) := makeDirectories components.dropLast tree
  insert (.file bytes) (place ++ components.getLast?.toList) made

/-- Follows components from a directory whose parents are `parents`, nearest first. Nothing lies
below a file, not even the file itself after a slash. What lies above the root is taken for an
empty directory. -/
def follow : List String → (here : FileTree) → (parents : List FileTree) →
    Except ReadFailure FileTree
  | [], here, _ => .ok here
  | component :: path, here, parents =>
    match here with
    | .file _ => .error .notDirectory
    | .directory entries =>
      if component = "" || component = "." then follow path here parents
      else if component = ".." then
        match parents with
        | parent :: others => follow path parent others
        | [] => follow path empty []
      else if !nameFits component then .error .nameTooLong
      else
        match entries.lookup component with
        | some entry => follow path entry (here :: parents)
        | none => .error .notFound

/-- What a path leads to. An absolute one starts above the root. -/
def resolve (tree : FileTree) (path : String) : Except ReadFailure FileTree :=
  if !pathFits path then .error .nameTooLong
  else if path.toList.head? = some '/' then follow (path.splitOn "/") empty []
  else follow (path.splitOn "/") tree []

mutual

def files : FileTree → List (List String)
  | .file _ => [[]]
  | .directory entries => filesOfEntries entries

def filesOfEntries : List (String × FileTree) → List (List String)
  | [] => []
  | (name, entry) :: rest => (files entry).map (name :: ·) ++ filesOfEntries rest

end

def store (tree : FileTree) : FileStore Id where
  isDirectory path :=
    match tree.resolve path with
    | .ok entry => entry.isDirectory
    | .error _ => false
  filesBelow path :=
    match tree.resolve path with
    | .ok entry => entry.files
    | .error _ => []
  read path :=
    match tree.resolve path with
    | .ok (.file bytes) => .ok bytes
    | .ok (.directory _) => .error (.other "Is a directory (os error 21)")
    | .error failure => .error failure

end FileTree
end CommandLine
end PhpTree
