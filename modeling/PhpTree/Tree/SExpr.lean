import PhpTree.Text.Quoted
import PhpTree.Tree.Locate

/-! # S-expressions

A tree written as nested, indented lists:

    (Assign
      :variable
        (Variable
          :varName
            (Identifier "$foo"))
      :expression
        (Lnumber "1"))

The writer is a visitor.  Its scope is the indentation of the slot it is in, its
state the text written so far, so several trees can be written one after another,
each on a new line. -/
set_option autoImplicit false
namespace PhpTree
namespace SExpr

structure Settings where
  positions : Bool := false
  comments : Bool := true
deriving DecidableEq

def newline (level : Nat) : String := String.ofList ('\n' :: List.replicate (2 * level) ' ')

def attributeText (settings : Settings) : String × AttributeValue → String
  | (key, .flag isSet) => " [" ++ key ++ "=" ++ (if isSet then "true" else "false") ++ "]"
  | (key, .text value) => " [" ++ key ++ "=" ++ Quoted.visible value ++ "]"
  | (_, .comments list) =>
    if settings.comments then
      String.join (list.map fun comment => " [comment=" ++ Quoted.visible comment.value ++ "]")
    else ""

def positionText (settings : Settings) (node : Node) : String :=
  match settings.positions, node.position with
  | true, some position => " @" ++ position.display
  | _, _ => ""

/-- What stands between the opening parenthesis and the first slot. -/
def header (settings : Settings) (node : Node) : String :=
  node.label ++
    (match node.text? with
      | some text => " " ++ Quoted.plain text
      | none => "") ++
    String.join (node.attributes.entries.map (attributeText settings)) ++
    positionText settings node

/-- The first node of all begins right away, every other one on a new line. -/
def formatter (settings : Settings) : Visitor Nat String where
  enter level node output :=
    let output := if output.isEmpty then output else output ++ newline level
    (true, output ++ "(" ++ header settings node)
  descend level slot output := (level + 2, output ++ newline (level + 1) ++ ":" ++ slot.name)
  leave _ _ output := output ++ ")"

def formatAll (settings : Settings) (nodes : List Node) : String :=
  nodes.foldl (fun output node => node.walk (formatter settings) 0 output) ""

def format (settings : Settings) (node : Node) : String := formatAll settings [node]

end SExpr
end PhpTree
