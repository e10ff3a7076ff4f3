import PhpTree.Json.Basic
import PhpTree.Tree.Build

/-! # Trees as JSON

A node becomes an object: its kind, what it carries, then its fields in the order
they are written down.  Absent attributes and positions are left out; an absent
child is `null`. -/
set_option autoImplicit false
namespace PhpTree

def Position.toJson (position : Position) : Json :=
  .object [("startLine", .number position.startLine), ("endLine", .number position.endLine),
    ("startPos", .number position.startOffset), ("endPos", .number position.endOffset)]

def positionMember (position : Option Position) : List (String × Json) :=
  match position with
  | some position => [("position", position.toJson)]
  | none => []

def Comment.toJson (comment : Comment) : Json :=
  .object (("value", .string comment.value) :: positionMember comment.position)

def AttributeValue.toJson : AttributeValue → Json
  | .flag isSet => .bool isSet
  | .text value => .string value
  | .comments list => .array (list.map Comment.toJson)

def Attributes.toJson (attributes : Attributes) : Json :=
  .object (attributes.entries.map fun entry => (entry.1, entry.2.toJson))

def attributesMember (attributes : Attributes) : List (String × Json) :=
  if attributes.isEmpty then [] else [("attributes", attributes.toJson)]

namespace Field

def toJson : Field (Unit → Json) → Json
  | .single (some child) => child ()
  | .single none => .null
  | .list children => .array (children.map fun child => child ())

end Field

namespace Node

/-- The members that no child stands in: the operator of a compound assignment, the text of a
leaf. -/
def ownMembers (node : Node) : List (String × Json) :=
  (match node.form.compoundOp? with
    | some op => [("op", .string op.name)]
    | none => []) ++
  (match node.text? with
    | some text => [("value", .string text)]
    | none => [])

def jsonStep (node : Node) (children : Form (Unit → Json)) : Json :=
  .object (("kind", .string node.kindName) :: (attributesMember node.attributes ++
    positionMember node.position ++ ownMembers node ++
    children.fields.map fun field => (field.1.name, field.2.toJson)))

def toJson : Node → Json := fold jsonStep

def jsonText (node : Node) : String := node.toJson.pretty

end Node
end PhpTree
