import PhpTree.Source.Position

/-! # Attributes

What a node carries besides its children: flags, the doc comment that describes it
and the comments that stand before it.  A flag is absent on nodes that cannot have
it, so an absent flag and a false one are different. -/
set_option autoImplicit false
namespace PhpTree

structure Comment where
  value : String
  position : Option Position := none
deriving DecidableEq

/-- Doc comments open with two stars; the empty block comment does not. -/
def Comment.isDoc (comment : Comment) : Bool :=
  "/**".toList.isPrefixOf comment.value.toList && comment.value != "/**/"

inductive Flag where
  | byRef
  | variadic
  | static
  | returnsRef
deriving DecidableEq

namespace Flag

def all : List Flag := [.byRef, .variadic, .static, .returnsRef]

def name : Flag → String
  | .byRef => "byRef"
  | .variadic => "variadic"
  | .static => "static"
  | .returnsRef => "returnsRef"

def ofName? (text : String) : Option Flag := all.find? fun flag => flag.name == text

end Flag

structure Attributes where
  byRef : Option Bool := none
  variadic : Option Bool := none
  static : Option Bool := none
  returnsRef : Option Bool := none
  docComment : Option String := none
  comments : List Comment := []
deriving DecidableEq

inductive AttributeValue where
  | flag (isSet : Bool)
  | text (value : String)
  | comments (list : List Comment)
deriving DecidableEq

def AttributeValue.flag? : AttributeValue → Option Bool
  | .flag isSet => some isSet
  | _ => none

namespace Attributes

def flag? (attributes : Attributes) : Flag → Option Bool
  | .byRef => attributes.byRef
  | .variadic => attributes.variadic
  | .static => attributes.static
  | .returnsRef => attributes.returnsRef

def setFlag (attributes : Attributes) (flag : Flag) (value : Option Bool) : Attributes :=
  match flag with
  | .byRef => { attributes with byRef := value }
  | .variadic => { attributes with variadic := value }
  | .static => { attributes with static := value }
  | .returnsRef => { attributes with returnsRef := value }

/-- An empty list of comments counts as absent. -/
def comments? (attributes : Attributes) : Option (List Comment) :=
  if attributes.comments.isEmpty then none else some attributes.comments

def slots (attributes : Attributes) : List (String × Option AttributeValue) :=
  Flag.all.map (fun flag => (flag.name, (attributes.flag? flag).map .flag)) ++
    [("phpDocComment", attributes.docComment.map .text),
      ("comments", attributes.comments?.map .comments)]

def entries (attributes : Attributes) : List (String × AttributeValue) :=
  attributes.slots.filterMap fun slot => slot.2.map fun value => (slot.1, value)

def get? (attributes : Attributes) (key : String) : Option AttributeValue :=
  attributes.entries.lookup key

def size (attributes : Attributes) : Nat := attributes.entries.length

def isEmpty (attributes : Attributes) : Bool := attributes.entries.isEmpty

def pushComment (attributes : Attributes) (comment : Comment) : Attributes :=
  { attributes with comments := attributes.comments ++ [comment] }

/-- Comments in front of a node go before those attached to it earlier. -/
def prependComments (attributes : Attributes) (comments : List Comment) : Attributes :=
  { attributes with comments := comments ++ attributes.comments }

/-- Keeps the doc comment there is when no new one is given. -/
def withDocComment (attributes : Attributes) (doc : Option String) : Attributes :=
  match doc with
  | some text => { attributes with docComment := some text }
  | none => attributes

end Attributes
end PhpTree
