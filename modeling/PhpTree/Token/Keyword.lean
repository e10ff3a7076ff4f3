import PhpTree.Text.Bytes

/-! # Keywords

Words with a meaning of their own.  They are written in any mix of capitals and
small letters, and each of them may still serve as a name where only a name can
stand, such as after `->`. -/
set_option autoImplicit false
namespace PhpTree

inductive Keyword where
  | function
  | fn
  | «class»
  | interface
  | trait
  | «extends»
  | implements
  | «if»
  | «else»
  | «return»
  | echo
  | «while»
  | «for»
  | foreach
  | «try»
  | «catch»
  | «finally»
  | throw
  | «public»
  | «protected»
  | «private»
  | static
  | «abstract»
  | final
  | readonly
  | «namespace»
  | use
  | global
  | new
  | clone
  | instanceOf
  | const
deriving DecidableEq

namespace Keyword

def isModifier : Keyword → Bool
  | .public | .protected | .private | .static | .abstract | .final | .readonly => true
  | _ => false

def name : Keyword → String
  | .function => "Function"
  | .fn => "Fn"
  | .class => "Class"
  | .interface => "Interface"
  | .trait => "Trait"
  | .extends => "Extends"
  | .implements => "Implements"
  | .if => "If"
  | .else => "Else"
  | .return => "Return"
  | .echo => "Echo"
  | .while => "While"
  | .for => "For"
  | .foreach => "Foreach"
  | .try => "Try"
  | .catch => "Catch"
  | .finally => "Finally"
  | .throw => "Throw"
  | .public => "Public"
  | .protected => "Protected"
  | .private => "Private"
  | .static => "Static"
  | .abstract => "Abstract"
  | .final => "Final"
  | .readonly => "Readonly"
  | .namespace => "Namespace"
  | .use => "Use"
  | .global => "Global"
  | .new => "New"
  | .clone => "Clone"
  | .instanceOf => "InstanceOf"
  | .const => "Const"

/-- Every written form; `var` is an old word for `public`. -/
def spellings : List (String × Keyword) :=
  [("function", .function), ("fn", .fn), ("class", .class), ("interface", .interface),
    ("trait", .trait), ("extends", .extends), ("implements", .implements), ("if", .if),
    ("else", .else), ("return", .return), ("echo", .echo), ("while", .while), ("for", .for),
    ("foreach", .foreach), ("try", .try), ("catch", .catch), ("finally", .finally),
    ("throw", .throw), ("public", .public), ("protected", .protected), ("private", .private),
    ("static", .static), ("abstract", .abstract), ("final", .final), ("readonly", .readonly),
    ("namespace", .namespace), ("use", .use), ("global", .global), ("new", .new),
    ("clone", .clone), ("instanceof", .instanceOf), ("const", .const), ("var", .public)]

def table : List (List UInt8 × Keyword) := spellings.map fun entry => (bytesOf entry.1, entry.2)

/-- The keyword that a word spells, whatever its capitals. -/
def ofWord? (word : List UInt8) : Option Keyword := table.lookup (word.map Byte.toLower)

end Keyword
end PhpTree
