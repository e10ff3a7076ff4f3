/-! # Compound assignment operators

The operators that combine and assign in one step, such as `+=`. -/
set_option autoImplicit false
namespace PhpTree

inductive AssignOp where
  | bitwiseAnd
  | bitwiseOr
  | bitwiseXor
  | coalesce
  | concat
  | div
  | minus
  | mod
  | mul
  | plus
  | pow
  | shiftLeft
  | shiftRight
deriving DecidableEq

namespace AssignOp

def all : List AssignOp :=
  [.bitwiseAnd, .bitwiseOr, .bitwiseXor, .coalesce, .concat, .div, .minus, .mod, .mul, .plus,
    .pow, .shiftLeft, .shiftRight]

def name : AssignOp → String
  | .bitwiseAnd => "BitwiseAnd"
  | .bitwiseOr => "BitwiseOr"
  | .bitwiseXor => "BitwiseXor"
  | .coalesce => "Coalesce"
  | .concat => "Concat"
  | .div => "Div"
  | .minus => "Minus"
  | .mod => "Mod"
  | .mul => "Mul"
  | .plus => "Plus"
  | .pow => "Pow"
  | .shiftLeft => "ShiftLeft"
  | .shiftRight => "ShiftRight"

def ofName? (text : String) : Option AssignOp := all.find? fun op => op.name == text

def label (op : AssignOp) : String := "Assign" ++ op.name

def symbol : AssignOp → String
  | .bitwiseAnd => "&="
  | .bitwiseOr => "|="
  | .bitwiseXor => "^="
  | .coalesce => "??="
  | .concat => ".="
  | .div => "/="
  | .minus => "-="
  | .mod => "%="
  | .mul => "*="
  | .plus => "+="
  | .pow => "**="
  | .shiftLeft => "<<="
  | .shiftRight => ">>="

end AssignOp
end PhpTree
