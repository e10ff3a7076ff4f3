/-! # JSON values and their text

Values are written with two spaces of indentation per level, one element or member
to a line.  Writing takes the characters that follow the value, so nothing written
is ever copied again. -/
set_option autoImplicit false
namespace PhpTree

/-- Members of an object keep the order they were given in. -/
inductive Json where
  | null
  | bool (value : Bool)
  | number (value : Nat)
  | string (value : String)
  | array (items : List Json)
  | object (members : List (String × Json))

namespace Json

def controlDigits (code : Nat) : List Char := [Nat.digitChar (code / 16), Nat.digitChar (code % 16)]

/-- Quotes, backslashes and controls are escaped, all other characters stand for themselves. -/
def escape (character : Char) : List Char :=
  if character = '"' then ['\\', '"']
  else if character = '\\' then ['\\', '\\']
  else if character = '\n' then ['\\', 'n']
  else if character = '\r' then ['\\', 'r']
  else if character = '\t' then ['\\', 't']
  else if character.toNat = 8 then ['\\', 'b']
  else if character.toNat = 12 then ['\\', 'f']
  else if character.toNat < 32 then ['\\', 'u', '0', '0'] ++ controlDigits character.toNat
  else [character]

def writeString (text : String) (rest : List Char) : List Char :=
  '"' :: (text.toList.flatMap escape ++ '"' :: rest)

def newline (level : Nat) (rest : List Char) : List Char :=
  '\n' :: (List.replicate (2 * level) ' ' ++ rest)

mutual

def write (level : Nat) : Json → List Char → List Char
  | .null, rest => "null".toList ++ rest
  | .bool true, rest => "true".toList ++ rest
  | .bool false, rest => "false".toList ++ rest
  | .number value, rest => Nat.toDigits 10 value ++ rest
  | .string value, rest => writeString value rest
  | .array [], rest => '[' :: ']' :: rest
  | .array (item :: items), rest =>
    '[' :: newline (level + 1) (write (level + 1) item
      (writeItems (level + 1) items (newline level (']' :: rest))))
  | .object [], rest => '\x7b' :: '\x7d' :: rest
  | .object (member :: members), rest =>
    '\x7b' :: newline (level + 1) (writeMember (level + 1) member
      (writeMembers (level + 1) members (newline level ('\x7d' :: rest))))

/-- Writes the elements after the first. -/
def writeItems (level : Nat) : List Json → List Char → List Char
  | [], rest => rest
  | item :: items, rest =>
    ',' :: newline level (write level item (writeItems level items rest))

def writeMember (level : Nat) : String × Json → List Char → List Char
  | (key, value), rest => writeString key (':' :: ' ' :: write level value rest)

def writeMembers (level : Nat) : List (String × Json) → List Char → List Char
  | [], rest => rest
  | member :: members, rest =>
    ',' :: newline level (writeMember level member (writeMembers level members rest))

end

def pretty (json : Json) : String := String.ofList (write 0 json [])

end Json
end PhpTree
