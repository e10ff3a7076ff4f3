/-! # Bytes

Sources are bytes.  The scanner sorts them into classes; what a token shows is text. -/
set_option autoImplicit false
namespace PhpTree

/-! ## Byte classes

Every byte from 0x80 up counts as a letter, so names
in any encoding that extends ASCII stay whole. -/

def byteOf (character : Char) : UInt8 := character.toUInt8

def bytesOf (text : String) : List UInt8 := text.toList.map byteOf

namespace Byte

def isBetween (low high : Char) (byte : UInt8) : Bool := byteOf low ≤ byte && byte ≤ byteOf high

def isDigit (byte : UInt8) : Bool := isBetween '0' '9' byte

def isLetter (byte : UInt8) : Bool := isBetween 'a' 'z' byte || isBetween 'A' 'Z' byte

def isHexDigit (byte : UInt8) : Bool :=
  isDigit byte || isBetween 'a' 'f' byte || isBetween 'A' 'F' byte

def isBinaryDigit (byte : UInt8) : Bool := isBetween '0' '1' byte

def isOctalDigit (byte : UInt8) : Bool := isBetween '0' '7' byte

/-- Space, tab, line feed, form feed and carriage return. -/
def isBlank (byte : UInt8) : Bool :=
  byte == 32 || byte == 9 || byte == 10 || byte == 12 || byte == 13

def isNameStart (byte : UInt8) : Bool := isLetter byte || byte == byteOf '_' || 0x80 ≤ byte

def isNamePart (byte : UInt8) : Bool := isNameStart byte || isDigit byte

def isQuote (byte : UInt8) : Bool :=
  byte == byteOf '\x27' || byte == byteOf '"' || byte == byteOf '\x60'

def toLower (byte : UInt8) : UInt8 := if isBetween 'A' 'Z' byte then byte + 32 else byte

end Byte

/-! ## Reading bytes as text

Bytes are read as UTF-8.  Nothing is refused: where the bytes stop being the
beginning of a character, those read so far become one replacement character and
reading goes on with the byte that did not fit. -/

namespace Utf8

def replacement : Char := Char.ofNat 0xFFFD

/-- What the first byte of a character of several bytes says about the others: the range of the
second byte, how many follow that one, and the bits it contributes itself. -/
structure Lead where
  low : UInt8
  high : UInt8
  further : Nat
  bits : Nat

/-- The ranges of the second byte leave out overlong forms, surrogates and codes past the last. -/
def lead? (byte : UInt8) : Option Lead :=
  let code := byte.toNat
  if code < 0xC2 then none
  else if code ≤ 0xDF then some ⟨0x80, 0xBF, 0, code - 0xC0⟩
  else if code = 0xE0 then some ⟨0xA0, 0xBF, 1, 0⟩
  else if code = 0xED then some ⟨0x80, 0x9F, 1, 0xD⟩
  else if code ≤ 0xEF then some ⟨0x80, 0xBF, 1, code - 0xE0⟩
  else if code = 0xF0 then some ⟨0x90, 0xBF, 2, 0⟩
  else if code ≤ 0xF3 then some ⟨0x80, 0xBF, 2, code - 0xF0⟩
  else if code = 0xF4 then some ⟨0x80, 0x8F, 2, 4⟩
  else none

def isContinuation (byte : UInt8) : Bool := 0x80 ≤ byte && byte ≤ 0xBF

def extend (code : Nat) (byte : UInt8) : Nat := code * 64 + byte.toNat % 64

/-- Reads the bytes still owed to a character of which `taken` bytes after the first were read. -/
def finishCharacter : (owed code taken : Nat) → List UInt8 → Char × Nat
  | 0, code, taken, _ => (Char.ofNat code, taken)
  | _ + 1, _, taken, [] => (replacement, taken)
  | owed + 1, code, taken, byte :: rest =>
    if isContinuation byte then finishCharacter owed (extend code byte) (taken + 1) rest
    else (replacement, taken)

def character (first : UInt8) (rest : List UInt8) : Char × Nat :=
  if first < 0x80 then (Char.ofNat first.toNat, 0)
  else
    match lead? first, rest with
    | some lead, second :: rest =>
      if lead.low ≤ second && second ≤ lead.high then
        finishCharacter lead.further (extend lead.bits second) 1 rest
      else (replacement, 0)
    | _, _ => (replacement, 0)

/-- Reads on after `skip` bytes that belong to the last character of `done`, which holds the
characters read so far, newest first. -/
def decodeFrom : (skip : Nat) → List UInt8 → (done : List Char) → List Char
  | _, [], done => done.reverse
  | skip + 1, _ :: rest, done => decodeFrom skip rest done
  | 0, byte :: rest, done =>
    let next := character byte rest
    decodeFrom next.2 rest (next.1 :: done)

def decode (bytes : List UInt8) : String := String.ofList (decodeFrom 0 bytes [])

end Utf8
end PhpTree
