/-! # Places in a source

Byte offsets, the spans between them, and the lines they lie on. -/
set_option autoImplicit false
namespace PhpTree

/-! ## Byte spans

A span is a half-open range of byte offsets into a source.  Spans may come from
outside, so nothing forces `start ≤ stop`: the operations that need it answer
with an option. -/

/-- The bytes from `start` up to and not including `stop`. -/
structure Span where
  start : Nat := 0
  stop : Nat := 0
deriving DecidableEq

namespace Span

def length? (span : Span) : Option Nat :=
  if span.start ≤ span.stop then some (span.stop - span.start) else none

def isEmpty (span : Span) : Bool := span.start == span.stop

def join (left right : Span) : Span :=
  ⟨min left.start right.start, max left.stop right.stop⟩

/-- The covered bytes, when the span runs forwards and lies inside the source. -/
def slice? (span : Span) (source : List UInt8) : Option (List UInt8) :=
  if span.start ≤ span.stop ∧ span.stop ≤ source.length then
    some ((source.drop span.start).take (span.stop - span.start))
  else none

def clamp (span : Span) (length : Nat) : Span :=
  ⟨min span.start length, min span.stop length⟩

/-- The covered bytes after clamping; only a span that still runs backwards has none. -/
def clampedSlice? (span : Span) (source : List UInt8) : Option (List UInt8) :=
  (span.clamp source.length).slice? source

end Span

/-! ## Positions

Where something stands in a source: the lines it begins and ends on, counted
from one, and its byte offsets, counted from zero with the end left out. -/

structure Position where
  startLine : Nat := 0
  endLine : Nat := 0
  startOffset : Nat := 0
  endOffset : Nat := 0
deriving DecidableEq

namespace Position

/-- A cursor right after the last byte still counts as inside. -/
def contains (position : Position) (offset : Nat) : Bool :=
  position.startOffset ≤ offset && offset ≤ position.endOffset

def length? (position : Position) : Option Nat :=
  if position.startOffset ≤ position.endOffset then
    some (position.endOffset - position.startOffset)
  else none

def isEmpty (position : Position) : Bool := position.startOffset == position.endOffset

def through (first last : Position) : Position where
  startLine := first.startLine
  endLine := last.endLine
  startOffset := first.startOffset
  endOffset := last.endOffset

def display (position : Position) : String :=
  Nat.repr position.startLine ++ ":" ++ Nat.repr position.startOffset ++ "-" ++
    Nat.repr position.endLine ++ ":" ++ Nat.repr position.endOffset

end Position

/-! ## Line lookup

The offsets at which lines begin, collected once per source, and the lookup of
the line that holds an offset by halving the sorted table. -/

def lineFeed : UInt8 := 10

def startsAfterFeeds (offset : Nat) : List UInt8 → List Nat
  | [] => []
  | byte :: rest =>
    if byte == lineFeed then (offset + 1) :: startsAfterFeeds (offset + 1) rest
    else startsAfterFeeds (offset + 1) rest

/-- Line starts in increasing order; the first is always zero. -/
structure LineIndex where
  starts : Array Nat

namespace LineIndex

def ofSource (source : List UInt8) : LineIndex :=
  ⟨(0 :: startsAfterFeeds 0 source).toArray⟩

def lineCount (index : LineIndex) : Nat := index.starts.size

/-- First place in `[low, high)` whose start lies beyond `offset`, or `high`.  Each step halves
the range, so `high - low` steps are more than enough. -/
def search (starts : Array Nat) (offset : Nat) : (steps low high : Nat) → Nat
  | 0, low, _ => low
  | steps + 1, low, high =>
    if low < high then
      let middle := (low + high) / 2
      if starts.getD middle 0 ≤ offset then search starts offset steps (middle + 1) high
      else search starts offset steps low middle
    else low

/-- The line that holds `offset`, counted from one: the number of lines that begin at or before
it. Offsets beyond the source belong to the last line. -/
def line (index : LineIndex) (offset : Nat) : Nat :=
  search index.starts offset index.starts.size 0 index.starts.size

/-- The last covered byte decides the end line, not the offset after it. -/
def position (index : LineIndex) (span : Span) : Position where
  startLine := index.line span.start
  endLine := if span.start < span.stop then index.line (span.stop - 1) else index.line span.start
  startOffset := span.start
  endOffset := span.stop

end LineIndex
end PhpTree
