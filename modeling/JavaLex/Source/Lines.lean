import JavaLex.Source.Search

/-! Lines of a source. A line ends with a line feed, a carriage return, or both in this order. -/

namespace JavaLex

structure Lines where
  /-- Where the lines behind the first one start. -/
  later : List Nat
  len : Nat
  deriving DecidableEq

namespace Source

def skipLineEnd (s : Source) (p : Nat) : Nat :=
  if s.byte p == Byte.carriageReturn && s.byte (p + 1) == Byte.lineFeed then p + 2 else p + 1

theorem lt_skipLineEnd (s : Source) (p : Nat) : p < s.skipLineEnd p := by
  unfold skipLineEnd
  split <;> omega

/-- Where lines start, behind the line ends from `p` on. -/
def lineStarts (s : Source) (p : Nat) : List Nat :=
  if p < s.len then
    if Byte.isLineEnd (s.byte p) then s.skipLineEnd p :: s.lineStarts (s.skipLineEnd p)
    else s.lineStarts (p + 1)
  else []
termination_by s.len - p
decreasing_by
  · have := s.lt_skipLineEnd p
    omega
  · omega

def lines (s : Source) : Lines := ⟨s.lineStarts 0, s.len⟩

end Source

namespace Lines

/-- A final line end opens one more, empty, line. -/
def count (index : Lines) : Nat := index.later.length + 1

def starts (index : Lines) : List Nat := 0 :: index.later

/-- Line and column of an offset on the last of the first `count` lines, both counted from one. -/
def placeAt (index : Lines) (offset count : Nat) : Except Fault (Nat × Nat) := do
  let line ← checkedSub count 1
  let start ← entryAt index.starts line
  let column ← checkedSub offset start
  let line ← checkedAdd (saturate line) 1
  let column ← checkedAdd column 1
  pure (line, column)

/-- Line and column of an offset. Past the end, those of the end. -/
def lineCol (index : Lines) (offset : Nat) : Except Fault (Nat × Nat) :=
  let offset := min offset index.len
  index.placeAt offset (index.starts.takeWhile (· ≤ offset)).length

/-- Where a line, counted from one, starts. -/
def lineStart? (index : Lines) : Nat → Option Nat
  | 0 => none
  | line + 1 => (0 :: index.later)[line]?

end Lines

end JavaLex
