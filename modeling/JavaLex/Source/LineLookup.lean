import JavaLex.Source.Lines

/-! Lines gathered and looked up. The bytes that end lines are visited one after another, and the
line of an offset is found by halving. -/

namespace JavaLex

namespace Source

/-- Where bytes of line ends stand, from `p` on. -/
def lineEndBytes (s : Source) (p : Nat) : List Nat :=
  (List.range' p (s.len - p)).filter fun i => Byte.isLineEnd (s.byte i)

/-- The byte of the text at `p`. Those behind the text do not count. -/
def textByte (s : Source) (p : Nat) : Except Fault UInt8 :=
  if p < s.len then .ok (s.byte p) else .error (.outOfBounds s.len p)

/-- Where lines start behind the given bytes of line ends. A carriage return in front of a line feed
takes the next byte along, whatever line end this belongs to. -/
def startsBehind (s : Source) : List Nat → Except Fault (List Nat)
  | [] => pure []
  | p :: rest => do
    if (← s.textByte p) == Byte.carriageReturn && s.byte (p + 1) == Byte.lineFeed then
      (saturate (p + 2) :: ·) <$> s.startsBehind rest.tail
    else (saturate (p + 1) :: ·) <$> s.startsBehind rest
termination_by found => found.length
decreasing_by
  all_goals
    simp only [List.length_cons, List.length_tail]
    omega

def gatheredLines (s : Source) : Except Fault Lines := do
  pure ⟨← s.startsBehind (s.lineEndBytes 0), saturate s.len⟩

end Source

namespace Lines

/-- The first place from `lo` on and before `hi` where a row has passed an offset, or `hi`. -/
def passedAt (row : List Nat) (offset lo hi : Nat) : Except Fault Nat :=
  if lo < hi then do
    let mid := lo + (hi - lo) / 2
    if (← entryAt row mid) ≤ offset then passedAt row offset (mid + 1) hi
    else passedAt row offset lo mid
  else pure lo
termination_by hi - lo

/-- Line and column of an offset, the line found by halving. -/
def lookUp (index : Lines) (offset : Nat) : Except Fault (Nat × Nat) := do
  let offset := min offset index.len
  index.placeAt offset (← passedAt index.starts offset 0 index.starts.length)

end Lines

end JavaLex
