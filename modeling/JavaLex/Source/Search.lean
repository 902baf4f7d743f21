import JavaLex.Source.Basic

/-! Moving through a source: one byte or character at a time, or in one leap to the next byte of
interest. Leaps stay inside the text: where nothing is found they end at its last offset. -/

namespace JavaLex.Source

/-- The first offset of the text, from `p` on, at which `good` holds. -/
def seek? (s : Source) (good : Nat → Bool) (p : Nat) : Option Nat :=
  if p < s.len then
    if good p then some p else s.seek? good (p + 1)
  else none
termination_by s.len - p

theorem seek?_bounds {s : Source} {good : Nat → Bool} {p q : Nat} (h : s.seek? good p = some q) :
    p ≤ q ∧ q < s.len := by
  fun_induction seek? s good p with
  | case1 p hp hg => exact ⟨Nat.le_of_eq (Option.some.inj h), Option.some.inj h ▸ hp⟩
  | case2 p hp hg ih => exact ⟨Nat.le_of_succ_le (ih h).1, (ih h).2⟩
  | case3 p hp => exact absurd h (by simp)

/-- The first byte from `p` on that `stops` accepts, or the end of the text. -/
def leap (s : Source) (stops : UInt8 → Bool) (p : Nat) : Nat :=
  (s.seek? (fun q => stops (s.byte q)) p).getD s.len

/-- The offset of the next line feed or carriage return. -/
def lineEnd (s : Source) (p : Nat) : Nat := s.leap Byte.isLineEnd p

/-- The bytes that matter inside a literal in `quote`s: the quote, a backslash, a line end. -/
def quoteStop (quote b : UInt8) : Bool := b == quote || b == Byte.backslash || Byte.isLineEnd b

def textBlockStop (b : UInt8) : Bool := b == Byte.doubleQuote || b == Byte.backslash

/-- The offset behind the first comment close of the text from `p` on. -/
def commentClose? (s : Source) (p : Nat) : Option Nat :=
  (s.seek? (fun q => s.byte q == Byte.star && s.byte (q + 1) == Byte.slash) p).map (· + 2)

/-- The offset behind the first comment close from `p` on, tried at one star after the other. -/
def closeFrom (s : Source) (p : Nat) : Except Fault (Option Nat) :=
  match h : s.seek? (fun q => s.byte q == Byte.star) p with
  | none => pure none
  | some q => do
    if (← s.read (q + 1)) == Byte.slash then pure (some (q + 2)) else s.closeFrom (q + 1)
termination_by s.len - p
decreasing_by
  have := seek?_bounds h
  omega

/-- The first offset from `p` on whose byte `accepts` refuses. -/
def skipWhile (s : Source) (accepts : UInt8 → Bool) (p : Nat) : Except Fault Nat :=
  if p < s.size then
    if accepts (s.byte p) then
      if p < maxOffset then s.skipWhile accepts (p + 1) else .error .addOverflow
    else .ok p
  else .error (.outOfBounds s.size p)
termination_by s.size - p

/-- Past the byte at `p` if `accepts` takes it. -/
def skipIf (s : Source) (accepts : UInt8 → Bool) (p : Nat) : Except Fault Nat := do
  pure (if accepts (← s.read p) then p + 1 else p)

def skipChar (s : Source) (p : Nat) : Except Fault Nat := do
  checkedAdd p (Byte.charWidth (← s.read p))

/-- The character at `p`, none at the end of the text or between the bytes of a character. -/
def charAt (s : Source) (p : Nat) : Except Fault (Option Char) := do
  let _ ← s.read p
  pure (s.char? p)

/-- The character that is decoded from `p` on: its first byte tells how many bytes it takes, and
these have to spell a text. -/
def decodeAt (s : Source) (p : Nat) : Except Fault (Option Char) := do
  if ← s.atEnd p then pure none
  else
    let stop := p + Byte.charWidth (← s.read p)
    let bytes := s.text.toByteArray.extract p (min stop s.len)
    pure ((String.fromUTF8? bytes).bind String.front?)

end JavaLex.Source
