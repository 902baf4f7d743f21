/-! Text given by UTF-16 units. A surrogate without its partner becomes U+FFFD. -/

namespace JavaLex.Text

def replacement : Char := '\uFFFD'

def isHighSurrogate (unit : Nat) : Bool := decide (0xD800 ≤ unit) && decide (unit ≤ 0xDBFF)

def isLowSurrogate (unit : Nat) : Bool := decide (0xDC00 ≤ unit) && decide (unit ≤ 0xDFFF)

def surrogatePair (high low : Nat) : Char :=
  Char.ofNat (0x10000 + (high - 0xD800) * 0x400 + (low - 0xDC00))

/-- Text built from characters and units. A high surrogate waits for what follows it. -/
structure Utf16 where
  text : String := ""
  high : Option Nat := none

namespace Utf16

/-- Gives up on a high surrogate that still waits. -/
def flush (t : Utf16) : Utf16 :=
  match t.high with
  | none => t
  | some _ => ⟨t.text.push replacement, none⟩

def push (t : Utf16) (c : Char) : Utf16 := ⟨t.flush.text.push c, none⟩

/-- Appends a unit with nothing waiting before it. -/
def start (text : String) (unit : Nat) : Utf16 :=
  if isHighSurrogate unit then ⟨text, some unit⟩
  else if isLowSurrogate unit then ⟨text.push replacement, none⟩
  else ⟨text.push (Char.ofNat unit), none⟩

def pushUnit (t : Utf16) (unit : Nat) : Utf16 :=
  match t.high with
  | none => start t.text unit
  | some high =>
    if isLowSurrogate unit then ⟨t.text.push (surrogatePair high unit), none⟩
    else start t.flush.text unit

def finish (t : Utf16) : String := t.flush.text

end Utf16

end JavaLex.Text
