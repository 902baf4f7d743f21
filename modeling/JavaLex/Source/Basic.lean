import JavaLex.Fault
import JavaLex.Source.Byte

/-! Source text addressed by UTF-8 byte offsets. Behind the text stand zero bytes, at least one
and up to the next multiple of 64; a read past those is a fault. -/

namespace JavaLex

structure Source where
  text : String

namespace Source

def len (s : Source) : Nat := s.text.utf8ByteSize

def size (s : Source) : Nat := (s.len + 64) / 64 * 64

theorem len_lt_size (s : Source) : s.len < s.size := by
  unfold size
  omega

def byte (s : Source) (p : Nat) : UInt8 :=
  if h : p < s.len then s.text.getUTF8Byte ⟨p⟩ (String.Pos.Raw.lt_iff.mpr h) else 0

theorem byte_of_len_le {s : Source} {p : Nat} (h : s.len ≤ p) : s.byte p = 0 :=
  dif_neg (Nat.not_lt.mpr h)

theorem lt_len_of_byte_ne_zero {s : Source} {p : Nat} (h : s.byte p ≠ 0) : p < s.len :=
  Nat.lt_of_not_le fun hp => h (byte_of_len_le hp)

def read (s : Source) (p : Nat) : Except Fault UInt8 :=
  if p < s.size then .ok (s.byte p) else .error (.outOfBounds s.size p)

theorem read_eq_ok {s : Source} {p : Nat} (h : p < s.size) : s.read p = .ok (s.byte p) :=
  if_pos h

/-- A zero byte inside the text is not its end. -/
def atEnd (s : Source) (p : Nat) : Except Fault Bool := do
  let b ← s.read p
  pure (b == 0 && decide (s.len ≤ p))

/-- Whether the bytes from `p` on start with `expected`, read up to the first that differs. -/
def startsWith (s : Source) : List UInt8 → Nat → Except Fault Bool
  | [], _ => pure true
  | b :: rest, p => do
    if (← s.read p) == b then s.startsWith rest (p + 1) else pure false

/-- Whether `p` lies between two characters, or at either end of the text. -/
def IsBoundary (s : Source) (p : Nat) : Prop := String.Pos.Raw.IsValid s.text ⟨p⟩

instance (s : Source) (p : Nat) : Decidable (s.IsBoundary p) :=
  inferInstanceAs (Decidable (String.Pos.Raw.IsValid s.text ⟨p⟩))

/-- The text between two offsets, if they are boundaries in order. -/
def slice? (s : Source) (start stop : Nat) : Option String :=
  if h : s.IsBoundary start ∧ s.IsBoundary stop ∧ start ≤ stop then
    some (String.extract (s.text.pos ⟨start⟩ h.1) (s.text.pos ⟨stop⟩ h.2.1))
  else none

def slice (s : Source) (start stop : Nat) : String := (s.slice? start stop).getD ""

/-- The character of the text that starts at `p`. -/
def char? (s : Source) (p : Nat) : Option Char :=
  if h : s.IsBoundary p then (s.text.pos ⟨p⟩ h).get? else none

end Source

end JavaLex
