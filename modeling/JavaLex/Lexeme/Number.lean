import JavaLex.Source.Search
import JavaLex.Lexeme.Tag

/-! The extent of number lexemes. The scanner takes all that looks like a number, well formed or
not: digits and underscores, a fraction, an exponent, a type suffix. -/

namespace JavaLex.Source

def isDecimalPart (b : UInt8) : Bool := Byte.isDigit b || b == Byte.underscore

def isHexPart (b : UInt8) : Bool := Byte.isHexDigit b || b == Byte.underscore

def isBinaryPart (b : UInt8) : Bool := Byte.isBinaryDigit b || b == Byte.underscore

def isLongSuffix (b : UInt8) : Bool := Byte.isEither 108 b

/-- `f`, `F`, `d` or `D`. -/
def isFloatSuffix (b : UInt8) : Bool := Byte.isEither 102 b || Byte.isEither 100 b

/-- `e` or `E`. -/
def isDecimalMark (b : UInt8) : Bool := Byte.isEither 101 b

def isBinaryMark (b : UInt8) : Bool := Byte.isEither 112 b

def isSign (b : UInt8) : Bool := b == 43 || b == 45

def skipFraction (s : Source) (digits : UInt8 → Bool) (p : Nat) : Except Fault Nat := do
  if (← s.read p) == Byte.dot then s.skipWhile digits (p + 1) else pure p

def skipExponent (s : Source) (mark : UInt8 → Bool) (p : Nat) : Except Fault Nat := do
  if mark (← s.read p) then
    s.skipWhile isDecimalPart (← s.skipIf isSign (p + 1))
  else pure p

/-- What follows the whole part of a decimal number that ends at `p`. The number is a float if
it has a fraction, an exponent or a float suffix. -/
def decimalTail (s : Source) (p : Nat) : Except Fault (NumberForm × Nat) := do
  let q ← s.skipExponent isDecimalMark (← s.skipFraction isDecimalPart p)
  let b ← s.read q
  if isFloatSuffix b then pure (.float, q + 1)
  else if q ≠ p then pure (.float, q)
  else if isLongSuffix b then pure (.int, q + 1)
  else pure (.int, q)

/-- The digits of a hexadecimal number from `p` on, behind its prefix. -/
def hexTail (s : Source) (p : Nat) : Except Fault (NumberForm × Nat) := do
  let digits ← s.skipWhile isHexPart p
  let q ← s.skipExponent isBinaryMark (← s.skipFraction isHexPart digits)
  if q = digits then pure (.hexInt, ← s.skipIf isLongSuffix q)
  else pure (.hexFloat, ← s.skipIf isFloatSuffix q)

def binaryTail (s : Source) (p : Nat) : Except Fault (NumberForm × Nat) := do
  pure (.binInt, ← s.skipIf isLongSuffix (← s.skipWhile isBinaryPart p))

def number (s : Source) (p : Nat) : Except Fault (NumberForm × Nat) := do
  let first ← s.read p
  let second ← s.read (p + 1)
  if first == Byte.zero && Byte.isEither 120 second then s.hexTail (p + 2)
  else if first == Byte.zero && Byte.isEither 98 second then s.binaryTail (p + 2)
  else s.decimalTail (← s.skipWhile isDecimalPart (p + 1))

end JavaLex.Source
