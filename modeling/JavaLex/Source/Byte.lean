namespace JavaLex.Byte

def lineFeed : UInt8 := 10
def carriageReturn : UInt8 := 13
/-- The control character SUB, which may end a text. -/
def substitute : UInt8 := 26
def doubleQuote : UInt8 := 34
def singleQuote : UInt8 := 39
def star : UInt8 := 42
def dot : UInt8 := 46
def slash : UInt8 := 47
def zero : UInt8 := 48
def backslash : UInt8 := 92
def underscore : UInt8 := 95

/-- Space, tab or form feed. -/
def isBlank (b : UInt8) : Bool := b == 32 || b == 9 || b == 12

def isLineEnd (b : UInt8) : Bool := b == lineFeed || b == carriageReturn

def isDigit (b : UInt8) : Bool := decide (48 ≤ b) && decide (b ≤ 57)

def isLetter (b : UInt8) : Bool :=
  decide (97 ≤ b) && decide (b ≤ 122) || decide (65 ≤ b) && decide (b ≤ 90)

def isHexDigit (b : UInt8) : Bool :=
  isDigit b || decide (97 ≤ b) && decide (b ≤ 102) || decide (65 ≤ b) && decide (b ≤ 70)

def isBinaryDigit (b : UInt8) : Bool := b == 48 || b == 49

/-- A byte of an ASCII character that starts a word: a letter, `_` or `$`. -/
def startsWord (b : UInt8) : Bool := isLetter b || b == underscore || b == 36

/-- A byte of an ASCII character that continues a word. -/
def continuesWord (b : UInt8) : Bool := startsWord b || isDigit b

def isAscii (b : UInt8) : Bool := decide (b < 128)

/-- Either case of a lower-case letter. -/
def isEither (lower b : UInt8) : Bool := b == lower || b == lower - 32

/-- Bytes of the character that starts with `b`, one where none can start. -/
def charWidth (b : UInt8) : Nat :=
  if b < 0xC0 then 1
  else if b < 0xE0 then 2
  else if b < 0xF0 then 3
  else if b < 0xF8 then 4
  else 1

theorem charWidth_pos (b : UInt8) : 0 < charWidth b := by
  unfold charWidth
  split
  · decide
  · split
    · decide
    · split
      · decide
      · split <;> decide

end JavaLex.Byte
