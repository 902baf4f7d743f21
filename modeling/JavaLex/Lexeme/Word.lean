import JavaLex.Source.Search
import JavaLex.Text.Alphabetic
import JavaLex.Text.Numeric

/-! Words: identifiers and reserved words alike. Outside ASCII a word starts with an alphabetic
character and goes on with alphabetic and numeric ones. -/

namespace JavaLex

def isWordStart (c : Char) : Bool := Text.isAlphabetic c

def isWordPart (c : Char) : Bool := Text.isAlphabetic c || Text.isNumeric c

namespace Source

/-- Bytes of the word character at `p`, zero where none stands. -/
def wordStep (s : Source) (p : Nat) : Nat :=
  let b := s.byte p
  if Byte.continuesWord b then 1
  else if Byte.isAscii b then 0
  else if (s.char? p).any isWordPart then Byte.charWidth b
  else 0

def skipWord (s : Source) (p : Nat) : Except Fault Nat :=
  if p < s.size then
    if 0 < s.wordStep p then s.skipWord (p + s.wordStep p) else .ok p
  else .error (.outOfBounds s.size p)
termination_by s.size - p

end Source

end JavaLex
