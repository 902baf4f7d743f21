import JavaLex.Lexeme.Tag

namespace JavaLex.Numeral

inductive Flaw where
  | noHexDigits
  | noBinaryDigits
  | noExponentDigits
  | noBinaryExponent
  | badOctalDigit
  | misplacedUnderscore
  deriving DecidableEq

def Flaw.message : Flaw → String
  | noHexDigits => "hexadecimal literal has no digits"
  | noBinaryDigits => "binary literal has no digits"
  | noExponentDigits => "exponent has no digits"
  | noBinaryExponent => "hexadecimal float needs a binary exponent"
  | badOctalDigit => "invalid digit in octal literal"
  | misplacedUnderscore => "underscore must be between digits"

def isDigit (c : Char) : Bool := decide ('0' ≤ c) && decide (c ≤ '9')

def isHexDigit (c : Char) : Bool :=
  isDigit c || decide ('a' ≤ c) && decide (c ≤ 'f') || decide ('A' ≤ c) && decide (c ≤ 'F')

def isBinaryDigit (c : Char) : Bool := c == '0' || c == '1'

def isLongSuffix (c : Char) : Bool := c == 'l' || c == 'L'

def isFloatSuffix (c : Char) : Bool := c == 'f' || c == 'F' || c == 'd' || c == 'D'

def isDecimalMark (c : Char) : Bool := c == 'e' || c == 'E'

def isBinaryMark (c : Char) : Bool := c == 'p' || c == 'P'

/-- The text without its last character if that is a suffix. -/
def withoutSuffix (suffix : Char → Bool) (text : List Char) : List Char :=
  if text.getLast?.any suffix then text.dropLast else text

def withoutSign : List Char → List Char
  | '+' :: rest => rest
  | '-' :: rest => rest
  | text => text

def splitAtMark (mark : Char → Bool) (text : List Char) : Option (List Char × List Char) :=
  match text.dropWhile (!mark ·) with
  | [] => none
  | _ :: rest => some (text.takeWhile (!mark ·), rest)

/-- What is left behind the first `n` bytes, if they end between two characters. -/
def dropBytes? : Nat → List Char → Option (List Char)
  | 0, text => some text
  | _ + 1, [] => none
  | n + 1, c :: rest => if c.utf8Size ≤ n + 1 then dropBytes? (n + 1 - c.utf8Size) rest else none

/-- The text behind the two bytes of `0x` or `0b`. -/
def withoutPrefix (text : List Char) : List Char := (dropBytes? 2 text).getD []

/-- Whether each underscore has a digit or another underscore on both sides. `joined` says it
of the character before the text. -/
def underscoresJoined (digit : Char → Bool) : (joined : Bool) → List Char → Bool
  | _, [] => true
  | joined, c :: rest =>
    if c == '_' then
      joined && rest.head?.any (fun d => d == '_' || digit d) && underscoresJoined digit true rest
    else underscoresJoined digit (digit c) rest

def underscores (digit : Char → Bool) (text : List Char) : Option Flaw :=
  if underscoresJoined digit false text then none else some .misplacedUnderscore

def intFlaw (text : List Char) : Option Flaw :=
  let digits := withoutSuffix isLongSuffix text
  match digits with
  | '0' :: rest =>
    if rest.any (fun c => c == '8' || c == '9') then some .badOctalDigit
    else underscores isDigit digits
  | _ => underscores isDigit digits

def floatFlaw (text : List Char) : Option Flaw :=
  let body := withoutSuffix isFloatSuffix text
  match splitAtMark isDecimalMark body with
  | some (_, power) =>
    if (withoutSign power).any isDigit then underscores isDigit body else some .noExponentDigits
  | none => underscores isDigit body

def hexIntFlaw (text : List Char) : Option Flaw :=
  let digits := withoutSuffix isLongSuffix (withoutPrefix text)
  if digits.any isHexDigit then underscores isHexDigit digits else some .noHexDigits

def hexFloatFlaw (text : List Char) : Option Flaw :=
  let body := withoutPrefix text
  match splitAtMark isBinaryMark body with
  | none => if body.any isHexDigit then some .noBinaryExponent else some .noHexDigits
  | some (mantissa, power) =>
    let power := withoutSign (withoutSuffix isFloatSuffix power)
    if !mantissa.any isHexDigit then some .noHexDigits
    else if !power.any isDigit then some .noExponentDigits
    else (underscores isHexDigit mantissa).or (underscores isDigit power)

def binIntFlaw (text : List Char) : Option Flaw :=
  let digits := withoutSuffix isLongSuffix (withoutPrefix text)
  if digits.any isBinaryDigit then underscores isBinaryDigit digits else some .noBinaryDigits

def flaw? (form : NumberForm) (text : String) : Option Flaw :=
  match form with
  | .int => intFlaw text.toList
  | .float => floatFlaw text.toList
  | .hexInt => hexIntFlaw text.toList
  | .hexFloat => hexFloatFlaw text.toList
  | .binInt => binIntFlaw text.toList

end JavaLex.Numeral
