import JavaLex.Lexeme.Punctuation

namespace JavaLex

inductive NumberForm where
  | int | float | hexInt | hexFloat | binInt
  deriving DecidableEq

inductive QuoteForm where
  | string | textBlock | char
  deriving DecidableEq

inductive CommentForm where
  | line | block | doc
  deriving DecidableEq

inductive Tag where
  /-- An identifier or a reserved word. -/
  | word
  | number (form : NumberForm)
  | quoted (form : QuoteForm)
  | operator (op : Operator)
  | separator (sep : Separator)
  /-- Spaces, tabs and form feeds, or a final SUB. -/
  | blank
  | newline
  | comment (form : CommentForm)
  /-- One character that starts no lexeme. -/
  | invalidChar
  /-- A literal that its line or the text cuts off. -/
  | unterminated (form : QuoteForm)
  | unterminatedComment
  | interiorNull
  | endOfText
  deriving DecidableEq

namespace Tag

def text? : Tag → Option String
  | operator op => some op.text
  | separator sep => some sep.text
  | _ => none

def isTrivia : Tag → Bool
  | blank | newline | comment _ => true
  | _ => false

def isOperator : Tag → Bool
  | operator _ => true
  | _ => false

def isSeparator : Tag → Bool
  | separator _ => true
  | _ => false

def isError : Tag → Bool
  | invalidChar | unterminated _ | unterminatedComment | interiorNull => true
  | _ => false

/-- Codes are grouped: words and literals from 0, operators from 32, separators from 80, trivia
from 112, errors from 240. -/
def code : Tag → Nat
  | word => 0
  | number .int => 1
  | number .float => 2
  | number .hexInt => 3
  | number .hexFloat => 4
  | number .binInt => 5
  | quoted .string => 6
  | quoted .textBlock => 7
  | quoted .char => 8
  | operator op => 32 + op.ctorIdx
  | separator sep => 80 + sep.ctorIdx
  | blank => 112
  | newline => 113
  | comment .line => 114
  | comment .block => 115
  | comment .doc => 116
  | invalidChar => 240
  | unterminated .string => 241
  | unterminated .char => 242
  | unterminated .textBlock => 243
  | unterminatedComment => 244
  | interiorNull => 245
  | endOfText => 255

/-- Operators and separators. -/
def fixed : List Tag := Operator.all.map operator ++ Separator.all.map separator

def bytes (tag : Tag) : List UInt8 := (tag.text?.getD "").toList.map Char.toUInt8

/-- The fixed tags with their bytes, the longest first. -/
def longestFirst : List (List UInt8 × Tag) :=
  [4, 3, 2, 1].flatMap fun n =>
    (fixed.map fun tag => (tag.bytes, tag)).filter fun entry => entry.1.length == n

theorem mem_longestFirst (tag : Tag) (h : tag ∈ fixed) : (tag.bytes, tag) ∈ longestFirst := by
  revert tag
  decide +kernel

end Tag

end JavaLex
