import JavaLex.Lexeme.Tag
import JavaLex.Source.Search

/-! Fixed texts decided on byte by byte. An operator or a separator takes bytes along until the next
one fits no text. -/

namespace JavaLex.Source

/-- A tag for the byte at `p`, which is then taken along, or the tag without it. -/
def chooseAt (s : Source) (plain : Tag) (choices : List (UInt8 × Tag)) (p : Nat) :
    Except Fault (Tag × Nat) := do
  match choices.lookup (← s.read p) with
  | some tag => pure (tag, p + 1)
  | none => pure (plain, p)

def lessAt (s : Source) (p : Nat) : Except Fault (Tag × Nat) := do
  let b ← s.read p
  if b == 61 then pure (.operator .lessEqual, p + 1)
  else if b == 60 then
    s.chooseAt (.operator .shiftLeft) [(61, .operator .shiftLeftEqual)] (p + 1)
  else pure (.operator .less, p)

def greaterAt (s : Source) (p : Nat) : Except Fault (Tag × Nat) := do
  let b ← s.read p
  if b == 61 then pure (.operator .greaterEqual, p + 1)
  else if b == 62 then
    let c ← s.read (p + 1)
    if c == 61 then pure (.operator .shiftRightEqual, p + 2)
    else if c == 62 then
      s.chooseAt (.operator .unsignedShiftRight) [(61, .operator .unsignedShiftRightEqual)] (p + 2)
    else pure (.operator .shiftRight, p + 1)
  else pure (.operator .greater, p)

/-- Behind a dot. Two dots are no lexeme, so both bytes have to be looked at. -/
def dotsAt (s : Source) (p : Nat) : Except Fault (Tag × Nat) := do
  if (← s.read p) == Byte.dot then
    if (← s.read (p + 1)) == Byte.dot then pure (.separator .ellipsis, p + 2)
    else pure (.separator .dot, p)
  else pure (.separator .dot, p)

/-- The bytes that one byte more decides on, with the tag without it and the tags with it. -/
def forks : List (UInt8 × Tag × List (UInt8 × Tag)) :=
  [(43, .operator .plus, [(43, .operator .plusPlus), (61, .operator .plusEqual)]),
   (45, .operator .minus,
    [(45, .operator .minusMinus), (62, .operator .arrow), (61, .operator .minusEqual)]),
   (42, .operator .star, [(61, .operator .starEqual)]),
   (47, .operator .slash, [(61, .operator .slashEqual)]),
   (37, .operator .percent, [(61, .operator .percentEqual)]),
   (94, .operator .caret, [(61, .operator .caretEqual)]),
   (38, .operator .ampersand,
    [(38, .operator .ampersandAmpersand), (61, .operator .ampersandEqual)]),
   (124, .operator .pipe, [(124, .operator .pipePipe), (61, .operator .pipeEqual)]),
   (33, .operator .bang, [(61, .operator .bangEqual)]),
   (61, .operator .equal, [(61, .operator .equalEqual)]),
   (58, .operator .colon, [(58, .separator .doubleColon)]),
   (126, .operator .tilde, []), (63, .operator .question, []),
   (40, .separator .leftParen, []), (41, .separator .rightParen, []),
   (91, .separator .leftBracket, []), (93, .separator .rightBracket, []),
   (123, .separator .leftBrace, []), (125, .separator .rightBrace, []),
   (44, .separator .comma, []), (59, .separator .semicolon, []), (64, .separator .atSign, [])]

/-- The operator or separator at `p`, decided on byte by byte, else one invalid character. -/
def decidedAt (s : Source) (p : Nat) : Except Fault (Tag × Nat) := do
  let b ← s.read p
  if b == 60 then s.lessAt (p + 1)
  else if b == 62 then s.greaterAt (p + 1)
  else if b == Byte.dot then s.dotsAt (p + 1)
  else
    match forks.lookup b with
    | some (plain, choices) => s.chooseAt plain choices (p + 1)
    | none => pure (.invalidChar, p + 1)

end JavaLex.Source
