import JavaLex.Lexeme.Word
import JavaLex.Lexeme.Number
import JavaLex.Lexeme.Quoted

/-! Scanning: the text from any offset on is a row of lexemes, none empty. What fits no rule
becomes an error lexeme, so scanning goes on to the end of every text. -/

namespace JavaLex

structure Lexeme where
  tag : Tag
  len : Nat
  len_pos : 0 < len

/-- The lexeme between two offsets. -/
def Lexeme.spanning (tag : Tag) (start stop : Nat) : Except Fault Lexeme :=
  if h : start < stop then
    if stop ≤ maxOffset then .ok ⟨tag, stop - start, Nat.sub_pos_of_lt h⟩
    else .error .addOverflow
  else .error .subtractOverflow

/-- What the first byte of a lexeme leaves open. -/
inductive Opening where
  | null | blank | carriageReturn | lineFeed | substitute | word | digit | dot | slash
  | doubleQuote | singleQuote | wide
  /-- A fixed lexeme, or none. -/
  | other
  deriving DecidableEq

def Opening.ofByte (b : UInt8) : Opening :=
  if b == 0 then .null
  else if Byte.isBlank b then .blank
  else if b == Byte.carriageReturn then .carriageReturn
  else if b == Byte.lineFeed then .lineFeed
  else if b == Byte.substitute then .substitute
  else if Byte.startsWord b then .word
  else if Byte.isDigit b then .digit
  else if b == Byte.dot then .dot
  else if b == Byte.slash then .slash
  else if b == Byte.doubleQuote then .doubleQuote
  else if b == Byte.singleQuote then .singleQuote
  else if Byte.isAscii b then .other
  else .wide

namespace Source

/-- The longest operator or separator at `p`, else one invalid character. -/
def fixedAt (s : Source) (p : Nat) : Except Fault (Tag × Nat) := do
  match ← Tag.longestFirst.findM? fun entry => s.startsWith entry.1 p with
  | some (bytes, tag) => pure (tag, p + bytes.length)
  | none => pure (.invalidChar, p + 1)

def quotedAt (s : Source) (form : QuoteForm) (quote : UInt8) (p : Nat) :
    Except Fault (Tag × Nat) := do
  let extent ← s.quotedRest quote (← checkedAdd p 1)
  pure (if extent.closed then .quoted form else .unterminated form, extent.stop)

def textBlockAt (s : Source) (p : Nat) : Except Fault (Tag × Nat) := do
  let extent ← s.textBlockRest (← checkedAdd p 3)
  pure (if extent.closed then .quoted .textBlock else .unterminated .textBlock, extent.stop)

/-- The star that opens a comment never closes it. -/
def blockCommentAt (s : Source) (p : Nat) : Except Fault (Tag × Nat) := do
  let star := (← s.read (p + 2)) == Byte.star
  let doc ← if star then (· != Byte.slash) <$> s.read (p + 3) else pure false
  match ← s.closeFrom (p + 2) with
  | some stop => pure (.comment (if doc then .doc else .block), stop)
  | none => pure (.unterminatedComment, s.len)

def wordAt (s : Source) (p : Nat) : Except Fault (Tag × Nat) := do
  pure (.word, ← s.skipWord (p + 1))

/-- A word, or one invalid character, that starts outside ASCII. -/
def wideAt (s : Source) (p : Nat) : Except Fault (Tag × Nat) := do
  let next ← s.skipChar p
  if (← s.charAt p).any isWordStart then pure (.word, ← s.skipWord next)
  else pure (.invalidChar, next)

def numberAt (s : Source) (p : Nat) : Except Fault (Tag × Nat) := do
  let (form, stop) ← s.number p
  pure (.number form, stop)

/-- The tag and the end of the lexeme at `p`. -/
def rule (s : Source) (p : Nat) : Opening → Except Fault (Tag × Nat)
  | .null => pure (.interiorNull, p + 1)
  | .blank => do pure (.blank, ← s.skipWhile Byte.isBlank p)
  | .carriageReturn => do pure (.newline, ← s.skipIf (· == Byte.lineFeed) (p + 1))
  | .lineFeed => pure (.newline, p + 1)
  | .substitute => do pure (if ← s.atEnd (p + 1) then .blank else .invalidChar, p + 1)
  | .word => s.wordAt p
  | .digit => s.numberAt p
  | .dot => do
    if Byte.isDigit (← s.read (p + 1)) then
      let (form, stop) ← s.decimalTail p
      pure (.number form, stop)
    else s.fixedAt p
  | .slash => do
    let next ← s.read (p + 1)
    if next == Byte.slash then pure (.comment .line, s.lineEnd (p + 1))
    else if next == Byte.star then s.blockCommentAt p
    else s.fixedAt p
  | .doubleQuote => do
    if ← s.startsWith [Byte.doubleQuote, Byte.doubleQuote] (p + 1) then s.textBlockAt p
    else s.quotedAt .string Byte.doubleQuote p
  | .singleQuote => s.quotedAt .char Byte.singleQuote p
  | .wide => s.wideAt p
  | .other => s.fixedAt p

/-- The lexeme at `p`, none at the end of the text. -/
def scan (s : Source) (p : Nat) : Except Fault (Option Lexeme) := do
  if ← s.atEnd p then pure none
  else
    let (tag, stop) ← s.rule p (.ofByte (s.byte p))
    some <$> Lexeme.spanning tag p stop

def lexemes (s : Source) (p : Nat) : Except Fault (List Lexeme) :=
  if p < s.len then do
    match ← s.scan p with
    | none => pure []
    | some lexeme => (lexeme :: ·) <$> s.lexemes (p + lexeme.len)
  else pure []
termination_by s.len - p
decreasing_by
  have := lexeme.len_pos
  omega

end Source

end JavaLex
