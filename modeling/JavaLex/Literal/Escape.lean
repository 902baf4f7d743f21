import JavaLex.Diagnostic
import JavaLex.Lexeme.Tag
import JavaLex.Text.Utf16

/-! The contents of quoted literals. A content is read as a row of pieces, each an ordinary
character or one escape; the value and the diagnostics come from the pieces. -/

namespace JavaLex.Escape

inductive Piece where
  /-- A character of the value, written as itself or by an escape. -/
  | char (c : Char)
  /-- A UTF-16 unit, written by a unicode escape. -/
  | unit (value : Nat)
  /-- A line end that a backslash takes away. -/
  | joinedLine
  /-- A unicode escape without its four digits. -/
  | malformedUnicode
  | invalid (c : Char)
  /-- A backslash with nothing behind it. -/
  | trailing
  deriving DecidableEq

def isOctalDigit (c : Char) : Bool := decide ('0' ≤ c) && decide (c ≤ '7')

def hexDigit? (c : Char) : Option Nat :=
  if '0' ≤ c ∧ c ≤ '9' then some (c.toNat - '0'.toNat)
  else if 'a' ≤ c ∧ c ≤ 'f' then some (c.toNat - 'a'.toNat + 10)
  else if 'A' ≤ c ∧ c ≤ 'F' then some (c.toNat - 'A'.toNat + 10)
  else none

def octalValue (digits : List Char) : Nat :=
  digits.foldl (fun value c => value * 8 + (c.toNat - '0'.toNat)) 0

/-- The digits of an octal escape: three at most from `0` to `3` on, else two. -/
def octalDigits (first : Char) (rest : List Char) : List Char :=
  first :: (rest.take (if first ≤ '3' then 2 else 1)).takeWhile isOctalDigit

/-- The unit that four hexadecimal digits write. -/
def hexUnit? : List Char → Option Nat
  | a :: b :: c :: d :: _ => do
    let a ← hexDigit? a
    let b ← hexDigit? b
    let c ← hexDigit? c
    let d ← hexDigit? d
    pure (((a * 16 + b) * 16 + c) * 16 + d)
  | _ => none

/-- A unicode escape, with the characters it takes behind its first `u`. -/
def unicode (rest : List Char) : Piece × Nat :=
  let us := (rest.takeWhile (· == 'u')).length
  match hexUnit? (rest.drop us) with
  | some value => (.unit value, us + 4)
  | none => (.malformedUnicode, us)

/-- The character that a one-letter escape stands for. -/
def simple? : Char → Option Char
  | 'b' => some '\x08'
  | 't' => some '\t'
  | 'n' => some '\n'
  | 'f' => some '\x0c'
  | 'r' => some '\r'
  | 's' => some ' '
  | '"' => some '"'
  | '\'' => some '\''
  | '\\' => some '\\'
  | _ => none

/-- The escape whose letter is `c`, with the characters it takes of `rest` behind it. -/
def escape (form : QuoteForm) (c : Char) (rest : List Char) : Piece × Nat :=
  match simple? c with
  | some value => (.char value, 0)
  | none =>
    if isOctalDigit c then
      let digits := octalDigits c rest
      (.char (Char.ofNat (octalValue digits)), digits.length - 1)
    else if c == 'u' then unicode rest
    else if form = .textBlock ∧ c = '\n' then (.joinedLine, 0)
    else if form = .textBlock ∧ c = '\r' then
      (.joinedLine, if rest.head? = some '\n' then 1 else 0)
    else (.invalid c, 0)

def width : List Char → Nat
  | [] => 0
  | c :: rest => c.utf8Size + width rest

/-- The pieces of a content, each with its bytes. -/
def pieces (form : QuoteForm) : List Char → List (Piece × Nat)
  | [] => []
  | '\\' :: [] => [(.trailing, 1)]
  | '\\' :: c :: rest =>
    let found := escape form c rest
    (found.1, 1 + c.utf8Size + width (rest.take found.2)) :: pieces form (rest.drop found.2)
  | c :: rest => (.char c, c.utf8Size) :: pieces form rest
termination_by content => content.length

namespace Piece

/-- Appends what a piece gives to the value. A bad escape stands for itself, but a malformed
unicode escape is unreadable. -/
def append (t : Text.Utf16) : Piece → Text.Utf16
  | char c => t.push c
  | unit value => t.pushUnit value
  | joinedLine => t
  | malformedUnicode => t.push Text.replacement
  | invalid c => (t.push '\\').push c
  | trailing => t.push '\\'

def problem? : Piece → Option Problem
  | malformedUnicode => some .malformedUnicodeEscape
  | invalid c => some (.invalidEscape c)
  | trailing => some (.invalidEscape '\\')
  | _ => none

end Piece

def value (pieces : List (Piece × Nat)) : String :=
  (pieces.foldl (fun t piece => piece.1.append t) ({} : Text.Utf16)).finish

/-- Stores the problems of pieces, the first of which stands at `offset` of a content at `base`. -/
def report (base : Nat) : (offset : Nat) → List (Piece × Nat) → (stored : Array Diagnostic) →
    Except Fault (Array Diagnostic)
  | _, [], stored => pure stored
  | offset, (piece, bytes) :: rest, stored =>
    match piece.problem? with
    | none => report base (offset + bytes) rest stored
    | some problem => do
      let start ← checkedAdd base offset
      let stop ← checkedAdd base (offset + bytes)
      report base (offset + bytes) rest (stored.push ⟨problem, start, stop⟩)

/-- Reads a content that starts at `base` and stores its problems. It has no value but itself if it
has no escapes. -/
def readInto (form : QuoteForm) (content : String) (base : Nat) (stored : Array Diagnostic) :
    Except Fault (Option String × Array Diagnostic) :=
  if content.toList.contains '\\' then do
    let found := pieces form content.toList
    pure (some (value found), ← report base 0 found stored)
  else pure (none, stored)

structure Reading where
  /-- None if the content has no escapes and is its own value. -/
  value : Option String
  problems : List Diagnostic

def read (form : QuoteForm) (content : String) (base : Nat) : Except Fault Reading := do
  let (value, problems) ← readInto form content base #[]
  pure ⟨value, problems.toList⟩

end JavaLex.Escape
