import JavaLex.Config
import JavaLex.Lexeme.Basic
import JavaLex.Reserved

/-! Annotations. A name behind an `@`, its qualification and its arguments are one token.
Parentheses are counted as lexemes, so those inside literals and comments do not matter. -/

namespace JavaLex

/-- What an `@` turns out to start. -/
inductive AtSign where
  | punctuation
  /-- `@interface`. -/
  | interfaceWord
  /-- Unbalanced if the arguments run to the end of the text. -/
  | annotationMark (balanced : Bool)
  deriving DecidableEq

structure AtSpan where
  sign : AtSign
  start : Nat
  stop : Nat

namespace Source

/-- The word at `p` with its length. -/
def nameAt? (s : Source) (p : Nat) : Except Fault (Option (String × Nat)) := do
  match ← s.scan p with
  | some ⟨.word, len, _⟩ => pure ((s.slice? p (p + len)).map (·, len))
  | _ => pure none

/-- Bytes of the dots and names that qualify a name that ends at `p`. -/
def qualifierLen (s : Source) (p : Nat) : Except Fault Nat :=
  if p < s.len then do
    match ← s.scan p with
    | some ⟨.separator .dot, len, _⟩ =>
      match ← s.nameAt? (p + len) with
      | some (name, n) =>
        if isReserved name then pure 0
        else (len + n + ·) <$> s.qualifierLen (p + (len + n))
      | none => pure 0
    | _ => pure 0
  else pure 0
termination_by s.len - p

/-- Bytes of an argument list up to its last parenthesis, with `depth` parentheses open at `p`,
and whether that parenthesis was found. -/
def argumentsLen (s : Source) (depth p : Nat) : Except Fault (Bool × Nat) :=
  if p < s.len then do
    match ← s.scan p with
    | none => pure (false, 0)
    | some ⟨tag, len, _⟩ =>
      if tag = .separator .rightParen ∧ depth ≤ 1 then pure (true, len)
      else
        let depth ←
          if tag = .separator .leftParen then checkedAdd depth 1
          else if tag = .separator .rightParen then pure (depth - 1)
          else pure depth
        let (balanced, rest) ← s.argumentsLen depth (p + len)
        pure (balanced, len + rest)
  else pure (false, 0)
termination_by s.len - p

/-- What the `@` before `p` starts, and the bytes it takes from `p` on. -/
def annotationAt (s : Source) (extent : AnnotationExtent) (p : Nat) :
    Except Fault (AtSign × Nat) := do
  match ← s.nameAt? p with
  | none => pure (.punctuation, 0)
  | some (name, len) =>
    if name = "interface" then pure (.interfaceWord, len)
    else if isReserved name then pure (.punctuation, 0)
    else
      let named := len + (← s.qualifierLen (p + len))
      if extent = .nameOnly then pure (.annotationMark true, named)
      else
        match ← s.scan (p + named) with
        | some ⟨.separator .leftParen, _, _⟩ =>
          let (balanced, arguments) ← s.argumentsLen 0 (p + named)
          pure (.annotationMark balanced, named + arguments)
        | _ => pure (.annotationMark true, named)

/-- Every `@` from `p` on that no earlier one takes along. -/
def annotations (s : Source) (extent : AnnotationExtent) (p : Nat) :
    Except Fault (List AtSpan) :=
  if p < s.len then do
    match ← s.scan p with
    | none => pure []
    | some ⟨tag, len, _⟩ =>
      if tag = .separator .atSign then
        let (sign, taken) ← s.annotationAt extent (p + len)
        (⟨sign, p, p + len + taken⟩ :: ·) <$> s.annotations extent (p + len + taken)
      else s.annotations extent (p + len)
  else pure []
termination_by s.len - p

end Source

end JavaLex
