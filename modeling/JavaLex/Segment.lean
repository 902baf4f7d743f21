import JavaLex.Annotation

/-! Segments: runs of lexemes that become one token. Where they are cut depends on the text and
the configuration alone. -/

namespace JavaLex

/-- What a segment consists of. -/
inductive Shape where
  /-- Blanks and line ends, merged. -/
  | blanks
  /-- An `@` with all it takes along. -/
  | marked (sign : AtSign)
  | single (tag : Tag)
  deriving DecidableEq

structure Segment where
  shape : Shape
  len : Nat
  len_pos : 0 < len

/-- Bytes of the blanks and line ends from `p` on. -/
def Source.blanksLen (s : Source) (p : Nat) : Except Fault Nat :=
  if p < s.len then do
    match ← s.scan p with
    | some ⟨.blank, len, _⟩ => (len + ·) <$> s.blanksLen (p + len)
    | some ⟨.newline, len, _⟩ => (len + ·) <$> s.blanksLen (p + len)
    | _ => pure 0
  else pure 0
termination_by s.len - p

/-- A segment that starts with `lexeme` and takes more bytes behind it. -/
def Lexeme.extended (lexeme : Lexeme) (shape : Shape) (more : Nat) : Segment :=
  ⟨shape, lexeme.len + more, Nat.lt_of_lt_of_le lexeme.len_pos (Nat.le_add_right _ _)⟩

/-- The segment at `p`, none at the end of the text. -/
def Lexer.segmentAt (lexer : Lexer) (p : Nat) : Except Fault (Option Segment) := do
  match ← lexer.source.scan p with
  | none => pure none
  | some lexeme =>
    if lexer.config.mergeBlanks ∧ (lexeme.tag = .blank ∨ lexeme.tag = .newline) then
      pure (some (lexeme.extended .blanks (← lexer.source.blanksLen (p + lexeme.len))))
    else if lexeme.tag = .separator .atSign then
      let (sign, more) ← lexer.source.annotationAt lexer.config.annotations (p + lexeme.len)
      pure (some (lexeme.extended (.marked sign) more))
    else pure (some (lexeme.extended (.single lexeme.tag) 0))

end JavaLex
