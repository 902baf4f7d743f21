import JavaLex.Lexeme.Tag
import JavaLex.Source.Lines
import JavaLex.Text.Quoted

namespace JavaLex

inductive Problem where
  | unrecognizedCharacter (c : Char)
  | unterminated (form : QuoteForm)
  | unterminatedComment
  /-- The arguments of an annotation run to the end of the text. -/
  | unbalancedArguments
  | invalidEscape (c : Char)
  | malformedUnicodeEscape
  /-- A character literal without a character. -/
  | emptyChar
  /-- A character literal with more than one character. -/
  | severalChars
  | malformedNumber (reason : String)
  deriving DecidableEq

namespace Problem

def message : Problem → String
  | unrecognizedCharacter c => "unrecognized character " ++ Text.quoted c
  | unterminated .string => "unterminated string literal"
  | unterminated .textBlock => "unterminated text block"
  | unterminated .char => "unterminated character literal"
  | unterminatedComment => "unterminated block comment"
  | unbalancedArguments => "unbalanced annotation arguments"
  | invalidEscape c => "invalid escape sequence `\\" ++ c.toString ++ "`"
  | malformedUnicodeEscape => "malformed unicode escape"
  | emptyChar => "empty character literal"
  | severalChars => "character literal contains more than one character"
  | malformedNumber reason => "malformed number literal: " ++ reason

/-- Whether something ran on to the end of its line or of the text. -/
def isUnterminated : Problem → Bool
  | unterminated _ | unterminatedComment | unbalancedArguments => true
  | _ => false

end Problem

structure Diagnostic where
  problem : Problem
  start : Nat
  stop : Nat
  deriving DecidableEq

namespace Diagnostic

def message (d : Diagnostic) : String :=
  d.problem.message ++ " at " ++ toString d.start ++ ".." ++ toString d.stop

/-- The message after its line and column. -/
def render (d : Diagnostic) (lines : Lines) : Except Fault String := do
  let (line, column) ← lines.lineCol d.start
  pure (toString line ++ ":" ++ toString column ++ ": " ++ d.problem.message)

end Diagnostic

end JavaLex
