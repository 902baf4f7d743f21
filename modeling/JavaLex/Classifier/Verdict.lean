import JavaLex.Annotation
import JavaLex.Classifier.Basic
import JavaLex.Literal.Problems

/-! Verdicts on single lexemes, given what came before. Two of them need a look at the next
lexeme that is not trivia: a word may be a label, a question mark a wildcard. -/

namespace JavaLex

/-- The first lexeme from `p` on that is not trivia, with its text. -/
def Source.lookAhead (s : Source) (p : Nat) : Except Fault (Option (Tag × String)) :=
  if p < s.len then do
    match ← s.scan p with
    | none => pure none
    | some ⟨tag, len, _⟩ =>
      if tag.isTrivia then s.lookAhead (p + len)
      else pure (some (tag, s.slice p (← checkedAdd p len)))
  else pure none
termination_by s.len - p

/-- Whether what follows a `?` shows it to be a wildcard. -/
def endsWildcard : Option (Tag × String) → Bool
  | some (.operator .greater, _) | some (.operator .shiftRight, _)
  | some (.operator .unsignedShiftRight, _) | some (.separator .comma, _) => true
  | some (.word, text) => text == "extends" || text == "super"
  | _ => false

def QuoteForm.kind : QuoteForm → Kind
  | char => .charLiteral
  | _ => .stringLiteral

def Separator.event : Separator → StatementEvent
  | leftBrace => .openBrace
  | rightBrace => .closeBrace
  | semicolon => .semicolon
  | _ => .operand

namespace Lexer

/-- A word is reserved, a label or a plain name. `ahead` is the offset behind it. -/
def judgeWord (lexer : Lexer) (state : Classifier) (text : String) (ahead : Nat) :
    Except Fault Verdict := do
  if isReserved text then pure { kind := .keyword, event := some (.keyword text) }
  else
    let label ←
      if state.statement.allowsLabel then do
        match ← lexer.source.lookAhead ahead with
        | some (.operator .colon, _) => pure true
        | _ => pure false
      else pure false
    pure { kind := .identifier, flags := { label }, event := some .operand }

/-- A `?` is a wildcard where a type argument may start and what follows ends one. -/
def judgeQuestion (lexer : Lexer) (state : Classifier) (ahead : Nat) : Except Fault Verdict := do
  let wildcard ←
    if state.typeArgument then endsWildcard <$> lexer.source.lookAhead ahead
    else pure false
  pure {
    kind := .operator
    flags := { wildcard, ternary := !wildcard }
    event := some (if wildcard then .operand else .question) }

def judgeColon (state : Classifier) : Verdict where
  kind := if state.statement.closesQuestion then .operator else .punctuation
  flags := { ternary := state.statement.closesQuestion }
  event := some .colon

def judge (lexer : Lexer) (state : Classifier) (tag : Tag) (start stop ahead : Nat) :
    Except Fault Verdict :=
  let text := lexer.source.slice start stop
  match tag with
  | .blank | .newline => pure { kind := .whitespace }
  | .comment form => pure { kind := .comment, flags := { docComment := form == .doc } }
  | .unterminatedComment =>
    pure {
      kind := .comment
      flags := { unterminated := true, docComment := ['/', '*', '*'].isPrefixOf text.toList }
      problems := [⟨.unterminatedComment, start, stop⟩] }
  | .word => lexer.judgeWord state text ahead
  | .number form =>
    pure {
      kind := .numberLiteral
      event := some .operand
      problems := lexer.source.numberProblems form start stop }
  | .quoted form => do
    pure {
      kind := form.kind
      flags := { textBlock := form == .textBlock }
      event := some .operand
      problems := ← lexer.source.literalProblems form start stop }
  | .unterminated form =>
    pure {
      kind := form.kind
      flags := { unterminated := true, textBlock := form == .textBlock }
      event := some .operand
      problems := [⟨.unterminated form, start, stop⟩] }
  | .operator .question => lexer.judgeQuestion state ahead
  | .operator .colon => pure (judgeColon state)
  | .operator .arrow => pure { kind := .operator, event := some .arrow }
  | .operator _ => pure { kind := .operator, event := some .operand }
  | .separator sep => pure { kind := .punctuation, event := some sep.event }
  | .invalidChar | .interiorNull =>
    pure {
      kind := .unknown
      event := some .operand
      problems := [⟨.unrecognizedCharacter (text.toList.headD '\x00'), start, stop⟩] }
  | .endOfText => pure { kind := .unknown }

def judgeAt (sign : AtSign) (start stop : Nat) : Verdict :=
  match sign with
  | .punctuation => { kind := .punctuation, event := some .operand }
  | .interfaceWord => { kind := .keyword, event := some (.keyword "@interface") }
  | .annotationMark true => { kind := .annotationMark, event := some .operand }
  | .annotationMark false =>
    { kind := .annotationMark
      flags := { unterminated := true }
      event := some .operand
      problems := [⟨.unbalancedArguments, start, stop⟩] }

end Lexer

end JavaLex
