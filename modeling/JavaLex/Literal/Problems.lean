import JavaLex.Literal.Escape
import JavaLex.Literal.Numeral

namespace JavaLex.Source

/-- Problems of the escapes between two offsets, with the value they write. -/
def literalValue (s : Source) (form : QuoteForm) (start stop : Nat) :
    Except Fault (String × List Diagnostic) := do
  let content := s.slice start stop
  let reading ← Escape.read form content start
  pure (reading.value.getD content, reading.problems)

def delimiterLen : QuoteForm → Nat
  | .textBlock => 3
  | _ => 1

/-- Problems of a closed literal: bad escapes, or a character literal that holds no character
or several. -/
def literalProblems (s : Source) (form : QuoteForm) (start stop : Nat) :
    Except Fault (List Diagnostic) := do
  let first ← checkedAdd start (delimiterLen form)
  let last ← checkedSub stop (delimiterLen form)
  let (value, problems) ← s.literalValue form first last
  if form = .char ∧ problems = [] then
    match value.toList with
    | [] => pure [⟨.emptyChar, start, stop⟩]
    | [_] => pure []
    | _ => pure [⟨.severalChars, start, stop⟩]
  else pure problems

def numberProblems (s : Source) (form : NumberForm) (start stop : Nat) : List Diagnostic :=
  match Numeral.flaw? form (s.slice start stop) with
  | some flaw => [⟨.malformedNumber flaw.message, start, stop⟩]
  | none => []

end JavaLex.Source
