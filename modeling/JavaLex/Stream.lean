import JavaLex.Classifier
import JavaLex.Segment

namespace JavaLex

/-- Where the next token starts, and what the classifier knows there. -/
structure Stream where
  pos : Nat := 0
  state : Classifier := {}

namespace Lexer

def classifySegment (lexer : Lexer) (state : Classifier) (shape : Shape) (start stop : Nat) :
    Except Fault Classified :=
  match shape with
  | .blanks => pure ⟨.whitespace, {}, state⟩
  | .marked sign => lexer.classifyAt state sign start stop
  | .single tag => lexer.classify state tag start stop stop

/-- The token that a segment becomes, and what is known behind it. -/
def emit (lexer : Lexer) (stream : Stream) (segment : Segment) :
    Except Fault (Token × Classifier) := do
  let stop ← checkedAdd stream.pos segment.len
  let found ← lexer.classifySegment stream.state segment.shape stream.pos stop
  let text := lexer.source.slice stream.pos stop
  pure (⟨found.kind, text, stream.pos, stop, found.flags⟩, found.state)

/-- The next token, none at the end of the text. -/
def next (lexer : Lexer) (stream : Stream) : Except Fault (Option (Token × Stream)) := do
  match ← lexer.segmentAt stream.pos with
  | none => pure none
  | some segment =>
    let (token, state) ← lexer.emit stream segment
    pure (some (token, ⟨stream.pos + segment.len, state⟩))

def take (lexer : Lexer) (stream : Stream) : Nat → Except Fault (List Token × Stream)
  | 0 => pure ([], stream)
  | n + 1 => do
    match ← lexer.next stream with
    | none => pure ([], stream)
    | some (token, rest) =>
      let (tokens, final) ← lexer.take rest n
      pure (token :: tokens, final)

def drain (lexer : Lexer) (stream : Stream) : Except Fault (List Token × Stream) :=
  if stream.pos < lexer.source.len then do
    match ← lexer.segmentAt stream.pos with
    | none => pure ([], stream)
    | some segment =>
      let (token, state) ← lexer.emit stream segment
      let (tokens, final) ← lexer.drain ⟨stream.pos + segment.len, state⟩
      pure (token :: tokens, final)
  else pure ([], stream)
termination_by lexer.source.len - stream.pos
decreasing_by
  have := segment.len_pos
  omega

def run (lexer : Lexer) : Except Fault (List Token × List Diagnostic) := do
  let (tokens, final) ← lexer.drain {}
  pure (tokens, final.state.diagnostics.toList)

end Lexer

/-- The tokens of a text and its diagnostics, under the default configuration. -/
def lex (text : String) : Except Fault (List Token × List Diagnostic) :=
  Lexer.run ⟨⟨text⟩, {}⟩

end JavaLex
