import JavaLex.Classifier.Verdict

namespace JavaLex.Lexer

/-- Classifies the lexeme between two offsets, looking on from `ahead` where needed. -/
def classify (lexer : Lexer) (state : Classifier) (tag : Tag) (start stop ahead : Nat) :
    Except Fault Classified := do
  let verdict ← lexer.judge state tag start stop ahead
  let typeArgument :=
    if tag.isTrivia then state.typeArgument
    else tag == .operator .less || tag == .separator .comma
  verdict.settle lexer.config state typeArgument

/-- Classifies what an `@` started. An annotation keeps a type argument position open. -/
def classifyAt (lexer : Lexer) (state : Classifier) (sign : AtSign) (start stop : Nat) :
    Except Fault Classified :=
  let typeArgument := match sign with
    | .annotationMark _ => state.typeArgument
    | _ => false
  (judgeAt sign start stop).settle lexer.config state typeArgument

/-- Classifies every lexeme from `p` on by itself, without folding or merging. -/
def classifyLexemes (lexer : Lexer) (state : Classifier) (p : Nat) :
    Except Fault (List Classified) :=
  if p < lexer.source.len then do
    match ← lexer.source.scan p with
    | none => pure []
    | some ⟨tag, len, _⟩ =>
      let found ← lexer.classify state tag p (p + len) (p + len)
      (found :: ·) <$> lexer.classifyLexemes found.state (p + len)
  else pure []
termination_by lexer.source.len - p

end JavaLex.Lexer
