import JavaLex.Token.Kind

namespace JavaLex

structure Tally where
  keyword : Nat := 0
  identifier : Nat := 0
  annotationMark : Nat := 0
  operator : Nat := 0
  numberLiteral : Nat := 0
  charLiteral : Nat := 0
  stringLiteral : Nat := 0
  comment : Nat := 0
  punctuation : Nat := 0
  whitespace : Nat := 0
  unknown : Nat := 0
  deriving DecidableEq

namespace Tally

def get (tally : Tally) : Kind → Nat
  | .keyword => tally.keyword
  | .identifier => tally.identifier
  | .annotationMark => tally.annotationMark
  | .operator => tally.operator
  | .numberLiteral => tally.numberLiteral
  | .charLiteral => tally.charLiteral
  | .stringLiteral => tally.stringLiteral
  | .comment => tally.comment
  | .punctuation => tally.punctuation
  | .whitespace => tally.whitespace
  | .unknown => tally.unknown

def add (tally : Tally) : Kind → Tally
  | .keyword => { tally with keyword := tally.keyword + 1 }
  | .identifier => { tally with identifier := tally.identifier + 1 }
  | .annotationMark => { tally with annotationMark := tally.annotationMark + 1 }
  | .operator => { tally with operator := tally.operator + 1 }
  | .numberLiteral => { tally with numberLiteral := tally.numberLiteral + 1 }
  | .charLiteral => { tally with charLiteral := tally.charLiteral + 1 }
  | .stringLiteral => { tally with stringLiteral := tally.stringLiteral + 1 }
  | .comment => { tally with comment := tally.comment + 1 }
  | .punctuation => { tally with punctuation := tally.punctuation + 1 }
  | .whitespace => { tally with whitespace := tally.whitespace + 1 }
  | .unknown => { tally with unknown := tally.unknown + 1 }

def extend (tally : Tally) (kinds : List Kind) : Tally := kinds.foldl add tally

def ofList (kinds : List Kind) : Tally := extend {} kinds

def toList (tally : Tally) : List (Kind × Nat) :=
  (Kind.all.map fun kind => (kind, tally.get kind)).filter fun entry => decide (0 < entry.2)

def total (tally : Tally) : Nat := Kind.all.foldr (fun kind rest => tally.get kind + rest) 0

def render (tally : Tally) : String :=
  String.join (tally.toList.map fun entry =>
    entry.1.name ++ ": " ++ toString entry.2 ++ "\n")

end Tally

end JavaLex
