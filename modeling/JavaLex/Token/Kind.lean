namespace JavaLex

inductive Kind where
  | keyword | identifier | annotationMark | operator | numberLiteral | charLiteral | stringLiteral
  | comment | punctuation | whitespace | unknown
  deriving DecidableEq

namespace Kind

def all : List Kind :=
  [keyword, identifier, annotationMark, operator, numberLiteral, charLiteral, stringLiteral,
   comment, punctuation, whitespace, unknown]

def name : Kind → String
  | keyword => "KEYWORD"
  | identifier => "IDENTIFIER"
  | annotationMark => "ANNOTATION"
  | operator => "OPERATOR"
  | numberLiteral => "NUMBER_LITERAL"
  | charLiteral => "CHAR_LITERAL"
  | stringLiteral => "STRING_LITERAL"
  | comment => "COMMENT"
  | punctuation => "PUNCTUATION"
  | whitespace => "WHITESPACE"
  | unknown => "UNKNOWN"

def isTrivia : Kind → Bool
  | whitespace | comment => true
  | _ => false

def isLiteral : Kind → Bool
  | numberLiteral | charLiteral | stringLiteral => true
  | _ => false

end Kind

end JavaLex
