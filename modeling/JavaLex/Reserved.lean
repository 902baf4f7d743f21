/-! The reserved words, by the part they play. Words that are special only in some places, such
as `var` or `record`, are not among them. -/

namespace JavaLex

inductive WordClass where
  /-- Modifiers, words that introduce a declaration, and the unnamed variable. -/
  | declaration
  | primitive
  | constant
  | packaging
  /-- Control flow and expressions. -/
  | control
  deriving DecidableEq

def WordClass.name : WordClass → String
  | declaration => "declaration"
  | primitive => "type"
  | constant => "constant"
  | packaging => "namespace"
  | control => "statement"

namespace WordClass

def words : WordClass → List String
  | declaration =>
    ["_", "abstract", "class", "const", "enum", "extends", "final", "implements", "interface",
     "native", "private", "protected", "public", "static", "strictfp", "super", "synchronized",
     "throws", "transient", "volatile"]
  | primitive => ["boolean", "byte", "char", "double", "float", "int", "long", "short", "void"]
  | constant => ["false", "null", "true"]
  | packaging => ["import", "package"]
  | control =>
    ["assert", "break", "case", "catch", "continue", "default", "do", "else", "finally", "for",
     "goto", "if", "instanceof", "new", "return", "switch", "this", "throw", "try", "while"]

def all : List WordClass := [declaration, primitive, constant, packaging, control]

end WordClass

/-- The class of a reserved word. -/
def wordClass? (word : String) : Option WordClass :=
  WordClass.all.find? fun cls => cls.words.contains word

def isReserved (word : String) : Bool := (wordClass? word).isSome

end JavaLex
