import JavaLex.Source.Basic

namespace JavaLex

/-- How much of an annotation is one token. -/
inductive AnnotationExtent where
  /-- The name and its arguments in parentheses. -/
  | region
  | nameOnly
  deriving DecidableEq

structure Config where
  annotations : AnnotationExtent := .region
  /-- Whether blanks and line ends next to each other are one token. -/
  mergeBlanks : Bool := true
  /-- How many diagnostics are kept, all of them if zero. -/
  errorLimit : Nat := 0
  deriving DecidableEq

/-- Whether one more diagnostic is kept after `stored` ones. -/
def Config.hasRoom (config : Config) (stored : Nat) : Bool :=
  config.errorLimit == 0 || decide (stored < config.errorLimit)

/-- A source and how it is to be read. -/
structure Lexer where
  source : Source
  config : Config := {}

end JavaLex
