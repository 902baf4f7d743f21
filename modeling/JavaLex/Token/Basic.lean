import JavaLex.Fault
import JavaLex.Reserved
import JavaLex.Token.Kind

namespace JavaLex

/-- What a token says beside its kind. -/
structure Flags where
  hasError : Bool := false
  unterminated : Bool := false
  docComment : Bool := false
  textBlock : Bool := false
  label : Bool := false
  ternary : Bool := false
  wildcard : Bool := false
  deriving DecidableEq

namespace Flags

def toList (flags : Flags) : List Bool :=
  [flags.hasError, flags.unterminated, flags.docComment, flags.textBlock, flags.label,
   flags.ternary, flags.wildcard]

/-- The flags as a number, the first one its lowest bit. -/
def bits (flags : Flags) : Nat := flags.toList.foldr (fun flag rest => flag.toNat + 2 * rest) 0

end Flags

structure Token where
  kind : Kind
  text : String
  start : Nat
  stop : Nat
  flags : Flags := {}
  deriving DecidableEq

namespace Token

def len (token : Token) : Except Fault Nat := checkedSub token.stop token.start

def isEmpty (token : Token) : Bool := token.start == token.stop

/-- The class of a keyword. `@interface` declares. -/
def wordClass? (token : Token) : Option WordClass :=
  if token.kind = .keyword then
    if token.text = "@interface" then some .declaration else JavaLex.wordClass? token.text
  else none

end Token

end JavaLex
