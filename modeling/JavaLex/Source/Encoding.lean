import JavaLex.Source.Basic

/-! Traces of an encoding in a source: a byte order mark in front, zero bytes inside. -/

namespace JavaLex

inductive EncodingMark where
  | byteOrderMark
  | interiorNull (pos : Nat)
  deriving DecidableEq

namespace EncodingMark

def pos : EncodingMark → Nat
  | byteOrderMark => 0
  | interiorNull p => p

def len : EncodingMark → Nat
  | byteOrderMark => 3
  | interiorNull _ => 1

end EncodingMark

namespace Source

def hasByteOrderMark (s : Source) : Bool :=
  s.byte 0 == 0xEF && s.byte 1 == 0xBB && s.byte 2 == 0xBF

def encodingMarks (s : Source) : List EncodingMark :=
  (if s.hasByteOrderMark then [.byteOrderMark] else []) ++
    ((List.range s.len).filter (s.byte · == 0)).map .interiorNull

end Source

end JavaLex
