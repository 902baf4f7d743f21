import JavaLex.Source.Search

/-! The extent of quoted lexemes. A backslash takes the character behind it along, so that an
escaped quote closes nothing. -/

namespace JavaLex

/-- Where a delimited lexeme ends, and whether its closing delimiter was found. -/
structure Extent where
  closed : Bool
  stop : Nat
  deriving DecidableEq

namespace Source

/-- The rest, from `p` on, of a string or character literal. It has to close on its line. -/
def quotedRest (s : Source) (quote : UInt8) (p : Nat) : Except Fault Extent :=
  match h : s.seek? (fun q => quoteStop quote (s.byte q)) p with
  | none => .ok ⟨false, s.len⟩
  | some q =>
    if s.byte q == quote then .ok ⟨true, q + 1⟩
    else if Byte.isLineEnd (s.byte q) then .ok ⟨false, q⟩
    else do
      let b ← s.read (q + 1)
      if decide (s.len ≤ q + 1) || Byte.isLineEnd b then .ok ⟨false, q + 1⟩
      else if q + 1 + Byte.charWidth b ≤ maxOffset then
        s.quotedRest quote (q + 1 + Byte.charWidth b)
      else .error .addOverflow
termination_by s.len - p
decreasing_by
  have := seek?_bounds h
  omega

def textBlockRest (s : Source) (p : Nat) : Except Fault Extent :=
  match h : s.seek? (fun q => textBlockStop (s.byte q)) p with
  | none => .ok ⟨false, s.len⟩
  | some q =>
    if s.byte q == Byte.backslash then do
      let b ← s.read (q + 1)
      if s.len ≤ q + 1 then .ok ⟨false, q + 1⟩
      else if q + 1 + Byte.charWidth b ≤ maxOffset then
        s.textBlockRest (q + 1 + Byte.charWidth b)
      else .error .addOverflow
    else do
      if ← s.startsWith [Byte.doubleQuote, Byte.doubleQuote, Byte.doubleQuote] q then
        .ok ⟨true, q + 3⟩
      else s.textBlockRest (q + 1)
termination_by s.len - p
decreasing_by
  all_goals
    have := seek?_bounds h
    omega

end Source

end JavaLex
