namespace JavaLex.Text

/-- Closed ranges of code points, disjoint and increasing. -/
structure CharSet where
  ranges : List (Nat × Nat)

def CharSet.has (set : CharSet) (c : Char) : Bool :=
  set.ranges.any fun r => decide (r.1 ≤ c.toNat) && decide (c.toNat ≤ r.2)

end JavaLex.Text
