/-! Reads and sums that leave their range. Offsets, lengths and counters fit in 32 bits. -/

namespace JavaLex

/-- The largest offset, length or counter. -/
def maxOffset : Nat := 4294967295

inductive Fault where
  | outOfBounds (size index : Nat)
  | addOverflow
  | subtractOverflow
  deriving DecidableEq

def Fault.message : Fault → String
  | .outOfBounds size index =>
    "index out of bounds: the len is " ++ toString size ++ " but the index is " ++ toString index
  | .addOverflow => "attempt to add with overflow"
  | .subtractOverflow => "attempt to subtract with overflow"

def checkedAdd (a b : Nat) : Except Fault Nat :=
  if a + b ≤ maxOffset then .ok (a + b) else .error .addOverflow

def checkedSub (a b : Nat) : Except Fault Nat :=
  if b ≤ a then .ok (a - b) else .error .subtractOverflow

def entryAt (row : List Nat) (index : Nat) : Except Fault Nat :=
  match row[index]? with
  | some entry => .ok entry
  | none => .error (.outOfBounds row.length index)

/-- A number as an offset: the largest one if it does not fit. -/
def saturate (n : Nat) : Nat := min n maxOffset

theorem checkedAdd_eq_ok {a b : Nat} (h : a + b ≤ maxOffset) : checkedAdd a b = .ok (a + b) :=
  if_pos h

theorem checkedSub_eq_ok {a b : Nat} (h : b ≤ a) : checkedSub a b = .ok (a - b) :=
  if_pos h

theorem checkedAdd_inv {a b c : Nat} (h : checkedAdd a b = .ok c) :
    c = a + b ∧ a + b ≤ maxOffset := by
  unfold checkedAdd at h
  split at h
  · rename_i hle
    exact ⟨(Except.ok.inj h).symm, hle⟩
  · cases h

theorem eq_of_checkedAdd {a b c : Nat} (h : checkedAdd a b = .ok c) : c = a + b :=
  (checkedAdd_inv h).1

theorem eq_of_checkedSub {a b c : Nat} (h : checkedSub a b = .ok c) : c = a - b := by
  unfold checkedSub at h
  split at h
  · exact (Except.ok.inj h).symm
  · cases h

theorem entryAt_eq_ok {row : List Nat} {index entry : Nat} (h : row[index]? = some entry) :
    entryAt row index = .ok entry := by
  rw [entryAt, h]

theorem saturate_eq {n : Nat} (h : n ≤ maxOffset) : saturate n = n := Nat.min_eq_left h

theorem checkedAdd_saturate (n : Nat) : checkedAdd (saturate n) 1 = checkedAdd n 1 := by
  rcases Nat.le_or_ge n maxOffset with h | h
  · rw [saturate_eq h]
  · unfold checkedAdd saturate
    rw [if_neg (by omega), if_neg (by omega)]

end JavaLex
