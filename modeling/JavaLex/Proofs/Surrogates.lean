import Mathlib.Data.List.Basic
import JavaLex.Text.Utf16

/-! Texts as rows of UTF-16 units. Decoding a row takes two surrogates that pair for one character
and gives up on one that stands alone; the builder of texts decodes what it has been given, with a
high surrogate kept back until it is known what follows. -/

namespace JavaLex.Text

def units (c : Char) : List Nat :=
  if c.toNat < 0x10000 then [c.toNat]
  else [0xD800 + (c.toNat - 0x10000) / 0x400, 0xDC00 + (c.toNat - 0x10000) % 0x400]

/-- A high surrogate with a low one behind it. -/
def Pairs (high low : Nat) : Prop := (0xD800 ≤ high ∧ high < 0xDC00) ∧ 0xDC00 ≤ low ∧ low < 0xE000

instance (high low : Nat) : Decidable (Pairs high low) :=
  inferInstanceAs (Decidable (_ ∧ _))

/-- What a unit writes that is no part of a pair. -/
def decodeUnit (unit : Nat) : Char :=
  if 0xD800 ≤ unit ∧ unit < 0xE000 then '\uFFFD' else Char.ofNat unit

def decode : List Nat → List Char
  | [] => []
  | [unit] => [decodeUnit unit]
  | unit :: next :: rest =>
    if Pairs unit next then
      Char.ofNat (0x10000 + (unit - 0xD800) * 0x400 + (next - 0xDC00)) :: decode rest
    else decodeUnit unit :: decode (next :: rest)

variable {unit : Nat} {row later : List Nat} {c : Char} {t : Utf16}

theorem decode_pair {high low : Nat} (h : Pairs high low) (later : List Nat) :
    decode (high :: low :: later) = surrogatePair high low :: decode later := by
  rw [decode, if_pos h]
  rfl

/-- A unit without a partner behind it is decoded by itself. -/
theorem decode_cons (h : ∀ next ∈ later.head?, ¬ Pairs unit next) :
    decode (unit :: later) = decodeUnit unit :: decode later := by
  cases later with
  | nil => rfl
  | cons next rest => rw [decode, if_neg (h next rfl)]

theorem decode_cons_of_not_high (h : isHighSurrogate unit = false) (later : List Nat) :
    decode (unit :: later) = decodeUnit unit :: decode later := by
  apply decode_cons
  rintro next - hpair
  simp [isHighSurrogate] at h
  have := hpair.1
  omega

theorem toNat_valid (c : Char) : c.toNat < 0xD800 ∨ 0xE000 ≤ c.toNat ∧ c.toNat < 0x110000 := by
  rcases c.valid with h | h
  · exact .inl h
  · exact .inr ⟨Nat.succ_le_of_lt h.1, h.2⟩

theorem units_lt (c : Char) : ∀ unit ∈ units c, unit < 0x10000 := by
  have hvalid := toNat_valid c
  intro unit h
  unfold units at h
  split at h
  · rw [List.mem_singleton.1 h]
    assumption
  · simp only [List.mem_cons, List.not_mem_nil, or_false] at h
    omega

/-- No character starts with a low surrogate, so none is the partner of what stands before it. -/
theorem not_pairs_of_units {next : Nat} (h : next ∈ (units c ++ later).head?) :
    ¬ Pairs unit next := by
  have hvalid := toNat_valid c
  rintro ⟨-, hlow⟩
  unfold units at h
  split at h
  · cases h
    omega
  · cases h
    omega

theorem decode_units (c : Char) (later : List Nat) :
    decode (units c ++ later) = c :: decode later := by
  have hvalid := toNat_valid c
  unfold units
  split
  · have hhigh : isHighSurrogate c.toNat = false := by
      simp [isHighSurrogate]
      omega
    have hunit : decodeUnit c.toNat = c := by
      rw [decodeUnit, if_neg (by omega), Char.ofNat_toNat]
    rw [List.singleton_append, decode_cons_of_not_high hhigh, hunit]
  · have hpair : Pairs (0xD800 + (c.toNat - 0x10000) / 0x400)
        (0xDC00 + (c.toNat - 0x10000) % 0x400) := ⟨by omega, by omega⟩
    have hcode : 0x10000 + (0xD800 + (c.toNat - 0x10000) / 0x400 - 0xD800) * 0x400 +
        (0xDC00 + (c.toNat - 0x10000) % 0x400 - 0xDC00) = c.toNat := by omega
    rw [List.cons_append, List.singleton_append, decode_pair hpair, surrogatePair, hcode,
      Char.ofNat_toNat]

theorem decode_flatMap_units (text : List Char) : decode (text.flatMap units) = text := by
  induction text with
  | nil => rfl
  | cons c rest ih => rw [List.flatMap_cons, decode_units, ih]

namespace Utf16

/-- What has been built comes from these units, whatever units are still to follow. -/
structure Holds (t : Utf16) (row : List Nat) : Prop where
  high : ∀ high ∈ t.high, isHighSurrogate high = true
  decode : ∀ later, decode (row ++ later) = t.text.toList ++ decode (t.high.toList ++ later)

theorem holds_nil : Holds {} [] := ⟨nofun, fun _ => rfl⟩

/-- A high surrogate that waits is given up unless a low one follows. -/
theorem Holds.flush (h : t.Holds row) (later : List Nat)
    (hlater : ∀ high, ∀ next ∈ later.head?, ¬ Pairs high next) :
    Text.decode (row ++ later) = t.flush.text.toList ++ Text.decode later := by
  rw [h.decode later]
  obtain ⟨text, high⟩ := t
  cases high with
  | none => rfl
  | some high =>
      have hunit : decodeUnit high = replacement := by
        have hhigh := h.high high rfl
        simp only [isHighSurrogate, Bool.and_eq_true, decide_eq_true_eq] at hhigh
        exact if_pos (by omega)
      simp only [Option.toList_some, List.singleton_append, Utf16.flush, String.toList_push]
      rw [decode_cons (hlater high), hunit, List.append_assoc, List.singleton_append]

theorem Holds.push (h : t.Holds row) (c : Char) : (t.push c).Holds (row ++ units c) := by
  refine ⟨nofun, fun later => ?_⟩
  have hflush := h.flush (units c ++ later) fun _ _ hnext => not_pairs_of_units hnext
  rw [List.append_assoc, hflush, decode_units]
  simp only [Utf16.push, String.toList_push, List.append_assoc, List.singleton_append,
    Option.toList_none, List.nil_append]

theorem holds_start {text : String} (unit : Nat)
    (h : ∀ later, Text.decode (row ++ unit :: later) =
      text.toList ++ Text.decode (unit :: later)) :
    (start text unit).Holds (row ++ [unit]) := by
  unfold start
  split
  · rename_i hhigh
    refine ⟨?_, fun later => ?_⟩
    · rintro high hsome
      cases hsome
      exact hhigh
    · rw [List.append_assoc, List.singleton_append, h]
      rfl
  · rename_i hhigh
    have hunit : ∀ c, decodeUnit unit = c →
        (⟨text.push c, none⟩ : Utf16).Holds (row ++ [unit]) := by
      rintro c rfl
      refine ⟨nofun, fun later => ?_⟩
      rw [List.append_assoc, List.singleton_append, h,
        decode_cons_of_not_high (Bool.eq_false_iff.2 hhigh)]
      simp
    simp only [isHighSurrogate, isLowSurrogate, Bool.and_eq_true, decide_eq_true_eq] at hhigh ⊢
    split
    · exact hunit replacement (if_pos (by omega))
    · exact hunit (Char.ofNat unit) (if_neg (by omega))

theorem Holds.pushUnit (h : t.Holds row) (unit : Nat) :
    (t.pushUnit unit).Holds (row ++ [unit]) := by
  unfold Utf16.pushUnit
  split
  · rename_i hnone
    refine holds_start unit fun later => ?_
    rw [h.decode, hnone]
    rfl
  · rename_i high hsome
    have hhigh := h.high high hsome
    simp only [isHighSurrogate, isLowSurrogate, Bool.and_eq_true, decide_eq_true_eq] at hhigh ⊢
    split
    · rename_i hlow
      have hpair : Pairs high unit := ⟨by omega, by omega⟩
      refine ⟨nofun, fun later => ?_⟩
      rw [List.append_assoc, List.singleton_append, h.decode, hsome, Option.toList_some,
        List.singleton_append, decode_pair hpair]
      simp
    · rename_i hlow
      refine holds_start unit fun later => h.flush (unit :: later) ?_
      rintro high next hnext ⟨-, hpair⟩
      cases hnext
      omega

/-- At the end nothing follows, so a high surrogate that still waits stands alone. -/
theorem Holds.finish (h : t.Holds row) : t.finish.toList = Text.decode row := by
  have hflush := h.flush [] nofun
  rw [List.append_nil] at hflush
  rw [hflush]
  exact (List.append_nil _).symm

end Utf16

end JavaLex.Text
