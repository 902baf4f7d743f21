import Mathlib.Data.List.Find
import JavaLex.Lexeme.Basic
import JavaLex.Proofs.Boundary
import JavaLex.Proofs.Returns

/-! Moving inside the text. Every way to move on from an offset of the text returns an offset that
is not before it, not past the end, and a boundary if the move started at one. -/

namespace JavaLex

/-- A class of ASCII bytes without the zero byte: what runs over it stops inside the text. -/
structure Byte.TextClass (accepts : UInt8 → Bool) : Prop where
  zero : accepts 0 = false
  ascii : ∀ b, accepts b = true → isAscii b = true

namespace Byte

theorem TextClass.of_forall {accepts : UInt8 → Bool} (h0 : accepts 0 = false)
    (h : ∀ i : Fin 256, accepts (UInt8.ofFin i) = true → isAscii (UInt8.ofFin i) = true) :
    TextClass accepts := ⟨h0, forall_byte h⟩

theorem textClass_isBlank : TextClass isBlank := .of_forall rfl (by decide +kernel)

theorem textClass_isDigit : TextClass isDigit := .of_forall rfl (by decide +kernel)

theorem textClass_startsWord : TextClass startsWord := .of_forall rfl (by decide +kernel)

theorem textClass_continuesWord : TextClass continuesWord := .of_forall rfl (by decide +kernel)

theorem textClass_eq {b : UInt8} (h0 : (0 == b) = false) (hb : isAscii b = true) :
    TextClass (· == b) := by
  refine ⟨h0, ?_⟩
  intro c hc
  rw [eq_of_beq hc]
  exact hb

theorem isAscii_of_isLineEnd {b : UInt8} : isLineEnd b = true → isAscii b = true :=
  forall_byte (P := fun b => isLineEnd b = true → isAscii b = true) (by decide +kernel) b

theorem isLineEnd_iff {b : UInt8} : isLineEnd b = true ↔ b = lineFeed ∨ b = carriageReturn := by
  simp only [isLineEnd, Bool.or_eq_true, beq_iff_eq]

end Byte

namespace Source

/-- What a scan that starts at `p` may come to: an offset not before `p` and inside the text,
which is a boundary if `p` is one. -/
structure Reach (s : Source) (p q : Nat) : Prop where
  le : p ≤ q
  le_len : q ≤ s.len
  boundary : s.IsBoundary p → s.IsBoundary q

variable {s : Source} {p q r : Nat}

namespace Reach

theorem refl (hp : p ≤ s.len) : s.Reach p p := ⟨Nat.le_refl p, hp, fun h => h⟩

theorem trans (h : s.Reach p q) (h' : s.Reach q r) : s.Reach p r :=
  ⟨Nat.le_trans h.le h'.le, h'.le_len, fun hp => h'.boundary (h.boundary hp)⟩

theorem to_len (hp : p ≤ s.len) : s.Reach p s.len :=
  ⟨hp, Nat.le_refl _, fun _ => s.isBoundary_len⟩

theorem to_ascii (hle : p ≤ q) (hq : q < s.len) (h : Byte.isAscii (s.byte q) = true) :
    s.Reach p q := ⟨hle, Nat.le_of_lt hq, fun _ => isBoundary_of_isAscii hq h⟩

theorem char (hp : p < s.len) : s.Reach p (p + Byte.charWidth (s.byte p)) :=
  ⟨Nat.le_add_right _ _, add_charWidth_le_len hp, fun h => h.add_charWidth hp⟩

theorem ascii (hp : p < s.len) (h : Byte.isAscii (s.byte p) = true) : s.Reach p (p + 1) := by
  have := char hp
  rwa [Byte.charWidth_of_isAscii h] at this

end Reach

theorem lt_size_of_le_len (hp : p ≤ s.len) : p < s.size := Nat.lt_of_le_of_lt hp s.len_lt_size

theorem read_of_le_len (hp : p ≤ s.len) : s.read p = .ok (s.byte p) :=
  read_eq_ok (lt_size_of_le_len hp)

theorem lt_len_of_accepts {accepts : UInt8 → Bool} (hc : Byte.TextClass accepts)
    (h : accepts (s.byte p) = true) : p < s.len := by
  apply lt_len_of_byte_ne_zero
  intro h0
  rw [h0, hc.zero] at h
  cases h

theorem seek?_eq_some_iff {good : Nat → Bool} :
    s.seek? good p = some q ↔
      p ≤ q ∧ q < s.len ∧ good q = true ∧ ∀ i, p ≤ i → i < q → good i = false := by
  fun_induction seek? s good p with
  | case1 p hp hg =>
      simp only [Option.some.injEq]
      constructor
      · rintro rfl
        exact ⟨Nat.le_refl p, hp, hg, fun i h1 h2 => by omega⟩
      · rintro ⟨hle, -, -, hbefore⟩
        rcases Nat.lt_or_ge p q with hlt | hge
        · rw [hbefore p (Nat.le_refl p) hlt] at hg
          cases hg
        · omega
  | case2 p hp hg ih =>
      rw [ih]
      constructor
      · rintro ⟨hle, hlen, hgood, hbefore⟩
        refine ⟨by omega, hlen, hgood, ?_⟩
        intro i h1 h2
        rcases Nat.lt_or_ge p i with hlt | hge
        · exact hbefore i hlt h2
        · have : i = p := by omega
          subst this
          simpa using hg
      · rintro ⟨hle, hlen, hgood, hbefore⟩
        have hne : p ≠ q := by
          rintro rfl
          exact hg hgood
        exact ⟨by omega, hlen, hgood, fun i h1 h2 => hbefore i (by omega) h2⟩
  | case3 p hp =>
      simp only [reduceCtorEq, false_iff]
      rintro ⟨hle, hlen, -, -⟩
      omega

theorem seek?_eq_none_iff {good : Nat → Bool} :
    s.seek? good p = none ↔ ∀ i, p ≤ i → i < s.len → good i = false := by
  fun_induction seek? s good p with
  | case1 p hp hg =>
      simp only [reduceCtorEq, false_iff]
      intro h
      rw [h p (Nat.le_refl p) hp] at hg
      cases hg
  | case2 p hp hg ih =>
      rw [ih]
      constructor
      · intro h i h1 h2
        rcases Nat.lt_or_ge p i with hlt | hge
        · exact h i hlt h2
        · have : i = p := by omega
          subst this
          simpa using hg
      · exact fun h i h1 h2 => h i (by omega) h2
  | case3 p hp =>
      simp only [true_iff]
      intro i h1 h2
      omega

theorem seek?_reach {stops : UInt8 → Bool} (hascii : ∀ b, stops b = true → Byte.isAscii b = true)
    (h : s.seek? (fun i => stops (s.byte i)) p = some q) : s.Reach p q := by
  obtain ⟨hle, hlen, hstop, -⟩ := seek?_eq_some_iff.1 h
  exact .to_ascii hle hlen (hascii _ hstop)

theorem leap_reach {stops : UInt8 → Bool} (hascii : ∀ b, stops b = true → Byte.isAscii b = true)
    (hp : p ≤ s.len) : s.Reach p (s.leap stops p) := by
  unfold leap
  cases h : s.seek? (fun i => stops (s.byte i)) p with
  | none => exact .to_len hp
  | some q => exact seek?_reach hascii h

/-- The offsets from `p` up to `q` hold accepted bytes, and `q` does not. -/
structure Run (s : Source) (accepts : UInt8 → Bool) (p q : Nat) : Prop where
  le : p ≤ q
  accepted : ∀ i, p ≤ i → i < q → accepts (s.byte i) = true
  refused : accepts (s.byte q) = false

section

variable {accepts : UInt8 → Bool} (hfit : s.len ≤ maxOffset) (hc : Byte.TextClass accepts)

include hfit hc

theorem skipWhile_eq_ok (h : s.Run accepts p q) (hq : q ≤ s.len) :
    s.skipWhile accepts p = .ok q := by
  obtain ⟨n, rfl⟩ := Nat.exists_eq_add_of_le h.le
  induction n generalizing p with
  | zero =>
      have hrefused : ¬ accepts (s.byte p) = true := by simpa using h.refused
      rw [Nat.add_zero] at hq ⊢
      rw [skipWhile, if_pos (lt_size_of_le_len hq), if_neg hrefused]
  | succ n ih =>
      have hacc := h.accepted p (Nat.le_refl p) (by omega)
      have hlt := lt_len_of_accepts hc hacc
      rw [skipWhile, if_pos (lt_size_of_le_len (Nat.le_of_lt hlt)), if_pos hacc,
        if_pos (by omega)]
      have hrun : s.Run accepts (p + 1) (p + 1 + n) :=
        ⟨by omega, fun i h1 h2 => h.accepted i (by omega) (by omega),
          by rw [Nat.add_assoc, Nat.add_comm 1 n]; exact h.refused⟩
      rw [ih hrun (by omega)]
      congr 1
      omega

theorem skipWhile_returns (hp : p ≤ s.len) :
    Returns (s.skipWhile accepts p) (fun q => s.Reach p q ∧ s.Run accepts p q) := by
  fun_induction skipWhile s accepts p with
  | case1 p hsize hacc hmax ih =>
      have hlt := lt_len_of_accepts hc hacc
      refine (ih (by omega)).mono ?_
      rintro q ⟨hreach, hrun⟩
      have hle : p ≤ q := Nat.le_of_succ_le hreach.le
      refine ⟨(Reach.ascii hlt (hc.ascii _ hacc)).trans hreach, hle, ?_, hrun.refused⟩
      intro i h1 h2
      rcases Nat.lt_or_ge p i with hgt | hge
      · exact hrun.accepted i hgt h2
      · have : i = p := by omega
        subst this
        exact hacc
  | case2 p hsize hacc hmax =>
      have hlt := lt_len_of_accepts hc hacc
      omega
  | case3 p hsize hacc =>
      exact .ok ⟨.refl hp, Nat.le_refl p, fun i h1 h2 => by omega, by simpa using hacc⟩
  | case4 p hsize => exact absurd (lt_size_of_le_len hp) hsize

end

theorem skipIf_returns {accepts : UInt8 → Bool} (hc : Byte.TextClass accepts) (hp : p ≤ s.len) :
    Returns (s.skipIf accepts p) (s.Reach p) := by
  simp only [skipIf, read_of_le_len hp, except_ok_bind, except_pure]
  apply Returns.ok
  split
  · rename_i hacc
    exact .ascii (lt_len_of_accepts hc hacc) (hc.ascii _ hacc)
  · exact .refl hp

/-- The bytes from `p` on start with `expected`. -/
def Matches (s : Source) : List UInt8 → Nat → Prop
  | [], _ => True
  | b :: rest, p => s.byte p = b ∧ s.Matches rest (p + 1)

instance Matches.decidable (s : Source) :
    (expected : List UInt8) → (p : Nat) → Decidable (s.Matches expected p)
  | [], _ => .isTrue trivial
  | b :: rest, p =>
    have := Matches.decidable s rest (p + 1)
    inferInstanceAs (Decidable (s.byte p = b ∧ s.Matches rest (p + 1)))

def IsPlain (bytes : List UInt8) : Prop := ∀ b ∈ bytes, b ≠ 0 ∧ Byte.isAscii b = true

instance (bytes : List UInt8) : Decidable (IsPlain bytes) :=
  List.decidableBAll (fun b => b ≠ 0 ∧ Byte.isAscii b = true) bytes

theorem IsPlain.tail {b : UInt8} {bytes : List UInt8} (h : IsPlain (b :: bytes)) :
    IsPlain bytes := fun c hc => h c (List.mem_cons_of_mem b hc)

/-- A read past a byte that fits is a read inside the buffer, as no text holds the zero byte. -/
theorem startsWith_eq_ok {expected : List UInt8} (he : IsPlain expected) (hp : p ≤ s.len) :
    s.startsWith expected p = .ok (decide (s.Matches expected p)) := by
  induction expected generalizing p with
  | nil => exact congrArg Except.ok (decide_eq_true trivial).symm
  | cons b rest ih =>
      simp only [startsWith, read_of_le_len hp, except_ok_bind]
      by_cases hb : s.byte p = b
      · have hlt : p < s.len := by
          apply lt_len_of_byte_ne_zero
          rw [hb]
          exact (he b List.mem_cons_self).1
        rw [if_pos (by simp [hb]), ih he.tail hlt]
        simp [Matches, hb]
      · rw [if_neg (by simp [hb])]
        simp [Matches, hb]

theorem Matches.reach {bytes : List UInt8} (h : s.Matches bytes p) (he : IsPlain bytes)
    (hp : p ≤ s.len) : s.Reach p (p + bytes.length) := by
  induction bytes generalizing p with
  | nil => exact .refl hp
  | cons b rest ih =>
      obtain ⟨hb, hrest⟩ := h
      have hplain := he b List.mem_cons_self
      have hlt : p < s.len := lt_len_of_byte_ne_zero (by rw [hb]; exact hplain.1)
      have hstep : s.Reach p (p + 1) := .ascii hlt (by rw [hb]; exact hplain.2)
      have := hstep.trans (ih hrest he.tail hlt)
      rwa [List.length_cons, Nat.add_comm rest.length 1, ← Nat.add_assoc]

theorem isPlain_of_mem_longestFirst :
    ∀ entry ∈ Tag.longestFirst, IsPlain entry.1 ∧ 0 < entry.1.length := by
  decide +kernel

theorem findM?_eq_ok {α : Type} {f : α → Except Fault Bool} {g : α → Bool} {l : List α}
    (h : ∀ a ∈ l, f a = .ok (g a)) : l.findM? f = .ok (l.find? g) := by
  induction l with
  | nil => rfl
  | cons a rest ih =>
      have ha := h a List.mem_cons_self
      have hrest := ih fun b hb => h b (List.mem_cons_of_mem a hb)
      simp only [List.findM?, ha, except_ok_bind, List.find?_cons]
      cases g a with
      | true => rfl
      | false => exact hrest

/-- The first entry that fits, and the longest ones come first. -/
def fixed? (s : Source) (p : Nat) : Option (List UInt8 × Tag) :=
  Tag.longestFirst.find? fun entry => decide (s.Matches entry.1 p)

theorem fixedAt_eq_ok (hp : p ≤ s.len) :
    s.fixedAt p = .ok (match s.fixed? p with
      | some (bytes, tag) => (tag, p + bytes.length)
      | none => (.invalidChar, p + 1)) := by
  have hfind : (Tag.longestFirst.findM? fun entry => s.startsWith entry.1 p) =
      .ok (s.fixed? p) :=
    findM?_eq_ok fun entry he => startsWith_eq_ok (isPlain_of_mem_longestFirst entry he).1 hp
  unfold fixedAt
  rw [hfind]
  cases s.fixed? p <;> rfl

/-- Only the entries that start with the byte at `p` matter. -/
theorem fixed?_eq_find? (s : Source) (p : Nat) :
    s.fixed? p = (Tag.longestFirst.filter fun entry => entry.1.head? == some (s.byte p)).find?
      fun entry => decide (s.Matches entry.1 p) := by
  rw [List.find?_filter]
  apply List.find?_congr
  rintro ⟨bytes, tag⟩ hentry
  have hpos := (isPlain_of_mem_longestFirst _ hentry).2
  cases bytes with
  | nil => cases hpos
  | cons b rest =>
      apply decide_eq_decide.2
      simp only [List.head?_cons, beq_iff_eq, Option.some.injEq, decide_eq_true_eq]
      exact ⟨fun hm => ⟨hm.1.symm, hm⟩, And.right⟩

theorem wordStep_reach (h : 0 < s.wordStep p) : p < s.len ∧ s.Reach p (p + s.wordStep p) := by
  unfold wordStep at h ⊢
  by_cases hc : Byte.continuesWord (s.byte p) = true
  · have hlt := lt_len_of_accepts Byte.textClass_continuesWord hc
    simp only [hc, if_true]
    exact ⟨hlt, .ascii hlt (Byte.textClass_continuesWord.ascii _ hc)⟩
  · by_cases ha : Byte.isAscii (s.byte p) = true
    · simp [hc, ha] at h
    · have hlt : p < s.len := by
        apply lt_len_of_byte_ne_zero
        intro h0
        rw [h0] at ha
        exact ha (by decide)
      by_cases hw : (s.char? p).any isWordPart = true
      · simp only [hc, ha, hw, if_true, Bool.false_eq_true, if_false]
        exact ⟨hlt, .char hlt⟩
      · simp [hc, ha, hw] at h

theorem skipWord_returns (hp : p ≤ s.len) : Returns (s.skipWord p) (s.Reach p) := by
  fun_induction skipWord s p with
  | case1 p hsize hstep ih =>
      have hreach := (wordStep_reach hstep).2
      exact (ih hreach.le_len).mono fun q hq => hreach.trans hq
  | case2 p hsize hstep => exact .ok (.refl hp)
  | case3 p hsize => exact absurd (lt_size_of_le_len hp) hsize

end Source

end JavaLex
