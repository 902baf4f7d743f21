import JavaLex.Source.Search

/-! Where a source may be cut. A boundary is an offset at which the text splits into two texts;
what stands at or between boundaries is described by such splits, so that bytes, characters and
slices of a text and of its parts can be compared. -/

namespace JavaLex

theorem forall_byte {P : UInt8 → Prop} (h : ∀ i : Fin 256, P (UInt8.ofFin i)) (b : UInt8) : P b :=
  h b.toFin

namespace Byte

theorem charWidth_eq_utf8ByteSize {b : UInt8} (h : b.IsUTF8FirstByte) :
    charWidth b = b.utf8ByteSize h := by
  revert h
  apply forall_byte (P := fun b => ∀ h : b.IsUTF8FirstByte, charWidth b = b.utf8ByteSize h)
  decide +kernel

theorem charWidth_of_not_first {b : UInt8} (h : ¬ b.IsUTF8FirstByte) : charWidth b = 1 := by
  revert h
  apply forall_byte (P := fun b => ¬ b.IsUTF8FirstByte → charWidth b = 1)
  decide +kernel

theorem isUTF8FirstByte_of_isAscii {b : UInt8} (h : isAscii b = true) : b.IsUTF8FirstByte := by
  revert h
  apply forall_byte (P := fun b => isAscii b = true → b.IsUTF8FirstByte)
  decide +kernel

theorem charWidth_of_isAscii {b : UInt8} (h : isAscii b = true) : charWidth b = 1 := by
  revert h
  apply forall_byte (P := fun b => isAscii b = true → charWidth b = 1)
  decide +kernel

end Byte

/-- Of two ways to cut a text, the later one cuts the rest that the earlier one leaves. -/
theorem exists_append_of_append_eq {a b c d : String} (h : a ++ b = c ++ d)
    (hle : a.utf8ByteSize ≤ c.utf8ByteSize) : ∃ m, c = a ++ m ∧ b = m ++ d := by
  have hl : a.toList ++ b.toList = c.toList ++ d.toList := by
    simpa only [String.toList_append] using congrArg String.toList h
  rcases List.append_eq_append_iff.1 hl with ⟨m, hc, hb⟩ | ⟨m, ha, hd⟩
  · refine ⟨String.ofList m, ?_, ?_⟩
    · exact String.toList_injective (by simpa using hc)
    · exact String.toList_injective (by simpa using hb)
  · -- here `a` is the longer one, so that nothing lies between the two cuts
    have ha' : a = c ++ String.ofList m := String.toList_injective (by simpa using ha)
    have hm : (String.ofList m).utf8ByteSize = 0 := by
      rw [ha', String.utf8ByteSize_append] at hle
      omega
    have hc : c = a := by rw [ha', String.utf8ByteSize_eq_zero_iff.1 hm, String.append_empty]
    subst hc
    exact ⟨"", String.append_empty.symm, by simpa using (String.append_right_inj _).1 h⟩

namespace Source

variable {s : Source} {p q : Nat}

theorem byte_of_lt (h : p < s.len) :
    s.byte p = s.text.getUTF8Byte ⟨p⟩ (String.Pos.Raw.lt_iff.mpr h) := dif_pos h

theorem byte_append_left {a b : String} (h : p < a.utf8ByteSize) :
    byte ⟨a ++ b⟩ p = byte ⟨a⟩ p := by
  have hab : p < len ⟨a ++ b⟩ := by
    simp only [len, String.utf8ByteSize_append]
    omega
  rw [byte_of_lt hab, byte_of_lt (s := ⟨a⟩) h]
  simp only [String.getUTF8Byte, String.toByteArray_append]
  exact ByteArray.getElem_append_left h

theorem byte_append_right (a b : String) (p : Nat) :
    byte ⟨a ++ b⟩ (p + a.utf8ByteSize) = byte ⟨b⟩ p := by
  by_cases h : p < len ⟨b⟩
  · have hab : p + a.utf8ByteSize < len ⟨a ++ b⟩ := by
      simp only [len, String.utf8ByteSize_append] at h ⊢
      omega
    rw [byte_of_lt hab, byte_of_lt h]
    simp only [String.getUTF8Byte, String.toByteArray_append]
    rw [ByteArray.getElem_append_right (by simp)]
    simp
  · rw [byte_of_len_le (Nat.not_lt.1 h), byte_of_len_le]
    simp only [len, String.utf8ByteSize_append] at h ⊢
    omega

theorem isBoundary_iff_first :
    s.IsBoundary p ↔ p = s.len ∨ p < s.len ∧ (s.byte p).IsUTF8FirstByte := by
  unfold IsBoundary
  rw [String.Pos.Raw.isValid_iff_isUTF8FirstByte]
  constructor
  · rintro (h | ⟨h, hb⟩)
    · exact .inl (congrArg String.Pos.Raw.byteIdx h)
    · exact .inr ⟨h, by rw [byte_of_lt h]; exact hb⟩
  · rintro (h | ⟨h, hb⟩)
    · exact .inl (String.Pos.Raw.ext h)
    · exact .inr ⟨h, by rw [byte_of_lt h] at hb; exact hb⟩

theorem isBoundary_iff_append :
    s.IsBoundary p ↔ ∃ a b, s.text = a ++ b ∧ a.utf8ByteSize = p := by
  unfold IsBoundary
  rw [String.Pos.Raw.isValid_iff_exists_append]
  constructor
  · rintro ⟨a, b, h, hp⟩
    exact ⟨a, b, h, (congrArg String.Pos.Raw.byteIdx hp).symm⟩
  · rintro ⟨a, b, h, hp⟩
    exact ⟨a, b, h, String.Pos.Raw.ext hp.symm⟩

theorem isBoundary_zero (s : Source) : s.IsBoundary 0 := String.Pos.Raw.isValid_zero

theorem isBoundary_len (s : Source) : s.IsBoundary s.len := isBoundary_iff_first.2 (.inl rfl)

theorem IsBoundary.le_len (h : s.IsBoundary p) : p ≤ s.len := by
  rcases isBoundary_iff_first.1 h with rfl | ⟨hlt, -⟩
  · exact Nat.le_refl _
  · exact Nat.le_of_lt hlt

theorem isBoundary_of_isAscii (hp : p < s.len) (h : Byte.isAscii (s.byte p) = true) :
    s.IsBoundary p :=
  isBoundary_iff_first.2 (.inr ⟨hp, Byte.isUTF8FirstByte_of_isAscii h⟩)

theorem char?_eq_some_iff {c : Char} :
    s.char? p = some c ↔
      ∃ a b, s.text = a ++ (String.singleton c ++ b) ∧ a.utf8ByteSize = p := by
  constructor
  · intro h
    unfold char? at h
    split at h
    · rw [String.Pos.get?_eq_dif] at h
      split at h
      · cases h
      · rename_i hend
        have hs := String.Pos.splits_next_right _ hend
        rw [Option.some.inj h] at hs
        exact ⟨_, _, hs.eq_append,
          (congrArg String.Pos.Raw.byteIdx hs.offset_eq_rawEndPos).symm⟩
    · cases h
  · rintro ⟨a, b, h, hp⟩
    have hb : s.IsBoundary p := isBoundary_iff_append.2 ⟨a, _, h, hp⟩
    have hs : (s.text.pos ⟨p⟩ hb).Splits a (String.singleton c ++ b) :=
      ⟨h, String.Pos.Raw.ext hp.symm⟩
    have hend : s.text.pos ⟨p⟩ hb ≠ s.text.endPos := hs.ne_endPos_of_singleton
    have hrest := congrArg String.toList (hs.eq_right (String.Pos.splits_next_right _ hend))
    unfold char?
    rw [dif_pos hb, String.Pos.get?_eq_dif, dif_neg hend]
    simp only [String.toList_append, String.toList_singleton, List.cons_append] at hrest
    rw [(List.cons.inj hrest).1]

/-- The character at a boundary, whose width its first byte tells. -/
theorem exists_char_of_isBoundary (hb : s.IsBoundary p) (hp : p < s.len) :
    ∃ c, s.char? p = some c ∧ c.utf8Size = Byte.charWidth (s.byte p) := by
  have hend : s.text.pos ⟨p⟩ hb ≠ s.text.endPos := by
    intro h
    have := congrArg (fun q => q.offset.byteIdx) h
    exact Nat.ne_of_lt hp this
  refine ⟨(s.text.pos ⟨p⟩ hb).get hend, ?_, ?_⟩
  · unfold char?
    rw [dif_pos hb, String.Pos.get?_eq_dif, dif_neg hend]
  · have hfirst : (s.byte p).IsUTF8FirstByte := by
      rcases isBoundary_iff_first.1 hb with h | h
      · omega
      · exact h.2
    rw [Byte.charWidth_eq_utf8ByteSize hfirst]
    refine (ByteArray.utf8Size_utf8DecodeChar (b := s.text.toByteArray) (i := 0 + p)).trans ?_
    simp only [Nat.zero_add, byte_of_lt hp, String.getUTF8Byte]

/-- A character never runs past the text, whether or not it is read from its first byte. -/
theorem add_charWidth_le_len (hp : p < s.len) : p + Byte.charWidth (s.byte p) ≤ s.len := by
  by_cases hb : (s.byte p).IsUTF8FirstByte
  · obtain ⟨c, hc, hw⟩ := exists_char_of_isBoundary (isBoundary_iff_first.2 (.inr ⟨hp, hb⟩)) hp
    obtain ⟨a, b, h, rfl⟩ := char?_eq_some_iff.1 hc
    rw [← hw]
    simp only [len, h, String.utf8ByteSize_append, String.utf8ByteSize_singleton]
    omega
  · rw [Byte.charWidth_of_not_first hb]
    exact hp

theorem IsBoundary.add_charWidth (hb : s.IsBoundary p) (hp : p < s.len) :
    s.IsBoundary (p + Byte.charWidth (s.byte p)) := by
  obtain ⟨c, hc, hw⟩ := exists_char_of_isBoundary hb hp
  obtain ⟨a, b, h, rfl⟩ := char?_eq_some_iff.1 hc
  rw [← hw]
  refine isBoundary_iff_append.2 ⟨a ++ String.singleton c, b, ?_, ?_⟩
  · rw [h, String.append_assoc]
  · rw [String.utf8ByteSize_append, String.utf8ByteSize_singleton]

theorem extract_of_append {a t b : String} (h : s.text = a ++ (t ++ b)) :
    s.text.toByteArray.extract a.utf8ByteSize (a.utf8ByteSize + t.utf8ByteSize) =
      t.toByteArray := by
  rw [h, String.toByteArray_append, String.toByteArray_append]
  exact (ByteArray.extract_append_size_add (i := 0)).trans (ByteArray.extract_append_eq_left rfl)

theorem slice?_of_append {a t b : String} (h : s.text = a ++ (t ++ b)) :
    s.slice? a.utf8ByteSize (a.utf8ByteSize + t.utf8ByteSize) = some t := by
  have hp : s.IsBoundary a.utf8ByteSize := isBoundary_iff_append.2 ⟨a, _, h, rfl⟩
  have hq : s.IsBoundary (a.utf8ByteSize + t.utf8ByteSize) := by
    refine isBoundary_iff_append.2 ⟨a ++ t, b, ?_, String.utf8ByteSize_append⟩
    rw [h, String.append_assoc]
  unfold slice?
  rw [dif_pos ⟨hp, hq, Nat.le_add_right _ _⟩]
  congr 1
  exact String.toByteArray_inj.1 (extract_of_append h)

theorem isBoundary_of_slice? {t : String} (h : s.slice? p q = some t) :
    s.IsBoundary p ∧ s.IsBoundary q ∧ p ≤ q := by
  unfold slice? at h
  split at h
  · assumption
  · cases h

theorem slice?_eq_some_iff {t : String} :
    s.slice? p q = some t ↔
      ∃ a b, s.text = a ++ (t ++ b) ∧ a.utf8ByteSize = p ∧ p + t.utf8ByteSize = q := by
  constructor
  · intro h
    obtain ⟨hp, hq, hle⟩ := isBoundary_of_slice? h
    obtain ⟨a, r, har, rfl⟩ := isBoundary_iff_append.1 hp
    obtain ⟨c, b, hcb, rfl⟩ := isBoundary_iff_append.1 hq
    obtain ⟨m, rfl, rfl⟩ := exists_append_of_append_eq (har.symm.trans hcb) hle
    rw [String.utf8ByteSize_append, slice?_of_append har] at h
    cases h
    exact ⟨a, b, har, rfl, String.utf8ByteSize_append.symm⟩
  · rintro ⟨a, b, h, rfl, rfl⟩
    exact slice?_of_append h

theorem slice?_eq_some_slice (hp : s.IsBoundary p) (hq : s.IsBoundary q) (hle : p ≤ q) :
    s.slice? p q = some (s.slice p q) := by
  unfold slice slice?
  rw [dif_pos ⟨hp, hq, hle⟩]
  rfl

theorem slice?_self (hp : s.IsBoundary p) : s.slice? p p = some "" := by
  obtain ⟨a, b, h, ha⟩ := isBoundary_iff_append.1 hp
  exact slice?_eq_some_iff.2 ⟨a, b, by rw [h, String.empty_append], ha, by simp⟩

theorem slice?_trans {r : Nat} {t u : String} (h : s.slice? p q = some t)
    (h' : s.slice? q r = some u) : s.slice? p r = some (t ++ u) := by
  obtain ⟨a, b, hs, rfl, rfl⟩ := slice?_eq_some_iff.1 h
  obtain ⟨c, d, hs', hc, rfl⟩ := slice?_eq_some_iff.1 h'
  have hcut : (a ++ t) ++ b = c ++ (u ++ d) := by rw [String.append_assoc, ← hs, hs']
  have hb : b = u ++ d := by
    obtain ⟨m, hm, hrest⟩ :=
      exists_append_of_append_eq hcut (by rw [String.utf8ByteSize_append]; omega)
    have hsize := congrArg String.utf8ByteSize hm
    simp only [String.utf8ByteSize_append] at hsize
    rw [hrest, String.utf8ByteSize_eq_zero_iff.1 (by omega : m.utf8ByteSize = 0),
      String.empty_append]
  refine slice?_eq_some_iff.2 ⟨a, d, ?_, rfl, ?_⟩
  · rw [hs, hb, String.append_assoc]
  · rw [String.utf8ByteSize_append, Nat.add_assoc]

theorem slice?_zero_len (s : Source) : s.slice? 0 s.len = some s.text :=
  slice?_eq_some_iff.2 ⟨"", "", by simp, rfl, Nat.zero_add _⟩

theorem eq_of_byte_eq {a b : String} (hlen : a.utf8ByteSize = b.utf8ByteSize)
    (h : ∀ i, i < a.utf8ByteSize → byte ⟨a⟩ i = byte ⟨b⟩ i) : a = b := by
  apply String.toByteArray_inj.1
  apply ByteArray.ext_getElem hlen
  intro i hi hi'
  have := h i hi
  rwa [byte_of_lt (s := ⟨a⟩) hi, byte_of_lt (s := ⟨b⟩) hi'] at this

theorem byte_of_slice? {t : String} (h : s.slice? p q = some t) {i : Nat}
    (hi : i < t.utf8ByteSize) : s.byte (i + p) = byte ⟨t⟩ i := by
  obtain ⟨a, b, hs, rfl, -⟩ := slice?_eq_some_iff.1 h
  rw [← byte_append_left (b := b) hi, ← byte_append_right a (t ++ b) i, ← hs]

theorem slice_eq_of_byte_eq {t : String} (hp : s.IsBoundary p)
    (hq : s.IsBoundary (p + t.utf8ByteSize))
    (h : ∀ i, i < t.utf8ByteSize → s.byte (i + p) = byte ⟨t⟩ i) :
    s.slice p (p + t.utf8ByteSize) = t := by
  have hslice := slice?_eq_some_slice hp hq (Nat.le_add_right _ _)
  obtain ⟨a, b, -, -, hsize⟩ := slice?_eq_some_iff.1 hslice
  apply eq_of_byte_eq (by omega)
  intro i hi
  rw [← byte_of_slice? hslice hi, h i (by omega)]

theorem char?_append_left {a b : String} (h : p < a.utf8ByteSize) :
    char? ⟨a ++ b⟩ p = char? ⟨a⟩ p := by
  apply Option.ext
  intro c
  simp only [char?_eq_some_iff]
  constructor
  · rintro ⟨l, r, hlr, rfl⟩
    obtain ⟨m, rfl, hm⟩ := exists_append_of_append_eq hlr.symm (Nat.le_of_lt h)
    rcases hm' : m.toList with - | ⟨d, rest⟩
    · rw [String.toList_eq_nil_iff.1 hm', String.append_empty] at h
      omega
    · have hd : m = String.singleton d ++ String.ofList rest :=
        String.toList_injective (by simp [hm'])
      have hcd := congrArg String.toList hm
      simp only [hd, String.toList_append, String.toList_singleton, List.cons_append] at hcd
      exact ⟨l, String.ofList rest, by rw [(List.cons.inj hcd).1, hd], rfl⟩
  · rintro ⟨l, r, rfl, rfl⟩
    exact ⟨l, r ++ b, by simp only [String.append_assoc], rfl⟩

theorem char?_append_right (a b : String) (p : Nat) :
    char? ⟨a ++ b⟩ (p + a.utf8ByteSize) = char? ⟨b⟩ p := by
  apply Option.ext
  intro c
  simp only [char?_eq_some_iff]
  constructor
  · rintro ⟨l, r, hlr, hp⟩
    obtain ⟨m, rfl, rfl⟩ := exists_append_of_append_eq hlr (by omega)
    rw [String.utf8ByteSize_append] at hp
    exact ⟨m, r, rfl, by omega⟩
  · rintro ⟨l, r, rfl, rfl⟩
    exact ⟨a ++ l, r, by simp only [String.append_assoc],
      by rw [String.utf8ByteSize_append, Nat.add_comm]⟩

theorem slice?_append_left {a b : String} (h : q ≤ a.utf8ByteSize) :
    slice? ⟨a ++ b⟩ p q = slice? ⟨a⟩ p q := by
  apply Option.ext
  intro t
  simp only [slice?_eq_some_iff]
  constructor
  · rintro ⟨l, r, hlr, rfl, rfl⟩
    rw [← String.append_assoc] at hlr
    rw [← String.utf8ByteSize_append] at h
    obtain ⟨m, rfl, rfl⟩ := exists_append_of_append_eq hlr.symm h
    exact ⟨l, m, by simp only [String.append_assoc], rfl, rfl⟩
  · rintro ⟨l, r, rfl, rfl, rfl⟩
    exact ⟨l, r ++ b, by simp only [String.append_assoc], rfl, rfl⟩

theorem slice?_append_right (a b : String) (p q : Nat) :
    slice? ⟨a ++ b⟩ (p + a.utf8ByteSize) (q + a.utf8ByteSize) = slice? ⟨b⟩ p q := by
  apply Option.ext
  intro t
  simp only [slice?_eq_some_iff]
  constructor
  · rintro ⟨l, r, hlr, hp, hq⟩
    obtain ⟨m, rfl, rfl⟩ := exists_append_of_append_eq hlr (by omega)
    rw [String.utf8ByteSize_append] at hp
    exact ⟨m, r, rfl, by omega, by omega⟩
  · rintro ⟨l, r, rfl, rfl, rfl⟩
    exact ⟨a ++ l, r, by simp only [String.append_assoc],
      by rw [String.utf8ByteSize_append, Nat.add_comm], by omega⟩

end Source

end JavaLex
