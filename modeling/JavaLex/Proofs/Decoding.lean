import JavaLex.Proofs.Quoting

/-! Decoding. The first byte of a character tells how many bytes belong to it, and no other byte
starts one, so that a character is read wherever one stands and nowhere else. -/

namespace JavaLex.Source

variable {s : Source} {p : Nat} {c : Char}

theorem fromUTF8?_toByteArray (t : String) : String.fromUTF8? t.toByteArray = some t :=
  dif_pos t.isValidUTF8

theorem decodeAt_of_char? (h : s.char? p = some c) : s.decodeAt p = .ok (some c) := by
  obtain ⟨-, hp⟩ := isBoundary_of_char? h
  have hwidth := charWidth_of_char? h
  have hend := add_charWidth_le_len hp
  obtain ⟨a, b, htext, rfl⟩ := char?_eq_some_iff.1 h
  have hbytes := extract_of_append htext
  rw [String.utf8ByteSize_singleton, ← hwidth, ← Nat.min_eq_left hend] at hbytes
  have hfront : (String.singleton c).front? = some c := by
    rw [String.front?_eq, String.toList_singleton]
    rfl
  simp only [decodeAt, atEnd_of_le_len (Nat.le_of_lt hp), decide_eq_false (Nat.ne_of_lt hp),
    read_of_le_len (Nat.le_of_lt hp), except_ok_bind, Bool.false_eq_true, if_false, except_pure]
  rw [hbytes, fromUTF8?_toByteArray, Option.bind_some, hfront]

/-- Bytes that start inside a character spell no text. -/
theorem decodeAt_of_not_isBoundary (hp : p < s.len) (hb : ¬ s.IsBoundary p) :
    s.decodeAt p = .ok none := by
  have hpos := Byte.charWidth_pos (s.byte p)
  have hend := add_charWidth_le_len hp
  have hinvalid : ¬ (s.text.toByteArray.extract p
      (min (p + Byte.charWidth (s.byte p)) s.len)).IsValidUTF8 := by
    have hiff := String.Pos.Raw.isValidUTF8_extract_iff (s := s.text) ⟨p⟩
      ⟨min (p + Byte.charWidth (s.byte p)) s.len⟩
    intro hvalid
    rcases (hiff (by simp [String.Pos.Raw.le_iff]; omega)
      (by simp [String.Pos.Raw.le_iff, len])).1 hvalid with heq | ⟨hstart, -⟩
    · have := congrArg String.Pos.Raw.byteIdx heq
      simp only at this
      omega
    · exact hb hstart
  simp only [decodeAt, atEnd_of_le_len (Nat.le_of_lt hp), decide_eq_false (Nat.ne_of_lt hp),
    read_of_le_len (Nat.le_of_lt hp), except_ok_bind, Bool.false_eq_true, if_false, except_pure]
  rw [String.fromUTF8?, dif_neg hinvalid, Option.bind_none]

/-- Decoding finds the characters of the text, and faults where a read does. -/
theorem decodeAt_eq_charAt (s : Source) (p : Nat) : s.decodeAt p = s.charAt p := by
  rcases Nat.lt_or_ge p s.len with hp | hp
  · rw [charAt, read_of_le_len (Nat.le_of_lt hp), except_ok_bind, except_pure]
    cases hc : s.char? p with
    | some c => exact decodeAt_of_char? hc
    | none =>
        refine decodeAt_of_not_isBoundary hp fun hb => ?_
        obtain ⟨c, hsome, -⟩ := exists_char_of_isBoundary hb hp
        rw [hc] at hsome
        cases hsome
  · have hnone : s.char? p = none := by
      refine Option.eq_none_iff_forall_ne_some.2 fun c hc => ?_
      exact Nat.not_lt_of_le hp (isBoundary_of_char? hc).2
    unfold decodeAt charAt atEnd read
    split
    · simp [hnone, byte_of_len_le hp, hp]
    · rfl

/-- The text has the character `c` at `p`. -/
def Holds (s : Source) (p : Nat) (c : Char) : Prop :=
  ∃ before after, s.text = before ++ (String.singleton c ++ after) ∧ before.utf8ByteSize = p

theorem isLeast_of_char? (h : s.char? p = some c) :
    IsLeast {q | p < q ∧ s.IsBoundary q} (p + c.utf8Size) := by
  obtain ⟨hb, hp⟩ := isBoundary_of_char? h
  refine ⟨⟨Nat.lt_add_of_pos_right c.utf8Size_pos, ?_⟩, ?_⟩
  · rw [← charWidth_of_char? h]
    exact hb.add_charWidth hp
  · rintro q ⟨hlt, hq⟩
    by_contra hshort
    exact not_isBoundary_inside h hlt (Nat.lt_of_not_le hshort) hq

/-- A character is decoded just where the text has one, and it is passed to the next boundary. -/
theorem charAt_reads (s : Source) (hfit : s.len ≤ maxOffset) {p : Nat} (hp : p ≤ s.len) :
    ∃ found, s.decodeAt p = .ok found ∧ s.charAt p = .ok found ∧
      (∀ c, found = some c ↔ s.IsBoundary p ∧ p < s.len ∧ s.Holds p c) ∧
      (found = none ↔ ¬ (s.IsBoundary p ∧ p < s.len)) ∧
      ∀ c, found = some c →
        s.skipChar p = .ok (p + c.utf8Size) ∧
          IsLeast {q | p < q ∧ s.IsBoundary q} (p + c.utf8Size) ∧ p + c.utf8Size ≤ s.len := by
  have hread : s.charAt p = .ok (s.char? p) := by
    rw [charAt, read_of_le_len hp, except_ok_bind, except_pure]
  refine ⟨s.char? p, (s.decodeAt_eq_charAt p).trans hread, hread, ?_, ?_, ?_⟩
  · intro c
    constructor
    · intro hc
      obtain ⟨hb, hlt⟩ := isBoundary_of_char? hc
      exact ⟨hb, hlt, char?_eq_some_iff.1 hc⟩
    · rintro ⟨-, -, hholds⟩
      exact char?_eq_some_iff.2 hholds
  · constructor
    · rintro hnone ⟨hb, hlt⟩
      obtain ⟨c, hc, -⟩ := exists_char_of_isBoundary hb hlt
      rw [hnone] at hc
      cases hc
    · intro hnot
      exact Option.eq_none_iff_forall_ne_some.2 fun c hc => hnot (isBoundary_of_char? hc)
  · intro c hc
    have hleast := isLeast_of_char? hc
    have hend := hleast.1.2.le_len
    refine ⟨?_, hleast, hend⟩
    rw [skipChar, read_of_le_len hp, except_ok_bind, charWidth_of_char? hc]
    exact checkedAdd_eq_ok (Nat.le_trans hend hfit)

/-- A sign of three bytes, an offset inside it, the zero character behind it, and the end. -/
theorem charAt_reads_wide :
    len ⟨"a€\x00"⟩ ≤ maxOffset ∧
      decodeAt ⟨"a€\x00"⟩ 1 = .ok (some '€') ∧ skipChar ⟨"a€\x00"⟩ 1 = .ok 4 ∧
      decodeAt ⟨"a€\x00"⟩ 2 = .ok none ∧
      decodeAt ⟨"a€\x00"⟩ 4 = .ok (some '\x00') ∧ skipChar ⟨"a€\x00"⟩ 4 = .ok 5 ∧
      decodeAt ⟨"a€\x00"⟩ 5 = .ok none := by
  have hfit : len ⟨"a€\x00"⟩ ≤ maxOffset := by decide
  obtain ⟨sign, hsign, -, hsigns, -, hpast⟩ := charAt_reads _ hfit (p := 1) (by decide)
  have heuro := (hsigns '€').2
    ⟨by decide, by decide, "a", "\x00", by decide +kernel, by decide +kernel⟩
  obtain ⟨inside, hinside, -, -, hnothing, -⟩ := charAt_reads _ hfit (p := 2) (by decide)
  obtain ⟨zero, hzero, -, hzeros, -, hlast⟩ := charAt_reads _ hfit (p := 4) (by decide)
  have hnull := (hzeros '\x00').2
    ⟨by decide, by decide, "a€", "", by decide +kernel, by decide +kernel⟩
  obtain ⟨behind, hbehind, -, -, hend, -⟩ := charAt_reads _ hfit (p := 5) (by decide)
  refine ⟨hfit, heuro ▸ hsign, (hpast _ heuro).1, ?_, hnull ▸ hzero, (hlast _ hnull).1, ?_⟩
  · rw [hinside, hnothing.2 (by decide)]
  · rw [hbehind, hend.2 (by decide)]

end JavaLex.Source
