import JavaLex.Proofs.Veiling
import JavaLex.Source.Encoding

/-! Zero bytes inside a text. They are listed with the traces of the encoding, they are lexemes of
their own unless a comment or a literal holds them, and they end no lexeme. -/

namespace JavaLex

/-- Whether a lexeme is a comment or a quoted literal, closed or not. -/
def Tag.encloses : Tag → Bool
  | .comment _ | .unterminatedComment | .quoted _ | .unterminated _ => true
  | _ => false

theorem Tag.encloses_of_admits {tag : Tag} (h : tag.admits 0 = true) :
    tag = .interiorNull ∨ tag.encloses = true := by
  cases tag with
  | interiorNull => exact .inl rfl
  | comment _ | unterminatedComment | quoted _ | unterminated _ => exact .inr rfl
  | _ => cases h

namespace Source

variable {s : Source} {chosen : Nat → Bool} {p i : Nat} {c : Char}

/-- The characters from `p` on with ones for the zero characters at chosen offsets. -/
def veilChars (chosen : Nat → Bool) : Nat → List Char → List Char
  | _, [] => []
  | p, c :: rest =>
    (if c = '\x00' ∧ chosen p then '\x01' else c) :: veilChars chosen (p + c.utf8Size) rest

/-- The text with ones for the zero bytes at chosen offsets. -/
def veiled (s : Source) (chosen : Nat → Bool) : Source :=
  ⟨String.ofList (veilChars chosen 0 s.text.toList)⟩

theorem byte_singleton_ne_zero (hc : c ≠ '\x00') (hi : i < c.utf8Size) :
    byte ⟨String.singleton c⟩ i ≠ 0 := by
  have hchar : char? ⟨String.singleton c⟩ 0 = some c :=
    char?_eq_some_iff.2 ⟨"", "", by simp, rfl⟩
  have hlen : len ⟨String.singleton c⟩ = c.utf8Size := String.utf8ByteSize_singleton
  intro hzero
  have hascii : Byte.isAscii (byte ⟨String.singleton c⟩ i) = true := by
    rw [hzero]
    rfl
  rcases Nat.eq_zero_or_pos i with rfl | hpos
  · have hnull := forall_asciiChar (P := fun b c => b = 0 → c = '\x00') (by decide +kernel) hchar
      hascii
    exact hc (hnull hzero)
  · have hinside := not_isBoundary_inside hchar hpos (by omega)
    exact hinside (isBoundary_of_isAscii (by omega) hascii)

theorem Veils.refl (h : ∀ p, p < s.len → s.byte p = 0 → chosen p = false) :
    Veils chosen s s := by
  refine ⟨rfl, fun p => (if_neg ?_).symm⟩
  rintro ⟨hlt, hzero, hchosen⟩
  rw [h p hlt hzero] at hchosen
  cases hchosen

theorem veils_singleton (chosen : Nat → Bool) (p : Nat) (c : Char) :
    Veils (fun i => chosen (p + i)) ⟨String.singleton c⟩
      ⟨String.singleton (if c = '\x00' ∧ chosen p then '\x01' else c)⟩ := by
  have hlen : len ⟨String.singleton c⟩ = c.utf8Size := String.utf8ByteSize_singleton
  split
  · rename_i hveil
    obtain ⟨rfl, hchosen⟩ := hveil
    refine ⟨rfl, fun i => ?_⟩
    cases i with
    | zero => exact (if_pos ⟨by decide, by decide, hchosen⟩).symm
    | succ i =>
        have hbehind : ¬ i + 1 < len ⟨String.singleton '\x00'⟩ := by
          rw [hlen]
          exact Nat.not_lt_of_le (Nat.le_add_left 1 i)
        rw [if_neg fun hzero => hbehind hzero.1]
        exact (byte_of_len_le (Nat.le_of_not_lt hbehind)).trans
          (byte_of_len_le (Nat.le_of_not_lt hbehind)).symm
  · rename_i hveil
    refine .refl fun i hi hzero => ?_
    rw [hlen] at hi
    by_cases hc : c = '\x00'
    · subst hc
      obtain rfl : i = 0 := Nat.lt_one_iff.1 hi
      simpa using hveil
    · exact absurd hzero (byte_singleton_ne_zero hc hi)

theorem Veils.append {a b a' b' : String} (h : Veils (fun i => chosen (p + i)) ⟨a⟩ ⟨a'⟩)
    (h' : Veils (fun i => chosen (p + a.utf8ByteSize + i)) ⟨b⟩ ⟨b'⟩) :
    Veils (fun i => chosen (p + i)) ⟨a ++ b⟩ ⟨a' ++ b'⟩ := by
  have hfirst : a'.utf8ByteSize = a.utf8ByteSize := h.len_eq
  have hlast : b'.utf8ByteSize = b.utf8ByteSize := h'.len_eq
  have hlen : len ⟨a ++ b⟩ = a.utf8ByteSize + b.utf8ByteSize := String.utf8ByteSize_append
  refine ⟨by rw [hlen, len, String.utf8ByteSize_append, hfirst, hlast], fun i => ?_⟩
  rcases Nat.lt_or_ge i a.utf8ByteSize with hlt | hge
  · have hbyte := h.byte_eq i
    have hwhole : i < len ⟨a ++ b⟩ := by omega
    rw [byte_append_left hlt, byte_append_left (by omega), hbyte]
    simp only [hwhole, show i < len ⟨a⟩ from hlt, true_and]
  · obtain ⟨j, rfl⟩ := Nat.exists_eq_add_of_le' hge
    have hbyte := h'.byte_eq j
    have hinside : j + a.utf8ByteSize < len ⟨a ++ b⟩ ↔ j < len ⟨b⟩ := by
      rw [hlen, show len ⟨b⟩ = b.utf8ByteSize from rfl]
      omega
    have hoffset : p + (j + a.utf8ByteSize) = p + a.utf8ByteSize + j := by omega
    rw [byte_append_right, ← hfirst, byte_append_right, hbyte, hfirst]
    simp only [hinside, hoffset]

theorem veils_veilChars (chosen : Nat → Bool) (p : Nat) (chars : List Char) :
    Veils (fun i => chosen (p + i)) ⟨String.ofList chars⟩
      ⟨String.ofList (veilChars chosen p chars)⟩ := by
  induction chars generalizing p with
  | nil => exact .refl fun i hi => absurd hi (Nat.not_lt_zero i)
  | cons c rest ih =>
      have hrest := ih (p + c.utf8Size)
      rw [← String.utf8ByteSize_singleton] at hrest
      have happend := (veils_singleton chosen p c).append hrest
      have hcons : ∀ (c : Char) chars,
          String.singleton c ++ String.ofList chars = String.ofList (c :: chars) :=
        fun c chars => String.toList_injective (by simp)
      rwa [hcons, hcons, String.utf8ByteSize_singleton] at happend

theorem veils_veiled (s : Source) (chosen : Nat → Bool) : Veils chosen s (s.veiled chosen) := by
  have h := veils_veilChars chosen 0 s.text.toList
  simp only [Nat.zero_add, String.ofList_toList] at h
  exact h

theorem hasByteOrderMark_iff (s : Source) :
    s.hasByteOrderMark = true ↔ s.text.toList.head? = some '\uFEFF' := by
  simp only [hasByteOrderMark, Bool.and_eq_true, beq_iff_eq, and_assoc]
  constructor
  · rintro ⟨hfirst, hsecond, hthird⟩
    have hlen : 0 < s.len := lt_len_of_byte_ne_zero (by rw [hfirst]; decide)
    have hstop := s.isBoundary_zero.add_charWidth hlen
    rw [hfirst] at hstop
    have hslice : s.slice 0 (0 + "\uFEFF".utf8ByteSize) = "\uFEFF" := by
      refine slice_eq_of_byte_eq s.isBoundary_zero hstop fun i hi => ?_
      have hcases : i = 0 ∨ i = 1 ∨ i = 2 := by
        change i < 3 at hi
        omega
      rcases hcases with rfl | rfl | rfl
      · exact hfirst
      · exact hsecond
      · exact hthird
    have htext := slice?_eq_some_slice s.isBoundary_zero hstop (Nat.zero_le _)
    obtain ⟨a, b, htext, ha, -⟩ := slice?_eq_some_iff.1 (htext.trans (congrArg some hslice))
    rw [htext, String.utf8ByteSize_eq_zero_iff.1 ha, String.empty_append, String.toList_append]
    rfl
  · intro hhead
    obtain ⟨rest, hrest⟩ := List.head?_eq_some_iff.1 hhead
    have htext : s.text = "\uFEFF" ++ String.ofList rest :=
      String.toList_injective (by rw [hrest, String.toList_append, @String.toList_ofList rest]; rfl)
    have hbyte : ∀ i, i < "\uFEFF".utf8ByteSize → s.byte i = byte ⟨"\uFEFF"⟩ i := by
      intro i hi
      rw [← byte_append_left (b := String.ofList rest) hi, ← htext]
    exact ⟨hbyte 0 (by decide), hbyte 1 (by decide), hbyte 2 (by decide)⟩

/-- What the traces of the encoding in a text are: the byte order mark it starts with, and all of
its zero bytes from the first to the last. -/
structure MarksZeroBytes (s : Source) (nulls : List Nat) : Prop where
  increasing : nulls.Pairwise (· < ·)
  mem_iff : ∀ p, p ∈ nulls ↔ p < s.len ∧ s.byte p = 0
  marks_eq : s.encodingMarks =
    (if s.text.toList.head? = some '\uFEFF' then [.byteOrderMark] else []) ++
      nulls.map .interiorNull
  spans_eq : (s.encodingMarks.map fun mark => (mark.pos, mark.len)) =
    (if s.text.toList.head? = some '\uFEFF' then [(0, 3)] else []) ++ nulls.map fun p => (p, 1)

theorem exists_marksZeroBytes (s : Source) : ∃ nulls, s.MarksZeroBytes nulls := by
  have hmarks : s.encodingMarks =
      (if s.text.toList.head? = some '\uFEFF' then [.byteOrderMark] else []) ++
        ((List.range s.len).filter (s.byte · == 0)).map .interiorNull := by
    simp only [encodingMarks, hasByteOrderMark_iff]
  refine ⟨(List.range s.len).filter (s.byte · == 0), ?_, ?_, hmarks, ?_⟩
  · exact List.pairwise_lt_range.filter _
  · simp
  · rw [hmarks, List.map_append, List.map_map]
    congr 1
    split <;> rfl

/-- How the lexemes of a text hold its zero bytes. -/
structure HoldsZeroBytes (s : Source) (found : List Lexeme) : Prop where
  /-- A zero byte is a lexeme, or it stands behind the start of a comment or a literal. -/
  held : ∀ i, i < s.len → s.byte i = 0 → ∃ (lexeme : Lexeme) (p : Nat),
    lexeme.StandsIn found p ∧ (lexeme.tag = .interiorNull ∧ lexeme.len = 1 ∧ i = p ∨
      lexeme.tag.encloses = true ∧ p < i ∧ i < p + lexeme.len)
  /-- No other lexeme holds one. -/
  excluded : ∀ (lexeme : Lexeme) p, lexeme.StandsIn found p → lexeme.tag ≠ .interiorNull →
    lexeme.tag.encloses = false → ∀ i, p ≤ i → i < p + lexeme.len → s.byte i ≠ 0

theorem Scans.holdsZeroBytes {found : List Lexeme} (h : s.Scans 0 found s.len) :
    s.HoldsZeroBytes found := by
  have hadmits : ∀ (lexeme : Lexeme) p, lexeme.StandsIn found p → ∀ i, p ≤ i →
      i < p + lexeme.len → s.byte i = 0 →
        lexeme.tag = .interiorNull ∨ lexeme.tag.encloses = true := by
    intro lexeme p hstands i hle hlt hzero
    have hadmits := admits_of_scan (h.scan_of_standsIn hstands) i hle hlt
    rw [hzero] at hadmits
    exact Tag.encloses_of_admits hadmits
  refine ⟨?_, ?_⟩
  · intro i hi hzero
    obtain ⟨lexeme, p, hstands, hle, hlt⟩ := h.exists_standsIn (i := i) (by rwa [Nat.zero_add])
    refine ⟨lexeme, p, hstands, ?_⟩
    have hscanned := h.scan_of_standsIn hstands
    rcases hadmits lexeme p hstands i hle hlt hzero with htag | htag
    · have hfirst := admits_of_scan hscanned p (Nat.le_refl p)
        (Nat.lt_add_of_pos_right lexeme.len_pos)
      rw [htag] at hfirst
      have hlen := (null_of_scan hscanned (eq_of_beq hfirst)).2
      exact .inl ⟨htag, hlen, by omega⟩
    · refine .inr ⟨htag, Nat.lt_of_le_of_ne hle ?_, hlt⟩
      rintro rfl
      rw [(null_of_scan hscanned hzero).1] at htag
      cases htag
  · intro lexeme p hstands hnull hencloses i hle hlt hzero
    rcases hadmits lexeme p hstands i hle hlt hzero with htag | htag
    · exact hnull htag
    · rw [hencloses] at htag
      cases htag

/-- Zero bytes are marked, they are lexemes or stand inside comments and literals, and they end
nothing: with ones for any of them a text has the same lexemes, but that a one which starts a lexeme
is an invalid character. -/
theorem zeroBytes_end_nothing (s : Source) (hfit : s.len ≤ maxOffset) :
    (∃ nulls, s.MarksZeroBytes nulls) ∧
      ∃ found, s.lexemes 0 = .ok found ∧ s.HoldsZeroBytes found ∧
        ∀ chosen, Veils chosen s (s.veiled chosen) ∧
          (s.veiled chosen).lexemes 0 = .ok (Lexeme.veilRow chosen 0 found) ∧
          (Lexeme.veilRow chosen 0 found).map Lexeme.len = found.map Lexeme.len := by
  obtain ⟨found, hscans⟩ := exists_scans hfit (Nat.zero_le s.len)
  refine ⟨s.exists_marksZeroBytes, found, hscans.lexemes_eq, hscans.holdsZeroBytes, ?_⟩
  intro chosen
  have hveils := s.veils_veiled chosen
  have hrow := hveils.scans hfit hscans
  rw [← hveils.len_eq] at hrow
  exact ⟨hveils, hrow.lexemes_eq, Lexeme.map_len_veilRow 0 found⟩

/-- Zero bytes by themselves, in a comment and in a string, the first two of them veiled. -/
theorem zeroBytes_end_nothing_marked :
    len ⟨"\uFEFFa\x00/*\x00*/\"\x00\"\x00"⟩ ≤ maxOffset ∧
      (∃ nulls, MarksZeroBytes ⟨"\uFEFFa\x00/*\x00*/\"\x00\"\x00"⟩ nulls) ∧
      ∃ found, lexemes ⟨"\uFEFFa\x00/*\x00*/\"\x00\"\x00"⟩ 0 = .ok found ∧
        found.map (fun lexeme => (lexeme.tag, lexeme.len)) =
          [(.invalidChar, 3), (.word, 1), (.interiorNull, 1), (.comment .block, 5),
            (.quoted .string, 3), (.interiorNull, 1)] ∧
        HoldsZeroBytes ⟨"\uFEFFa\x00/*\x00*/\"\x00\"\x00"⟩ found ∧
        lexemes ⟨"\uFEFFa\x01/*\x01*/\"\x00\"\x00"⟩ 0 =
          .ok (Lexeme.veilRow (· < 8) 0 found) := by
  have hfit : len ⟨"\uFEFFa\x00/*\x00*/\"\x00\"\x00"⟩ ≤ maxOffset := by decide
  have hrow : (List.map fun lexeme => (lexeme.tag, lexeme.len)) <$>
      lexemes ⟨"\uFEFFa\x00/*\x00*/\"\x00\"\x00"⟩ 0 =
        .ok [(.invalidChar, 3), (.word, 1), (.interiorNull, 1), (.comment .block, 5),
          (.quoted .string, 3), (.interiorNull, 1)] := by
    decide +kernel
  have hveiled : veiled ⟨"\uFEFFa\x00/*\x00*/\"\x00\"\x00"⟩ (· < 8) =
      ⟨"\uFEFFa\x01/*\x01*/\"\x00\"\x00"⟩ := by
    refine congrArg Source.mk ?_
    decide +kernel
  obtain ⟨hmarks, found, hfound, hholds, hveils⟩ := zeroBytes_end_nothing _ hfit
  rw [hfound, except_ok_map] at hrow
  refine ⟨hfit, hmarks, found, hfound, Except.ok.inj hrow, hholds, ?_⟩
  rw [← hveiled]
  exact (hveils (· < 8)).2.1

end Source

end JavaLex
