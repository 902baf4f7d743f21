import JavaLex.Proofs.Characters
import JavaLex.Proofs.NumeralGrammar

/-! Numbers of a text. What is scanned as a number has the parts that the grammar names, and it has
no flaw just if the grammar has it. -/

namespace JavaLex

/-- Bytes that stand for the characters of a class. -/
structure Byte.CharClass (bytes : UInt8 → Bool) (chars : Char → Bool) : Prop
    extends Byte.TextClass bytes where
  byte_of_char : ∀ c, chars c = true → c.toNat < 128 ∧ bytes (UInt8.ofNat c.toNat) = true
  chars : ∀ i : Fin 256, isAscii (UInt8.ofFin i) = true → bytes (UInt8.ofFin i) = true →
    chars (Char.ofNat i) = true

namespace Numeral

def isRowChar (digit : Char → Bool) (c : Char) : Bool := digit c || c == '_'

theorem digitRow_of_forall {digit : Char → Bool} {text : List Char}
    (h : ∀ c ∈ text, isRowChar digit c = true) : DigitRow digit text := by
  intro c hc
  simpa [isRowChar] using h c hc

end Numeral

namespace Source

variable {s : Source} {p q r : Nat}

theorem byte_of_char? {c : Char} (h : s.char? p = some c) (hc : c.toNat < 128) :
    s.byte p = UInt8.ofNat c.toNat :=
  forall_asciiChar (P := fun b c => b = UInt8.ofNat c.toNat) (by decide +kernel) h
    ((isAscii_iff h).2 hc)

/-- The characters between two boundaries. -/
def Reads (s : Source) (p q : Nat) (text : List Char) : Prop :=
  s.slice? p q = some (String.ofList text)

namespace Reads

variable {text later : List Char} {c : Char}

theorem nil (hp : s.IsBoundary p) : s.Reads p p [] := slice?_self hp

theorem trans (h : s.Reads p q text) (h' : s.Reads q r later) : s.Reads p r (text ++ later) := by
  rw [Reads, String.ofList_append]
  exact slice?_trans h h'

theorem boundary (h : s.Reads p q text) : s.IsBoundary q := (isBoundary_of_slice? h).2.1

theorem eq_nil_iff (h : s.Reads p q text) : text = [] ↔ p = q := by
  obtain ⟨a, b, -, rfl, hq⟩ := slice?_eq_some_iff.1 h
  have hsize : (String.ofList text).utf8ByteSize = 0 ↔ text = [] := by
    rw [String.utf8ByteSize_eq_zero_iff]
    constructor
    · intro hempty
      rw [← String.toList_ofList (l := text), hempty]
      rfl
    · rintro rfl
      rfl
  rw [← hsize]
  omega

theorem split (h : s.Reads p r (text ++ later)) :
    ∃ q, s.Reads p q text ∧ s.Reads q r later := by
  obtain ⟨a, b, hs, rfl, rfl⟩ := slice?_eq_some_iff.1 h
  rw [String.ofList_append, String.append_assoc] at hs
  refine ⟨_, slice?_of_append hs, slice?_eq_some_iff.2 ⟨a ++ String.ofList text, b, ?_, ?_, ?_⟩⟩
  · rw [hs, String.append_assoc]
  · rw [String.utf8ByteSize_append]
  · rw [String.ofList_append, String.utf8ByteSize_append, Nat.add_assoc]

theorem char (h : s.Reads p q (c :: text)) : s.char? p = some c := by
  obtain ⟨a, b, hs, ha, -⟩ := slice?_eq_some_iff.1 h
  refine char?_eq_some_iff.2 ⟨a, String.ofList text ++ b, ?_, ha⟩
  rw [hs, ← List.singleton_append, String.ofList_append, String.append_assoc,
    String.singleton_eq_ofList]

theorem eq_of_singleton (h : s.Reads p q [c]) : q = p + c.utf8Size := by
  obtain ⟨a, b, -, -, rfl⟩ := slice?_eq_some_iff.1 h
  rw [← String.singleton_eq_ofList, String.utf8ByteSize_singleton]

end Reads

section

variable {bytes : UInt8 → Bool} {chars : Char → Bool} (hclass : Byte.CharClass bytes chars)

include hclass

theorem exists_reads_single (hbyte : bytes (s.byte p) = true) :
    ∃ c, s.Reads p (p + 1) [c] ∧ chars c = true := by
  have hascii := hclass.ascii _ hbyte
  have hlt := lt_len_of_accepts hclass.toTextClass hbyte
  obtain ⟨c, hc, hwidth⟩ := exists_char_of_isBoundary (isBoundary_of_isAscii hlt hascii) hlt
  rw [Byte.charWidth_of_isAscii hascii] at hwidth
  refine ⟨c, ?_, ?_⟩
  · rw [← hwidth]
    exact slice?_of_char? hc
  · revert hbyte
    exact forall_asciiChar (P := fun b c => bytes b = true → chars c = true) hclass.chars hc hascii

theorem uncons_reads {c : Char} {text : List Char} (h : s.Reads p q (c :: text))
    (hc : chars c = true) : bytes (s.byte p) = true ∧ s.Reads (p + 1) q text := by
  obtain ⟨hlt, hbyte⟩ := hclass.byte_of_char c hc
  have hchar := h.char
  have hascii := (isAscii_iff hchar).2 hlt
  rw [← List.singleton_append] at h
  obtain ⟨m, hfirst, hrest⟩ := h.split
  rw [hfirst.eq_of_singleton, ← charWidth_of_char? hchar, Byte.charWidth_of_isAscii hascii] at hrest
  exact ⟨by rw [byte_of_char? hchar hlt]; exact hbyte, hrest⟩

theorem exists_reads_run (hp : s.IsBoundary p) (h : s.Run bytes p q) :
    ∃ text, s.Reads p q text ∧ ∀ c ∈ text, chars c = true := by
  obtain ⟨n, rfl⟩ := Nat.exists_eq_add_of_le h.le
  obtain ⟨text, htext, hall⟩ :=
    onlyChars_of_bytes hclass.toTextClass hclass.chars hp h.accepted
  exact ⟨text.toList, by rw [Reads, String.ofList_toList]; exact htext, hall⟩

theorem skipIf_reads (hp : s.IsBoundary p) (h : s.skipIf bytes p = .ok q) :
    ∃ text, s.Reads p q text ∧ Numeral.Optional chars text := by
  simp only [skipIf, read_of_le_len hp.le_len, except_ok_bind, except_pure] at h
  cases h
  split
  · rename_i hbyte
    obtain ⟨c, hc, hchar⟩ := exists_reads_single hclass hbyte
    exact ⟨[c], hc, .present hchar⟩
  · exact ⟨[], .nil hp, .absent⟩

end

section

open Numeral

/-- The classes of bytes that numbers are made of, with the characters they stand for. -/
def numberParts : List ((UInt8 → Bool) × (Char → Bool)) :=
  [(Byte.isDigit, isDigit), ((· == Byte.zero), (· == '0')), ((· == Byte.dot), (· == '.')),
   (Byte.isEither 120, ['x', 'X'].contains), (Byte.isEither 98, ['b', 'B'].contains),
   (isDecimalPart, isRowChar isDigit), (isHexPart, isRowChar isHexDigit),
   (isBinaryPart, isRowChar isBinaryDigit), (isDecimalMark, Numeral.isDecimalMark),
   (isBinaryMark, Numeral.isBinaryMark), (isSign, Numeral.isSign),
   (isLongSuffix, Numeral.isLongSuffix), (isFloatSuffix, Numeral.isFloatSuffix)]

theorem lt_of_mem_numberParts :
    ∀ part ∈ numberParts, ∀ c : Char, part.2 c = true → c.toNat < 128 := by
  intro part hpart c hc
  by_contra hwide
  have hne : ∀ d : Char, d.toNat < 128 → c ≠ d := by
    rintro d hd rfl
    exact hwide hd
  have hle : ∀ d : Char, d.toNat < 128 → ¬ c ≤ d :=
    fun d hd h => hwide (Nat.lt_of_le_of_lt h hd)
  revert part
  simp [numberParts, isRowChar, isDigit, isHexDigit, isBinaryDigit, Numeral.isDecimalMark,
    Numeral.isBinaryMark, Numeral.isSign, Numeral.isLongSuffix, Numeral.isFloatSuffix, hne, hle]

theorem charClass_of_mem {bytes : UInt8 → Bool} {chars : Char → Bool}
    (h : (bytes, chars) ∈ numberParts) : Byte.CharClass bytes chars := by
  have hzero : (numberParts.all fun part => !part.1 0) = true := by decide
  have htable : ∀ i : Fin 256, (numberParts.all fun part => !part.1 (UInt8.ofFin i) ||
      Byte.isAscii (UInt8.ofFin i) && part.2 (Char.ofNat i)) = true := by decide +kernel
  have hback : ∀ i : Fin 128, (numberParts.all fun part => !part.2 (Char.ofNat i) ||
      part.1 (UInt8.ofNat i)) = true := by decide +kernel
  have hpart : ∀ i : Fin 256, bytes (UInt8.ofFin i) = true →
      Byte.isAscii (UInt8.ofFin i) = true ∧ chars (Char.ofNat i) = true := by
    intro i hi
    simpa [hi] using List.all_eq_true.1 (htable i) _ h
  refine ⟨.of_forall ?_ fun i hi => (hpart i hi).1, fun c hc => ?_, fun i _ hi => (hpart i hi).2⟩
  · simpa using List.all_eq_true.1 hzero _ h
  · have hlt := lt_of_mem_numberParts _ h c hc
    have hbyte := List.all_eq_true.1 (hback ⟨c.toNat, hlt⟩) _ h
    simp only [Char.ofNat_toNat, hc, Bool.not_true, Bool.false_or] at hbyte
    exact ⟨hlt, hbyte⟩

theorem charClass_digit : Byte.CharClass Byte.isDigit isDigit :=
  charClass_of_mem (by simp [numberParts])

theorem charClass_zero : Byte.CharClass (· == Byte.zero) (· == '0') :=
  charClass_of_mem (by simp [numberParts])

theorem charClass_x : Byte.CharClass (Byte.isEither 120) ['x', 'X'].contains :=
  charClass_of_mem (by simp [numberParts])

theorem charClass_b : Byte.CharClass (Byte.isEither 98) ['b', 'B'].contains :=
  charClass_of_mem (by simp [numberParts])

theorem charClass_dot : Byte.CharClass (· == Byte.dot) (· == '.') :=
  charClass_of_mem (by simp [numberParts])

theorem charClass_decimalMark : Byte.CharClass isDecimalMark Numeral.isDecimalMark :=
  charClass_of_mem (by simp [numberParts])

theorem charClass_binaryMark : Byte.CharClass isBinaryMark Numeral.isBinaryMark :=
  charClass_of_mem (by simp [numberParts])

theorem charClass_sign : Byte.CharClass isSign Numeral.isSign :=
  charClass_of_mem (by simp [numberParts])

theorem charClass_longSuffix : Byte.CharClass isLongSuffix Numeral.isLongSuffix :=
  charClass_of_mem (by simp [numberParts])

theorem charClass_floatSuffix : Byte.CharClass isFloatSuffix Numeral.isFloatSuffix :=
  charClass_of_mem (by simp [numberParts])

theorem charClass_decimalRow : Byte.CharClass isDecimalPart (isRowChar isDigit) :=
  charClass_of_mem (by simp [numberParts])

theorem charClass_hexRow : Byte.CharClass isHexPart (isRowChar isHexDigit) :=
  charClass_of_mem (by simp [numberParts])

theorem charClass_binaryRow : Byte.CharClass isBinaryPart (isRowChar isBinaryDigit) :=
  charClass_of_mem (by simp [numberParts])

theorem base_reads {lower : UInt8} {letters : List Char}
    (hclass : Byte.CharClass (Byte.isEither lower) letters.contains)
    (h : (s.byte p == Byte.zero && Byte.isEither lower (s.byte (p + 1))) = true) :
    ∃ x ∈ letters, s.Reads p (p + 2) ['0', x] := by
  obtain ⟨hzero, hletter⟩ := Bool.and_eq_true_iff.1 h
  obtain ⟨c, hc, hchar⟩ := exists_reads_single charClass_zero hzero
  cases eq_of_beq hchar
  obtain ⟨x, hx, hmem⟩ := exists_reads_single hclass hletter
  exact ⟨x, List.contains_iff_mem.1 hmem, hc.trans hx⟩

variable (hfit : s.len ≤ maxOffset)

include hfit

section

variable {bytes : UInt8 → Bool} {digit : Char → Bool}
  (hclass : Byte.CharClass bytes (isRowChar digit))

include hclass

theorem skipWhile_reads (hp : s.IsBoundary p) (h : s.skipWhile bytes p = .ok q) :
    ∃ row, s.Reads p q row ∧ DigitRow digit row := by
  obtain ⟨-, hrun⟩ := (skipWhile_returns hfit hclass.toTextClass hp.le_len).of_eq_ok h
  obtain ⟨row, hreads, hall⟩ := exists_reads_run hclass hp hrun
  exact ⟨row, hreads, digitRow_of_forall hall⟩

theorem skipFraction_reads (hp : s.IsBoundary p) (h : s.skipFraction bytes p = .ok q) :
    ∃ fraction, s.Reads p q fraction ∧ Fraction (DigitRow digit) fraction ∧
      (s.byte p = Byte.dot → bytes (s.byte (p + 1)) = true →
        ∃ c digits, fraction = '.' :: c :: digits ∧ s.char? (p + 1) = some c) := by
  simp only [skipFraction, read_of_le_len hp.le_len, except_ok_bind, except_pure] at h
  split at h
  · rename_i hdot
    obtain ⟨c, hc, hchar⟩ := exists_reads_single charClass_dot hdot
    cases eq_of_beq hchar
    obtain ⟨row, hrow, hdigits⟩ := skipWhile_reads hfit hclass hc.boundary h
    refine ⟨'.' :: row, hc.trans hrow, .present hdigits, fun _ hnext => ?_⟩
    cases row with
    | nil =>
        have hrun := ((skipWhile_returns hfit hclass.toTextClass hc.boundary.le_len).of_eq_ok h).2
        have hrefused := hrun.refused
        rw [← hrow.eq_nil_iff.1 rfl, hnext] at hrefused
        cases hrefused
    | cons c row => exact ⟨c, row, rfl, hrow.char⟩
  · rename_i hdot
    cases h
    exact ⟨[], .nil hp, .absent, fun heq => absurd (beq_iff_eq.2 heq) hdot⟩

end

theorem skipExponent_reads {bytes : UInt8 → Bool} {mark : Char → Bool}
    (hclass : Byte.CharClass bytes mark) (hp : s.IsBoundary p)
    (h : s.skipExponent bytes p = .ok q) :
    ∃ exponent, s.Reads p q exponent ∧
      (exponent = [] ∨ Exponent mark (DigitRow isDigit) exponent) := by
  simp only [skipExponent, read_of_le_len hp.le_len, except_ok_bind, except_pure] at h
  split at h
  · rename_i hmark
    obtain ⟨c, hc, hchar⟩ := exists_reads_single hclass hmark
    obtain ⟨m, hm, h⟩ := bind_eq_ok h
    obtain ⟨sign, hsign, hoptional⟩ := skipIf_reads charClass_sign hc.boundary hm
    obtain ⟨row, hrow, hdigits⟩ := skipWhile_reads hfit charClass_decimalRow hsign.boundary h
    exact ⟨c :: (sign ++ row), hc.trans (hsign.trans hrow), .inr (.mk hchar hoptional hdigits)⟩
  · cases h
    exact ⟨[], .nil hp, .inl rfl⟩

theorem decimalTail_reads {form : NumberForm} (hp : s.IsBoundary p)
    (h : s.decimalTail p = .ok (form, q)) :
    ∃ fraction exponent suffix, s.Reads p q (fraction ++ exponent ++ suffix) ∧
      Fraction (DigitRow isDigit) fraction ∧
      (exponent = [] ∨ Exponent Numeral.isDecimalMark (DigitRow isDigit) exponent) ∧
      (s.byte p = Byte.dot → isDecimalPart (s.byte (p + 1)) = true →
        ∃ c digits, fraction = '.' :: c :: digits ∧ s.char? (p + 1) = some c) ∧
      (form = .float ∧ Optional Numeral.isFloatSuffix suffix ∧
          (fraction = [] → exponent = [] → suffix ≠ []) ∨
        form = .int ∧ fraction = [] ∧ exponent = [] ∧ Optional Numeral.isLongSuffix suffix) := by
  obtain ⟨f, hf, h⟩ := bind_eq_ok h
  obtain ⟨e, he, h⟩ := bind_eq_ok h
  obtain ⟨fraction, hfraction, hpoint, hdot⟩ := skipFraction_reads hfit charClass_decimalRow hp hf
  obtain ⟨exponent, hexponent, hpower⟩ :=
    skipExponent_reads hfit charClass_decimalMark hfraction.boundary he
  have hparts := hfraction.trans hexponent
  have hend := hparts.boundary
  rw [read_of_le_len hend.le_len, except_ok_bind] at h
  split at h
  · rename_i hbyte
    cases h
    obtain ⟨c, hc, hchar⟩ := exists_reads_single charClass_floatSuffix hbyte
    exact ⟨fraction, exponent, [c], hparts.trans hc, hpoint, hpower, hdot,
      .inl ⟨rfl, .present hchar, fun _ _ => List.cons_ne_nil _ _⟩⟩
  · split at h
    · rename_i hne
      cases h
      refine ⟨fraction, exponent, [], by rwa [List.append_nil], hpoint, hpower, hdot,
        .inl ⟨rfl, .absent, ?_⟩⟩
      rintro rfl rfl
      exact absurd (hparts.eq_nil_iff.1 rfl).symm hne
    · rename_i heq
      obtain ⟨rfl, rfl⟩ := List.append_eq_nil_iff.1
        (hparts.eq_nil_iff.2 (Decidable.not_not.1 heq).symm)
      split at h
      · rename_i hbyte
        cases h
        obtain ⟨c, hc, hchar⟩ := exists_reads_single charClass_longSuffix hbyte
        exact ⟨[], [], [c], hparts.trans hc, hpoint, hpower, hdot,
          .inr ⟨rfl, rfl, rfl, .present hchar⟩⟩
      · cases h
        exact ⟨[], [], [], hparts, hpoint, hpower, hdot, .inr ⟨rfl, rfl, rfl, .absent⟩⟩

theorem hexTail_reads {form : NumberForm} (hp : s.IsBoundary p)
    (h : s.hexTail p = .ok (form, q)) :
    ∃ text, s.Reads p q text ∧ ∀ x ∈ ['x', 'X'], Scanned form ('0' :: x :: text) := by
  obtain ⟨d, hd, h⟩ := bind_eq_ok h
  obtain ⟨f, hf, h⟩ := bind_eq_ok h
  obtain ⟨e, he, h⟩ := bind_eq_ok h
  obtain ⟨row, hrow, hdigits⟩ := skipWhile_reads hfit charClass_hexRow hp hd
  obtain ⟨fraction, hfraction, hpoint, -⟩ :=
    skipFraction_reads hfit charClass_hexRow hrow.boundary hf
  obtain ⟨exponent, hexponent, hpower⟩ :=
    skipExponent_reads hfit charClass_binaryMark hfraction.boundary he
  have hparts := hfraction.trans hexponent
  split at h
  · rename_i heq
    obtain ⟨r, hr, h⟩ := bind_eq_ok h
    cases h
    obtain ⟨rfl, rfl⟩ := List.append_eq_nil_iff.1 (hparts.eq_nil_iff.2 heq.symm)
    obtain ⟨suffix, hsuffix, hoptional⟩ := skipIf_reads charClass_longSuffix hparts.boundary hr
    have hwhole := hrow.trans (hparts.trans hsuffix)
    exact ⟨_, hwhole, fun x hx => .hexInt hx hdigits hoptional⟩
  · rename_i hne
    obtain ⟨r, hr, h⟩ := bind_eq_ok h
    cases h
    obtain ⟨suffix, hsuffix, hoptional⟩ := skipIf_reads charClass_floatSuffix hparts.boundary hr
    have hwhole := (hrow.trans hparts).trans hsuffix
    rw [← List.append_assoc] at hwhole
    refine ⟨_, hwhole, fun x hx => .hexFloat hx hdigits hpoint hpower hoptional ?_⟩
    rintro rfl rfl
    exact hne (hparts.eq_nil_iff.1 rfl).symm

theorem binaryTail_reads {form : NumberForm} (hp : s.IsBoundary p)
    (h : s.binaryTail p = .ok (form, q)) :
    ∃ text, s.Reads p q text ∧ ∀ b ∈ ['b', 'B'], Scanned form ('0' :: b :: text) := by
  obtain ⟨d, hd, h⟩ := bind_eq_ok h
  obtain ⟨r, hr, h⟩ := bind_eq_ok h
  cases h
  obtain ⟨row, hrow, hdigits⟩ := skipWhile_reads hfit charClass_binaryRow hp hd
  obtain ⟨suffix, hsuffix, hoptional⟩ := skipIf_reads charClass_longSuffix hrow.boundary hr
  exact ⟨_, hrow.trans hsuffix, fun b hb => .binInt hb hdigits hoptional⟩

theorem decimal_reads {form : NumberForm} {whole : List Char} (hdigits : Whole whole)
    (hwhole : s.Reads p q whole) (h : s.decimalTail q = .ok (form, r)) :
    ∃ text, s.Reads p r text ∧ Scanned form text := by
  obtain ⟨fraction, exponent, suffix, htail, hpoint, hpower, -, hform⟩ :=
    decimalTail_reads hfit hwhole.boundary h
  have hreads := hwhole.trans htail
  rcases hform with ⟨rfl, hoptional, hany⟩ | ⟨rfl, rfl, rfl, hoptional⟩
  · rw [← List.append_assoc, ← List.append_assoc] at hreads
    exact ⟨_, hreads, .float hdigits hpoint hpower hoptional hany⟩
  · exact ⟨_, hreads, .int hdigits hoptional⟩

theorem point_reads {form : NumberForm} (hdot : s.byte p = Byte.dot)
    (hdigit : Byte.isDigit (s.byte (p + 1)) = true) (h : s.decimalTail p = .ok (form, q)) :
    ∃ text, s.Reads p q text ∧ Scanned form text := by
  have hp : p < s.len := lt_len_of_byte_ne_zero (by rw [hdot]; decide)
  have hb := isBoundary_of_isAscii hp (by rw [hdot]; rfl)
  obtain ⟨fraction, exponent, suffix, htail, hpoint, hpower, hfirst, hform⟩ :=
    decimalTail_reads hfit hb h
  obtain ⟨c, digits, rfl, hc⟩ := hfirst hdot (by rw [isDecimalPart, hdigit]; rfl)
  obtain ⟨d, hd, hchar⟩ := exists_reads_single charClass_digit hdigit
  cases Option.some.inj (hd.char.symm.trans hc)
  cases hpoint with
  | present hdigits =>
      rcases hform with ⟨rfl, hoptional, -⟩ | ⟨-, hnil, -⟩
      · exact ⟨_, htail, .point ⟨⟨c, rfl, hchar⟩, hdigits⟩ hpower hoptional⟩
      · cases hnil

theorem number_reads {form : NumberForm} (hdigit : Byte.isDigit (s.byte p) = true)
    (h : s.number p = .ok (form, q)) : ∃ text, s.Reads p q text ∧ Scanned form text := by
  have hlt := lt_len_of_accepts Byte.textClass_isDigit hdigit
  rw [number, read_of_le_len (Nat.le_of_lt hlt), except_ok_bind, read_of_le_len hlt,
    except_ok_bind] at h
  split at h
  · rename_i hstart
    obtain ⟨x, hx, hbase⟩ := base_reads charClass_x hstart
    obtain ⟨text, htext, hscanned⟩ := hexTail_reads hfit hbase.boundary h
    exact ⟨_, hbase.trans htext, hscanned x hx⟩
  · split at h
    · rename_i hstart
      obtain ⟨b, hb, hbase⟩ := base_reads charClass_b hstart
      obtain ⟨text, htext, hscanned⟩ := binaryTail_reads hfit hbase.boundary h
      exact ⟨_, hbase.trans htext, hscanned b hb⟩
    · obtain ⟨d, hd, h⟩ := bind_eq_ok h
      obtain ⟨c, hc, hchar⟩ := exists_reads_single charClass_digit hdigit
      obtain ⟨row, hrow, hdigits⟩ := skipWhile_reads hfit charClass_decimalRow hc.boundary hd
      have hwhole : Whole (c :: row) :=
        ⟨⟨c, rfl, hchar⟩, List.forall_mem_cons.2 ⟨.inl hchar, hdigits⟩⟩
      exact decimal_reads hfit hwhole (hc.trans hrow) h

omit hfit in
theorem fixedAt_ne_number (hp : p < s.len) (form : NumberForm) (stop : Nat) :
    s.fixedAt p ≠ .ok (.number form, stop) := by
  intro h
  rcases fixedAt_tag (Nat.le_of_lt hp) h with hmem | htag
  · simp [Tag.fixed] at hmem
  · cases htag

theorem scan_reads {lexeme : Lexeme} {form : NumberForm} (hp : p < s.len)
    (hscan : s.scan p = .ok (some lexeme)) (htag : lexeme.tag = .number form) :
    ∃ text, s.Reads p (p + lexeme.len) text ∧ Scanned form text := by
  have hrule := ((scan_eq_some_iff hp).1 hscan).1
  rw [htag] at hrule
  have hfinds := finds_of_rule hp hrule
  have hadmits := Opening.admits_ofByte (s.byte p)
  generalize Opening.ofByte (s.byte p) = opening at hrule hadmits hfinds
  cases opening with
  | digit =>
      obtain ⟨⟨found, stop⟩, hnumber, hrule⟩ := bind_eq_ok hrule
      cases hrule
      exact number_reads hfit hadmits hnumber
  | dot =>
      have hdot : s.byte p = Byte.dot := eq_of_beq hadmits
      rw [rule, read_of_le_len hp, except_ok_bind] at hrule
      split at hrule
      · rename_i hdigit
        obtain ⟨⟨found, stop⟩, htail, hrule⟩ := bind_eq_ok hrule
        cases hrule
        exact point_reads hfit hdot hdigit htail
      · exact absurd hrule (fixedAt_ne_number hp form (p + lexeme.len))
  | _ => cases hfinds

end

/-- A number of a text has no flaw if and only if it is well formed. -/
theorem number_wellFormed_iff (s : Source) (hfit : s.len ≤ maxOffset) {p : Nat} {lexeme : Lexeme}
    {form : NumberForm} (hscan : s.scan p = .ok (some lexeme))
    (htag : lexeme.tag = .number form) :
    ∃ text, s.slice? p (p + lexeme.len) = some text ∧
      (Numeral.flaw? form text = none ↔ Numeral.WellFormed form text.toList) := by
  obtain ⟨text, hreads, hscanned⟩ := scan_reads hfit (lt_len_of_scan hscan) hscan htag
  refine ⟨String.ofList text, hreads, ?_⟩
  rw [String.toList_ofList]
  exact ⟨hscanned.wellFormed, Numeral.flaw?_of_wellFormed⟩

/-- A hexadecimal float whose digits and suffix are letters, and a float with an underscore before
its point. -/
theorem number_wellFormed_iff_hexFloat :
    len ⟨"0xF_f.8p-0_1d 1_.5"⟩ ≤ maxOffset ∧
      (∃ lexeme, scan ⟨"0xF_f.8p-0_1d 1_.5"⟩ 0 = .ok (some lexeme) ∧
        lexeme.tag = .number .hexFloat ∧
        slice? ⟨"0xF_f.8p-0_1d 1_.5"⟩ 0 lexeme.len = some "0xF_f.8p-0_1d" ∧
        Numeral.WellFormed .hexFloat "0xF_f.8p-0_1d".toList) ∧
      ∃ lexeme, scan ⟨"0xF_f.8p-0_1d 1_.5"⟩ 14 = .ok (some lexeme) ∧
        lexeme.tag = .number .float ∧
        slice? ⟨"0xF_f.8p-0_1d 1_.5"⟩ 14 (14 + lexeme.len) = some "1_.5" ∧
        ¬ Numeral.WellFormed .float "1_.5".toList := by
  have hfit : len ⟨"0xF_f.8p-0_1d 1_.5"⟩ ≤ maxOffset := by decide
  have hfirst : scan ⟨"0xF_f.8p-0_1d 1_.5"⟩ 0 =
      .ok (some ⟨.number .hexFloat, 13, by decide⟩) :=
    (scan_eq_some_iff (by decide)).2 ⟨by decide +kernel, by decide⟩
  have hsecond : scan ⟨"0xF_f.8p-0_1d 1_.5"⟩ 14 = .ok (some ⟨.number .float, 4, by decide⟩) :=
    (scan_eq_some_iff (by decide)).2 ⟨by decide +kernel, by decide⟩
  refine ⟨hfit, ⟨_, hfirst, rfl, by decide +kernel, ?_⟩, _, hsecond, rfl, by decide +kernel, ?_⟩
  · obtain ⟨text, hslice, hiff⟩ := number_wellFormed_iff _ hfit hfirst rfl
    have htext : slice? ⟨"0xF_f.8p-0_1d 1_.5"⟩ 0 (0 + 13) = some "0xF_f.8p-0_1d" := by
      decide +kernel
    cases hslice.symm.trans htext
    exact hiff.1 (by decide +kernel)
  · obtain ⟨text, hslice, hiff⟩ := number_wellFormed_iff _ hfit hsecond rfl
    have htext : slice? ⟨"0xF_f.8p-0_1d 1_.5"⟩ 14 (14 + 4) = some "1_.5" := by decide +kernel
    cases hslice.symm.trans htext
    intro hformed
    exact absurd (hiff.2 hformed) (by decide +kernel)

end Source

end JavaLex
