import JavaLex.Proofs.Agreement
import JavaLex.Proofs.FixedTexts
import JavaLex.Proofs.Numerals

/-! How far numbers run. What the scanner takes for a number is the longest text that stands there
and has the parts of one, and its form is the only one of which it has the parts. -/

namespace JavaLex

namespace Numeral

def isHexLetter (c : Char) : Bool := c == 'x' || c == 'X'

def isBinaryLetter (c : Char) : Bool := c == 'b' || c == 'B'

/-- What makes a float of a decimal number. -/
def isFloatLetter (c : Char) : Bool := c == '.' || isDecimalMark c || isFloatSuffix c

/-- What makes a float of a hexadecimal number. -/
def isHexFloatLetter (c : Char) : Bool := c == '.' || isBinaryMark c

/-- The characters that the numbers of a form consist of. -/
def mayHold : NumberForm → Char → Bool
  | .int, c => isRowChar isDigit c || isLongSuffix c
  | .float, c =>
    isRowChar isDigit c || c == '.' || isDecimalMark c || isSign c || isFloatSuffix c
  | .hexInt, c => isRowChar isHexDigit c || isHexLetter c || isLongSuffix c
  | .hexFloat, c =>
    isRowChar isHexDigit c || isHexLetter c || c == '.' || isBinaryMark c || isSign c ||
      isFloatSuffix c
  | .binInt, c => isRowChar isBinaryDigit c || isBinaryLetter c || isLongSuffix c

/-- The form that a number shows. -/
def shownForm (text : List Char) : NumberForm :=
  if text.any isHexLetter then if text.any isHexFloatLetter then .hexFloat else .hexInt
  else if text.any isBinaryLetter then .binInt
  else if text.any isFloatLetter then .float
  else .int

section

variable {digit mark accepts : Char → Bool} {form : NumberForm}
  {text row fraction exponent suffix : List Char}

theorem DigitRow.forall_mem (h : DigitRow digit row)
    (haccepts : ∀ c, isRowChar digit c = true → accepts c = true) :
    ∀ c ∈ row, accepts c = true :=
  fun c hc => haccepts c (by simpa [isRowChar] using h c hc)

theorem Optional.forall_mem (h : Optional digit text)
    (haccepts : ∀ c, digit c = true → accepts c = true) : ∀ c ∈ text, accepts c = true := by
  cases h with
  | absent => exact List.forall_mem_nil _
  | present hc => exact List.forall_mem_singleton.2 (haccepts _ hc)

theorem Fraction.forall_mem (h : Fraction (DigitRow digit) fraction) (hpoint : accepts '.' = true)
    (haccepts : ∀ c, isRowChar digit c = true → accepts c = true) :
    ∀ c ∈ fraction, accepts c = true := by
  cases h with
  | absent => exact List.forall_mem_nil _
  | present hdigits => exact List.forall_mem_cons.2 ⟨hpoint, hdigits.forall_mem haccepts⟩

theorem Exponent.forall_mem (h : exponent = [] ∨ Exponent mark (DigitRow isDigit) exponent)
    (hmark : ∀ c, mark c = true → accepts c = true)
    (hsign : ∀ c, isSign c = true → accepts c = true)
    (hdigit : ∀ c, isRowChar isDigit c = true → accepts c = true) :
    ∀ c ∈ exponent, accepts c = true := by
  rcases h with rfl | h
  · exact List.forall_mem_nil _
  · cases h with
    | mk hfirst hsigns hdigits =>
        exact List.forall_mem_cons.2 ⟨hmark _ hfirst, List.forall_mem_append.2
          ⟨hsigns.forall_mem hsign, hdigits.forall_mem hdigit⟩⟩

theorem isHexRow_of_isRow {c : Char} (h : isRowChar isDigit c = true) :
    isRowChar isHexDigit c = true := by
  simp only [isRowChar, isHexDigit, Bool.or_eq_true] at h ⊢
  tauto

theorem Scanned.forall_mem (h : Scanned form text) : ∀ c ∈ text, mayHold form c = true := by
  have hx : ∀ x ∈ ['x', 'X'], isHexLetter x = true := by simp [isHexLetter]
  have hb : ∀ b ∈ ['b', 'B'], isBinaryLetter b = true := by simp [isBinaryLetter]
  cases h with
  | int hwhole hsuffix =>
      refine List.forall_mem_append.2 ⟨hwhole.row.forall_mem ?_, hsuffix.forall_mem ?_⟩ <;>
        simp +contextual [mayHold]
  | hexInt hmem hdigits hsuffix =>
      refine List.forall_mem_cons.2 ⟨by decide, List.forall_mem_cons.2
        ⟨by simp [mayHold, hx _ hmem], List.forall_mem_append.2 ⟨hdigits.forall_mem ?_,
          hsuffix.forall_mem ?_⟩⟩⟩ <;> simp +contextual [mayHold]
  | binInt hmem hdigits hsuffix =>
      refine List.forall_mem_cons.2 ⟨by decide, List.forall_mem_cons.2
        ⟨by simp [mayHold, hb _ hmem], List.forall_mem_append.2 ⟨hdigits.forall_mem ?_,
          hsuffix.forall_mem ?_⟩⟩⟩ <;> simp +contextual [mayHold]
  | float hwhole hfraction hexponent hsuffix _ =>
      simp only [List.forall_mem_append]
      refine ⟨⟨⟨hwhole.row.forall_mem ?_, hfraction.forall_mem rfl ?_⟩,
        Exponent.forall_mem hexponent ?_ ?_ ?_⟩, hsuffix.forall_mem ?_⟩ <;>
        simp +contextual [mayHold]
  | point hwhole hexponent hsuffix =>
      simp only [List.forall_mem_append]
      refine ⟨⟨List.forall_mem_cons.2 ⟨rfl, hwhole.row.forall_mem ?_⟩,
        Exponent.forall_mem hexponent ?_ ?_ ?_⟩, hsuffix.forall_mem ?_⟩ <;>
        simp +contextual [mayHold]
  | hexFloat hmem hwhole hfraction hexponent hsuffix _ =>
      refine List.forall_mem_cons.2 ⟨by decide, List.forall_mem_cons.2
        ⟨by simp [mayHold, hx _ hmem], ?_⟩⟩
      simp only [List.forall_mem_append]
      refine ⟨⟨⟨hwhole.forall_mem ?_, hfraction.forall_mem rfl ?_⟩,
        Exponent.forall_mem hexponent ?_ ?_ ?_⟩, hsuffix.forall_mem ?_⟩ <;>
        simp +contextual [mayHold, isHexRow_of_isRow]

theorem Scanned.any_eq_false (h : Scanned form text)
    (hapart : ∀ c, accepts c = true → mayHold form c = false) : text.any accepts = false := by
  refine List.any_eq_false.2 fun c hc haccepts => ?_
  have hholds := h.forall_mem c hc
  rw [hapart c haccepts] at hholds
  cases hholds

theorem mayHold_hexLetter {c : Char} (h : isHexLetter c = true) :
    mayHold .int c = false ∧ mayHold .float c = false ∧ mayHold .binInt c = false := by
  simp only [isHexLetter, Bool.or_eq_true, beq_iff_eq] at h
  rcases h with rfl | rfl <;> decide

theorem mayHold_binaryLetter {c : Char} (h : isBinaryLetter c = true) :
    mayHold .int c = false ∧ mayHold .float c = false := by
  simp only [isBinaryLetter, Bool.or_eq_true, beq_iff_eq] at h
  rcases h with rfl | rfl <;> decide

theorem mayHold_floatLetter {c : Char} (h : isFloatLetter c = true) : mayHold .int c = false := by
  simp only [isFloatLetter, isDecimalMark, isFloatSuffix, Bool.or_eq_true, beq_iff_eq] at h
  rcases h with (rfl | rfl | rfl) | ((rfl | rfl) | rfl) | rfl <;> decide

theorem mayHold_hexFloatLetter {c : Char} (h : isHexFloatLetter c = true) :
    mayHold .hexInt c = false := by
  simp only [isHexFloatLetter, isBinaryMark, Bool.or_eq_true, beq_iff_eq] at h
  rcases h with rfl | rfl | rfl <;> decide

/-- A fraction or an exponent has a character that no row of digits has. -/
theorem any_parts (hfraction : Fraction (DigitRow digit) fraction)
    (hexponent : exponent = [] ∨ Exponent mark (DigitRow isDigit) exponent)
    (hmark : ∀ c, mark c = true → accepts c = true) (hpoint : accepts '.' = true)
    (h : fraction = [] → exponent ≠ []) :
    (row ++ fraction ++ exponent ++ suffix).any accepts = true := by
  cases hfraction with
  | present => simp [hpoint]
  | absent =>
      rcases hexponent with rfl | hexponent
      · exact absurd rfl (h rfl)
      · cases hexponent with
        | mk hfirst _ _ => simp [hmark _ hfirst]

theorem Scanned.shownForm_eq (h : Scanned form text) : shownForm text = form := by
  have hx : ∀ x ∈ ['x', 'X'], isHexLetter x = true := by simp [isHexLetter]
  have hb : ∀ b ∈ ['b', 'B'], isBinaryLetter b = true := by simp [isBinaryLetter]
  have hnone : ∀ {accepts : Char → Bool}, (∀ c, accepts c = true → mayHold form c = false) →
      text.any accepts = false := h.any_eq_false
  unfold shownForm
  cases h with
  | int hwhole hsuffix =>
      rw [hnone fun c hc => (mayHold_hexLetter hc).1, hnone fun c hc => (mayHold_binaryLetter hc).1,
        hnone fun c hc => mayHold_floatLetter hc]
      rfl
  | hexInt hmem _ _ =>
      rw [hnone fun c hc => mayHold_hexFloatLetter hc]
      simp [hx _ hmem]
  | binInt hmem _ _ =>
      rw [hnone fun c hc => (mayHold_hexLetter hc).2.2]
      simp [hb _ hmem]
  | @float whole fraction exponent suffix _ hfraction hexponent hsuffix hany =>
      rw [hnone fun c hc => (mayHold_hexLetter hc).2.1,
        hnone fun c hc => (mayHold_binaryLetter hc).2]
      have hletter : (whole ++ fraction ++ exponent ++ suffix).any isFloatLetter = true := by
        by_cases hparts : fraction = [] → exponent ≠ []
        · exact any_parts hfraction hexponent (fun c hc => by simp [isFloatLetter, hc]) rfl hparts
        · obtain ⟨hnoFraction, hnoExponent⟩ := Classical.not_imp.1 hparts
          cases hsuffix with
          | absent => exact absurd rfl (hany hnoFraction (not_not.1 hnoExponent))
          | present hc => simp [isFloatLetter, hc]
      rw [hletter]
      rfl
  | point _ _ _ =>
      rw [hnone fun c hc => (mayHold_hexLetter hc).2.1,
        hnone fun c hc => (mayHold_binaryLetter hc).2]
      simp [isFloatLetter]
  | @hexFloat x whole fraction exponent suffix hmem _ hfraction hexponent _ hparts =>
      have hany : (whole ++ fraction ++ exponent ++ suffix).any isHexFloatLetter = true :=
        any_parts hfraction hexponent (fun c hc => by simp [isHexFloatLetter, hc]) rfl hparts
      rw [List.any_cons, List.any_cons, List.any_cons, List.any_cons, hx _ hmem, hany]
      simp

end

end Numeral

namespace Source

open Numeral

variable {s : Source} {p q q' r r' stop : Nat}

section

variable {bytes next taken taken' : UInt8 → Bool} {chars digit : Char → Bool}
  {text digits fraction exponent suffix : List Char} {form : NumberForm}

/-- What is read up to `q` is not ahead of a scan that is at `r`. If it is behind, the scan went on
with a byte that was taken into what is over. -/
structure Behind (s : Source) (taken : UInt8 → Bool) (q r : Nat) : Prop where
  le : q ≤ r
  taken : q < r → taken (s.byte q) = true

namespace Behind

theorem refl (s : Source) (taken : UInt8 → Bool) (p : Nat) : s.Behind taken p p :=
  ⟨Nat.le_refl p, fun h => absurd h (Nat.lt_irrefl p)⟩

theorem mono (h : s.Behind taken q r) (htaken : ∀ b, taken b = true → taken' b = true) :
    s.Behind taken' q r := ⟨h.le, fun hlt => htaken _ (h.taken hlt)⟩

/-- What goes on with a byte of another kind is not behind. -/
theorem eq_of_next (h : s.Behind taken q r) (hapart : ∀ b, taken b = true → next b = false)
    (hnext : next (s.byte q) = true) : q = r := by
  by_contra hne
  have htaken := h.taken (Nat.lt_of_le_of_ne h.le hne)
  rw [hapart _ htaken] at hnext
  cases hnext

theorem forward (h : s.Behind taken q r) (hle : r ≤ r')
    (htaken : r < r' → taken (s.byte r) = true) : s.Behind taken q r' := by
  refine ⟨Nat.le_trans h.le hle, fun hlt => ?_⟩
  rcases Nat.eq_or_lt_of_le h.le with rfl | hbehind
  · exact htaken hlt
  · exact h.taken hbehind

end Behind

theorem accepted_of_reads (hclass : Byte.CharClass bytes chars)
    (hdigits : ∀ c ∈ digits, chars c = true) (h : s.Reads p q digits) :
    ∀ i, p ≤ i → i < q → bytes (s.byte i) = true := by
  induction digits generalizing p with
  | nil =>
      have heq := h.eq_nil_iff.1 rfl
      intro i hi hlt
      omega
  | cons c digits ih =>
      obtain ⟨hc, hdigits⟩ := List.forall_mem_cons.1 hdigits
      obtain ⟨hfirst, hrest⟩ := uncons_reads hclass h hc
      intro i hi hlt
      rcases Nat.eq_or_lt_of_le hi with rfl | hlater
      · exact hfirst
      · exact ih hdigits hrest i hlater hlt

theorem Reads.le (h : s.Reads p q text) : p ≤ q := by
  obtain ⟨a, b, -, rfl, rfl⟩ := slice?_eq_some_iff.1 h
  exact Nat.le_add_right _ _

theorem Behind.past_row (h : s.Behind taken q r) (hclass : Byte.CharClass bytes (isRowChar digit))
    (hapart : ∀ b, taken b = true → bytes b = false) (hrun : s.Run bytes r r')
    (hdigits : DigitRow digit digits) (hreads : s.Reads q q' digits) :
    s.Behind (fun b => taken b || bytes b) q' r' := by
  have haccepted := accepted_of_reads hclass (hdigits.forall_mem fun _ => id) hreads
  have htaken : ∀ b, taken b = true → (taken b || bytes b) = true := fun b hb => by rw [hb]; rfl
  rcases Nat.eq_or_lt_of_le hreads.le with rfl | hlt
  · refine (h.mono htaken).forward hrun.le fun hlt => ?_
    rw [hrun.accepted r (Nat.le_refl r) hlt, Bool.or_true]
  · cases h.eq_of_next hapart (haccepted q (Nat.le_refl q) hlt)
    have hle : q' ≤ r' := by
      by_contra hfar
      have hrefused := hrun.refused
      rw [haccepted r' hrun.le (Nat.lt_of_not_le hfar)] at hrefused
      cases hrefused
    refine ⟨hle, fun hbehind => ?_⟩
    rw [hrun.accepted q' hreads.le hbehind, Bool.or_true]

theorem Behind.of_row (hclass : Byte.CharClass bytes (isRowChar digit)) (hrun : s.Run bytes p r')
    (hdigits : DigitRow digit digits) (hreads : s.Reads p q' digits) : s.Behind bytes q' r' :=
  (Behind.past_row (.refl s (fun _ => false) p) hclass (fun _ h => absurd h Bool.false_ne_true)
    hrun hdigits hreads).mono fun _ => id

theorem Behind.past_optional (h : s.Behind taken q r) (hclass : Byte.CharClass bytes chars)
    (hapart : ∀ b, taken b = true → bytes b = false) (hr : r ≤ s.len)
    (hskip : s.skipIf bytes r = .ok r') (hoptional : Optional chars text)
    (hreads : s.Reads q q' text) : s.Behind (fun b => taken b || bytes b) q' r' := by
  have htaken : ∀ b, taken b = true → (taken b || bytes b) = true := fun b hb => by rw [hb]; rfl
  rw [skipIf, read_of_le_len hr, except_ok_bind] at hskip
  cases hskip
  cases hoptional with
  | absent =>
      cases hreads.eq_nil_iff.1 rfl
      split
      · rename_i hbyte
        exact (h.mono htaken).forward (Nat.le_succ r) fun _ => by rw [hbyte, Bool.or_true]
      · exact h.mono htaken
  | present hc =>
      obtain ⟨hbyte, hrest⟩ := uncons_reads hclass hreads hc
      cases h.eq_of_next hapart hbyte
      cases hrest.eq_nil_iff.1 rfl
      rw [if_pos hbyte]
      exact .refl s _ _

theorem skipFraction_inv (hfit : s.len ≤ maxOffset) (hclass : Byte.TextClass bytes)
    (hr : r ≤ s.len) (h : s.skipFraction bytes r = .ok r') :
    s.byte r = Byte.dot ∧ s.Run bytes (r + 1) r' ∨ s.byte r ≠ Byte.dot ∧ r' = r := by
  rw [skipFraction, read_of_le_len hr, except_ok_bind] at h
  split at h
  · rename_i hdot
    have hlt := lt_len_of_accepts textClass_dot hdot
    exact .inl ⟨eq_of_beq hdot, ((skipWhile_returns hfit hclass hlt).of_eq_ok h).2⟩
  · rename_i hdot
    cases h
    exact .inr ⟨fun heq => hdot (beq_iff_eq.2 heq), rfl⟩

theorem Behind.past_fraction (hfit : s.len ≤ maxOffset) (h : s.Behind taken q r)
    (hclass : Byte.CharClass bytes (isRowChar digit))
    (hapart : ∀ b, taken b = true → (b == Byte.dot) = false) (hr : r ≤ s.len)
    (hskip : s.skipFraction bytes r = .ok r') (hfraction : Fraction (DigitRow digit) fraction)
    (hreads : s.Reads q q' fraction) :
    s.Behind (fun b => taken b || b == Byte.dot || bytes b) q' r' := by
  have htaken : ∀ b, taken b = true → (taken b || b == Byte.dot || bytes b) = true :=
    fun b hb => by rw [hb]; rfl
  have hinv := skipFraction_inv hfit hclass.toTextClass hr hskip
  cases hfraction with
  | absent =>
      cases hreads.eq_nil_iff.1 rfl
      rcases hinv with ⟨hdot, hrun⟩ | ⟨-, rfl⟩
      · exact (h.mono htaken).forward (Nat.le_of_succ_le hrun.le) fun _ => by simp [hdot]
      · exact h.mono htaken
  | present hdigits =>
      obtain ⟨hdot, hrest⟩ := uncons_reads charClass_dot hreads rfl
      cases h.eq_of_next hapart hdot
      rcases hinv with ⟨-, hrun⟩ | ⟨hother, -⟩
      · exact (Behind.of_row hclass hrun hdigits hrest).mono fun b hb => by rw [hb, Bool.or_true]
      · exact absurd (eq_of_beq hdot) hother

/-- Behind an exponent only a suffix may follow, so that it does not matter what was taken. -/
theorem Behind.exponent_le (hfit : s.len ≤ maxOffset) (h : s.Behind taken q r)
    (hclass : Byte.CharClass bytes chars) (hapart : ∀ b, taken b = true → bytes b = false)
    (hr : r ≤ s.len) (hskip : s.skipExponent bytes r = .ok r')
    (hexponent : exponent = [] ∨ Exponent chars (DigitRow isDigit) exponent)
    (hreads : s.Reads q q' exponent) : q' ≤ r' := by
  have hle := ((skipExponent_returns hfit hclass.toTextClass hr).of_eq_ok hskip).le
  rcases hexponent with rfl | hexponent
  · cases hreads.eq_nil_iff.1 rfl
    exact Nat.le_trans h.le hle
  · cases hexponent with
    | mk hc hsign hdigits =>
        obtain ⟨hmark, hrest⟩ := uncons_reads hclass hreads hc
        cases h.eq_of_next hapart hmark
        obtain ⟨m', hfirst, hlast⟩ := hrest.split
        have hlt := lt_len_of_accepts hclass.toTextClass hmark
        rw [skipExponent, read_of_le_len hr, except_ok_bind, if_pos hmark] at hskip
        obtain ⟨m, hm, hskip⟩ := bind_eq_ok hskip
        have hlen := ((skipIf_returns textClass_isSign hlt).of_eq_ok hm).le_len
        have hrun := ((skipWhile_returns hfit textClass_isDecimalPart hlen).of_eq_ok hskip).2
        have hbehind := Behind.past_optional (.refl s (fun _ => false) (q + 1)) charClass_sign
          (fun _ h => absurd h Bool.false_ne_true) hlt hm hsign hfirst
        exact (hbehind.past_row charClass_decimalRow (forall_byte (by decide +kernel)) hrun hdigits
          hlast).le

/-- A suffix is not ahead if its byte is skipped where the scan comes to it. -/
theorem suffix_le (hclass : Byte.CharClass bytes chars) (hle : q ≤ r) (hstop : r ≤ stop)
    (hskip : q = r → bytes (s.byte r) = true → stop = r + 1)
    (hsuffix : Optional chars suffix) (hreads : s.Reads q q' suffix) : q' ≤ stop := by
  cases hsuffix with
  | absent =>
      cases hreads.eq_nil_iff.1 rfl
      exact Nat.le_trans hle hstop
  | present hc =>
      obtain ⟨hbyte, hrest⟩ := uncons_reads hclass hreads hc
      cases hrest.eq_nil_iff.1 rfl
      rcases Nat.eq_or_lt_of_le hle with rfl | hlt
      · exact Nat.le_of_eq (hskip rfl hbyte).symm
      · exact Nat.le_trans hlt hstop

theorem decimalTail_covers (hfit : s.len ≤ maxOffset) (hr : r ≤ s.len)
    (h : s.decimalTail r = .ok (form, stop)) (hbehind : s.Behind isDecimalPart q r)
    (hfraction : Fraction (DigitRow isDigit) fraction)
    (hexponent : exponent = [] ∨ Exponent Numeral.isDecimalMark (DigitRow isDigit) exponent)
    (hsuffix : Optional Numeral.isFloatSuffix suffix ∨
      fraction = [] ∧ exponent = [] ∧ Optional Numeral.isLongSuffix suffix)
    (hreads : s.Reads q q' (fraction ++ exponent ++ suffix)) : q' ≤ stop := by
  obtain ⟨f, e, hf, he, hstop⟩ := decimalTail_inv h
  have hreach := ((skipFraction_returns hfit textClass_isDecimalPart hr).of_eq_ok hf).1
  have hreach' := (skipExponent_returns hfit textClass_isDecimalMark hreach.le_len).of_eq_ok he
  obtain ⟨m, hparts, hlast⟩ := hreads.split
  obtain ⟨m', hfirst, hsecond⟩ := hparts.split
  have hle : m ≤ e := (hbehind.past_fraction hfit charClass_decimalRow
    (forall_byte (by decide +kernel)) hr hf hfraction hfirst).exponent_le hfit
    charClass_decimalMark (forall_byte (by decide +kernel)) hreach.le_len he hexponent hsecond
  rw [decimalTail, hf, except_ok_bind, he, except_ok_bind, read_of_le_len hreach'.le_len,
    except_ok_bind] at h
  have hfloat : isFloatSuffix (s.byte e) = true → stop = e + 1 := by
    intro hbyte
    rw [if_pos hbyte] at h
    cases h
    rfl
  rcases hsuffix with hoptional | ⟨rfl, rfl, hoptional⟩
  · exact suffix_le charClass_floatSuffix hle hstop (fun _ => hfloat) hoptional hlast
  · cases hfirst.eq_nil_iff.1 rfl
    cases hsecond.eq_nil_iff.1 rfl
    refine suffix_le charClass_longSuffix hle hstop (fun heq hbyte => ?_) hoptional hlast
    have hsame : e = r := Nat.le_antisymm (heq ▸ hbehind.le) (Nat.le_trans hreach.le hreach'.le)
    by_cases hother : isFloatSuffix (s.byte e) = true
    · exact hfloat hother
    · rw [if_neg hother, if_neg (not_not_intro hsame), if_pos hbyte] at h
      cases h
      rfl

theorem skipIf_inv (hr : r ≤ s.len) (h : s.skipIf bytes r = .ok r') :
    r ≤ r' ∧ (bytes (s.byte r) = true → r' = r + 1) := by
  rw [skipIf, read_of_le_len hr, except_ok_bind] at h
  cases h
  split
  · exact ⟨Nat.le_succ r, fun _ => rfl⟩
  · rename_i hother
    exact ⟨Nat.le_refl r, fun hbyte => absurd hbyte hother⟩

theorem hexTail_covers (hfit : s.len ≤ maxOffset) (hr : r ≤ s.len)
    (h : s.hexTail r = .ok (form, stop)) (hdigits : DigitRow isHexDigit digits)
    (hfraction : Fraction (DigitRow isHexDigit) fraction)
    (hexponent : exponent = [] ∨ Exponent Numeral.isBinaryMark (DigitRow isDigit) exponent)
    (hsuffix : Optional Numeral.isFloatSuffix suffix ∨
      fraction = [] ∧ exponent = [] ∧ Optional Numeral.isLongSuffix suffix)
    (hreads : s.Reads r q' (digits ++ fraction ++ exponent ++ suffix)) : q' ≤ stop := by
  obtain ⟨d, hd, h⟩ := bind_eq_ok h
  obtain ⟨f, hf, h⟩ := bind_eq_ok h
  obtain ⟨e, he, h⟩ := bind_eq_ok h
  obtain ⟨hreach, hrun⟩ := (skipWhile_returns hfit textClass_isHexPart hr).of_eq_ok hd
  have hreach' := ((skipFraction_returns hfit textClass_isHexPart hreach.le_len).of_eq_ok hf).1
  have hreach'' := (skipExponent_returns hfit textClass_isBinaryMark hreach'.le_len).of_eq_ok he
  obtain ⟨m, hparts, hlast⟩ := hreads.split
  obtain ⟨m', hparts, hthird⟩ := hparts.split
  obtain ⟨m'', hfirst, hsecond⟩ := hparts.split
  have hbehind := Behind.of_row charClass_hexRow hrun hdigits hfirst
  have hle : m ≤ e := (hbehind.past_fraction hfit charClass_hexRow (forall_byte (by decide +kernel))
    hreach.le_len hf hfraction hsecond).exponent_le hfit charClass_binaryMark
    (forall_byte (by decide +kernel)) hreach'.le_len he hexponent hthird
  split at h
  · rename_i heq
    obtain ⟨last, hskip, h⟩ := bind_eq_ok h
    cases h
    obtain ⟨hstop, hlong⟩ := skipIf_inv hreach''.le_len hskip
    rcases hsuffix with hoptional | ⟨-, -, hoptional⟩
    · refine suffix_le charClass_floatSuffix hle hstop (fun _ hbyte => ?_) hoptional hlast
      have hrefused := hrun.refused
      rw [← heq, forall_byte (P := fun b => isFloatSuffix b = true → isHexPart b = true)
        (by decide +kernel) _ hbyte] at hrefused
      cases hrefused
    · exact suffix_le charClass_longSuffix hle hstop (fun _ => hlong) hoptional hlast
  · rename_i hne
    obtain ⟨last, hskip, h⟩ := bind_eq_ok h
    cases h
    obtain ⟨hstop, hfloat⟩ := skipIf_inv hreach''.le_len hskip
    rcases hsuffix with hoptional | ⟨rfl, rfl, hoptional⟩
    · exact suffix_le charClass_floatSuffix hle hstop (fun _ => hfloat) hoptional hlast
    · cases hsecond.eq_nil_iff.1 rfl
      cases hthird.eq_nil_iff.1 rfl
      refine suffix_le charClass_longSuffix hle hstop (fun heq _ => ?_) hoptional hlast
      have hend : e ≤ d := heq ▸ hbehind.le
      exact absurd (Nat.le_antisymm hend (Nat.le_trans hreach'.le hreach''.le)) hne

theorem binaryTail_covers (hfit : s.len ≤ maxOffset) (hr : r ≤ s.len)
    (h : s.binaryTail r = .ok (form, stop)) (hdigits : DigitRow isBinaryDigit digits)
    (hsuffix : Optional Numeral.isLongSuffix suffix)
    (hreads : s.Reads r q' (digits ++ suffix)) : q' ≤ stop := by
  obtain ⟨d, hd, h⟩ := bind_eq_ok h
  obtain ⟨last, hskip, h⟩ := bind_eq_ok h
  cases h
  obtain ⟨hreach, hrun⟩ := (skipWhile_returns hfit textClass_isBinaryPart hr).of_eq_ok hd
  obtain ⟨hstop, hlong⟩ := skipIf_inv hreach.le_len hskip
  obtain ⟨m, hfirst, hlast⟩ := hreads.split
  have hbehind := Behind.of_row charClass_binaryRow hrun hdigits hfirst
  exact suffix_le charClass_longSuffix hbehind.le hstop (fun _ => hlong) hsuffix hlast

theorem le_of_letter (hfirst : Byte.isAscii (s.byte p) = true)
    (hclass : Byte.CharClass bytes chars) (hbyte : bytes (s.byte (p + 1)) = true)
    (hapart : ∀ c, chars c = true → mayHold form c = false) (hscanned : Scanned form text)
    (hreads : s.Reads p q' text) : q' ≤ p + 1 := by
  have hholds := hscanned.forall_mem
  cases text with
  | nil =>
      cases hreads.eq_nil_iff.1 rfl
      exact Nat.le_succ p
  | cons c text =>
      have hchar := hreads.char
      rw [← List.singleton_append] at hreads
      obtain ⟨m, hone, hrest⟩ := hreads.split
      rw [hone.eq_of_singleton, ← charWidth_of_char? hchar, Byte.charWidth_of_isAscii hfirst]
        at hrest
      cases text with
      | nil => exact Nat.le_of_eq (hrest.eq_nil_iff.1 rfl).symm
      | cons d text =>
          obtain ⟨e, he, hletter⟩ := exists_reads_single hclass hbyte
          cases Option.some.inj (hrest.char.symm.trans he.char)
          have hd := hholds d (List.mem_cons_of_mem c List.mem_cons_self)
          rw [hapart d hletter] at hd
          cases hd

theorem uncons_base {lower : UInt8} {letters : List Char} {x : Char}
    (hclass : Byte.CharClass (Byte.isEither lower) letters.contains) (hx : x ∈ letters)
    (hreads : s.Reads p q' ('0' :: x :: text)) :
    (s.byte p == Byte.zero && Byte.isEither lower (s.byte (p + 1))) = true ∧
      s.Reads (p + 2) q' text := by
  obtain ⟨hzero, hrest⟩ := uncons_reads charClass_zero hreads rfl
  obtain ⟨hletter, hrest⟩ := uncons_reads hclass hrest (List.contains_iff_mem.2 hx)
  exact ⟨Bool.and_eq_true_iff.2 ⟨hzero, hletter⟩, hrest⟩

theorem not_digit_dot (hdigit : Byte.isDigit (s.byte p) = true) : s.byte p ≠ Byte.dot := by
  intro hdot
  rw [hdot] at hdigit
  cases hdigit

theorem hexLetter_of_contains {c : Char} (h : ['x', 'X'].contains c = true) :
    isHexLetter c = true := by
  simpa [isHexLetter] using h

theorem binaryLetter_of_contains {c : Char} (h : ['b', 'B'].contains c = true) :
    isBinaryLetter c = true := by
  simpa [isBinaryLetter] using h

theorem decimal_covers {whole : List Char} (hfit : s.len ≤ maxOffset) (hp : p < s.len)
    (hskip : s.skipWhile isDecimalPart (p + 1) = .ok r) (h : s.decimalTail r = .ok (form, stop))
    (hwhole : Whole whole) (hfraction : Fraction (DigitRow isDigit) fraction)
    (hexponent : exponent = [] ∨ Exponent Numeral.isDecimalMark (DigitRow isDigit) exponent)
    (hsuffix : Optional Numeral.isFloatSuffix suffix ∨
      fraction = [] ∧ exponent = [] ∧ Optional Numeral.isLongSuffix suffix)
    (hreads : s.Reads p q' (whole ++ (fraction ++ exponent ++ suffix))) : q' ≤ stop := by
  obtain ⟨m, hfirst, hrest⟩ := hreads.split
  obtain ⟨c, hhead, hc⟩ := hwhole.first
  obtain ⟨digits, rfl⟩ := List.head?_eq_some_iff.1 hhead
  obtain ⟨-, hfirst⟩ := uncons_reads charClass_digit hfirst hc
  obtain ⟨hreach, hrun⟩ := (skipWhile_returns hfit textClass_isDecimalPart hp).of_eq_ok hskip
  have hbehind := Behind.of_row charClass_decimalRow hrun (List.forall_mem_cons.1 hwhole.row).2
    hfirst
  exact decimalTail_covers hfit hreach.le_len h hbehind hfraction hexponent hsuffix hrest

section

variable {other : NumberForm} (hfit : s.len ≤ maxOffset)
  (hdigit : Byte.isDigit (s.byte p) = true) (hscanned : Scanned other text)
  (hreads : s.Reads p q' text)

include hfit hdigit hscanned hreads

/-- Behind `0x`, a number that is not hexadecimal ends with the zero. -/
theorem hexNumber_covers (hletter : Byte.isEither 120 (s.byte (p + 1)) = true)
    (h : s.hexTail (p + 2) = .ok (form, stop)) : q' ≤ stop := by
  have hlen : p + 2 ≤ s.len := lt_len_of_accepts charClass_x.toTextClass hletter
  have hstop : p + 2 ≤ stop := ((hexTail_returns hfit hlen).of_eq_ok h).le
  have hshort : (∀ c, isHexLetter c = true → mayHold other c = false) → q' ≤ stop := by
    intro hapart
    have hle := le_of_letter (Byte.textClass_isDigit.ascii _ hdigit) charClass_x hletter
      (fun c hc => hapart c (hexLetter_of_contains hc)) hscanned hreads
    exact Nat.le_trans hle (Nat.le_of_succ_le hstop)
  cases hscanned with
  | int => exact hshort fun c hc => (mayHold_hexLetter hc).1
  | float => exact hshort fun c hc => (mayHold_hexLetter hc).2.1
  | point => exact hshort fun c hc => (mayHold_hexLetter hc).2.1
  | binInt => exact hshort fun c hc => (mayHold_hexLetter hc).2.2
  | hexInt hx hdigits hsuffix =>
      obtain ⟨-, hrest⟩ := uncons_base charClass_x hx hreads
      exact hexTail_covers hfit hlen h hdigits .absent (.inl rfl) (.inr ⟨rfl, rfl, hsuffix⟩)
        (by simpa using hrest)
  | hexFloat hx hdigits hfraction hexponent hsuffix _ =>
      obtain ⟨-, hrest⟩ := uncons_base charClass_x hx hreads
      exact hexTail_covers hfit hlen h hdigits hfraction hexponent (.inl hsuffix) hrest

/-- Behind `0b`, a number that is not binary ends with the zero. -/
theorem binaryNumber_covers
    (hnotHex : ¬ (s.byte p == Byte.zero && Byte.isEither 120 (s.byte (p + 1))) = true)
    (hletter : Byte.isEither 98 (s.byte (p + 1)) = true)
    (h : s.binaryTail (p + 2) = .ok (form, stop)) : q' ≤ stop := by
  have hlen : p + 2 ≤ s.len := lt_len_of_accepts charClass_b.toTextClass hletter
  have hstop : p + 2 ≤ stop := ((binaryTail_returns hfit hlen).of_eq_ok h).le
  have hshort : (∀ c, isBinaryLetter c = true → mayHold other c = false) → q' ≤ stop := by
    intro hapart
    have hle := le_of_letter (Byte.textClass_isDigit.ascii _ hdigit) charClass_b hletter
      (fun c hc => hapart c (binaryLetter_of_contains hc)) hscanned hreads
    exact Nat.le_trans hle (Nat.le_of_succ_le hstop)
  cases hscanned with
  | int => exact hshort fun c hc => (mayHold_binaryLetter hc).1
  | float => exact hshort fun c hc => (mayHold_binaryLetter hc).2
  | point => exact hshort fun c hc => (mayHold_binaryLetter hc).2
  | binInt hb hdigits hsuffix =>
      obtain ⟨-, hrest⟩ := uncons_base charClass_b hb hreads
      exact binaryTail_covers hfit hlen h hdigits hsuffix hrest
  | hexInt hx => exact absurd (uncons_base charClass_x hx hreads).1 hnotHex
  | hexFloat hx => exact absurd (uncons_base charClass_x hx hreads).1 hnotHex

theorem number_covers (h : s.number p = .ok (form, stop)) : q' ≤ stop := by
  have hlt := lt_len_of_accepts Byte.textClass_isDigit hdigit
  rw [number, read_of_le_len (Nat.le_of_lt hlt), except_ok_bind, read_of_le_len hlt,
    except_ok_bind] at h
  split at h
  · rename_i hbase
    exact hexNumber_covers hfit hdigit hscanned hreads (Bool.and_eq_true_iff.1 hbase).2 h
  rename_i hnotHex
  split at h
  · rename_i hbase
    exact binaryNumber_covers hfit hdigit hscanned hreads hnotHex (Bool.and_eq_true_iff.1 hbase).2
      h
  rename_i hnotBinary
  obtain ⟨d, hd, h⟩ := bind_eq_ok h
  cases hscanned with
  | int hwhole hsuffix =>
      exact decimal_covers hfit hlt hd h hwhole .absent (.inl rfl) (.inr ⟨rfl, rfl, hsuffix⟩)
        hreads
  | float hwhole hfraction hexponent hsuffix _ =>
      exact decimal_covers hfit hlt hd h hwhole hfraction hexponent (.inl hsuffix)
        (by simpa using hreads)
  | point =>
      obtain ⟨hdot, -⟩ := uncons_reads charClass_dot hreads rfl
      exact absurd (eq_of_beq hdot) (not_digit_dot hdigit)
  | binInt hb => exact absurd (uncons_base charClass_b hb hreads).1 hnotBinary
  | hexInt hx => exact absurd (uncons_base charClass_x hx hreads).1 hnotHex
  | hexFloat hx => exact absurd (uncons_base charClass_x hx hreads).1 hnotHex

end

theorem point_covers {other : NumberForm} (hfit : s.len ≤ maxOffset)
    (hdot : s.byte p = Byte.dot) (h : s.decimalTail p = .ok (form, stop))
    (hscanned : Scanned other text) (hreads : s.Reads p q' text) : q' ≤ stop := by
  have hp : p < s.len := lt_len_of_byte_ne_zero (by rw [hdot]; decide)
  have hdigit : ∀ {c : Char} {rest : List Char}, s.Reads p q' (c :: rest) → isDigit c = true →
      q' ≤ stop := by
    intro c rest hreads hc
    exact absurd hdot (not_digit_dot (uncons_reads charClass_digit hreads hc).1)
  have hwhole : ∀ {whole rest : List Char}, s.Reads p q' (whole ++ rest) → Whole whole →
      q' ≤ stop := by
    intro whole rest hreads hwhole
    obtain ⟨c, hhead, hc⟩ := hwhole.first
    obtain ⟨digits, rfl⟩ := List.head?_eq_some_iff.1 hhead
    exact hdigit hreads hc
  cases hscanned with
  | int h _ => exact hwhole hreads h
  | float h _ _ _ _ =>
      rw [List.append_assoc, List.append_assoc] at hreads
      exact hwhole hreads h
  | hexInt => exact hdigit hreads rfl
  | hexFloat => exact hdigit hreads rfl
  | binInt => exact hdigit hreads rfl
  | point hdigits hexponent hsuffix =>
      exact decimalTail_covers hfit (Nat.le_of_lt hp) h (.refl s _ p) (.present hdigits.row)
        hexponent (.inl hsuffix) hreads

end

/-- A text that starts as a number does is scanned as one: as the longest number that stands there,
in the only form that it has. -/
theorem scan_longest_number (s : Source) (hfit : s.len ≤ maxOffset) {p : Nat}
    (hstart : Byte.isDigit (s.byte p) = true ∨
      s.byte p = Byte.dot ∧ Byte.isDigit (s.byte (p + 1)) = true) :
    ∃ lexeme form text, s.scan p = .ok (some lexeme) ∧ lexeme.tag = .number form ∧
      s.slice? p (p + lexeme.len) = some text ∧ Scanned form text.toList ∧
      (∀ other, Scanned other text.toList → other = form) ∧
      ∀ other longer, Scanned other longer.toList → s.Stands longer p →
        longer.utf8ByteSize ≤ lexeme.len := by
  have hp : p < s.len := by
    rcases hstart with hdigit | ⟨hdot, -⟩
    · exact lt_len_of_accepts Byte.textClass_isDigit hdigit
    · exact lt_len_of_byte_ne_zero (by rw [hdot]; decide)
  obtain ⟨lexeme, hscan, -⟩ := scan_of_lt_len hfit hp
  have hrule := ((scan_eq_some_iff hp).1 hscan).1
  obtain ⟨form, text, htag, hreads, hscanned, hlongest⟩ : ∃ form text,
      lexeme.tag = .number form ∧ s.Reads p (p + lexeme.len) text ∧ Scanned form text ∧
        ∀ other longer stop, Scanned other longer → s.Reads p stop longer →
          stop ≤ p + lexeme.len := by
    rcases hstart with hdigit | ⟨hdot, hdigit⟩
    · have hopening : Opening.ofByte (s.byte p) = .digit :=
        forall_byte (P := fun b => Byte.isDigit b = true → Opening.ofByte b = .digit)
          (by decide +kernel) _ hdigit
      rw [hopening] at hrule
      obtain ⟨⟨form, stop⟩, hnumber, hrule⟩ := bind_eq_ok hrule
      obtain ⟨htag, rfl⟩ := Prod.mk.inj (Except.ok.inj hrule)
      obtain ⟨text, hreads, hscanned⟩ := number_reads hfit hdigit hnumber
      exact ⟨form, text, htag.symm, hreads, hscanned,
        fun _ _ _ hscanned hreads => number_covers hfit hdigit hscanned hreads hnumber⟩
    · rw [hdot] at hrule
      change s.rule p .dot = _ at hrule
      rw [rule, read_of_le_len hp, except_ok_bind, if_pos hdigit] at hrule
      obtain ⟨⟨form, stop⟩, htail, hrule⟩ := bind_eq_ok hrule
      obtain ⟨htag, rfl⟩ := Prod.mk.inj (Except.ok.inj hrule)
      obtain ⟨text, hreads, hscanned⟩ := point_reads hfit hdot hdigit htail
      exact ⟨form, text, htag.symm, hreads, hscanned,
        fun _ _ _ => point_covers hfit hdot htail⟩
  refine ⟨lexeme, form, String.ofList text, hscan, htag, hreads, ?_, ?_, ?_⟩
  · rwa [String.toList_ofList]
  · intro other hother
    rw [String.toList_ofList] at hother
    exact hother.shownForm_eq.symm.trans hscanned.shownForm_eq
  · intro other longer hother hstands
    have hreads : s.Reads p (p + longer.utf8ByteSize) longer.toList := by
      rw [Reads, String.ofList_toList]
      exact hstands
    exact Nat.add_le_add_iff_left.1 (hlongest other _ _ hother hreads)

/-- A hexadecimal float whose suffix is no digit, as an exponent stands before it, and a float that
ends between two points. -/
theorem scan_longest_number_points :
    len ⟨"0x1f.8p-2dx 1..2"⟩ ≤ maxOffset ∧
      (Byte.isDigit (byte ⟨"0x1f.8p-2dx 1..2"⟩ 0) = true ∧
        scan ⟨"0x1f.8p-2dx 1..2"⟩ 0 = .ok (some ⟨.number .hexFloat, 10, by decide⟩) ∧
        Scanned .hexFloat "0x1f.8p-2d".toList) ∧
      (Byte.isDigit (byte ⟨"0x1f.8p-2dx 1..2"⟩ 12) = true ∧
        scan ⟨"0x1f.8p-2dx 1..2"⟩ 12 = .ok (some ⟨.number .float, 2, by decide⟩) ∧
        ∀ other longer, Scanned other longer.toList →
          Stands ⟨"0x1f.8p-2dx 1..2"⟩ longer 12 → longer.utf8ByteSize ≤ 2) ∧
      byte ⟨"0x1f.8p-2dx 1..2"⟩ 14 = Byte.dot ∧
        Byte.isDigit (byte ⟨"0x1f.8p-2dx 1..2"⟩ (14 + 1)) = true ∧
        scan ⟨"0x1f.8p-2dx 1..2"⟩ 14 = .ok (some ⟨.number .float, 2, by decide⟩) ∧
        Scanned .float ".2".toList := by
  have hfit : len ⟨"0x1f.8p-2dx 1..2"⟩ ≤ maxOffset := by decide
  have hhex : Byte.isDigit (byte ⟨"0x1f.8p-2dx 1..2"⟩ 0) = true := by decide +kernel
  have hone : Byte.isDigit (byte ⟨"0x1f.8p-2dx 1..2"⟩ 12) = true := by decide +kernel
  have hpoint : byte ⟨"0x1f.8p-2dx 1..2"⟩ 14 = Byte.dot ∧
      Byte.isDigit (byte ⟨"0x1f.8p-2dx 1..2"⟩ (14 + 1)) = true := by decide +kernel
  have hscanHex : scan ⟨"0x1f.8p-2dx 1..2"⟩ 0 =
      .ok (some ⟨.number .hexFloat, 10, by decide⟩) :=
    (scan_eq_some_iff (by decide)).2 ⟨by decide +kernel, by decide⟩
  have hscanOne : scan ⟨"0x1f.8p-2dx 1..2"⟩ 12 = .ok (some ⟨.number .float, 2, by decide⟩) :=
    (scan_eq_some_iff (by decide)).2 ⟨by decide +kernel, by decide⟩
  have hscanPoint : scan ⟨"0x1f.8p-2dx 1..2"⟩ 14 = .ok (some ⟨.number .float, 2, by decide⟩) :=
    (scan_eq_some_iff (by decide)).2 ⟨by decide +kernel, by decide⟩
  refine ⟨hfit, ⟨hhex, hscanHex, ?_⟩, ⟨hone, hscanOne, ?_⟩, hpoint.1, hpoint.2, hscanPoint, ?_⟩
  · obtain ⟨lexeme, form, text, hscan, htag, hslice, hscanned, -⟩ :=
      scan_longest_number _ hfit (.inl hhex)
    cases hscanHex.symm.trans hscan
    cases htag
    have htext : slice? ⟨"0x1f.8p-2dx 1..2"⟩ 0 (0 + 10) = some "0x1f.8p-2d" := by decide +kernel
    cases hslice.symm.trans htext
    exact hscanned
  · obtain ⟨lexeme, form, text, hscan, -, -, -, -, hlongest⟩ :=
      scan_longest_number _ hfit (.inl hone)
    cases hscanOne.symm.trans hscan
    exact hlongest
  · obtain ⟨lexeme, form, text, hscan, htag, hslice, hscanned, -⟩ :=
      scan_longest_number _ hfit (.inr hpoint)
    cases hscanPoint.symm.trans hscan
    cases htag
    have htext : slice? ⟨"0x1f.8p-2dx 1..2"⟩ 14 (14 + 2) = some ".2" := by decide +kernel
    cases hslice.symm.trans htext
    exact hscanned

end Source

end JavaLex
