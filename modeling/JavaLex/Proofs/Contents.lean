import JavaLex.Proofs.Diagnosing
import JavaLex.Proofs.Quoting
import JavaLex.Proofs.Resynchronise

/-! What lexemes hold. Zero bytes and line ends stand only in comments and quoted literals or are
lexemes of their own; a comment or a literal that has to stay on its line holds no line end. -/

namespace JavaLex

/-- A byte that is neither zero nor part of a line end. -/
def Byte.isOrdinary (b : UInt8) : Bool := b != 0 && !isLineEnd b

/-- What a tag says of the bytes of its lexeme. -/
def Tag.admits : Tag → UInt8 → Bool
  | .interiorNull, b => b == 0
  | .newline, b => Byte.isLineEnd b
  | .comment .line, b => !Byte.isLineEnd b
  | .comment _, _ => true
  | .unterminatedComment, _ => true
  | .quoted form, b => form == .textBlock || !Byte.isLineEnd b
  | .unterminated form, b => form == .textBlock || !Byte.isLineEnd b
  | _, b => Byte.isOrdinary b

namespace Source

variable {s : Source} {accepts more : UInt8 → Bool} {p q r : Nat}

def OnlyBytes (s : Source) (accepts : UInt8 → Bool) (p q : Nat) : Prop :=
  ∀ i, p ≤ i → i < q → accepts (s.byte i) = true

namespace OnlyBytes

theorem nil : s.OnlyBytes accepts p p := fun _ hle hlt => absurd hle (Nat.not_le_of_lt hlt)

theorem single (h : accepts (s.byte p) = true) : s.OnlyBytes accepts p (p + 1) := by
  intro i hle hlt
  rwa [Nat.le_antisymm (Nat.le_of_lt_succ hlt) hle]

theorem trans (h : s.OnlyBytes accepts p q) (h' : s.OnlyBytes accepts q r) :
    s.OnlyBytes accepts p r := by
  intro i hle hlt
  rcases Nat.lt_or_ge i q with hfirst | hlater
  · exact h i hle hfirst
  · exact h' i hlater hlt

theorem cons (h : accepts (s.byte p) = true) (h' : s.OnlyBytes accepts (p + 1) q) :
    s.OnlyBytes accepts p q := (single h).trans h'

theorem mono (h : s.OnlyBytes accepts p q) (hmore : ∀ b, accepts b = true → more b = true) :
    s.OnlyBytes more p q := fun i hle hlt => hmore _ (h i hle hlt)

theorem char (hp : p < s.len) (hfirst : accepts (s.byte p) = true)
    (hwide : ∀ b, Byte.isAscii b = false → accepts b = true) :
    s.OnlyBytes accepts p (p + Byte.charWidth (s.byte p)) := by
  intro i hle hlt
  rcases Nat.lt_or_eq_of_le hle with hbehind | rfl
  · by_cases hb : s.IsBoundary p
    · exact hwide _ (isAscii_inside hb hp hbehind hlt)
    · rw [Byte.charWidth_of_not_first fun h => hb (isBoundary_iff_first.2 (.inr ⟨hp, h⟩))] at hlt
      omega
  · exact hfirst

end OnlyBytes

theorem Matches.onlyBytes {bytes : List UInt8} (h : s.Matches bytes p)
    (hbytes : ∀ b ∈ bytes, accepts b = true) : s.OnlyBytes accepts p (p + bytes.length) := by
  induction bytes generalizing p with
  | nil => exact .nil
  | cons b rest ih =>
      obtain ⟨hb, hrest⟩ := h
      have hlater := ih hrest fun c hc => hbytes c (List.mem_cons_of_mem b hc)
      rw [Nat.add_assoc, Nat.add_comm 1] at hlater
      exact .cons (by rw [hb]; exact hbytes b List.mem_cons_self) hlater

theorem byte_of_read {b : UInt8} (h : s.read p = .ok b) : b = s.byte p := by
  unfold read at h
  split at h
  · exact (Except.ok.inj h).symm
  · cases h

theorem skipWhile_onlyBytes (h : s.skipWhile accepts p = .ok q) : s.OnlyBytes accepts p q := by
  fun_induction skipWhile s accepts p with
  | case1 p hsize hacc hmax ih => exact .cons hacc (ih h)
  | case2 p hsize hacc hmax => cases h
  | case3 p hsize hacc =>
      cases h
      exact .nil
  | case4 p hsize => cases h

theorem skipIf_onlyBytes (h : s.skipIf accepts p = .ok q) : s.OnlyBytes accepts p q := by
  obtain ⟨b, hread, h⟩ := bind_eq_ok h
  rw [byte_of_read hread] at h
  cases h
  split
  · rename_i hacc
    exact .single hacc
  · exact .nil

theorem isOrdinary_of_not_isAscii {b : UInt8} (h : Byte.isAscii b = false) :
    Byte.isOrdinary b = true :=
  forall_byte (P := fun b => Byte.isAscii b = false → Byte.isOrdinary b = true)
    (by decide +kernel) b h

theorem isOrdinary_of_mem_numberClasses (haccepts : accepts ∈ numberClasses) (b : UInt8)
    (h : accepts b = true) : Byte.isOrdinary b = true := by
  have hclasses : ∀ i : Fin 256, (numberClasses.all fun accepts =>
      !accepts (UInt8.ofFin i) || Byte.isOrdinary (UInt8.ofFin i)) = true := by decide +kernel
  have hclass := forall_byte (P := fun b => (numberClasses.all fun accepts =>
    !accepts b || Byte.isOrdinary b) = true) hclasses b
  simpa [h] using List.all_eq_true.1 hclass accepts haccepts

theorem skipFraction_ordinary (haccepts : accepts ∈ numberClasses)
    (h : s.skipFraction accepts p = .ok q) : s.OnlyBytes Byte.isOrdinary p q := by
  obtain ⟨b, hread, h⟩ := bind_eq_ok h
  rw [byte_of_read hread] at h
  split at h
  · rename_i hdot
    refine .cons (by rw [eq_of_beq hdot]; rfl) ?_
    exact (skipWhile_onlyBytes h).mono (isOrdinary_of_mem_numberClasses haccepts)
  · cases h
    exact .nil

theorem skipExponent_ordinary (haccepts : accepts ∈ numberClasses)
    (h : s.skipExponent accepts p = .ok q) : s.OnlyBytes Byte.isOrdinary p q := by
  obtain ⟨b, hread, h⟩ := bind_eq_ok h
  rw [byte_of_read hread] at h
  split at h
  · rename_i hmark
    obtain ⟨r, hsign, h⟩ := bind_eq_ok h
    refine .cons (isOrdinary_of_mem_numberClasses haccepts _ hmark) ?_
    refine ((skipIf_onlyBytes hsign).mono ?_).trans ((skipWhile_onlyBytes h).mono ?_)
    · exact isOrdinary_of_mem_numberClasses (by simp [numberClasses])
    · exact isOrdinary_of_mem_numberClasses (by simp [numberClasses])
  · cases h
    exact .nil

theorem decimalTail_ordinary {found : NumberForm × Nat} (h : s.decimalTail p = .ok found) :
    s.OnlyBytes Byte.isOrdinary p found.2 := by
  obtain ⟨f, hfraction, h⟩ := bind_eq_ok h
  obtain ⟨q, hexponent, h⟩ := bind_eq_ok h
  obtain ⟨b, hread, h⟩ := bind_eq_ok h
  rw [byte_of_read hread] at h
  have hdigits := (skipFraction_ordinary (by simp [numberClasses]) hfraction).trans
    (skipExponent_ordinary (by simp [numberClasses]) hexponent)
  have hsuffix : ∀ suffix ∈ numberClasses, suffix (s.byte q) = true →
      s.OnlyBytes Byte.isOrdinary p (q + 1) := fun suffix hmem hbyte =>
    hdigits.trans (.single (isOrdinary_of_mem_numberClasses hmem _ hbyte))
  split at h
  · rename_i hfloat
    cases h
    exact hsuffix isFloatSuffix (by simp [numberClasses]) hfloat
  · split at h
    · cases h
      exact hdigits
    · split at h
      · rename_i hlong
        cases h
        exact hsuffix isLongSuffix (by simp [numberClasses]) hlong
      · cases h
        exact hdigits

theorem hexTail_ordinary {found : NumberForm × Nat} (h : s.hexTail p = .ok found) :
    s.OnlyBytes Byte.isOrdinary p found.2 := by
  obtain ⟨d, hwhole, h⟩ := bind_eq_ok h
  obtain ⟨f, hfraction, h⟩ := bind_eq_ok h
  obtain ⟨q, hexponent, h⟩ := bind_eq_ok h
  have hdigits := (((skipWhile_onlyBytes hwhole).mono
    (isOrdinary_of_mem_numberClasses (by simp [numberClasses]))).trans
      (skipFraction_ordinary (by simp [numberClasses]) hfraction)).trans
        (skipExponent_ordinary (by simp [numberClasses]) hexponent)
  split at h
  · obtain ⟨r, hsuffix, h⟩ := bind_eq_ok h
    cases h
    exact hdigits.trans ((skipIf_onlyBytes hsuffix).mono
      (isOrdinary_of_mem_numberClasses (by simp [numberClasses])))
  · obtain ⟨r, hsuffix, h⟩ := bind_eq_ok h
    cases h
    exact hdigits.trans ((skipIf_onlyBytes hsuffix).mono
      (isOrdinary_of_mem_numberClasses (by simp [numberClasses])))

theorem binaryTail_ordinary {found : NumberForm × Nat} (h : s.binaryTail p = .ok found) :
    s.OnlyBytes Byte.isOrdinary p found.2 := by
  obtain ⟨q, hwhole, h⟩ := bind_eq_ok h
  obtain ⟨r, hsuffix, h⟩ := bind_eq_ok h
  cases h
  exact ((skipWhile_onlyBytes hwhole).mono
    (isOrdinary_of_mem_numberClasses (by simp [numberClasses]))).trans
      ((skipIf_onlyBytes hsuffix).mono
        (isOrdinary_of_mem_numberClasses (by simp [numberClasses])))

theorem isOrdinary_of_isEither {lower b : UInt8} (hlower : lower = 120 ∨ lower = 98)
    (h : Byte.isEither lower b = true) : Byte.isOrdinary b = true := by
  revert h
  rcases hlower with rfl | rfl
  · exact forall_byte (P := fun b => Byte.isEither 120 b = true → Byte.isOrdinary b = true)
      (by decide +kernel) b
  · exact forall_byte (P := fun b => Byte.isEither 98 b = true → Byte.isOrdinary b = true)
      (by decide +kernel) b

theorem number_ordinary {found : NumberForm × Nat} (hp : Byte.isOrdinary (s.byte p) = true)
    (h : s.number p = .ok found) : s.OnlyBytes Byte.isOrdinary p found.2 := by
  obtain ⟨first, -, h⟩ := bind_eq_ok h
  obtain ⟨second, hsecond, h⟩ := bind_eq_ok h
  rw [byte_of_read hsecond] at h
  have hletter : ∀ lower : UInt8, lower = 120 ∨ lower = 98 →
      (first == Byte.zero && Byte.isEither lower (s.byte (p + 1))) = true →
      s.OnlyBytes Byte.isOrdinary p (p + 2) := fun lower hlower hprefix =>
    .cons hp (.single (isOrdinary_of_isEither hlower (Bool.and_eq_true_iff.1 hprefix).2))
  split at h
  · rename_i hhex
    exact (hletter 120 (.inl rfl) hhex).trans (hexTail_ordinary h)
  · split at h
    · rename_i hbin
      exact (hletter 98 (.inr rfl) hbin).trans (binaryTail_ordinary h)
    · obtain ⟨q, hwhole, h⟩ := bind_eq_ok h
      refine .cons hp (((skipWhile_onlyBytes hwhole).mono ?_).trans (decimalTail_ordinary h))
      exact isOrdinary_of_mem_numberClasses (by simp [numberClasses])

theorem wordStep_ordinary (h : 0 < s.wordStep p) :
    s.OnlyBytes Byte.isOrdinary p (p + s.wordStep p) := by
  have hp := (wordStep_reach h).1
  unfold wordStep at h ⊢
  by_cases hword : Byte.continuesWord (s.byte p) = true
  · simp only [hword, if_true]
    refine .single (forall_byte (P := fun b => Byte.continuesWord b = true →
      Byte.isOrdinary b = true) (by decide +kernel) _ hword)
  · by_cases hascii : Byte.isAscii (s.byte p) = true
    · simp [hword, hascii] at h
    · by_cases hchar : (s.char? p).any isWordPart = true
      · simp only [hword, hascii, hchar, if_true, Bool.false_eq_true, if_false]
        exact .char hp (isOrdinary_of_not_isAscii (by simpa using hascii))
          fun b => isOrdinary_of_not_isAscii
      · simp [hword, hascii, hchar] at h

theorem skipWord_ordinary (h : s.skipWord p = .ok q) : s.OnlyBytes Byte.isOrdinary p q := by
  fun_induction skipWord s p with
  | case1 p hsize hstep ih => exact (wordStep_ordinary hstep).trans (ih h)
  | case2 p hsize hstep =>
      cases h
      exact .nil
  | case3 p hsize => cases h

theorem fixedAt_admits {tag : Tag} {stop : Nat} (hp : p < s.len)
    (hb : Byte.isOrdinary (s.byte p) = true) (h : s.fixedAt p = .ok (tag, stop)) :
    s.OnlyBytes tag.admits p stop := by
  have hentries : ∀ entry ∈ Tag.longestFirst, (∀ b ∈ entry.1, Byte.isOrdinary b = true) ∧
      ∀ b : UInt8, entry.2.admits b = Byte.isOrdinary b := by
    intro entry hentry
    have hordinary : ∀ entry ∈ Tag.longestFirst, ∀ b ∈ entry.1, Byte.isOrdinary b = true := by
      decide +kernel
    refine ⟨hordinary entry hentry, fun b => ?_⟩
    have hfixed := (mem_longestFirst_bytes entry hentry).1
    simp only [Tag.fixed, List.mem_append, List.mem_map] at hfixed
    rcases hfixed with ⟨op, -, htag⟩ | ⟨sep, -, htag⟩ <;> rw [← htag] <;> rfl
  rw [fixedAt_eq_ok (Nat.le_of_lt hp)] at h
  cases hfound : s.fixed? p with
  | none =>
      rw [hfound] at h
      cases h
      exact .single hb
  | some entry =>
      rw [hfound] at h
      cases h
      obtain ⟨hbytes, hadmits⟩ := hentries entry (List.mem_of_find?_eq_some hfound)
      have hmatch : s.Matches entry.1 p := by simpa using List.find?_some hfound
      exact (hmatch.onlyBytes hbytes).mono fun b hordinary => by rw [hadmits, hordinary]

theorem not_isLineEnd_of_quoteStop {quote b : UInt8} (h : quoteStop quote b = false) :
    (!Byte.isLineEnd b) = true := by
  rw [quoteStop, Bool.or_eq_false_iff] at h
  rw [h.2]
  rfl

theorem not_isLineEnd_of_not_isAscii {b : UInt8} (h : Byte.isAscii b = false) :
    (!Byte.isLineEnd b) = true :=
  (Bool.and_eq_true_iff.1 (isOrdinary_of_not_isAscii h)).2

/-- A backslash takes no line end along, and no part of a line end in a character of many bytes. -/
theorem quotedRest_onlyBytes {quote : UInt8} {e : Extent} (hquote : Byte.isLineEnd quote = false)
    (h : s.quotedRest quote p = .ok e) : s.OnlyBytes (fun b => !Byte.isLineEnd b) p e.stop := by
  fun_induction quotedRest s quote p with
  | case1 p hseek =>
      cases h
      exact fun i hle hlt => not_isLineEnd_of_quoteStop (seek?_eq_none_iff.1 hseek i hle hlt)
  | case2 p q hseek hclose =>
      cases h
      obtain ⟨-, -, -, hbefore⟩ := seek?_eq_some_iff.1 hseek
      refine .trans (fun i hle hlt => not_isLineEnd_of_quoteStop (hbefore i hle hlt)) (.single ?_)
      rw [eq_of_beq hclose, hquote]
      rfl
  | case3 p q hseek hclose hline =>
      cases h
      obtain ⟨-, -, -, hbefore⟩ := seek?_eq_some_iff.1 hseek
      exact fun i hle hlt => not_isLineEnd_of_quoteStop (hbefore i hle hlt)
  | case4 p q hseek hclose hline ih =>
      obtain ⟨-, hlt, -, hbefore⟩ := seek?_eq_some_iff.1 hseek
      have hslash : s.OnlyBytes (fun b => !Byte.isLineEnd b) p (q + 1) :=
        .trans (fun i hle hlt => not_isLineEnd_of_quoteStop (hbefore i hle hlt))
          (.single (by simpa using hline))
      rw [read_of_le_len hlt, except_ok_bind] at h
      split at h
      · cases h
        exact hslash
      · rename_i hgoes
        simp only [Bool.or_eq_true, decide_eq_true_eq, not_or] at hgoes
        split at h
        · have hchar : s.OnlyBytes (fun b => !Byte.isLineEnd b) (q + 1)
              (q + 1 + Byte.charWidth (s.byte (q + 1))) :=
            .char (Nat.lt_of_not_le hgoes.1) (by simpa using hgoes.2)
              fun b => not_isLineEnd_of_not_isAscii
          exact (hslash.trans hchar).trans (ih _ h)
        · cases h

theorem isOrdinary_of_ofByte {b : UInt8} (hnull : Opening.ofByte b ≠ .null)
    (hreturn : Opening.ofByte b ≠ .carriageReturn) (hfeed : Opening.ofByte b ≠ .lineFeed) :
    Byte.isOrdinary b = true :=
  forall_byte (P := fun b => Opening.ofByte b ≠ .null → Opening.ofByte b ≠ .carriageReturn →
    Opening.ofByte b ≠ .lineFeed → Byte.isOrdinary b = true) (by decide +kernel) b hnull hreturn
    hfeed

theorem quotedAt_admits {tag : Tag} {stop : Nat} {form : QuoteForm} {quote : UInt8}
    (hquote : Byte.isLineEnd quote = false)
    (hb : s.byte p = quote) (h : s.quotedAt form quote p = .ok (tag, stop)) :
    s.OnlyBytes tag.admits p stop := by
  obtain ⟨⟨closed, last⟩, hrest, h⟩ := quotedAt_inv h
  have hline : s.OnlyBytes (fun b => !Byte.isLineEnd b) p last :=
    .cons (by rw [hb, hquote]; rfl) (quotedRest_onlyBytes hquote hrest)
  have hadmits : ∀ b : UInt8, (!Byte.isLineEnd b) = true →
      (form == .textBlock || !Byte.isLineEnd b) = true := fun b hb => by rw [hb, Bool.or_true]
  cases closed with
  | true =>
      cases h
      exact hline.mono hadmits
  | false =>
      cases h
      exact hline.mono hadmits

theorem textBlockAt_admits {tag : Tag} {stop : Nat} (h : s.textBlockAt p = .ok (tag, stop)) :
    s.OnlyBytes tag.admits p stop := by
  obtain ⟨⟨closed, last⟩, -, h⟩ := textBlockAt_inv h
  cases closed <;> cases h <;> exact fun _ _ _ => rfl

theorem blockComment_admits (s : Source) (p : Nat) :
    s.OnlyBytes (s.blockComment p).1.admits p (s.blockComment p).2 := by
  unfold blockComment
  split
  · split <;> exact fun _ _ _ => rfl
  · exact fun _ _ _ => rfl

theorem slash_admits {tag : Tag} {stop : Nat} (hp : p < s.len) (hb : s.byte p = Byte.slash)
    (h : s.rule p .slash = .ok (tag, stop)) : s.OnlyBytes tag.admits p stop := by
  rw [rule, read_of_le_len hp, except_ok_bind] at h
  split at h
  · cases h
    obtain ⟨-, -, -, hbefore⟩ := (lineEnd_eq_iff hp).1 rfl
    exact .cons (by rw [hb]; rfl) fun i hle hlt => congrArg not (hbefore i hle hlt)
  · split at h
    · rename_i hstar
      have hlt := lt_len_of_accepts (Byte.textClass_eq (b := Byte.star) rfl rfl) hstar
      have hadmits := s.blockComment_admits p
      rw [blockCommentAt_eq_ok hlt] at h
      rwa [Except.ok.inj h] at hadmits
    · exact fixedAt_admits hp (by rw [hb]; rfl) h

theorem wideAt_admits {tag : Tag} {stop : Nat} (hp : p < s.len)
    (hb : Byte.isAscii (s.byte p) = false) (h : s.wideAt p = .ok (tag, stop)) :
    s.OnlyBytes tag.admits p stop := by
  obtain ⟨next, hnext, h⟩ := bind_eq_ok h
  rw [skipChar, read_of_le_len (Nat.le_of_lt hp), except_ok_bind] at hnext
  have hchar : s.OnlyBytes Byte.isOrdinary p next := by
    rw [eq_of_checkedAdd hnext]
    exact .char hp (isOrdinary_of_not_isAscii hb) fun b => isOrdinary_of_not_isAscii
  obtain ⟨c, -, h⟩ := bind_eq_ok h
  split at h
  · obtain ⟨last, hlast, h⟩ := bind_eq_ok h
    cases h
    exact hchar.trans (skipWord_ordinary hlast)
  · cases h
    exact hchar

theorem rule_admits {tag : Tag} {stop : Nat} (hp : p < s.len)
    (h : s.rule p (.ofByte (s.byte p)) = .ok (tag, stop)) : s.OnlyBytes tag.admits p stop := by
  have hadmits := Opening.admits_ofByte (s.byte p)
  have hordinary := @isOrdinary_of_ofByte (s.byte p)
  generalize Opening.ofByte (s.byte p) = opening at h hadmits hordinary
  cases opening with
  | null =>
      cases h
      exact .single hadmits
  | blank =>
      obtain ⟨last, hlast, h⟩ := bind_eq_ok h
      cases h
      refine (skipWhile_onlyBytes hlast).mono fun b => ?_
      exact forall_byte (P := fun b => Byte.isBlank b = true → Byte.isOrdinary b = true)
        (by decide +kernel) b
  | carriageReturn =>
      obtain ⟨last, hlast, h⟩ := bind_eq_ok h
      cases h
      refine .cons (Byte.isLineEnd_iff.2 (.inr (eq_of_beq hadmits))) ?_
      exact (skipIf_onlyBytes hlast).mono fun b hb => Byte.isLineEnd_iff.2 (.inl (eq_of_beq hb))
  | lineFeed =>
      cases h
      exact .single (Byte.isLineEnd_iff.2 (.inl (eq_of_beq hadmits)))
  | substitute =>
      have hb := hordinary (by decide) (by decide) (by decide)
      obtain ⟨final, -, h⟩ := bind_eq_ok h
      cases final <;> cases h <;> exact .single hb
  | word =>
      have hb := hordinary (by decide) (by decide) (by decide)
      obtain ⟨last, hlast, h⟩ := bind_eq_ok h
      cases h
      exact .cons hb (skipWord_ordinary hlast)
  | digit =>
      have hb := hordinary (by decide) (by decide) (by decide)
      obtain ⟨found, hfound, h⟩ := bind_eq_ok h
      cases h
      exact number_ordinary hb hfound
  | dot =>
      have hb := hordinary (by decide) (by decide) (by decide)
      obtain ⟨next, -, h⟩ := bind_eq_ok h
      split at h
      · obtain ⟨found, hfound, h⟩ := bind_eq_ok h
        cases h
        exact decimalTail_ordinary hfound
      · exact fixedAt_admits hp hb h
  | slash => exact slash_admits hp (eq_of_beq hadmits) h
  | doubleQuote =>
      obtain ⟨block, -, h⟩ := bind_eq_ok h
      split at h
      · exact textBlockAt_admits h
      · exact quotedAt_admits rfl (eq_of_beq hadmits) h
  | singleQuote => exact quotedAt_admits rfl (eq_of_beq hadmits) h
  | wide => exact wideAt_admits hp (by simpa [Opening.admits] using hadmits) h
  | other => exact fixedAt_admits hp (hordinary (by decide) (by decide) (by decide)) h

theorem admits_of_scan {lexeme : Lexeme} (hscan : s.scan p = .ok (some lexeme)) :
    s.OnlyBytes lexeme.tag.admits p (p + lexeme.len) := by
  have hp := lt_len_of_scan hscan
  exact rule_admits hp ((scan_eq_some_iff hp).1 hscan).1

theorem null_of_scan {lexeme : Lexeme} (hscan : s.scan p = .ok (some lexeme))
    (hb : s.byte p = 0) : lexeme.tag = .interiorNull ∧ lexeme.len = 1 := by
  have hrule := ((scan_eq_some_iff (lt_len_of_scan hscan)).1 hscan).1
  rw [hb] at hrule
  obtain ⟨htag, hstop⟩ := Prod.mk.inj (Except.ok.inj hrule)
  exact ⟨htag.symm, (Nat.add_left_cancel hstop).symm⟩

end Source

/-- A lexeme of a row that starts at an offset, counted from the start of the row. -/
def Lexeme.StandsIn (lexeme : Lexeme) (found : List Lexeme) (p : Nat) : Prop :=
  ∃ before after, found = before ++ lexeme :: after ∧ (before.map Lexeme.len).sum = p

namespace Source.Scans

variable {s : Source} {p q i : Nat} {found before after : List Lexeme} {lexeme : Lexeme}

/-- The lengths of the lexemes up to some place of a row add up to this place of the text. -/
theorem split (h : s.Scans 0 (before ++ after) q) :
    s.Scans 0 before (before.map Lexeme.len).sum ∧
      s.Scans (before.map Lexeme.len).sum after q := by
  obtain ⟨mid, hbefore, hafter⟩ := h.exists_mid
  have hmid := hbefore.add_sum_len
  rw [Nat.zero_add] at hmid
  rw [hmid]
  exact ⟨hbefore, hafter⟩

theorem scan_of_standsIn (h : s.Scans 0 found q) (hstands : lexeme.StandsIn found p) :
    s.scan p = .ok (some lexeme) := by
  obtain ⟨before, after, rfl, rfl⟩ := hstands
  exact h.split.2.uncons.1

theorem exists_standsIn (h : s.Scans p found q) (hlt : p + i < q) :
    ∃ (lexeme : Lexeme) (start : Nat),
      lexeme.StandsIn found start ∧ start ≤ i ∧ i < start + lexeme.len := by
  induction h generalizing i with
  | nil p => omega
  | @cons p q lexeme rest _ _ ih =>
      rcases Nat.lt_or_ge i lexeme.len with hfirst | hlater
      · exact ⟨lexeme, 0, ⟨[], rest, rfl, rfl⟩, Nat.zero_le i, by omega⟩
      · obtain ⟨n, rfl⟩ := Nat.exists_eq_add_of_le hlater
        obtain ⟨other, start, ⟨before, after, hrow, hstart⟩, hle, hi⟩ := ih (i := n) (by omega)
        refine ⟨other, lexeme.len + start, ⟨lexeme :: before, after, ?_, ?_⟩, ?_, ?_⟩
        · rw [hrow]
          rfl
        · rw [List.map_cons, List.sum_cons, hstart]
        · exact Nat.add_le_add_left hle _
        · omega

end Source.Scans

end JavaLex
