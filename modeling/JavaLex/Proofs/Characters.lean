import JavaLex.Proofs.Grouping

/-! Characters behind the bytes that rules read. The first character of a lexeme says what it can
be: a name, blanks, something that other rules find, or a character that starts no rule. -/

namespace JavaLex

/-- A letter, `_` or `$`, outside ASCII an alphabetic character. -/
def startsName (c : Char) : Bool :=
  if c.toNat < 128 then c.isAlpha || c == '_' || c == '$' else Text.isAlphabetic c

/-- What starts a name or, outside ASCII too, is a digit or another number. -/
def continuesName (c : Char) : Bool :=
  if c.toNat < 128 then c.isAlphanum || c == '_' || c == '$'
  else Text.isAlphabetic c || Text.isNumeric c

/-- Space, tab, form feed and the characters of line ends. -/
def isBlankChar (c : Char) : Bool :=
  c == ' ' || c == '\t' || c == '\x0c' || c == '\n' || c == '\r'

/-- A character that starts no rule, SUB among them: another control character than a blank, one of
three signs, or outside ASCII one that is not alphabetic. -/
def isStray (c : Char) : Bool :=
  if c.toNat < 128 then
    (decide (c.toNat < 32) || c.toNat == 127) && !isBlankChar c ||
      c == '#' || c == '\\' || c == '\x60'
  else !Text.isAlphabetic c

/-- One character that starts a name, and others that continue it. -/
def IsName (text : String) : Prop :=
  ∃ first rest, text.toList = first :: rest ∧ startsName first = true ∧
    ∀ c ∈ rest, continuesName c = true

theorem forall_ascii {P : Char → Prop} (h : ∀ i : Fin 128, P (Char.ofNat i)) {c : Char}
    (hc : c.toNat < 128) : P c := by
  have hchar := h ⟨c.toNat, hc⟩
  rwa [Char.ofNat_toNat] at hchar

theorem isStray_of_startsName {c : Char} (h : startsName c = true) : isStray c = false := by
  by_cases hc : c.toNat < 128
  · revert h
    apply forall_ascii (P := fun c => startsName c = true → isStray c = false) _ hc
    decide +kernel
  · rw [startsName, if_neg hc] at h
    rw [isStray, if_neg hc, h]
    rfl

theorem isStray_of_isBlankChar {c : Char} (h : isBlankChar c = true) : isStray c = false := by
  simp only [isBlankChar, Bool.or_eq_true, beq_iff_eq] at h
  rcases h with (((rfl | rfl) | rfl) | rfl) | rfl <;> rfl

namespace Source

variable {s : Source} {p q : Nat} {c : Char}

theorem slice?_of_char? (h : s.char? p = some c) :
    s.slice? p (p + c.utf8Size) = some (String.singleton c) := by
  obtain ⟨a, b, hs, ha⟩ := char?_eq_some_iff.1 h
  exact slice?_eq_some_iff.2 ⟨a, b, hs, ha, by rw [String.utf8ByteSize_singleton]⟩

theorem isBoundary_of_char? (h : s.char? p = some c) : s.IsBoundary p ∧ p < s.len := by
  obtain ⟨hp, hq, -⟩ := isBoundary_of_slice? (slice?_of_char? h)
  have := hq.le_len
  have := c.utf8Size_pos
  exact ⟨hp, by omega⟩

theorem charWidth_of_char? (h : s.char? p = some c) : Byte.charWidth (s.byte p) = c.utf8Size := by
  obtain ⟨hb, hp⟩ := isBoundary_of_char? h
  obtain ⟨found, hfound, hwidth⟩ := exists_char_of_isBoundary hb hp
  rw [h] at hfound
  cases hfound
  exact hwidth.symm

theorem char_of_isAscii (h : s.char? p = some c) (hascii : Byte.isAscii (s.byte p) = true) :
    c = Char.ofNat (s.byte p).toNat := by
  have hone : c.utf8Size = 1 := by
    rw [← charWidth_of_char? h, Byte.charWidth_of_isAscii hascii]
  have hbyte := byte_of_slice? (slice?_of_char? h) (i := 0) (by
    rw [String.utf8ByteSize_singleton]
    exact c.utf8Size_pos)
  rw [Nat.zero_add] at hbyte
  have hchar : (Char.ofNat (s.byte p).toNat).utf8Size = 1 ∧
      byte ⟨String.singleton (Char.ofNat (s.byte p).toNat)⟩ 0 = s.byte p := by
    revert hascii
    apply forall_byte (P := fun b => Byte.isAscii b = true →
      (Char.ofNat b.toNat).utf8Size = 1 ∧ byte ⟨String.singleton (Char.ofNat b.toNat)⟩ 0 = b)
    decide +kernel
  have hsame : String.singleton c = String.singleton (Char.ofNat (s.byte p).toNat) := by
    apply eq_of_byte_eq
    · rw [String.utf8ByteSize_singleton, String.utf8ByteSize_singleton, hone, hchar.1]
    · intro i hi
      rw [String.utf8ByteSize_singleton, hone] at hi
      rw [Nat.lt_one_iff.1 hi, ← hbyte, hchar.2]
  exact String.singleton_inj.1 hsame

theorem forall_asciiChar {P : UInt8 → Char → Prop}
    (hP : ∀ i : Fin 256, Byte.isAscii (UInt8.ofFin i) = true → P (UInt8.ofFin i) (Char.ofNat i))
    (h : s.char? p = some c) (hascii : Byte.isAscii (s.byte p) = true) : P (s.byte p) c := by
  rw [char_of_isAscii h hascii]
  exact forall_byte (P := fun b => Byte.isAscii b = true → P b (Char.ofNat b.toNat)) hP _ hascii

theorem isAscii_iff (h : s.char? p = some c) : Byte.isAscii (s.byte p) = true ↔ c.toNat < 128 := by
  constructor
  · exact forall_asciiChar (P := fun _ c => c.toNat < 128) (by decide +kernel) h
  · intro hc
    have hone : c.utf8Size = 1 := by
      rw [Char.utf8Size_eq_one_iff, UInt32.le_iff_toNat_le]
      exact Nat.le_of_lt_succ hc
    rw [← charWidth_of_char? h] at hone
    obtain ⟨hb, hp⟩ := isBoundary_of_char? h
    rcases isBoundary_iff_first.1 hb with hend | ⟨-, hfirst⟩
    · omega
    · revert hfirst hone
      apply forall_byte (P := fun b =>
        Byte.charWidth b = 1 → b.IsUTF8FirstByte → Byte.isAscii b = true)
      decide +kernel

end Source

/-- What an opening says of the character it stands for. -/
def Opening.fits : Opening → Char → Bool
  | .null, c => c == '\x00'
  | .blank, c => isBlankChar c
  | .carriageReturn, c => c == '\r'
  | .lineFeed, c => c == '\n'
  | .substitute, c => c == '\x1a'
  | .word, c => startsName c
  | .wide, c => !decide (c.toNat < 128)
  | .other, c => c != '\x1a'
  | _, c => !isStray c

namespace Source

variable {s : Source} {p q r : Nat} {c : Char} {accepts : Char → Bool}

theorem fits_of_char? (h : s.char? p = some c) : (Opening.ofByte (s.byte p)).fits c = true := by
  by_cases hascii : Byte.isAscii (s.byte p) = true
  · exact forall_asciiChar (P := fun b c => (Opening.ofByte b).fits c = true)
      (by decide +kernel) h hascii
  · have hwide : Opening.ofByte (s.byte p) = .wide := by
      by_contra hwide
      exact hascii (Opening.isAscii_of_ofByte hwide)
    have hc : ¬ c.toNat < 128 := fun hc => hascii ((isAscii_iff h).2 hc)
    rw [hwide, Opening.fits, decide_eq_false hc]
    rfl

def OnlyChars (s : Source) (accepts : Char → Bool) (p q : Nat) : Prop :=
  ∃ text, s.slice? p q = some text ∧ ∀ c ∈ text.toList, accepts c = true

namespace OnlyChars

theorem nil (hp : s.IsBoundary p) : s.OnlyChars accepts p p :=
  ⟨"", slice?_self hp, List.forall_mem_nil _⟩

theorem single (h : s.char? p = some c) (hc : accepts c = true) :
    s.OnlyChars accepts p (p + c.utf8Size) := by
  refine ⟨String.singleton c, slice?_of_char? h, ?_⟩
  rw [String.toList_singleton]
  exact List.forall_mem_singleton.2 hc

theorem trans (h : s.OnlyChars accepts p q) (h' : s.OnlyChars accepts q r) :
    s.OnlyChars accepts p r := by
  obtain ⟨text, hslice, htext⟩ := h
  obtain ⟨later, hslice', hlater⟩ := h'
  refine ⟨text ++ later, slice?_trans hslice hslice', ?_⟩
  rw [String.toList_append]
  exact List.forall_mem_append.2 ⟨htext, hlater⟩

end OnlyChars

theorem onlyChars_of_bytes {bytes : UInt8 → Bool} (hclass : Byte.TextClass bytes)
    (hchars : ∀ i : Fin 256, Byte.isAscii (UInt8.ofFin i) = true →
      bytes (UInt8.ofFin i) = true → accepts (Char.ofNat i) = true)
    (hp : s.IsBoundary p) {n : Nat} (h : ∀ i, p ≤ i → i < p + n → bytes (s.byte i) = true) :
    s.OnlyChars accepts p (p + n) := by
  induction n generalizing p with
  | zero => exact .nil hp
  | succ n ih =>
      have hbyte := h p (Nat.le_refl p) (by omega)
      have hascii := hclass.ascii _ hbyte
      have hlt := lt_len_of_accepts hclass hbyte
      obtain ⟨c, hc, hwidth⟩ := exists_char_of_isBoundary hp hlt
      have hchar : accepts c = true := by
        revert hbyte
        exact forall_asciiChar (P := fun b c => bytes b = true → accepts c = true) hchars hc hascii
      have hfirst : s.OnlyChars accepts p (p + 1) := by
        rw [Byte.charWidth_of_isAscii hascii] at hwidth
        rw [← hwidth]
        exact .single hc hchar
      have hrest := ih ((Reach.ascii hlt hascii).boundary hp)
        fun i hle hi => h i (by omega) (by omega)
      rw [Nat.add_assoc, Nat.add_comm 1 n] at hrest
      exact hfirst.trans hrest

theorem onlyChars_of_blank (hp : s.IsBoundary p) {n : Nat}
    (h : ∀ i, p ≤ i → i < p + n → Byte.isBlank (s.byte i) = true) :
    s.OnlyChars isBlankChar p (p + n) :=
  onlyChars_of_bytes Byte.textClass_isBlank (by decide +kernel) hp h

theorem onlyChars_of_lineFeed (hp : s.IsBoundary p) (hb : s.byte p = Byte.lineFeed) :
    s.OnlyChars isBlankChar p (p + 1) := by
  have hascii : Byte.isAscii (s.byte p) = true := by
    rw [hb]
    rfl
  have hlt : p < s.len := lt_len_of_byte_ne_zero (by rw [hb]; decide)
  obtain ⟨c, hc, -⟩ := exists_char_of_isBoundary hp hlt
  have hchar : c = '\n' := by
    rw [char_of_isAscii hc hascii, hb]
    rfl
  subst hchar
  exact .single hc rfl

theorem wordStep_eq (h : s.char? p = some c) :
    s.wordStep p = if continuesName c then c.utf8Size else 0 := by
  simp only [wordStep, h, charWidth_of_char? h, Option.any_some, isWordPart]
  by_cases hascii : Byte.isAscii (s.byte p) = true
  · have hcontinues : continuesName c = Byte.continuesWord (s.byte p) :=
      forall_asciiChar (P := fun b c => continuesName c = Byte.continuesWord b)
        (by decide +kernel) h hascii
    rw [hcontinues, ← charWidth_of_char? h, Byte.charWidth_of_isAscii hascii]
    simp [hascii]
  · have hword : ¬ Byte.continuesWord (s.byte p) = true :=
      fun hword => hascii (Byte.textClass_continuesWord.ascii _ hword)
    rw [if_neg hword, if_neg hascii, continuesName,
      if_neg (fun hc => hascii ((isAscii_iff h).2 hc))]

theorem skipWord_spells (hp : s.IsBoundary p) :
    ∀ q, s.skipWord p = .ok q → s.OnlyChars continuesName p q ∧
      ∀ c, s.char? q = some c → continuesName c = false := by
  fun_induction skipWord s p with
  | case1 p hsize hstep ih =>
      intro q h
      obtain ⟨hlt, hreach⟩ := wordStep_reach hstep
      obtain ⟨c, hc, -⟩ := exists_char_of_isBoundary hp hlt
      obtain ⟨hrest, hnext⟩ := ih (hreach.boundary hp) q h
      rw [wordStep_eq hc] at hstep hrest
      split at hstep
      · rename_i hcontinues
        rw [if_pos hcontinues] at hrest
        exact ⟨.trans (.single hc hcontinues) hrest, hnext⟩
      · cases hstep
  | case2 p hsize hstep =>
      intro q h
      cases h
      refine ⟨.nil hp, ?_⟩
      intro c hc
      rw [wordStep_eq hc] at hstep
      split at hstep
      · exact absurd c.utf8Size_pos hstep
      · rename_i hcontinues
        exact Bool.eq_false_iff.2 hcontinues
  | case3 p hsize =>
      intro q h
      cases h

end Source

def Opening.isFixed : Opening → Bool
  | .other | .dot | .slash => true
  | _ => false

/-- Tags of a character that no rule takes. -/
def Tag.isInvalid : Tag → Bool
  | invalidChar | interiorNull => true
  | _ => false

/-- Tags of lexemes that neither a name nor a blank nor a stray character starts. -/
def Tag.isSolid : Tag → Bool
  | number _ | quoted _ | unterminated _ | operator _ | separator _ => true
  | comment _ | unterminatedComment => true
  | _ => false

theorem Tag.isSolid_of_mem_fixed {tag : Tag} (h : tag ∈ Tag.fixed) : tag.isSolid = true := by
  simp only [fixed, List.mem_append, List.mem_map] at h
  rcases h with ⟨op, -, rfl⟩ | ⟨sep, -, rfl⟩ <;> rfl

namespace Source

variable {s : Source} {p q r : Nat} {c : Char}

/-- The lexeme that stands between `p` and another offset, by the character at `p`. -/
inductive Spelling (s : Source) (p : Nat) (c : Char) : Tag → Nat → Prop where
  | stray {tag : Tag} :
      tag.isInvalid = true → isStray c = true →
      (c = '\x1a' → p + 1 ≠ s.len) → Spelling s p c tag (p + c.utf8Size)
  | name {stop : Nat} :
      startsName c = true → s.OnlyChars continuesName (p + c.utf8Size) stop →
      (∀ next, s.char? stop = some next → continuesName next = false) →
      Spelling s p c .word stop
  | blanks {tag : Tag} {stop : Nat} :
      tag.isBlank = true → isBlankChar c = true → s.OnlyChars isBlankChar p stop →
      Spelling s p c tag stop
  /-- The SUB that ends a text. -/
  | final : c = '\x1a' → p + 1 = s.len → Spelling s p c .blank (p + 1)
  | solid {tag : Tag} {stop : Nat} :
      tag.isSolid = true → isStray c = false → Spelling s p c tag stop

theorem Spelling.of_word {stop : Nat} (h : s.Spelling p c .word stop) :
    startsName c = true ∧ s.OnlyChars continuesName (p + c.utf8Size) stop ∧
      ∀ next, s.char? stop = some next → continuesName next = false := by
  cases h with
  | stray htag _ _ => cases htag
  | name hc hrest hnext => exact ⟨hc, hrest, hnext⟩
  | blanks htag _ _ => cases htag
  | solid htag _ => cases htag

theorem Spelling.of_stray {tag : Tag} {stop : Nat} (h : s.Spelling p c tag stop)
    (htag : tag.isInvalid = true) :
    isStray c = true ∧ (c = '\x1a' → p + 1 ≠ s.len) ∧ stop = p + c.utf8Size := by
  cases h with
  | stray _ hc hsub => exact ⟨hc, hsub, rfl⟩
  | name => cases htag
  | blanks hblank _ _ => cases tag <;> cases htag <;> cases hblank
  | final => cases htag
  | solid hsolid _ => cases tag <;> cases htag <;> cases hsolid

/-- Only a stray character is a lexeme of no rule, unless it is the SUB that ends the text. -/
theorem Spelling.isInvalid_of_isStray {tag : Tag} {stop : Nat} (h : s.Spelling p c tag stop)
    (hc : isStray c = true) (hsub : c = '\x1a' → p + 1 ≠ s.len) : tag.isInvalid = true := by
  cases h with
  | stray htag _ _ => exact htag
  | name hname _ _ => simp [isStray_of_startsName hname] at hc
  | blanks _ hblank _ => simp [isStray_of_isBlankChar hblank] at hc
  | final hfinal hend => exact absurd hend (hsub hfinal)
  | solid _ hsolid => simp [hsolid] at hc

/-- A byte that starts a fixed text is a fixed text by itself, so that only a stray character is
left without one. -/
theorem isStray_eq_isNone (h : s.char? p = some c)
    (hascii : Byte.isAscii (s.byte p) = true)
    (hopening : (Opening.ofByte (s.byte p)).isFixed = true) :
    isStray c = (s.fixed? p).isNone := by
  have hentries : isStray c =
      (Tag.longestFirst.filter fun entry => entry.1.head? == some (s.byte p)).isEmpty ∧
        (isStray c = false → ∃ entry ∈ Tag.longestFirst, entry.1 = [s.byte p]) := by
    revert hopening
    exact forall_asciiChar (P := fun b c => (Opening.ofByte b).isFixed = true →
      isStray c = (Tag.longestFirst.filter fun entry => entry.1.head? == some b).isEmpty ∧
        (isStray c = false → ∃ entry ∈ Tag.longestFirst, entry.1 = [b]))
      (by decide +kernel) h hascii
  obtain ⟨hstray, hlone⟩ := hentries
  cases hc : isStray c with
  | true =>
      rw [hc] at hstray
      rw [fixed?_eq_find?, List.isEmpty_iff.1 hstray.symm]
      rfl
  | false =>
      obtain ⟨entry, hmem, hbytes⟩ := hlone hc
      symm
      rw [Option.isNone_eq_false_iff, fixed?, List.find?_isSome]
      refine ⟨entry, hmem, decide_eq_true ?_⟩
      rw [hbytes]
      exact ⟨rfl, trivial⟩

theorem fixedAt_spelling (h : s.char? p = some c)
    (hopening : (Opening.ofByte (s.byte p)).isFixed = true) {tag : Tag} {stop : Nat}
    (hfixed : s.fixedAt p = .ok (tag, stop)) : s.Spelling p c tag stop := by
  have hascii : Byte.isAscii (s.byte p) = true := by
    apply Opening.isAscii_of_ofByte
    intro hwide
    simp [hwide, Opening.isFixed] at hopening
  have hstray := isStray_eq_isNone h hascii hopening
  rw [fixedAt_eq_ok (Nat.le_of_lt (isBoundary_of_char? h).2)] at hfixed
  cases hfound : s.fixed? p with
  | none =>
      rw [hfound] at hfixed hstray
      cases hfixed
      rw [← Byte.charWidth_of_isAscii hascii, charWidth_of_char? h]
      refine .stray rfl hstray ?_
      rintro rfl
      have hsub : (Opening.ofByte (s.byte p)).isFixed = false :=
        forall_asciiChar (P := fun b c => c = '\x1a' → (Opening.ofByte b).isFixed = false)
          (by decide +kernel) h hascii rfl
      simp [hsub] at hopening
  | some entry =>
      rw [hfound] at hfixed hstray
      cases hfixed
      have hmem := (mem_longestFirst_bytes _ (List.mem_of_find?_eq_some hfound)).1
      exact .solid (Tag.isSolid_of_mem_fixed hmem) hstray

theorem quotedAt_isSolid {form : QuoteForm} {quote : UInt8} {tag : Tag} {stop : Nat}
    (h : s.quotedAt form quote p = .ok (tag, stop)) : tag.isSolid = true := by
  obtain ⟨⟨closed, last⟩, -, h⟩ := quotedAt_inv h
  cases closed <;> cases h <;> rfl

theorem textBlockAt_isSolid {tag : Tag} {stop : Nat}
    (h : s.textBlockAt p = .ok (tag, stop)) : tag.isSolid = true := by
  obtain ⟨⟨closed, last⟩, -, h⟩ := textBlockAt_inv h
  cases closed <;> cases h <;> rfl

theorem blockCommentAt_isSolid {tag : Tag} {stop : Nat}
    (h : s.blockCommentAt p = .ok (tag, stop)) : tag.isSolid = true := by
  simp only [blockCommentAt, closeFrom_eq_ok, except_ok_bind] at h
  obtain ⟨b, -, h⟩ := bind_eq_ok h
  split at h
  · obtain ⟨doc, -, h⟩ := bind_eq_ok h
    split at h <;> cases h <;> rfl
  · obtain ⟨doc, -, h⟩ := bind_eq_ok h
    split at h <;> cases h <;> rfl

section

variable {tag : Tag} {stop : Nat} (hfit : s.len ≤ maxOffset) (h : s.char? p = some c)

include hfit h

theorem wideAt_spelling (hc : ¬ c.toNat < 128) (hrule : s.wideAt p = .ok (tag, stop)) :
    s.Spelling p c tag stop := by
  obtain ⟨hb, hp⟩ := isBoundary_of_char? h
  have hchar : s.Reach p (p + c.utf8Size) := by
    rw [← charWidth_of_char? h]
    exact .char hp
  simp only [wideAt, skipChar, charAt, read_of_le_len (Nat.le_of_lt hp), except_ok_bind,
    charWidth_of_char? h, checkedAdd_eq_ok (Nat.le_trans hchar.le_len hfit), except_pure,
    h] at hrule
  split at hrule
  · rename_i halphabetic
    obtain ⟨q, hq, hrule⟩ := bind_eq_ok hrule
    cases hrule
    obtain ⟨hrest, hnext⟩ := skipWord_spells (hchar.boundary hb) stop hq
    refine .name ?_ hrest hnext
    rw [startsName, if_neg hc]
    exact halphabetic
  · rename_i halphabetic
    cases hrule
    refine .stray rfl ?_ ?_
    · rw [isStray, if_neg hc, Bool.not_eq_true', Bool.eq_false_iff]
      exact halphabetic
    · rintro rfl
      exact absurd (by decide) hc

theorem rule_spelling (hrule : s.rule p (.ofByte (s.byte p)) = .ok (tag, stop)) :
    s.Spelling p c tag stop := by
  obtain ⟨hb, hp⟩ := isBoundary_of_char? h
  have hfits := fits_of_char? h
  have hone : Opening.ofByte (s.byte p) ≠ .wide → c.utf8Size = 1 ∧ s.Reach p (p + 1) := by
    intro hwide
    have hascii := Opening.isAscii_of_ofByte hwide
    rw [← charWidth_of_char? h, Byte.charWidth_of_isAscii hascii]
    exact ⟨rfl, .ascii hp hascii⟩
  have hfixed : (Opening.ofByte (s.byte p)).isFixed = true → s.fixedAt p = .ok (tag, stop) →
      s.Spelling p c tag stop := fun hopening hfixed => fixedAt_spelling h hopening hfixed
  have hsolid : (!isStray c) = true → tag.isSolid = true → s.Spelling p c tag stop :=
    fun hc htag => .solid htag (by rwa [Bool.not_eq_true'] at hc)
  generalize Opening.ofByte (s.byte p) = opening at hfits hrule hone hfixed
  cases opening with
  | null =>
      cases eq_of_beq hfits
      cases hrule
      exact .stray rfl rfl fun hsub => absurd hsub (by decide)
  | blank =>
      obtain ⟨q, hq, hrule⟩ := bind_eq_ok hrule
      cases hrule
      obtain ⟨hreach, hrun⟩ :=
        (skipWhile_returns hfit Byte.textClass_isBlank (Nat.le_of_lt hp)).of_eq_ok hq
      obtain ⟨n, rfl⟩ := Nat.exists_eq_add_of_le hreach.le
      exact .blanks rfl hfits (onlyChars_of_blank hb hrun.accepted)
  | carriageReturn =>
      obtain ⟨hsize, hstep⟩ := hone (by decide)
      obtain ⟨q, hq, hrule⟩ := bind_eq_ok hrule
      cases hrule
      cases eq_of_beq hfits
      have hfirst : s.OnlyChars isBlankChar p (p + 1) := .single h rfl
      simp only [skipIf, read_of_le_len hstep.le_len, except_ok_bind, except_pure] at hq
      cases hq
      refine .blanks rfl rfl ?_
      split
      · rename_i hfeed
        exact hfirst.trans (onlyChars_of_lineFeed (hstep.boundary hb) (eq_of_beq hfeed))
      · exact hfirst
  | lineFeed =>
      cases eq_of_beq hfits
      cases hrule
      exact .blanks rfl rfl (.single h rfl)
  | substitute =>
      cases eq_of_beq hfits
      obtain ⟨-, hstep⟩ := hone (by decide)
      simp only [rule, atEnd_of_le_len hstep.le_len, except_ok_bind, except_pure,
        decide_eq_true_eq] at hrule
      cases hrule
      split
      · rename_i hend
        exact .final rfl hend
      · rename_i hend
        exact .stray rfl rfl fun _ => hend
  | word =>
      obtain ⟨hsize, hstep⟩ := hone (by decide)
      obtain ⟨q, hq, hrule⟩ := bind_eq_ok hrule
      cases hrule
      obtain ⟨hrest, hnext⟩ := skipWord_spells (hstep.boundary hb) stop hq
      exact .name hfits (by rwa [hsize]) hnext
  | digit =>
      obtain ⟨⟨form, q⟩, -, hrule⟩ := bind_eq_ok hrule
      cases hrule
      exact hsolid hfits rfl
  | dot =>
      obtain ⟨next, -, hrule⟩ := bind_eq_ok hrule
      split at hrule
      · obtain ⟨⟨form, q⟩, -, hrule⟩ := bind_eq_ok hrule
        cases hrule
        exact hsolid hfits rfl
      · exact hfixed rfl hrule
  | slash =>
      obtain ⟨next, -, hrule⟩ := bind_eq_ok hrule
      split at hrule
      · cases hrule
        exact hsolid hfits rfl
      · split at hrule
        · exact hsolid hfits (blockCommentAt_isSolid hrule)
        · exact hfixed rfl hrule
  | doubleQuote =>
      obtain ⟨opens, -, hrule⟩ := bind_eq_ok hrule
      split at hrule
      · exact hsolid hfits (textBlockAt_isSolid hrule)
      · exact hsolid hfits (quotedAt_isSolid hrule)
  | singleQuote => exact hsolid hfits (quotedAt_isSolid hrule)
  | wide =>
      rw [Opening.fits, Bool.not_eq_true', decide_eq_false_iff_not] at hfits
      exact wideAt_spelling hfit h hfits hrule
  | other => exact hfixed rfl hrule

end

theorem spelling_of_scan {lexeme : Lexeme} (hfit : s.len ≤ maxOffset) (hp : s.IsBoundary p)
    (hscan : s.scan p = .ok (some lexeme)) :
    ∃ c, s.char? p = some c ∧ s.Spelling p c lexeme.tag (p + lexeme.len) := by
  have hlt := (lexed_of_scan hfit hp.le_len hscan).1
  obtain ⟨c, hc, -⟩ := exists_char_of_isBoundary hp hlt
  exact ⟨c, hc, rule_spelling hfit hc ((scan_eq_some_iff hlt).1 hscan).1⟩

/-- Blank characters, behind which the SUB that ends the text may stand. -/
def Blanks (s : Source) (p q : Nat) : Prop :=
  s.OnlyChars isBlankChar p q ∨
    ∃ m, s.OnlyChars isBlankChar p m ∧ s.char? m = some '\x1a' ∧ m + 1 = q ∧ q = s.len

theorem Blanks.of_onlyChars (h : s.OnlyChars isBlankChar p q) (h' : s.Blanks q r) :
    s.Blanks p r := by
  rcases h' with h' | ⟨m, h', hsub, hm, hr⟩
  · exact .inl (h.trans h')
  · exact .inr ⟨m, h.trans h', hsub, hm, hr⟩

/-- Lexemes of blanks in a row. Only the last of them can be the SUB. -/
theorem Scans.blanks {found : List Lexeme} (hfit : s.len ≤ maxOffset) (h : s.Scans p found q)
    (htags : ∀ lexeme ∈ found, lexeme.tag.isBlank = true) (hp : s.IsBoundary p) :
    s.Blanks p q := by
  induction h with
  | nil p => exact .inl (.nil hp)
  | @cons p q lexeme rest hscan hrest ih =>
      obtain ⟨htag, htags⟩ := List.forall_mem_cons.1 htags
      obtain ⟨-, hlexed⟩ := lexed_of_scan hfit hp.le_len hscan
      obtain ⟨c, hc, hspelling⟩ := spelling_of_scan hfit hp hscan
      have hlater := ih htags (hlexed.reach.boundary hp)
      generalize lexeme.tag = tag at htag hspelling
      generalize hstop : p + lexeme.len = stop at *
      cases hspelling with
      | stray hinvalid _ _ => cases tag <;> cases htag <;> cases hinvalid
      | name => cases htag
      | blanks _ _ hblanks => exact .of_onlyChars hblanks hlater
      | final hsub hend =>
          subst hsub
          rw [hend] at hrest
          cases hrest.eq_nil
          cases hrest
          exact .inr ⟨p, .nil hp, hc, hend, rfl⟩
      | solid hsolid _ => cases tag <;> cases htag <;> cases hsolid

end Source

end JavaLex
