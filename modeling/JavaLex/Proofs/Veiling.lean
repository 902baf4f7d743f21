import JavaLex.Proofs.Contents

/-! Zero bytes mean nothing to the scanner but where a lexeme starts with one. It comes to the same
lexemes in a text that has ones for some of its zero bytes: every search, every class of bytes and
every fixed text treats the two alike, and the end of the text is told by its length. -/

namespace JavaLex

/-- What becomes of a lexeme that starts at `p` where the zero bytes at chosen offsets are ones. -/
def Lexeme.veil (chosen : Nat → Bool) (p : Nat) (lexeme : Lexeme) : Lexeme :=
  if lexeme.tag = .interiorNull ∧ chosen p then { lexeme with tag := .invalidChar } else lexeme

def Lexeme.veilRow (chosen : Nat → Bool) : Nat → List Lexeme → List Lexeme
  | _, [] => []
  | p, lexeme :: rest => lexeme.veil chosen p :: veilRow chosen (p + lexeme.len) rest

variable {chosen : Nat → Bool}

@[simp] theorem Lexeme.veil_len (p : Nat) (lexeme : Lexeme) :
    (lexeme.veil chosen p).len = lexeme.len := by
  unfold veil
  split <;> rfl

theorem Lexeme.map_len_veilRow (p : Nat) (found : List Lexeme) :
    (veilRow chosen p found).map len = found.map len := by
  induction found generalizing p with
  | nil => rfl
  | cons lexeme rest ih => rw [veilRow, List.map_cons, List.map_cons, veil_len, ih]

theorem findM?_congr {α : Type} {f g : α → Except Fault Bool} {l : List α}
    (h : ∀ a ∈ l, f a = g a) : l.findM? f = l.findM? g := by
  induction l with
  | nil => rfl
  | cons a rest ih =>
      rw [List.findM?, List.findM?, h a List.mem_cons_self,
        ih fun b hb => h b (List.mem_cons_of_mem a hb)]

/-- A function of bytes that takes the byte 1 for a zero byte. -/
def Byte.Blind {α : Type} (f : UInt8 → α) : Prop := f 1 = f 0

theorem Byte.blind_beq {b : UInt8} (hzero : b ≠ 0) (hone : b ≠ 1) : Blind (· == b) := by
  simp only [Blind, beq_eq_false_iff_ne.2 hzero.symm, beq_eq_false_iff_ne.2 hone.symm]

namespace Source

/-- The second source has ones where the first one has zero bytes at chosen offsets. -/
structure Veils (chosen : Nat → Bool) (s t : Source) : Prop where
  len_eq : t.len = s.len
  byte_eq : ∀ p, t.byte p = if p < s.len ∧ s.byte p = 0 ∧ chosen p then 1 else s.byte p

namespace Veils

variable {s t : Source} {p q : Nat} (h : Veils chosen s t)

include h

theorem size_eq : t.size = s.size := by
  rw [size, h.len_eq]
  rfl

theorem apply {α : Type} {f : UInt8 → α} (hf : Byte.Blind f) (p : Nat) :
    f (t.byte p) = f (s.byte p) := by
  rw [h.byte_eq]
  split
  · rename_i hzero
    rw [hzero.2.1, hf]
  · rfl

theorem bind_read {α : Type} {f : UInt8 → Except Fault α} (hf : Byte.Blind f) (p : Nat) :
    t.read p >>= f = s.read p >>= f := by
  unfold read
  rw [h.size_eq]
  split
  · exact h.apply hf p
  · rfl

theorem byte_of_ne_zero (hp : s.byte p ≠ 0) : t.byte p = s.byte p := by
  rw [h.byte_eq, if_neg fun hzero => hp hzero.2.1]

/-- Zero bytes count at the end of the text only, and there they stay. -/
theorem atEnd (p : Nat) : t.atEnd p = s.atEnd p := by
  rcases Nat.lt_or_ge p s.len with hlt | hge
  · simp only [Source.atEnd, h.len_eq, decide_eq_false (Nat.not_le_of_lt hlt), Bool.and_false]
    exact h.bind_read (by rfl) p
  · have hbyte : t.byte p = s.byte p := by
      rw [h.byte_eq, if_neg fun hzero => Nat.not_lt_of_le hge hzero.1]
    unfold Source.atEnd read
    rw [h.size_eq, hbyte, h.len_eq]

theorem isBoundary_iff : t.IsBoundary p ↔ s.IsBoundary p := by
  have hfirst := h.apply (f := fun b => decide b.IsUTF8FirstByte) rfl p
  rw [decide_eq_decide] at hfirst
  rw [isBoundary_iff_first, isBoundary_iff_first, h.len_eq, hfirst]

/-- A character outside ASCII has no zero byte. -/
theorem char? (hp : Byte.isAscii (s.byte p) = false) : t.char? p = s.char? p := by
  have hne : ∀ i, Byte.isAscii (s.byte i) = false → s.byte i ≠ 0 := by
    intro i hi hzero
    rw [hzero] at hi
    cases hi
  have hlt : p < s.len := lt_len_of_byte_ne_zero (hne p hp)
  by_cases hb : s.IsBoundary p
  · obtain ⟨c, hc, hwidth⟩ := exists_char_of_isBoundary hb hlt
    obtain ⟨a, b, htext, ha⟩ := char?_eq_some_iff.1 hc
    have hsize : (String.singleton c).utf8ByteSize = Byte.charWidth (s.byte p) := by
      rw [String.utf8ByteSize_singleton, hwidth]
    have hstop : t.IsBoundary (p + (String.singleton c).utf8ByteSize) := by
      rw [hsize, h.isBoundary_iff]
      exact hb.add_charWidth hlt
    have hslice := slice?_eq_some_iff.2 ⟨a, b, htext, ha, rfl⟩
    have hbytes : ∀ i, i < (String.singleton c).utf8ByteSize →
        t.byte (i + p) = byte ⟨String.singleton c⟩ i := by
      intro i hi
      rw [← byte_of_slice? hslice hi]
      apply h.byte_of_ne_zero
      apply hne
      rcases Nat.eq_zero_or_pos i with rfl | hpos
      · rwa [Nat.zero_add]
      · exact isAscii_inside hb hlt (by omega) (by omega)
    have hstart := h.isBoundary_iff.2 hb
    have hslice' := slice?_eq_some_slice hstart hstop (Nat.le_add_right _ _)
    rw [slice_eq_of_byte_eq hstart hstop hbytes] at hslice'
    obtain ⟨a', b', htext', ha', -⟩ := slice?_eq_some_iff.1 hslice'
    rw [hc]
    exact char?_eq_some_iff.2 ⟨a', b', htext', ha'⟩
  · rw [Source.char?, Source.char?, dif_neg hb, dif_neg (h.isBoundary_iff.not.2 hb)]

theorem seek?_eq {good good' : Nat → Bool} (hgood : ∀ i, good' i = good i) (p : Nat) :
    t.seek? good' p = s.seek? good p := by
  obtain rfl : good' = good := funext hgood
  fun_induction Source.seek? s good' p with
  | case1 p hp hg => rw [Source.seek?, h.len_eq, if_pos hp, if_pos hg]
  | case2 p hp hg ih => rw [Source.seek?, h.len_eq, if_pos hp, if_neg hg, ih]
  | case3 p hp => rw [Source.seek?, h.len_eq, if_neg hp]

theorem seek?_stop {stops : UInt8 → Bool} (hstops : Byte.Blind stops) (p : Nat) :
    t.seek? (fun i => stops (t.byte i)) p = s.seek? (fun i => stops (s.byte i)) p :=
  h.seek?_eq (h.apply hstops) p

theorem lineEnd (p : Nat) : t.lineEnd p = s.lineEnd p := by
  unfold Source.lineEnd leap
  rw [h.seek?_stop (rfl : Byte.Blind Byte.isLineEnd), h.len_eq]

theorem commentClose? (p : Nat) : t.commentClose? p = s.commentClose? p := by
  unfold Source.commentClose?
  rw [h.seek?_eq fun i => ?_]
  rw [h.apply (f := (· == Byte.star)) rfl i, h.apply (f := (· == Byte.slash)) rfl (i + 1)]

theorem skipWhile {accepts : UInt8 → Bool} (haccepts : Byte.Blind accepts) (p : Nat) :
    t.skipWhile accepts p = s.skipWhile accepts p := by
  have happly := h.apply haccepts
  fun_induction Source.skipWhile s accepts p with
  | case1 p hsize hacc hmax ih =>
      rw [Source.skipWhile, h.size_eq, if_pos hsize, happly, if_pos hacc, if_pos hmax, ih]
  | case2 p hsize hacc hmax =>
      rw [Source.skipWhile, h.size_eq, if_pos hsize, happly, if_pos hacc, if_neg hmax]
  | case3 p hsize hacc => rw [Source.skipWhile, h.size_eq, if_pos hsize, happly, if_neg hacc]
  | case4 p hsize => rw [Source.skipWhile, h.size_eq, if_neg hsize]

theorem skipIf {accepts : UInt8 → Bool} (haccepts : Byte.Blind accepts) (p : Nat) :
    t.skipIf accepts p = s.skipIf accepts p := by
  unfold Source.skipIf
  exact h.bind_read (by rw [Byte.Blind, haccepts]) p

theorem startsWith {expected : List UInt8} (hexpected : ∀ b ∈ expected, b ≠ 0 ∧ b ≠ 1)
    (p : Nat) : t.startsWith expected p = s.startsWith expected p := by
  induction expected generalizing p with
  | nil => rfl
  | cons b rest ih =>
      obtain ⟨hzero, hone⟩ := hexpected b List.mem_cons_self
      have hblind : (1 == b) = (0 == b) := Byte.blind_beq hzero hone
      simp only [Source.startsWith, ih fun c hc => hexpected c (List.mem_cons_of_mem b hc)]
      exact h.bind_read (by rw [Byte.Blind, hblind]) p

theorem fixedAt (p : Nat) : t.fixedAt p = s.fixedAt p := by
  have hentries : ∀ entry ∈ Tag.longestFirst, ∀ b ∈ entry.1, b ≠ 0 ∧ b ≠ 1 := by
    decide +kernel
  unfold Source.fixedAt
  rw [findM?_congr fun entry hentry => h.startsWith (hentries entry hentry) p]

theorem wordStep (p : Nat) : t.wordStep p = s.wordStep p := by
  simp only [Source.wordStep, h.apply (rfl : Byte.Blind Byte.continuesWord),
    h.apply (rfl : Byte.Blind Byte.isAscii), h.apply (rfl : Byte.Blind Byte.charWidth)]
  cases hascii : Byte.isAscii (s.byte p) with
  | true => rfl
  | false => rw [h.char? hascii]

theorem skipWord (p : Nat) : t.skipWord p = s.skipWord p := by
  fun_induction Source.skipWord s p with
  | case1 p hsize hstep ih =>
      rw [Source.skipWord, h.size_eq, if_pos hsize, h.wordStep, if_pos hstep, ih]
  | case2 p hsize hstep =>
      rw [Source.skipWord, h.size_eq, if_pos hsize, h.wordStep, if_neg hstep]
  | case3 p hsize => rw [Source.skipWord, h.size_eq, if_neg hsize]

theorem skipFraction {digits : UInt8 → Bool} (hdigits : Byte.Blind digits) (p : Nat) :
    t.skipFraction digits p = s.skipFraction digits p := by
  simp only [Source.skipFraction, h.skipWhile hdigits]
  exact h.bind_read (by rfl) p

theorem skipExponent {mark : UInt8 → Bool} (hmark : Byte.Blind mark) (p : Nat) :
    t.skipExponent mark p = s.skipExponent mark p := by
  simp only [Source.skipExponent, h.skipWhile (rfl : Byte.Blind isDecimalPart),
    h.skipIf (rfl : Byte.Blind isSign)]
  exact h.bind_read (by rw [Byte.Blind, hmark]) p

theorem decimalTail (p : Nat) : t.decimalTail p = s.decimalTail p := by
  simp only [Source.decimalTail, h.skipFraction (rfl : Byte.Blind isDecimalPart),
    h.skipExponent (rfl : Byte.Blind isDecimalMark)]
  exact bind_congr fun fraction => bind_congr fun q => h.bind_read (by rfl) q

theorem hexTail (p : Nat) : t.hexTail p = s.hexTail p := by
  simp only [Source.hexTail, h.skipWhile (rfl : Byte.Blind isHexPart),
    h.skipFraction (rfl : Byte.Blind isHexPart), h.skipExponent (rfl : Byte.Blind isBinaryMark),
    h.skipIf (rfl : Byte.Blind isLongSuffix), h.skipIf (rfl : Byte.Blind isFloatSuffix)]

theorem binaryTail (p : Nat) : t.binaryTail p = s.binaryTail p := by
  simp only [Source.binaryTail, h.skipWhile (rfl : Byte.Blind isBinaryPart),
    h.skipIf (rfl : Byte.Blind isLongSuffix)]

theorem number (p : Nat) : t.number p = s.number p := by
  simp only [Source.number, h.hexTail, h.binaryTail, h.decimalTail,
    h.skipWhile (rfl : Byte.Blind isDecimalPart)]
  exact (bind_congr fun first => h.bind_read (by rfl) (p + 1)).trans (h.bind_read (by rfl) p)

theorem quotedRest {quote : UInt8} (hquote : Byte.Blind (· == quote)) (p : Nat) :
    t.quotedRest quote p = s.quotedRest quote p := by
  have hstops : Byte.Blind (quoteStop quote) := by
    simp only [Byte.Blind, quoteStop] at hquote ⊢
    rw [hquote]
    rfl
  have hseek := h.seek?_stop hstops
  fun_induction Source.quotedRest s quote p with
  | case1 p hnone => rw [quotedRest_of_none ((hseek p).trans hnone), h.len_eq]
  | case2 p q hsome hclose =>
      rw [quotedRest_of_some ((hseek p).trans hsome), h.apply hquote, if_pos hclose]
  | case3 p q hsome hclose hline =>
      rw [quotedRest_of_some ((hseek p).trans hsome), h.apply hquote, if_neg hclose,
        h.apply (rfl : Byte.Blind Byte.isLineEnd), if_pos hline]
  | case4 p q hsome hclose hline ih =>
      rw [quotedRest_of_some ((hseek p).trans hsome), h.apply hquote, if_neg hclose,
        h.apply (rfl : Byte.Blind Byte.isLineEnd), if_neg hline, h.len_eq]
      simp only [ih]
      exact h.bind_read (by rfl) (q + 1)

theorem textBlockRest (p : Nat) : t.textBlockRest p = s.textBlockRest p := by
  have hseek := h.seek?_stop (rfl : Byte.Blind textBlockStop)
  have hslash := h.apply (f := (· == Byte.backslash)) rfl
  fun_induction Source.textBlockRest s p with
  | case1 p hnone => rw [textBlockRest_of_none ((hseek p).trans hnone), h.len_eq]
  | case2 p q hsome hclose ih =>
      rw [textBlockRest_of_some ((hseek p).trans hsome), hslash, if_pos hclose, h.len_eq]
      by_cases hend : s.len ≤ q + 1
      · simp only [if_pos hend]
        exact h.bind_read (by rfl) (q + 1)
      · simp only [if_neg hend, ih _ hend]
        exact h.bind_read (by rfl) (q + 1)
  | case3 p q hsome hclose ih =>
      rw [textBlockRest_of_some ((hseek p).trans hsome), hslash, if_neg hclose,
        h.startsWith (by decide), ih]

theorem quotedAt {quote : UInt8} (hquote : Byte.Blind (· == quote)) (form : QuoteForm) (p : Nat) :
    t.quotedAt form quote p = s.quotedAt form quote p := by
  simp only [Source.quotedAt, h.quotedRest hquote]

theorem blockCommentAt (p : Nat) : t.blockCommentAt p = s.blockCommentAt p := by
  have hmap : (· != Byte.slash) <$> t.read (p + 3) = (· != Byte.slash) <$> s.read (p + 3) := by
    rw [map_eq_pure_bind, map_eq_pure_bind]
    exact h.bind_read (by rfl) (p + 3)
  simp only [Source.blockCommentAt, closeFrom_eq_ok, h.commentClose?, h.len_eq, hmap]
  exact h.bind_read (by rfl) (p + 2)

theorem wideAt (hp : Byte.isAscii (s.byte p) = false) : t.wideAt p = s.wideAt p := by
  have hskip : t.skipChar p = s.skipChar p := h.bind_read (by rfl) p
  have hchar : t.charAt p = s.charAt p := by
    unfold charAt
    rw [h.char? hp]
    exact h.bind_read (by rfl) p
  simp only [Source.wideAt, hskip, hchar, h.skipWord]

theorem rule {opening : Opening} (hwide : opening = .wide → Byte.isAscii (s.byte p) = false) :
    t.rule p opening = s.rule p opening := by
  cases opening with
  | null | lineFeed => rfl
  | blank => simp only [Source.rule, h.skipWhile (rfl : Byte.Blind Byte.isBlank)]
  | carriageReturn =>
      have hfeed := Byte.blind_beq (b := Byte.lineFeed) (by decide) (by decide)
      simp only [Source.rule, h.skipIf hfeed]
  | substitute => simp only [Source.rule, h.atEnd]
  | word => simp only [Source.rule, Source.wordAt, h.skipWord]
  | digit => simp only [Source.rule, Source.numberAt, h.number]
  | dot =>
      simp only [Source.rule, h.decimalTail, h.fixedAt]
      exact h.bind_read (by rfl) (p + 1)
  | slash =>
      simp only [Source.rule, h.lineEnd, h.blockCommentAt, h.fixedAt]
      exact h.bind_read (by rfl) (p + 1)
  | doubleQuote =>
      have hquotes : ∀ b ∈ [Byte.doubleQuote, Byte.doubleQuote], b ≠ 0 ∧ b ≠ 1 := by decide
      have hquote := Byte.blind_beq (b := Byte.doubleQuote) (by decide) (by decide)
      simp only [Source.rule, Source.textBlockAt, h.startsWith hquotes, h.textBlockRest,
        h.quotedAt hquote]
  | singleQuote =>
      exact h.quotedAt (Byte.blind_beq (b := Byte.singleQuote) (by decide) (by decide)) .char p
  | wide => exact h.wideAt (hwide rfl)
  | other => exact h.fixedAt p

theorem scan_of_byte_eq (hp : t.byte p = s.byte p) : t.scan p = s.scan p := by
  unfold Source.scan
  rw [h.atEnd, hp, h.rule]
  intro hwide
  have hadmits := Opening.admits_ofByte (s.byte p)
  rw [hwide] at hadmits
  simpa [Opening.admits] using hadmits

omit h in
/-- The byte 1 starts no lexeme. -/
theorem scan_of_one (hfit : t.len ≤ maxOffset) (hb : t.byte p = 1) :
    t.scan p = .ok (some .invalidByte) := by
  have hp : p < t.len := lt_len_of_byte_ne_zero (by rw [hb]; decide)
  have hfixed : t.fixed? p = none := by
    rw [fixed?_eq_find?, hb]
    have hentries : (Tag.longestFirst.filter fun entry => entry.1.head? == some 1) = [] := by
      decide +kernel
    rw [hentries]
    rfl
  refine (scan_eq_some_iff hp).2 ⟨?_, Nat.le_trans hp hfit⟩
  rw [hb]
  change t.fixedAt p = _
  rw [fixedAt_eq_ok (Nat.le_of_lt hp), hfixed]
  rfl

/-- A veiled zero byte that started a lexeme is one invalid character, and nothing else changes. -/
theorem scan (hfit : s.len ≤ maxOffset) {lexeme : Lexeme}
    (hscan : s.scan p = .ok (some lexeme)) : t.scan p = .ok (some (lexeme.veil chosen p)) := by
  have hp := lt_len_of_scan hscan
  have hbyte := h.byte_eq p
  split at hbyte
  · rename_i hzero
    obtain ⟨-, hzero, hchosen⟩ := hzero
    obtain ⟨htag, hlen⟩ := null_of_scan hscan hzero
    have hveil : lexeme.veil chosen p = .invalidByte := by
      simp only [Lexeme.veil, htag, hchosen, hlen, and_self, if_true]
      rfl
    rw [hveil]
    exact scan_of_one (by rw [h.len_eq]; exact hfit) hbyte
  · rename_i hzero
    have hsame : lexeme.veil chosen p = lexeme := by
      refine if_neg fun hnull => hzero ⟨hp, ?_, hnull.2⟩
      have hadmits := admits_of_scan hscan p (Nat.le_refl p)
        (Nat.lt_add_of_pos_right lexeme.len_pos)
      rw [hnull.1] at hadmits
      exact eq_of_beq hadmits
    rw [hsame, h.scan_of_byte_eq hbyte, hscan]

/-- A whole row of lexemes keeps its lengths, and its tags but for veiled zero bytes. -/
theorem scans (hfit : s.len ≤ maxOffset) {found : List Lexeme} (hs : s.Scans p found q) :
    t.Scans p (Lexeme.veilRow chosen p found) q := by
  induction hs with
  | nil p => exact .nil p
  | @cons p q lexeme rest hscan _ ih =>
      refine .cons (h.scan hfit hscan) ?_
      rwa [Lexeme.veil_len]

end Veils

end Source

end JavaLex
