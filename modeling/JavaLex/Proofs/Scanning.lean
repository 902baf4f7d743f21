import JavaLex.Literal.Problems
import JavaLex.Proofs.Reach

/-! Scanning never faults and never leaves the text: from every offset of the text the rule of
its first byte finds a lexeme that is not empty and ends inside the text. -/

namespace JavaLex

/-- What an opening says of the byte it stands for. -/
def Opening.admits : Opening → UInt8 → Bool
  | .null, b => b == 0
  | .blank, b => Byte.isBlank b
  | .carriageReturn, b => b == Byte.carriageReturn
  | .lineFeed, b => b == Byte.lineFeed
  | .substitute, b => b == Byte.substitute
  | .word, b => Byte.startsWord b
  | .digit, b => Byte.isDigit b
  | .dot, b => b == Byte.dot
  | .slash, b => b == Byte.slash
  | .doubleQuote, b => b == Byte.doubleQuote
  | .singleQuote, b => b == Byte.singleQuote
  | .wide, b => !Byte.isAscii b
  | .other, b => Byte.isAscii b

theorem Opening.admits_ofByte (b : UInt8) : (ofByte b).admits b = true :=
  forall_byte (P := fun b => (Opening.ofByte b).admits b = true) (by decide +kernel) b

theorem Opening.isAscii_of_ofByte {b : UInt8} (h : ofByte b ≠ .wide) : Byte.isAscii b = true :=
  forall_byte (P := fun b => Opening.ofByte b ≠ .wide → Byte.isAscii b = true)
    (by decide +kernel) b h

/-- Whether a lexeme with an opening may have a tag. -/
def Opening.finds (opening : Opening) : Tag → Bool
  | .word => opening == .word || opening == .wide
  | .number _ => opening == .digit || opening == .dot
  | .quoted .char | .unterminated .char => opening == .singleQuote
  | .quoted _ | .unterminated _ => opening == .doubleQuote
  | .operator _ | .separator _ => opening == .other || opening == .dot || opening == .slash
  | .blank => opening == .blank || opening == .substitute
  | .newline => opening == .carriageReturn || opening == .lineFeed
  | .comment _ | .unterminatedComment => opening == .slash
  | .invalidChar => opening == .substitute || opening == .wide || opening == .other ||
      opening == .dot || opening == .slash
  | .interiorNull => opening == .null
  | .endOfText => false

namespace Source

variable {s : Source} {p q r : Nat}

def numberClasses : List (UInt8 → Bool) :=
  [isDecimalPart, isHexPart, isBinaryPart, isLongSuffix, isFloatSuffix, isDecimalMark,
   isBinaryMark, isSign]

theorem textClass_of_mem_numberClasses {accepts : UInt8 → Bool} (h : accepts ∈ numberClasses) :
    Byte.TextClass accepts := by
  have hzero : (numberClasses.all fun accepts => !accepts 0) = true := by decide
  have hascii : ∀ i : Fin 256, (numberClasses.all fun accepts =>
      !accepts (UInt8.ofFin i) || Byte.isAscii (UInt8.ofFin i)) = true := by decide +kernel
  refine .of_forall (by simpa using List.all_eq_true.1 hzero accepts h) fun i hi => ?_
  simpa [hi] using List.all_eq_true.1 (hascii i) accepts h

theorem textClass_isDecimalPart : Byte.TextClass isDecimalPart :=
  textClass_of_mem_numberClasses (by simp [numberClasses])

theorem textClass_isHexPart : Byte.TextClass isHexPart :=
  textClass_of_mem_numberClasses (by simp [numberClasses])

theorem textClass_isBinaryPart : Byte.TextClass isBinaryPart :=
  textClass_of_mem_numberClasses (by simp [numberClasses])

theorem textClass_isLongSuffix : Byte.TextClass isLongSuffix :=
  textClass_of_mem_numberClasses (by simp [numberClasses])

theorem textClass_isFloatSuffix : Byte.TextClass isFloatSuffix :=
  textClass_of_mem_numberClasses (by simp [numberClasses])

theorem textClass_isDecimalMark : Byte.TextClass isDecimalMark :=
  textClass_of_mem_numberClasses (by simp [numberClasses])

theorem textClass_isBinaryMark : Byte.TextClass isBinaryMark :=
  textClass_of_mem_numberClasses (by simp [numberClasses])

theorem textClass_isSign : Byte.TextClass isSign :=
  textClass_of_mem_numberClasses (by simp [numberClasses])

theorem textClass_dot : Byte.TextClass (· == Byte.dot) := Byte.textClass_eq rfl rfl

section

variable (hfit : s.len ≤ maxOffset)

include hfit

theorem skipFraction_returns {digits : UInt8 → Bool} (hd : Byte.TextClass digits)
    (hp : p ≤ s.len) :
    Returns (s.skipFraction digits p)
      (fun q => s.Reach p q ∧ ((s.byte p == Byte.dot) = true → p < q)) := by
  simp only [skipFraction, read_of_le_len hp, except_ok_bind, except_pure]
  split
  · rename_i hdot
    have hlt := lt_len_of_accepts textClass_dot hdot
    have hstep : s.Reach p (p + 1) := .ascii hlt (textClass_dot.ascii _ hdot)
    refine (skipWhile_returns hfit hd hstep.le_len).mono fun q hq => ⟨hstep.trans hq.1, ?_⟩
    exact fun _ => hq.1.le
  · rename_i hdot
    exact .ok ⟨.refl hp, fun h => absurd h hdot⟩

theorem skipExponent_returns {mark : UInt8 → Bool} (hm : Byte.TextClass mark)
    (hp : p ≤ s.len) : Returns (s.skipExponent mark p) (s.Reach p) := by
  simp only [skipExponent, read_of_le_len hp, except_ok_bind, except_pure]
  split
  · rename_i hmark
    have hstep : s.Reach p (p + 1) :=
      .ascii (lt_len_of_accepts hm hmark) (hm.ascii _ hmark)
    refine (skipIf_returns textClass_isSign hstep.le_len).bind ?_
    intro q _ hq
    refine (skipWhile_returns hfit textClass_isDecimalPart hq.le_len).mono ?_
    exact fun r hr => (hstep.trans hq).trans hr.1
  · exact .ok (.refl hp)

theorem decimalTail_returns (hp : p ≤ s.len) :
    Returns (s.decimalTail p)
      (fun r => s.Reach p r.2 ∧ ((s.byte p == Byte.dot) = true → p < r.2)) := by
  refine (skipFraction_returns hfit textClass_isDecimalPart hp).bind ?_
  intro f _ hf
  refine (skipExponent_returns hfit textClass_isDecimalMark hf.1.le_len).bind ?_
  intro q _ hq
  have hpq := hf.1.trans hq
  have hdot : ∀ r, s.Reach q r → (s.byte p == Byte.dot) = true → p < r :=
    fun r hr h => Nat.lt_of_lt_of_le (hf.2 h) (Nat.le_trans hq.le hr.le)
  have hsuffix : ∀ suffix : UInt8 → Bool, Byte.TextClass suffix → suffix (s.byte q) = true →
      s.Reach q (q + 1) :=
    fun suffix hs h => .ascii (lt_len_of_accepts hs h) (hs.ascii _ h)
  simp only [read_of_le_len hpq.le_len, except_ok_bind, except_pure]
  split
  · rename_i h
    have hq1 := hsuffix isFloatSuffix textClass_isFloatSuffix h
    exact .ok ⟨hpq.trans hq1, hdot _ hq1⟩
  · split
    · exact .ok ⟨hpq, hdot q (.refl hpq.le_len)⟩
    · split
      · rename_i h
        have hq1 := hsuffix isLongSuffix textClass_isLongSuffix h
        exact .ok ⟨hpq.trans hq1, hdot _ hq1⟩
      · exact .ok ⟨hpq, hdot q (.refl hpq.le_len)⟩

theorem hexTail_returns (hp : p ≤ s.len) :
    Returns (s.hexTail p) (fun r => s.Reach p r.2) := by
  refine (skipWhile_returns hfit textClass_isHexPart hp).bind ?_
  intro d _ hd
  refine (skipFraction_returns hfit textClass_isHexPart hd.1.le_len).bind ?_
  intro f _ hf
  refine (skipExponent_returns hfit textClass_isBinaryMark hf.1.le_len).bind ?_
  intro q _ hq
  have hpq := (hd.1.trans hf.1).trans hq
  split
  · refine (skipIf_returns textClass_isLongSuffix hpq.le_len).bind ?_
    intro r _ hr
    exact .ok (hpq.trans hr)
  · refine (skipIf_returns textClass_isFloatSuffix hpq.le_len).bind ?_
    intro r _ hr
    exact .ok (hpq.trans hr)

theorem binaryTail_returns (hp : p ≤ s.len) :
    Returns (s.binaryTail p) (fun r => s.Reach p r.2) := by
  refine (skipWhile_returns hfit textClass_isBinaryPart hp).bind ?_
  intro q _ hq
  refine (skipIf_returns textClass_isLongSuffix hq.1.le_len).bind ?_
  intro r _ hr
  exact .ok (hq.1.trans hr)

theorem number_returns (hd : Byte.isDigit (s.byte p) = true) :
    Returns (s.number p) (fun r => p < r.2 ∧ s.Reach p r.2) := by
  have hlt := lt_len_of_accepts Byte.textClass_isDigit hd
  have hfirst : s.Reach p (p + 1) := .ascii hlt (Byte.textClass_isDigit.ascii _ hd)
  have hmarker : ∀ lower : UInt8, Byte.TextClass (Byte.isEither lower) →
      (s.byte p == Byte.zero && Byte.isEither lower (s.byte (p + 1))) = true →
      s.Reach p (p + 2) := by
    intro lower hl h
    have hletter := (Bool.and_eq_true_iff.1 h).2
    exact hfirst.trans (.ascii (lt_len_of_accepts hl hletter) (hl.ascii _ hletter))
  simp only [number, read_of_le_len (Nat.le_of_lt hlt), read_of_le_len hfirst.le_len,
    except_ok_bind]
  split
  · rename_i h
    have hreach := hmarker 120 (.of_forall rfl (by decide +kernel)) h
    refine (hexTail_returns hfit hreach.le_len).mono fun r hr => ⟨?_, hreach.trans hr⟩
    exact Nat.lt_of_lt_of_le (by omega) hr.le
  · split
    · rename_i h
      have hreach := hmarker 98 (.of_forall rfl (by decide +kernel)) h
      refine (binaryTail_returns hfit hreach.le_len).mono fun r hr => ⟨?_, hreach.trans hr⟩
      exact Nat.lt_of_lt_of_le (by omega) hr.le
    · refine (skipWhile_returns hfit textClass_isDecimalPart hfirst.le_len).bind ?_
      intro q _ hq
      have hpq := hfirst.trans hq.1
      refine (decimalTail_returns hfit hpq.le_len).mono fun r hr => ⟨?_, hpq.trans hr.1⟩
      exact Nat.lt_of_lt_of_le (Nat.lt_of_succ_le hq.1.le) hr.1.le

end

theorem isAscii_of_quoteStop {quote : UInt8} (hquote : Byte.isAscii quote = true) (b : UInt8)
    (h : quoteStop quote b = true) : Byte.isAscii b = true := by
  simp only [quoteStop, Bool.or_eq_true, beq_iff_eq] at h
  rcases h with (rfl | rfl) | h
  · exact hquote
  · rfl
  · exact Byte.isAscii_of_isLineEnd h

theorem isAscii_of_textBlockStop (b : UInt8) (h : textBlockStop b = true) :
    Byte.isAscii b = true := by
  simp only [textBlockStop, Bool.or_eq_true, beq_iff_eq] at h
  rcases h with rfl | rfl <;> rfl

theorem quotedRest_returns {quote : UInt8} (hfit : s.len ≤ maxOffset)
    (hquote : Byte.isAscii quote = true) (hp : p ≤ s.len) :
    Returns (s.quotedRest quote p)
      (fun e => s.Reach p e.stop ∧ (e.closed = true → p < e.stop)) := by
  fun_induction quotedRest s quote p with
  | case1 p h => exact .ok ⟨.to_len hp, fun h => by cases h⟩
  | case2 p q h hq =>
      have hreach := seek?_reach (isAscii_of_quoteStop hquote) h
      have hascii : Byte.isAscii (s.byte q) = true := by rwa [eq_of_beq hq]
      refine .ok ⟨hreach.trans (.ascii (seek?_bounds h).2 hascii), fun _ => ?_⟩
      exact Nat.lt_succ_of_le hreach.le
  | case3 p q h hq hline =>
      exact .ok ⟨seek?_reach (isAscii_of_quoteStop hquote) h, fun h => by cases h⟩
  | case4 p q h hq hline ih =>
      have hascii := isAscii_of_quoteStop hquote _ (seek?_eq_some_iff.1 h).2.2.1
      have hreach : s.Reach p (q + 1) :=
        (seek?_reach (isAscii_of_quoteStop hquote) h).trans (.ascii (seek?_bounds h).2 hascii)
      simp only [read_of_le_len hreach.le_len, except_ok_bind]
      split
      · exact .ok ⟨hreach, fun h => by cases h⟩
      · rename_i hend
        have hlt : q + 1 < s.len := by
          simp only [Bool.or_eq_true, decide_eq_true_eq, not_or] at hend
          omega
        have hchar := hreach.trans (.char hlt)
        have hmax := Nat.le_trans hchar.le_len hfit
        rw [if_pos hmax]
        refine (ih _ hchar.le_len).mono ?_
        rintro e ⟨hstop, hclosed⟩
        exact ⟨hchar.trans hstop, fun h => Nat.lt_of_le_of_lt hchar.le (hclosed h)⟩

theorem textBlockRest_returns (hfit : s.len ≤ maxOffset) (hp : p ≤ s.len) :
    Returns (s.textBlockRest p)
      (fun e => s.Reach p e.stop ∧ (e.closed = true → p + 3 ≤ e.stop)) := by
  fun_induction textBlockRest s p with
  | case1 p h => exact .ok ⟨.to_len hp, fun h => by cases h⟩
  | case2 p q h hq ih =>
      have hascii := isAscii_of_textBlockStop _ (seek?_eq_some_iff.1 h).2.2.1
      have hreach : s.Reach p (q + 1) :=
        (seek?_reach isAscii_of_textBlockStop h).trans (.ascii (seek?_bounds h).2 hascii)
      simp only [read_of_le_len hreach.le_len, except_ok_bind]
      split
      · exact .ok ⟨hreach, fun h => by cases h⟩
      · rename_i hend
        have hchar := hreach.trans (.char (Nat.lt_of_not_le hend))
        have hmax := Nat.le_trans hchar.le_len hfit
        rw [if_pos hmax]
        refine (ih _ hend hchar.le_len).mono ?_
        rintro e ⟨hstop, hclosed⟩
        refine ⟨hchar.trans hstop, ?_⟩
        intro h
        have := hclosed h
        have := hchar.le
        omega
  | case3 p q h hq ih =>
      have hascii := isAscii_of_textBlockStop _ (seek?_eq_some_iff.1 h).2.2.1
      have hreach := seek?_reach isAscii_of_textBlockStop h
      have hnext := hreach.trans (.ascii (seek?_bounds h).2 hascii)
      have hplain : IsPlain [Byte.doubleQuote, Byte.doubleQuote, Byte.doubleQuote] := by decide
      simp only [startsWith_eq_ok hplain hreach.le_len, except_ok_bind]
      split
      · rename_i hclose
        have hclose := (of_decide_eq_true hclose).reach hplain hreach.le_len
        exact .ok ⟨hreach.trans hclose, fun _ => Nat.add_le_add_right hreach.le 3⟩
      · refine (ih hnext.le_len).mono ?_
        rintro e ⟨hstop, hclosed⟩
        refine ⟨hnext.trans hstop, ?_⟩
        intro h
        have := hclosed h
        have := hnext.le
        omega

/-- What is known of the text of a lexeme by its tag. -/
def Spells (s : Source) (p stop : Nat) : Tag → Prop
  | .quoted form => p + 2 * delimiterLen form ≤ stop
  | .operator op =>
    s.Matches (Tag.operator op).bytes p ∧ stop = p + (Tag.operator op).bytes.length
  | .separator sep =>
    s.Matches (Tag.separator sep).bytes p ∧ stop = p + (Tag.separator sep).bytes.length
  | .unterminatedComment => stop = s.len
  | .endOfText => False
  | _ => True

/-- What a rule finds from `p` on: a lexeme that is not empty and lies inside the text. -/
structure Lexed (s : Source) (p : Nat) (tag : Tag) (stop : Nat) : Prop where
  lt : p < stop
  reach : s.Reach p stop
  spells : s.Spells p stop tag

theorem mem_longestFirst_bytes :
    ∀ entry ∈ Tag.longestFirst, entry.2 ∈ Tag.fixed ∧ entry.1 = entry.2.bytes := by
  decide +kernel

theorem spells_of_mem_fixed {tag : Tag} (h : tag ∈ Tag.fixed) (hm : s.Matches tag.bytes p) :
    s.Spells p (p + tag.bytes.length) tag := by
  simp only [Tag.fixed, List.mem_append, List.mem_map] at h
  rcases h with ⟨op, -, rfl⟩ | ⟨sep, -, rfl⟩
  · exact ⟨hm, rfl⟩
  · exact ⟨hm, rfl⟩

theorem fixedAt_returns (hp : p < s.len) (h : Byte.isAscii (s.byte p) = true) :
    Returns (s.fixedAt p) (fun r => s.Lexed p r.1 r.2) := by
  rw [fixedAt_eq_ok (Nat.le_of_lt hp)]
  cases hfind : s.fixed? p with
  | none => exact .ok ⟨Nat.lt_succ_self p, .ascii hp h, trivial⟩
  | some entry =>
      obtain ⟨bytes, tag⟩ := entry
      have hmem := List.mem_of_find?_eq_some hfind
      have hmatch : s.Matches bytes p := by simpa using List.find?_some hfind
      obtain ⟨hplain, hpos⟩ := isPlain_of_mem_longestFirst _ hmem
      obtain ⟨hfixed, hbytes⟩ := mem_longestFirst_bytes _ hmem
      have hreach := hmatch.reach hplain (Nat.le_of_lt hp)
      simp only at hfixed hbytes hpos hplain
      refine .ok ⟨Nat.lt_add_of_pos_right hpos, hreach, ?_⟩
      rw [hbytes] at hmatch ⊢
      exact spells_of_mem_fixed hfixed hmatch

theorem fixedAt_tag {tag : Tag} {stop : Nat} (hp : p ≤ s.len)
    (h : s.fixedAt p = .ok (tag, stop)) : tag ∈ Tag.fixed ∨ tag = .invalidChar := by
  rw [fixedAt_eq_ok hp] at h
  cases hfound : s.fixed? p with
  | none =>
      rw [hfound] at h
      cases h
      exact .inr rfl
  | some entry =>
      rw [hfound] at h
      cases h
      exact .inl (mem_longestFirst_bytes _ (List.mem_of_find?_eq_some hfound)).1

theorem quotedAt_inv {form : QuoteForm} {quote : UInt8} {found : Tag × Nat}
    (h : s.quotedAt form quote p = .ok found) :
    ∃ extent, s.quotedRest quote (p + 1) = .ok extent ∧
      found = (if extent.closed then .quoted form else .unterminated form, extent.stop) := by
  obtain ⟨inside, hinside, h⟩ := bind_eq_ok h
  cases eq_of_checkedAdd hinside
  obtain ⟨extent, hrest, h⟩ := bind_eq_ok h
  exact ⟨extent, hrest, (Except.ok.inj h).symm⟩

theorem textBlockAt_inv {found : Tag × Nat} (h : s.textBlockAt p = .ok found) :
    ∃ extent, s.textBlockRest (p + 3) = .ok extent ∧
      found = (if extent.closed then .quoted .textBlock else .unterminated .textBlock,
        extent.stop) := by
  obtain ⟨inside, hinside, h⟩ := bind_eq_ok h
  cases eq_of_checkedAdd hinside
  obtain ⟨extent, hrest, h⟩ := bind_eq_ok h
  exact ⟨extent, hrest, (Except.ok.inj h).symm⟩

theorem quotedAt_returns {form : QuoteForm} {quote : UInt8} (hfit : s.len ≤ maxOffset)
    (hform : delimiterLen form = 1) (hquote : Byte.isAscii quote = true) (hp : p < s.len)
    (hb : s.byte p = quote) :
    Returns (s.quotedAt form quote p) (fun r => s.Lexed p r.1 r.2) := by
  have hstep : s.Reach p (p + 1) := .ascii hp (by rw [hb]; exact hquote)
  rw [quotedAt, checkedAdd_eq_ok (Nat.le_trans hstep.le_len hfit), except_ok_bind]
  refine (quotedRest_returns hfit hquote hstep.le_len).bind ?_
  rintro ⟨closed, stop⟩ - ⟨hreach, hclosed⟩
  refine .ok ⟨hreach.le, hstep.trans hreach, ?_⟩
  cases closed with
  | false => trivial
  | true =>
      change p + 2 * delimiterLen form ≤ stop
      have : p + 1 < stop := hclosed rfl
      omega

theorem textBlockAt_returns (hfit : s.len ≤ maxOffset) (h : s.Reach p (p + 3)) :
    Returns (s.textBlockAt p) (fun r => s.Lexed p r.1 r.2) := by
  rw [textBlockAt, checkedAdd_eq_ok (Nat.le_trans h.le_len hfit), except_ok_bind]
  refine (textBlockRest_returns hfit h.le_len).bind ?_
  rintro ⟨closed, stop⟩ - ⟨hreach, hclosed⟩
  have hle : p + 3 ≤ stop := hreach.le
  refine .ok ⟨Nat.lt_of_lt_of_le (by omega) hle, h.trans hreach, ?_⟩
  cases closed with
  | false => trivial
  | true =>
      change p + 2 * 3 ≤ stop
      have : p + 3 + 3 ≤ stop := hclosed rfl
      omega

theorem seek?_eq_of_le {good : Nat → Bool} (hle : p ≤ q)
    (h : ∀ i, p ≤ i → i < q → good i = false) : s.seek? good p = s.seek? good q := by
  apply Option.ext
  intro i
  rw [seek?_eq_some_iff, seek?_eq_some_iff]
  constructor
  · rintro ⟨hi, hlen, hgood, hbefore⟩
    have hq : q ≤ i := by
      by_contra hlt
      rw [h i hi (Nat.lt_of_not_le hlt)] at hgood
      cases hgood
    exact ⟨hq, hlen, hgood, fun j hj => hbefore j (Nat.le_trans hle hj)⟩
  · rintro ⟨hi, hlen, hgood, hbefore⟩
    refine ⟨Nat.le_trans hle hi, hlen, hgood, fun j hj hlt => ?_⟩
    rcases Nat.lt_or_ge j q with hfirst | hlater
    · exact h j hj hfirst
    · exact hbefore j hlater hlt

/-- Trying one star after the other finds the first close: a star without a slash behind it is
left for good, and the next one may be right behind it. -/
theorem closeFrom_eq_ok (s : Source) (p : Nat) : s.closeFrom p = .ok (s.commentClose? p) := by
  fun_induction closeFrom s p with
  | case1 p hseek =>
      have hnone := seek?_eq_none_iff.1 hseek
      rw [commentClose?, seek?_eq_none_iff.2 fun i hi hlt => by rw [hnone i hi hlt, Bool.false_and]]
      rfl
  | case2 p q hseek ih =>
      obtain ⟨hle, hlt, hstar, hbefore⟩ := seek?_eq_some_iff.1 hseek
      rw [read_of_le_len hlt, except_ok_bind]
      split
      · rename_i hslash
        have hclose : s.seek? (fun i => s.byte i == Byte.star && s.byte (i + 1) == Byte.slash) p =
            some q := by
          refine seek?_eq_some_iff.2 ⟨hle, hlt, by rw [hstar, hslash]; rfl, ?_⟩
          exact fun i hi hlt => by rw [hbefore i hi hlt, Bool.false_and]
        rw [commentClose?, hclose]
        rfl
      · rename_i hother
        rw [ih, commentClose?, commentClose?, seek?_eq_of_le (Nat.le_succ_of_le hle)]
        intro i hi hlt
        rcases Nat.lt_succ_iff_lt_or_eq.1 hlt with hlt | rfl
        · rw [hbefore i hi hlt, Bool.false_and]
        · rw [Bool.eq_false_iff.2 hother, Bool.and_false]

theorem commentClose?_reach (h : s.commentClose? p = some q) : p + 2 ≤ q ∧ s.Reach p q := by
  obtain ⟨i, hi, rfl⟩ := Option.map_eq_some_iff.1 h
  obtain ⟨hle, hlt, hclose, -⟩ := seek?_eq_some_iff.1 hi
  simp only [Bool.and_eq_true, beq_iff_eq] at hclose
  have hstar : s.Reach p i := .to_ascii hle hlt (by rw [hclose.1]; decide)
  have hmatch : s.Matches [Byte.star, Byte.slash] i := ⟨hclose.1, hclose.2, trivial⟩
  exact ⟨by omega, hstar.trans (hmatch.reach (by decide) (Nat.le_of_lt hlt))⟩

def blockComment (s : Source) (p : Nat) : Tag × Nat :=
  match s.commentClose? (p + 2) with
  | some stop =>
    (.comment (if s.byte (p + 2) == Byte.star && s.byte (p + 3) != Byte.slash then .doc
      else .block), stop)
  | none => (.unterminatedComment, s.len)

theorem blockCommentAt_eq_ok (hp : p + 2 ≤ s.len) :
    s.blockCommentAt p = .ok (s.blockComment p) := by
  unfold blockComment
  simp only [blockCommentAt, read_of_le_len hp, closeFrom_eq_ok, except_ok_bind]
  by_cases hstar : (s.byte (p + 2) == Byte.star) = true
  · have hp3 : p + 3 ≤ s.len := lt_len_of_byte_ne_zero (by rw [eq_of_beq hstar]; decide)
    rw [if_pos hstar, read_of_le_len hp3, except_ok_map, except_ok_bind, hstar, Bool.true_and]
    cases s.commentClose? (p + 2) <;> rfl
  · rw [if_neg hstar, except_pure, except_ok_bind, Bool.eq_false_iff.2 hstar, Bool.false_and]
    cases s.commentClose? (p + 2) <;> rfl

theorem le_blockComment (hp : p + 2 ≤ s.len) : p + 2 ≤ (s.blockComment p).2 := by
  unfold blockComment
  cases hclose : s.commentClose? (p + 2) with
  | none => exact hp
  | some stop => exact Nat.le_trans (Nat.le_add_right _ 2) (commentClose?_reach hclose).1

theorem blockCommentAt_returns (h : s.Reach p (p + 2)) :
    Returns (s.blockCommentAt p) (fun r => s.Lexed p r.1 r.2) := by
  rw [blockCommentAt_eq_ok h.le_len]
  refine .ok ⟨Nat.lt_of_lt_of_le (by omega) (le_blockComment h.le_len), ?_, ?_⟩
  · unfold blockComment
    cases hclose : s.commentClose? (p + 2) with
    | none => exact h.trans (.to_len h.le_len)
    | some stop => exact h.trans (commentClose?_reach hclose).2
  · unfold blockComment
    split
    · trivial
    · rfl

theorem rule_slash_returns (hp : p < s.len) (hascii : Byte.isAscii (s.byte p) = true) :
    Returns (s.rule p .slash) (fun r => s.Lexed p r.1 r.2) := by
  have hstep : s.Reach p (p + 1) := .ascii hp hascii
  simp only [rule, read_of_le_len hstep.le_len, except_ok_bind]
  split
  · have hline : s.Reach (p + 1) (s.lineEnd (p + 1)) :=
      leap_reach (fun _ => Byte.isAscii_of_isLineEnd) hstep.le_len
    exact .ok ⟨hline.le, hstep.trans hline, trivial⟩
  · split
    · rename_i hstar
      have hlt := lt_len_of_accepts (Byte.textClass_eq (b := Byte.star) rfl rfl) hstar
      have hnext : s.Reach (p + 1) (p + 2) := .ascii hlt (by rw [eq_of_beq hstar]; decide)
      exact blockCommentAt_returns (hstep.trans hnext)
    · exact fixedAt_returns hp hascii

theorem wordAt_returns (h : Byte.startsWord (s.byte p) = true) :
    Returns (s.wordAt p) (fun r => s.Lexed p r.1 r.2) := by
  have hstep : s.Reach p (p + 1) :=
    .ascii (lt_len_of_accepts Byte.textClass_startsWord h) (Byte.textClass_startsWord.ascii _ h)
  refine (skipWord_returns hstep.le_len).bind ?_
  intro q _ hq
  exact .ok ⟨hq.le, hstep.trans hq, trivial⟩

theorem atEnd_of_le_len (hp : p ≤ s.len) : s.atEnd p = .ok (decide (p = s.len)) := by
  simp only [atEnd, read_of_le_len hp, except_ok_bind, except_pure]
  congr 1
  rcases Nat.lt_or_ge p s.len with hlt | hge
  · rw [decide_eq_false (by omega), decide_eq_false (by omega), Bool.and_false]
  · rw [byte_of_len_le hge, decide_eq_true hge, decide_eq_true (by omega)]
    rfl

/-- Before the end of the text a scan gives what the rule of the first byte finds. -/
theorem scan_eq_some_iff {lexeme : Lexeme} (hp : p < s.len) :
    s.scan p = .ok (some lexeme) ↔
      s.rule p (.ofByte (s.byte p)) = .ok (lexeme.tag, p + lexeme.len) ∧
        p + lexeme.len ≤ maxOffset := by
  simp only [scan, atEnd_of_le_len (Nat.le_of_lt hp), except_ok_bind,
    decide_eq_false (Nat.ne_of_lt hp), Bool.false_eq_true, if_false]
  constructor
  · intro h
    obtain ⟨⟨tag, stop⟩, hrule, h⟩ := bind_eq_ok h
    obtain ⟨found, hspan, hfound⟩ := map_eq_ok h
    cases hfound
    unfold Lexeme.spanning at hspan
    split at hspan
    · rename_i hlt
      split at hspan
      · cases hspan
        simp only [Nat.add_sub_cancel' (Nat.le_of_lt hlt)]
        exact ⟨hrule, by assumption⟩
      · cases hspan
    · cases hspan
  · rintro ⟨hrule, hmax⟩
    rw [hrule, except_ok_bind]
    simp only [Lexeme.spanning]
    rw [dif_pos (Nat.lt_add_of_pos_right lexeme.len_pos), if_pos hmax, except_ok_map]
    simp only [Nat.add_sub_cancel_left]

theorem finds_of_rule {opening : Opening} {tag : Tag} {stop : Nat} (hp : p < s.len)
    (h : s.rule p opening = .ok (tag, stop)) : opening.finds tag = true := by
  have hfixed : ∀ opening : Opening, opening.finds .invalidChar = true →
      opening.finds (.operator .plus) = true → s.fixedAt p = .ok (tag, stop) →
        opening.finds tag = true := by
    intro opening hinvalid hplus h
    rcases fixedAt_tag (Nat.le_of_lt hp) h with hmem | rfl
    · simp only [Tag.fixed, List.mem_append, List.mem_map] at hmem
      rcases hmem with ⟨op, -, rfl⟩ | ⟨sep, -, rfl⟩
      · exact hplus
      · exact hplus
    · exact hinvalid
  cases opening with
  | null =>
      cases h
      rfl
  | blank =>
      obtain ⟨last, -, h⟩ := bind_eq_ok h
      cases h
      rfl
  | carriageReturn =>
      obtain ⟨last, -, h⟩ := bind_eq_ok h
      cases h
      rfl
  | lineFeed =>
      cases h
      rfl
  | substitute =>
      obtain ⟨final, -, h⟩ := bind_eq_ok h
      cases final <;> cases h <;> rfl
  | word =>
      obtain ⟨last, -, h⟩ := bind_eq_ok h
      cases h
      rfl
  | digit =>
      obtain ⟨⟨form, last⟩, -, h⟩ := bind_eq_ok h
      cases h
      rfl
  | dot =>
      obtain ⟨next, -, h⟩ := bind_eq_ok h
      split at h
      · obtain ⟨⟨form, last⟩, -, h⟩ := bind_eq_ok h
        cases h
        rfl
      · exact hfixed .dot rfl rfl h
  | slash =>
      rw [rule, read_of_le_len hp, except_ok_bind] at h
      split at h
      · cases h
        rfl
      · split at h
        · rename_i hstar
          have hlt := lt_len_of_accepts (Byte.textClass_eq (b := Byte.star) rfl rfl) hstar
          rw [blockCommentAt_eq_ok hlt] at h
          have hcomment := congrArg Prod.fst (Except.ok.inj h)
          unfold blockComment at hcomment
          split at hcomment
          · cases hcomment
            rfl
          · cases hcomment
            rfl
        · exact hfixed .slash rfl rfl h
  | doubleQuote =>
      obtain ⟨block, -, h⟩ := bind_eq_ok h
      split at h
      · obtain ⟨⟨closed, last⟩, -, h⟩ := textBlockAt_inv h
        cases closed <;> cases h <;> rfl
      · obtain ⟨⟨closed, last⟩, -, h⟩ := quotedAt_inv h
        cases closed <;> cases h <;> rfl
  | singleQuote =>
      obtain ⟨⟨closed, last⟩, -, h⟩ := quotedAt_inv h
      cases closed <;> cases h <;> rfl
  | wide =>
      obtain ⟨next, -, h⟩ := bind_eq_ok h
      obtain ⟨c, -, h⟩ := bind_eq_ok h
      split at h
      · obtain ⟨last, -, h⟩ := bind_eq_ok h
        cases h
        rfl
      · cases h
        rfl
  | other => exact hfixed .other rfl rfl h

theorem lt_len_of_scan {lexeme : Lexeme} (hscan : s.scan p = .ok (some lexeme)) : p < s.len := by
  by_contra hge
  have hle := Nat.not_lt.1 hge
  obtain ⟨final, hfinal, hscan⟩ := bind_eq_ok hscan
  obtain ⟨b, hread, hfinal⟩ := bind_eq_ok hfinal
  unfold read at hread
  split at hread
  · cases hread
    rw [byte_of_len_le hle, decide_eq_true hle] at hfinal
    cases hfinal
    cases hscan
  · cases hread

theorem scan_fits {lexeme : Lexeme} (hscan : s.scan p = .ok (some lexeme)) :
    p + lexeme.len ≤ maxOffset :=
  ((scan_eq_some_iff (lt_len_of_scan hscan)).1 hscan).2

theorem scan_len : s.scan s.len = .ok none := by
  simp only [scan, atEnd_of_le_len (Nat.le_refl _), except_ok_bind]
  simp

section

variable (hfit : s.len ≤ maxOffset)

include hfit

theorem wideAt_returns (hp : p < s.len) :
    Returns (s.wideAt p) (fun r => s.Lexed p r.1 r.2) := by
  have hchar : s.Reach p (p + Byte.charWidth (s.byte p)) := .char hp
  have hlt : p < p + Byte.charWidth (s.byte p) := Nat.lt_add_of_pos_right (Byte.charWidth_pos _)
  have hsum := checkedAdd_eq_ok (Nat.le_trans hchar.le_len hfit)
  simp only [wideAt, skipChar, charAt, read_of_le_len (Nat.le_of_lt hp), except_ok_bind, hsum,
    except_pure]
  split
  · refine (skipWord_returns hchar.le_len).bind ?_
    intro q _ hq
    exact .ok ⟨Nat.lt_of_lt_of_le hlt hq.le, hchar.trans hq, trivial⟩
  · exact .ok ⟨hlt, hchar, trivial⟩

theorem numberAt_returns (h : Byte.isDigit (s.byte p) = true) :
    Returns (s.numberAt p) (fun r => s.Lexed p r.1 r.2) := by
  refine (number_returns hfit h).bind ?_
  rintro ⟨form, stop⟩ - ⟨hlt, hreach⟩
  exact .ok ⟨hlt, hreach, trivial⟩

theorem rule_dot_returns (hp : p < s.len) (hb : s.byte p = Byte.dot) :
    Returns (s.rule p .dot) (fun r => s.Lexed p r.1 r.2) := by
  have hascii : Byte.isAscii (s.byte p) = true := by rw [hb]; decide
  have hstep : s.Reach p (p + 1) := .ascii hp hascii
  simp only [rule, read_of_le_len hstep.le_len, except_ok_bind]
  split
  · refine (decimalTail_returns hfit (Nat.le_of_lt hp)).bind ?_
    rintro ⟨form, stop⟩ - ⟨hreach, hdot⟩
    exact .ok ⟨hdot (beq_iff_eq.2 hb), hreach, trivial⟩
  · exact fixedAt_returns hp hascii

theorem rule_doubleQuote_returns (hp : p < s.len) (hb : s.byte p = Byte.doubleQuote) :
    Returns (s.rule p .doubleQuote) (fun r => s.Lexed p r.1 r.2) := by
  have hstep : s.Reach p (p + 1) := .ascii hp (by rw [hb]; decide)
  have hplain : IsPlain [Byte.doubleQuote, Byte.doubleQuote] := by decide
  simp only [rule, startsWith_eq_ok hplain hstep.le_len, except_ok_bind]
  split
  · rename_i hopen
    have hreach := (of_decide_eq_true hopen).reach hplain hstep.le_len
    exact textBlockAt_returns hfit (hstep.trans hreach)
  · exact quotedAt_returns hfit rfl rfl hp hb

theorem rule_returns (hp : p < s.len) :
    Returns (s.rule p (.ofByte (s.byte p))) (fun r => s.Lexed p r.1 r.2) := by
  have hadmits := Opening.admits_ofByte (s.byte p)
  have hascii : Opening.ofByte (s.byte p) ≠ .wide → s.Reach p (p + 1) := fun h =>
    .ascii hp (Opening.isAscii_of_ofByte h)
  have hlt := Nat.lt_succ_self p
  cases ho : Opening.ofByte (s.byte p) with
  | null => exact .ok ⟨hlt, hascii (by rw [ho]; decide), trivial⟩
  | blank =>
      rw [ho] at hadmits
      refine (skipWhile_returns hfit Byte.textClass_isBlank (Nat.le_of_lt hp)).bind ?_
      rintro q - ⟨hreach, hrun⟩
      refine .ok ⟨Nat.lt_of_le_of_ne hreach.le ?_, hreach, trivial⟩
      rintro rfl
      exact Bool.false_ne_true (hrun.refused.symm.trans hadmits)
  | carriageReturn =>
      have hstep := hascii (by rw [ho]; decide)
      refine (skipIf_returns (Byte.textClass_eq rfl rfl) hstep.le_len).bind ?_
      intro q _ hq
      exact .ok ⟨hq.le, hstep.trans hq, trivial⟩
  | lineFeed => exact .ok ⟨hlt, hascii (by rw [ho]; decide), trivial⟩
  | substitute =>
      have hstep := hascii (by rw [ho]; decide)
      simp only [rule, atEnd, read_of_le_len hstep.le_len, except_ok_bind, except_pure]
      refine .ok ⟨hlt, hstep, ?_⟩
      split <;> trivial
  | word =>
      rw [ho] at hadmits
      exact wordAt_returns hadmits
  | digit =>
      rw [ho] at hadmits
      exact numberAt_returns hfit hadmits
  | dot =>
      rw [ho] at hadmits
      exact rule_dot_returns hfit hp (eq_of_beq hadmits)
  | slash => exact rule_slash_returns hp (Opening.isAscii_of_ofByte (by rw [ho]; decide))
  | doubleQuote =>
      rw [ho] at hadmits
      exact rule_doubleQuote_returns hfit hp (eq_of_beq hadmits)
  | singleQuote =>
      rw [ho] at hadmits
      exact quotedAt_returns hfit rfl rfl hp (eq_of_beq hadmits)
  | wide => exact wideAt_returns hfit hp
  | other => exact fixedAt_returns hp (Opening.isAscii_of_ofByte (by rw [ho]; decide))

/-- A byte that only one fixed text starts with, and this text consists of, is a lexeme. -/
theorem scan_of_lone {b : UInt8} {tag : Tag} (hother : Opening.ofByte b = .other)
    (hentries : (Tag.longestFirst.filter fun entry => entry.1.head? == some b) = [([b], tag)])
    (hb : s.byte p = b) : s.scan p = .ok (some ⟨tag, 1, Nat.one_pos⟩) := by
  have hp : p < s.len := by
    apply lt_len_of_byte_ne_zero
    intro hzero
    rw [← hb, hzero] at hother
    cases hother
  have hfixed : s.fixed? p = some ([b], tag) := by
    rw [fixed?_eq_find?, hb, hentries]
    simp [Matches, hb]
  apply (scan_eq_some_iff hp).2
  rw [hb, hother]
  refine ⟨?_, Nat.le_trans hp hfit⟩
  rw [rule, fixedAt_eq_ok (Nat.le_of_lt hp), hfixed]
  rfl

theorem scan_of_semicolon (hb : s.byte p = 59) :
    s.scan p = .ok (some ⟨.separator .semicolon, 1, Nat.one_pos⟩) :=
  scan_of_lone hfit (by decide) (by decide +kernel) hb

theorem scan_of_lt_len (hp : p < s.len) :
    ∃ lexeme, s.scan p = .ok (some lexeme) ∧ s.Lexed p lexeme.tag (p + lexeme.len) := by
  obtain ⟨⟨tag, stop⟩, hrule, hlexed⟩ := rule_returns hfit hp
  have hstop : p + (stop - p) = stop := Nat.add_sub_cancel' hlexed.reach.le
  refine ⟨⟨tag, stop - p, Nat.sub_pos_of_lt hlexed.lt⟩, ?_, by rw [hstop]; exact hlexed⟩
  apply (scan_eq_some_iff hp).2
  rw [hstop]
  exact ⟨hrule, Nat.le_trans hlexed.reach.le_len hfit⟩

end

end Source

end JavaLex
