import Mathlib.Algebra.Group.Nat.Even
import Mathlib.Order.Bounds.Basic
import JavaLex.Proofs.Delimiters

/-! How far quoted literals run. That a backslash takes the character behind it along comes to
this: a delimiter closes its literal if the backslashes right before it are even in number. -/

namespace JavaLex

/-- The byte that the delimiters of a form consist of. -/
def QuoteForm.quote : QuoteForm → UInt8
  | char => Byte.singleQuote
  | _ => Byte.doubleQuote

namespace Source

variable {s : Source} {form : QuoteForm} {tag : Tag} {p q mid start stop : Nat}

/-- The backslashes in a row right before an offset, counted from `start` on. -/
def backslashes (s : Source) (start : Nat) : Nat → Nat
  | 0 => 0
  | q + 1 => if start ≤ q ∧ s.byte q = Byte.backslash then s.backslashes start q + 1 else 0

theorem backslashes_self (s : Source) (start : Nat) : s.backslashes start start = 0 := by
  cases start with
  | zero => rfl
  | succ n => exact if_neg fun h => Nat.not_succ_le_self n h.1

theorem backslashes_succ (hle : start ≤ q) (h : s.byte q = Byte.backslash) :
    s.backslashes start (q + 1) = s.backslashes start q + 1 := if_pos ⟨hle, h⟩

theorem backslashes_succ_of_ne (h : s.byte q ≠ Byte.backslash) :
    s.backslashes start (q + 1) = 0 := if_neg fun hq => h hq.2

/-- Where an even number of backslashes stands before, they can be counted anew. -/
theorem even_backslashes_iff (hle : start ≤ mid) (heven : Even (s.backslashes start mid))
    (hq : mid ≤ q) : Even (s.backslashes start q) ↔ Even (s.backslashes mid q) := by
  induction q, hq using Nat.le_induction with
  | base => simp [backslashes_self, heven]
  | succ q hq ih =>
      by_cases h : s.byte q = Byte.backslash
      · rw [backslashes_succ (Nat.le_trans hle hq) h, backslashes_succ hq h, Nat.even_add_one,
          Nat.even_add_one, ih]
      · rw [backslashes_succ_of_ne h, backslashes_succ_of_ne h]

theorem not_isBoundary_inside {c : Char} (h : s.char? p = some c) (hlt : p < q)
    (hq : q < p + c.utf8Size) : ¬ s.IsBoundary q := by
  intro hb
  obtain ⟨a, b, hab, rfl⟩ := char?_eq_some_iff.1 h
  obtain ⟨d, e, hde, rfl⟩ := isBoundary_iff_append.1 hb
  obtain ⟨m, rfl, hm⟩ := exists_append_of_append_eq (hab.symm.trans hde) (Nat.le_of_lt hlt)
  rw [String.utf8ByteSize_append] at hlt hq
  have hc : (String.singleton c).utf8ByteSize ≤ m.utf8ByteSize := by
    by_contra hshort
    obtain ⟨rest, hrest, -⟩ := exists_append_of_append_eq hm.symm (Nat.le_of_not_le hshort)
    have hlist := congrArg String.toList hrest
    rw [String.toList_singleton, String.toList_append] at hlist
    rcases List.append_eq_singleton_iff.1 hlist.symm with ⟨hnil, -⟩ | ⟨hone, -⟩
    · rw [String.toList_eq_nil_iff.1 hnil, String.utf8ByteSize_empty] at hlt
      omega
    · rw [← String.toList_singleton, String.toList_inj] at hone
      rw [hone] at hshort
      exact hshort (Nat.le_refl _)
  rw [String.utf8ByteSize_singleton] at hc
  omega

theorem isAscii_inside (hb : s.IsBoundary p) (hp : p < s.len) (hlt : p < q)
    (hq : q < p + Byte.charWidth (s.byte p)) : Byte.isAscii (s.byte q) = false := by
  obtain ⟨c, hc, hwidth⟩ := exists_char_of_isBoundary hb hp
  rw [← hwidth] at hq
  by_contra hascii
  rw [Bool.not_eq_false] at hascii
  have hend := add_charWidth_le_len hp
  exact not_isBoundary_inside hc hlt hq (isBoundary_of_isAscii (by omega) hascii)

/-- A literal whose content starts at `start` is cut off at `stop` if nothing closes it before:
the text ends there, or, unless it is a text block, its line. -/
def CutsQuote (s : Source) (form : QuoteForm) (start stop : Nat) : Prop :=
  start ≤ stop ∧ (stop = s.len ∨
    form ≠ .textBlock ∧ (s.byte stop = Byte.lineFeed ∨ s.byte stop = Byte.carriageReturn))

/-- A delimiter at `q` can close a literal whose content starts at `start`. -/
structure ClosesQuote (s : Source) (form : QuoteForm) (start q : Nat) : Prop where
  le : start ≤ q
  quotes : s.Matches form.quotes q
  even : Even (s.backslashes start q)
  before : ∀ stop, s.CutsQuote form start stop → q < stop

/-- What a literal whose content starts at `start` is, and where it ends: behind the first delimiter
that can close it, or where it is cut off. -/
inductive Delimits (s : Source) (form : QuoteForm) (start : Nat) : Tag → Nat → Prop where
  | closed {q : Nat} : IsLeast {q | s.ClosesQuote form start q} q →
      Delimits s form start (.quoted form) (q + delimiterLen form)
  | cut {stop : Nat} : (∀ q, ¬ s.ClosesQuote form start q) →
      IsLeast {stop | s.CutsQuote form start stop} stop →
      Delimits s form start (.unterminated form) stop

theorem byte_of_quotes (h : s.Matches form.quotes q) : s.byte q = form.quote := by
  cases form <;> exact h.1

/-- Nothing from `start` up to `mid` closes a literal or cuts it off, nor does a backslash before
`mid` take along what stands there. -/
structure Passes (s : Source) (form : QuoteForm) (start mid : Nat) : Prop where
  le : start ≤ mid
  even : Even (s.backslashes start mid)
  closes : ∀ q, s.ClosesQuote form start q → mid ≤ q
  cuts : ∀ stop, s.CutsQuote form start stop → mid ≤ stop

namespace Passes

theorem cutsQuote_iff (h : s.Passes form start mid) :
    s.CutsQuote form start stop ↔ s.CutsQuote form mid stop :=
  ⟨fun hcut => ⟨h.cuts stop hcut, hcut.2⟩, fun hcut => ⟨Nat.le_trans h.le hcut.1, hcut.2⟩⟩

theorem closesQuote_iff (h : s.Passes form start mid) :
    s.ClosesQuote form start q ↔ s.ClosesQuote form mid q := by
  constructor
  · intro hq
    have hle := h.closes q hq
    exact ⟨hle, hq.quotes, (even_backslashes_iff h.le h.even hle).1 hq.even,
      fun stop hcut => hq.before stop (h.cutsQuote_iff.2 hcut)⟩
  · intro hq
    exact ⟨Nat.le_trans h.le hq.le, hq.quotes, (even_backslashes_iff h.le h.even hq.le).2 hq.even,
      fun stop hcut => hq.before stop (h.cutsQuote_iff.1 hcut)⟩

theorem trans (h : s.Passes form start mid) (h' : s.Passes form mid q) :
    s.Passes form start q :=
  ⟨Nat.le_trans h.le h'.le, (even_backslashes_iff h.le h.even h'.le).2 h'.even,
    fun i hi => h'.closes i (h.closesQuote_iff.1 hi),
    fun stop hcut => h'.cuts stop (h.cutsQuote_iff.1 hcut)⟩

theorem delimits (h : s.Passes form start mid) (hd : s.Delimits form mid tag stop) :
    s.Delimits form start tag stop := by
  cases hd with
  | closed hleast => exact .closed (by simpa only [h.closesQuote_iff] using hleast)
  | cut hnone hleast =>
      refine .cut ?_ (by simpa only [h.cutsQuote_iff] using hleast)
      exact fun q hq => hnone q (h.closesQuote_iff.1 hq)

theorem of_plain {stops : UInt8 → Bool}
    (hstops : ∀ b, stops b = false → b ≠ form.quote ∧ b ≠ Byte.backslash ∧
      (form ≠ .textBlock → Byte.isLineEnd b = false))
    (hle : start ≤ mid) (hmid : mid ≤ s.len)
    (h : ∀ i, start ≤ i → i < mid → stops (s.byte i) = false) : s.Passes form start mid := by
  refine ⟨hle, ?_, ?_, ?_⟩
  · rcases Nat.lt_or_eq_of_le hle with hlt | rfl
    · obtain ⟨n, rfl⟩ := Nat.exists_eq_add_of_lt hlt
      rw [backslashes_succ_of_ne (hstops _ (h _ (by omega) (by omega))).2.1]
      exact Even.zero
    · rw [backslashes_self]
      exact Even.zero
  · intro q hq
    by_contra hlt
    exact (hstops _ (h q hq.le (Nat.lt_of_not_le hlt))).1 (byte_of_quotes hq.quotes)
  · rintro stop ⟨hstop, rfl | ⟨hform, hline⟩⟩
    · exact hmid
    · by_contra hlt
      rw [← Byte.isLineEnd_iff, (hstops _ (h stop hstop (Nat.lt_of_not_le hlt))).2.2 hform] at hline
      cases hline

theorem of_escape (hb : s.byte p = Byte.backslash) (hp : p + 1 < s.len)
    (hline : form ≠ .textBlock → Byte.isLineEnd (s.byte (p + 1)) = false) :
    s.Passes form p (p + 1 + Byte.charWidth (s.byte (p + 1))) := by
  have hascii : Byte.isAscii (s.byte p) = true := by
    rw [hb]
    rfl
  have hboundary : s.IsBoundary (p + 1) :=
    (Reach.ascii (by omega) hascii).boundary (isBoundary_of_isAscii (by omega) hascii)
  have hinside := fun i => @isAscii_inside s (p + 1) i hboundary hp
  have hpos := Byte.charWidth_pos (s.byte (p + 1))
  have hend := add_charWidth_le_len hp
  have hodd : s.backslashes p (p + 1) = 1 := by
    rw [backslashes_succ (Nat.le_refl p) hb, backslashes_self]
  refine ⟨by omega, ?_, ?_, ?_⟩
  · obtain ⟨n, hn⟩ := Nat.exists_eq_add_of_lt hpos
    rw [hn, ← Nat.add_assoc]
    by_cases hlast : s.byte (p + 1 + (0 + n)) = Byte.backslash
    · -- only the first byte of the character can be a backslash, and it is then the only one
      have hzero : n = 0 := by
        by_contra hne
        have hwide := hinside (p + 1 + (0 + n)) (by omega) (by omega)
        rw [hlast] at hwide
        cases hwide
      subst hzero
      rw [backslashes_succ (by omega) hlast, hodd]
      exact ⟨1, rfl⟩
    · rw [backslashes_succ_of_ne hlast]
      exact Even.zero
  · intro q hq
    by_contra hlt
    have hquote := byte_of_quotes hq.quotes
    have hle := hq.le
    rcases Nat.lt_trichotomy q (p + 1) with hfirst | rfl | hlater
    · have : q = p := by omega
      subst this
      rw [hb] at hquote
      cases form <;> cases hquote
    · have heven := hq.even
      rw [hodd] at heven
      exact Nat.not_even_one heven
    · have hwide := hinside q hlater (by omega)
      rw [hquote] at hwide
      cases form <;> cases hwide
  · rintro stop ⟨hstop, rfl | ⟨hform, hcut⟩⟩
    · exact hend
    · by_contra hlt
      rw [← Byte.isLineEnd_iff] at hcut
      rcases Nat.lt_trichotomy stop (p + 1) with hfirst | rfl | hlater
      · have : stop = p := by omega
        subst this
        rw [hb] at hcut
        cases hcut
      · rw [hline hform] at hcut
        cases hcut
      · have hwide := hinside stop hlater (by omega)
        rw [Byte.isAscii_of_isLineEnd hcut] at hwide
        cases hwide

theorem of_quote (hp : p < s.len) (hb : s.byte p = Byte.doubleQuote)
    (h : ¬ s.Matches QuoteForm.textBlock.quotes p) : s.Passes .textBlock p (p + 1) := by
  refine ⟨Nat.le_succ p, ?_, ?_, ?_⟩
  · rw [backslashes_succ_of_ne (by rw [hb]; decide)]
    exact Even.zero
  · intro q hq
    refine Nat.lt_of_le_of_ne hq.le ?_
    rintro rfl
    exact h hq.quotes
  · rintro stop ⟨-, rfl | ⟨hform, -⟩⟩
    · exact hp
    · exact absurd rfl hform

end Passes

namespace Delimits

theorem of_quotes (hp : p < s.len) (h : s.Matches form.quotes p) :
    s.Delimits form p (.quoted form) (p + delimiterLen form) := by
  refine .closed ⟨⟨Nat.le_refl p, h, ?_, ?_⟩, fun _ hq => hq.le⟩
  · rw [backslashes_self]
    exact Even.zero
  · rintro stop ⟨hle, rfl | ⟨-, hline⟩⟩
    · exact hp
    · refine Nat.lt_of_le_of_ne hle ?_
      rintro rfl
      rw [← Byte.isLineEnd_iff, byte_of_quotes h] at hline
      cases form <;> cases hline

theorem of_cut (h : s.CutsQuote form p p) : s.Delimits form p (.unterminated form) p :=
  .cut (fun _ hq => Nat.not_lt_of_le hq.le (hq.before p h)) ⟨h, fun _ hstop => hstop.1⟩

theorem of_backslash (hb : s.byte p = Byte.backslash) (hp : p < s.len)
    (h : s.CutsQuote form p (p + 1)) : s.Delimits form p (.unterminated form) (p + 1) := by
  refine .cut ?_ ⟨h, ?_⟩
  · intro q hq
    have hquote := byte_of_quotes hq.quotes
    have : q = p := Nat.le_antisymm (Nat.le_of_lt_succ (hq.before _ h)) hq.le
    subst this
    rw [hb] at hquote
    cases form <;> cases hquote
  · rintro stop ⟨hle, rfl | ⟨-, hline⟩⟩
    · exact hp
    · refine Nat.lt_of_le_of_ne hle ?_
      rintro rfl
      rw [← Byte.isLineEnd_iff, hb] at hline
      cases hline

end Delimits

theorem quoteStop_eq_false {b : UInt8} (h : quoteStop form.quote b = false) :
    b ≠ form.quote ∧ b ≠ Byte.backslash ∧ (form ≠ .textBlock → Byte.isLineEnd b = false) := by
  simp only [quoteStop, Bool.or_eq_false_iff, beq_eq_false_iff_ne] at h
  exact ⟨h.1.1, h.1.2, fun _ => h.2⟩

theorem textBlockStop_eq_false {b : UInt8} (h : textBlockStop b = false) :
    b ≠ QuoteForm.textBlock.quote ∧ b ≠ Byte.backslash ∧
      (QuoteForm.textBlock ≠ .textBlock → Byte.isLineEnd b = false) := by
  simp only [textBlockStop, Bool.or_eq_false_iff, beq_eq_false_iff_ne] at h
  exact ⟨h.1, h.2, fun hform => absurd rfl hform⟩

theorem quotedRest_delimits {e : Extent} (hform : form ≠ .textBlock) (hp : p ≤ s.len)
    (h : s.quotedRest form.quote p = .ok e) :
    s.Delimits form p (if e.closed then .quoted form else .unterminated form) e.stop := by
  have hquotes : form.quotes = [form.quote] ∧ delimiterLen form = 1 := by
    cases form with
    | textBlock => exact absurd rfl hform
    | _ => exact ⟨rfl, rfl⟩
  fun_induction quotedRest s form.quote p with
  | case1 p hseek =>
      cases h
      have hpass := Passes.of_plain (@quoteStop_eq_false form) hp (Nat.le_refl _)
        (seek?_eq_none_iff.1 hseek)
      exact hpass.delimits (.of_cut ⟨Nat.le_refl _, .inl rfl⟩)
  | case2 p q hseek hq =>
      cases h
      obtain ⟨hle, hlt, -, hbefore⟩ := seek?_eq_some_iff.1 hseek
      have hpass := Passes.of_plain (@quoteStop_eq_false form) hle (Nat.le_of_lt hlt) hbefore
      have hmatch : s.Matches form.quotes q := by
        rw [hquotes.1]
        exact ⟨eq_of_beq hq, trivial⟩
      have hclosed := hpass.delimits (.of_quotes hlt hmatch)
      rwa [hquotes.2] at hclosed
  | case3 p q hseek hq hline =>
      cases h
      obtain ⟨hle, hlt, -, hbefore⟩ := seek?_eq_some_iff.1 hseek
      have hpass := Passes.of_plain (@quoteStop_eq_false form) hle (Nat.le_of_lt hlt) hbefore
      exact hpass.delimits (.of_cut ⟨Nat.le_refl _, .inr ⟨hform, Byte.isLineEnd_iff.1 hline⟩⟩)
  | case4 p q hseek hq hline ih =>
      obtain ⟨hle, hlt, hstop, hbefore⟩ := seek?_eq_some_iff.1 hseek
      have hb : s.byte q = Byte.backslash := by simpa [quoteStop, hq, hline] using hstop
      have hpass := Passes.of_plain (@quoteStop_eq_false form) hle (Nat.le_of_lt hlt) hbefore
      rw [read_of_le_len hlt, except_ok_bind] at h
      split at h
      · rename_i hend
        cases h
        refine hpass.delimits (.of_backslash hb hlt ⟨Nat.le_succ q, ?_⟩)
        rcases Bool.or_eq_true_iff.1 hend with hend | hbreak
        · exact .inl (Nat.le_antisymm hlt (of_decide_eq_true hend))
        · exact .inr ⟨hform, Byte.isLineEnd_iff.1 hbreak⟩
      · rename_i hend
        simp only [Bool.or_eq_true, decide_eq_true_eq, not_or, Nat.not_le,
          Bool.not_eq_true] at hend
        split at h
        · have hskip := hpass.trans (.of_escape hb hend.1 fun _ => hend.2)
          exact hskip.delimits (ih _ (add_charWidth_le_len hend.1) h)
        · cases h

theorem textBlockRest_delimits {e : Extent} (hp : p ≤ s.len) (h : s.textBlockRest p = .ok e) :
    s.Delimits .textBlock p (if e.closed then .quoted .textBlock else .unterminated .textBlock)
      e.stop := by
  fun_induction textBlockRest s p with
  | case1 p hseek =>
      cases h
      have hpass := Passes.of_plain @textBlockStop_eq_false hp (Nat.le_refl _)
        (seek?_eq_none_iff.1 hseek)
      exact hpass.delimits (.of_cut ⟨Nat.le_refl _, .inl rfl⟩)
  | case2 p q hseek hq ih =>
      obtain ⟨hle, hlt, -, hbefore⟩ := seek?_eq_some_iff.1 hseek
      have hpass := Passes.of_plain @textBlockStop_eq_false hle (Nat.le_of_lt hlt) hbefore
      have hb : s.byte q = Byte.backslash := eq_of_beq hq
      rw [read_of_le_len hlt, except_ok_bind] at h
      split at h
      · rename_i hend
        cases h
        exact hpass.delimits
          (.of_backslash hb hlt ⟨Nat.le_succ q, .inl (Nat.le_antisymm hlt hend)⟩)
      · rename_i hend
        have hnext : q + 1 < s.len := Nat.lt_of_not_le hend
        split at h
        · have hskip := hpass.trans (.of_escape hb hnext fun hform => absurd rfl hform)
          exact hskip.delimits (ih _ hend (add_charWidth_le_len hnext) h)
        · cases h
  | case3 p q hseek hq ih =>
      obtain ⟨hle, hlt, hstop, hbefore⟩ := seek?_eq_some_iff.1 hseek
      have hpass := Passes.of_plain @textBlockStop_eq_false hle (Nat.le_of_lt hlt) hbefore
      have hb : s.byte q = Byte.doubleQuote := by
        simp only [textBlockStop, Bool.or_eq_true, beq_iff_eq] at hstop hq
        exact hstop.resolve_right hq
      rw [startsWith_eq_ok (by decide) (Nat.le_of_lt hlt), except_ok_bind] at h
      split at h
      · rename_i hclose
        cases h
        exact hpass.delimits (.of_quotes hlt (of_decide_eq_true hclose))
      · rename_i hclose
        have hskip := hpass.trans (.of_quote hlt hb fun hm => hclose (decide_eq_true hm))
        exact hskip.delimits (ih hlt h)

theorem exists_opensQuote (h : s.byte p = Byte.doubleQuote ∨ s.byte p = Byte.singleQuote) :
    ∃ form, s.OpensQuote form p := by
  rcases h with h | h
  · by_cases hblock : s.Matches QuoteForm.textBlock.quotes p
    · exact ⟨.textBlock, hblock, fun hform => by cases hform⟩
    · exact ⟨.string, ⟨h, trivial⟩, fun _ => hblock⟩
  · exact ⟨.char, ⟨h, trivial⟩, fun hform => by cases hform⟩

theorem rule_of_opensQuote (hp : p < s.len) (h : s.OpensQuote form p) :
    s.rule p (.ofByte (s.byte p)) =
      if form = .textBlock then s.textBlockAt p else s.quotedAt form form.quote p := by
  have hbyte := byte_of_quotes h.1
  cases form with
  | char =>
      rw [hbyte]
      rfl
  | string =>
      have hmore : ¬ s.Matches [Byte.doubleQuote, Byte.doubleQuote] (p + 1) :=
        fun hm => h.2 rfl ⟨hbyte, hm⟩
      rw [hbyte]
      change s.rule p .doubleQuote = _
      rw [rule, startsWith_eq_ok (by decide) hp, except_ok_bind, decide_eq_false hmore]
      rfl
  | textBlock =>
      rw [hbyte]
      change s.rule p .doubleQuote = _
      rw [rule, startsWith_eq_ok (by decide) hp, except_ok_bind, decide_eq_true h.1.2]
      rfl

theorem delimits_of_scan {lexeme : Lexeme} (hp : p < s.len) (hopens : s.OpensQuote form p)
    (hscan : s.scan p = .ok (some lexeme)) :
    s.Delimits form (p + delimiterLen form) lexeme.tag (p + lexeme.len) := by
  have hrule := ((scan_eq_some_iff hp).1 hscan).1
  rw [rule_of_opensQuote hp hopens] at hrule
  split at hrule
  · rename_i hform
    subst hform
    have hle : p + 3 ≤ s.len := (hopens.1.reach (by decide) (Nat.le_of_lt hp)).le_len
    obtain ⟨e, hrest, h⟩ := textBlockAt_inv hrule
    have hdelimits := textBlockRest_delimits hle hrest
    obtain ⟨htag, hstop⟩ := Prod.mk.inj h
    rwa [← htag, ← hstop] at hdelimits
  · rename_i hform
    have hone : delimiterLen form = 1 := by
      cases form with
      | textBlock => exact absurd rfl hform
      | _ => rfl
    obtain ⟨e, hrest, h⟩ := quotedAt_inv hrule
    have hdelimits := quotedRest_delimits hform hp hrest
    obtain ⟨htag, hstop⟩ := Prod.mk.inj h
    rw [← htag, ← hstop] at hdelimits
    rwa [hone]

/-- A quote starts a literal that runs to the first delimiter behind an even number of backslashes,
on its line unless it is a text block, and else to the end of the line or of the text. -/
theorem scan_delimits (s : Source) (hfit : s.len ≤ maxOffset) {p : Nat}
    (hquote : s.byte p = Byte.doubleQuote ∨ s.byte p = Byte.singleQuote) :
    ∃ form lexeme, s.OpensQuote form p ∧ s.scan p = .ok (some lexeme) ∧
      s.Delimits form (p + delimiterLen form) lexeme.tag (p + lexeme.len) := by
  have hp : p < s.len := by
    apply lt_len_of_byte_ne_zero
    rcases hquote with h | h <;> rw [h] <;> decide
  obtain ⟨form, hopens⟩ := exists_opensQuote hquote
  obtain ⟨lexeme, hscan, -⟩ := scan_of_lt_len hfit hp
  exact ⟨form, lexeme, hopens, hscan, delimits_of_scan hp hopens hscan⟩

/-- A string that holds an escaped quote between two escaped backslashes, and a character literal
that its line cuts off behind a backslash. -/
theorem scan_delimits_escaped :
    len ⟨"\"\\\\\\\"\\\\\" 'a\\\n'"⟩ ≤ maxOffset ∧
      byte ⟨"\"\\\\\\\"\\\\\" 'a\\\n'"⟩ 0 = Byte.doubleQuote ∧
      byte ⟨"\"\\\\\\\"\\\\\" 'a\\\n'"⟩ 9 = Byte.singleQuote ∧
      Delimits ⟨"\"\\\\\\\"\\\\\" 'a\\\n'"⟩ .string 1 (.quoted .string) 8 ∧
      Delimits ⟨"\"\\\\\\\"\\\\\" 'a\\\n'"⟩ .char 10 (.unterminated .char) 12 := by
  have hfit : len ⟨"\"\\\\\\\"\\\\\" 'a\\\n'"⟩ ≤ maxOffset := by decide
  have hstring : scan ⟨"\"\\\\\\\"\\\\\" 'a\\\n'"⟩ 0 =
      .ok (some ⟨.quoted .string, 8, by decide⟩) :=
    (scan_eq_some_iff (by decide)).2 ⟨by decide +kernel, by decide⟩
  have hchar : scan ⟨"\"\\\\\\\"\\\\\" 'a\\\n'"⟩ 9 =
      .ok (some ⟨.unterminated .char, 3, by decide⟩) :=
    (scan_eq_some_iff (by decide)).2 ⟨by decide +kernel, by decide⟩
  refine ⟨hfit, by decide +kernel, by decide +kernel, ?_, ?_⟩
  · obtain ⟨form, lexeme, -, hscan, hdelimits⟩ :=
      scan_delimits _ hfit (p := 0) (.inl (by decide +kernel))
    cases hstring.symm.trans hscan
    have hform : form = .string := by
      cases hdelimits
      rfl
    subst hform
    exact hdelimits
  · obtain ⟨form, lexeme, -, hscan, hdelimits⟩ :=
      scan_delimits _ hfit (p := 9) (.inr (by decide +kernel))
    cases hchar.symm.trans hscan
    have hform : form = .char := by
      cases hdelimits
      rfl
    subst hform
    exact hdelimits

end Source

end JavaLex
