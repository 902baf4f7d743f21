import JavaLex.Proofs.Characters

/-! How literals and comments end: with their closing delimiter, or where their line or the text
cuts them off. -/

namespace JavaLex

namespace QuoteForm

/-- What a literal is opened and closed by. -/
def delimiter : QuoteForm → String
  | string => "\""
  | textBlock => "\"\"\""
  | char => "'"

def quotes : QuoteForm → List UInt8
  | string => [Byte.doubleQuote]
  | textBlock => [Byte.doubleQuote, Byte.doubleQuote, Byte.doubleQuote]
  | char => [Byte.singleQuote]

theorem length_quotes (form : QuoteForm) : form.quotes.length = Source.delimiterLen form := by
  cases form <;> rfl

end QuoteForm

namespace Source

variable {s : Source} {p q stop : Nat}

def OpensQuote (s : Source) (form : QuoteForm) (p : Nat) : Prop :=
  s.Matches form.quotes p ∧ (form = .string → ¬ s.Matches QuoteForm.textBlock.quotes p)

/-- How a lexeme between two offsets begins and ends, if it is one that has to be closed. -/
def Ends (s : Source) (p stop : Nat) : Tag → Prop
  | .quoted form =>
    s.OpensQuote form p ∧ p + 2 * delimiterLen form ≤ stop ∧
      s.Matches form.quotes (stop - delimiterLen form)
  | .unterminated form =>
    s.OpensQuote form p ∧ p + delimiterLen form ≤ stop ∧
      (stop = s.len ∨ form ≠ .textBlock ∧ Byte.isLineEnd (s.byte stop) = true)
  | .comment _ =>
    s.Matches [Byte.slash, Byte.star] p →
      p + 4 ≤ stop ∧ s.Matches [Byte.star, Byte.slash] (stop - 2)
  | .unterminatedComment => stop = s.len
  | _ => True

/-- A literal that is not closed stops at a line end or at the end of the text, also behind a
backslash. -/
theorem quotedRest_ends {quote : UInt8} {e : Extent} (h : s.quotedRest quote p = .ok e) :
    if e.closed then s.byte (e.stop - 1) = quote
    else e.stop = s.len ∨ Byte.isLineEnd (s.byte e.stop) = true := by
  fun_induction quotedRest s quote p with
  | case1 p hseek =>
      cases h
      exact .inl rfl
  | case2 p q hseek hq =>
      cases h
      exact eq_of_beq hq
  | case3 p q hseek hq hline =>
      cases h
      exact .inr hline
  | case4 p q hseek hq hline ih =>
      have hlt : q < s.len := (seek?_bounds hseek).2
      rw [read_of_le_len hlt, except_ok_bind] at h
      split at h
      · rename_i hcut
        cases h
        rcases Bool.or_eq_true_iff.1 hcut with hend | hline
        · exact .inl (Nat.le_antisymm hlt (of_decide_eq_true hend))
        · exact .inr hline
      · split at h
        · exact ih _ h
        · cases h

theorem textBlockRest_ends {e : Extent} (h : s.textBlockRest p = .ok e) :
    if e.closed then s.Matches QuoteForm.textBlock.quotes (e.stop - 3) else e.stop = s.len := by
  fun_induction textBlockRest s p with
  | case1 p hseek =>
      cases h
      rfl
  | case2 p q hseek hq ih =>
      have hlt : q < s.len := (seek?_bounds hseek).2
      rw [read_of_le_len hlt, except_ok_bind] at h
      split at h
      · rename_i hend
        cases h
        exact Nat.le_antisymm hlt hend
      · rename_i hend
        split at h
        · exact ih _ hend h
        · cases h
  | case3 p q hseek hq ih =>
      have hle : q ≤ s.len := Nat.le_of_lt (seek?_bounds hseek).2
      rw [startsWith_eq_ok (by decide) hle, except_ok_bind] at h
      split at h
      · rename_i hclose
        cases h
        exact of_decide_eq_true hclose
      · exact ih h

section

variable {tag : Tag} (hfit : s.len ≤ maxOffset)

include hfit

theorem quotedAt_ends {form : QuoteForm} {quote : UInt8} (hp : p < s.len)
    (hquote : Byte.isAscii quote = true) (hform : form.quotes = [quote])
    (hopens : s.OpensQuote form p) (h : s.quotedAt form quote p = .ok (tag, stop)) :
    s.Ends p stop tag := by
  obtain ⟨⟨closed, last⟩, hrest, h⟩ := quotedAt_inv h
  cases h
  obtain ⟨hreach, hclosed⟩ := (quotedRest_returns hfit hquote hp).of_eq_ok hrest
  have hends := quotedRest_ends hrest
  have hone : delimiterLen form = 1 := by rw [← form.length_quotes, hform]; rfl
  cases closed with
  | true =>
      have hlt : p + 1 < last := hclosed rfl
      refine ⟨hopens, by rw [hone]; exact hlt, ?_⟩
      rw [hform, hone]
      exact ⟨hends, trivial⟩
  | false =>
      refine ⟨hopens, by rw [hone]; exact hreach.le, hends.imp_right fun hline => ⟨?_, hline⟩⟩
      rintro rfl
      cases hform

theorem textBlockAt_ends (hopens : s.OpensQuote .textBlock p) (hp : p < s.len)
    (h : s.textBlockAt p = .ok (tag, stop)) : s.Ends p stop tag := by
  have hle : p + 3 ≤ s.len := (hopens.1.reach (by decide) (Nat.le_of_lt hp)).le_len
  obtain ⟨⟨closed, last⟩, hrest, h⟩ := textBlockAt_inv h
  cases h
  obtain ⟨hreach, hclosed⟩ := (textBlockRest_returns hfit hle).of_eq_ok hrest
  have hends := textBlockRest_ends hrest
  cases closed with
  | true => exact ⟨hopens, hclosed rfl, hends⟩
  | false => exact ⟨hopens, hreach.le, .inl hends⟩

omit hfit in
theorem blockComment_ends : s.Ends p (s.blockComment p).2 (s.blockComment p).1 := by
  unfold blockComment
  split
  · rename_i last hclose
    intro _
    obtain ⟨i, hi, rfl⟩ := Option.map_eq_some_iff.1 hclose
    obtain ⟨hle, -, hfound, -⟩ := seek?_eq_some_iff.1 hi
    simp only [Bool.and_eq_true, beq_iff_eq] at hfound
    exact ⟨by omega, hfound.1, hfound.2, trivial⟩
  · rfl

omit hfit in
theorem fixedAt_ends (hp : p < s.len) (h : s.fixedAt p = .ok (tag, stop)) :
    s.Ends p stop tag := by
  rcases fixedAt_tag (Nat.le_of_lt hp) h with hmem | rfl
  · simp only [Tag.fixed, List.mem_append, List.mem_map] at hmem
    rcases hmem with ⟨op, -, rfl⟩ | ⟨sep, -, rfl⟩
    · trivial
    · trivial
  · trivial

theorem rule_ends (hp : p < s.len) (h : s.rule p (.ofByte (s.byte p)) = .ok (tag, stop)) :
    s.Ends p stop tag := by
  have hadmits := Opening.admits_ofByte (s.byte p)
  generalize Opening.ofByte (s.byte p) = opening at h hadmits
  cases opening with
  | null =>
      cases h
      trivial
  | blank =>
      obtain ⟨last, -, h⟩ := bind_eq_ok h
      cases h
      trivial
  | carriageReturn =>
      obtain ⟨last, -, h⟩ := bind_eq_ok h
      cases h
      trivial
  | lineFeed =>
      cases h
      trivial
  | substitute =>
      obtain ⟨final, -, h⟩ := bind_eq_ok h
      cases h
      split <;> trivial
  | word =>
      obtain ⟨last, -, h⟩ := bind_eq_ok h
      cases h
      trivial
  | digit =>
      obtain ⟨⟨form, last⟩, -, h⟩ := bind_eq_ok h
      cases h
      trivial
  | dot =>
      obtain ⟨next, -, h⟩ := bind_eq_ok h
      split at h
      · obtain ⟨⟨form, last⟩, -, h⟩ := bind_eq_ok h
        cases h
        trivial
      · exact fixedAt_ends hp h
  | slash =>
      rw [rule, read_of_le_len hp, except_ok_bind] at h
      split at h
      · rename_i hslash
        cases h
        rintro ⟨-, hstar, -⟩
        rw [hstar] at hslash
        cases hslash
      · split at h
        · rename_i hstar
          have hlt := lt_len_of_accepts (Byte.textClass_eq (b := Byte.star) rfl rfl) hstar
          rw [blockCommentAt_eq_ok hlt] at h
          have hends := blockComment_ends (s := s) (p := p)
          rwa [Except.ok.inj h] at hends
        · exact fixedAt_ends hp h
  | doubleQuote =>
      have hquote : s.byte p = Byte.doubleQuote := eq_of_beq hadmits
      rw [rule, startsWith_eq_ok (by decide) hp, except_ok_bind] at h
      split at h
      · rename_i hmore
        have hopens : s.OpensQuote .textBlock p :=
          ⟨⟨hquote, of_decide_eq_true hmore⟩, fun hform => by cases hform⟩
        exact textBlockAt_ends hfit hopens hp h
      · rename_i hmore
        have hopens : s.OpensQuote .string p :=
          ⟨⟨hquote, trivial⟩, fun _ hblock => hmore (decide_eq_true hblock.2)⟩
        exact quotedAt_ends hfit hp rfl rfl hopens h
  | singleQuote =>
      have hopens : s.OpensQuote .char p :=
        ⟨⟨eq_of_beq hadmits, trivial⟩, fun hform => by cases hform⟩
      exact quotedAt_ends hfit hp rfl rfl hopens h
  | wide =>
      obtain ⟨next, -, h⟩ := bind_eq_ok h
      obtain ⟨c, -, h⟩ := bind_eq_ok h
      split at h
      · obtain ⟨last, -, h⟩ := bind_eq_ok h
        cases h
        trivial
      · cases h
        trivial
  | other => exact fixedAt_ends hp h

theorem ends_of_scan {lexeme : Lexeme} (hp : p ≤ s.len)
    (hscan : s.scan p = .ok (some lexeme)) : s.Ends p (p + lexeme.len) lexeme.tag := by
  have hlt := (lexed_of_scan hfit hp hscan).1
  exact rule_ends hfit hlt ((scan_eq_some_iff hlt).1 hscan).1

end

theorem Matches.of_byte_eq {t : Source} {bytes : List UInt8} (ht : t.Matches bytes q)
    (h : ∀ i, i < bytes.length → s.byte (i + p) = t.byte (i + q)) : s.Matches bytes p := by
  induction bytes generalizing p q with
  | nil => trivial
  | cons b rest ih =>
      have hfirst := h 0 (Nat.succ_pos _)
      rw [Nat.zero_add, Nat.zero_add, ht.1] at hfirst
      refine ⟨hfirst, ih ht.2 ?_⟩
      intro i hi
      have hnext := h (i + 1) (Nat.succ_lt_succ hi)
      rwa [Nat.add_assoc, Nat.add_assoc, Nat.add_comm 1 p, Nat.add_comm 1 q] at hnext

/-- Some bytes are those of a text. -/
structure Writes (bytes : List UInt8) (t : String) : Prop where
  size : t.utf8ByteSize = bytes.length
  text : Matches ⟨t⟩ bytes 0
  plain : IsPlain bytes
  nonempty : 0 < bytes.length

theorem writes_quotes (form : QuoteForm) : Writes form.quotes form.delimiter := by
  cases form with
  | string => exact ⟨rfl, by decide +kernel, by decide, by decide⟩
  | textBlock => exact ⟨rfl, by decide +kernel, by decide, by decide⟩
  | char => exact ⟨rfl, by decide +kernel, by decide, by decide⟩

namespace Writes

variable {bytes : List UInt8} {t text : String}

theorem slice? (h : Writes bytes t) (hm : s.Matches bytes p) :
    s.slice? p (p + bytes.length) = some t := by
  obtain ⟨hsize, htext, hplain, hpos⟩ := h
  have hlt : p < s.len ∧ Byte.isAscii (s.byte p) = true := by
    cases bytes with
    | nil => cases hpos
    | cons b rest =>
        obtain ⟨hne, hascii⟩ := hplain b List.mem_cons_self
        exact ⟨lt_len_of_byte_ne_zero (by rw [hm.1]; exact hne), by rw [hm.1]; exact hascii⟩
  have hp := isBoundary_of_isAscii hlt.1 hlt.2
  have hq := (hm.reach hplain (Nat.le_of_lt hlt.1)).boundary hp
  rw [slice?_eq_some_slice hp hq (Nat.le_add_right _ _)]
  rw [← hsize] at hq ⊢
  congr 1
  apply slice_eq_of_byte_eq hp hq
  intro i hi
  rw [hm.byte_eq htext (by omega), Nat.add_zero]

theorem matches_of_slice? (h : Writes bytes t) {rest : String}
    (htext : s.slice? p q = some (t ++ rest)) : s.Matches bytes p := by
  apply Matches.of_byte_eq h.text
  intro i hi
  rw [← h.size] at hi
  rw [byte_of_slice? htext (by rw [String.utf8ByteSize_append]; omega), byte_append_left hi,
    Nat.add_zero]

theorem exists_append (h : Writes bytes t) (hm : s.Matches bytes p)
    (htext : s.slice? p q = some text) (hle : p + bytes.length ≤ q) :
    ∃ rest, text = t ++ rest := by
  have hfirst := h.slice? hm
  obtain ⟨-, hp, -⟩ := isBoundary_of_slice? hfirst
  obtain ⟨-, hq, -⟩ := isBoundary_of_slice? htext
  have hrest := slice?_eq_some_slice hp hq hle
  rw [slice?_trans hfirst hrest] at htext
  exact ⟨_, (Option.some.inj htext).symm⟩

theorem eq_between {last : List UInt8} {u : String} (h : Writes bytes t) (h' : Writes last u)
    (hm : s.Matches bytes p) (hm' : s.Matches last (q - last.length))
    (htext : s.slice? p q = some text) (hle : p + bytes.length + last.length ≤ q) :
    text = t ++ s.slice (p + bytes.length) (q - last.length) ++ u := by
  have hfirst := h.slice? hm
  have hlast := h'.slice? hm'
  rw [Nat.sub_add_cancel (by omega)] at hlast
  obtain ⟨-, hp, -⟩ := isBoundary_of_slice? hfirst
  obtain ⟨hq, -, -⟩ := isBoundary_of_slice? hlast
  have hmiddle := slice?_eq_some_slice hp hq (by omega)
  rw [slice?_trans (slice?_trans hfirst hmiddle) hlast] at htext
  exact (Option.some.inj htext).symm

end Writes

theorem char?_of_isLineEnd (hp : p < s.len) (h : Byte.isLineEnd (s.byte p) = true) :
    s.char? p = some '\n' ∨ s.char? p = some '\r' := by
  have hascii := Byte.isAscii_of_isLineEnd h
  obtain ⟨c, hc, -⟩ := exists_char_of_isBoundary (isBoundary_of_isAscii hp hascii) hp
  rw [hc]
  revert h
  exact forall_asciiChar
    (P := fun b c => Byte.isLineEnd b = true → some c = some '\n' ∨ some c = some '\r')
    (by decide +kernel) hc hascii

end Source

end JavaLex
