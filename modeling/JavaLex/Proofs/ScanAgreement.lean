import JavaLex.Proofs.Agreement

/-! Scanning looks at what it scans and no further: sources that read alike up to an offset are cut
into the same lexemes up to there, as long as none of these waits for a close that the first source
lacks and the second may have. -/

namespace JavaLex

/-- Nothing but the end of the text ends such a lexeme. -/
def Tag.runsToEnd : Tag → Bool
  | .unterminated .textBlock | .unterminatedComment => true
  | _ => false

namespace Source

theorem quotedRest_of_none {s : Source} {quote : UInt8} {p : Nat}
    (hseek : s.seek? (fun i => quoteStop quote (s.byte i)) p = none) :
    s.quotedRest quote p = .ok ⟨false, s.len⟩ := by
  rw [quotedRest]
  split
  · rfl
  · rename_i hsome
    rw [hseek] at hsome
    cases hsome

theorem quotedRest_of_some {s : Source} {quote : UInt8} {p q : Nat}
    (hseek : s.seek? (fun i => quoteStop quote (s.byte i)) p = some q) :
    s.quotedRest quote p =
      (if s.byte q == quote then .ok ⟨true, q + 1⟩
      else if Byte.isLineEnd (s.byte q) then .ok ⟨false, q⟩
      else do
        let b ← s.read (q + 1)
        if decide (s.len ≤ q + 1) || Byte.isLineEnd b then .ok ⟨false, q + 1⟩
        else if q + 1 + Byte.charWidth b ≤ maxOffset then
          s.quotedRest quote (q + 1 + Byte.charWidth b)
        else .error .addOverflow) := by
  rw [quotedRest]
  split
  · rename_i hnone
    rw [hseek] at hnone
    cases hnone
  · rename_i hsome
    rw [hseek] at hsome
    cases hsome
    rfl

/-- No quote and no escape before the line or the text ends. -/
theorem quotedRest_of_breaksAt {s : Source} {quote : UInt8} {p q : Nat}
    (hquote : Byte.isLineEnd quote = false) (hpq : p ≤ q) (hq : q ≤ s.len)
    (hbreak : s.BreaksAt q)
    (hbefore : ∀ i, p ≤ i → i < q → quoteStop quote (s.byte i) = false) :
    s.quotedRest quote p = .ok ⟨false, q⟩ := by
  rcases Nat.lt_or_eq_of_le hq with hlt | rfl
  · have hline : Byte.isLineEnd (s.byte q) = true := hbreak.resolve_left (Nat.not_le.2 hlt)
    have hne : ¬ (s.byte q == quote) = true := by
      intro heq
      rw [eq_of_beq heq, hquote] at hline
      cases hline
    have hstop : quoteStop quote (s.byte q) = true := by
      rw [quoteStop, hline, Bool.or_true]
    rw [quotedRest_of_some (seek?_eq_some_iff.2 ⟨hpq, hlt, hstop, hbefore⟩), if_neg hne,
      if_pos hline]
  · exact quotedRest_of_none (seek?_eq_none_iff.2 hbefore)

theorem textBlockRest_of_none {s : Source} {p : Nat}
    (hseek : s.seek? (fun i => textBlockStop (s.byte i)) p = none) :
    s.textBlockRest p = .ok ⟨false, s.len⟩ := by
  rw [textBlockRest]
  split
  · rfl
  · rename_i hsome
    rw [hseek] at hsome
    cases hsome

theorem textBlockRest_of_some {s : Source} {p q : Nat}
    (hseek : s.seek? (fun i => textBlockStop (s.byte i)) p = some q) :
    s.textBlockRest p =
      (if s.byte q == Byte.backslash then do
        let b ← s.read (q + 1)
        if s.len ≤ q + 1 then .ok ⟨false, q + 1⟩
        else if q + 1 + Byte.charWidth b ≤ maxOffset then
          s.textBlockRest (q + 1 + Byte.charWidth b)
        else .error .addOverflow
      else do
        if ← s.startsWith [Byte.doubleQuote, Byte.doubleQuote, Byte.doubleQuote] q then
          .ok ⟨true, q + 3⟩
        else s.textBlockRest (q + 1)) := by
  rw [textBlockRest]
  split
  · rename_i hnone
    rw [hseek] at hnone
    cases hnone
  · rename_i hsome
    rw [hseek] at hsome
    cases hsome
    rfl

namespace AgreesInside

variable {s t : Source} {d hi p q : Nat} (h : s.AgreesInside t d hi)

include h

theorem wordStep (hp : p < hi) : t.wordStep (p + d) = s.wordStep p := by
  simp only [Source.wordStep, h.byte p hp, h.char? p hp]

theorem wordStep_hi : t.wordStep (hi + d) = 0 := by
  have hrefused : ∀ b ∈ Byte.dividers, Byte.continuesWord b = false ∧ Byte.isAscii b = true := by
    decide
  obtain ⟨hcontinues, hascii⟩ := hrefused _ h.divided
  simp [Source.wordStep, hcontinues, hascii]

theorem skipWord (hp : p ≤ s.len) (hs : s.skipWord p = .ok q) (hq : q ≤ hi) :
    t.skipWord (p + d) = .ok (q + d) := by
  have hsize : ∀ i, i ≤ hi → i + d < t.size := fun i hi' =>
    lt_size_of_le_len (Nat.le_trans (Nat.add_le_add_right hi' d) h.add_le_len)
  fun_induction Source.skipWord s p with
  | case1 p _ hstep ih =>
      have hreach := (wordStep_reach hstep).2
      have hle := ((skipWord_returns hreach.le_len).of_eq_ok hs).le
      have hphi : p < hi := by omega
      rw [Source.skipWord, if_pos (hsize p (Nat.le_of_lt hphi)), h.wordStep hphi, if_pos hstep,
        Nat.add_right_comm]
      exact ih hreach.le_len hs
  | case2 p _ hstep =>
      have hpq : p = q := Except.ok.inj hs
      rw [← hpq] at hq ⊢
      have hstep' : ¬ 0 < t.wordStep (p + d) := by
        rcases Nat.lt_or_eq_of_le hq with hlt | rfl
        · rwa [h.wordStep hlt]
        · rw [h.wordStep_hi]
          exact Nat.lt_irrefl 0
      rw [Source.skipWord, if_pos (hsize p hq), if_neg hstep']
  | case3 p _ => cases hs

theorem quotedRest_break {quote : UInt8} (hquote : Byte.isLineEnd quote = false) (hpq : p ≤ q)
    (hq : q ≤ hi) (hbreak : s.BreaksAt q)
    (hbefore : ∀ i, p ≤ i → i < q → quoteStop quote (s.byte i) = false) :
    t.quotedRest quote (p + d) = .ok ⟨false, q + d⟩ := by
  have hadd := h.add_le_len
  refine quotedRest_of_breaksAt hquote (Nat.add_le_add_right hpq d) (by omega)
    (h.breaksAt hq hbreak) ?_
  intro i hpi hiq
  obtain ⟨j, rfl⟩ := Nat.exists_eq_add_of_le' (Nat.le_trans (Nat.le_add_left d p) hpi)
  rw [h.byte j (by omega)]
  exact hbefore j (by omega) (by omega)

theorem quotedRest {quote : UInt8} {e : Extent} (hascii : Byte.isAscii quote = true)
    (hquote : Byte.isLineEnd quote = false) (hp : p ≤ s.len)
    (hs : s.quotedRest quote p = .ok e) (hq : e.stop ≤ hi) :
    t.quotedRest quote (p + d) = .ok ⟨e.closed, e.stop + d⟩ := by
  fun_induction Source.quotedRest s quote p with
  | case1 p hseek =>
      cases hs
      exact h.quotedRest_break hquote hp hq (.inl (Nat.le_refl _)) (seek?_eq_none_iff.1 hseek)
  | case2 p q hseek hclose =>
      cases hs
      rw [quotedRest_of_some (h.seek?_some hq hseek), h.byte q hq, if_pos hclose,
        Nat.add_right_comm]
  | case3 p q hseek hclose hline =>
      cases hs
      obtain ⟨hle, -, -, hbefore⟩ := seek?_eq_some_iff.1 hseek
      exact h.quotedRest_break hquote hle hq (.inr hline) hbefore
  | case4 p q hseek hclose hline ih =>
      have hq1 : q + 1 ≤ s.len := (seek?_bounds hseek).2
      rw [read_of_le_len hq1, except_ok_bind] at hs
      by_cases hend : s.BreaksAt (q + 1)
      · rw [if_pos (breaksAt_iff.2 hend)] at hs
        cases hs
        have hend' := h.breaksAt hq hend
        rw [quotedRest_of_some (h.seek?_some hq hseek), h.byte q hq, if_neg hclose,
          if_neg hline, Nat.add_right_comm, h.read_right hq, except_ok_bind,
          if_pos (breaksAt_iff.2 hend')]
      · rw [if_neg (fun hb => hend (breaksAt_iff.1 hb))] at hs
        have hlt : q + 1 < s.len := Nat.lt_of_not_le fun hle => hend (.inl hle)
        have hchar := add_charWidth_le_len hlt
        have hmax := Nat.le_trans hchar h.fit
        rw [if_pos hmax] at hs
        have hle := ((quotedRest_returns h.fit hascii hchar).of_eq_ok hs).1.le
        have hmax' := h.add_le_maxOffset (Nat.le_trans hle hq)
        have hpos := Byte.charWidth_pos (s.byte (q + 1))
        have hq1hi : q + 1 < hi := by omega
        have hqhi : q < hi := Nat.lt_of_succ_lt hq1hi
        have hend' := h.not_breaksAt hq1hi hend
        rw [quotedRest_of_some (h.seek?_some hqhi hseek), h.byte q hqhi, if_neg hclose,
          if_neg hline, Nat.add_right_comm, h.read_right (Nat.le_of_lt hq1hi), except_ok_bind,
          if_neg (fun hb => hend' (breaksAt_iff.1 hb)), h.byte (q + 1) hq1hi,
          Nat.add_right_comm, if_pos hmax']
        exact ih _ hchar hs

theorem textBlockRest {e : Extent} (hp : p ≤ s.len) (hs : s.textBlockRest p = .ok e)
    (hq : e.stop ≤ hi) (hopen : e.closed = false → s.len ≤ hi → t.len ≤ hi + d) :
    t.textBlockRest (p + d) = .ok ⟨e.closed, e.stop + d⟩ := by
  have hslen := h.le_len
  have htlen := h.add_le_len
  fun_induction Source.textBlockRest s p with
  | case1 p hseek =>
      cases hs
      have hend := hopen rfl hq
      have hnone := h.seek?_none (g := fun i => textBlockStop (t.byte i))
        (fun j hj => by rw [h.byte j hj]) hq hend hseek
      have hlens : t.len = s.len + d := by simp only at hq; omega
      rw [textBlockRest_of_none hnone, hlens]
  | case2 p q hseek hslash ih =>
      have hq1 : q + 1 ≤ s.len := (seek?_bounds hseek).2
      rw [read_of_le_len hq1, except_ok_bind] at hs
      by_cases hend : s.len ≤ q + 1
      · rw [if_pos hend] at hs
        cases hs
        have hend' := hopen rfl (Nat.le_trans hend hq)
        rw [textBlockRest_of_some (h.seek?_some hq hseek), h.byte q hq, if_pos hslash,
          Nat.add_right_comm, h.read_right hq, except_ok_bind,
          if_pos (by simp only at hq; omega)]
      · rw [if_neg hend] at hs
        have hchar := add_charWidth_le_len (Nat.lt_of_not_le hend)
        have hmax := Nat.le_trans hchar h.fit
        rw [if_pos hmax] at hs
        have hle := ((textBlockRest_returns h.fit hchar).of_eq_ok hs).1.le
        have hmax' := h.add_le_maxOffset (Nat.le_trans hle hq)
        have hpos := Byte.charWidth_pos (s.byte (q + 1))
        have hq1hi : q + 1 < hi := by omega
        have hqhi : q < hi := Nat.lt_of_succ_lt hq1hi
        rw [textBlockRest_of_some (h.seek?_some hqhi hseek), h.byte q hqhi, if_pos hslash,
          Nat.add_right_comm, h.read_right (Nat.le_of_lt hq1hi), except_ok_bind,
          if_neg (by omega), h.byte (q + 1) hq1hi, Nat.add_right_comm, if_pos hmax']
        exact ih _ hend hchar hs
  | case3 p q hseek hslash ih =>
      have hq1 : q + 1 ≤ s.len := (seek?_bounds hseek).2
      have hplain : IsPlain [Byte.doubleQuote, Byte.doubleQuote, Byte.doubleQuote] := by decide
      rw [startsWith_eq_ok hplain (Nat.le_of_succ_le hq1), except_ok_bind] at hs
      by_cases hclose :
          s.Matches [Byte.doubleQuote, Byte.doubleQuote, Byte.doubleQuote] q
      · rw [if_pos (decide_eq_true hclose)] at hs
        cases hs
        have hqhi : q < hi := Nat.lt_of_lt_of_le (Nat.lt_add_of_pos_right (by decide)) hq
        rw [textBlockRest_of_some (h.seek?_some hqhi hseek), h.byte q hqhi, if_neg hslash,
          h.startsWith (by decide) hplain (Nat.le_of_lt hqhi) (fun _ => hq),
          startsWith_eq_ok hplain (Nat.le_of_succ_le hq1), except_ok_bind,
          if_pos (decide_eq_true hclose), Nat.add_right_comm]
      · have hclose' : ¬ decide (s.Matches
            [Byte.doubleQuote, Byte.doubleQuote, Byte.doubleQuote] q) = true :=
          fun hd => hclose (of_decide_eq_true hd)
        rw [if_neg hclose'] at hs
        have hqhi : q < hi :=
          Nat.le_trans ((textBlockRest_returns h.fit hq1).of_eq_ok hs).1.le hq
        rw [textBlockRest_of_some (h.seek?_some hqhi hseek), h.byte q hqhi, if_neg hslash,
          h.startsWith (by decide) hplain (Nat.le_of_lt hqhi) (fun hm => absurd hm hclose),
          startsWith_eq_ok hplain (Nat.le_of_succ_le hq1), except_ok_bind, if_neg hclose',
          Nat.add_right_comm]
        exact ih hq1 hs

theorem commentClose?_some (hs : s.commentClose? p = some q) (hq : q ≤ hi) :
    t.commentClose? (p + d) = some (q + d) := by
  obtain ⟨i, hseek, rfl⟩ := Option.map_eq_some_iff.1 hs
  obtain ⟨hle, hlt, hclose, hbefore⟩ := seek?_eq_some_iff.1 hseek
  have hbyte : ∀ j, j ≤ i →
      (t.byte (j + d) == Byte.star && t.byte (j + d + 1) == Byte.slash) =
        (s.byte j == Byte.star && s.byte (j + 1) == Byte.slash) := by
    intro j hj
    rw [h.byte j (by omega), Nat.add_right_comm, h.byte (j + 1) (by omega)]
  refine Option.map_eq_some_iff.2 ⟨i + d, seek?_eq_some_iff.2 ⟨?_, ?_, ?_, ?_⟩, ?_⟩
  · exact Nat.add_le_add_right hle d
  · exact h.lt_len_right (by omega)
  · rw [hbyte i (Nat.le_refl i)]
    exact hclose
  · intro k hpk hki
    obtain ⟨j, rfl⟩ := Nat.exists_eq_add_of_le' (Nat.le_trans (Nat.le_add_left d p) hpk)
    rw [hbyte j (by omega)]
    exact hbefore j (by omega) (by omega)
  · exact Nat.add_right_comm i d 2

theorem commentClose?_none (hlen : s.len ≤ hi) (hend : t.len ≤ hi + d)
    (hs : s.commentClose? p = none) : t.commentClose? (p + d) = none := by
  have hslen : s.byte hi = 0 := byte_of_len_le hlen
  have htlen : t.byte (hi + d) = 0 := byte_of_len_le hend
  refine Option.map_eq_none_iff.2 (h.seek?_none ?_ hlen hend (Option.map_eq_none_iff.1 hs))
  intro j hj
  rw [h.byte j hj, Nat.add_right_comm]
  rcases Nat.lt_or_eq_of_le (Nat.succ_le_of_lt hj) with hlt | heq
  · rw [h.byte (j + 1) hlt]
  · rw [← Nat.succ_eq_add_one, heq, hslen, htlen]

theorem quotedAt {form : QuoteForm} {quote : UInt8} {found : Tag × Nat}
    (hascii : Byte.isAscii quote = true) (hquote : Byte.isLineEnd quote = false) (hp : p < s.len)
    (hs : s.quotedAt form quote p = .ok found) (hq : found.2 ≤ hi) :
    t.quotedAt form quote (p + d) = .ok (found.1, found.2 + d) := by
  obtain ⟨e, he, rfl⟩ := quotedAt_inv hs
  have hinside : p + 1 ≤ hi :=
    Nat.le_trans ((quotedRest_returns h.fit hascii hp).of_eq_ok he).1.le hq
  have hmax := h.add_le_maxOffset hinside
  rw [Source.quotedAt, checkedAdd_eq_ok (Nat.add_right_comm p 1 d ▸ hmax), except_ok_bind,
    Nat.add_right_comm, h.quotedRest hascii hquote hp he hq]
  rfl

theorem textBlockAt {found : Tag × Nat} (hp : p + 3 ≤ s.len)
    (hs : s.textBlockAt p = .ok found) (hq : found.2 ≤ hi)
    (hopen : found.1.runsToEnd = true → s.len ≤ hi → t.len ≤ hi + d) :
    t.textBlockAt (p + d) = .ok (found.1, found.2 + d) := by
  obtain ⟨e, he, rfl⟩ := textBlockAt_inv hs
  have hinside : p + 3 ≤ hi := Nat.le_trans ((textBlockRest_returns h.fit hp).of_eq_ok he).1.le hq
  have hmax := h.add_le_maxOffset hinside
  rw [Source.textBlockAt, checkedAdd_eq_ok (Nat.add_right_comm p 3 d ▸ hmax), except_ok_bind,
    Nat.add_right_comm, h.textBlockRest hp he hq]
  · rfl
  · intro hclosed
    simp only [hclosed] at hopen
    exact hopen rfl

theorem wordAt {found : Tag × Nat} (hp : p < s.len) (hs : s.wordAt p = .ok found)
    (hq : found.2 ≤ hi) : t.wordAt (p + d) = .ok (found.1, found.2 + d) := by
  obtain ⟨q, hword, hs⟩ := bind_eq_ok hs
  cases hs
  unfold Source.wordAt
  rw [Nat.add_right_comm, h.skipWord hp hword hq]
  rfl

theorem wideAt {found : Tag × Nat} (hp : p < hi) (hs : s.wideAt p = .ok found)
    (hq : found.2 ≤ hi) : t.wideAt (p + d) = .ok (found.1, found.2 + d) := by
  have hle := Nat.le_of_lt hp
  have hchar := add_charWidth_le_len (Nat.lt_of_lt_of_le hp h.le_len)
  have hsum := checkedAdd_eq_ok (Nat.le_trans hchar h.fit)
  simp only [Source.wideAt, skipChar, charAt, h.read_left hle, except_ok_bind, hsum,
    except_pure] at hs
  have hsum' : p + Byte.charWidth (s.byte p) ≤ hi →
      checkedAdd (p + d) (Byte.charWidth (s.byte p)) = .ok (p + Byte.charWidth (s.byte p) + d) := by
    intro hnext
    rw [checkedAdd_eq_ok (Nat.add_right_comm _ _ d ▸ h.add_le_maxOffset hnext),
      Nat.add_right_comm]
  simp only [Source.wideAt, skipChar, charAt, h.read_right hle, h.byte p hp, except_ok_bind,
    except_pure, h.char? p hp]
  split at hs
  · rename_i hword
    obtain ⟨q, hskip, hs⟩ := bind_eq_ok hs
    cases hs
    have hnext := ((skipWord_returns hchar).of_eq_ok hskip).le
    rw [hsum' (Nat.le_trans hnext hq), except_ok_bind, if_pos hword, h.skipWord hchar hskip hq]
    rfl
  · rename_i hword
    cases hs
    rw [hsum' hq, except_ok_bind, if_neg hword]

theorem numberAt {found : Tag × Nat} (hdigit : Byte.isDigit (s.byte p) = true)
    (hs : s.numberAt p = .ok found) (hq : found.2 ≤ hi) :
    t.numberAt (p + d) = .ok (found.1, found.2 + d) := by
  obtain ⟨⟨form, stop⟩, hnumber, hs⟩ := bind_eq_ok hs
  cases hs
  unfold Source.numberAt
  rw [h.number hdigit hnumber hq]
  rfl

theorem blockComment (hq : (s.blockComment p).2 ≤ hi)
    (hopen : (s.blockComment p).1.runsToEnd = true → s.len ≤ hi → t.len ≤ hi + d) :
    t.blockComment (p + d) = ((s.blockComment p).1, (s.blockComment p).2 + d) := by
  unfold Source.blockComment at hq hopen ⊢
  rw [Nat.add_right_comm p d 2, Nat.add_right_comm p d 3]
  cases hclose : s.commentClose? (p + 2) with
  | none =>
      simp only [hclose] at hq hopen
      have hend := hopen rfl hq
      have hslen := h.le_len
      have htlen := h.add_le_len
      rw [h.commentClose?_none hq hend hclose]
      simp only [Prod.mk.injEq, true_and]
      omega
  | some stop =>
      simp only [hclose] at hq
      have hle := (commentClose?_reach hclose).1
      rw [h.commentClose?_some hclose hq, h.byte (p + 2) (by omega), h.byte (p + 3) (by omega)]

theorem blockCommentAt {found : Tag × Nat} (hp : p + 2 ≤ s.len)
    (hs : s.blockCommentAt p = .ok found) (hq : found.2 ≤ hi)
    (hopen : found.1.runsToEnd = true → s.len ≤ hi → t.len ≤ hi + d) :
    t.blockCommentAt (p + d) = .ok (found.1, found.2 + d) := by
  rw [blockCommentAt_eq_ok hp] at hs
  cases hs
  have hle : p + 2 ≤ hi := Nat.le_trans (le_blockComment hp) hq
  have hadd := h.add_le_len
  rw [blockCommentAt_eq_ok (by omega), h.blockComment hq hopen]

theorem rule_carriageReturn {found : Tag × Nat} (hp : p + 1 ≤ hi)
    (hb : s.byte p = Byte.carriageReturn) (hs : s.rule p .carriageReturn = .ok found)
    (hq : found.2 ≤ hi) : t.rule (p + d) .carriageReturn = .ok (found.1, found.2 + d) := by
  simp only [Source.rule, Source.skipIf, h.read_left hp, except_ok_bind, except_pure] at hs
  cases hs
  simp only [Source.rule, Source.skipIf, Nat.add_right_comm p d 1, h.read_right hp,
    except_ok_bind, except_pure]
  -- a line feed behind the carriage return belongs to it, so it stands before `hi`
  have hfeed : (t.byte (p + 1 + d) == Byte.lineFeed) = (s.byte (p + 1) == Byte.lineFeed) := by
    rcases Nat.lt_or_eq_of_le hp with hlt | heq
    · rw [h.byte (p + 1) hlt]
    · have hne := h.carriageReturn p heq hb
      rw [heq, beq_eq_false_iff_ne.2 hne]
      symm
      apply Bool.eq_false_iff.2
      intro hacc
      rw [heq, if_pos hacc] at hq
      exact Nat.not_succ_le_self hi hq
  rw [hfeed]
  split
  · rw [Nat.add_right_comm (p + 1) d 1]
  · rfl

theorem rule_substitute {found : Tag × Nat} (hp : p + 1 ≤ hi)
    (hsub : p + 1 = hi → (t.len ≤ hi + d ↔ s.len ≤ hi)) (hs : s.rule p .substitute = .ok found) :
    t.rule (p + d) .substitute = .ok (found.1, found.2 + d) := by
  have hslen := h.le_len
  have htlen := h.add_le_len
  simp only [Source.rule, atEnd_of_le_len (Nat.le_trans hp hslen), except_ok_bind] at hs
  cases hs
  have hend : p + 1 + d = t.len ↔ p + 1 = s.len := by
    rcases Nat.lt_or_eq_of_le hp with hlt | heq
    · omega
    · have hiff := hsub heq
      omega
  simp only [Source.rule, Nat.add_right_comm p d 1]
  rw [atEnd_of_le_len (by omega), decide_eq_decide.2 hend]
  rfl

theorem rule_dot {found : Tag × Nat} (hp : p + 1 ≤ hi) (hb : s.byte p = Byte.dot)
    (hs : s.rule p .dot = .ok found) (hq : found.2 ≤ hi) :
    t.rule (p + d) .dot = .ok (found.1, found.2 + d) := by
  have hlen := Nat.le_trans hp h.le_len
  simp only [Source.rule, h.read_left hp, except_ok_bind] at hs
  simp only [Source.rule]
  rw [Nat.add_right_comm, h.read_right hp, except_ok_bind]
  split at hs
  · rename_i hdigit
    obtain ⟨⟨form, stop⟩, htail, hs⟩ := bind_eq_ok hs
    cases hs
    have hp2 := lt_of_decimalTail h.fit hb hdigit htail
    rw [h.byte (p + 1) (Nat.lt_of_lt_of_le hp2 hq), if_pos hdigit,
      h.decimalTail (Nat.le_of_succ_le hp) htail hq]
    rfl
  · rename_i hdigit
    rw [h.accepts_eq Byte.isDigit (by decide) hp (fun hacc => absurd hacc hdigit), if_neg hdigit]
    exact h.fixedAt hp hs hq

theorem rule_slash {found : Tag × Nat} (hp : p + 1 ≤ hi) (hs : s.rule p .slash = .ok found)
    (hq : found.2 ≤ hi) (hopen : found.1.runsToEnd = true → s.len ≤ hi → t.len ≤ hi + d) :
    t.rule (p + d) .slash = .ok (found.1, found.2 + d) := by
  have hlen := Nat.le_trans hp h.le_len
  simp only [Source.rule, h.read_left hp, except_ok_bind] at hs
  simp only [Source.rule]
  rw [Nat.add_right_comm, h.read_right hp, except_ok_bind]
  split at hs
  · rename_i hline
    cases hs
    have hlt := lt_len_of_accepts (Byte.textClass_eq (b := Byte.slash) rfl rfl) hline
    have hp2 : p + 1 < s.lineEnd (p + 1) := lt_lineEnd hlt (by rw [eq_of_beq hline]; decide)
    rw [h.byte (p + 1) (Nat.lt_of_lt_of_le hp2 hq), if_pos hline, h.lineEnd hlen hq]
    rfl
  · rename_i hline
    rw [h.accepts_eq (· == Byte.slash) (by decide) hp
      (fun hacc => absurd hacc hline), if_neg hline]
    split at hs
    · rename_i hstar
      have hlt := lt_len_of_accepts (Byte.textClass_eq (b := Byte.star) rfl rfl) hstar
      have hp2 : p + 2 ≤ found.2 := by
        rw [blockCommentAt_eq_ok hlt] at hs
        cases hs
        exact le_blockComment hlt
      rw [h.byte (p + 1) (Nat.le_trans hp2 hq), if_pos hstar]
      exact h.blockCommentAt hlt hs hq hopen
    · rename_i hstar
      rw [h.accepts_eq (· == Byte.star) (by decide) hp
        (fun hacc => absurd hacc hstar), if_neg hstar]
      exact h.fixedAt hp hs hq

theorem rule_doubleQuote {found : Tag × Nat} (hp : p + 1 ≤ hi)
    (hs : s.rule p .doubleQuote = .ok found) (hq : found.2 ≤ hi)
    (hopen : found.1.runsToEnd = true → s.len ≤ hi → t.len ≤ hi + d) :
    t.rule (p + d) .doubleQuote = .ok (found.1, found.2 + d) := by
  have hlen := Nat.le_trans hp h.le_len
  have hplain : IsPlain [Byte.doubleQuote, Byte.doubleQuote] := by decide
  simp only [Source.rule, startsWith_eq_ok hplain hlen, except_ok_bind] at hs
  simp only [Source.rule]
  split at hs
  · rename_i hopens
    have hmatch := of_decide_eq_true hopens
    have hlen3 : p + 3 ≤ s.len := (hmatch.reach hplain hlen).le_len
    have hp3 : p + 3 ≤ hi := by
      obtain ⟨e, he, rfl⟩ := textBlockAt_inv hs
      exact Nat.le_trans ((textBlockRest_returns h.fit hlen3).of_eq_ok he).1.le hq
    rw [Nat.add_right_comm, h.startsWith (by decide) hplain hp (fun _ => hp3),
      startsWith_eq_ok hplain hlen, except_ok_bind, if_pos hopens]
    exact h.textBlockAt hlen3 hs hq hopen
  · rename_i hopens
    rw [Nat.add_right_comm, h.startsWith (by decide) hplain hp
      (fun hm => absurd (decide_eq_true hm) hopens), startsWith_eq_ok hplain hlen, except_ok_bind,
      if_neg hopens]
    exact h.quotedAt rfl rfl hlen hs hq

/-- A lexeme that ends before the two sources part is the same in both. -/
theorem rule {found : Tag × Nat} (hp : p < s.len)
    (hs : s.rule p (.ofByte (s.byte p)) = .ok found) (hq : found.2 ≤ hi)
    (hopen : found.1.runsToEnd = true → s.len ≤ hi → t.len ≤ hi + d)
    (hsub : s.byte p = Byte.substitute → p + 1 = hi → (t.len ≤ hi + d ↔ s.len ≤ hi)) :
    t.rule (p + d) (.ofByte (s.byte p)) = .ok (found.1, found.2 + d) := by
  have hadmits := Opening.admits_ofByte (s.byte p)
  have hp1 : p + 1 ≤ hi := Nat.le_trans ((rule_returns h.fit hp).of_eq_ok hs).lt hq
  cases ho : Opening.ofByte (s.byte p) with
  | null =>
      rw [ho] at hs
      cases hs
      simp only [Source.rule, Nat.add_right_comm, except_pure]
  | blank =>
      rw [ho] at hs
      obtain ⟨q, hblank, hs⟩ := bind_eq_ok hs
      cases hs
      simp only [Source.rule]
      rw [h.skipWhile Byte.textClass_isBlank (by decide) (Nat.le_of_lt hp) hblank hq]
      rfl
  | carriageReturn =>
      rw [ho] at hs hadmits
      exact h.rule_carriageReturn hp1 (eq_of_beq hadmits) hs hq
  | lineFeed =>
      rw [ho] at hs
      cases hs
      simp only [Source.rule, Nat.add_right_comm, except_pure]
  | substitute =>
      rw [ho] at hs hadmits
      exact h.rule_substitute hp1 (hsub (eq_of_beq hadmits)) hs
  | word =>
      rw [ho] at hs
      exact h.wordAt hp hs hq
  | digit =>
      rw [ho] at hs hadmits
      exact h.numberAt hadmits hs hq
  | dot =>
      rw [ho] at hs hadmits
      exact h.rule_dot hp1 (eq_of_beq hadmits) hs hq
  | slash =>
      rw [ho] at hs
      exact h.rule_slash hp1 hs hq hopen
  | doubleQuote =>
      rw [ho] at hs
      exact h.rule_doubleQuote hp1 hs hq hopen
  | singleQuote =>
      rw [ho] at hs
      exact h.quotedAt rfl rfl hp hs hq
  | wide =>
      rw [ho] at hs
      exact h.wideAt hp1 hs hq
  | other =>
      rw [ho] at hs
      exact h.fixedAt hp1 hs hq

theorem scan_some {lexeme : Lexeme} (hs : s.scan p = .ok (some lexeme))
    (hq : p + lexeme.len ≤ hi)
    (hopen : lexeme.tag.runsToEnd = true → s.len ≤ hi → t.len ≤ hi + d)
    (hsub : s.byte p = Byte.substitute → p + 1 = hi → (t.len ≤ hi + d ↔ s.len ≤ hi)) :
    t.scan (p + d) = .ok (some lexeme) := by
  have hlt : p < hi := Nat.lt_of_lt_of_le (Nat.lt_add_of_pos_right lexeme.len_pos) hq
  have hp := Nat.lt_of_lt_of_le hlt h.le_len
  have hmax := h.add_le_maxOffset hq
  apply (scan_eq_some_iff (h.lt_len_right hlt)).2
  rw [h.byte p hlt, h.rule hp ((scan_eq_some_iff hp).1 hs).1 hq hopen hsub]
  exact ⟨by rw [Nat.add_right_comm], by omega⟩

end AgreesInside

theorem AgreesBelow.scan_some {s t : Source} {d hi p : Nat} {lexeme : Lexeme}
    (h : s.AgreesBelow t d hi) (hs : s.scan p = .ok (some lexeme)) (hq : p + lexeme.len ≤ hi)
    (hopen : lexeme.tag.runsToEnd = true → s.len ≤ hi → t.len ≤ hi + d) :
    t.scan (p + d) = .ok (some lexeme) :=
  h.toAgreesInside.scan_some hs hq hopen fun hb heq => h.substitute p heq hb

namespace ReadsAs

variable {s t : Source} {d hi p : Nat} (h : s.ReadsAs t d hi)

include h

theorem scan_some {lexeme : Lexeme} (hs : s.scan p = .ok (some lexeme))
    (hq : p + lexeme.len ≤ hi) : t.scan (p + d) = .ok (some lexeme) :=
  h.agreesBelow.scan_some hs hq fun _ => h.len_le

/-- Where the two sources part, both have a semicolon or both end. -/
theorem scan_hi :
    t.scan (hi + d) = s.scan hi ∧
      ∀ lexeme, s.scan hi = .ok (some lexeme) →
        lexeme.tag = .separator .semicolon ∧ lexeme.len = 1 := by
  rcases Nat.lt_or_ge hi s.len with hlt | hge
  · have hs := scan_of_semicolon h.fit (h.semicolon hlt)
    have ht := scan_of_semicolon h.fit_right ((h.byte hi (Nat.le_refl hi)).trans (h.semicolon hlt))
    rw [hs, ht]
    refine ⟨rfl, ?_⟩
    intro lexeme hlexeme
    cases hlexeme
    exact ⟨rfl, rfl⟩
  · obtain ⟨hslen, htlen⟩ := h.len_eq hge
    rw [← htlen, ← hslen, scan_len, scan_len]
    refine ⟨rfl, ?_⟩
    intro lexeme hlexeme
    cases hlexeme

end ReadsAs

end Source

end JavaLex
