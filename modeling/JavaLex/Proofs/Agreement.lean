import JavaLex.Proofs.Scanning

/-! Sources that read alike, from two offsets on and up to an offset where they part. What moves
through the first without passing that offset moves in the same way through the second, if the
second has a byte there that nothing runs over: a line feed, a semicolon, the end of the text. -/

namespace JavaLex

/-- The byte behind every text, a line feed, a semicolon. -/
def Byte.dividers : List UInt8 := [0, lineFeed, 59]

/-- What holds of every byte of a list is decided along the list, not over all bytes there are. -/
instance Byte.decidableForallMem (bytes : List UInt8) (P : UInt8 → Prop) [DecidablePred P] :
    Decidable (∀ b ∈ bytes, P b) :=
  List.decidableBAll P bytes

namespace Source

/-- The text or its line ends at `p`. -/
def BreaksAt (s : Source) (p : Nat) : Prop := s.len ≤ p ∨ Byte.isLineEnd (s.byte p) = true

theorem breaksAt_iff {s : Source} {p : Nat} :
    (decide (s.len ≤ p) || Byte.isLineEnd (s.byte p)) = true ↔ s.BreaksAt p := by
  rw [Bool.or_eq_true, decide_eq_true_eq, BreaksAt]

theorem lineEnd_eq_iff {s : Source} {p q : Nat} (hp : p ≤ s.len) :
    s.lineEnd p = q ↔
      p ≤ q ∧ q ≤ s.len ∧ s.BreaksAt q ∧
        ∀ i, p ≤ i → i < q → Byte.isLineEnd (s.byte i) = false := by
  unfold lineEnd leap
  cases hseek : s.seek? (fun i => Byte.isLineEnd (s.byte i)) p with
  | none =>
      have hnone := seek?_eq_none_iff.1 hseek
      rw [Option.getD_none]
      constructor
      · rintro rfl
        exact ⟨hp, Nat.le_refl _, .inl (Nat.le_refl _), hnone⟩
      · rintro ⟨hpq, hq, hend | hline, -⟩
        · exact Nat.le_antisymm hend hq
        · rcases Nat.lt_or_eq_of_le hq with hlt | heq
          · rw [hnone q hpq hlt] at hline
            cases hline
          · exact heq.symm
  | some r =>
      obtain ⟨hpr, hr, hline, hbefore⟩ := seek?_eq_some_iff.1 hseek
      rw [Option.getD_some]
      constructor
      · rintro rfl
        exact ⟨hpr, Nat.le_of_lt hr, .inr hline, hbefore⟩
      · rintro ⟨hpq, hq, hbreak, hbefore'⟩
        apply Nat.le_antisymm
        · refine Nat.le_of_not_lt fun hqr => ?_
          rcases hbreak with hend | hline'
          · omega
          · rw [hbefore q hpq hqr] at hline'
            cases hline'
        · refine Nat.le_of_not_lt fun hrq => ?_
          rw [hbefore' r hpr hrq] at hline
          cases hline

theorem lt_lineEnd {s : Source} {p : Nat} (hp : p < s.len)
    (hb : Byte.isLineEnd (s.byte p) = false) : p < s.lineEnd p := by
  obtain ⟨hle, -, hbreak, -⟩ := (lineEnd_eq_iff (Nat.le_of_lt hp)).1 rfl
  refine Nat.lt_of_le_of_ne hle ?_
  intro heq
  rw [← heq] at hbreak
  rcases hbreak with hend | hline
  · exact Nat.not_le_of_lt hp hend
  · rw [hb] at hline
    cases hline

theorem decimalTail_inv {s : Source} {p : Nat} {found : NumberForm × Nat}
    (hs : s.decimalTail p = .ok found) :
    ∃ f q, s.skipFraction isDecimalPart p = .ok f ∧ s.skipExponent isDecimalMark f = .ok q ∧
      q ≤ found.2 := by
  obtain ⟨f, hf, hs⟩ := bind_eq_ok hs
  obtain ⟨q, hq, hs⟩ := bind_eq_ok hs
  obtain ⟨b, -, hs⟩ := bind_eq_ok hs
  refine ⟨f, q, hf, hq, ?_⟩
  split at hs
  · cases hs
    exact Nat.le_succ q
  · split at hs
    · cases hs
      exact Nat.le_refl q
    · split at hs
      · cases hs
        exact Nat.le_succ q
      · cases hs
        exact Nat.le_refl q

theorem lt_of_decimalTail {s : Source} {p : Nat} {found : NumberForm × Nat}
    (hfit : s.len ≤ maxOffset) (hb : s.byte p = Byte.dot)
    (hdigit : Byte.isDigit (s.byte (p + 1)) = true) (hs : s.decimalTail p = .ok found) :
    p + 1 < found.2 := by
  obtain ⟨f, q, hf, hq, hle⟩ := decimalTail_inv hs
  have hdot : (s.byte p == Byte.dot) = true := beq_iff_eq.2 hb
  have hlt := lt_len_of_accepts textClass_dot hdot
  simp only [skipFraction, read_of_le_len (Nat.le_of_lt hlt), except_ok_bind, if_pos hdot] at hf
  obtain ⟨hreach, hrun⟩ := (skipWhile_returns hfit textClass_isDecimalPart hlt).of_eq_ok hf
  have hne : p + 1 ≠ f := by
    intro heq
    have hrefused := hrun.refused
    rw [← heq, isDecimalPart, hdigit] at hrefused
    cases hrefused
  have hexp := ((skipExponent_returns hfit textClass_isDecimalMark hreach.le_len).of_eq_ok hq).le
  have := hreach.le
  omega

/-- Up to `hi` the first source reads as the second one does from `d` on. From there on the first
is free, and the second goes on with a divider. -/
structure AgreesInside (s t : Source) (d hi : Nat) : Prop where
  fit : s.len ≤ maxOffset
  fit_right : t.len ≤ maxOffset
  le_len : hi ≤ s.len
  add_le_len : hi + d ≤ t.len
  byte : ∀ i, i < hi → t.byte (i + d) = s.byte i
  char? : ∀ i, i < hi → t.char? (i + d) = s.char? i
  divided : t.byte (hi + d) ∈ Byte.dividers
  breaks : s.BreaksAt hi → t.BreaksAt (hi + d)
  /-- A last carriage return does not get a line feed. -/
  carriageReturn : ∀ p, p + 1 = hi → s.byte p = Byte.carriageReturn →
    t.byte (hi + d) ≠ Byte.lineFeed

/-- Whether a SUB is a blank depends on the end of the text, so the two have to agree on that, too. -/
structure AgreesBelow (s t : Source) (d hi : Nat) : Prop extends s.AgreesInside t d hi where
  /-- A last SUB stands at the end of both texts or of neither. -/
  substitute : ∀ p, p + 1 = hi → s.byte p = Byte.substitute → (t.len ≤ hi + d ↔ s.len ≤ hi)

namespace AgreesInside

variable {s t : Source} {d hi p q : Nat} (h : s.AgreesInside t d hi)

include h

theorem read_left (hp : p ≤ hi) : s.read p = .ok (s.byte p) :=
  read_of_le_len (Nat.le_trans hp h.le_len)

theorem read_right (hp : p ≤ hi) : t.read (p + d) = .ok (t.byte (p + d)) :=
  read_of_le_len (Nat.le_trans (Nat.add_le_add_right hp d) h.add_le_len)

theorem add_le_maxOffset (hp : p ≤ hi) : p + d ≤ maxOffset :=
  Nat.le_trans (Nat.add_le_add_right hp d) (Nat.le_trans h.add_le_len h.fit_right)

theorem lt_len_right (hp : p < hi) : p + d < t.len :=
  Nat.lt_of_lt_of_le (Nat.add_lt_add_right hp d) h.add_le_len

/-- A byte that is taken lies before `hi`, so a divider at `hi` makes no difference. -/
theorem accepts_eq (accepts : UInt8 → Bool) (hr : ∀ b ∈ Byte.dividers, accepts b = false)
    (hp : p ≤ hi) (hlt : accepts (s.byte p) = true → p < hi) :
    accepts (t.byte (p + d)) = accepts (s.byte p) := by
  rcases Nat.lt_or_eq_of_le hp with hlt' | heq
  · rw [h.byte p hlt']
  · rw [heq, hr _ h.divided]
    symm
    apply Bool.eq_false_iff.2
    intro hacc
    rw [heq] at hlt
    exact Nat.lt_irrefl hi (hlt hacc)

theorem breaksAt (hp : p ≤ hi) (hs : s.BreaksAt p) : t.BreaksAt (p + d) := by
  rcases Nat.lt_or_eq_of_le hp with hlt | rfl
  · have hlen := h.le_len
    rcases hs with hend | hline
    · omega
    · exact .inr (by rw [h.byte p hlt]; exact hline)
  · exact h.breaks hs

theorem not_breaksAt (hp : p < hi) (hs : ¬ s.BreaksAt p) : ¬ t.BreaksAt (p + d) := by
  have hlt := h.lt_len_right hp
  rintro (hend | hline)
  · omega
  · rw [h.byte p hp] at hline
    exact hs (.inr hline)

theorem seek?_some {stops : UInt8 → Bool} (hq : q < hi)
    (hs : s.seek? (fun i => stops (s.byte i)) p = some q) :
    t.seek? (fun i => stops (t.byte i)) (p + d) = some (q + d) := by
  obtain ⟨hle, hlt, hstop, hbefore⟩ := seek?_eq_some_iff.1 hs
  refine seek?_eq_some_iff.2 ⟨Nat.add_le_add_right hle d, h.lt_len_right hq, ?_, ?_⟩
  · rw [h.byte q hq]
    exact hstop
  · intro i hpi hiq
    obtain ⟨j, rfl⟩ := Nat.exists_eq_add_of_le' (Nat.le_trans (Nat.le_add_left d p) hpi)
    rw [h.byte j (by omega)]
    exact hbefore j (by omega) (by omega)

theorem seek?_none {f g : Nat → Bool} (heq : ∀ j, j < hi → g (j + d) = f j)
    (hlen : s.len ≤ hi) (hend : t.len ≤ hi + d) (hs : s.seek? f p = none) :
    t.seek? g (p + d) = none := by
  have hle := h.le_len
  refine seek?_eq_none_iff.2 ?_
  intro i hpi hi'
  obtain ⟨j, rfl⟩ := Nat.exists_eq_add_of_le' (Nat.le_trans (Nat.le_add_left d p) hpi)
  rw [heq j (by omega)]
  exact seek?_eq_none_iff.1 hs j (by omega) (by omega)

theorem lineEnd (hp : p ≤ s.len) (hq : s.lineEnd p ≤ hi) :
    t.lineEnd (p + d) = s.lineEnd p + d := by
  obtain ⟨hle, -, hbreak, hbefore⟩ := (lineEnd_eq_iff hp).1 rfl
  have hadd := h.add_le_len
  apply (lineEnd_eq_iff (by omega)).2
  refine ⟨Nat.add_le_add_right hle d, by omega, h.breaksAt hq hbreak, ?_⟩
  intro i hpi hiq
  obtain ⟨j, rfl⟩ := Nat.exists_eq_add_of_le' (Nat.le_trans (Nat.le_add_left d p) hpi)
  rw [h.byte j (by omega)]
  exact hbefore j (by omega) (by omega)

theorem run {accepts : UInt8 → Bool} (hr : ∀ b ∈ Byte.dividers, accepts b = false)
    (hs : s.Run accepts p q) (hq : q ≤ hi) : t.Run accepts (p + d) (q + d) := by
  refine ⟨Nat.add_le_add_right hs.le d, ?_, ?_⟩
  · intro i hpi hiq
    obtain ⟨j, rfl⟩ := Nat.exists_eq_add_of_le' (Nat.le_trans (Nat.le_add_left d p) hpi)
    rw [h.byte j (by omega)]
    exact hs.accepted j (by omega) (by omega)
  · rw [h.accepts_eq accepts hr hq (fun hacc => by rw [hs.refused] at hacc; cases hacc)]
    exact hs.refused

theorem skipWhile {accepts : UInt8 → Bool} (hc : Byte.TextClass accepts)
    (hr : ∀ b ∈ Byte.dividers, accepts b = false) (hp : p ≤ s.len)
    (hs : s.skipWhile accepts p = .ok q) (hq : q ≤ hi) :
    t.skipWhile accepts (p + d) = .ok (q + d) := by
  have hrun := ((skipWhile_returns h.fit hc hp).of_eq_ok hs).2
  exact skipWhile_eq_ok h.fit_right hc (h.run hr hrun hq)
    (Nat.le_trans (Nat.add_le_add_right hq d) h.add_le_len)

theorem skipIf {accepts : UInt8 → Bool} (hr : ∀ b ∈ Byte.dividers, accepts b = false)
    (hp : p ≤ hi) (hs : s.skipIf accepts p = .ok q) (hq : q ≤ hi) :
    t.skipIf accepts (p + d) = .ok (q + d) := by
  simp only [Source.skipIf, h.read_left hp, h.read_right hp, except_ok_bind, except_pure] at hs ⊢
  cases hs
  rw [h.accepts_eq accepts hr hp]
  · split
    · rw [Nat.add_right_comm]
    · rfl
  · intro hacc
    rw [if_pos hacc] at hq
    exact hq

theorem matches_iff {expected : List UInt8} (he : ∀ b ∈ expected, b ∉ Byte.dividers)
    (hp : p ≤ hi) :
    t.Matches expected (p + d) ↔ s.Matches expected p ∧ p + expected.length ≤ hi := by
  induction expected generalizing p with
  | nil => exact ⟨fun _ => ⟨trivial, hp⟩, fun _ => trivial⟩
  | cons b rest ih =>
      have hb := he b List.mem_cons_self
      have hrest : ∀ c ∈ rest, c ∉ Byte.dividers := fun c hc => he c (List.mem_cons_of_mem b hc)
      rcases Nat.lt_or_eq_of_le hp with hlt | rfl
      · simp only [Matches, List.length_cons]
        rw [h.byte p hlt, Nat.add_right_comm, ih hrest hlt, and_assoc,
          Nat.add_right_comm p 1, Nat.add_assoc]
      · simp only [Matches, List.length_cons]
        constructor
        · rintro ⟨hbyte, -⟩
          exact absurd (hbyte ▸ h.divided) hb
        · rintro ⟨-, hle⟩
          omega

theorem startsWith {expected : List UInt8} (he : ∀ b ∈ expected, b ∉ Byte.dividers)
    (hplain : IsPlain expected) (hp : p ≤ hi)
    (hfits : s.Matches expected p → p + expected.length ≤ hi) :
    t.startsWith expected (p + d) = s.startsWith expected p := by
  rw [startsWith_eq_ok hplain (Nat.le_trans hp h.le_len),
    startsWith_eq_ok hplain (Nat.le_trans (Nat.add_le_add_right hp d) h.add_le_len)]
  congr 1
  apply decide_eq_decide.2
  rw [h.matches_iff he hp]
  exact ⟨And.left, fun hm => ⟨hm, hfits hm⟩⟩

/-- Only the first byte of a fixed text can be a divider, the semicolon. -/
theorem matches_entry_iff {entry : List UInt8 × Tag} (hentry : entry ∈ Tag.longestFirst)
    (hp : p < hi) :
    t.Matches entry.1 (p + d) ↔ s.Matches entry.1 p ∧ p + entry.1.length ≤ hi := by
  have htails : ∀ entry ∈ Tag.longestFirst, ∀ b ∈ entry.1.tail, b ∉ Byte.dividers := by
    decide +kernel
  obtain ⟨bytes, tag⟩ := entry
  cases bytes with
  | nil => exact ⟨fun _ => ⟨trivial, Nat.le_of_lt hp⟩, fun _ => trivial⟩
  | cons b rest =>
      have htail : ∀ c ∈ rest, c ∉ Byte.dividers := htails _ hentry
      simp only [Matches, List.length_cons]
      rw [h.byte p hp, Nat.add_right_comm, h.matches_iff htail hp, and_assoc,
        Nat.add_right_comm p 1, Nat.add_assoc]

theorem fixed?_some {entry : List UInt8 × Tag} (hp : p < hi) (hs : s.fixed? p = some entry)
    (hq : p + entry.1.length ≤ hi) : t.fixed? (p + d) = some entry := by
  obtain ⟨hfits, before, after, hsplit, hbefore⟩ := List.find?_eq_some_iff_append.1 hs
  refine List.find?_eq_some_iff_append.2 ⟨?_, before, after, hsplit, ?_⟩
  · have hmem := List.mem_of_find?_eq_some hs
    exact decide_eq_true ((h.matches_entry_iff hmem hp).2 ⟨of_decide_eq_true hfits, hq⟩)
  · intro other hother
    have hmem : other ∈ Tag.longestFirst := hsplit ▸ List.mem_append_left _ hother
    have hne := hbefore other hother
    simp only [Bool.not_eq_true', decide_eq_false_iff_not] at hne ⊢
    exact fun hm => hne ((h.matches_entry_iff hmem hp).1 hm).1

theorem fixed?_none (hp : p < hi) (hs : s.fixed? p = none) : t.fixed? (p + d) = none := by
  refine List.find?_eq_none.2 ?_
  intro entry hentry
  have hne := List.find?_eq_none.1 hs entry hentry
  simp only [decide_eq_true_eq] at hne ⊢
  exact fun hm => hne ((h.matches_entry_iff hentry hp).1 hm).1

theorem fixedAt {found : Tag × Nat} (hp : p < hi) (hs : s.fixedAt p = .ok found)
    (hq : found.2 ≤ hi) : t.fixedAt (p + d) = .ok (found.1, found.2 + d) := by
  rw [fixedAt_eq_ok (Nat.le_trans (Nat.le_of_lt hp) h.le_len)] at hs
  rw [fixedAt_eq_ok (Nat.le_of_lt (h.lt_len_right hp))]
  cases hfixed : s.fixed? p with
  | none =>
      rw [hfixed] at hs
      cases hs
      simp only [h.fixed?_none hp hfixed, Nat.add_right_comm]
  | some entry =>
      rw [hfixed] at hs
      cases hs
      simp only [h.fixed?_some hp hfixed hq, Nat.add_right_comm]

theorem skipFraction {digits : UInt8 → Bool} (hd : Byte.TextClass digits)
    (hr : ∀ b ∈ Byte.dividers, digits b = false) (hp : p ≤ hi)
    (hs : s.skipFraction digits p = .ok q) (hq : q ≤ hi) :
    t.skipFraction digits (p + d) = .ok (q + d) := by
  have hdots : (s.byte p == Byte.dot) = true → p < q :=
    ((skipFraction_returns h.fit hd (Nat.le_trans hp h.le_len)).of_eq_ok hs).2
  have hdot' := h.accepts_eq (· == Byte.dot) (by decide) hp
    (fun hdot => Nat.lt_of_lt_of_le (hdots hdot) hq)
  simp only [Source.skipFraction, h.read_left hp, h.read_right hp, except_ok_bind,
    except_pure, hdot'] at hs ⊢
  by_cases hdot : (s.byte p == Byte.dot) = true
  · rw [if_pos hdot] at hs ⊢
    rw [Nat.add_right_comm]
    exact h.skipWhile hd hr (lt_len_of_accepts textClass_dot hdot) hs hq
  · rw [if_neg hdot] at hs ⊢
    cases hs
    rfl

theorem skipExponent {mark : UInt8 → Bool} (hm : Byte.TextClass mark)
    (hr : ∀ b ∈ Byte.dividers, mark b = false) (hp : p ≤ hi)
    (hs : s.skipExponent mark p = .ok q) (hq : q ≤ hi) :
    t.skipExponent mark (p + d) = .ok (q + d) := by
  simp only [Source.skipExponent, h.read_left hp, h.read_right hp, except_ok_bind,
    except_pure] at hs ⊢
  by_cases hmark : mark (s.byte p) = true
  · rw [if_pos hmark] at hs
    obtain ⟨r, hsign, hs⟩ := bind_eq_ok hs
    have hp1 : p + 1 ≤ s.len := lt_len_of_accepts hm hmark
    have hreach := (skipIf_returns textClass_isSign hp1).of_eq_ok hsign
    have hrun := ((skipWhile_returns h.fit textClass_isDecimalPart hreach.le_len).of_eq_ok hs).1
    have hrhi : r ≤ hi := Nat.le_trans hrun.le hq
    have hp1hi : p + 1 ≤ hi := Nat.le_trans hreach.le hrhi
    rw [h.byte p hp1hi, if_pos hmark, Nat.add_right_comm, h.skipIf (by decide) hp1hi hsign hrhi,
      except_ok_bind]
    exact h.skipWhile textClass_isDecimalPart (by decide) hreach.le_len hs hq
  · rw [h.accepts_eq mark hr hp (fun hmark' => absurd hmark' hmark)]
    rw [if_neg hmark] at hs ⊢
    cases hs
    rfl

theorem decimalTail {found : NumberForm × Nat} (hp : p ≤ hi) (hs : s.decimalTail p = .ok found)
    (hq : found.2 ≤ hi) : t.decimalTail (p + d) = .ok (found.1, found.2 + d) := by
  obtain ⟨f, q, hf, he, hle⟩ := decimalTail_inv hs
  have hpf := ((skipFraction_returns h.fit textClass_isDecimalPart
    (Nat.le_trans hp h.le_len)).of_eq_ok hf).1
  have hfq := (skipExponent_returns h.fit textClass_isDecimalMark hpf.le_len).of_eq_ok he
  have hqhi : q ≤ hi := Nat.le_trans hle hq
  simp only [Source.decimalTail, hf, he, read_of_le_len hfq.le_len, except_ok_bind] at hs
  unfold Source.decimalTail
  rw [h.skipFraction textClass_isDecimalPart (by decide) hp hf (Nat.le_trans hfq.le hqhi),
    except_ok_bind, h.skipExponent textClass_isDecimalMark (by decide)
      (Nat.le_trans hfq.le hqhi) he hqhi, except_ok_bind, h.read_right hqhi, except_ok_bind]
  simp only [Nat.add_right_comm q d 1, ne_eq, Nat.add_right_cancel_iff]
  by_cases hfloat : isFloatSuffix (s.byte q) = true
  · rw [if_pos hfloat] at hs
    cases hs
    rw [h.byte q hq, if_pos hfloat]
    rfl
  · rw [h.accepts_eq isFloatSuffix (by decide) hqhi (fun hacc => absurd hacc hfloat)]
    rw [if_neg hfloat] at hs ⊢
    by_cases heq : q = p
    · rw [if_neg (fun hne => hne heq)] at hs ⊢
      by_cases hlong : isLongSuffix (s.byte q) = true
      · rw [if_pos hlong] at hs
        cases hs
        rw [h.byte q hq, if_pos hlong]
        rfl
      · rw [h.accepts_eq isLongSuffix (by decide) hqhi (fun hacc => absurd hacc hlong)]
        rw [if_neg hlong] at hs ⊢
        cases hs
        rfl
    · rw [if_pos heq] at hs ⊢
      cases hs
      rfl

theorem hexTail {found : NumberForm × Nat} (hp : p ≤ s.len) (hs : s.hexTail p = .ok found)
    (hq : found.2 ≤ hi) : t.hexTail (p + d) = .ok (found.1, found.2 + d) := by
  obtain ⟨n, hn, hs⟩ := bind_eq_ok hs
  obtain ⟨f, hf, hs⟩ := bind_eq_ok hs
  obtain ⟨q, he, hs⟩ := bind_eq_ok hs
  have hpn := ((skipWhile_returns h.fit textClass_isHexPart hp).of_eq_ok hn).1
  have hnf := ((skipFraction_returns h.fit textClass_isHexPart hpn.le_len).of_eq_ok hf).1
  have hfq := (skipExponent_returns h.fit textClass_isBinaryMark hnf.le_len).of_eq_ok he
  have hsuffix : q ≤ hi →
      (if q + d = n + d then do pure (.hexInt, ← t.skipIf isLongSuffix (q + d))
        else do pure (.hexFloat, ← t.skipIf isFloatSuffix (q + d))) =
        (.ok (found.1, found.2 + d) : Except Fault _) := by
    intro hqhi
    simp only [Nat.add_right_cancel_iff]
    split at hs
    · obtain ⟨r, hr, hs⟩ := bind_eq_ok hs
      cases hs
      rw [if_pos (by assumption), h.skipIf (by decide) hqhi hr hq]
      rfl
    · obtain ⟨r, hr, hs⟩ := bind_eq_ok hs
      cases hs
      rw [if_neg (by assumption), h.skipIf (by decide) hqhi hr hq]
      rfl
  have hqhi : q ≤ hi := by
    refine Nat.le_trans ?_ hq
    split at hs
    · obtain ⟨r, hr, hs⟩ := bind_eq_ok hs
      cases hs
      exact ((skipIf_returns textClass_isLongSuffix hfq.le_len).of_eq_ok hr).le
    · obtain ⟨r, hr, hs⟩ := bind_eq_ok hs
      cases hs
      exact ((skipIf_returns textClass_isFloatSuffix hfq.le_len).of_eq_ok hr).le
  have hfhi := Nat.le_trans hfq.le hqhi
  unfold Source.hexTail
  rw [h.skipWhile textClass_isHexPart (by decide) hp hn (Nat.le_trans hnf.le hfhi),
    except_ok_bind, h.skipFraction textClass_isHexPart (by decide) (Nat.le_trans hnf.le hfhi) hf
      hfhi, except_ok_bind, h.skipExponent textClass_isBinaryMark (by decide) hfhi he hqhi,
    except_ok_bind]
  exact hsuffix hqhi

theorem binaryTail {found : NumberForm × Nat} (hp : p ≤ s.len)
    (hs : s.binaryTail p = .ok found) (hq : found.2 ≤ hi) :
    t.binaryTail (p + d) = .ok (found.1, found.2 + d) := by
  obtain ⟨n, hn, hs⟩ := bind_eq_ok hs
  obtain ⟨q, hl, hs⟩ := bind_eq_ok hs
  cases hs
  have hpn := ((skipWhile_returns h.fit textClass_isBinaryPart hp).of_eq_ok hn).1
  have hnq := (skipIf_returns textClass_isLongSuffix hpn.le_len).of_eq_ok hl
  have hnhi := Nat.le_trans hnq.le hq
  unfold Source.binaryTail
  rw [h.skipWhile textClass_isBinaryPart (by decide) hp hn hnhi, except_ok_bind,
    h.skipIf (by decide) hnhi hl hq]
  rfl

/-- The letter of a prefix is read behind the digit it belongs to, and stands before `hi` if the
digits behind it do. -/
theorem prefixed_eq (lower : UInt8) (hr : ∀ b ∈ Byte.dividers, Byte.isEither lower b = false)
    (hp : p + 1 ≤ hi)
    (hlt : (s.byte p == Byte.zero && Byte.isEither lower (s.byte (p + 1))) = true → p + 2 ≤ hi) :
    (t.byte (p + d) == Byte.zero && Byte.isEither lower (t.byte (p + 1 + d))) =
      (s.byte p == Byte.zero && Byte.isEither lower (s.byte (p + 1))) := by
  rw [h.byte p hp]
  by_cases hzero : (s.byte p == Byte.zero) = true
  · rw [hzero, Bool.true_and] at hlt
    rw [hzero, Bool.true_and, Bool.true_and]
    exact h.accepts_eq (Byte.isEither lower) hr hp hlt
  · rw [Bool.eq_false_iff.2 hzero, Bool.false_and, Bool.false_and]

theorem number {found : NumberForm × Nat} (hdigit : Byte.isDigit (s.byte p) = true)
    (hs : s.number p = .ok found) (hq : found.2 ≤ hi) :
    t.number (p + d) = .ok (found.1, found.2 + d) := by
  have hlt := lt_len_of_accepts Byte.textClass_isDigit hdigit
  have hp1 : p + 1 ≤ hi := Nat.le_trans ((number_returns h.fit hdigit).of_eq_ok hs).1 hq
  have hp := Nat.le_of_succ_le hp1
  have hmarker : ∀ lower : UInt8, Byte.TextClass (Byte.isEither lower) →
      (s.byte p == Byte.zero && Byte.isEither lower (s.byte (p + 1))) = true → p + 2 ≤ s.len :=
    fun lower hl hletter => lt_len_of_accepts hl (Bool.and_eq_true_iff.1 hletter).2
  have hhexed := hmarker 120 (.of_forall rfl (by decide +kernel))
  have hbinned := hmarker 98 (.of_forall rfl (by decide +kernel))
  simp only [Source.number, h.read_left hp, h.read_left hp1, except_ok_bind] at hs
  unfold Source.number
  simp only [Nat.add_right_comm p d, h.read_right hp, h.read_right hp1, except_ok_bind]
  have hhex' := h.prefixed_eq (p := p) 120 (by decide) hp1
  have hbin' := h.prefixed_eq (p := p) 98 (by decide) hp1
  by_cases hhex : (s.byte p == Byte.zero && Byte.isEither 120 (s.byte (p + 1))) = true
  · rw [if_pos hhex] at hs
    have hp2 := ((hexTail_returns h.fit (hhexed hhex)).of_eq_ok hs).le
    rw [hhex' (fun _ => Nat.le_trans hp2 hq), if_pos hhex]
    exact h.hexTail (hhexed hhex) hs hq
  · rw [hhex' (fun hacc => absurd hacc hhex)]
    rw [if_neg hhex] at hs ⊢
    by_cases hbin : (s.byte p == Byte.zero && Byte.isEither 98 (s.byte (p + 1))) = true
    · rw [if_pos hbin] at hs
      have hp2 := ((binaryTail_returns h.fit (hbinned hbin)).of_eq_ok hs).le
      rw [hbin' (fun _ => Nat.le_trans hp2 hq), if_pos hbin]
      exact h.binaryTail (hbinned hbin) hs hq
    · rw [hbin' (fun hacc => absurd hacc hbin)]
      rw [if_neg hbin] at hs ⊢
      obtain ⟨q, hdigits, hs⟩ := bind_eq_ok hs
      have hreach := ((skipWhile_returns h.fit textClass_isDecimalPart hlt).of_eq_ok hdigits).1
      have hqhi : q ≤ hi :=
        Nat.le_trans ((decimalTail_returns h.fit hreach.le_len).of_eq_ok hs).1.le hq
      rw [h.skipWhile textClass_isDecimalPart (by decide) hlt hdigits hqhi, except_ok_bind]
      exact h.decimalTail hqhi hs hq

end AgreesInside

/-- From its start up to `hi`, the first source reads as the second one does from `d` on. -/
structure ReadsAs (s t : Source) (d hi : Nat) : Prop where
  fit : s.len ≤ maxOffset
  fit_right : t.len ≤ maxOffset
  le_len : hi ≤ s.len
  add_le_len : hi + d ≤ t.len
  /-- The end of the one text is the end of the other. -/
  len_le : s.len ≤ hi → t.len ≤ hi + d
  byte : ∀ i, i ≤ hi → t.byte (i + d) = s.byte i
  char? : ∀ i, i ≤ hi → t.char? (i + d) = s.char? i
  slice? : ∀ i j, j ≤ hi + 1 → t.slice? (i + d) (j + d) = s.slice? i j
  semicolon : hi < s.len → s.byte hi = 59

theorem readsAs_left {a b : String} {hi : Nat} (hfit : len ⟨a ++ b⟩ ≤ maxOffset)
    (hhi : hi + 1 = a.utf8ByteSize) (hb : byte ⟨a⟩ hi = 59) :
    ReadsAs ⟨a ++ b⟩ ⟨a⟩ 0 hi := by
  have hlen : len ⟨a ++ b⟩ = a.utf8ByteSize + b.utf8ByteSize := String.utf8ByteSize_append
  have hleft : len ⟨a⟩ = a.utf8ByteSize := rfl
  refine ⟨hfit, by omega, by omega, by omega, ?_, ?_, ?_, ?_, ?_⟩
  · intro hend
    omega
  · intro i hi'
    exact (byte_append_left (by omega)).symm
  · intro i hi'
    exact (char?_append_left (by omega)).symm
  · intro i j hj
    exact (slice?_append_left (by omega)).symm
  · intro _
    rw [byte_append_left (by omega)]
    exact hb

theorem readsAs_right {a b : String} (hfit : len ⟨a ++ b⟩ ≤ maxOffset) :
    ReadsAs ⟨b⟩ ⟨a ++ b⟩ a.utf8ByteSize b.utf8ByteSize := by
  have hlen : len ⟨a ++ b⟩ = a.utf8ByteSize + b.utf8ByteSize := String.utf8ByteSize_append
  have hright : len ⟨b⟩ = b.utf8ByteSize := rfl
  refine ⟨by omega, hfit, by omega, by omega, ?_, ?_, ?_, ?_, ?_⟩
  · intro _
    omega
  · intro i _
    exact byte_append_right a b i
  · intro i _
    exact char?_append_right a b i
  · intro i j _
    exact slice?_append_right a b i j
  · intro hlt
    omega

namespace ReadsAs

variable {s t : Source} {d hi p : Nat} (h : s.ReadsAs t d hi)

include h

theorem len_le_iff (hp : p ≤ hi) : t.len ≤ p + d ↔ s.len ≤ p := by
  have hle := h.le_len
  have hadd := h.add_le_len
  have hlen := h.len_le
  constructor
  · intro ht
    rcases Nat.lt_or_ge hi s.len with hlt | hge
    · -- the semicolon at `hi` stands in the second text, too
      have hbyte : t.byte (hi + d) ≠ 0 := by
        rw [h.byte hi (Nat.le_refl hi), h.semicolon hlt]
        decide
      have := lt_len_of_byte_ne_zero hbyte
      omega
    · omega
  · intro hs
    have := hlen (Nat.le_trans hs hp)
    omega

theorem len_eq (hs : s.len ≤ hi) : s.len = hi ∧ t.len = hi + d :=
  ⟨Nat.le_antisymm hs h.le_len, Nat.le_antisymm (h.len_le hs) h.add_le_len⟩

theorem byte_hi : t.byte (hi + d) = 59 ∨ t.byte (hi + d) = 0 := by
  rw [h.byte hi (Nat.le_refl hi)]
  rcases Nat.lt_or_ge hi s.len with hlt | hge
  · exact .inl (h.semicolon hlt)
  · exact .inr (byte_of_len_le hge)

theorem agreesBelow : s.AgreesBelow t d hi where
  fit := h.fit
  fit_right := h.fit_right
  le_len := h.le_len
  add_le_len := h.add_le_len
  byte i hi' := h.byte i (Nat.le_of_lt hi')
  char? i hi' := h.char? i (Nat.le_of_lt hi')
  divided := by
    rcases h.byte_hi with hb | hb <;> rw [hb] <;> decide
  breaks := by
    rintro (hend | hline)
    · exact .inl (h.len_le hend)
    · exact .inr (by rw [h.byte hi (Nat.le_refl hi)]; exact hline)
  carriageReturn := by
    intro _ _ _
    rcases h.byte_hi with hb | hb <;> rw [hb] <;> decide
  substitute _ _ _ := h.len_le_iff (Nat.le_refl hi)

end ReadsAs

end Source

end JavaLex
