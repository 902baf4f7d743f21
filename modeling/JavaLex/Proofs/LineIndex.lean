import JavaLex.Proofs.Reach
import JavaLex.Source.LineLookup

/-! Lines and columns. Lines start at the start of the text and behind its line ends; an offset is
on the last line that starts no later, and line and column say where it is and nothing less. -/

namespace JavaLex

namespace Source

variable {s : Source} {p q : Nat}

/-- Whether a line end stands right before an offset, and all of it. -/
def StartsLine (s : Source) (p : Nat) : Prop :=
  s.byte (p - 1) = Byte.lineFeed ∨
    s.byte (p - 1) = Byte.carriageReturn ∧ (s.byte p ≠ Byte.lineFeed ∨ p = s.len)

theorem StartsLine.le_len (h : s.StartsLine q) (hq : 0 < q) : q ≤ s.len := by
  have hlt : q - 1 < s.len := by
    apply lt_len_of_byte_ne_zero
    rcases h with h | ⟨h, -⟩ <;> rw [h] <;> decide
  omega

theorem startsLine_succ_iff (s : Source) (p : Nat) :
    s.StartsLine (p + 1) ↔ Byte.isLineEnd (s.byte p) = true ∧ s.skipLineEnd p = p + 1 := by
  have hend : p + 1 = s.len → s.byte (p + 1) ≠ Byte.lineFeed := by
    intro heq
    rw [byte_of_len_le (Nat.le_of_eq heq.symm)]
    decide
  rw [StartsLine, Nat.add_sub_cancel, Byte.isLineEnd_iff, skipLineEnd]
  by_cases hreturn : s.byte p = Byte.carriageReturn
  · by_cases hfeed : s.byte (p + 1) = Byte.lineFeed
    · have hinside : p + 1 ≠ s.len := fun heq => hend heq hfeed
      simp [hreturn, hfeed, hinside, show Byte.carriageReturn ≠ Byte.lineFeed by decide]
    · simp [hreturn, hfeed]
  · simp [hreturn]

theorem startsLine_of_skip (h : s.skipLineEnd p = p + 2) : s.StartsLine (p + 2) := by
  unfold skipLineEnd at h
  split at h
  · rename_i hpair
    exact .inl (eq_of_beq (Bool.and_eq_true_iff.1 hpair).2)
  · omega

theorem skipLineEnd_cases (s : Source) (p : Nat) :
    s.skipLineEnd p = p + 1 ∨ s.skipLineEnd p = p + 2 := by
  unfold skipLineEnd
  split <;> simp

theorem behind_iff (s : Source) (p q : Nat) :
    p < q ∧ s.StartsLine q ↔ q = p + 1 ∧ s.StartsLine (p + 1) ∨ p + 1 < q ∧ s.StartsLine q := by
  constructor
  · rintro ⟨hlt, hends⟩
    rcases Nat.eq_or_lt_of_le hlt with rfl | hlt
    · exact .inl ⟨rfl, hends⟩
    · exact .inr ⟨hlt, hends⟩
  · rintro (⟨rfl, hends⟩ | ⟨hlt, hends⟩)
    · exact ⟨Nat.lt_succ_self p, hends⟩
    · exact ⟨Nat.lt_of_succ_lt hlt, hends⟩

theorem mem_lineStarts_iff (s : Source) (p q : Nat) :
    q ∈ s.lineStarts p ↔ p < q ∧ s.StartsLine q := by
  fun_induction lineStarts s p with
  | case1 p hp hline ih =>
      have hnext := s.startsLine_succ_iff p
      rw [List.mem_cons, ih, s.behind_iff p q]
      rcases s.skipLineEnd_cases p with hskip | hskip
      · rw [hskip]
        simp [hnext.2 ⟨hline, hskip⟩]
      · have hpair := startsLine_of_skip hskip
        rw [hskip, s.behind_iff (p + 1) q]
        simp [hnext, hskip, hpair]
  | case2 p hp hline ih =>
      have hnext : ¬ s.StartsLine (p + 1) := fun h => hline ((s.startsLine_succ_iff p).1 h).1
      rw [ih, s.behind_iff p q]
      simp [hnext]
  | case3 p hp =>
      refine iff_of_false List.not_mem_nil ?_
      rintro ⟨hlt, hends⟩
      have := hends.le_len (by omega)
      omega

theorem lineStarts_sorted (s : Source) (p : Nat) : (s.lineStarts p).Pairwise (· < ·) := by
  fun_induction lineStarts s p with
  | case1 p hp hline ih =>
      exact .cons (fun q hq => ((s.mem_lineStarts_iff _ q).1 hq).1) ih
  | case2 p hp hline ih => exact ih
  | case3 p hp => exact .nil

theorem lineEndBytes_of_lt (hp : p < s.len) :
    s.lineEndBytes p =
      if Byte.isLineEnd (s.byte p) then p :: s.lineEndBytes (p + 1)
      else s.lineEndBytes (p + 1) := by
  obtain ⟨n, hn⟩ := Nat.exists_eq_add_of_lt hp
  have hlong : s.len - p = n + 1 := by omega
  have hshort : s.len - (p + 1) = n := by omega
  rw [lineEndBytes, lineEndBytes, hlong, hshort, List.range'_succ, List.filter_cons]

theorem lineEndBytes_of_ge (hp : s.len ≤ p) : s.lineEndBytes p = [] := by
  rw [lineEndBytes, Nat.sub_eq_zero_of_le hp]
  rfl

theorem startsBehind_eq (hfit : s.len ≤ maxOffset) (p : Nat) :
    s.startsBehind (s.lineEndBytes p) = .ok (s.lineStarts p) := by
  fun_induction lineStarts s p with
  | case1 p hp hline ih =>
      rw [lineEndBytes_of_lt hp, if_pos hline, startsBehind, textByte, if_pos hp, except_ok_bind]
      unfold skipLineEnd at ih ⊢
      split
      · rename_i hpair
        obtain ⟨-, hfeed⟩ := Bool.and_eq_true_iff.1 hpair
        rw [if_pos hpair] at ih
        have hnext : p + 1 < s.len := by
          apply lt_len_of_byte_ne_zero
          rw [eq_of_beq hfeed]
          decide
        have hline : Byte.isLineEnd (s.byte (p + 1)) = true :=
          Byte.isLineEnd_iff.2 (.inl (eq_of_beq hfeed))
        rw [lineEndBytes_of_lt hnext, if_pos hline, List.tail_cons, ih, except_ok_map,
          saturate_eq (by omega)]
      · rename_i hpair
        rw [if_neg hpair] at ih
        rw [ih, except_ok_map, saturate_eq (by omega)]
  | case2 p hp hline ih => rw [lineEndBytes_of_lt hp, if_neg hline, ih]
  | case3 p hp =>
      rw [lineEndBytes_of_ge (Nat.le_of_not_lt hp), startsBehind]
      rfl

/-- The bytes that end lines, one after another, give the same lines as the text itself. -/
theorem gatheredLines_eq (hfit : s.len ≤ maxOffset) : s.gatheredLines = .ok s.lines := by
  rw [gatheredLines, startsBehind_eq hfit, saturate_eq hfit]
  rfl

end Source

namespace Lines

/-- The last element of a row that is not behind an offset, between those before and behind it. -/
structure Cuts (row : List Nat) (offset : Nat) (before : List Nat) (start : Nat)
    (after : List Nat) : Prop where
  row_eq : row = before ++ start :: after
  start_le : start ≤ offset
  lt_after : ∀ p ∈ after, offset < p

variable {row before after before' after' later : List Nat} {offset start start' first : Nat}

namespace Cuts

theorem getElem?_eq (h : Cuts row offset before start after) :
    row[before.length]? = some start := by
  rw [h.row_eq, List.getElem?_append_right (Nat.le_refl _), Nat.sub_self]
  rfl

section

variable (hsorted : row.Pairwise (· < ·))

include hsorted

theorem lt_start (h : Cuts row offset before start after) : ∀ p ∈ before, p < start := by
  rw [h.row_eq] at hsorted
  exact fun p hp => (List.pairwise_append.1 hsorted).2.2 p hp start List.mem_cons_self

theorem lt_of_lt (h : Cuts row offset before start after) {p : Nat} (hmem : p ∈ row)
    (hp : start < p) : offset < p := by
  rw [h.row_eq] at hmem
  rcases List.mem_append.1 hmem with hmem | hmem
  · exact absurd (h.lt_start hsorted p hmem) (Nat.lt_asymm hp)
  · rcases List.mem_cons.1 hmem with rfl | hmem
    · exact absurd hp (Nat.lt_irrefl _)
    · exact h.lt_after p hmem

theorem countP_eq (h : Cuts row offset before start after) :
    row.countP (· ≤ offset) = before.length + 1 := by
  have hfirst : before.countP (· ≤ offset) = before.length := by
    refine List.countP_eq_length.2 fun p hp => decide_eq_true ?_
    exact Nat.le_trans (Nat.le_of_lt (h.lt_start hsorted p hp)) h.start_le
  have hlast : after.countP (· ≤ offset) = 0 := by
    refine List.countP_eq_zero.2 fun p hp => ?_
    simpa using h.lt_after p hp
  rw [h.row_eq, List.countP_append, List.countP_cons, hfirst, hlast,
    if_pos (decide_eq_true h.start_le)]

theorem length_le (h : Cuts row offset before start after) {offset' : Nat} (hle : offset ≤ offset')
    (h' : Cuts row offset' before' start' after') : before.length ≤ before'.length := by
  have hcount := List.countP_mono_left (p := (· ≤ offset)) (q := (· ≤ offset')) (l := row)
    fun p _ hp => decide_eq_true (Nat.le_trans (of_decide_eq_true hp) hle)
  rw [h.countP_eq hsorted, h'.countP_eq hsorted] at hcount
  exact Nat.le_of_succ_le_succ hcount

end

theorem start_eq (h : Cuts row offset before start after) {offset' : Nat}
    (h' : Cuts row offset' before' start' after') (hlength : before.length = before'.length) :
    start = start' := by
  have helement := h.getElem?_eq
  rw [hlength, h'.getElem?_eq] at helement
  exact (Option.some.inj helement).symm

end Cuts

/-- The elements of a sorted row that are not behind an offset end with the cut. -/
theorem exists_cuts (hsorted : (first :: later).Pairwise (· < ·)) (hfirst : first ≤ offset) :
    ∃ before start after, Cuts (first :: later) offset before start after ∧
      ((first :: later).takeWhile (· ≤ offset)).length = before.length + 1 := by
  rw [List.takeWhile_cons, if_pos (decide_eq_true hfirst)]
  induction later generalizing first with
  | nil => exact ⟨[], first, [], ⟨rfl, hfirst, nofun⟩, rfl⟩
  | cons p rest ih =>
      obtain ⟨hlater, hrest⟩ := List.pairwise_cons.1 hsorted
      rw [List.takeWhile_cons]
      by_cases hp : p ≤ offset
      · obtain ⟨before, start, after, ⟨hrow, hstart, hafter⟩, hlength⟩ := ih hrest hp
        rw [if_pos (decide_eq_true hp), List.length_cons, hlength]
        exact ⟨first :: before, start, after, ⟨by rw [hrow]; rfl, hstart, hafter⟩, rfl⟩
      · rw [if_neg (by simpa using hp)]
        refine ⟨[], first, p :: rest, ⟨rfl, hfirst, ?_⟩, rfl⟩
        intro q hq
        rcases List.mem_cons.1 hq with rfl | hq
        · omega
        · have := (List.pairwise_cons.1 hrest).1 q hq
          omega

/-- The elements of a row up to its cut are those that are not behind the offset. -/
theorem Cuts.getElem_le_iff (h : Cuts row offset before start after)
    (hsorted : row.Pairwise (· < ·)) {i : Nat} (hi : i < row.length) :
    row[i] ≤ offset ↔ i ≤ before.length := by
  obtain ⟨hcut, hstart⟩ := List.getElem?_eq_some_iff.1 h.getElem?_eq
  have hordered := List.pairwise_iff_getElem.1 hsorted
  have hle := h.start_le
  rcases Nat.lt_trichotomy i before.length with hlt | rfl | hgt
  · have hbefore := hordered i before.length hi hcut hlt
    exact iff_of_true (by omega) (Nat.le_of_lt hlt)
  · exact iff_of_true (by omega) (Nat.le_refl _)
  · have hbehind := hordered before.length i hcut hi hgt
    rw [hstart] at hbehind
    have hpast := h.lt_of_lt hsorted (List.getElem_mem hi) hbehind
    exact iff_of_false (Nat.not_le_of_lt hpast) (Nat.not_le_of_lt hgt)

/-- Halving reads inside the row, and finds the place behind the cut, which stays between its
bounds. -/
theorem Cuts.passedAt_eq (h : Cuts row offset before start after) (hsorted : row.Pairwise (· < ·))
    {lo hi : Nat} (hlo : lo ≤ before.length + 1) (hhi : before.length + 1 ≤ hi)
    (hrow : hi ≤ row.length) : passedAt row offset lo hi = .ok (before.length + 1) := by
  fun_induction passedAt row offset lo hi with
  | case1 lo hi hlt mid ihright ihleft =>
      have hmid : mid < row.length := by omega
      rw [entryAt_eq_ok (List.getElem?_eq_getElem hmid), except_ok_bind]
      have hcut := h.getElem_le_iff hsorted hmid
      split
      · rename_i hle
        exact ihright (Nat.succ_le_succ (hcut.1 hle)) hhi hrow
      · rename_i hgt
        have hbehind : ¬ mid ≤ before.length := hcut.not.1 hgt
        exact ihleft hlo (by omega) (by omega)
  | case2 lo hi hge =>
      have hlast : lo = before.length + 1 := by omega
      rw [hlast]
      rfl

theorem Cuts.placeAt_eq {index : Lines} (h : Cuts index.starts offset before start after) :
    index.placeAt offset (before.length + 1) = (do
      let line ← checkedAdd before.length 1
      let column ← checkedAdd (offset - start) 1
      pure (line, column)) := by
  rw [placeAt, checkedSub_eq_ok (Nat.le_add_left 1 _), except_ok_bind, Nat.add_sub_cancel,
    entryAt_eq_ok h.getElem?_eq, except_ok_bind, checkedSub_eq_ok h.start_le, except_ok_bind,
    checkedAdd_saturate]

end Lines

namespace Source

variable {s : Source} {offset : Nat}

theorem starts_sorted (s : Source) : s.lines.starts.Pairwise (· < ·) :=
  .cons (fun q hq => ((s.mem_lineStarts_iff 0 q).1 hq).1) (s.lineStarts_sorted 0)

/-- Each line that starts at `offset` or before takes a byte of the text before it. -/
theorem length_takeWhile_lineStarts (s : Source) (p offset : Nat) :
    ((s.lineStarts p).takeWhile (· ≤ offset)).length ≤ offset - p := by
  fun_induction lineStarts s p with
  | case1 p hp hline ih =>
      have hlt := s.lt_skipLineEnd p
      rw [List.takeWhile_cons]
      split
      · rename_i hle
        have hle : s.skipLineEnd p ≤ offset := of_decide_eq_true hle
        rw [List.length_cons]
        omega
      · exact Nat.zero_le _
  | case2 p hp hline ih => exact Nat.le_trans ih (by omega)
  | case3 p hp => exact Nat.zero_le _

theorem exists_place (s : Source) (offset : Nat) :
    ∃ before start after, Lines.Cuts s.lines.starts (min offset s.len) before start after ∧
      before.length ≤ min offset s.len ∧ s.lines.lineCol offset = (do
        let line ← checkedAdd before.length 1
        let column ← checkedAdd (min offset s.len - start) 1
        pure (line, column)) := by
  have hzero : 0 ≤ min offset s.len := Nat.zero_le _
  obtain ⟨before, start, after, hcuts, hlength⟩ := Lines.exists_cuts s.starts_sorted hzero
  refine ⟨before, start, after, hcuts, ?_, ?_⟩
  · rw [List.takeWhile_cons, if_pos (decide_eq_true hzero)] at hlength
    have hlines := s.length_takeWhile_lineStarts 0 (min offset s.len)
    exact Nat.le_trans (Nat.le_of_eq (Nat.succ.inj hlength).symm) hlines
  · rw [← hcuts.placeAt_eq, ← hlength]
    rfl

theorem exists_place_of_lineCol {line column : Nat}
    (h : s.lines.lineCol offset = .ok (line, column)) :
    ∃ before start after, Lines.Cuts s.lines.starts (min offset s.len) before start after ∧
      line = before.length + 1 ∧ column = min offset s.len - start + 1 := by
  obtain ⟨before, start, after, hcuts, -, hplace⟩ := s.exists_place offset
  rw [h] at hplace
  obtain ⟨line', hline, hplace⟩ := bind_eq_ok hplace.symm
  obtain ⟨column', hcolumn, hplace⟩ := bind_eq_ok hplace
  cases hplace
  exact ⟨before, start, after, hcuts, eq_of_checkedAdd hline, eq_of_checkedAdd hcolumn⟩

theorem exists_lineCol (s : Source) (offset : Nat) (h : min offset s.len < maxOffset) :
    ∃ line column, s.lines.lineCol offset = .ok (line, column) := by
  obtain ⟨before, start, after, -, hle, hplace⟩ := s.exists_place offset
  rw [hplace, checkedAdd_eq_ok (by omega), except_ok_bind, checkedAdd_eq_ok (by omega)]
  exact ⟨_, _, rfl⟩

/-- Halving finds the line and the column, also where they cannot be counted. -/
theorem lookUp_eq (s : Source) (offset : Nat) : s.lines.lookUp offset = s.lines.lineCol offset := by
  obtain ⟨before, start, after, hcuts, -, hplace⟩ := s.exists_place offset
  have hlength : before.length + 1 ≤ s.lines.starts.length := by
    rw [hcuts.row_eq]
    simp
  have hpassed := hcuts.passedAt_eq s.starts_sorted (Nat.zero_le _) hlength (Nat.le_refl _)
  rw [hplace, ← hcuts.placeAt_eq, Lines.lookUp]
  change (Lines.passedAt s.lines.starts (min offset s.len) 0 s.lines.starts.length >>= _) = _
  rw [hpassed]
  rfl

end Source

/-- What an index tells of the lines of a text. -/
structure Lines.Indexes (index : Lines) (s : Source) : Prop where
  head : index.starts.head? = some 0
  increasing : index.starts.Pairwise (· < ·)
  mem_iff : ∀ p, 0 < p → (p ∈ index.starts ↔ s.StartsLine p)
  /-- Only the largest offset may have a line or a column that is not counted. -/
  returns : ∀ offset, min offset s.len ≠ maxOffset →
    ∃ line column, index.lineCol offset = .ok (line, column)
  /-- The line is told by how many start up to the offset, and the column by the last of them. -/
  position : ∀ offset line column, index.lineCol offset = .ok (line, column) →
    1 ≤ line ∧ 1 ≤ column ∧ column - 1 ≤ min offset s.len ∧
      index.starts.countP (fun p => 1 ≤ p ∧ p ≤ min offset s.len) = line - 1 ∧
      index.lineStart? line = some (min offset s.len - (column - 1)) ∧
      ∀ p ∈ index.starts, ¬ (min offset s.len - (column - 1) < p ∧ p ≤ min offset s.len)
  strictMono : ∀ p q, p < q → q ≤ s.len → q < maxOffset →
    ∃ a b, index.lineCol p = .ok a ∧ index.lineCol q = .ok b ∧ Prod.Lex (· < ·) (· < ·) a b
  isSome_iff : ∀ line, (index.lineStart? line).isSome ↔ 1 ≤ line ∧ line ≤ index.count
  lineCol_start : ∀ line start, index.lineStart? line = some start → start < maxOffset →
    index.lineCol start = .ok (line, 1)

namespace Source

variable {s : Source} {offset line column : Nat}

theorem mem_starts_iff (s : Source) {p : Nat} (hp : 0 < p) :
    p ∈ s.lines.starts ↔ s.StartsLine p := by
  have hmem := s.mem_lineStarts_iff 0 p
  rw [Lines.starts, List.mem_cons, lines, hmem]
  simp [hp, Nat.ne_of_gt hp]

theorem lineStart?_succ (s : Source) (n : Nat) :
    s.lines.lineStart? (n + 1) = s.lines.starts[n]? := rfl

/-- Zero is no line start behind another one. -/
theorem countP_starts (s : Source) (m : Nat) :
    s.lines.starts.countP (· ≤ m) = s.lines.starts.countP (fun p => 1 ≤ p ∧ p ≤ m) + 1 := by
  have hpositive : ∀ p ∈ s.lines.later, 0 < p := (List.pairwise_cons.1 s.starts_sorted).1
  have hcount : s.lines.later.countP (· ≤ m) =
      s.lines.later.countP (fun p => 1 ≤ p ∧ p ≤ m) := by
    refine List.countP_congr fun p hp => ?_
    have := hpositive p hp
    simp only [decide_eq_true_eq]
    omega
  rw [Lines.starts, List.countP_cons, List.countP_cons, hcount]
  simp

theorem position_of_lineCol (h : s.lines.lineCol offset = .ok (line, column)) :
    1 ≤ line ∧ 1 ≤ column ∧ column - 1 ≤ min offset s.len ∧
      s.lines.starts.countP (fun p => 1 ≤ p ∧ p ≤ min offset s.len) = line - 1 ∧
      s.lines.lineStart? line = some (min offset s.len - (column - 1)) ∧
      ∀ p ∈ s.lines.starts, ¬ (min offset s.len - (column - 1) < p ∧ p ≤ min offset s.len) := by
  obtain ⟨before, start, after, hcuts, rfl, rfl⟩ := exists_place_of_lineCol h
  have hle := hcuts.start_le
  have hcount := hcuts.countP_eq s.starts_sorted
  rw [s.countP_starts] at hcount
  rw [Nat.add_sub_cancel, Nat.add_sub_cancel, Nat.sub_sub_self hle, s.lineStart?_succ]
  refine ⟨Nat.succ_pos _, Nat.succ_pos _, Nat.sub_le _ _, Nat.succ_injective hcount,
    hcuts.getElem?_eq, ?_⟩
  rintro p hmem ⟨hlt, hnot⟩
  have := hcuts.lt_of_lt s.starts_sorted hmem hlt
  omega

theorem lineCol_lt {p q : Nat} (hlt : p < q) (hq : q ≤ s.len) (hmax : q < maxOffset) :
    ∃ a b, s.lines.lineCol p = .ok a ∧ s.lines.lineCol q = .ok b ∧
      Prod.Lex (· < ·) (· < ·) a b := by
  have hqmin : min q s.len = q := Nat.min_eq_left hq
  have hpmin : min p s.len = p := Nat.min_eq_left (by omega)
  obtain ⟨line, column, ha⟩ := s.exists_lineCol p (by omega)
  obtain ⟨line', column', hb⟩ := s.exists_lineCol q (by omega)
  refine ⟨_, _, ha, hb, ?_⟩
  obtain ⟨before, start, after, hcuts, rfl, rfl⟩ := exists_place_of_lineCol ha
  obtain ⟨before', start', after', hcuts', rfl, rfl⟩ := exists_place_of_lineCol hb
  rw [hpmin] at hcuts ⊢
  rw [hqmin] at hcuts' ⊢
  have hlength := hcuts.length_le s.starts_sorted (Nat.le_of_lt hlt) hcuts'
  rcases Nat.lt_or_eq_of_le hlength with hline | hline
  · exact .left _ _ (Nat.succ_lt_succ hline)
  · have hstart := hcuts.start_eq hcuts' hline
    have hle := hcuts.start_le
    rw [hline, hstart]
    exact .right _ (by omega)

theorem isSome_lineStart?_iff (s : Source) (line : Nat) :
    (s.lines.lineStart? line).isSome ↔ 1 ≤ line ∧ line ≤ s.lines.count := by
  cases line with
  | zero => simp [Lines.lineStart?]
  | succ n =>
      rw [lineStart?_succ, Lines.starts, Lines.count, Option.isSome_iff_ne_none, Ne,
        List.getElem?_eq_none_iff, List.length_cons]
      omega

theorem lineCol_of_lineStart? {start : Nat} (h : s.lines.lineStart? line = some start)
    (hmax : start < maxOffset) : s.lines.lineCol start = .ok (line, 1) := by
  obtain ⟨n, rfl⟩ : ∃ n, line = n + 1 := by
    cases line with
    | zero => cases h
    | succ n => exact ⟨n, rfl⟩
  rw [s.lineStart?_succ] at h
  have hmem := List.mem_of_getElem? h
  have hlen : start ≤ s.len := by
    rcases Nat.eq_zero_or_pos start with rfl | hpos
    · exact Nat.zero_le _
    · exact ((s.mem_starts_iff hpos).1 hmem).le_len hpos
  have hmin : min start s.len = start := Nat.min_eq_left hlen
  obtain ⟨line', column', hposition⟩ := s.exists_lineCol start (by omega)
  rw [hposition]
  obtain ⟨before, last, after, hcuts, rfl, rfl⟩ := exists_place_of_lineCol hposition
  rw [hmin] at hcuts ⊢
  -- the cut is at the start itself, which stands at one place of the row only
  have hlast : last = start := by
    by_contra hne
    have hle := hcuts.start_le
    have := hcuts.lt_of_lt s.starts_sorted hmem (by omega)
    omega
  subst hlast
  have hnodup : s.lines.starts.Nodup := s.starts_sorted.imp Nat.ne_of_lt
  obtain ⟨hn, -⟩ := List.getElem?_eq_some_iff.1 h
  have hplace := (List.getElem?_inj hn hnodup).1 (h.trans hcuts.getElem?_eq.symm)
  rw [hplace, Nat.sub_self]

/-- The index of a text that fits tells where its lines start, and offsets and positions apart; it
is the one that is gathered from the line ends, and halving looks up the same. -/
theorem lines_index (s : Source) (hfit : s.len ≤ maxOffset) :
    s.lines.Indexes s ∧ s.gatheredLines = .ok s.lines ∧
      ∀ offset, s.lines.lookUp offset = s.lines.lineCol offset := by
  refine ⟨⟨rfl, s.starts_sorted, fun p hp => s.mem_starts_iff hp, ?_, ?_, ?_,
    s.isSome_lineStart?_iff, fun line start => lineCol_of_lineStart?⟩, gatheredLines_eq hfit,
    s.lookUp_eq⟩
  · intro offset hne
    exact s.exists_lineCol offset (by omega)
  · exact fun offset line column => position_of_lineCol
  · exact fun p q => lineCol_lt

/-- All line ends in a row, with an offset inside one of them and one far behind the text. -/
theorem lines_index_mixed :
    len ⟨"a\r\n\r\rb\n"⟩ ≤ maxOffset ∧ Lines.Indexes ⟨[3, 4, 5, 7], 7⟩ ⟨"a\r\n\r\rb\n"⟩ ∧
      gatheredLines ⟨"a\r\n\r\rb\n"⟩ = .ok ⟨[3, 4, 5, 7], 7⟩ ∧
      Lines.lookUp ⟨[3, 4, 5, 7], 7⟩ 2 = .ok (1, 3) ∧
      Lines.lookUp ⟨[3, 4, 5, 7], 7⟩ 100 = .ok (5, 1) ∧
      Lines.lineCol ⟨[3, 4, 5, 7], 7⟩ 4 = .ok (3, 1) := by
  have hfit : len ⟨"a\r\n\r\rb\n"⟩ ≤ maxOffset := by decide
  have hlines : lines ⟨"a\r\n\r\rb\n"⟩ = ⟨[3, 4, 5, 7], 7⟩ := by decide +kernel
  obtain ⟨hindex, hgathered, hlookUp⟩ := lines_index ⟨"a\r\n\r\rb\n"⟩ hfit
  rw [hlines] at hindex hgathered hlookUp
  exact ⟨hfit, hindex, hgathered, (hlookUp 2).trans rfl, (hlookUp 100).trans rfl,
    hindex.lineCol_start 3 4 rfl (by decide)⟩

end Source

end JavaLex
