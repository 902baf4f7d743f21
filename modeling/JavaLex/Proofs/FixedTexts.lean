import JavaLex.Lexeme.Decision
import JavaLex.Proofs.Delimiters

/-! Operators and separators. The scanner decides on them byte by byte; what it comes to is the
longest text of the table that stands at the offset. -/

namespace JavaLex

namespace Tag

variable {tag : Tag} {text : String}

theorem mem_fixed_iff : tag ∈ fixed ↔ ∃ text, tag.text? = some text := by
  constructor
  · simp only [fixed, List.mem_append, List.mem_map]
    rintro (⟨op, -, rfl⟩ | ⟨sep, -, rfl⟩)
    · exact ⟨_, rfl⟩
    · exact ⟨_, rfl⟩
  · rintro ⟨text, h⟩
    cases tag with
    | operator op => exact operator_mem_fixed op
    | separator sep => exact separator_mem_fixed sep
    | _ => cases h

theorem writes_of_mem_fixed :
    ∀ tag ∈ fixed, Source.Writes tag.bytes (tag.text?.getD "") := by
  have htable : ∀ tag ∈ fixed, (tag.text?.getD "").utf8ByteSize = tag.bytes.length ∧
      Source.Matches ⟨tag.text?.getD ""⟩ tag.bytes 0 ∧ Source.IsPlain tag.bytes ∧
        0 < tag.bytes.length := by decide +kernel
  intro tag htag
  obtain ⟨hsize, htext, hplain, hpos⟩ := htable tag htag
  exact ⟨hsize, htext, hplain, hpos⟩

theorem writes (h : tag.text? = some text) : Source.Writes tag.bytes text := by
  have hwrites := writes_of_mem_fixed tag (mem_fixed_iff.2 ⟨text, h⟩)
  rwa [h] at hwrites

theorem opening_of_mem_fixed :
    ∀ tag ∈ fixed, (Opening.ofByte (tag.bytes.headD 0)).isFixed = true := by
  decide +kernel

theorem eq_of_text? {other : Tag} (h : tag.text? = some text) (hother : other.text? = some text) :
    tag = other := by
  have htable : ∀ tag ∈ fixed, ∀ other ∈ fixed, tag.text? = other.text? → tag = other := by
    decide +kernel
  exact htable tag (mem_fixed_iff.2 ⟨text, h⟩) other (mem_fixed_iff.2 ⟨text, hother⟩)
    (h.trans hother.symm)

end Tag

namespace Source

variable {s : Source} {p q stop : Nat} {tag : Tag} {text : String}

/-- A text stands at an offset. -/
def Stands (s : Source) (text : String) (p : Nat) : Prop :=
  s.slice? p (p + text.utf8ByteSize) = some text

instance (s : Source) (text : String) (p : Nat) : Decidable (s.Stands text p) :=
  inferInstanceAs (Decidable (s.slice? p (p + text.utf8ByteSize) = some text))

theorem Writes.matches_of_text {bytes : List UInt8} (h : Writes bytes text)
    (htext : s.slice? p q = some text) : s.Matches bytes p := by
  have happend : s.slice? p q = some (text ++ "") := by rw [String.append_empty, htext]
  exact h.matches_of_slice? happend

theorem Writes.stands_iff {bytes : List UInt8} (h : Writes bytes text) :
    s.Stands text p ↔ s.Matches bytes p := by
  refine ⟨h.matches_of_text, fun hm => ?_⟩
  rw [Stands, h.size]
  exact h.slice? hm

/-- The entries of the table that start with a byte. -/
def entries (b : UInt8) : List (List UInt8 × Tag) :=
  Tag.longestFirst.filter fun entry => entry.1.head? == some b

theorem fixed?_eq_find?_entries {b : UInt8} (hb : s.byte p = b) :
    s.fixed? p = (entries b).find? fun entry => decide (s.Matches entry.1 p) := by
  rw [fixed?_eq_find?, hb, entries]

/-- A byte that one more decides on has the texts of two bytes in front of its own. -/
theorem entries_of_fork : ∀ fork ∈ forks,
    entries fork.1 =
      (fork.2.2.map fun choice => ([fork.1, choice.1], choice.2)) ++ [([fork.1], fork.2.1)] := by
  decide +kernel

theorem entries_less : entries 60 =
    [([60, 60, 61], .operator .shiftLeftEqual), ([60, 61], .operator .lessEqual),
     ([60, 60], .operator .shiftLeft), ([60], .operator .less)] := by
  decide +kernel

theorem entries_greater : entries 62 =
    [([62, 62, 62, 61], .operator .unsignedShiftRightEqual),
     ([62, 62, 62], .operator .unsignedShiftRight), ([62, 62, 61], .operator .shiftRightEqual),
     ([62, 61], .operator .greaterEqual), ([62, 62], .operator .shiftRight),
     ([62], .operator .greater)] := by
  decide +kernel

theorem entries_dot : entries Byte.dot =
    [([Byte.dot, Byte.dot, Byte.dot], .separator .ellipsis), ([Byte.dot], .separator .dot)] := by
  decide +kernel

theorem entries_eq_nil {b : UInt8} (h : forks.lookup b = none)
    (hpairs : b ≠ 60 ∧ b ≠ 62 ∧ b ≠ Byte.dot) : entries b = [] := by
  have htable : ∀ entry ∈ Tag.longestFirst, ∀ first ∈ entry.1.head?,
      (forks.lookup first).isSome = true ∨ first = 60 ∨ first = 62 ∨ first = Byte.dot := by
    decide +kernel
  refine List.filter_eq_nil_iff.2 fun entry hentry hfirst => ?_
  rcases htable entry hentry b (eq_of_beq hfirst) with hfork | hpair
  · rw [h] at hfork
    cases hfork
  · rcases hpair with hb | hb | hb
    · exact hpairs.1 hb
    · exact hpairs.2.1 hb
    · exact hpairs.2.2 hb

theorem chooseAt_eq_ok {plain : Tag} {choices : List (UInt8 × Tag)} (hp : p ≤ s.len) :
    s.chooseAt plain choices p = .ok (match choices.lookup (s.byte p) with
      | some tag => (tag, p + 1)
      | none => (plain, p)) := by
  rw [chooseAt, read_of_le_len hp, except_ok_bind]
  cases choices.lookup (s.byte p) <;> rfl

theorem find?_choices {b : UInt8} (plain : Tag) (choices : List (UInt8 × Tag))
    (hb : s.byte p = b) :
    ((choices.map fun choice => ([b, choice.1], choice.2)) ++ [([b], plain)]).find?
        (fun entry => decide (s.Matches entry.1 p)) =
      some (match choices.lookup (s.byte (p + 1)) with
        | some tag => ([b, s.byte (p + 1)], tag)
        | none => ([b], plain)) := by
  induction choices with
  | nil => simp [Matches, hb]
  | cons choice rest ih =>
      rw [List.map_cons, List.cons_append, List.find?_cons, List.lookup_cons]
      by_cases hnext : s.byte (p + 1) = choice.1
      · simp [Matches, hb, hnext]
      · have hother : (s.byte (p + 1) == choice.1) = false := beq_eq_false_iff_ne.2 hnext
        simp only [Matches, hb, hnext, false_and, and_false, decide_false, hother]
        exact ih

section

variable (hp : p < s.len)

include hp

theorem chooseAt_eq_fixedAt {b : UInt8} {plain : Tag} {choices : List (UInt8 × Tag)}
    (hb : s.byte p = b) (hfork : forks.lookup b = some (plain, choices)) :
    s.chooseAt plain choices (p + 1) = s.fixedAt p := by
  obtain ⟨before, after, htable, -⟩ := List.lookup_eq_some_iff.1 hfork
  have hentries := entries_of_fork (b, plain, choices) (by rw [htable]; simp)
  rw [chooseAt_eq_ok hp, fixedAt_eq_ok (Nat.le_of_lt hp), fixed?_eq_find?_entries hb, hentries,
    find?_choices plain choices hb]
  cases choices.lookup (s.byte (p + 1)) <;> rfl

theorem lessAt_eq_fixedAt (hb : s.byte p = 60) : s.lessAt (p + 1) = s.fixedAt p := by
  rw [fixedAt_eq_ok (Nat.le_of_lt hp), fixed?_eq_find?_entries hb, entries_less, lessAt,
    read_of_le_len hp, except_ok_bind]
  by_cases hequal : s.byte (p + 1) = 61
  · simp [Matches, hb, hequal]
  by_cases hless : s.byte (p + 1) = 60
  · have hnext : p + 2 ≤ s.len := lt_len_of_byte_ne_zero (by rw [hless]; decide)
    rw [chooseAt_eq_ok hnext]
    by_cases hlast : s.byte (p + 2) = 61
    · simp [Matches, hb, hless, hlast]
    · simp [Matches, hb, hless, hlast, List.lookup_cons, beq_eq_false_iff_ne.2 hlast]
  · simp [Matches, hb, hequal, hless]

theorem greaterAt_eq_fixedAt (hb : s.byte p = 62) : s.greaterAt (p + 1) = s.fixedAt p := by
  rw [fixedAt_eq_ok (Nat.le_of_lt hp), fixed?_eq_find?_entries hb, entries_greater, greaterAt,
    read_of_le_len hp, except_ok_bind]
  by_cases hequal : s.byte (p + 1) = 61
  · simp [Matches, hb, hequal]
  by_cases hgreater : s.byte (p + 1) = 62
  · have hnext : p + 2 ≤ s.len := lt_len_of_byte_ne_zero (by rw [hgreater]; decide)
    rw [read_of_le_len hnext, except_ok_bind]
    by_cases hequal : s.byte (p + 2) = 61
    · simp [Matches, hb, hgreater, hequal]
    by_cases hthird : s.byte (p + 2) = 62
    · have hnext : p + 3 ≤ s.len := lt_len_of_byte_ne_zero (by rw [hthird]; decide)
      rw [chooseAt_eq_ok hnext]
      by_cases hlast : s.byte (p + 3) = 61
      · simp [Matches, hb, hgreater, hthird, hlast]
      · simp [Matches, hb, hgreater, hthird, hlast, List.lookup_cons,
          beq_eq_false_iff_ne.2 hlast]
    · simp [Matches, hb, hgreater, hequal, hthird]
  · simp [Matches, hb, hequal, hgreater]

theorem dotsAt_eq_fixedAt (hb : s.byte p = Byte.dot) : s.dotsAt (p + 1) = s.fixedAt p := by
  rw [fixedAt_eq_ok (Nat.le_of_lt hp), fixed?_eq_find?_entries hb, entries_dot, dotsAt,
    read_of_le_len hp, except_ok_bind]
  by_cases hdot : s.byte (p + 1) = Byte.dot
  · have hnext : p + 2 ≤ s.len := lt_len_of_byte_ne_zero (by rw [hdot]; decide)
    rw [read_of_le_len hnext, except_ok_bind]
    by_cases hlast : s.byte (p + 2) = Byte.dot
    · simp [Matches, hb, hdot, hlast]
    · simp [Matches, hb, hdot, hlast]
  · simp [Matches, hb, hdot]

/-- What is decided on byte by byte is the longest text of the table. -/
theorem decidedAt_eq_fixedAt : s.decidedAt p = s.fixedAt p := by
  rw [decidedAt, read_of_le_len (Nat.le_of_lt hp), except_ok_bind]
  split
  · rename_i hb
    exact lessAt_eq_fixedAt hp (eq_of_beq hb)
  split
  · rename_i hb
    exact greaterAt_eq_fixedAt hp (eq_of_beq hb)
  split
  · rename_i hb
    exact dotsAt_eq_fixedAt hp (eq_of_beq hb)
  rename_i hless hgreater hdot
  simp only [beq_iff_eq] at hless hgreater hdot
  split
  · rename_i plain choices hfork
    exact chooseAt_eq_fixedAt hp rfl hfork
  · rename_i hnone
    rw [fixedAt_eq_ok (Nat.le_of_lt hp), fixed?_eq_find?_entries rfl,
      entries_eq_nil hnone ⟨hless, hgreater, hdot⟩]
    rfl

end

theorem longestFirst_pairwise :
    Tag.longestFirst.Pairwise fun entry later => later.1.length ≤ entry.1.length := by
  decide +kernel

theorem length_le_of_fixed? {bytes : List UInt8} (h : s.fixed? p = some (bytes, tag)) :
    ∀ entry ∈ Tag.longestFirst, s.Matches entry.1 p → entry.1.length ≤ bytes.length := by
  intro entry hentry hmatch
  obtain ⟨-, before, after, htable, hbefore⟩ := List.find?_eq_some_iff_append.1 h
  have hsorted := longestFirst_pairwise
  rw [htable] at hentry hsorted
  rcases List.mem_append.1 hentry with hmem | hmem
  · have hnot := hbefore entry hmem
    rw [decide_eq_true hmatch] at hnot
    cases hnot
  · rcases List.mem_cons.1 hmem with rfl | hlater
    · exact Nat.le_refl _
    · exact List.rel_of_pairwise_cons (List.pairwise_append.1 hsorted).2.1 hlater

/-- A lexeme that is a fixed text, the longest one that stands where it starts: deciding byte by
byte comes to it. -/
structure Munches (s : Source) (p : Nat) (lexeme : Lexeme) (text : String) : Prop where
  fixed : lexeme.tag.text? = some text
  stands : s.slice? p (p + lexeme.len) = some text
  longest : ∀ tag other, Tag.text? tag = some other → s.Stands other p →
    other.utf8ByteSize ≤ text.utf8ByteSize
  decided : s.decidedAt p = .ok (lexeme.tag, p + lexeme.len)

theorem munches_of_fixedAt {lexeme : Lexeme} (hp : p < s.len)
    (h : s.fixedAt p = .ok (lexeme.tag, p + lexeme.len)) (htext : lexeme.tag.text? = some text) :
    s.Munches p lexeme text := by
  have hdecided := (decidedAt_eq_fixedAt hp).trans h
  rw [fixedAt_eq_ok (Nat.le_of_lt hp)] at h
  cases hfound : s.fixed? p with
  | none =>
      rw [hfound] at h
      rw [← (Prod.mk.inj (Except.ok.inj h)).1] at htext
      cases htext
  | some entry =>
      obtain ⟨bytes, tag⟩ := entry
      rw [hfound] at h
      obtain ⟨htag, hstop⟩ := Prod.mk.inj (Except.ok.inj h)
      obtain ⟨-, hbytes⟩ := mem_longestFirst_bytes _ (List.mem_of_find?_eq_some hfound)
      simp only [htag] at hbytes
      have hmatch : s.Matches bytes p := by simpa using List.find?_some hfound
      have hwrites : Writes bytes text := hbytes ▸ Tag.writes htext
      refine ⟨htext, by rw [← hstop]; exact hwrites.slice? hmatch, ?_, hdecided⟩
      intro tag other hother hstands
      have hwrites' := Tag.writes hother
      rw [hwrites.size, hwrites'.size]
      exact length_le_of_fixed? hfound _
        (Tag.mem_longestFirst tag (Tag.mem_fixed_iff.2 ⟨other, hother⟩))
        (hwrites'.stands_iff.1 hstands)

theorem exists_fixedAt (hp : p < s.len) (htext : tag.text? = some text)
    (hstands : s.Stands text p) :
    ∃ found longest stop, s.fixedAt p = .ok (found, stop) ∧ Tag.text? found = some longest := by
  have hmem := Tag.mem_longestFirst tag (Tag.mem_fixed_iff.2 ⟨text, htext⟩)
  have hmatch := (Tag.writes htext).stands_iff.1 hstands
  rw [fixedAt_eq_ok (Nat.le_of_lt hp)]
  cases hfound : s.fixed? p with
  | none =>
      have hnot := List.find?_eq_none.1 hfound _ hmem
      rw [decide_eq_true hmatch] at hnot
      exact absurd rfl hnot
  | some entry =>
      obtain ⟨hfixed, -⟩ := mem_longestFirst_bytes _ (List.mem_of_find?_eq_some hfound)
      obtain ⟨longest, hlongest⟩ := Tag.mem_fixed_iff.1 hfixed
      exact ⟨_, _, _, rfl, hlongest⟩

/-- Where nothing but fixed texts can start, a lexeme has a tag if it has the text of it. -/
theorem tag_eq_iff {lexeme : Lexeme} {found : String} (hfit : s.len ≤ maxOffset)
    (hscan : s.scan p = .ok (some lexeme)) (htext : tag.text? = some text)
    (hother : Opening.ofByte (tag.bytes.headD 0) = .other)
    (hslice : s.slice? p (p + lexeme.len) = some found) : lexeme.tag = tag ↔ found = text := by
  have hp := lt_len_of_scan hscan
  constructor
  · intro htag
    obtain ⟨-, hlexed⟩ := lexed_of_scan hfit (Nat.le_of_lt hp) hscan
    have hfixed := Tag.mem_fixed_iff.2 ⟨text, htext⟩
    have htold := slice_of_mem_fixed (htag ▸ hfixed) (isBoundary_of_slice? hslice).1 hlexed
    rw [slice, hslice, htag, htext] at htold
    exact htold
  · rintro rfl
    have hwrites := Tag.writes htext
    have hmatch := hwrites.matches_of_text hslice
    have hfirst : s.byte p = tag.bytes.headD 0 := by
      have hpos := hwrites.nonempty
      cases hbytes : tag.bytes with
      | nil => simp [hbytes] at hpos
      | cons b rest =>
          rw [hbytes] at hmatch
          exact hmatch.1
    have hrule := ((scan_eq_some_iff hp).1 hscan).1
    rw [hfirst, hother, rule] at hrule
    obtain ⟨fixed, longest, stop, hfound, hlongest⟩ :=
      exists_fixedAt hp htext (hwrites.stands_iff.2 hmatch)
    obtain ⟨rfl, rfl⟩ := Prod.mk.inj (Except.ok.inj (hrule.symm.trans hfound))
    have hstands := (munches_of_fixedAt hp hrule hlongest).stands
    rw [hslice] at hstands
    exact Tag.eq_of_text? hlongest (Option.some.inj hstands ▸ htext)

theorem Spells.of_text (h : s.Spells p stop tag) (htext : tag.text? = some text) :
    s.Matches tag.bytes p ∧ stop = p + tag.bytes.length := by
  cases tag with
  | operator op => exact h
  | separator sep => exact h
  | _ => cases htext

theorem lt_len_of_isFixed (h : (Opening.ofByte (s.byte p)).isFixed = true) : p < s.len := by
  apply lt_len_of_byte_ne_zero
  intro hzero
  rw [hzero] at h
  cases h

theorem isFixed_of_matches (htext : tag.text? = some text) (hmatch : s.Matches tag.bytes p) :
    (Opening.ofByte (s.byte p)).isFixed = true := by
  have hopening := Tag.opening_of_mem_fixed tag (Tag.mem_fixed_iff.2 ⟨text, htext⟩)
  have hpos := (Tag.writes htext).nonempty
  cases hbytes : tag.bytes with
  | nil =>
      rw [hbytes] at hpos
      cases hpos
  | cons b rest =>
      rw [hbytes] at hopening hmatch
      rwa [hmatch.1]

theorem fixedAt_of_rule {opening : Opening} (hp : p < s.len) (hopening : opening.isFixed = true)
    (h : s.rule p opening = .ok (tag, stop)) (htext : tag.text? = some text) :
    s.fixedAt p = .ok (tag, stop) := by
  cases opening with
  | other => exact h
  | dot =>
      rw [rule, read_of_le_len hp, except_ok_bind] at h
      split at h
      · obtain ⟨⟨form, last⟩, -, h⟩ := bind_eq_ok h
        cases h
        cases htext
      · exact h
  | slash =>
      rw [rule, read_of_le_len hp, except_ok_bind] at h
      split at h
      · cases h
        cases htext
      · split at h
        · rename_i hstar
          have hlt := lt_len_of_accepts (Byte.textClass_eq (b := Byte.star) rfl rfl) hstar
          rw [blockCommentAt_eq_ok hlt] at h
          have hcomment := congrArg Prod.fst (Except.ok.inj h)
          unfold blockComment at hcomment
          split at hcomment
          · subst hcomment
            cases htext
          · subst hcomment
            cases htext
        · exact h
  | _ => cases hopening

theorem writes_slashes : Writes [Byte.slash, Byte.slash] "//" :=
  ⟨rfl, by decide +kernel, by decide, by decide⟩

theorem writes_slashStar : Writes [Byte.slash, Byte.star] "/*" :=
  ⟨rfl, by decide +kernel, by decide, by decide⟩

theorem writes_dot : Writes [Byte.dot] "." := ⟨rfl, by decide +kernel, by decide, by decide⟩

/-- A comment or a number starts where a fixed text stands as well. -/
def Preempts (s : Source) (p : Nat) : Prop :=
  s.Stands "//" p ∨ s.Stands "/*" p ∨ s.Stands "." p ∧ Byte.isDigit (s.byte (p + 1)) = true

instance (s : Source) (p : Nat) : Decidable (s.Preempts p) :=
  inferInstanceAs (Decidable (_ ∨ _ ∨ _ ∧ _))

theorem rule_eq_fixedAt (hp : p < s.len)
    (hopening : (Opening.ofByte (s.byte p)).isFixed = true) (hfree : ¬ s.Preempts p) :
    s.rule p (.ofByte (s.byte p)) = s.fixedAt p := by
  have hadmits := Opening.admits_ofByte (s.byte p)
  rw [Preempts, writes_slashes.stands_iff, writes_slashStar.stands_iff, writes_dot.stands_iff,
    not_or, not_or] at hfree
  generalize Opening.ofByte (s.byte p) = opening at hopening hadmits ⊢
  cases opening with
  | other => rfl
  | dot =>
      have hb : s.byte p = Byte.dot := eq_of_beq hadmits
      rw [rule, read_of_le_len hp, except_ok_bind, if_neg]
      exact fun hdigit => hfree.2.2 ⟨⟨hb, trivial⟩, hdigit⟩
  | slash =>
      have hb : s.byte p = Byte.slash := eq_of_beq hadmits
      rw [rule, read_of_le_len hp, except_ok_bind, if_neg, if_neg]
      · exact fun hstar => hfree.2.1 ⟨hb, eq_of_beq hstar, trivial⟩
      · exact fun hslash => hfree.1 ⟨hb, eq_of_beq hslash, trivial⟩
  | _ => cases hopening

/-- A lexeme with a fixed text is the longest fixed text that stands where it starts. Where one
stands a lexeme with a fixed text is found, unless a comment or a number starts there. -/
theorem scan_munches (s : Source) (hfit : s.len ≤ maxOffset) (p : Nat) :
    (∀ lexeme text, s.scan p = .ok (some lexeme) → Tag.text? lexeme.tag = some text →
        s.Munches p lexeme text) ∧
      ∀ tag text, Tag.text? tag = some text → s.Stands text p → ¬ s.Preempts p →
        ∃ lexeme longest, s.scan p = .ok (some lexeme) ∧ s.Munches p lexeme longest := by
  constructor
  · intro lexeme text hscan htext
    have hp := lt_len_of_scan hscan
    obtain ⟨-, hlexed⟩ := lexed_of_scan hfit (Nat.le_of_lt hp) hscan
    obtain ⟨hmatch, -⟩ := hlexed.spells.of_text htext
    have hrule := ((scan_eq_some_iff hp).1 hscan).1
    exact munches_of_fixedAt hp
      (fixedAt_of_rule hp (isFixed_of_matches htext hmatch) hrule htext) htext
  · intro tag text htext hstands hfree
    have hmatch := (Tag.writes htext).stands_iff.1 hstands
    have hopening := isFixed_of_matches htext hmatch
    have hp : p < s.len := lt_len_of_isFixed hopening
    obtain ⟨found, longest, stop, hfixed, hlongest⟩ := exists_fixedAt hp htext hstands
    obtain ⟨lexeme, hscan, -⟩ := scan_of_lt_len hfit hp
    have hrule := ((scan_eq_some_iff hp).1 hscan).1
    rw [rule_eq_fixedAt hp hopening hfree] at hrule
    obtain ⟨rfl, -⟩ := Prod.mk.inj (Except.ok.inj (hfixed.symm.trans hrule))
    exact ⟨lexeme, longest, hscan, munches_of_fixedAt hp hrule hlongest⟩

/-- A shift that is no assignment, as a shorter one follows it, and three dots in front of a dot
that starts a number. -/
theorem scan_munches_shifts :
    len ⟨"a>>>>=....5"⟩ ≤ maxOffset ∧
      (∃ lexeme, scan ⟨"a>>>>=....5"⟩ 1 = .ok (some lexeme) ∧
        Munches ⟨"a>>>>=....5"⟩ 1 lexeme ">>>") ∧
      (¬ Preempts ⟨"a>>>>=....5"⟩ 6 ∧ ∃ lexeme, scan ⟨"a>>>>=....5"⟩ 6 = .ok (some lexeme) ∧
        Munches ⟨"a>>>>=....5"⟩ 6 lexeme "...") ∧
      Preempts ⟨"a>>>>=....5"⟩ 9 := by
  have hfit : len ⟨"a>>>>=....5"⟩ ≤ maxOffset := by decide
  have hshift : scan ⟨"a>>>>=....5"⟩ 1 =
      .ok (some ⟨.operator .unsignedShiftRight, 3, by decide⟩) :=
    (scan_eq_some_iff (by decide)).2 ⟨by decide +kernel, by decide⟩
  have hdots : scan ⟨"a>>>>=....5"⟩ 6 = .ok (some ⟨.separator .ellipsis, 3, by decide⟩) :=
    (scan_eq_some_iff (by decide)).2 ⟨by decide +kernel, by decide⟩
  have hfree : ¬ Preempts ⟨"a>>>>=....5"⟩ 6 := by decide +kernel
  refine ⟨hfit, ⟨_, hshift, (scan_munches _ hfit 1).1 _ _ hshift rfl⟩, ⟨hfree, ?_⟩,
    by decide +kernel⟩
  obtain ⟨lexeme, longest, hscan, hmunches⟩ :=
    (scan_munches _ hfit 6).2 (.separator .dot) "." rfl (by decide +kernel) hfree
  cases hdots.symm.trans hscan
  cases hmunches.fixed
  exact ⟨_, hdots, hmunches⟩

end Source

end JavaLex
