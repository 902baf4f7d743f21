import JavaLex.Proofs.Characters
import JavaLex.Proofs.Verdicts

/-! The elements of a content: ordinary characters and escapes, read from left to right. A content
is read in one way, and its pieces come from the elements one by one. -/

namespace JavaLex.Escape

/-- The letters of one-letter escapes, with the characters they stand for. -/
def letters : List (Char × Char) :=
  [('b', '\x08'), ('t', '\t'), ('n', '\n'), ('f', '\x0c'), ('r', '\r'), ('s', ' '), ('"', '"'),
   ('\'', '\''), ('\\', '\\')]

/-- The hexadecimal digits with their values. Those with values below eight are the octal ones. -/
def digitValues : List (Char × Nat) :=
  [('0', 0), ('1', 1), ('2', 2), ('3', 3), ('4', 4), ('5', 5), ('6', 6), ('7', 7), ('8', 8),
   ('9', 9), ('a', 10), ('b', 11), ('c', 12), ('d', 13), ('e', 14), ('f', 15), ('A', 10),
   ('B', 11), ('C', 12), ('D', 13), ('E', 14), ('F', 15)]

def IsOctal (c : Char) (value : Nat) : Prop := (c, value) ∈ digitValues ∧ value < 8

/-- The digits of an octal escape, with their value: one or two, or three from `0` to `3` on. -/
inductive Octal : List Char → Nat → Prop where
  | one {a : Char} {i : Nat} : IsOctal a i → Octal [a] i
  | two {a b : Char} {i j : Nat} : IsOctal a i → IsOctal b j → Octal [a, b] (i * 8 + j)
  | three {a b c : Char} {i j k : Nat} : IsOctal a i → i < 4 → IsOctal b j → IsOctal c k →
      Octal [a, b, c] (i * 64 + j * 8 + k)

/-- Four hexadecimal digits, with the unit they write. -/
inductive HexUnit : List Char → Nat → Prop where
  | four {a b c d : Char} {i j k l : Nat} : (a, i) ∈ digitValues → (b, j) ∈ digitValues →
      (c, k) ∈ digitValues → (d, l) ∈ digitValues →
      HexUnit [a, b, c, d] (i * 0x1000 + j * 0x100 + k * 0x10 + l)

/-- Whether a backslash with `c` behind it can be, or start, an escape. -/
def StartsEscape (form : QuoteForm) (c : Char) : Prop :=
  c ∈ letters.map Prod.fst ∨ (∃ value, IsOctal c value) ∨ c = 'u' ∨
    form = .textBlock ∧ (c = '\n' ∨ c = '\r')

/-- An element of a content: what it gives, how it is written, and what follows it. -/
inductive Element (form : QuoteForm) : Piece → List Char → List Char → Prop where
  | ordinary {c : Char} {rest : List Char} : c ≠ '\\' → Element form (.char c) [c] rest
  | letter {c value : Char} {rest : List Char} :
      (c, value) ∈ letters → Element form (.char value) ['\\', c] rest
  /-- No more digits belong to an octal escape. -/
  | octal {digits rest : List Char} {c : Char} : Octal digits c.toNat →
      (∀ more value, more <+: digits ++ rest → Octal more value → more.length ≤ digits.length) →
      Element form (.char c) ('\\' :: digits) rest
  | unicode {n value : Nat} {digits rest : List Char} : HexUnit digits value →
      Element form (.unit value) ('\\' :: (List.replicate (n + 1) 'u' ++ digits)) rest
  | malformed {n : Nat} {rest : List Char} : rest.head? ≠ some 'u' →
      (∀ digits value, digits <+: rest → ¬ HexUnit digits value) →
      Element form .malformedUnicode ('\\' :: List.replicate (n + 1) 'u') rest
  | joinedLine {lineEnd rest : List Char} : form = .textBlock →
      lineEnd = ['\n'] ∨ lineEnd = ['\r', '\n'] ∨ lineEnd = ['\r'] ∧ rest.head? ≠ some '\n' →
      Element form .joinedLine ('\\' :: lineEnd) rest
  | invalid {c : Char} {rest : List Char} :
      ¬ StartsEscape form c → Element form (.invalid c) ['\\', c] rest
  /-- The content ends behind the backslash. -/
  | trailing : Element form .trailing ['\\'] []

/-- The elements of a content in order, each with its text. -/
inductive Elements (form : QuoteForm) : List Char → List (Piece × List Char) → Prop where
  | nil : Elements form [] []
  | cons {piece : Piece} {text rest : List Char} {later : List (Piece × List Char)} :
      Element form piece text rest → Elements form rest later →
      Elements form (text ++ rest) ((piece, text) :: later)

variable {form : QuoteForm} {piece : Piece} {text rest digits content : List Char}
  {found other : List (Piece × List Char)}

theorem hexDigit?_eq_some_iff {c : Char} {value : Nat} :
    hexDigit? c = some value ↔ (c, value) ∈ digitValues := by
  constructor
  · intro h
    have hascii : c.toNat < 128 := by
      have hc : c.toNat = c.val.toNat := rfl
      have hnine : ('9').val.toNat = 57 := rfl
      have hsmall : ('f').val.toNat = 102 := rfl
      have hbig : ('F').val.toNat = 70 := rfl
      simp only [hexDigit?, Char.le_def, UInt32.le_iff_toNat_le] at h
      split at h
      · omega
      · split at h
        · omega
        · split at h
          · omega
          · cases h
    exact forall_ascii (P := fun c => ∀ value ∈ hexDigit? c, (c, value) ∈ digitValues)
      (by decide +kernel) hascii value h
  · intro h
    have hall : ∀ entry ∈ digitValues, hexDigit? entry.1 = some entry.2 := by decide
    exact hall (c, value) h

theorem lt_of_mem_digitValues {entry : Char × Nat} (h : entry ∈ digitValues) : entry.2 < 16 := by
  revert entry
  decide

theorem IsOctal.digit {c : Char} {value : Nat} (h : IsOctal c value) :
    isOctalDigit c = true ∧ c.toNat - '0'.toNat = value ∧ (c ≤ '3' ↔ value < 4) := by
  have hall : ∀ entry ∈ digitValues, entry.2 < 8 → isOctalDigit entry.1 = true ∧
      entry.1.toNat - '0'.toNat = entry.2 ∧ (entry.1 ≤ '3' ↔ entry.2 < 4) := by
    decide
  exact hall (c, value) h.1 h.2

theorem isOctalDigit_iff {c : Char} : isOctalDigit c = true ↔ ∃ value, IsOctal c value := by
  constructor
  · intro h
    have hascii : c.toNat < 128 := by
      simp only [isOctalDigit, Bool.and_eq_true, decide_eq_true_eq, Char.le_def,
        UInt32.le_iff_toNat_le] at h
      have hc : c.toNat = c.val.toNat := rfl
      have hseven : ('7').val.toNat = 55 := rfl
      omega
    obtain ⟨entry, hmem, rfl, hlt⟩ := forall_ascii
      (P := fun c => isOctalDigit c = true → ∃ entry ∈ digitValues, entry.1 = c ∧ entry.2 < 8)
      (by decide +kernel) hascii h
    exact ⟨entry.2, hmem, hlt⟩
  · rintro ⟨value, h⟩
    exact h.digit.1

theorem Octal.lt {value : Nat} (h : Octal digits value) : value < 256 := by
  cases h with
  | one ha => exact Nat.lt_trans ha.2 (by decide)
  | two ha hb =>
      have := ha.2
      have := hb.2
      omega
  | three ha hlt hb hc =>
      have := hb.2
      have := hc.2
      omega

theorem Octal.exists_cons {value : Nat} (h : Octal digits value) :
    ∃ c more, digits = c :: more := by
  cases h <;> exact ⟨_, _, rfl⟩

theorem Octal.forall_digit {value : Nat} (h : Octal digits value) :
    ∀ c ∈ digits, isOctalDigit c = true := by
  cases h with
  | one ha => simpa using ha.digit.1
  | two ha hb => simpa using ⟨ha.digit.1, hb.digit.1⟩
  | three ha _ hb hc => simpa using ⟨ha.digit.1, hb.digit.1, hc.digit.1⟩

theorem Octal.octalValue_eq {value : Nat} (h : Octal digits value) :
    octalValue digits = value := by
  cases h with
  | one ha => simp only [octalValue, List.foldl_cons, List.foldl_nil, ha.digit.2.1, Nat.zero_mul,
      Nat.zero_add]
  | two ha hb => simp only [octalValue, List.foldl_cons, List.foldl_nil, ha.digit.2.1,
      hb.digit.2.1, Nat.zero_mul, Nat.zero_add]
  | three ha _ hb hc =>
      simp only [octalValue, List.foldl_cons, List.foldl_nil, ha.digit.2.1, hb.digit.2.1,
        hc.digit.2.1]
      omega

theorem exists_octal {c : Char} (h : isOctalDigit c = true) (rest : List Char) :
    ∃ value, Octal (octalDigits c rest) value := by
  obtain ⟨i, hc⟩ := isOctalDigit_iff.1 h
  unfold octalDigits
  rcases rest with - | ⟨b, rest⟩
  · exact ⟨_, by simpa using Octal.one hc⟩
  · cases hdigit : isOctalDigit b with
    | false =>
        split <;> exact ⟨_, by simpa [hdigit] using Octal.one hc⟩
    | true =>
        obtain ⟨j, hb⟩ := isOctalDigit_iff.1 hdigit
        split
        · rename_i hle
          rcases rest with - | ⟨d, rest⟩
          · exact ⟨_, by simpa [hdigit] using Octal.two hc hb⟩
          · cases hlast : isOctalDigit d with
            | false => exact ⟨_, by simpa [hdigit, hlast] using Octal.two hc hb⟩
            | true =>
                obtain ⟨k, hd⟩ := isOctalDigit_iff.1 hlast
                have hlt := hc.digit.2.2.1 hle
                exact ⟨_, by simpa [hdigit, hlast] using Octal.three hc hlt hb hd⟩
        · exact ⟨_, by simpa [hdigit] using Octal.two hc hb⟩

theorem octalDigits_prefix_cons (c : Char) (rest : List Char) :
    octalDigits c rest <+: c :: rest := by
  unfold octalDigits
  rw [List.prefix_cons_inj]
  exact (List.takeWhile_prefix _).trans (List.take_prefix _ _)

theorem Octal.length_le {c : Char} {more : List Char} {value : Nat} (h : Octal more value)
    (hmore : more <+: c :: rest) : more.length ≤ (octalDigits c rest).length := by
  unfold octalDigits
  cases h with
  | one ha => simp
  | two ha hb =>
      obtain ⟨rfl, hrest⟩ := List.cons_prefix_cons.1 hmore
      obtain ⟨later, rfl⟩ := hrest
      split <;> simp [hb.digit.1]
  | three ha hlt hb hc =>
      obtain ⟨rfl, hrest⟩ := List.cons_prefix_cons.1 hmore
      obtain ⟨later, rfl⟩ := hrest
      simp [ha.digit.2.2.2 hlt, hb.digit.1, hc.digit.1]

theorem HexUnit.lt {value : Nat} (h : HexUnit digits value) : value < 0x10000 := by
  cases h with
  | four ha hb hc hd =>
      have := lt_of_mem_digitValues ha
      have := lt_of_mem_digitValues hb
      have := lt_of_mem_digitValues hc
      have := lt_of_mem_digitValues hd
      simp only at *
      omega

theorem HexUnit.length_eq {value : Nat} (h : HexUnit digits value) : digits.length = 4 := by
  cases h
  rfl

theorem hexUnit?_eq_some_iff {value : Nat} :
    hexUnit? rest = some value ↔ ∃ digits, digits <+: rest ∧ HexUnit digits value := by
  constructor
  · intro h
    unfold hexUnit? at h
    split at h
    · rename_i a b c d later
      obtain ⟨i, ha, h⟩ := Option.bind_eq_some_iff.1 h
      obtain ⟨j, hb, h⟩ := Option.bind_eq_some_iff.1 h
      obtain ⟨k, hc, h⟩ := Option.bind_eq_some_iff.1 h
      obtain ⟨l, hd, h⟩ := Option.bind_eq_some_iff.1 h
      have hvalue : i * 0x1000 + j * 0x100 + k * 0x10 + l = value := by
        have := Option.some.inj h
        omega
      exact ⟨[a, b, c, d], ⟨later, rfl⟩, hvalue ▸ .four (hexDigit?_eq_some_iff.1 ha)
        (hexDigit?_eq_some_iff.1 hb) (hexDigit?_eq_some_iff.1 hc) (hexDigit?_eq_some_iff.1 hd)⟩
    · cases h
  · rintro ⟨digits, ⟨later, rfl⟩, h⟩
    cases h with
    | four ha hb hc hd =>
        simp only [List.cons_append, List.nil_append, hexUnit?, hexDigit?_eq_some_iff.2 ha,
          hexDigit?_eq_some_iff.2 hb, hexDigit?_eq_some_iff.2 hc, hexDigit?_eq_some_iff.2 hd,
          Option.bind_eq_bind, Option.bind_some]
        congr 1
        omega

theorem simple?_eq_some_iff {c value : Char} :
    simple? c = some value ↔ (c, value) ∈ letters := by
  constructor
  · intro h
    unfold simple? at h
    split at h <;> cases h <;> decide
  · intro h
    simp only [letters, List.mem_cons, Prod.mk.injEq, List.not_mem_nil, or_false] at h
    rcases h with ⟨rfl, rfl⟩ | ⟨rfl, rfl⟩ | ⟨rfl, rfl⟩ | ⟨rfl, rfl⟩ | ⟨rfl, rfl⟩ | ⟨rfl, rfl⟩ |
      ⟨rfl, rfl⟩ | ⟨rfl, rfl⟩ | ⟨rfl, rfl⟩ <;> rfl

theorem simple?_eq_none {c : Char} (h : c ∉ letters.map Prod.fst) : simple? c = none := by
  cases hc : simple? c with
  | none => rfl
  | some value => exact absurd (List.mem_map_of_mem (simple?_eq_some_iff.1 hc)) h

theorem simple?_of_isOctalDigit {c : Char} (h : isOctalDigit c = true) : simple? c = none := by
  apply simple?_eq_none
  revert h
  simp only [letters, List.map_cons, List.map_nil, List.mem_cons, List.not_mem_nil, or_false]
  intro h hletter
  rcases hletter with rfl | rfl | rfl | rfl | rfl | rfl | rfl | rfl | rfl <;> cases h

/-- Behind a row of `u`s either four digits are taken or nothing. -/
theorem unicode_us {n : Nat} (h : rest.head? ≠ some 'u') :
    unicode (List.replicate n 'u' ++ rest) = match hexUnit? rest with
      | some value => (.unit value, n + 4)
      | none => (.malformedUnicode, n) := by
  have hrow : ((List.replicate n 'u' ++ rest).takeWhile (· == 'u')).length = n := by
    rw [List.takeWhile_append_of_pos fun c hc => beq_iff_eq.2 (List.eq_of_mem_replicate hc)]
    cases rest with
    | nil => simp
    | cons c later =>
        have hc : (c == 'u') = false := by simpa using h
        simp [hc]
  have hdrop : (List.replicate n 'u' ++ rest).drop n = rest := by
    rw [List.drop_append_of_le_length (by simp)]
    simp
  cases hunit : hexUnit? rest with
  | none => simp only [unicode, hrow, hdrop, hunit]
  | some value => simp only [unicode, hrow, hdrop, hunit]

theorem HexUnit.head?_ne {value : Nat} (h : HexUnit digits value) :
    (digits ++ rest).head? ≠ some 'u' := by
  cases h with
  | four ha hb hc hd =>
      rintro hu
      cases hu
      cases hexDigit?_eq_some_iff.2 ha

theorem Octal.head {c : Char} {more : List Char} {value : Nat} (h : Octal (c :: more) value) :
    isOctalDigit c = true := h.forall_digit c List.mem_cons_self

/-- The longest octal escape is the one that is taken. -/
theorem octalDigits_eq {c : Char} {more : List Char} {value : Nat} (h : Octal (c :: more) value)
    (hlongest : ∀ digits value, digits <+: c :: more ++ rest → Octal digits value →
      digits.length ≤ (c :: more).length) : octalDigits c (more ++ rest) = c :: more := by
  obtain ⟨found, hfound⟩ := exists_octal h.head (more ++ rest)
  have htaken := octalDigits_prefix_cons c (more ++ rest)
  have hle := hlongest _ _ htaken hfound
  have hge := h.length_le (List.prefix_append (c :: more) rest)
  exact (List.prefix_of_prefix_length_le htaken (List.prefix_append _ _) hle).eq_of_length
    (Nat.le_antisymm hle hge)

theorem escape_of_octal {c : Char} (h : isOctalDigit c = true) :
    escape form c rest =
      (.char (Char.ofNat (octalValue (octalDigits c rest))), (octalDigits c rest).length - 1) := by
  rw [escape, simple?_of_isOctalDigit h]
  exact if_pos h

theorem escape_u : escape form 'u' rest = unicode rest := rfl

/-- An element with more than its backslash is what the escape of its letter gives. -/
theorem Element.escape_eq {c : Char} {more : List Char}
    (h : Element form piece ('\\' :: c :: more) rest) :
    escape form c (more ++ rest) = (piece, more.length) := by
  generalize htext : '\\' :: c :: more = text at h
  cases h with
  | ordinary hc =>
      cases htext
  | letter hletter =>
      cases htext
      rw [escape, simple?_eq_some_iff.2 hletter]
      rfl
  | @octal digits rest value hdigits hlongest =>
      cases htext
      rw [escape_of_octal hdigits.head, octalDigits_eq hdigits hlongest, hdigits.octalValue_eq,
        Char.ofNat_toNat]
      rfl
  | @unicode n value digits rest hunit =>
      rw [List.replicate_succ, List.cons_append] at htext
      cases htext
      have hvalue : hexUnit? (digits ++ rest) = some value :=
        hexUnit?_eq_some_iff.2 ⟨digits, List.prefix_append _ _, hunit⟩
      rw [List.append_assoc, escape_u, unicode_us hunit.head?_ne, hvalue]
      simp [hunit.length_eq]
  | @malformed n rest hu hnone =>
      rw [List.replicate_succ] at htext
      cases htext
      have hvalue : hexUnit? rest = none := by
        rw [Option.eq_none_iff_forall_ne_some]
        intro value hvalue
        obtain ⟨digits, hprefix, hunit⟩ := hexUnit?_eq_some_iff.1 hvalue
        exact hnone digits value hprefix hunit
      rw [escape_u, unicode_us hu, hvalue]
      simp
  | joinedLine hform hline =>
      subst hform
      rcases hline with rfl | rfl | ⟨rfl, hnext⟩
      · cases htext
        rfl
      · cases htext
        rfl
      · cases htext
        simp only [escape, List.nil_append, List.length_nil, if_neg hnext]
        rfl
  | invalid hc =>
      cases htext
      simp only [StartsEscape, not_or, not_and] at hc
      obtain ⟨hletter, hdigit, hu, hline⟩ := hc
      rw [escape, simple?_eq_none hletter, if_neg (isOctalDigit_iff.not.2 hdigit),
        if_neg (by simpa using hu), if_neg fun h => (hline h.1).1 h.2,
        if_neg fun h => (hline h.1).2 h.2]
      rfl
  | trailing => cases htext

/-- How an element is written: without a backslash, with nothing but a backslash, or with more. -/
theorem Element.forms (h : Element form piece text rest) :
    (∃ c, c ≠ '\\' ∧ text = [c] ∧ piece = .char c) ∨
      (text = ['\\'] ∧ rest = [] ∧ piece = .trailing) ∨ ∃ c more, text = '\\' :: c :: more := by
  cases h with
  | ordinary hc => exact .inl ⟨_, hc, rfl, rfl⟩
  | letter hletter => exact .inr (.inr ⟨_, _, rfl⟩)
  | octal hdigits hlongest =>
      obtain ⟨c, more, rfl⟩ := hdigits.exists_cons
      exact .inr (.inr ⟨_, _, rfl⟩)
  | unicode hunit => exact .inr (.inr ⟨_, _, rfl⟩)
  | malformed hu hnone => exact .inr (.inr ⟨_, _, rfl⟩)
  | joinedLine hform hline =>
      rcases hline with rfl | rfl | ⟨rfl, -⟩ <;> exact .inr (.inr ⟨_, _, rfl⟩)
  | invalid hc => exact .inr (.inr ⟨_, _, rfl⟩)
  | trailing => exact .inr (.inl ⟨rfl, rfl, rfl⟩)

theorem Element.length_pos (h : Element form piece text rest) : 0 < text.length := by
  rcases h.forms with ⟨_, -, rfl, -⟩ | ⟨rfl, -⟩ | ⟨_, _, rfl⟩ <;> exact Nat.zero_lt_succ _

theorem pieces_cons {c : Char} (hc : c ≠ '\\') :
    pieces form (c :: rest) = (.char c, c.utf8Size) :: pieces form rest := by
  rw [pieces]
  · exact fun heq _ => hc heq
  · exact fun _ _ heq => absurd heq hc

theorem Element.pieces_eq (h : Element form piece text rest) :
    pieces form (text ++ rest) = (piece, width text) :: pieces form rest := by
  rcases h.forms with ⟨c, hc, rfl, rfl⟩ | ⟨rfl, rfl, rfl⟩ | ⟨c, more, rfl⟩
  · exact pieces_cons hc
  · rw [List.append_nil, pieces, pieces]
    rfl
  · rw [List.cons_append, List.cons_append, pieces]
    simp only [h.escape_eq, List.take_left, List.drop_left, width]
    rw [Nat.add_assoc]
    rfl

theorem Elements.pieces_eq (h : Elements form content found) :
    pieces form content = found.map fun element => (element.1, width element.2) := by
  induction h with
  | nil => rw [pieces]; rfl
  | cons hfirst _ ih => rw [hfirst.pieces_eq, ih, List.map_cons]

theorem Elements.flatten_eq (h : Elements form content found) :
    (found.map Prod.snd).flatten = content := by
  induction h with
  | nil => rfl
  | cons _ _ ih => rw [List.map_cons, List.flatten_cons, ih]

theorem prefix_eq_of_width_eq {a b : List Char} (ha : a <+: content) (hb : b <+: content)
    (h : width a = width b) : a = b := by
  obtain ⟨more, rfl⟩ | ⟨more, rfl⟩ := List.prefix_or_prefix_of_prefix ha hb
  all_goals
    rw [width_append] at h
    cases more with
    | nil => rw [List.append_nil]
    | cons c more =>
        have := c.utf8Size_pos
        simp only [width] at h
        omega

theorem Elements.unique (h : Elements form content found) (hother : Elements form content other) :
    found = other := by
  induction h generalizing other with
  | nil =>
      have hpieces := hother.pieces_eq
      rw [pieces] at hpieces
      exact (List.map_eq_nil_iff.1 hpieces.symm).symm
  | @cons piece text rest later hfirst hlater ih =>
      generalize hwhole : text ++ rest = content at hother
      cases hother with
      | nil =>
          have hnil := hfirst.pieces_eq
          rw [hwhole, pieces] at hnil
          cases hnil
      | @cons piece' text' rest' later' hfirst' hlater' =>
          have hpieces := hfirst.pieces_eq
          rw [hwhole, hfirst'.pieces_eq] at hpieces
          obtain ⟨hpiece, hrest⟩ := List.cons.inj hpieces
          obtain ⟨rfl, hwidth⟩ := Prod.mk.inj hpiece
          have htext := prefix_eq_of_width_eq (List.prefix_append text' rest')
            (hwhole ▸ List.prefix_append text rest) hwidth
          subst htext
          rw [List.append_cancel_left hwhole] at ih
          rw [ih hlater']

theorem exists_us (rest : List Char) :
    ∃ n later, rest = List.replicate n 'u' ++ later ∧ later.head? ≠ some 'u' := by
  induction rest with
  | nil => exact ⟨0, [], rfl, nofun⟩
  | cons c rest ih =>
      by_cases hc : c = 'u'
      · obtain ⟨n, later, rfl, hlater⟩ := ih
        exact ⟨n + 1, later, by rw [hc, List.replicate_succ, List.cons_append], hlater⟩
      · exact ⟨0, c :: rest, rfl, fun h => hc (Option.some.inj h)⟩

theorem exists_octal_element {c : Char} (h : isOctalDigit c = true) (rest : List Char) :
    ∃ value later, octalDigits c rest ++ later = c :: rest ∧
      Element form (.char value) ('\\' :: octalDigits c rest) later := by
  obtain ⟨value, hvalue⟩ := exists_octal h rest
  obtain ⟨later, hlater⟩ := octalDigits_prefix_cons c rest
  have hvalid : value.isValidChar := .inl (Nat.lt_trans hvalue.lt (by decide))
  have htoNat : (Char.ofNat value).toNat = value := by
    rw [Char.ofNat, dif_pos hvalid]
    rfl
  refine ⟨Char.ofNat value, later, hlater, .octal (htoNat.symm ▸ hvalue) ?_⟩
  intro more value hmore hother
  rw [hlater] at hmore
  exact hother.length_le hmore

theorem exists_element (form : QuoteForm) {c : Char} (rest : List Char) :
    ∃ piece text later, text ++ later = c :: rest ∧ Element form piece text later := by
  by_cases hc : c = '\\'
  swap
  · exact ⟨_, _, rest, rfl, .ordinary hc⟩
  subst hc
  cases rest with
  | nil => exact ⟨_, _, [], rfl, .trailing⟩
  | cons d rest =>
      by_cases hd : StartsEscape form d
      swap
      · exact ⟨_, _, rest, rfl, .invalid hd⟩
      rcases hd with hletter | hdigit | rfl | ⟨hform, rfl | rfl⟩
      · obtain ⟨⟨_, value⟩, hmem, rfl⟩ := List.mem_map.1 hletter
        exact ⟨_, _, rest, rfl, .letter hmem⟩
      · have hdigit := isOctalDigit_iff.2 hdigit
        obtain ⟨value, later, hlater, hfirst⟩ := exists_octal_element hdigit rest
        exact ⟨_, _, later, congrArg ('\\' :: ·) hlater, hfirst⟩
      · obtain ⟨n, later, rfl, hlater⟩ := exists_us rest
        by_cases hunit : ∃ digits value, digits <+: later ∧ HexUnit digits value
        · obtain ⟨digits, value, ⟨later, rfl⟩, hunit⟩ := hunit
          refine ⟨_, _, later, ?_, .unicode (n := n) hunit⟩
          simp [List.replicate_succ]
        · refine ⟨_, _, later, ?_, .malformed (n := n) hlater ?_⟩
          · simp [List.replicate_succ]
          · exact fun digits value hprefix h => hunit ⟨digits, value, hprefix, h⟩
      · exact ⟨_, _, rest, rfl, .joinedLine hform (.inl rfl)⟩
      · by_cases hnext : rest.head? = some '\n'
        · obtain ⟨later, rfl⟩ := List.head?_eq_some_iff.1 hnext
          exact ⟨_, _, later, rfl, .joinedLine hform (.inr (.inl rfl))⟩
        · exact ⟨_, _, rest, rfl, .joinedLine hform (.inr (.inr ⟨rfl, hnext⟩))⟩

theorem exists_elements (form : QuoteForm) (content : List Char) :
    ∃ found, Elements form content found := by
  induction hlen : content.length using Nat.strong_induction_on generalizing content with
  | _ n ih =>
      cases content with
      | nil => exact ⟨[], .nil⟩
      | cons c rest =>
          obtain ⟨piece, text, later, hwhole, hfirst⟩ := exists_element form (c := c) rest
          have hpos := hfirst.length_pos
          have hlater : later.length < n := by
            rw [← hlen, ← hwhole, List.length_append]
            omega
          obtain ⟨found, hfound⟩ := ih _ hlater later rfl
          exact ⟨(piece, text) :: found, hwhole ▸ .cons hfirst hfound⟩

end JavaLex.Escape
