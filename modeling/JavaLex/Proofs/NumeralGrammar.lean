import Mathlib.Data.List.TakeWhile
import Mathlib.Tactic.Tauto
import JavaLex.Literal.Escape
import JavaLex.Literal.Numeral

/-! The grammar of numbers, and that the search for flaws accepts it. The text of a number is cut
into groups of digits; a group is right if it starts and ends with a digit. -/

namespace JavaLex.Numeral

/-- Digits of a base, and underscores. -/
def DigitRow (digit : Char → Bool) (text : List Char) : Prop :=
  ∀ c ∈ text, digit c = true ∨ c = '_'

/-- Digits, and underscores between them. -/
structure Digits (digit : Char → Bool) (text : List Char) : Prop where
  first : ∃ c, text.head? = some c ∧ digit c = true
  last : ∃ c, text.getLast? = some c ∧ digit c = true
  row : DigitRow digit text

def isSign (c : Char) : Bool := c == '+' || c == '-'

/-- Nothing, or one character of a class. -/
inductive Optional (accepts : Char → Bool) : List Char → Prop where
  | absent : Optional accepts []
  | present {c : Char} : accepts c = true → Optional accepts [c]

/-- Nothing, or a point and what may stand behind it. -/
inductive Fraction (P : List Char → Prop) : List Char → Prop where
  | absent : Fraction P []
  | present {digits : List Char} : P digits → Fraction P ('.' :: digits)

/-- A mark, a sign or none, and what may stand behind them. -/
inductive Exponent (mark : Char → Bool) (P : List Char → Prop) : List Char → Prop where
  | mk {c : Char} {sign digits : List Char} :
      mark c = true → Optional isSign sign → P digits → Exponent mark P (c :: (sign ++ digits))

/-- No digits, or digits as they should be. -/
def OptionalDigits (digit : Char → Bool) (text : List Char) : Prop :=
  text = [] ∨ Digits digit text

/-- The numbers of each form. -/
inductive WellFormed : NumberForm → List Char → Prop where
  | zero {suffix : List Char} : Optional isLongSuffix suffix → WellFormed .int ('0' :: suffix)
  | decimal {digits suffix : List Char} :
      Digits isDigit digits → digits.head? ≠ some '0' → Optional isLongSuffix suffix →
      WellFormed .int (digits ++ suffix)
  | octal {digits suffix : List Char} :
      Digits Escape.isOctalDigit ('0' :: digits) → digits ≠ [] → Optional isLongSuffix suffix →
      WellFormed .int ('0' :: (digits ++ suffix))
  | hexInt {x : Char} {digits suffix : List Char} :
      x ∈ ['x', 'X'] → Digits isHexDigit digits → Optional isLongSuffix suffix →
      WellFormed .hexInt ('0' :: x :: (digits ++ suffix))
  | binInt {b : Char} {digits suffix : List Char} :
      b ∈ ['b', 'B'] → Digits isBinaryDigit digits → Optional isLongSuffix suffix →
      WellFormed .binInt ('0' :: b :: (digits ++ suffix))
  /-- `1.`, `1.5`, `1.5e3f`. -/
  | pointed {whole fraction exponent suffix : List Char} :
      Digits isDigit whole → OptionalDigits isDigit fraction →
      exponent = [] ∨ Exponent isDecimalMark (Digits isDigit) exponent →
      Optional isFloatSuffix suffix →
      WellFormed .float (whole ++ ('.' :: fraction) ++ exponent ++ suffix)
  /-- `.5`, `.5e3f`. -/
  | fraction {fraction exponent suffix : List Char} :
      Digits isDigit fraction →
      exponent = [] ∨ Exponent isDecimalMark (Digits isDigit) exponent →
      Optional isFloatSuffix suffix →
      WellFormed .float (('.' :: fraction) ++ exponent ++ suffix)
  /-- `1e3`, `1e-3f`. -/
  | scaled {whole exponent suffix : List Char} :
      Digits isDigit whole → Exponent isDecimalMark (Digits isDigit) exponent →
      Optional isFloatSuffix suffix → WellFormed .float (whole ++ exponent ++ suffix)
  /-- `1f`. -/
  | suffixed {whole : List Char} {c : Char} :
      Digits isDigit whole → isFloatSuffix c = true → WellFormed .float (whole ++ [c])
  /-- `0x1p3`, `0x.8p-1f`. -/
  | hexFloat {x : Char} {whole fraction exponent suffix : List Char} :
      x ∈ ['x', 'X'] → OptionalDigits isHexDigit whole →
      Fraction (OptionalDigits isHexDigit) fraction → (whole ++ fraction).any isHexDigit = true →
      Exponent isBinaryMark (Digits isDigit) exponent → Optional isFloatSuffix suffix →
      WellFormed .hexFloat ('0' :: x :: (whole ++ fraction ++ exponent ++ suffix))

/-- A text that is empty or goes on with neither a digit nor an underscore. -/
def Stops (digit : Char → Bool) (text : List Char) : Prop :=
  ∀ c, text.head? = some c → c ≠ '_' ∧ digit c = false

variable {digit : Char → Bool} {group rest : List Char}

theorem underscoresJoined_of_stops (hstop : Stops digit rest) (joined : Bool) :
    underscoresJoined digit joined rest = underscoresJoined digit false rest := by
  cases rest with
  | nil => rfl
  | cons c rest =>
      have hc : (c == '_') = false := beq_eq_false_iff_ne.2 (hstop c rfl).1
      rw [underscoresJoined, underscoresJoined, hc]
      rfl

/-- In a group only the first and the last character matter, and what stands before the group. -/
theorem underscoresJoined_append (hgroup : DigitRow digit group) (hstop : Stops digit rest)
    (joined : Bool) :
    underscoresJoined digit joined (group ++ rest) = true ↔
      (joined = true ∨ group.head? ≠ some '_') ∧ group.getLast? ≠ some '_' ∧
        underscoresJoined digit false rest = true := by
  induction group generalizing joined with
  | nil => simp [underscoresJoined_of_stops hstop joined]
  | cons c group ih =>
      have hrest : DigitRow digit group := fun d hd => hgroup d (List.mem_cons_of_mem c hd)
      rw [List.cons_append, underscoresJoined]
      by_cases hc : c = '_'
      · subst hc
        cases group with
        | nil =>
            have hhead : rest.head?.any (fun d => d == '_' || digit d) = false := by
              cases rest with
              | nil => rfl
              | cons d rest =>
                  obtain ⟨hne, hdigit⟩ := hstop d rfl
                  simp [hne, hdigit]
            simp [hhead]
        | cons d group =>
            have hd : (d == '_' || digit d) = true := by
              have := hrest d List.mem_cons_self
              simp only [Bool.or_eq_true, beq_iff_eq]
              tauto
            rw [if_pos (beq_self_eq_true _), Bool.and_eq_true, Bool.and_eq_true, ih hrest,
              List.cons_append, List.head?_cons, Option.any_some, hd, List.getLast?_cons_cons]
            simp
      · have hdigit : digit c = true := (hgroup c List.mem_cons_self).resolve_right hc
        rw [if_neg (by simpa using hc), hdigit, ih hrest]
        cases group with
        | nil => simp [hc]
        | cons d group => simp [hc, List.getLast?_cons_cons]

theorem digits_of_any (hgroup : OptionalDigits digit group) :
    group.any digit = true ↔ Digits digit group := by
  rcases hgroup with rfl | h
  · simp only [List.any_nil, Bool.false_eq_true, false_iff]
    rintro ⟨⟨c, hc, -⟩, -, -⟩
    cases hc
  · refine iff_of_true ?_ h
    obtain ⟨c, hfirst, hc⟩ := h.first
    exact List.any_eq_true.2 ⟨c, List.mem_of_head? hfirst, hc⟩

theorem OptionalDigits.row (h : OptionalDigits digit group) : DigitRow digit group := by
  rcases h with rfl | h
  · exact fun c hc => by cases hc
  · exact h.row

theorem Fraction.mono {P Q : List Char → Prop} {fraction : List Char} (h : Fraction P fraction)
    (himp : ∀ digits, P digits → Q digits) : Fraction Q fraction := by
  cases h with
  | absent => exact .absent
  | present hdigits => exact .present (himp _ hdigits)

theorem Exponent.mono {mark : Char → Bool} {P Q : List Char → Prop} {exponent : List Char}
    (h : Exponent mark P exponent) (himp : ∀ digits, P digits → Q digits) :
    Exponent mark Q exponent := by
  cases h with
  | mk hmark hsign hdigits => exact .mk hmark hsign (himp _ hdigits)

theorem Fraction.stops {P : List Char → Prop} {fraction : List Char} (h : Fraction P fraction)
    (hpoint : digit '.' = false) (hrest : Stops digit rest) : Stops digit (fraction ++ rest) := by
  cases h with
  | absent => exact hrest
  | present _ =>
      intro c hc
      cases hc
      exact ⟨by decide, hpoint⟩

section

variable (hunder : digit '_' = false)

include hunder

theorem digits_iff (hgroup : DigitRow digit group) :
    Digits digit group ↔ group ≠ [] ∧ group.head? ≠ some '_' ∧ group.getLast? ≠ some '_' := by
  have hne : ∀ c, digit c = true → c ≠ '_' := by
    rintro c hc rfl
    rw [hunder] at hc
    cases hc
  constructor
  · rintro ⟨⟨c, hfirst, hc⟩, ⟨d, hlast, hd⟩, -⟩
    refine ⟨?_, ?_, ?_⟩
    · rintro rfl
      cases hfirst
    · rw [hfirst]
      exact fun h => hne c hc (Option.some.inj h)
    · rw [hlast]
      exact fun h => hne d hd (Option.some.inj h)
  · rintro ⟨hnil, hfirst, hlast⟩
    have hmem : ∀ c, c ∈ group → c ≠ '_' → digit c = true := fun c hc hne =>
      (hgroup c hc).resolve_right hne
    have hhead := List.head?_eq_some_head hnil
    have hend := List.getLast?_eq_some_getLast hnil
    refine ⟨⟨_, hhead, ?_⟩, ⟨_, hend, ?_⟩, hgroup⟩
    · apply hmem _ (List.head_mem hnil)
      exact fun heq => hfirst (heq ▸ hhead)
    · apply hmem _ (List.getLast_mem hnil)
      exact fun heq => hlast (heq ▸ hend)

theorem underscoresJoined_group (hgroup : DigitRow digit group) (hstop : Stops digit rest) :
    underscoresJoined digit false (group ++ rest) = true ↔
      OptionalDigits digit group ∧ underscoresJoined digit false rest = true := by
  rw [underscoresJoined_append hgroup hstop, OptionalDigits, digits_iff hunder hgroup]
  cases group with
  | nil => simp
  | cons c group => simp [and_assoc]

theorem underscoresJoined_fraction {fraction : List Char} (hpoint : digit '.' = false)
    (hfraction : Fraction (DigitRow digit) fraction) (hstop : Stops digit rest) :
    underscoresJoined digit false (fraction ++ rest) = true ↔
      Fraction (OptionalDigits digit) fraction ∧ underscoresJoined digit false rest = true := by
  cases hfraction with
  | absent => exact (and_iff_right .absent).symm
  | @present digits hdigits =>
      have hskip : underscoresJoined digit false ('.' :: digits ++ rest) =
          underscoresJoined digit false (digits ++ rest) := by
        rw [List.cons_append, underscoresJoined, if_neg (by decide), hpoint]
      have hgroup : Fraction (OptionalDigits digit) ('.' :: digits) ↔
          OptionalDigits digit digits := by
        refine ⟨?_, .present⟩
        rintro (_ | hdigits)
        exact hdigits
      rw [hskip, underscoresJoined_group hunder hdigits hstop, hgroup]

theorem underscoresJoined_parts {fraction : List Char} (hpoint : digit '.' = false)
    (hgroup : DigitRow digit group) (hfraction : Fraction (DigitRow digit) fraction)
    (hstop : Stops digit rest) :
    underscoresJoined digit false (group ++ fraction ++ rest) = true ↔
      OptionalDigits digit group ∧ Fraction (OptionalDigits digit) fraction ∧
        underscoresJoined digit false rest = true := by
  rw [List.append_assoc, underscoresJoined_group hunder hgroup (hfraction.stops hpoint hstop),
    underscoresJoined_fraction hunder hpoint hfraction hstop]

omit hunder in
theorem underscores_eq_none_iff {text : List Char} :
    underscores digit text = none ↔ underscoresJoined digit false text = true := by
  unfold underscores
  split
  · rename_i h
    exact iff_of_true rfl h
  · rename_i h
    exact iff_of_false nofun h

theorem underscores_group (hgroup : DigitRow digit group) :
    underscores digit group = none ↔ OptionalDigits digit group := by
  have hstop : Stops digit [] := nofun
  have hjoined := underscoresJoined_group hunder hgroup hstop
  rw [List.append_nil] at hjoined
  rw [underscores_eq_none_iff, hjoined]
  exact and_iff_left rfl

theorem underscores_parts {fraction : List Char} (hpoint : digit '.' = false)
    (hgroup : DigitRow digit group) (hfraction : Fraction (DigitRow digit) fraction) :
    underscores digit (group ++ fraction) = none ↔
      OptionalDigits digit group ∧ Fraction (OptionalDigits digit) fraction := by
  have hstop : Stops digit [] := nofun
  have hjoined := underscoresJoined_parts hunder hpoint hgroup hfraction hstop
  rw [List.append_nil] at hjoined
  rw [underscores_eq_none_iff, hjoined]
  exact and_congr_right fun _ => and_iff_left rfl

theorem flaw_of_digits (flaw : Flaw) (hgroup : DigitRow digit group) :
    (if group.any digit then underscores digit group else some flaw) = none ↔
      Digits digit group := by
  split
  · rename_i hany
    rw [underscores_group hunder hgroup]
    exact ⟨fun h => (digits_of_any h).1 hany, .inr⟩
  · rename_i hany
    exact iff_of_false nofun fun h => hany ((digits_of_any (.inr h)).2 h)

end

theorem apart_symm {accepts other : Char → Bool} (h : ∀ c, accepts c = true → other c = false)
    (c : Char) (hc : other c = true) : accepts c = false := by
  by_contra haccepts
  rw [h c (Bool.not_eq_false _ ▸ haccepts)] at hc
  cases hc

theorem isLongSuffix_apart {digit : Char → Bool}
    (hdigit : digit ∈ [isDigit, isHexDigit, isBinaryDigit]) {c : Char}
    (h : isLongSuffix c = true) : digit c = false ∧ c ≠ '_' := by
  simp only [isLongSuffix, Bool.or_eq_true, beq_iff_eq] at h
  simp only [List.mem_cons, List.not_mem_nil, or_false] at hdigit
  rcases hdigit with rfl | rfl | rfl <;> rcases h with rfl | rfl <;> decide

theorem isFloatSuffix_apart {c : Char} (h : isFloatSuffix c = true) :
    isDigit c = false ∧ c ≠ '_' ∧ c ≠ '.' := by
  simp only [isFloatSuffix, Bool.or_eq_true, beq_iff_eq] at h
  rcases h with ((rfl | rfl) | rfl) | rfl <;> decide

theorem isFloatSuffix_no_mark {c : Char} (h : isFloatSuffix c = true) :
    isDecimalMark c = false ∧ isBinaryMark c = false ∧ isSign c = false := by
  simp only [isFloatSuffix, Bool.or_eq_true, beq_iff_eq] at h
  rcases h with ((rfl | rfl) | rfl) | rfl <;> decide

theorem isDecimalMark_apart {c : Char} (h : isDecimalMark c = true) :
    isDigit c = false ∧ c ≠ '_' ∧ c ≠ '.' := by
  simp only [isDecimalMark, Bool.or_eq_true, beq_iff_eq] at h
  rcases h with rfl | rfl <;> decide

theorem isBinaryMark_apart {c : Char} (h : isBinaryMark c = true) :
    isHexDigit c = false ∧ c ≠ '_' ∧ c ≠ '.' := by
  simp only [isBinaryMark, Bool.or_eq_true, beq_iff_eq] at h
  rcases h with rfl | rfl <;> decide

theorem isSign_apart {c : Char} (h : isSign c = true) : isDigit c = false ∧ c ≠ '_' := by
  simp only [isSign, Bool.or_eq_true, beq_iff_eq] at h
  rcases h with rfl | rfl <;> decide

theorem DigitRow.refuses {accepts : Char → Bool} (h : DigitRow digit group)
    (hapart : ∀ c, accepts c = true → digit c = false ∧ c ≠ '_') :
    ∀ c ∈ group, accepts c = false := by
  intro c hc
  by_contra haccepts
  obtain ⟨hdigit, hunder⟩ := hapart c (Bool.not_eq_false _ ▸ haccepts)
  rcases h c hc with h | h
  · rw [hdigit] at h
    cases h
  · exact hunder h

theorem Fraction.refuses {accepts : Char → Bool} {fraction : List Char}
    (h : Fraction (DigitRow digit) fraction)
    (hapart : ∀ c, accepts c = true → digit c = false ∧ c ≠ '_' ∧ c ≠ '.') :
    ∀ c ∈ fraction, accepts c = false := by
  cases h with
  | absent => exact fun c hc => by cases hc
  | present hdigits =>
      refine List.forall_mem_cons.2 ⟨?_, ?_⟩
      · by_contra haccepts
        exact (hapart '.' (Bool.not_eq_false _ ▸ haccepts)).2.2 rfl
      · exact hdigits.refuses fun c hc => ⟨(hapart c hc).1, (hapart c hc).2.1⟩

theorem parts_refuse {accepts : Char → Bool} {fraction : List Char} (hgroup : DigitRow digit group)
    (hfraction : Fraction (DigitRow digit) fraction)
    (hapart : ∀ c, accepts c = true → digit c = false ∧ c ≠ '_' ∧ c ≠ '.') :
    ∀ c ∈ group ++ fraction, accepts c = false := by
  refine List.forall_mem_append.2 ⟨hgroup.refuses fun c hc => ?_, hfraction.refuses hapart⟩
  obtain ⟨hdigit, hunder, -⟩ := hapart c hc
  exact ⟨hdigit, hunder⟩

theorem Optional.refuses {accepts other : Char → Bool} {text : List Char}
    (h : Optional accepts text) (hapart : ∀ c, other c = true → accepts c = false) :
    ∀ c ∈ text, other c = false := by
  cases h with
  | absent => exact fun c hc => by cases hc
  | present haccepts => exact List.forall_mem_singleton.2 (apart_symm hapart _ haccepts)

theorem withoutSuffix_append {suffix : Char → Bool} {body tail : List Char}
    (htail : Optional suffix tail) (hbody : ∀ c ∈ body, suffix c = false) :
    withoutSuffix suffix (body ++ tail) = body := by
  unfold withoutSuffix
  cases htail with
  | absent =>
      rw [List.append_nil, if_neg]
      intro hany
      obtain ⟨c, hlast, hc⟩ := (Option.any_eq_true _ _).1 hany
      rw [hbody c (List.mem_of_getLast? hlast)] at hc
      cases hc
  | present hc => rw [List.getLast?_concat, Option.any_some, if_pos hc, List.dropLast_concat]

theorem withoutSign_append {sign power : List Char} (hsign : Optional isSign sign)
    (hpower : ∀ c ∈ power, isSign c = false) : withoutSign (sign ++ power) = power := by
  cases hsign with
  | absent =>
      cases power with
      | nil => rfl
      | cons c power =>
          have hc := hpower c List.mem_cons_self
          simp only [isSign, Bool.or_eq_false_iff, beq_eq_false_iff_ne] at hc
          rw [List.nil_append, withoutSign]
          · exact fun _ h => hc.1 (List.cons.inj h).1
          · exact fun _ h => hc.2 (List.cons.inj h).1
  | present hc =>
      simp only [isSign, Bool.or_eq_true, beq_iff_eq] at hc
      rcases hc with rfl | rfl <;> rfl

theorem splitAtMark_eq_none {mark : Char → Bool} {text : List Char}
    (h : ∀ c ∈ text, mark c = false) : splitAtMark mark text = none := by
  have hdrop : text.dropWhile (!mark ·) = [] :=
    List.dropWhile_eq_nil_iff.2 fun c hc => by rw [h c hc]; rfl
  rw [splitAtMark, hdrop]

theorem splitAtMark_append {mark : Char → Bool} {before after : List Char} {c : Char}
    (hc : mark c = true) (h : ∀ d ∈ before, mark d = false) :
    splitAtMark mark (before ++ c :: after) = some (before, after) := by
  have hbefore : ∀ d ∈ before, (!mark d) = true := fun d hd => by rw [h d hd]; rfl
  rw [splitAtMark, List.dropWhile_append_of_pos hbefore, List.takeWhile_append_of_pos hbefore]
  simp [hc]

theorem withoutPrefix_cons {x : Char} {text : List Char} (hx : x ∈ ['x', 'X', 'b', 'B']) :
    withoutPrefix ('0' :: x :: text) = text := by
  have hsize : x.utf8Size = 1 := by
    simp only [List.mem_cons, List.not_mem_nil, or_false] at hx
    obtain rfl | rfl | rfl | rfl := hx <;> rfl
  simp [withoutPrefix, dropBytes?, hsize, show ('0').utf8Size = 1 from rfl]

section

variable {digits whole fraction exponent suffix : List Char} {x : Char}

theorem intFlaw_eq_none_iff (hdigits : DigitRow isDigit digits) (hne : digits ≠ [])
    (hsuffix : Optional isLongSuffix suffix) :
    intFlaw (digits ++ suffix) = none ↔ Digits isDigit digits ∧
      (digits.head? = some '0' → ∀ c ∈ digits, c ≠ '8' ∧ c ≠ '9') := by
  have hbody : withoutSuffix isLongSuffix (digits ++ suffix) = digits :=
    withoutSuffix_append hsuffix (hdigits.refuses fun _ => isLongSuffix_apart (by simp))
  have hgroup : underscores isDigit digits = none ↔ Digits isDigit digits := by
    rw [underscores_group rfl hdigits, OptionalDigits, or_iff_right hne]
  simp only [intFlaw, hbody]
  split
  · rename_i rest
    split
    · rename_i hany
      obtain ⟨c, hc, hbad⟩ := List.any_eq_true.1 hany
      refine iff_of_false nofun fun h => ?_
      obtain ⟨hne8, hne9⟩ := h.2 rfl c (List.mem_cons_of_mem _ hc)
      simp [hne8, hne9] at hbad
    · rename_i hany
      rw [hgroup, iff_self_and]
      refine fun _ _ => List.forall_mem_cons.2 ⟨by decide, ?_⟩
      intro c hc
      have hgood := List.any_eq_false.1 (Bool.eq_false_iff.2 hany) c hc
      simpa using hgood
  · rename_i hzero
    rw [hgroup, iff_self_and]
    intro _ hhead
    obtain ⟨rest, rfl⟩ := List.head?_eq_some_iff.1 hhead
    exact absurd rfl (hzero rest)

theorem hexIntFlaw_eq_none_iff (hx : x ∈ ['x', 'X']) (hdigits : DigitRow isHexDigit digits)
    (hsuffix : Optional isLongSuffix suffix) :
    hexIntFlaw ('0' :: x :: (digits ++ suffix)) = none ↔ Digits isHexDigit digits := by
  have hbody : withoutSuffix isLongSuffix (digits ++ suffix) = digits :=
    withoutSuffix_append hsuffix (hdigits.refuses fun _ => isLongSuffix_apart (by simp))
  rw [hexIntFlaw, withoutPrefix_cons (List.mem_append_left ['b', 'B'] hx), hbody]
  exact flaw_of_digits rfl .noHexDigits hdigits

theorem binIntFlaw_eq_none_iff (hx : x ∈ ['b', 'B']) (hdigits : DigitRow isBinaryDigit digits)
    (hsuffix : Optional isLongSuffix suffix) :
    binIntFlaw ('0' :: x :: (digits ++ suffix)) = none ↔ Digits isBinaryDigit digits := by
  have hbody : withoutSuffix isLongSuffix (digits ++ suffix) = digits :=
    withoutSuffix_append hsuffix (hdigits.refuses fun _ => isLongSuffix_apart (by simp))
  rw [binIntFlaw, withoutPrefix_cons (List.mem_append_right ['x', 'X'] hx), hbody]
  exact flaw_of_digits rfl .noBinaryDigits hdigits

section

variable {mark : Char → Bool} {c : Char} {sign power : List Char}

theorem withoutSign_power (hsign : Optional isSign sign) (hpower : DigitRow isDigit power) :
    withoutSign (sign ++ power) = power :=
  withoutSign_append hsign (hpower.refuses fun _ hc => isSign_apart hc)

theorem power_letters (hsign : Optional isSign sign) (hpower : DigitRow isDigit power) :
    ∀ c ∈ sign ++ power, isFloatSuffix c = false := by
  refine List.forall_mem_append.2 ⟨hsign.refuses ?_, hpower.refuses ?_⟩
  · exact fun c hc => (isFloatSuffix_no_mark hc).2.2
  · exact fun c hc => ⟨(isFloatSuffix_apart hc).1, (isFloatSuffix_apart hc).2.1⟩

theorem exponent_iff (hmark : mark c = true) (hsign : Optional isSign sign)
    (hpower : DigitRow isDigit power) :
    Exponent mark (Digits isDigit) (c :: (sign ++ power)) ↔ Digits isDigit power := by
  refine ⟨?_, .mk hmark hsign⟩
  generalize htext : c :: (sign ++ power) = text
  rintro ⟨-, hsign', hdigits⟩
  have hsame := (List.cons.inj htext).2
  rw [← withoutSign_power hsign hpower, hsame, withoutSign_power hsign' hdigits.row]
  exact hdigits

theorem underscoresJoined_exponent (hmark : isDigit c = false ∧ c ≠ '_')
    (hsign : Optional isSign sign) (hpower : DigitRow isDigit power) :
    underscoresJoined isDigit false (c :: (sign ++ power)) = true ↔
      OptionalDigits isDigit power := by
  have hgroup : underscores isDigit power = none ↔ OptionalDigits isDigit power :=
    underscores_group rfl hpower
  rw [underscoresJoined, if_neg (by simpa using hmark.2), hmark.1, ← hgroup,
    underscores_eq_none_iff]
  cases hsign with
  | absent => rfl
  | present hc =>
      obtain ⟨hdigit, hunder⟩ := isSign_apart hc
      rw [List.singleton_append, underscoresJoined, if_neg (by simpa using hunder), hdigit]

end

theorem floatFlaw_eq_none_iff (hwhole : DigitRow isDigit whole)
    (hfraction : Fraction (DigitRow isDigit) fraction)
    (hexponent : exponent = [] ∨ Exponent isDecimalMark (DigitRow isDigit) exponent)
    (hsuffix : Optional isFloatSuffix suffix) :
    floatFlaw (whole ++ fraction ++ exponent ++ suffix) = none ↔
      OptionalDigits isDigit whole ∧ Fraction (OptionalDigits isDigit) fraction ∧
        (exponent = [] ∨ Exponent isDecimalMark (Digits isDigit) exponent) := by
  have hmarks : ∀ c ∈ whole ++ fraction, isDecimalMark c = false :=
    parts_refuse hwhole hfraction fun _ => isDecimalMark_apart
  have hletters : ∀ c ∈ whole ++ fraction, isFloatSuffix c = false :=
    parts_refuse hwhole hfraction fun _ => isFloatSuffix_apart
  rcases hexponent with rfl | hexponent
  · have hbody : withoutSuffix isFloatSuffix (whole ++ fraction ++ [] ++ suffix) =
        whole ++ fraction := by
      rw [List.append_nil, withoutSuffix_append hsuffix hletters]
    simp only [floatFlaw, hbody, splitAtMark_eq_none hmarks, true_or, and_true]
    exact underscores_parts rfl rfl hwhole hfraction
  · cases hexponent with
    | @mk c sign power hmark hsign hpower =>
        have hapart := isDecimalMark_apart hmark
        have hsuffixes : ∀ d ∈ whole ++ fraction ++ c :: (sign ++ power),
            isFloatSuffix d = false := by
          refine List.forall_mem_append.2 ⟨hletters, List.forall_mem_cons.2 ⟨?_, ?_⟩⟩
          · exact apart_symm (fun d hd => (isFloatSuffix_no_mark hd).1) c hmark
          · exact power_letters hsign hpower
        have hstop : Stops isDigit (c :: (sign ++ power)) := by
          intro d hd
          cases hd
          exact ⟨hapart.2.1, hapart.1⟩
        simp only [floatFlaw, withoutSuffix_append hsuffix hsuffixes,
          splitAtMark_append hmark hmarks, withoutSign_power hsign hpower]
        rw [or_iff_right (List.cons_ne_nil _ _), exponent_iff hmark hsign hpower]
        split
        · rename_i hany
          rw [underscores_eq_none_iff, underscoresJoined_parts rfl rfl hwhole hfraction hstop,
            underscoresJoined_exponent ⟨hapart.1, hapart.2.1⟩ hsign hpower]
          exact and_congr_right fun _ => and_congr_right fun _ =>
            ⟨fun h => (digits_of_any h).1 hany, .inr⟩
        · rename_i hany
          exact iff_of_false nofun fun h => hany ((digits_of_any (.inr h.2.2)).2 h.2.2)

theorem floatFlaw_of_parts (hwhole : OptionalDigits isDigit whole)
    (hfraction : Fraction (OptionalDigits isDigit) fraction)
    (hexponent : exponent = [] ∨ Exponent isDecimalMark (Digits isDigit) exponent)
    (hsuffix : Optional isFloatSuffix suffix) :
    floatFlaw (whole ++ fraction ++ exponent ++ suffix) = none := by
  have hfraction' := hfraction.mono fun _ => OptionalDigits.row
  have hexponent' := hexponent.imp_right fun h => h.mono fun _ => Digits.row
  exact (floatFlaw_eq_none_iff hwhole.row hfraction' hexponent' hsuffix).2
    ⟨hwhole, hfraction, hexponent⟩

theorem hexFloatFlaw_eq_none_iff (hx : x ∈ ['x', 'X']) (hwhole : DigitRow isHexDigit whole)
    (hfraction : Fraction (DigitRow isHexDigit) fraction)
    (hexponent : exponent = [] ∨ Exponent isBinaryMark (DigitRow isDigit) exponent)
    (hsuffix : Optional isFloatSuffix suffix) :
    hexFloatFlaw ('0' :: x :: (whole ++ fraction ++ exponent ++ suffix)) = none ↔
      OptionalDigits isHexDigit whole ∧ Fraction (OptionalDigits isHexDigit) fraction ∧
        (whole ++ fraction).any isHexDigit = true ∧
        Exponent isBinaryMark (Digits isDigit) exponent := by
  have hmarks : ∀ c ∈ whole ++ fraction, isBinaryMark c = false :=
    parts_refuse hwhole hfraction fun _ => isBinaryMark_apart
  have hstart : withoutPrefix ('0' :: x :: (whole ++ fraction ++ exponent ++ suffix)) =
      whole ++ fraction ++ exponent ++ suffix :=
    withoutPrefix_cons (List.mem_append_left ['b', 'B'] hx)
  rw [hexFloatFlaw, hstart]
  rcases hexponent with rfl | hexponent
  · have hnone : ∀ c ∈ whole ++ fraction ++ [] ++ suffix, isBinaryMark c = false := by
      rw [List.append_nil]
      refine List.forall_mem_append.2 ⟨hmarks, hsuffix.refuses ?_⟩
      exact apart_symm fun c hc => (isFloatSuffix_no_mark hc).2.1
    rw [splitAtMark_eq_none hnone]
    refine iff_of_false ?_ fun h => nomatch h.2.2.2
    simp only
    split <;> exact nofun
  · cases hexponent with
    | @mk c sign power hmark hsign hpower =>
        have hbody : whole ++ fraction ++ c :: (sign ++ power) ++ suffix =
            whole ++ fraction ++ c :: (sign ++ power ++ suffix) := by
          rw [List.append_assoc, List.cons_append]
        rw [hbody, splitAtMark_append hmark hmarks, exponent_iff hmark hsign hpower]
        simp only [withoutSuffix_append hsuffix (power_letters hsign hpower),
          withoutSign_power hsign hpower]
        split
        · rename_i hnone
          refine iff_of_false nofun fun h => ?_
          rw [h.2.2.1] at hnone
          cases hnone
        · rename_i hsome
          rw [Bool.not_eq_true', Bool.not_eq_false] at hsome
          split
          · rename_i hnone
            refine iff_of_false nofun fun h => ?_
            rw [(digits_of_any (.inr h.2.2.2)).2 h.2.2.2] at hnone
            cases hnone
          · rename_i hany
            rw [Bool.not_eq_true', Bool.not_eq_false] at hany
            rw [Option.or_eq_none_iff, underscores_parts rfl rfl hwhole hfraction,
              underscores_group rfl hpower, and_assoc]
            refine and_congr_right fun _ => and_congr_right fun _ => ?_
            rw [and_iff_right hsome]
            exact ⟨fun h => (digits_of_any h).1 hany, .inr⟩

end

/-- A row that starts with a digit. -/
structure Whole (text : List Char) : Prop where
  first : ∃ c, text.head? = some c ∧ isDigit c = true
  row : DigitRow isDigit text

theorem Whole.ne_nil {text : List Char} (h : Whole text) : text ≠ [] := by
  rintro rfl
  obtain ⟨c, hc, -⟩ := h.first
  cases hc

/-- What is taken for a number: rows of digits where the grammar has digits. -/
inductive Scanned : NumberForm → List Char → Prop where
  | int {digits suffix : List Char} :
      Whole digits → Optional isLongSuffix suffix → Scanned .int (digits ++ suffix)
  | hexInt {x : Char} {digits suffix : List Char} :
      x ∈ ['x', 'X'] → DigitRow isHexDigit digits → Optional isLongSuffix suffix →
      Scanned .hexInt ('0' :: x :: (digits ++ suffix))
  | binInt {b : Char} {digits suffix : List Char} :
      b ∈ ['b', 'B'] → DigitRow isBinaryDigit digits → Optional isLongSuffix suffix →
      Scanned .binInt ('0' :: b :: (digits ++ suffix))
  | float {whole fraction exponent suffix : List Char} :
      Whole whole → Fraction (DigitRow isDigit) fraction →
      exponent = [] ∨ Exponent isDecimalMark (DigitRow isDigit) exponent →
      Optional isFloatSuffix suffix → (fraction = [] → exponent = [] → suffix ≠ []) →
      Scanned .float (whole ++ fraction ++ exponent ++ suffix)
  | point {digits exponent suffix : List Char} :
      Whole digits → exponent = [] ∨ Exponent isDecimalMark (DigitRow isDigit) exponent →
      Optional isFloatSuffix suffix →
      Scanned .float (('.' :: digits) ++ exponent ++ suffix)
  | hexFloat {x : Char} {whole fraction exponent suffix : List Char} :
      x ∈ ['x', 'X'] → DigitRow isHexDigit whole → Fraction (DigitRow isHexDigit) fraction →
      exponent = [] ∨ Exponent isBinaryMark (DigitRow isDigit) exponent →
      Optional isFloatSuffix suffix → (fraction = [] → exponent ≠ []) →
      Scanned .hexFloat ('0' :: x :: (whole ++ fraction ++ exponent ++ suffix))

theorem isOctalDigit_iff {c : Char} :
    Escape.isOctalDigit c = true ↔ isDigit c = true ∧ c ≠ '8' ∧ c ≠ '9' := by
  have hval : ∀ d : Char, c ≠ d ↔ c.val.toNat ≠ d.val.toNat := fun d => Char.toNat_inj.not.symm
  simp only [Escape.isOctalDigit, isDigit, Bool.and_eq_true, decide_eq_true_eq, Char.le_def,
    UInt32.le_iff_toNat_le, hval]
  have hzero : ('0').val.toNat = 48 := rfl
  have hseven : ('7').val.toNat = 55 := rfl
  have height : ('8').val.toNat = 56 := rfl
  have hnine : ('9').val.toNat = 57 := rfl
  omega

theorem digits_octal {digits : List Char} :
    Digits Escape.isOctalDigit digits ↔
      Digits isDigit digits ∧ ∀ c ∈ digits, c ≠ '8' ∧ c ≠ '9' := by
  constructor
  · rintro ⟨⟨c, hfirst, hc⟩, ⟨d, hlast, hd⟩, hrow⟩
    have hmem : ∀ c ∈ digits, (isDigit c = true ∨ c = '_') ∧ c ≠ '8' ∧ c ≠ '9' := by
      intro c hc
      rcases hrow c hc with h | rfl
      · obtain ⟨hdigit, hne⟩ := isOctalDigit_iff.1 h
        exact ⟨.inl hdigit, hne⟩
      · decide
    exact ⟨⟨⟨c, hfirst, (isOctalDigit_iff.1 hc).1⟩, ⟨d, hlast, (isOctalDigit_iff.1 hd).1⟩,
      fun c hc => (hmem c hc).1⟩, fun c hc => (hmem c hc).2⟩
  · rintro ⟨⟨⟨c, hfirst, hc⟩, ⟨d, hlast, hd⟩, hrow⟩, hgood⟩
    refine ⟨⟨c, hfirst, ?_⟩, ⟨d, hlast, ?_⟩, ?_⟩
    · exact isOctalDigit_iff.2 ⟨hc, hgood c (List.mem_of_head? hfirst)⟩
    · exact isOctalDigit_iff.2 ⟨hd, hgood d (List.mem_of_getLast? hlast)⟩
    · intro e he
      exact (hrow e he).imp_left fun h => isOctalDigit_iff.2 ⟨h, hgood e he⟩

variable {form : NumberForm} {text : List Char}

theorem flaw?_of_wellFormed (h : WellFormed form text) :
    flaw? form (String.ofList text) = none := by
  unfold flaw?
  rw [String.toList_ofList]
  cases h with
  | zero hsuffix =>
      have hrow : DigitRow isDigit ['0'] := List.forall_mem_singleton.2 (.inl rfl)
      have hzero : Digits isDigit ['0'] := ⟨⟨'0', rfl, rfl⟩, ⟨'0', rfl, rfl⟩, hrow⟩
      refine (intFlaw_eq_none_iff hrow (List.cons_ne_nil _ _) hsuffix).2 ⟨hzero, fun _ => ?_⟩
      exact List.forall_mem_singleton.2 ⟨by decide, by decide⟩
  | decimal hdigits hhead hsuffix =>
      have hne := ((digits_iff rfl hdigits.row).1 hdigits).1
      exact (intFlaw_eq_none_iff hdigits.row hne hsuffix).2 ⟨hdigits, fun h => absurd h hhead⟩
  | octal hdigits _ hsuffix =>
      obtain ⟨hdigits, hgood⟩ := digits_octal.1 hdigits
      exact (intFlaw_eq_none_iff hdigits.row (List.cons_ne_nil _ _) hsuffix).2
        ⟨hdigits, fun _ => hgood⟩
  | hexInt hx hdigits hsuffix => exact (hexIntFlaw_eq_none_iff hx hdigits.row hsuffix).2 hdigits
  | binInt hb hdigits hsuffix => exact (binIntFlaw_eq_none_iff hb hdigits.row hsuffix).2 hdigits
  | pointed hwhole hfraction hexponent hsuffix =>
      exact floatFlaw_of_parts (.inr hwhole) (.present hfraction) hexponent hsuffix
  | fraction hfraction hexponent hsuffix =>
      have hwhole : OptionalDigits isDigit [] := .inl rfl
      exact floatFlaw_of_parts hwhole (.present (.inr hfraction)) hexponent hsuffix
  | scaled hwhole hexponent hsuffix =>
      have hnone := floatFlaw_of_parts (.inr hwhole) .absent (.inr hexponent) hsuffix
      rwa [List.append_nil] at hnone
  | suffixed hwhole hc =>
      have hnone := floatFlaw_of_parts (.inr hwhole) .absent (.inl rfl) (.present hc)
      rwa [List.append_nil, List.append_nil] at hnone
  | hexFloat hx hwhole hfraction hany hexponent hsuffix =>
      exact (hexFloatFlaw_eq_none_iff hx hwhole.row (hfraction.mono fun _ => OptionalDigits.row)
        (.inr (hexponent.mono fun _ => Digits.row)) hsuffix).2
        ⟨hwhole, hfraction, hany, hexponent⟩

theorem Scanned.wellFormed (h : Scanned form text)
    (hflaw : flaw? form (String.ofList text) = none) : WellFormed form text := by
  unfold flaw? at hflaw
  rw [String.toList_ofList] at hflaw
  cases h with
  | @int digits suffix hwhole hsuffix =>
      obtain ⟨hdigits, hoctal⟩ := (intFlaw_eq_none_iff hwhole.row hwhole.ne_nil hsuffix).1 hflaw
      by_cases hhead : digits.head? = some '0'
      · obtain ⟨rest, rfl⟩ := List.head?_eq_some_iff.1 hhead
        cases rest with
        | nil => exact .zero hsuffix
        | cons c rest =>
            exact .octal (digits_octal.2 ⟨hdigits, hoctal hhead⟩) (List.cons_ne_nil _ _) hsuffix
      · exact .decimal hdigits hhead hsuffix
  | hexInt hx hdigits hsuffix =>
      exact .hexInt hx ((hexIntFlaw_eq_none_iff hx hdigits hsuffix).1 hflaw) hsuffix
  | binInt hb hdigits hsuffix =>
      exact .binInt hb ((binIntFlaw_eq_none_iff hb hdigits hsuffix).1 hflaw) hsuffix
  | @float whole fraction exponent suffix hwhole hfraction hexponent hsuffix hany =>
      have hne := hwhole.ne_nil
      obtain ⟨hwhole, hfraction, hexponent⟩ :=
        (floatFlaw_eq_none_iff hwhole.row hfraction hexponent hsuffix).1 hflaw
      replace hwhole := hwhole.resolve_left hne
      cases hfraction with
      | present hdigits => exact .pointed hwhole hdigits hexponent hsuffix
      | absent =>
          rw [List.append_nil]
          rcases hexponent with rfl | hexponent
          · cases hsuffix with
            | absent => exact absurd rfl (hany rfl rfl)
            | present hc =>
                rw [List.append_nil]
                exact .suffixed hwhole hc
          · exact .scaled hwhole hexponent hsuffix
  | @point digits exponent suffix hwhole hexponent hsuffix =>
      have hnone : DigitRow isDigit [] := List.forall_mem_nil _
      obtain ⟨-, hfraction, hexponent⟩ :=
        (floatFlaw_eq_none_iff hnone (.present hwhole.row) hexponent hsuffix).1 hflaw
      cases hfraction with
      | present hdigits =>
          exact .fraction (hdigits.resolve_left hwhole.ne_nil) hexponent hsuffix
  | hexFloat hx hwhole hfraction hexponent hsuffix _ =>
      obtain ⟨hwhole, hfraction, hany, hexponent⟩ :=
        (hexFloatFlaw_eq_none_iff hx hwhole hfraction hexponent hsuffix).1 hflaw
      exact .hexFloat hx hwhole hfraction hany hexponent hsuffix

end JavaLex.Numeral
