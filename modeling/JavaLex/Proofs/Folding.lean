import Mathlib.Data.List.Infix
import JavaLex.Proofs.Events
import JavaLex.Proofs.Grouping

/-! What an `@` takes along, told from the lexemes behind it: a name, its qualification as far as it
goes, and the shortest row behind them in which parentheses balance. -/

namespace JavaLex

def Source.spellings (s : Source) : Nat → List Lexeme → List (Tag × String)
  | _, [] => []
  | p, lexeme :: rest =>
    (lexeme.tag, s.slice p (p + lexeme.len)) :: s.spellings (p + lexeme.len) rest

/-- A word that is not reserved. -/
def isPlainName (entry : Tag × String) : Bool := entry.1 == .word && !isReserved entry.2

/-- Dots with a name behind each. -/
inductive Qualifies : List (Tag × String) → Prop where
  | nil : Qualifies []
  | cons {dot name : Tag × String} {rest : List (Tag × String)} :
      dot.1 = .separator .dot → isPlainName name = true → Qualifies rest →
      Qualifies (dot :: name :: rest)

def opened (row : List (Tag × String)) : Nat := row.countP (·.1 == .separator .leftParen)

def closed (row : List (Tag × String)) : Nat := row.countP (·.1 == .separator .rightParen)

/-- Some lexemes, among them as many opening as closing parentheses. -/
def IsBalanced (row : List (Tag × String)) : Prop := row ≠ [] ∧ opened row = closed row

/-- The longest start of a row that has a property. -/
structure IsLongest (P : List (Tag × String) → Prop) (row found : List (Tag × String)) : Prop where
  start : found <+: row
  holds : P found
  length_le : ∀ other, other <+: row → P other → other.length ≤ found.length

/-- The shortest start of a row that has a property. -/
structure IsShortest (P : List (Tag × String) → Prop) (row found : List (Tag × String)) :
    Prop where
  start : found <+: row
  holds : P found
  length_le : ∀ other, other <+: row → P other → found.length ≤ other.length

/-- The arguments at the start of a row, and whether their last parenthesis is there. -/
inductive Arguments (extent : AnnotationExtent) (row : List (Tag × String)) :
    Bool → List (Tag × String) → Prop where
  | none :
      extent = .nameOnly ∨ row.head?.map Prod.fst ≠ some (.separator .leftParen) →
      Arguments extent row true []
  | balanced {arguments : List (Tag × String)} :
      extent = .region → row.head?.map Prod.fst = some (.separator .leftParen) →
      IsShortest IsBalanced row arguments → Arguments extent row true arguments
  | unbalanced :
      extent = .region → row.head?.map Prod.fst = some (.separator .leftParen) →
      (∀ other, other <+: row → ¬ IsBalanced other) → Arguments extent row false row

/-- What an `@` is by the row of lexemes behind it, and those of them that it takes along. -/
structure Folds (extent : AnnotationExtent) (row : List (Tag × String)) (sign : AtSign)
    (taken : List (Tag × String)) : Prop where
  punctuation_iff : sign = .punctuation ↔
    ∀ first, row.head? = some first → first.1 = .word →
      isReserved first.2 = true ∧ first.2 ≠ "interface"
  of_punctuation : sign = .punctuation → taken = []
  interfaceWord_iff : sign = .interfaceWord ↔ row.head?.map Prod.snd = some "interface"
  of_interfaceWord : sign = .interfaceWord → taken = [(.word, "interface")]
  annotationMark : ∀ balanced, sign = .annotationMark balanced →
    ∃ name qualifier arguments, taken = name :: (qualifier ++ arguments) ∧
      IsLongest Qualifies row.tail qualifier ∧
      Arguments extent (row.tail.drop qualifier.length) balanced arguments

/-- How a row goes on from where `depth` parentheses are open: up to the one that closes the
outermost of them, or to the end. -/
inductive Closing (depth : Nat) (row : List (Tag × String)) :
    Bool → List (Tag × String) → Prop where
  | balanced {taken : List (Tag × String)} :
      closed taken = opened taken + depth →
      (∀ other, other <+: row → other.length < taken.length →
        closed other < opened other + depth) →
      Closing depth row true taken
  | unbalanced :
      (∀ other, other <+: row → closed other < opened other + depth) →
      Closing depth row false row

theorem opened_cons (entry : Tag × String) (row : List (Tag × String)) :
    opened (entry :: row) = opened [entry] + opened row := by
  simp only [opened, ← List.countP_append, List.singleton_append]

theorem closed_cons (entry : Tag × String) (row : List (Tag × String)) :
    closed (entry :: row) = closed [entry] + closed row := by
  simp only [closed, ← List.countP_append, List.singleton_append]

/-- One more lexeme in front changes the number of open parentheses by what it is. -/
theorem Closing.cons {depth depth' : Nat} {entry : Tag × String} {row taken : List (Tag × String)}
    {balanced : Bool} (h : Closing depth' row balanced taken) (hd : 0 < depth)
    (hstep : depth' + closed [entry] = depth + opened [entry]) :
    Closing depth (entry :: row) balanced (entry :: taken) := by
  have hone : ∀ other, closed (entry :: other) < opened (entry :: other) + depth ↔
      closed other < opened other + depth' := by
    intro other
    rw [opened_cons, closed_cons]
    omega
  have hnil : closed [] < opened [] + depth := Nat.lt_of_lt_of_le hd (Nat.le_add_left _ _)
  cases h with
  | balanced htotal hbefore =>
      refine .balanced ?_ ?_
      · rw [opened_cons, closed_cons]
        omega
      · intro other hother hlt
        cases other with
        | nil => exact hnil
        | cons first rest =>
            obtain ⟨rfl, hrest⟩ := List.cons_prefix_cons.1 hother
            exact (hone rest).2 (hbefore rest hrest (Nat.lt_of_succ_lt_succ hlt))
  | unbalanced hall =>
      refine .unbalanced ?_
      intro other hother
      cases other with
      | nil => exact hnil
      | cons first rest =>
          obtain ⟨rfl, hrest⟩ := List.cons_prefix_cons.1 hother
          exact (hone rest).2 (hall rest hrest)

theorem Closing.arguments {entry : Tag × String} {row taken : List (Tag × String)}
    {balanced : Bool} (h : Closing 1 row balanced taken) (hstart : taken <+: row)
    (hopen : entry.1 = .separator .leftParen) :
    Arguments .region (entry :: row) balanced (entry :: taken) := by
  have hhead : (entry :: row).head?.map Prod.fst = some (.separator .leftParen) := by
    rw [List.head?_cons, Option.map_some, hopen]
  have hone : opened [entry] = 1 ∧ closed [entry] = 0 := by simp [opened, closed, hopen]
  have hbalanced : ∀ other, opened (entry :: other) = closed (entry :: other) ↔
      closed other = opened other + 1 := by
    intro other
    rw [opened_cons, closed_cons]
    omega
  cases h with
  | balanced htotal hbefore =>
      refine .balanced rfl hhead ⟨List.cons_prefix_cons.2 ⟨rfl, hstart⟩, ?_, ?_⟩
      · exact ⟨List.cons_ne_nil _ _, (hbalanced taken).2 htotal⟩
      · rintro other hother ⟨hne, hsame⟩
        cases other with
        | nil => exact absurd rfl hne
        | cons first rest =>
            obtain ⟨rfl, hrest⟩ := List.cons_prefix_cons.1 hother
            have htotal' := (hbalanced rest).1 hsame
            by_contra hlt
            have := hbefore rest hrest (by simpa using hlt)
            omega
  | unbalanced hall =>
      refine .unbalanced rfl hhead ?_
      rintro other hother ⟨hne, hsame⟩
      cases other with
      | nil => exact absurd rfl hne
      | cons first rest =>
          obtain ⟨rfl, hrest⟩ := List.cons_prefix_cons.1 hother
          have htotal' := (hbalanced rest).1 hsame
          have := hall rest hrest
          omega

theorem isLongest_nil {row : List (Tag × String)}
    (h : ∀ dot name, row.head? = some dot → row.tail.head? = some name →
      dot.1 = .separator .dot → isPlainName name = false) : IsLongest Qualifies row [] := by
  refine ⟨List.nil_prefix, .nil, ?_⟩
  intro other hother hqualifies
  cases hqualifies with
  | nil => exact Nat.le_refl 0
  | cons hdot hname _ =>
      obtain ⟨later, rfl⟩ := hother
      rw [h _ _ rfl rfl hdot] at hname
      cases hname

theorem IsLongest.cons {dot name : Tag × String} {row found : List (Tag × String)}
    (h : IsLongest Qualifies row found) (hdot : dot.1 = .separator .dot)
    (hname : isPlainName name = true) :
    IsLongest Qualifies (dot :: name :: row) (dot :: name :: found) := by
  refine ⟨?_, .cons hdot hname h.holds, ?_⟩
  · exact List.cons_prefix_cons.2 ⟨rfl, List.cons_prefix_cons.2 ⟨rfl, h.start⟩⟩
  · intro other hother hqualifies
    cases hqualifies with
    | nil => exact Nat.zero_le _
    | cons _ _ hrest =>
        obtain ⟨-, hother⟩ := List.cons_prefix_cons.1 hother
        obtain ⟨-, hother⟩ := List.cons_prefix_cons.1 hother
        have hle := h.length_le _ hother hrest
        simp only [List.length_cons]
        omega

namespace Folds

variable {extent : AnnotationExtent} {row : List (Tag × String)}

theorem of_no_name (hword : row.head?.map Prod.snd ≠ some "interface")
    (h : ∀ first, row.head? = some first → first.1 = .word → isReserved first.2 = true) :
    Folds extent row .punctuation [] := by
  refine ⟨⟨fun _ first hfirst htag => ?_, fun _ => rfl⟩, fun _ => rfl, ⟨nofun, ?_⟩, ?_, ?_⟩
  · refine ⟨h first hfirst htag, ?_⟩
    rintro hinterface
    rw [hfirst, Option.map_some, hinterface] at hword
    exact hword rfl
  · intro hhead
    exact absurd hhead hword
  · intro hsign
    cases hsign
  · intro balanced hsign
    cases hsign

theorem of_interface (h : row.head? = some (.word, "interface")) :
    Folds extent row .interfaceWord [(.word, "interface")] := by
  refine ⟨⟨nofun, ?_⟩, ?_, ⟨fun _ => ?_, fun _ => rfl⟩, fun _ => rfl, ?_⟩
  · intro hnone
    exact absurd rfl (hnone _ h rfl).2
  · intro hsign
    cases hsign
  · rw [h]
    rfl
  · intro balanced hsign
    cases hsign

theorem of_name {name : Tag × String} {qualifier arguments : List (Tag × String)}
    {balanced : Bool} (hword : name.1 = .word) (hplain : isReserved name.2 = false)
    (hlongest : IsLongest Qualifies row qualifier)
    (harguments : Arguments extent (row.drop qualifier.length) balanced arguments) :
    Folds extent (name :: row) (.annotationMark balanced)
      (name :: (qualifier ++ arguments)) := by
  refine ⟨⟨nofun, ?_⟩, ?_, ⟨nofun, ?_⟩, ?_, ?_⟩
  · intro hnone
    rw [(hnone name rfl hword).1] at hplain
    cases hplain
  · intro hsign
    cases hsign
  · intro hhead
    rw [Option.some.inj hhead] at hplain
    cases hplain
  · intro hsign
    cases hsign
  · intro _ hsign
    cases hsign
    exact ⟨name, qualifier, arguments, rfl, hlongest, harguments⟩

/-- Without its last parenthesis an annotation leaves nothing. -/
theorem length_le_of_unbalanced {taken : List (Tag × String)}
    (h : Folds extent row (.annotationMark false) taken) : row.length ≤ taken.length := by
  obtain ⟨name, qualifier, arguments, rfl, -, harguments⟩ := h.annotationMark false rfl
  cases harguments with
  | unbalanced =>
      simp only [List.length_cons, List.length_append, List.length_drop, List.length_tail]
      omega

end Folds

namespace Source

variable {s : Source} {p q : Nat} {lexeme : Lexeme} {rest : List Lexeme}

theorem spellings_append (s : Source) (p : Nat) (a b : List Lexeme) :
    s.spellings p (a ++ b) =
      s.spellings p a ++ s.spellings (p + (a.map Lexeme.len).sum) b := by
  induction a generalizing p with
  | nil => rfl
  | cons lexeme rest ih =>
      simp only [List.cons_append, spellings, ih, List.map_cons, List.sum_cons, Nat.add_assoc]

theorem length_spellings (s : Source) (p : Nat) (row : List Lexeme) :
    (s.spellings p row).length = row.length := by
  induction row generalizing p with
  | nil => rfl
  | cons lexeme rest ih => rw [spellings, List.length_cons, ih, List.length_cons]

theorem head?_spellings (s : Source) (p : Nat) (row : List Lexeme) :
    (s.spellings p row).head? =
      row.head?.map fun lexeme => (lexeme.tag, s.slice p (p + lexeme.len)) := by
  cases row <;> rfl

theorem Scans.of_append {found later : List Lexeme} (h : s.Scans p (found ++ later) q) :
    s.Scans (p + (found.map Lexeme.len).sum) later q := by
  obtain ⟨mid, hfound, hlater⟩ := h.exists_mid
  rw [hfound.add_sum_len]
  exact hlater

theorem Scans.eq_of_nil (h : s.Scans p [] q) : p = q := by
  cases h
  rfl

section

variable (hfit : s.len ≤ maxOffset)

include hfit

/-- Each open parenthesis takes a byte of the text, so that they can be counted. -/
theorem argumentsLen_closing {depth : Nat} (h : s.Scans p rest s.len) (hp : p ≤ s.len)
    (hd : 0 < depth) (hle : depth ≤ p) :
    ∃ balanced taken left, rest = taken ++ left ∧
      s.argumentsLen depth p = .ok (balanced, (taken.map Lexeme.len).sum) ∧
      Closing depth (s.spellings p rest) balanced (s.spellings p taken) := by
  induction rest generalizing p depth with
  | nil =>
      refine ⟨false, [], [], rfl, ?_, .unbalanced ?_⟩
      · rw [argumentsLen, if_neg (Nat.not_lt.2 (Nat.le_of_eq h.eq_of_nil.symm))]
        rfl
      · intro other hother
        rw [List.prefix_nil.1 hother]
        exact Nat.lt_of_lt_of_le hd (Nat.le_add_left _ _)
  | cons lexeme rest ih =>
      obtain ⟨hscan, hrest⟩ := h.uncons
      obtain ⟨hlt, hlexed⟩ := lexed_of_scan hfit hp hscan
      have hpos := lexeme.len_pos
      have hlater : ∀ depth', 0 < depth' → depth' ≤ depth + 1 →
          depth' + closed [(lexeme.tag, s.slice p (p + lexeme.len))] =
            depth + opened [(lexeme.tag, s.slice p (p + lexeme.len))] →
          ∃ balanced taken left, lexeme :: rest = taken ++ left ∧
            (s.argumentsLen depth' (p + lexeme.len) >>=
              fun r => pure (r.1, lexeme.len + r.2)) =
                .ok (balanced, (taken.map Lexeme.len).sum) ∧
            Closing depth (s.spellings p (lexeme :: rest)) balanced (s.spellings p taken) := by
        intro depth' hd' hle' hstep
        obtain ⟨balanced, taken, left, rfl, harguments, hclosing⟩ :=
          ih hrest hlexed.reach.le_len hd' (by omega)
        refine ⟨balanced, lexeme :: taken, left, rfl, ?_, hclosing.cons hd hstep⟩
        rw [harguments, except_ok_bind, List.map_cons, List.sum_cons]
        rfl
      rw [argumentsLen, if_pos hlt, hscan, except_ok_bind]
      simp only
      split
      · rename_i hclose
        refine ⟨true, [lexeme], rest, rfl, by simp, .balanced ?_ ?_⟩
        · have hone : depth = 1 := Nat.le_antisymm hclose.2 hd
          simp [spellings, opened, closed, hclose.1, hone]
        · intro other _ hnone
          rw [List.length_eq_zero_iff.1 (Nat.lt_one_iff.1 hnone)]
          exact Nat.lt_of_lt_of_le hd (Nat.le_add_left _ _)
      · rename_i hgo
        split
        · rename_i hopen
          rw [checkedAdd_eq_ok (by omega), except_ok_bind]
          exact hlater (depth + 1) (by omega) (by omega) (by simp [opened, closed, hopen])
        · rename_i hopen
          split
          · rename_i hclose
            have hmore : 1 < depth := Nat.lt_of_not_le fun hle => hgo ⟨hclose, hle⟩
            have hentry : opened [(lexeme.tag, s.slice p (p + lexeme.len))] = 0 ∧
                closed [(lexeme.tag, s.slice p (p + lexeme.len))] = 1 := by
              simp [opened, closed, hclose]
            exact hlater (depth - 1) (by omega) (by omega) (by omega)
          · rename_i hclose
            exact hlater depth hd (by omega) (by simp [opened, closed, hopen, hclose])

theorem argumentsLen_arguments (h : s.Scans p (lexeme :: rest) s.len) (hp : p ≤ s.len)
    (hopen : lexeme.tag = .separator .leftParen) :
    ∃ balanced taken left, lexeme :: rest = taken ++ left ∧
      s.argumentsLen 0 p = .ok (balanced, (taken.map Lexeme.len).sum) ∧
      Arguments .region (s.spellings p (lexeme :: rest)) balanced (s.spellings p taken) := by
  obtain ⟨hscan, hrest⟩ := h.uncons
  obtain ⟨hlt, hlexed⟩ := lexed_of_scan hfit hp hscan
  have hpos := lexeme.len_pos
  obtain ⟨balanced, taken, left, rfl, harguments, hclosing⟩ :=
    argumentsLen_closing hfit hrest hlexed.reach.le_len Nat.one_pos (by omega)
  refine ⟨balanced, lexeme :: taken, left, rfl, ?_, hclosing.arguments ?_ hopen⟩
  · rw [argumentsLen, if_pos hlt, hscan, except_ok_bind]
    have hgo : ¬(lexeme.tag = .separator .rightParen ∧ 0 ≤ 1) := by simp [hopen]
    have hdepth : checkedAdd 0 1 = .ok 1 := checkedAdd_eq_ok (by decide)
    simp only [if_neg hgo, if_pos hopen, hdepth, except_ok_bind, harguments]
    rw [List.map_cons, List.sum_cons]
    rfl
  · rw [spellings_append]
    exact List.prefix_append _ _

/-- A word is found with its text, as none starts between the bytes of a character. -/
theorem nameAt?_of_word (hp : p ≤ s.len) (hscan : s.scan p = .ok (some lexeme))
    (hword : lexeme.tag = .word) :
    s.nameAt? p = .ok (some (s.slice p (p + lexeme.len), lexeme.len)) := by
  obtain ⟨hlt, hlexed⟩ := lexed_of_scan hfit hp hscan
  have hb : s.IsBoundary p := by
    by_contra hb
    rw [scan_of_not_isBoundary hfit hlt hb] at hscan
    cases hscan
    cases hword
  obtain ⟨tag, len, hpos⟩ := lexeme
  cases hword
  rw [nameAt?, hscan, except_ok_bind]
  simp only [slice?_eq_some_slice hb (hlexed.reach.boundary hb) hlexed.reach.le, Option.map_some,
    except_pure]

omit hfit in
theorem tag_of_interface (hp : p < s.len) (hscan : s.scan p = .ok (some lexeme))
    (htext : s.slice p (p + lexeme.len) = "interface") : lexeme.tag = .word := by
  have hslice : s.slice? p (p + lexeme.len) = some "interface" := by
    cases h : s.slice? p (p + lexeme.len) with
    | none => simp [slice, h] at htext
    | some text => rw [← htext, slice, h, Option.getD_some]
  have hbyte : s.byte p = 105 := by
    rw [← Nat.zero_add p, byte_of_slice? hslice (by decide)]
    decide +kernel
  have hrule := ((scan_eq_some_iff hp).1 hscan).1
  rw [hbyte] at hrule
  obtain ⟨stop, -, hword⟩ := bind_eq_ok hrule
  exact (Prod.mk.inj (Except.ok.inj hword)).1.symm

omit hfit in
theorem nameAt?_of_not_word (h : s.Scans p rest s.len)
    (hword : ∀ lexeme, rest.head? = some lexeme → lexeme.tag ≠ .word) :
    s.nameAt? p = .ok none := by
  cases rest with
  | nil =>
      rw [nameAt?, h.eq_of_nil, scan_len]
      rfl
  | cons lexeme rest =>
      rw [nameAt?, h.uncons.1, except_ok_bind]
      have hne := hword lexeme rfl
      obtain ⟨tag, len, hpos⟩ := lexeme
      cases tag with
      | word => exact absurd rfl hne
      | _ => rfl

theorem qualifierLen_longest (h : s.Scans p rest s.len) (hp : p ≤ s.len) :
    ∃ taken left, rest = taken ++ left ∧
      s.qualifierLen p = .ok (taken.map Lexeme.len).sum ∧
      IsLongest Qualifies (s.spellings p rest) (s.spellings p taken) := by
  fun_induction qualifierLen s p generalizing rest with
  | case1 p hlt ih =>
      cases rest with
      | nil => exact absurd h.eq_of_nil (Nat.ne_of_lt hlt)
      | cons first rest =>
          obtain ⟨hscan, hrest⟩ := h.uncons
          have hle := (lexed_of_scan hfit hp hscan).2.reach.le_len
          rw [hscan, except_ok_bind]
          by_cases hdot : first.tag = .separator .dot
          · obtain ⟨tag, len, hpos⟩ := first
            cases hdot
            simp only at hrest hle ⊢
            by_cases hword : ∀ name, rest.head? = some name → name.tag ≠ .word
            · rw [nameAt?_of_not_word hrest hword, except_ok_bind]
              refine ⟨[], _, rfl, rfl, isLongest_nil ?_⟩
              intro dot entry _ hentry _
              rw [spellings, List.tail_cons, head?_spellings] at hentry
              obtain ⟨name, hname, rfl⟩ := Option.map_eq_some_iff.1 hentry
              simp [isPlainName, hword name hname]
            · simp only [not_forall, Decidable.not_not, exists_prop] at hword
              obtain ⟨name, hhead, hword⟩ := hword
              obtain ⟨later, rfl⟩ := List.head?_eq_some_iff.1 hhead
              obtain ⟨hname, hlater⟩ := hrest.uncons
              have hle' := (lexed_of_scan hfit hle hname).2.reach.le_len
              rw [nameAt?_of_word hfit hle hname hword, except_ok_bind]
              simp only
              split
              · rename_i hreserved
                refine ⟨[], _, rfl, rfl, isLongest_nil ?_⟩
                rintro dot entry - hentry -
                cases hentry
                simp [isPlainName, hreserved]
              · rename_i hplain
                rw [Nat.add_assoc] at hlater hle'
                obtain ⟨taken, left, rfl, htaken, hlongest⟩ :=
                  ih len hpos name.len hlater hle'
                refine ⟨⟨.separator .dot, len, hpos⟩ :: name :: taken, left, rfl, ?_, ?_⟩
                · rw [htaken, except_ok_map, List.map_cons, List.map_cons, List.sum_cons,
                    List.sum_cons, Nat.add_assoc]
                · rw [← Nat.add_assoc] at hlongest
                  exact hlongest.cons rfl (by simp [isPlainName, hword, hplain])
          · refine ⟨[], _, rfl, ?_, isLongest_nil ?_⟩
            · split
              · rename_i heq
                cases heq
                exact absurd rfl hdot
              · rfl
            · intro dot entry hhead _ htag
              cases hhead
              exact absurd htag hdot
  | case2 p hlt =>
      refine ⟨[], rest, rfl, rfl, isLongest_nil ?_⟩
      have hend : p = s.len := Nat.le_antisymm hp (Nat.not_lt.1 hlt)
      subst hend
      cases h.eq_nil
      intro dot name hhead
      cases hhead

theorem exists_arguments (extent : AnnotationExtent) (h : s.Scans p rest s.len) :
    ∃ balanced taken left, rest = taken ++ left ∧
      Arguments extent (s.spellings p rest) balanced (s.spellings p taken) ∧
      ∀ named : Nat,
        (if extent = .nameOnly then pure (.annotationMark true, named)
        else do
          match ← s.scan p with
          | some ⟨.separator .leftParen, _, _⟩ =>
            let (balanced, arguments) ← s.argumentsLen 0 p
            pure (.annotationMark balanced, named + arguments)
          | _ => pure (.annotationMark true, named) : Except Fault (AtSign × Nat)) =
          .ok (.annotationMark balanced, named + (taken.map Lexeme.len).sum) := by
  cases extent with
  | nameOnly => exact ⟨true, [], rest, rfl, .none (.inl rfl), fun _ => rfl⟩
  | region =>
      cases rest with
      | nil =>
          refine ⟨true, [], [], rfl, .none (.inr nofun), fun named => ?_⟩
          rw [h.eq_of_nil, scan_len]
          rfl
      | cons first more =>
          by_cases hopen : first.tag = .separator .leftParen
          · obtain ⟨balanced, taken, left, hrow, harguments, hfound⟩ :=
              argumentsLen_arguments hfit h h.row.le hopen
            refine ⟨balanced, taken, left, hrow, hfound, fun named => ?_⟩
            rw [h.uncons.1, harguments]
            obtain ⟨tag, len, hpos⟩ := first
            cases hopen
            rfl
          · refine ⟨true, [], first :: more, rfl, .none (.inr ?_), fun named => ?_⟩
            · intro hhead
              exact hopen (Option.some.inj hhead)
            · rw [h.uncons.1, if_neg nofun, except_ok_bind]
              split
              · rename_i heq
                cases heq
                exact absurd rfl hopen
              · rfl

theorem annotationAt_folded (extent : AnnotationExtent) (h : s.Scans p rest s.len) :
    ∃ sign taken left, rest = taken ++ left ∧
      s.annotationAt extent p = .ok (sign, (taken.map Lexeme.len).sum) ∧
      Folds extent (s.spellings p rest) sign (s.spellings p taken) := by
  have hp : p ≤ s.len := h.row.le
  by_cases hword : ∀ name, rest.head? = some name → name.tag ≠ .word
  · refine ⟨.punctuation, [], rest, rfl, ?_, .of_no_name ?_ ?_⟩
    · rw [annotationAt, nameAt?_of_not_word h hword]
      rfl
    · rw [head?_spellings, Option.map_map]
      intro hinterface
      obtain ⟨name, hname, htext⟩ := Option.map_eq_some_iff.1 hinterface
      obtain ⟨later, rfl⟩ := List.head?_eq_some_iff.1 hname
      obtain ⟨hscan, hlater⟩ := h.uncons
      have hlt := (lexed_of_scan hfit hp hscan).1
      exact hword name rfl (tag_of_interface hlt hscan htext)
    · intro first hfirst htag
      rw [head?_spellings] at hfirst
      obtain ⟨name, hname, rfl⟩ := Option.map_eq_some_iff.1 hfirst
      exact absurd htag (hword name hname)
  · simp only [not_forall, Decidable.not_not, exists_prop] at hword
    obtain ⟨name, hhead, hword⟩ := hword
    obtain ⟨later, rfl⟩ := List.head?_eq_some_iff.1 hhead
    obtain ⟨hscan, hlater⟩ := h.uncons
    rw [annotationAt, nameAt?_of_word hfit hp hscan hword, except_ok_bind]
    simp only
    split
    · rename_i hinterface
      have hentry : ∀ more, s.spellings p (name :: more) =
          (.word, "interface") :: s.spellings (p + name.len) more := by
        intro more
        rw [spellings, hword, hinterface]
      refine ⟨.interfaceWord, [name], later, rfl, by simp, ?_⟩
      rw [hentry, hentry]
      exact .of_interface rfl
    · rename_i hinterface
      split
      · rename_i hreserved
        refine ⟨.punctuation, [], name :: later, rfl, rfl, .of_no_name ?_ ?_⟩
        · exact fun hhead => hinterface (Option.some.inj hhead)
        · intro first hfirst _
          cases hfirst
          exact hreserved
      · rename_i hplain
        obtain ⟨qualifier, left, rfl, hqualifier, hlongest⟩ :=
          qualifierLen_longest hfit hlater hlater.row.le
        obtain ⟨balanced, arguments, left, rfl, harguments, hrest⟩ :=
          exists_arguments hfit extent hlater.of_append
        rw [hqualifier, except_ok_bind, ← Nat.add_assoc]
        refine ⟨.annotationMark balanced, name :: (qualifier ++ arguments), left, ?_,
          (hrest _).trans ?_, ?_⟩
        · rw [List.cons_append, List.append_assoc]
        · rw [List.map_cons, List.sum_cons, List.map_append, List.sum_append, Nat.add_assoc]
        · rw [spellings, spellings, spellings_append s _ qualifier arguments]
          refine .of_name hword (Bool.eq_false_iff.2 hplain) hlongest ?_
          rw [spellings_append, List.drop_left]
          exact harguments

theorem annotationAt_unbalanced {extent : AnnotationExtent} {n : Nat} (hp : p ≤ s.len)
    (h : s.annotationAt extent p = .ok (.annotationMark false, n)) : p + n = s.len := by
  obtain ⟨row, hrow⟩ := exists_scans hfit hp
  obtain ⟨sign, taken, left, rfl, hsign, hfolds⟩ := annotationAt_folded hfit extent hrow
  rw [h] at hsign
  obtain ⟨rfl, rfl⟩ := Prod.mk.inj (Except.ok.inj hsign)
  have hle := hfolds.length_le_of_unbalanced
  rw [length_spellings, length_spellings, List.length_append] at hle
  have hnil : left = [] := List.length_eq_zero_iff.1 (by omega)
  rw [hnil, List.append_nil] at hrow
  exact hrow.add_sum_len

end

/-- Bytes of an argument list, as `argumentsLen` has them, where to close what is not open is a
fault. -/
def strictArgumentsLen (s : Source) (depth p : Nat) : Except Fault (Bool × Nat) :=
  if p < s.len then do
    match ← s.scan p with
    | none => pure (false, 0)
    | some ⟨tag, len, _⟩ =>
      let depth ←
        if tag = .separator .leftParen then checkedAdd depth 1
        else if tag = .separator .rightParen then checkedSub depth 1
        else pure depth
      if tag = .separator .rightParen ∧ depth = 0 then pure (true, len)
      else
        let (balanced, rest) ← s.strictArgumentsLen depth (p + len)
        pure (balanced, len + rest)
  else pure (false, 0)
termination_by s.len - p

theorem checkedAdd_pos {n more : Nat} (h : checkedAdd n 1 = .ok more) : 0 < more := by
  unfold checkedAdd at h
  split at h
  · cases h
    exact Nat.succ_pos n
  · cases h

/-- While a parenthesis is open, the next to close has one to close. -/
theorem strictArgumentsLen_eq {depth : Nat} (hd : 0 < depth) :
    s.strictArgumentsLen depth p = s.argumentsLen depth p := by
  fun_induction argumentsLen s depth p with
  | case1 depth p hlt ih =>
      rw [strictArgumentsLen, if_pos hlt]
      congr 1
      funext found
      cases found with
      | none => rfl
      | some lexeme =>
          obtain ⟨tag, len, hpos⟩ := lexeme
          simp only
          by_cases hclose : tag = .separator .rightParen
          · subst hclose
            have hopen : Tag.separator .rightParen ≠ .separator .leftParen := by decide
            rw [if_neg hopen, if_pos rfl, checkedSub_eq_ok hd, except_ok_bind]
            by_cases hlast : depth ≤ 1
            · rw [if_pos ⟨rfl, Nat.sub_eq_zero_of_le hlast⟩, if_pos ⟨rfl, hlast⟩]
            · rw [if_neg (by omega), if_neg (by omega)]
              rw [ih len hpos (depth - 1) (by omega), if_neg hopen, if_pos rfl]
              rfl
          · have hgo : ∀ P : Prop, ¬(tag = .separator .rightParen ∧ P) := fun P h => hclose h.1
            simp only [if_neg hclose, if_neg (hgo _)]
            split
            · cases hdepth : checkedAdd depth 1 with
              | error fault => rfl
              | ok more =>
                  have hmore : 0 < more := checkedAdd_pos hdepth
                  rw [except_ok_bind, except_ok_bind, ih len hpos more hmore]
            · rw [except_pure, except_ok_bind, except_ok_bind, ih len hpos depth hd]
  | case2 depth p hlt => rw [strictArgumentsLen, if_neg hlt]

theorem strictArgumentsLen_eq_of_open (hscan : s.scan p = .ok (some lexeme))
    (hopen : lexeme.tag = .separator .leftParen) :
    s.strictArgumentsLen 0 p = s.argumentsLen 0 p := by
  rw [strictArgumentsLen, argumentsLen, hscan]
  obtain ⟨tag, len, hpos⟩ := lexeme
  cases hopen
  have hdepth : checkedAdd 0 1 = .ok 1 := checkedAdd_eq_ok (by decide)
  have hgo : ∀ P : Prop, ¬(Tag.separator .leftParen = .separator .rightParen ∧ P) :=
    fun P h => nomatch h.1
  simp only [except_ok_bind, if_neg (hgo _), if_true, hdepth, strictArgumentsLen_eq Nat.one_pos]

/-- An `@` takes along, from the row of lexemes behind it, what `Folds` says, and no parenthesis
of its arguments closes more than is open. -/
theorem annotationAt_folds (s : Source) (hfit : s.len ≤ maxOffset) (extent : AnnotationExtent)
    {p : Nat} (hp : p ≤ s.len) :
    ∃ sign taken left, s.lexemes p = .ok (taken ++ left) ∧
      s.annotationAt extent p = .ok (sign, (taken.map Lexeme.len).sum) ∧
      Folds extent (s.spellings p (taken ++ left)) sign (s.spellings p taken) ∧
      ∀ q lexeme, s.scan q = .ok (some lexeme) → lexeme.tag = .separator .leftParen →
        s.strictArgumentsLen 0 q = s.argumentsLen 0 q := by
  obtain ⟨row, hrow⟩ := exists_scans hfit hp
  obtain ⟨sign, taken, left, rfl, hsign, hfolds⟩ := annotationAt_folded hfit extent hrow
  refine ⟨sign, taken, left, hrow.lexemes_eq, hsign, hfolds, ?_⟩
  intro q lexeme hscan hopen
  exact strictArgumentsLen_eq_of_open hscan hopen

/-- A qualified name with parentheses in its arguments, one of them inside a string. -/
theorem annotationAt_folds_nested :
    len ⟨"@a.b(\")\", (c)).d"⟩ ≤ maxOffset ∧ 1 ≤ len ⟨"@a.b(\")\", (c)).d"⟩ ∧
      annotationAt ⟨"@a.b(\")\", (c)).d"⟩ .region 1 = .ok (.annotationMark true, 13) ∧
      ∃ taken left, lexemes ⟨"@a.b(\")\", (c)).d"⟩ 1 = .ok (taken ++ left) ∧
        (taken.map Lexeme.len).sum = 13 ∧
        Folds .region (spellings ⟨"@a.b(\")\", (c)).d"⟩ 1 (taken ++ left)) (.annotationMark true)
          (spellings ⟨"@a.b(\")\", (c)).d"⟩ 1 taken) := by
  have hsign : annotationAt ⟨"@a.b(\")\", (c)).d"⟩ .region 1 =
      .ok (.annotationMark true, 13) := by decide +kernel
  obtain ⟨sign, taken, left, hrow, htaken, hfolds, -⟩ :=
    annotationAt_folds ⟨"@a.b(\")\", (c)).d"⟩ (by decide) .region (p := 1) (by decide)
  rw [hsign] at htaken
  obtain ⟨rfl, hlen⟩ := Prod.mk.inj (Except.ok.inj htaken)
  exact ⟨by decide, by decide, hsign, taken, left, hrow, hlen.symm, hfolds⟩

end Source

end JavaLex
