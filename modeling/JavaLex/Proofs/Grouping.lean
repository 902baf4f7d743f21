import Mathlib.Data.List.Basic
import JavaLex.Proofs.Kinds
import JavaLex.Proofs.Resynchronise

/-! Tokens are groups of lexemes. Most tokens are one lexeme; blanks that are merged and what an
`@` takes along are several, and then only lexemes of a few tags can stand behind the first. -/

namespace JavaLex

/-- Blanks and line ends, which may be merged. -/
def Tag.isBlank : Tag → Bool
  | blank | newline => true
  | _ => false

theorem Tag.isBlank_iff {tag : Tag} : tag.isBlank = true ↔ tag = .blank ∨ tag = .newline := by
  cases tag <;> simp [isBlank]

/-- Words and dots, which names are made of. -/
def Tag.isNamePart : Tag → Bool
  | word => true
  | separator .dot => true
  | _ => false

namespace Source

variable {s : Source} {p q r : Nat} {found other : List Lexeme}

namespace Scans

theorem single {lexeme : Lexeme} (h : s.scan p = .ok (some lexeme)) :
    s.Scans p [lexeme] (p + lexeme.len) := .cons h (.nil _)

theorem eq_nil (h : s.Scans s.len found q) : found = [] := by
  cases h with
  | nil => rfl
  | cons hscan _ =>
      rw [scan_len] at hscan
      cases hscan

/-- Lexemes follow each other in one way, so that of two rows from one offset the shorter one
starts the longer one. -/
theorem exists_append (h : s.Scans p found q) (h' : s.Scans p other r) (hle : q ≤ r) :
    ∃ more, other = found ++ more ∧ s.Scans q more r := by
  induction h generalizing other with
  | nil p => exact ⟨other, rfl, h'⟩
  | @cons p q lexeme rest hscan hrest ih =>
      cases h' with
      | nil =>
          have := hrest.row.le
          have := lexeme.len_pos
          omega
      | cons hscan' hrest' =>
          rw [hscan] at hscan'
          cases hscan'
          obtain ⟨more, rfl, hmore⟩ := ih hrest' hle
          exact ⟨more, rfl, hmore⟩

end Scans

/-- From `p` to `q` by lexemes whose tags are accepted. -/
def ScansOnly (s : Source) (accepts : Tag → Bool) (p q : Nat) : Prop :=
  ∃ found, s.Scans p found q ∧ ∀ lexeme ∈ found, accepts lexeme.tag = true

namespace ScansOnly

variable {accepts : Tag → Bool}

theorem nil (p : Nat) : s.ScansOnly accepts p p := ⟨[], .nil p, List.forall_mem_nil _⟩

theorem cons {lexeme : Lexeme} (hscan : s.scan p = .ok (some lexeme))
    (htag : accepts lexeme.tag = true) (h : s.ScansOnly accepts (p + lexeme.len) q) :
    s.ScansOnly accepts p q := by
  obtain ⟨found, hfound, htags⟩ := h
  exact ⟨lexeme :: found, .cons hscan hfound, List.forall_mem_cons.2 ⟨htag, htags⟩⟩

end ScansOnly

theorem scansOnly_of_blanksLen (hfit : s.len ≤ maxOffset) (hp : p ≤ s.len) :
    ∀ n, s.blanksLen p = .ok n → s.ScansOnly Tag.isBlank p (p + n) ∧
      ∀ next, s.scan (p + n) = .ok (some next) → next.tag.isBlank = false := by
  fun_induction blanksLen s p with
  | case1 p hlt ih =>
      intro n h
      obtain ⟨⟨tag, len, hpos⟩, hscan, hlexed⟩ := scan_of_lt_len hfit hlt
      have hrest : tag.isBlank = true → (len + ·) <$> s.blanksLen (p + len) = .ok n →
          s.ScansOnly Tag.isBlank p (p + n) ∧
            ∀ next, s.scan (p + n) = .ok (some next) → next.tag.isBlank = false := by
        intro hblank h
        obtain ⟨m, hm, rfl⟩ := map_eq_ok h
        obtain ⟨hscans, hstop⟩ := ih len hpos hlexed.reach.le_len m hm
        rw [← Nat.add_assoc]
        exact ⟨.cons hscan hblank hscans, hstop⟩
      rw [hscan, except_ok_bind] at h
      cases tag with
      | blank => exact hrest rfl h
      | newline => exact hrest rfl h
      | _ =>
          cases h
          refine ⟨.nil p, ?_⟩
          intro next hnext
          rw [Nat.add_zero, hscan] at hnext
          cases hnext
          rfl
  | case2 p hlt =>
      intro n h
      cases h
      refine ⟨.nil p, ?_⟩
      intro next hnext
      rw [Nat.add_zero, Nat.le_antisymm hp (Nat.not_lt.1 hlt), scan_len] at hnext
      cases hnext

theorem scan_of_nameAt? {name : String} {n : Nat} (h : s.nameAt? p = .ok (some (name, n))) :
    ∃ lexeme, s.scan p = .ok (some lexeme) ∧ lexeme.tag.isNamePart = true ∧ lexeme.len = n := by
  obtain ⟨hpos, hscan⟩ := nameAt?_eq_some h
  exact ⟨⟨.word, n, hpos⟩, hscan, rfl, rfl⟩

theorem scansOnly_of_qualifierLen :
    ∀ n, s.qualifierLen p = .ok n → s.ScansOnly Tag.isNamePart p (p + n) := by
  fun_induction qualifierLen s p with
  | case1 p hlt ih =>
      intro n h
      obtain ⟨found, hscan, h⟩ := bind_eq_ok h
      split at h
      · rename_i len hpos
        obtain ⟨name?, hname, h⟩ := bind_eq_ok h
        split at h
        · rename_i name m
          split at h
          · cases h
            exact .nil p
          · obtain ⟨k, hk, rfl⟩ := map_eq_ok h
            obtain ⟨word, hword, htag, rfl⟩ := scan_of_nameAt? hname
            have hlater := ih len hpos word.len k hk
            rw [← Nat.add_assoc] at hlater ⊢
            rw [← Nat.add_assoc]
            exact .cons hscan rfl (.cons hword htag hlater)
        · cases h
          exact .nil p
      · cases h
        exact .nil p
  | case2 p hlt =>
      intro n h
      cases h
      exact .nil p

/-- Without its arguments an annotation takes words and dots along, and an `@` that starts none
takes nothing. -/
theorem scansOnly_of_nameOnly {sign : AtSign} {n : Nat}
    (h : s.annotationAt .nameOnly p = .ok (sign, n)) :
    s.ScansOnly Tag.isNamePart p (p + n) ∧ (sign = .punctuation → n = 0) := by
  obtain ⟨name?, hname, h⟩ := bind_eq_ok h
  split at h
  · cases h
    exact ⟨.nil p, fun _ => rfl⟩
  · obtain ⟨word, hword, htag, hlen⟩ := scan_of_nameAt? hname
    subst hlen
    split at h
    · cases h
      exact ⟨.cons hword htag (.nil _), fun h => by cases h⟩
    · split at h
      · cases h
        exact ⟨.nil p, fun _ => rfl⟩
      · obtain ⟨m, hm, h⟩ := bind_eq_ok h
        cases h
        have hlater := scansOnly_of_qualifierLen m hm
        rw [Nat.add_assoc] at hlater
        exact ⟨.cons hword htag hlater, fun h => by cases h⟩

/-- Lexemes up to the end of the text or to a closing parenthesis. -/
def Closes (s : Source) (found : List Lexeme) (q : Nat) : Prop :=
  q = s.len ∨ ∃ close, found.getLast? = some close ∧ close.tag = .separator .rightParen

theorem Closes.append (before : List Lexeme) (h : s.Closes found q) :
    s.Closes (before ++ found) q := by
  rcases h with h | ⟨close, hclose, htag⟩
  · exact .inl h
  · exact .inr ⟨close, by rw [List.getLast?_append, hclose, Option.some_or], htag⟩

theorem Closes.of_append {before : List Lexeme} (h : s.Closes (before ++ found) q)
    (hne : found ≠ []) : s.Closes found q := by
  rcases h with h | ⟨close, hclose, htag⟩
  · exact .inl h
  · refine .inr ⟨close, ?_, htag⟩
    rw [← hclose, List.getLast?_append_of_ne_nil before hne]

theorem scans_of_argumentsLen {depth : Nat} (hfit : s.len ≤ maxOffset) (hp : p ≤ s.len) :
    ∀ balanced n, s.argumentsLen depth p = .ok (balanced, n) →
      ∃ found, s.Scans p found (p + n) ∧ s.Closes found (p + n) := by
  fun_induction argumentsLen s depth p with
  | case1 depth p hlt ih =>
      intro balanced n h
      obtain ⟨⟨tag, len, hpos⟩, hscan, hlexed⟩ := scan_of_lt_len hfit hlt
      have hrest : ∀ d, (s.argumentsLen d (p + len) >>= fun r => pure (r.1, len + r.2)) =
          .ok (balanced, n) → ∃ found, s.Scans p found (p + n) ∧ s.Closes found (p + n) := by
        intro d h
        obtain ⟨⟨balanced', m⟩, hm, h⟩ := bind_eq_ok h
        cases h
        obtain ⟨found, hscans, hcloses⟩ := ih len hpos d hlexed.reach.le_len _ m hm
        rw [← Nat.add_assoc]
        exact ⟨_, .cons hscan hscans, hcloses.append [_]⟩
      rw [hscan, except_ok_bind] at h
      simp only at h
      split at h
      · rename_i hclose
        cases h
        exact ⟨_, .single hscan, .inr ⟨_, rfl, hclose.1⟩⟩
      · split at h
        · obtain ⟨d, -, h⟩ := bind_eq_ok h
          exact hrest d h
        · split at h
          · exact hrest (depth - 1) h
          · exact hrest depth h
  | case2 depth p hlt =>
      intro balanced n h
      cases h
      exact ⟨[], .nil p, .inl (Nat.le_antisymm hp (Nat.not_lt.1 hlt))⟩

/-- Arguments are all that makes a difference between the two extents of an annotation. -/
theorem annotationAt_nameOnly {sign : AtSign} {n : Nat}
    (h : s.annotationAt .region p = .ok (sign, n)) :
    s.annotationAt .nameOnly p = .ok (sign, n) ∨
      ∃ balanced named arguments, sign = .annotationMark balanced ∧
        s.annotationAt .nameOnly p = .ok (.annotationMark true, named) ∧
        s.argumentsLen 0 (p + named) = .ok (balanced, arguments) ∧ n = named + arguments := by
  obtain ⟨name?, hname, h⟩ := bind_eq_ok h
  simp only [annotationAt, hname, except_ok_bind]
  cases name? with
  | none => exact .inl h
  | some found =>
      obtain ⟨name, len⟩ := found
      simp only at h ⊢
      by_cases hinterface : name = "interface"
      · rw [if_pos hinterface] at h ⊢
        exact .inl h
      · by_cases hreserved : isReserved name = true
        · rw [if_neg hinterface, if_pos hreserved] at h ⊢
          exact .inl h
        · rw [if_neg hinterface, if_neg hreserved] at h ⊢
          obtain ⟨m, hm, h⟩ := bind_eq_ok h
          simp only [reduceCtorEq, if_false] at h
          simp only [hm, except_ok_bind, if_true, except_pure]
          obtain ⟨next, -, h⟩ := bind_eq_ok h
          split at h
          · obtain ⟨⟨balanced, arguments⟩, harguments, h⟩ := bind_eq_ok h
            cases h
            exact .inr ⟨balanced, _, arguments, rfl, rfl, harguments, rfl⟩
          · exact .inl h

end Source

/-- The shapes that more than one lexeme may have together. -/
def Shape.isGroup : Shape → Bool
  | blanks => true
  | marked .punctuation => false
  | marked _ => true
  | single _ => false

namespace Lexer

variable {lexer : Lexer} {p : Nat} {segment : Segment} {stream mid final : Stream}
  {token : Token} {tokens : List Token}

/-- The lexemes of a segment, the first and those behind it. -/
structure Consists (lexer : Lexer) (p : Nat) (segment : Segment) (first : Lexeme)
    (rest : List Lexeme) : Prop where
  scans : lexer.source.Scans p (first :: rest) (p + segment.len)
  several : rest ≠ [] → segment.shape.isGroup = true
  /-- Without arguments no parenthesis is part of a group. -/
  nameOnly : lexer.config.annotations = .nameOnly → rest ≠ [] →
    ∀ lexeme ∈ first :: rest, lexeme.tag ≠ .separator .rightParen

theorem consists_of_scansOnly {accepts : Tag → Bool} {first : Lexeme} {n : Nat}
    (hscan : lexer.source.scan p = .ok (some first)) (hlen : segment.len = first.len + n)
    (hrest : lexer.source.ScansOnly accepts (p + first.len) (p + first.len + n))
    (hfirst : first.tag ≠ .separator .rightParen)
    (hparen : accepts (.separator .rightParen) = false)
    (hgroup : n ≠ 0 → segment.shape.isGroup = true) :
    ∃ rest, lexer.Consists p segment first rest := by
  obtain ⟨rest, hscans, htags⟩ := hrest
  refine ⟨rest, ?_, ?_, ?_⟩
  · rw [hlen, ← Nat.add_assoc]
    exact .cons hscan hscans
  · intro hne
    apply hgroup
    rintro rfl
    cases hscans with
    | nil => exact hne rfl
    | @cons _ _ lexeme _ _ hmore =>
        have := hmore.row.le
        have := lexeme.len_pos
        omega
  · intro _ _
    refine List.forall_mem_cons.2 ⟨hfirst, ?_⟩
    intro lexeme hmem htag
    have haccepts := htags lexeme hmem
    rw [htag, hparen] at haccepts
    cases haccepts

section

variable {first : Lexeme} {sign : AtSign} {n : Nat}
  (hscan : lexer.source.scan p = .ok (some first)) (hat : first.tag = .separator .atSign)
  (hshape : segment.shape = .marked sign) (hlen : segment.len = first.len + n)

include hscan hat hshape hlen

theorem consists_of_nameOnly
    (hsign : lexer.source.annotationAt .nameOnly (p + first.len) = .ok (sign, n)) :
    ∃ rest, lexer.Consists p segment first rest := by
  obtain ⟨hrest, hlone⟩ := Source.scansOnly_of_nameOnly hsign
  refine consists_of_scansOnly hscan hlen hrest (by rw [hat]; simp) rfl ?_
  intro hne
  rw [hshape]
  cases sign with
  | punctuation => exact absurd (hlone rfl) hne
  | _ => rfl

/-- A region is a name with its arguments, if it has some, behind it. -/
theorem consists_of_region (hfit : lexer.source.len ≤ maxOffset)
    (hle : p + first.len ≤ lexer.source.len) (hextent : lexer.config.annotations = .region)
    (hsign : lexer.source.annotationAt .region (p + first.len) = .ok (sign, n)) :
    ∃ rest, lexer.Consists p segment first rest := by
  rcases Source.annotationAt_nameOnly hsign with hsign | ⟨balanced, named, arguments, rfl, hnamed,
    harguments, rfl⟩
  · exact consists_of_nameOnly hscan hat hshape hlen hsign
  · obtain ⟨⟨name, hname, -⟩, -⟩ := Source.scansOnly_of_nameOnly hnamed
    have hle' := (hname.row.reach hfit hle).le_len
    obtain ⟨found, hfound, -⟩ :=
      Source.scans_of_argumentsLen hfit hle' balanced arguments harguments
    refine ⟨name ++ found, ?_, ?_, ?_⟩
    · rw [hlen, ← Nat.add_assoc, ← Nat.add_assoc]
      exact .cons hscan (hname.append hfound)
    · intro _
      rw [hshape]
      rfl
    · intro hname
      rw [hextent] at hname
      cases hname

end

theorem segmentAt_consists (hfit : lexer.source.len ≤ maxOffset) (hp : p ≤ lexer.source.len)
    (h : lexer.segmentAt p = .ok (some segment)) :
    ∃ first rest, lexer.Consists p segment first rest := by
  obtain ⟨first, hscan, hshape⟩ := segmentAt_inv h
  refine ⟨first, ?_⟩
  have hle : p + first.len ≤ lexer.source.len :=
    ((Source.Row.single hscan).reach hfit hp).le_len
  rcases hshape with ⟨hblank, hshape, n, hn, hlen⟩ | ⟨hat, sign, n, hshape, hlen, hsign⟩ | ⟨-, hlen⟩
  · have hrest := (Source.scansOnly_of_blanksLen hfit hle n hn).1
    refine consists_of_scansOnly hscan hlen hrest ?_ rfl ?_
    · rcases hblank with hblank | hblank <;> rw [hblank] <;> simp
    · intro _
      rw [hshape]
      rfl
  · cases hextent : lexer.config.annotations with
    | region =>
        rw [hextent] at hsign
        exact consists_of_region hscan hat hshape hlen hfit hle hextent hsign
    | nameOnly =>
        rw [hextent] at hsign
        exact consists_of_nameOnly hscan hat hshape hlen hsign
  · refine ⟨[], ?_, fun h => absurd rfl h, fun _ h => absurd rfl h⟩
    rw [hlen]
    exact .single hscan

end Lexer

end JavaLex
