import JavaLex.Segment
import JavaLex.Proofs.Scanning

/-! Segments are rows of whole lexemes, and finding one never faults. -/

namespace JavaLex

namespace Source

/-- From `p` to `q` by whole lexemes. -/
inductive Row (s : Source) : Nat → Nat → Prop where
  | nil (p : Nat) : Row s p p
  | cons {p q : Nat} {lexeme : Lexeme} :
      s.scan p = .ok (some lexeme) → Row s (p + lexeme.len) q → Row s p q

variable {s : Source} {p q r : Nat}

namespace Row

theorem single {lexeme : Lexeme} (h : s.scan p = .ok (some lexeme)) :
    s.Row p (p + lexeme.len) := .cons h (.nil _)

theorem trans (h : s.Row p q) (h' : s.Row q r) : s.Row p r := by
  induction h with
  | nil p => exact h'
  | cons hscan _ ih => exact .cons hscan (ih h')

theorem le (h : s.Row p q) : p ≤ q := by
  induction h with
  | nil p => exact Nat.le_refl p
  | cons _ _ ih => exact Nat.le_trans (Nat.le_add_right _ _) ih

/-- There is one way to go on from an offset, so a row that does not end there goes on with the
lexeme found there. -/
theorem tail {lexeme : Lexeme} (h : s.Row p q) (hne : p ≠ q)
    (hscan : s.scan p = .ok (some lexeme)) : s.Row (p + lexeme.len) q := by
  cases h with
  | nil p => exact absurd rfl hne
  | cons hscan' hrest =>
      rw [hscan] at hscan'
      cases hscan'
      exact hrest

end Row

theorem nameAt?_eq_some {name : String} {n : Nat} (h : s.nameAt? p = .ok (some (name, n))) :
    ∃ hpos, s.scan p = .ok (some ⟨.word, n, hpos⟩) := by
  obtain ⟨found, hscan, h⟩ := bind_eq_ok h
  split at h
  · rename_i hpos
    obtain ⟨_, -, h⟩ := Option.map_eq_some_iff.1 (Except.ok.inj h)
    cases h
    exact ⟨hpos, hscan⟩
  · cases h

theorem row_of_nameAt? {name : String} {n : Nat} (h : s.nameAt? p = .ok (some (name, n))) :
    s.Row p (p + n) := by
  obtain ⟨_, hscan⟩ := nameAt?_eq_some h
  exact .single hscan

section

variable (hfit : s.len ≤ maxOffset)

include hfit

theorem Row.reach (h : s.Row p q) (hp : p ≤ s.len) : s.Reach p q := by
  induction h with
  | nil p => exact .refl hp
  | @cons p q lexeme hscan _ ih =>
      rcases Nat.lt_or_ge p s.len with hlt | hge
      · obtain ⟨found, hfound, hlexed⟩ := scan_of_lt_len hfit hlt
        rw [hscan] at hfound
        cases hfound
        exact hlexed.reach.trans (ih hlexed.reach.le_len)
      · rw [Nat.le_antisymm hp hge, scan_len] at hscan
        cases hscan

theorem blanksLen_returns (hp : p ≤ s.len) :
    Returns (s.blanksLen p) (fun n => s.Row p (p + n)) := by
  fun_induction blanksLen s p with
  | case1 p hlt ih =>
      obtain ⟨⟨tag, len, hpos⟩, hscan, hlexed⟩ := scan_of_lt_len hfit hlt
      have hrest : Returns ((len + ·) <$> s.blanksLen (p + len)) (fun n => s.Row p (p + n)) := by
        refine (ih len hpos hlexed.reach.le_len).map ?_
        intro n _ hn
        rw [← Nat.add_assoc]
        exact .cons hscan hn
      rw [hscan, except_ok_bind]
      cases tag with
      | blank => exact hrest
      | newline => exact hrest
      | _ => exact .ok (.nil p)
  | case2 p hlt => exact .ok (.nil p)

theorem nameAt?_returns (hp : p ≤ s.len) : Returns (s.nameAt? p) (fun _ => True) := by
  rcases Nat.lt_or_ge p s.len with hlt | hge
  · obtain ⟨lexeme, hscan, -⟩ := scan_of_lt_len hfit hlt
    simp only [nameAt?, hscan, except_ok_bind]
    split <;> exact .ok trivial
  · rw [Nat.le_antisymm hp hge, nameAt?, scan_len]
    exact .ok trivial

theorem qualifierLen_returns (hp : p ≤ s.len) :
    Returns (s.qualifierLen p) (fun n => s.Row p (p + n)) := by
  fun_induction qualifierLen s p with
  | case1 p hlt ih =>
      obtain ⟨lexeme, hscan, hlexed⟩ := scan_of_lt_len hfit hlt
      rw [hscan, except_ok_bind]
      split
      · rename_i len hpos hdot
        cases hdot
        refine (nameAt?_returns hfit hlexed.reach.le_len).bind fun found hname _ => ?_
        split
        · rename_i name n
          have hrow : s.Row p (p + (len + n)) := by
            rw [← Nat.add_assoc]
            exact .cons hscan (row_of_nameAt? hname)
          split
          · exact .ok (.nil p)
          · refine (ih len hpos n (hrow.reach hfit hp).le_len).map ?_
            intro m _ hm
            rw [← Nat.add_assoc]
            exact hrow.trans hm
        · exact .ok (.nil p)
      · exact .ok (.nil p)
  | case2 p hlt => exact .ok (.nil p)

/-- Each open parenthesis takes a byte of the text, so that they can be counted. -/
theorem argumentsLen_returns {depth : Nat} (hd : depth ≤ p) (hp : p ≤ s.len) :
    Returns (s.argumentsLen depth p) (fun r => s.Row p (p + r.2)) := by
  fun_induction argumentsLen s depth p with
  | case1 depth p hlt ih =>
      obtain ⟨⟨tag, len, hpos⟩, hscan, hlexed⟩ := scan_of_lt_len hfit hlt
      have hle := hlexed.reach.le_len
      have hrest : ∀ d, d ≤ p + len → Returns
          (s.argumentsLen d (p + len) >>= fun r => .ok (r.1, len + r.2))
          (fun r => s.Row p (p + r.2)) := by
        intro d hd
        refine (ih len hpos d hd hle).bind fun r _ hr => .ok ?_
        rw [← Nat.add_assoc]
        exact .cons hscan hr
      rw [hscan, except_ok_bind]
      simp only
      split
      · exact .ok (.single hscan)
      · split
        · rw [checkedAdd_eq_ok (by omega), except_ok_bind]
          exact hrest (depth + 1) (by omega)
        · split
          · exact hrest (depth - 1) (by omega)
          · exact hrest depth (by omega)
  | case2 depth p hlt => exact .ok (.nil p)

theorem annotationAt_returns (extent : AnnotationExtent) (hp : p ≤ s.len) :
    Returns (s.annotationAt extent p)
      (fun r => s.Row p (p + r.2) ∧ (r.1 = .punctuation → r.2 = 0)) := by
  refine (nameAt?_returns hfit hp).bind fun found hname _ => ?_
  split
  · exact .ok ⟨.nil p, fun _ => rfl⟩
  · rename_i name len
    have hrow := row_of_nameAt? hname
    have hle := (hrow.reach hfit hp).le_len
    split
    · exact .ok ⟨hrow, fun h => by cases h⟩
    · split
      · exact .ok ⟨.nil p, fun _ => rfl⟩
      · refine (qualifierLen_returns hfit hle).bind ?_
        intro n _ hn
        have hnamed : s.Row p (p + (len + n)) := by
          rw [← Nat.add_assoc]
          exact hrow.trans hn
        have hle' := (hnamed.reach hfit hp).le_len
        simp only
        split
        · exact .ok ⟨hnamed, fun h => by cases h⟩
        · rcases Nat.lt_or_ge (p + (len + n)) s.len with hlt | hge
          · obtain ⟨lexeme, hscan, -⟩ := scan_of_lt_len hfit hlt
            rw [hscan, except_ok_bind]
            split
            · refine (argumentsLen_returns hfit (Nat.zero_le _) hle').bind ?_
              intro r _ hr
              refine .ok ⟨?_, fun h => by cases h⟩
              rw [← Nat.add_assoc]
              exact hnamed.trans hr
            · exact .ok ⟨hnamed, fun h => by cases h⟩
          · rw [Nat.le_antisymm hle' hge, scan_len, except_ok_bind]
            exact .ok ⟨Nat.le_antisymm hle' hge ▸ hnamed, fun h => by cases h⟩

end

/-- What is known of a segment by its shape. -/
def Shaped (s : Source) (p stop : Nat) : Shape → Prop
  | .blanks => True
  | .marked sign =>
    s.Spells p (p + 1) (.separator .atSign) ∧ (sign = .punctuation → stop = p + 1)
  | .single tag => s.Lexed p tag stop ∧ tag ≠ .separator .atSign

end Source

namespace Lexer

variable {lexer : Lexer} {p : Nat}

/-- A segment is not empty, consists of whole lexemes and has the text of its shape. -/
structure Cut (lexer : Lexer) (p : Nat) (segment : Segment) : Prop where
  row : lexer.source.Row p (p + segment.len)
  shaped : lexer.source.Shaped p (p + segment.len) segment.shape

theorem segmentAt_len : lexer.segmentAt lexer.source.len = .ok none := by
  rw [segmentAt, Source.scan_len]
  rfl

theorem segmentAt_of_lt_len (hfit : lexer.source.len ≤ maxOffset) (hp : p < lexer.source.len) :
    ∃ segment, lexer.segmentAt p = .ok (some segment) ∧ lexer.Cut p segment := by
  obtain ⟨lexeme, hscan, hlexed⟩ := Source.scan_of_lt_len hfit hp
  have hle := hlexed.reach.le_len
  simp only [segmentAt, hscan, except_ok_bind]
  split
  · obtain ⟨n, hblanks, hrow⟩ := Source.blanksLen_returns hfit hle
    refine ⟨lexeme.extended .blanks n, ?_, ?_, trivial⟩
    · rw [hblanks]
      rfl
    · simp only [Lexeme.extended, ← Nat.add_assoc]
      exact .cons hscan hrow
  · split
    · rename_i hat
      obtain ⟨⟨sign, n⟩, hfound, hrow, hlone⟩ :=
        Source.annotationAt_returns hfit lexer.config.annotations hle
      have hspells := hlexed.spells
      rw [hat] at hspells
      have hlen : p + lexeme.len = p + 1 := hspells.2
      refine ⟨lexeme.extended (.marked sign) n, ?_, ?_, hlen ▸ hspells, fun h => ?_⟩
      · rw [hfound]
        rfl
      · simp only [Lexeme.extended, ← Nat.add_assoc]
        exact .cons hscan hrow
      · have hzero : n = 0 := hlone h
        simp only [Lexeme.extended, hzero, Nat.add_zero]
        exact hlen
    · rename_i hat
      exact ⟨lexeme.extended (.single lexeme.tag) 0, rfl, .single hscan, hlexed, hat⟩

theorem segmentAt_of_scan {lexeme : Lexeme} (hscan : lexer.source.scan p = .ok (some lexeme))
    (htag : lexeme.tag ≠ .blank ∧ lexeme.tag ≠ .newline ∧ lexeme.tag ≠ .separator .atSign) :
    lexer.segmentAt p = .ok (some (lexeme.extended (.single lexeme.tag) 0)) := by
  rw [segmentAt, hscan, except_ok_bind]
  simp only [htag.1, htag.2.1, htag.2.2, or_self, and_false, if_false, except_pure]

theorem cut_of_segmentAt {segment : Segment} (hfit : lexer.source.len ≤ maxOffset)
    (hp : p ≤ lexer.source.len) (h : lexer.segmentAt p = .ok (some segment)) :
    lexer.Cut p segment := by
  rcases Nat.lt_or_ge p lexer.source.len with hlt | hge
  · obtain ⟨found, hfound, hcut⟩ := segmentAt_of_lt_len hfit hlt
    rw [h] at hfound
    cases hfound
    exact hcut
  · rw [Nat.le_antisymm hp hge, segmentAt_len] at h
    cases h

end Lexer

end JavaLex
