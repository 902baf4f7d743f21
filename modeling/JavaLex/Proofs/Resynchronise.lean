import Mathlib.Algebra.GroupWithZero.Nat
import Mathlib.Data.Nat.Find
import Mathlib.Order.Bounds.Basic
import JavaLex.Proofs.ScanAgreement
import JavaLex.Proofs.Segments

/-! Scanning depends on the text that is left and on nothing else. Started anywhere, even between
the bytes of a character, it gives up the bytes up to the next boundary one by one and then finds
the lexemes that the rest of the text has by itself. -/

namespace JavaLex

/-- A byte that no lexeme can start with. -/
def Lexeme.invalidByte : Lexeme := ⟨.invalidChar, 1, Nat.one_pos⟩

namespace Source

/-- What `n` scans in a row find from `p` on, and where they end. A scan that finds the end of the
text stays there. -/
def scans (s : Source) (p : Nat) : Nat → Except Fault (List (Option Lexeme) × Nat)
  | 0 => pure ([], p)
  | n + 1 => do
    let found ← s.scan p
    let (later, stop) ← s.scans (p + (found.map Lexeme.len).getD 0) n
    pure (found :: later, stop)

/-- From `p` to `q` by these lexemes. -/
inductive Scans (s : Source) : Nat → List Lexeme → Nat → Prop where
  | nil (p : Nat) : Scans s p [] p
  | cons {p q : Nat} {lexeme : Lexeme} {rest : List Lexeme} :
      s.scan p = .ok (some lexeme) → Scans s (p + lexeme.len) rest q →
      Scans s p (lexeme :: rest) q

variable {s : Source} {p q r : Nat} {found later : List Lexeme}

namespace Scans

theorem append (h : s.Scans p found q) (h' : s.Scans q later r) :
    s.Scans p (found ++ later) r := by
  induction h with
  | nil p => exact h'
  | cons hscan _ ih => exact .cons hscan (ih h')

theorem uncons {lexeme : Lexeme} (h : s.Scans p (lexeme :: found) q) :
    s.scan p = .ok (some lexeme) ∧ s.Scans (p + lexeme.len) found q := by
  cases h with
  | cons hscan hrest => exact ⟨hscan, hrest⟩

theorem exists_mid (h : s.Scans p (found ++ later) q) :
    ∃ mid, s.Scans p found mid ∧ s.Scans mid later q := by
  induction found generalizing p with
  | nil => exact ⟨p, .nil p, h⟩
  | cons lexeme found ih =>
      obtain ⟨hscan, hrest⟩ := h.uncons
      obtain ⟨mid, hfound, hlater⟩ := ih hrest
      exact ⟨mid, .cons hscan hfound, hlater⟩

theorem row (h : s.Scans p found q) : s.Row p q := by
  induction h with
  | nil p => exact .nil p
  | cons hscan _ ih => exact .cons hscan ih

theorem add_sum_len (h : s.Scans p found q) : p + (found.map Lexeme.len).sum = q := by
  induction h with
  | nil p => rfl
  | cons _ _ ih =>
      rw [List.map_cons, List.sum_cons, ← Nat.add_assoc]
      exact ih

theorem lexemes_eq (h : s.Scans p found s.len) : s.lexemes p = .ok found := by
  generalize hq : s.len = q at h
  induction h with
  | nil p =>
      rw [lexemes, if_neg (by omega)]
      rfl
  | @cons p q lexeme rest hscan hrest ih =>
      have hlt : p < s.len := by
        have := hrest.row.le
        have := lexeme.len_pos
        omega
      rw [lexemes, if_pos hlt, hscan, except_ok_bind]
      simp only [ih hq, except_ok_map]

theorem scans_eq (h : s.Scans p found s.len) (n : Nat) :
    s.scans p (found.length + n) = .ok (found.map some ++ List.replicate n none, s.len) := by
  generalize hq : s.len = q at h
  induction h with
  | nil p =>
      subst hq
      induction n with
      | zero => rfl
      | succ n ih =>
          rw [List.length_nil, Nat.zero_add] at ih ⊢
          rw [scans, scan_len, except_ok_bind]
          simp only [Option.map_none, Option.getD_none, Nat.add_zero, ih, except_ok_bind]
          rfl
  | cons hscan _ ih =>
      rw [List.length_cons, Nat.add_right_comm, scans, hscan, except_ok_bind]
      simp only [Option.map_some, Option.getD_some, ih hq, except_ok_bind]
      rfl

end Scans

section

variable (hfit : s.len ≤ maxOffset)

include hfit

theorem exists_scans (hp : p ≤ s.len) : ∃ found, s.Scans p found s.len := by
  obtain ⟨n, hn⟩ := Nat.exists_eq_add_of_le hp
  induction n using Nat.strongRecOn generalizing p with
  | ind n ih =>
      rcases Nat.lt_or_ge p s.len with hlt | hge
      · obtain ⟨lexeme, hscan, hlexed⟩ := scan_of_lt_len hfit hlt
        have hle := hlexed.reach.le_len
        have hpos := lexeme.len_pos
        obtain ⟨rest, hrest⟩ := ih (s.len - (p + lexeme.len)) (by omega) hle (by omega)
        exact ⟨lexeme :: rest, .cons hscan hrest⟩
      · rw [Nat.le_antisymm hp hge]
        exact ⟨[], .nil _⟩

/-- Between the bytes of a character every byte is a lexeme of its own. -/
theorem scan_of_not_isBoundary (hp : p < s.len) (hb : ¬ s.IsBoundary p) :
    s.scan p = .ok (some .invalidByte) := by
  have hfirst : ¬ (s.byte p).IsUTF8FirstByte := fun hfirst =>
    hb (isBoundary_iff_first.2 (.inr ⟨hp, hfirst⟩))
  have hwide : Opening.ofByte (s.byte p) = .wide := by
    by_contra hne
    exact hb (isBoundary_of_isAscii hp (Opening.isAscii_of_ofByte hne))
  have hchar : s.char? p = none := dif_neg hb
  have hsum : checkedAdd p 1 = .ok (p + 1) := checkedAdd_eq_ok (Nat.le_trans hp hfit)
  refine (scan_eq_some_iff hp).2 ⟨?_, Nat.le_trans hp hfit⟩
  simp only [hwide, rule, wideAt, skipChar, charAt, read_of_le_len (Nat.le_of_lt hp),
    except_ok_bind, Byte.charWidth_of_not_first hfirst, hsum, except_pure, hchar]
  rfl

theorem scans_invalid {n : Nat} (hp : p + n ≤ s.len)
    (hb : ∀ i, p ≤ i → i < p + n → ¬ s.IsBoundary i) :
    s.Scans p (List.replicate n .invalidByte) (p + n) := by
  induction n generalizing p with
  | zero => exact .nil p
  | succ n ih =>
      have hscan := scan_of_not_isBoundary hfit (by omega) (hb p (Nat.le_refl p) (by omega))
      have hrest := @ih (p + 1) (by omega) (fun i h1 h2 => hb i (by omega) (by omega))
      rw [Nat.add_assoc, Nat.add_comm 1 n] at hrest
      exact .cons hscan hrest

end

theorem AgreesBelow.scans {t : Source} {d hi : Nat} (h : s.AgreesBelow t d hi)
    (hs : s.Scans p found q) (hq : q ≤ hi)
    (hopen : ∀ lexeme ∈ found, lexeme.tag.runsToEnd = true → s.len ≤ hi → t.len ≤ hi + d) :
    t.Scans (p + d) found (q + d) := by
  induction hs with
  | nil p => exact .nil _
  | @cons p q lexeme rest hscan hrest ih =>
      have hscan' := h.scan_some hscan (Nat.le_trans hrest.row.le hq)
        (hopen lexeme List.mem_cons_self)
      have hrest' := ih hq fun other hother => hopen other (List.mem_cons_of_mem lexeme hother)
      rw [Nat.add_right_comm] at hrest'
      exact .cons hscan' hrest'

theorem scans_append_right {a b : String} (hfit : len ⟨a ++ b⟩ ≤ maxOffset)
    (h : Scans ⟨b⟩ p found b.utf8ByteSize) :
    Scans ⟨a ++ b⟩ (p + a.utf8ByteSize) found (len ⟨a ++ b⟩) := by
  have hreads := readsAs_right hfit
  have hlen : len ⟨a ++ b⟩ = b.utf8ByteSize + a.utf8ByteSize := by
    rw [len, String.utf8ByteSize_append, Nat.add_comm]
  rw [hlen]
  exact hreads.agreesBelow.scans h (Nat.le_refl _) fun _ _ _ => hreads.len_le

theorem exists_isLeast_isBoundary (hp : p ≤ s.len) :
    ∃ b, IsLeast {i | p ≤ i ∧ s.IsBoundary i} b := by
  have hex : ∃ i, p ≤ i ∧ s.IsBoundary i := ⟨s.len, hp, s.isBoundary_len⟩
  exact ⟨Nat.find hex, Nat.find_spec hex, fun i hi => Nat.find_min' hex hi⟩

/-- Wherever scanning starts, it finds single invalid bytes up to the next boundary `b`, then the
lexemes of the text behind `b`, and then the end of the text as often as it is asked for more. -/
theorem scans_resynchronise (s : Source) (hfit : s.len ≤ maxOffset) {o : Nat} (ho : o ≤ s.len) :
    ∃ b rest tail found,
      IsLeast {i | o ≤ i ∧ s.IsBoundary i} b ∧
      s.slice? b s.len = some rest ∧
      lexemes ⟨rest⟩ 0 = .ok tail ∧
      found = List.replicate (b - o) Lexeme.invalidByte ++ tail ∧
      (∀ n, s.scans o (found.length + n) =
        .ok (found.map some ++ List.replicate n none, s.len)) ∧
      (∀ lexeme ∈ found, 0 < lexeme.len) ∧
      (found.map Lexeme.len).sum = s.len - o := by
  obtain ⟨text⟩ := s
  obtain ⟨b, hleast⟩ := exists_isLeast_isBoundary ho
  obtain ⟨a, rest, htext, ha⟩ := isBoundary_iff_append.1 hleast.1.2
  simp only at htext
  subst htext ha
  have hlen : len ⟨a ++ rest⟩ = a.utf8ByteSize + rest.utf8ByteSize := String.utf8ByteSize_append
  obtain ⟨tail, htail⟩ := @exists_scans ⟨rest⟩ 0 (readsAs_right hfit).fit (Nat.zero_le _)
  have hinvalid : Scans ⟨a ++ rest⟩ o (List.replicate (a.utf8ByteSize - o) .invalidByte)
      a.utf8ByteSize := by
    have hoffset := Nat.add_sub_cancel' hleast.1.1
    have hscans := @scans_invalid ⟨a ++ rest⟩ o hfit (a.utf8ByteSize - o) (by omega) ?_
    · rwa [hoffset] at hscans
    · intro i h1 h2 hi
      have := hleast.2 ⟨h1, hi⟩
      omega
  have hrest := scans_append_right hfit htail
  rw [Nat.zero_add] at hrest
  have hall := hinvalid.append hrest
  refine ⟨a.utf8ByteSize, rest, tail, _, hleast, ?_, htail.lexemes_eq, rfl, hall.scans_eq, ?_, ?_⟩
  · exact slice?_eq_some_iff.2 ⟨a, "", by simp, rfl, hlen.symm⟩
  · exact fun lexeme _ => lexeme.len_pos
  · have := hall.add_sum_len
    omega

/-- The scan starts at the second of the three bytes of a sign that starts no lexeme. -/
theorem scans_resynchronise_inside :
    len ⟨"x€+=\x00"⟩ ≤ maxOffset ∧ 2 ≤ len ⟨"x€+=\x00"⟩ ∧
      ∃ tail, lexemes ⟨"+=\x00"⟩ 0 = .ok tail ∧
        ∀ n, scans ⟨"x€+=\x00"⟩ 2 (tail.length + 2 + n) =
          .ok (some .invalidByte :: some .invalidByte :: tail.map some ++ List.replicate n none,
            7) := by
  refine ⟨by decide, by decide, ?_⟩
  obtain ⟨b, rest, tail, found, hleast, hrest, htail, rfl, hscans, -, -⟩ :=
    scans_resynchronise ⟨"x€+=\x00"⟩ (by decide) (o := 2) (by decide)
  have hb : b = 4 := by
    refine hleast.unique ⟨⟨by decide, by decide⟩, ?_⟩
    rintro i ⟨hle, hi⟩
    by_contra hlt
    have hcases : i = 2 ∨ i = 3 := by omega
    rcases hcases with rfl | rfl
    · exact absurd hi (by decide)
    · exact absurd hi (by decide)
  subst hb
  have hrest' : slice? ⟨"x€+=\x00"⟩ 4 7 = some "+=\x00" := by decide +kernel
  cases hrest.symm.trans hrest'
  exact ⟨tail, htail, hscans⟩

end Source

end JavaLex
