import JavaLex.Classifier.Verdict
import JavaLex.Proofs.ScanAgreement
import JavaLex.Proofs.Segments

/-! What is read by whole lexemes does not look behind a semicolon, either: not the names and
arguments of an annotation, not a run of blanks, not the search for the next lexeme that
matters. -/

namespace JavaLex

namespace Source.ReadsAs

variable {s t : Source} {d hi p : Nat} (h : s.ReadsAs t d hi)

include h

theorem scan (hrow : s.Row p hi) : t.scan (p + d) = s.scan p := by
  cases hrow with
  | nil => exact h.scan_hi.1
  | cons hscan hrest => rw [hscan, h.scan_some hscan hrest.le]

/-- A row to `hi` goes on behind any lexeme but a semicolon. -/
theorem row_tail {lexeme : Lexeme} (hrow : s.Row p hi) (hscan : s.scan p = .ok (some lexeme))
    (htag : lexeme.tag ≠ .separator .semicolon) : s.Row (p + lexeme.len) hi := by
  refine hrow.tail ?_ hscan
  intro heq
  rw [heq] at hscan
  exact htag (h.scan_hi.2 lexeme hscan).1

theorem row_len_le {lexeme : Lexeme} (hrow : s.Row p hi) (hscan : s.scan p = .ok (some lexeme)) :
    p + lexeme.len ≤ hi + 1 := by
  by_cases heq : p = hi
  · rw [heq] at hscan ⊢
    rw [(h.scan_hi.2 lexeme hscan).2]
  · exact Nat.le_succ_of_le (hrow.tail heq hscan).le

theorem lt_len_iff (hp : p ≤ hi) : p + d < t.len ↔ p < s.len := by
  have := h.len_le_iff hp
  omega

theorem slice {i j : Nat} (hj : j ≤ hi + 1) : t.slice (i + d) (j + d) = s.slice i j := by
  unfold Source.slice
  rw [h.slice? i j hj]

theorem blanksLen (hrow : s.Row p hi) : t.blanksLen (p + d) = s.blanksLen p := by
  fun_induction Source.blanksLen s p with
  | case1 p hlt ih =>
      obtain ⟨⟨tag, len, hpos⟩, hscan, -⟩ := scan_of_lt_len h.fit hlt
      have hrest : tag ≠ .separator .semicolon →
          t.blanksLen (p + d + len) = s.blanksLen (p + len) := by
        intro htag
        rw [Nat.add_right_comm]
        exact ih len hpos (h.row_tail hrow hscan htag)
      rw [Source.blanksLen, if_pos ((h.lt_len_iff hrow.le).2 hlt), h.scan hrow, hscan]
      simp only [except_ok_bind]
      cases tag with
      | blank => simp only [hrest (by simp)]
      | newline => simp only [hrest (by simp)]
      | _ => rfl
  | case2 p hlt =>
      rw [Source.blanksLen, if_neg (fun hlt' => hlt ((h.lt_len_iff hrow.le).1 hlt'))]

theorem lookAhead (hrow : s.Row p hi) : t.lookAhead (p + d) = s.lookAhead p := by
  fun_induction Source.lookAhead s p with
  | case1 p hlt ih =>
      obtain ⟨⟨tag, len, hpos⟩, hscan, -⟩ := scan_of_lt_len h.fit hlt
      have hlt' := (h.lt_len_iff hrow.le).2 hlt
      have hfits : p + len ≤ maxOffset := scan_fits hscan
      have hfits' : p + d + len ≤ maxOffset := scan_fits ((h.scan hrow).trans hscan)
      rw [Source.lookAhead, if_pos hlt', h.scan hrow, hscan]
      simp only [except_ok_bind, checkedAdd_eq_ok hfits, checkedAdd_eq_ok hfits',
        Nat.add_right_comm p d len]
      split
      · rename_i htrivia
        refine ih len hpos (h.row_tail hrow hscan ?_)
        intro htag
        simp only at htag
        rw [htag] at htrivia
        cases htrivia
      · rw [h.slice (h.row_len_le hrow hscan)]
  | case2 p hlt =>
      rw [Source.lookAhead, if_neg (fun hlt' => hlt ((h.lt_len_iff hrow.le).1 hlt'))]

theorem row_name {name : String} {n : Nat} (hrow : s.Row p hi)
    (hname : s.nameAt? p = .ok (some (name, n))) : s.Row (p + n) hi := by
  obtain ⟨_, hscan⟩ := nameAt?_eq_some hname
  exact h.row_tail hrow hscan (by simp)

theorem nameAt? (hrow : s.Row p hi) : t.nameAt? (p + d) = s.nameAt? p := by
  unfold Source.nameAt?
  rw [h.scan hrow]
  cases hscan : s.scan p with
  | error fault => rfl
  | ok found =>
      simp only [except_ok_bind]
      split
      · rw [Nat.add_right_comm, h.slice? _ _ (h.row_len_le hrow hscan)]
      · rfl

theorem qualifierLen (hrow : s.Row p hi) :
    t.qualifierLen (p + d) = s.qualifierLen p ∧
      ∀ n, s.qualifierLen p = .ok n → s.Row (p + n) hi := by
  fun_induction Source.qualifierLen s p with
  | case1 p hlt ih =>
      obtain ⟨⟨tag, len, hpos⟩, hscan, -⟩ := scan_of_lt_len h.fit hlt
      have hzero : ∀ n, (pure 0 : Except Fault Nat) = .ok n → s.Row (p + n) hi := by
        intro n hn
        cases hn
        exact hrow
      rw [Source.qualifierLen, if_pos ((h.lt_len_iff hrow.le).2 hlt), h.scan hrow, hscan]
      simp only [except_ok_bind, Nat.add_right_comm p d]
      split
      · rename_i hdot
        cases hdot
        have hrow' : s.Row (p + len) hi := h.row_tail hrow hscan (by simp)
        rw [h.nameAt? hrow']
        cases hname : s.nameAt? (p + len) with
        | error fault => exact ⟨rfl, fun n hn => by cases hn⟩
        | ok found =>
            cases found with
            | none => exact ⟨rfl, hzero⟩
            | some entry =>
                obtain ⟨name, m⟩ := entry
                have hrest := h.row_name hrow' hname
                rw [Nat.add_assoc] at hrest
                obtain ⟨heq, hnext⟩ := ih len hpos m hrest
                simp only [except_ok_bind, heq]
                split
                · exact ⟨trivial, hzero⟩
                · refine ⟨trivial, ?_⟩
                  intro k hk
                  obtain ⟨j, hj, rfl⟩ := map_eq_ok hk
                  rw [← Nat.add_assoc]
                  exact hnext j hj
      · exact ⟨rfl, hzero⟩
  | case2 p hlt =>
      rw [Source.qualifierLen, if_neg (fun hlt' => hlt ((h.lt_len_iff hrow.le).1 hlt'))]
      refine ⟨rfl, ?_⟩
      intro n hn
      cases hn
      exact hrow

theorem argumentsLen {depth : Nat} {found : Bool × Nat} (hrow : s.Row p hi)
    (hs : s.argumentsLen depth p = .ok found) (hq : p + found.2 ≤ hi) :
    t.argumentsLen depth (p + d) = .ok found := by
  fun_induction Source.argumentsLen s depth p generalizing found with
  | case1 depth p hlt ih =>
      obtain ⟨⟨tag, len, hpos⟩, hscan, -⟩ := scan_of_lt_len h.fit hlt
      have hrest : ∀ depth',
          (s.argumentsLen depth' (p + len) >>= fun r => .ok (r.1, len + r.2)) = .ok found →
          (t.argumentsLen depth' (p + d + len) >>= fun r => .ok (r.1, len + r.2)) =
            .ok found := by
        intro depth' hs
        obtain ⟨⟨balanced, rest⟩, hrest, hs⟩ := bind_eq_ok hs
        cases hs
        simp only at hq
        have hrow' : s.Row (p + len) hi := hrow.tail (by omega) hscan
        rw [Nat.add_right_comm, ih len hpos depth' hrow' hrest (by simp only; omega)]
        rfl
      rw [hscan] at hs
      rw [Source.argumentsLen, if_pos ((h.lt_len_iff hrow.le).2 hlt), h.scan hrow, hscan]
      simp only [except_ok_bind] at hs ⊢
      split at hs
      · rename_i hclose
        rw [if_pos hclose]
        exact hs
      · rename_i hclose
        rw [if_neg hclose]
        split at hs
        · rename_i hopen
          obtain ⟨depth', hdepth, hs⟩ := bind_eq_ok hs
          rw [if_pos hopen, hdepth]
          exact hrest depth' hs
        · rename_i hopen
          rw [if_neg hopen]
          split at hs
          · rename_i hinner
            rw [if_pos hinner]
            exact hrest (depth - 1) hs
          · rename_i hinner
            rw [if_neg hinner]
            exact hrest depth hs
  | case2 depth p hlt =>
      rw [Source.argumentsLen, if_neg (fun hlt' => hlt ((h.lt_len_iff hrow.le).1 hlt'))]
      exact hs

theorem annotationAt {extent : AnnotationExtent} {found : AtSign × Nat} (hrow : s.Row p hi)
    (hs : s.annotationAt extent p = .ok found) (hq : p + found.2 ≤ hi) :
    t.annotationAt extent (p + d) = .ok found := by
  obtain ⟨name?, hname, hs⟩ := bind_eq_ok hs
  unfold Source.annotationAt
  rw [h.nameAt? hrow, hname, except_ok_bind]
  cases name? with
  | none => exact hs
  | some entry =>
      obtain ⟨name, len⟩ := entry
      have hrow' := h.row_name hrow hname
      simp only at hs ⊢
      split at hs
      · rename_i hword
        rw [if_pos hword]
        exact hs
      · rename_i hword
        rw [if_neg hword]
        split at hs
        · rename_i hreserved
          rw [if_pos hreserved]
          exact hs
        · rename_i hreserved
          obtain ⟨n, hn, hs⟩ := bind_eq_ok hs
          have hnamed := (h.qualifierLen hrow').2 n hn
          rw [Nat.add_assoc] at hnamed
          rw [if_neg hreserved, Nat.add_right_comm, (h.qualifierLen hrow').1, hn, except_ok_bind]
          split at hs
          · rename_i honly
            rw [if_pos honly]
            exact hs
          · rename_i honly
            rw [if_neg honly, Nat.add_right_comm, h.scan hnamed]
            obtain ⟨found', hscan, hs⟩ := bind_eq_ok hs
            rw [hscan, except_ok_bind]
            split at hs
            · obtain ⟨⟨balanced, m⟩, hm, hs⟩ := bind_eq_ok hs
              cases hs
              simp only at hq ⊢
              rw [h.argumentsLen hnamed hm (by simp only; omega)]
              rfl
            · exact hs

end Source.ReadsAs

namespace Lexer

variable {s t : Source} {d hi p : Nat} {config : Config}

theorem segmentAt_agrees {segment : Segment} (h : s.ReadsAs t d hi) (hrow : s.Row p hi)
    (hs : segmentAt ⟨s, config⟩ p = .ok (some segment)) (hq : p + segment.len ≤ hi) :
    segmentAt ⟨t, config⟩ (p + d) = .ok (some segment) := by
  obtain ⟨found, hscan, hs⟩ := bind_eq_ok hs
  unfold segmentAt
  rw [h.scan hrow, hscan, except_ok_bind]
  cases found with
  | none => cases hs
  | some lexeme =>
      simp only at hs ⊢
      split at hs
      · rename_i hblank
        have hrow' : s.Row (p + lexeme.len) hi := by
          refine h.row_tail hrow hscan ?_
          rcases hblank.2 with htag | htag <;> simp [htag]
        rw [if_pos hblank, Nat.add_right_comm, h.blanksLen hrow']
        exact hs
      · rename_i hblank
        rw [if_neg hblank]
        split at hs
        · rename_i hat
          have hrow' := h.row_tail hrow hscan (by simp [hat])
          obtain ⟨⟨sign, more⟩, hmore, hs⟩ := bind_eq_ok hs
          cases hs
          simp only [Lexeme.extended] at hq
          rw [if_pos hat, Nat.add_right_comm, h.annotationAt hrow' hmore (by simp only; omega)]
          rfl
        · rename_i hat
          rw [if_neg hat]
          exact hs

end Lexer

end JavaLex
