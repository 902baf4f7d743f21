import JavaLex.Proofs.Resynchronise

/-! To every rule of the scanner a line feed is as good as the end of the text. Texts joined by a
line feed are scanned one by one, unless the first leaves a comment or a text block open or ends in
a character that the line feed changes. -/

namespace JavaLex

deriving instance DecidableEq for Lexeme

theorem Tag.runsToEnd_iff {tag : Tag} :
    tag.runsToEnd = true ↔ tag = .unterminated .textBlock ∨ tag = .unterminatedComment := by
  cases tag with
  | unterminated form => cases form <;> simp [runsToEnd]
  | _ => simp [runsToEnd]

namespace Source

theorem getLast?_of_byte {a : String} {c : Char} {b : UInt8} {p : Nat} (hc : c.utf8Size = 1)
    (hcb : byte ⟨String.singleton c⟩ 0 = b) (hascii : Byte.isAscii b = true)
    (hp : p + 1 = a.utf8ByteSize) (hb : byte ⟨a⟩ p = b) : a.toList.getLast? = some c := by
  have hlt : p < len ⟨a⟩ := by
    change p < a.utf8ByteSize
    omega
  have hboundary : IsBoundary ⟨a⟩ p := isBoundary_of_isAscii hlt (by rw [hb]; exact hascii)
  obtain ⟨init, last, htext, hinit⟩ := isBoundary_iff_append.1 hboundary
  simp only at htext
  subst htext hinit
  have hsize : last.utf8ByteSize = (String.singleton c).utf8ByteSize := by
    rw [String.utf8ByteSize_append] at hp
    rw [String.utf8ByteSize_singleton, hc]
    omega
  have hlast : last = String.singleton c := by
    apply eq_of_byte_eq hsize
    intro i hi
    have hzero : i = 0 := by
      rw [hsize, String.utf8ByteSize_singleton, hc] at hi
      omega
    have hright := byte_append_right init last 0
    rw [Nat.zero_add] at hright
    rw [hzero, hcb, ← hright, hb]
  simp [hlast]

theorem scan_of_lineFeed {s : Source} {p : Nat} (hfit : s.len ≤ maxOffset)
    (hb : s.byte p = Byte.lineFeed) : s.scan p = .ok (some ⟨.newline, 1, Nat.one_pos⟩) := by
  have hp : p < s.len := lt_len_of_byte_ne_zero (by rw [hb]; decide)
  apply (scan_eq_some_iff hp).2
  rw [hb]
  exact ⟨rfl, Nat.le_trans hp hfit⟩

/-- Behind `a` stands a line feed, in place of the end of the text. -/
theorem agreesBelow_line {a : String} (b : String) (hfit : len ⟨a ++ ("\n" ++ b)⟩ ≤ maxOffset)
    (hreturn : a.toList.getLast? ≠ some '\r') (hsub : a.toList.getLast? ≠ some '\x1a') :
    AgreesBelow ⟨a⟩ ⟨a ++ ("\n" ++ b)⟩ 0 a.utf8ByteSize := by
  have hlen : len ⟨a ++ ("\n" ++ b)⟩ = a.utf8ByteSize + ("\n" ++ b).utf8ByteSize :=
    String.utf8ByteSize_append
  have hleft : len ⟨a⟩ = a.utf8ByteSize := rfl
  have hfeed : byte ⟨a ++ ("\n" ++ b)⟩ (a.utf8ByteSize + 0) = Byte.lineFeed := by
    have hright := byte_append_right a ("\n" ++ b) 0
    rw [Nat.add_comm, hright, byte_append_left (by decide)]
    decide
  refine ⟨⟨by omega, hfit, by omega, by omega, ?_, ?_, ?_, ?_, ?_⟩, ?_⟩
  · intro i hi
    exact byte_append_left hi
  · intro i hi
    exact char?_append_left hi
  · rw [hfeed]
    decide
  · intro _
    exact .inr (by rw [hfeed]; decide)
  · intro p hp hb
    exact absurd (getLast?_of_byte (by decide) (by decide) (by decide) hp hb) hreturn
  · intro p hp hb
    exact absurd (getLast?_of_byte (by decide) (by decide) (by decide) hp hb) hsub

/-- Two texts joined by a line feed have the lexemes of the first, a line end, and the lexemes of
the second. -/
theorem lexemes_append_line (a b : String) (hfit : len ⟨a ++ "\n" ++ b⟩ ≤ maxOffset)
    (hreturn : a.toList.getLast? ≠ some '\r') (hsub : a.toList.getLast? ≠ some '\x1a') :
    ∃ left right, lexemes ⟨a⟩ 0 = .ok left ∧ lexemes ⟨b⟩ 0 = .ok right ∧
      ((∀ lexeme ∈ left, lexeme.tag ≠ .unterminated .textBlock ∧
          lexeme.tag ≠ .unterminatedComment) →
        lexemes ⟨a ++ "\n" ++ b⟩ 0 =
          .ok (left ++ ⟨.newline, 1, Nat.one_pos⟩ :: right)) := by
  rw [String.append_assoc] at hfit ⊢
  have hagrees := agreesBelow_line b hfit hreturn hsub
  have hfit' := (readsAs_right hfit).fit
  obtain ⟨left, hleft⟩ := @exists_scans ⟨a⟩ 0 hagrees.fit (Nat.zero_le _)
  obtain ⟨right, hright⟩ := @exists_scans ⟨b⟩ 0 (readsAs_right hfit').fit (Nat.zero_le _)
  refine ⟨left, right, hleft.lexemes_eq, hright.lexemes_eq, ?_⟩
  intro hclosed
  have hline : Scans ⟨"\n" ++ b⟩ 0 (⟨.newline, 1, Nat.one_pos⟩ :: right)
      ("\n" ++ b).utf8ByteSize := by
    refine .cons (scan_of_lineFeed hfit' ?_) (scans_append_right hfit' hright)
    rw [byte_append_left (by decide)]
    decide
  have hfirst := hagrees.scans hleft (Nat.le_refl _) ?_
  · have hsecond := scans_append_right hfit hline
    rw [Nat.zero_add] at hsecond
    exact (hfirst.append hsecond).lexemes_eq
  · intro lexeme hlexeme hopen
    rcases Tag.runsToEnd_iff.1 hopen with htag | htag
    · exact absurd htag (hclosed lexeme hlexeme).1
    · exact absurd htag (hclosed lexeme hlexeme).2

/-- The number looks for digits of its exponent and finds the line feed. -/
theorem lexemes_append_line_number :
    lexemes ⟨"x /1e"⟩ 0 = .ok [⟨.word, 1, by decide⟩, ⟨.blank, 1, by decide⟩,
        ⟨.operator .slash, 1, by decide⟩, ⟨.number .float, 2, by decide⟩] ∧
      ∃ right, lexemes ⟨"-5"⟩ 0 = .ok right ∧
        lexemes ⟨"x /1e\n-5"⟩ 0 = .ok ([⟨.word, 1, by decide⟩, ⟨.blank, 1, by decide⟩,
          ⟨.operator .slash, 1, by decide⟩, ⟨.number .float, 2, by decide⟩] ++
          ⟨.newline, 1, Nat.one_pos⟩ :: right) := by
  have hfirst : lexemes ⟨"x /1e"⟩ 0 = .ok [⟨.word, 1, by decide⟩, ⟨.blank, 1, by decide⟩,
      ⟨.operator .slash, 1, by decide⟩, ⟨.number .float, 2, by decide⟩] := by
    decide +kernel
  obtain ⟨left, right, hleft, hright, hjoin⟩ :=
    lexemes_append_line "x /1e" "-5" (by decide) (by decide) (by decide)
  cases hleft.symm.trans hfirst
  exact ⟨hfirst, right, hright, hjoin (by simp)⟩

end Source

end JavaLex
