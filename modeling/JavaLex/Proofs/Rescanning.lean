import JavaLex.Proofs.Kinds
import JavaLex.Proofs.LineJoin

/-! Lexemes are self-delimiting. What stands before a lexeme and what stands behind it can be taken
away, and scanning still finds it. Only a SUB notices: at the end of a text it is a blank. -/

namespace JavaLex.Source

variable {s : Source} {a b t : String} {p : Nat} {lexeme : Lexeme}

/-- The end of the text is a divider as well, so a text reads alike with and without what follows
it. -/
theorem agreesInside_append (hfit : len ⟨a ++ b⟩ ≤ maxOffset) :
    AgreesInside ⟨a ++ b⟩ ⟨a⟩ 0 a.utf8ByteSize := by
  have hlen : len ⟨a ++ b⟩ = a.utf8ByteSize + b.utf8ByteSize := String.utf8ByteSize_append
  have hleft : len ⟨a⟩ = a.utf8ByteSize := rfl
  have hend : byte ⟨a⟩ (a.utf8ByteSize + 0) = 0 := byte_of_len_le (Nat.le_refl _)
  refine ⟨hfit, by omega, by omega, by omega, ?_, ?_, ?_, ?_, ?_⟩
  · exact fun i hi => (byte_append_left hi).symm
  · exact fun i hi => (char?_append_left hi).symm
  · rw [hend]
    decide
  · exact fun _ => .inl (Nat.le_refl _)
  · intro i _ _
    rw [hend]
    decide

/-- A lexeme does not depend on what follows it, unless it is a SUB. -/
theorem scan_append_left (hfit : len ⟨a ++ b⟩ ≤ maxOffset)
    (hscan : scan ⟨a ++ b⟩ p = .ok (some lexeme)) (hq : p + lexeme.len ≤ a.utf8ByteSize)
    (hsub : byte ⟨a ++ b⟩ p = Byte.substitute → b = "") : scan ⟨a⟩ p = .ok (some lexeme) := by
  refine (agreesInside_append hfit).scan_some hscan hq ?_ ?_
  · exact fun _ _ => Nat.le_refl _
  · intro hb _
    rw [hsub hb, String.append_empty, Nat.add_zero]

/-- A lexeme does not depend on what stands before it. -/
theorem scan_append_right (hfit : len ⟨a ++ b⟩ ≤ maxOffset)
    (hscan : scan ⟨a ++ b⟩ (p + a.utf8ByteSize) = .ok (some lexeme)) :
    scan ⟨b⟩ p = .ok (some lexeme) := by
  have hreads := readsAs_right hfit
  have hp : p < len ⟨b⟩ := by
    have hlt := lt_len_of_scan hscan
    simp only [len, String.utf8ByteSize_append] at hlt ⊢
    omega
  obtain ⟨found, hfound, hlexed⟩ := scan_of_lt_len hreads.fit hp
  have hsame := hreads.scan_some hfound hlexed.reach.le_len
  rw [hscan] at hsame
  cases hsame
  exact hfound

theorem scan_of_substitute (hfit : s.len ≤ maxOffset) (hb : s.byte p = Byte.substitute) :
    s.scan p =
      .ok (some ⟨if p + 1 = s.len then .blank else .invalidChar, 1, Nat.one_pos⟩) := by
  have hp : p < s.len := lt_len_of_byte_ne_zero (by rw [hb]; decide)
  have hopening : Opening.ofByte (s.byte p) = .substitute := by
    rw [hb]
    rfl
  refine (scan_eq_some_iff hp).2 ⟨?_, Nat.le_trans hp hfit⟩
  rw [hopening, rule, atEnd_of_le_len hp]
  simp

theorem eq_substitute (hsize : t.utf8ByteSize = 1)
    (hb : byte ⟨t⟩ 0 = Byte.substitute) : t = "\x1a" := by
  apply eq_of_byte_eq hsize
  intro i hi
  have hzero : i = 0 := by omega
  rw [hzero, hb]
  decide

theorem exists_text_of_scan (hfit : s.len ≤ maxOffset) (hp : s.IsBoundary p)
    (hscan : s.scan p = .ok (some lexeme)) :
    ∃ a text b, s.text = a ++ (text ++ b) ∧ a.utf8ByteSize = p ∧
      text.utf8ByteSize = lexeme.len := by
  obtain ⟨-, hlexed⟩ := lexed_of_scan hfit hp.le_len hscan
  have hslice := slice?_eq_some_slice hp (hlexed.reach.boundary hp) hlexed.reach.le
  obtain ⟨a, b, htext, ha, hsize⟩ := slice?_eq_some_iff.1 hslice
  exact ⟨a, _, b, htext, ha, Nat.add_left_cancel hsize⟩

theorem lexemes_of_whole (hscan : scan ⟨t⟩ 0 = .ok (some lexeme))
    (hsize : t.utf8ByteSize = lexeme.len) : lexemes ⟨t⟩ 0 = .ok [lexeme] := by
  apply Scans.lexemes_eq
  refine .cons hscan ?_
  rw [Nat.zero_add, ← hsize]
  exact .nil _

/-- Scanned alone, the text of a lexeme is this lexeme, unless it is a SUB that something
follows. -/
theorem lexemes_text_iff (hfit : len ⟨a ++ (t ++ b)⟩ ≤ maxOffset)
    (hscan : scan ⟨a ++ (t ++ b)⟩ a.utf8ByteSize = .ok (some lexeme))
    (hsize : t.utf8ByteSize = lexeme.len) :
    lexemes ⟨t⟩ 0 = .ok [lexeme] ↔ ¬ (lexeme.tag = .invalidChar ∧ t = "\x1a") := by
  have hfirst : scan ⟨t ++ b⟩ 0 = .ok (some lexeme) :=
    scan_append_right hfit (by rwa [Nat.zero_add])
  have hfit' := (readsAs_right hfit).fit
  constructor
  · rintro halone ⟨htag, rfl⟩
    have hblank : lexemes ⟨"\x1a"⟩ 0 = .ok [⟨.blank, 1, Nat.one_pos⟩] := by decide +kernel
    cases halone.symm.trans hblank
    cases htag
  · intro hvalid
    refine lexemes_of_whole (scan_append_left hfit' hfirst (by omega) ?_) hsize
    intro hb
    have hsub := hfirst.symm.trans (scan_of_substitute hfit' hb)
    have hlexeme := Option.some.inj (Except.ok.inj hsub)
    have hone : t.utf8ByteSize = 1 := by
      rw [hsize, hlexeme]
    rw [byte_append_left (by omega)] at hb
    have hend : 0 + 1 = len ⟨t ++ b⟩ := by
      by_contra hne
      rw [hlexeme, if_neg hne] at hvalid
      exact hvalid ⟨rfl, eq_substitute hone hb⟩
    rw [len, String.utf8ByteSize_append, hone] at hend
    exact String.utf8ByteSize_eq_zero_iff.1 (by omega)

/-- Every lexeme of a text is the only lexeme of its own text, wherever it stands. The exception is
a SUB that is an invalid character, as it ends its own text and is a blank there. -/
theorem lexemes_alone (s : Source) (hfit : s.len ≤ maxOffset) :
    ∃ found, s.lexemes 0 = .ok found ∧
      ∀ before lexeme after, found = before ++ lexeme :: after →
        ∃ text, s.slice? (before.map Lexeme.len).sum ((before.map Lexeme.len).sum + lexeme.len) =
            some text ∧
          (lexemes ⟨text⟩ 0 = .ok [lexeme] ↔ ¬ (lexeme.tag = .invalidChar ∧ text = "\x1a")) := by
  obtain ⟨found, hfound⟩ := exists_scans hfit (Nat.zero_le s.len)
  refine ⟨found, hfound.lexemes_eq, ?_⟩
  rintro before lexeme after rfl
  obtain ⟨p, hbefore, hrest⟩ := hfound.exists_mid
  have hscan := hrest.uncons.1
  have hp := (hbefore.row.reach hfit (Nat.zero_le _)).boundary s.isBoundary_zero
  rw [← Nat.zero_add (before.map Lexeme.len).sum, hbefore.add_sum_len]
  obtain ⟨a, text, b, htext, rfl, hsize⟩ := exists_text_of_scan hfit hp hscan
  refine ⟨text, slice?_eq_some_iff.2 ⟨a, b, htext, rfl, by rw [hsize]⟩, ?_⟩
  obtain ⟨whole⟩ := s
  simp only at htext
  subst htext
  exact lexemes_text_iff hfit hscan hsize

/-- A number that looked for the digits of its exponent, a string that its line cuts off behind a
backslash, and a SUB that is not the end of the text. -/
theorem lexemes_alone_cut :
    len ⟨"0x.p+<<\"a\\\n\x1a;"⟩ ≤ maxOffset ∧
      lexemes ⟨"0x.p+<<\"a\\\n\x1a;"⟩ 0 = .ok [⟨.number .hexFloat, 5, by decide⟩,
        ⟨.operator .shiftLeft, 2, by decide⟩, ⟨.unterminated .string, 3, by decide⟩,
        ⟨.newline, 1, by decide⟩, ⟨.invalidChar, 1, by decide⟩,
        ⟨.separator .semicolon, 1, by decide⟩] ∧
      lexemes ⟨"0x.p+"⟩ 0 = .ok [⟨.number .hexFloat, 5, by decide⟩] ∧
      lexemes ⟨"\"a\\"⟩ 0 = .ok [⟨.unterminated .string, 3, by decide⟩] ∧
      lexemes ⟨"\x1a"⟩ 0 ≠ .ok [⟨.invalidChar, 1, by decide⟩] := by
  have hfit : len ⟨"0x.p+<<\"a\\\n\x1a;"⟩ ≤ maxOffset := by decide
  have hall : lexemes ⟨"0x.p+<<\"a\\\n\x1a;"⟩ 0 = .ok [⟨.number .hexFloat, 5, by decide⟩,
      ⟨.operator .shiftLeft, 2, by decide⟩, ⟨.unterminated .string, 3, by decide⟩,
      ⟨.newline, 1, by decide⟩, ⟨.invalidChar, 1, by decide⟩,
      ⟨.separator .semicolon, 1, by decide⟩] := by
    decide +kernel
  obtain ⟨found, hfound, halone⟩ := lexemes_alone ⟨"0x.p+<<\"a\\\n\x1a;"⟩ hfit
  cases hfound.symm.trans hall
  refine ⟨hfit, hall, ?_, ?_, ?_⟩
  · obtain ⟨text, htext, hiff⟩ := halone [] _ _ rfl
    have hspelled : slice? ⟨"0x.p+<<\"a\\\n\x1a;"⟩ 0 5 = some "0x.p+" := by decide +kernel
    cases htext.symm.trans hspelled
    exact hiff.2 (by decide)
  · obtain ⟨text, htext, hiff⟩ := halone [_, _] _ _ rfl
    have hspelled : slice? ⟨"0x.p+<<\"a\\\n\x1a;"⟩ 7 10 = some "\"a\\" := by decide +kernel
    cases htext.symm.trans hspelled
    exact hiff.2 (by decide)
  · obtain ⟨text, htext, hiff⟩ := halone [_, _, _, _] _ _ rfl
    have hspelled : slice? ⟨"0x.p+<<\"a\\\n\x1a;"⟩ 11 12 = some "\x1a" := by decide +kernel
    cases htext.symm.trans hspelled
    exact fun h => hiff.1 h ⟨rfl, rfl⟩

end JavaLex.Source
