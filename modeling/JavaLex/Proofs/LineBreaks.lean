import JavaLex.Proofs.Comments
import JavaLex.Proofs.Contents
import JavaLex.Proofs.LineIndex

/-! Lexemes and lines. The scanner knows line ends by its newlines, comments and literals, the index
of lines by the bytes alone; they come to the same line ends, and no lexeme ends inside one. -/

namespace JavaLex

/-- Whether a lexeme may go on over the end of a line. -/
def Tag.spansLines : Tag → Bool
  | .comment form => form != .line
  | .unterminatedComment => true
  | .quoted form | .unterminated form => form == .textBlock
  | _ => false

theorem Tag.spansLines_of_admits {tag : Tag} {b : UInt8} (h : tag.admits b = true)
    (hline : Byte.isLineEnd b = true) : tag = .newline ∨ tag.spansLines = true := by
  have hordinary : Byte.isOrdinary b = false := by
    rw [Byte.isOrdinary, hline, Bool.not_true, Bool.and_false]
  cases tag with
  | newline => exact .inl rfl
  | comment form =>
      cases form with
      | line =>
          rw [admits, hline] at h
          cases h
      | _ => exact .inr rfl
  | quoted form | unterminated form =>
      rw [admits, hline, Bool.not_true, Bool.or_false] at h
      exact .inr h
  | unterminatedComment => exact .inr rfl
  | interiorNull =>
      rw [eq_of_beq h] at hline
      cases hline
  | _ =>
      rw [admits, hordinary] at h
      · cases h
      all_goals nofun

theorem Byte.textClass_isLineEnd : TextClass isLineEnd := ⟨rfl, fun _ => isAscii_of_isLineEnd⟩

namespace Source

variable {s : Source} {p q : Nat} {lexeme : Lexeme} {found before after : List Lexeme}

/-- A line end of two bytes stands around an offset. -/
def SplitsPair (s : Source) (q : Nat) : Prop :=
  ∃ p, q = p + 1 ∧ s.byte p = Byte.carriageReturn ∧ s.byte q = Byte.lineFeed

/-- A line end of the text: a line feed, a carriage return, or both in this order. -/
inductive LineBreak (s : Source) (p : Nat) : Nat → Prop where
  | pair : s.byte p = Byte.carriageReturn → s.byte (p + 1) = Byte.lineFeed →
      LineBreak s p (p + 2)
  | carriageReturn : s.byte p = Byte.carriageReturn → s.byte (p + 1) ≠ Byte.lineFeed →
      LineBreak s p (p + 1)
  | lineFeed : s.byte p = Byte.lineFeed → ¬ s.SplitsPair p → LineBreak s p (p + 1)

theorem not_splitsPair_zero (s : Source) : ¬ s.SplitsPair 0 := by
  rintro ⟨p, hp, -⟩
  cases hp

theorem lineBreak_iff :
    s.LineBreak p q ↔
      Byte.isLineEnd (s.byte p) = true ∧ ¬ s.SplitsPair p ∧ q = s.skipLineEnd p := by
  have hsecond : s.byte p = Byte.carriageReturn → ¬ s.SplitsPair p := by
    rintro hreturn ⟨i, -, -, hfeed⟩
    rw [hreturn] at hfeed
    cases hfeed
  rw [Byte.isLineEnd_iff, skipLineEnd]
  constructor
  · intro h
    cases h with
    | pair hreturn hfeed => exact ⟨.inr hreturn, hsecond hreturn, by simp [hreturn, hfeed]⟩
    | carriageReturn hreturn hother =>
        exact ⟨.inr hreturn, hsecond hreturn, by simp [hother]⟩
    | lineFeed hfeed hwhole => exact ⟨.inl hfeed, hwhole, by rw [hfeed]; rfl⟩
  · rintro ⟨hfeed | hreturn, hwhole, rfl⟩
    · rw [hfeed]
      exact .lineFeed hfeed hwhole
    · by_cases hfeed : s.byte (p + 1) = Byte.lineFeed
      · simpa [hreturn, hfeed] using LineBreak.pair hreturn hfeed
      · simpa [hfeed] using LineBreak.carriageReturn hreturn hfeed

namespace LineBreak

variable {i r : Nat}

theorem eq_of_inside (h : s.LineBreak p r) (h' : s.LineBreak i q) (hle : p ≤ i) (hlt : i < r) :
    q = r := by
  obtain ⟨-, -, hstop⟩ := lineBreak_iff.1 h
  obtain ⟨-, hwhole, hstop'⟩ := lineBreak_iff.1 h'
  have hfirst : i = p := by
    cases h with
    | pair hreturn hfeed =>
        by_contra hne
        obtain rfl : i = p + 1 := by omega
        exact hwhole ⟨p, rfl, hreturn, hfeed⟩
    | _ => omega
  rw [hstop, hstop', hfirst]

theorem le_of_not_splitsPair (h : s.LineBreak i q) (hlt : i < r) (hr : ¬ s.SplitsPair r) :
    q ≤ r := by
  cases h with
  | pair hreturn hfeed =>
      by_contra hgt
      obtain rfl : r = i + 1 := by omega
      exact hr ⟨i, rfl, hreturn, hfeed⟩
  | _ => exact hlt

end LineBreak

theorem startsLine_iff_lineBreak (hq : 0 < q) : s.StartsLine q ↔ ∃ p, s.LineBreak p q := by
  obtain ⟨n, rfl⟩ := Nat.exists_eq_add_of_lt hq
  rw [Nat.zero_add, StartsLine, Nat.add_sub_cancel]
  constructor
  · rintro (hfeed | ⟨hreturn, hother⟩)
    · by_cases hpair : s.SplitsPair n
      · obtain ⟨p, rfl, hreturn, -⟩ := hpair
        exact ⟨p, .pair hreturn hfeed⟩
      · exact ⟨n, .lineFeed hfeed hpair⟩
    · refine ⟨n, .carriageReturn hreturn (hother.elim id fun hend => ?_)⟩
      rw [byte_of_len_le (Nat.le_of_eq hend.symm)]
      decide
  · rintro ⟨p, h⟩
    generalize hend : n + 1 = q at h
    cases h with
    | pair _ hfeed =>
        cases hend
        exact .inl hfeed
    | carriageReturn hreturn hother =>
        cases hend
        exact .inr ⟨hreturn, .inl hother⟩
    | lineFeed hfeed _ =>
        cases hend
        exact .inl hfeed

theorem newline_of_scan (hscan : s.scan p = .ok (some lexeme)) (htag : lexeme.tag = .newline) :
    Byte.isLineEnd (s.byte p) = true ∧ p + lexeme.len = s.skipLineEnd p := by
  have hp := lt_len_of_scan hscan
  have hrule := ((scan_eq_some_iff hp).1 hscan).1
  have hadmits := Opening.admits_ofByte (s.byte p)
  rw [htag] at hrule
  have hfinds := finds_of_rule hp hrule
  generalize Opening.ofByte (s.byte p) = opening at hrule hadmits hfinds
  simp only [Opening.finds, Bool.or_eq_true, beq_iff_eq] at hfinds
  rcases hfinds with rfl | rfl
  · have hb : s.byte p = Byte.carriageReturn := eq_of_beq hadmits
    obtain ⟨last, hlast, hrule⟩ := bind_eq_ok hrule
    rw [skipIf, read_of_le_len hp, except_ok_bind] at hlast
    obtain ⟨-, hstop⟩ := Prod.mk.inj (Except.ok.inj hrule)
    rw [← hstop, ← Except.ok.inj hlast, skipLineEnd, hb]
    exact ⟨rfl, rfl⟩
  · have hb : s.byte p = Byte.lineFeed := eq_of_beq hadmits
    obtain ⟨-, hstop⟩ := Prod.mk.inj (Except.ok.inj hrule)
    rw [← hstop, skipLineEnd, hb]
    exact ⟨rfl, rfl⟩

section

variable (hfit : s.len ≤ maxOffset)

include hfit

/-- What goes on over line ends is closed by other bytes or by the end of the text. -/
theorem last_of_spansLines (hscan : s.scan p = .ok (some lexeme))
    (htag : lexeme.tag.spansLines = true) :
    p + lexeme.len = s.len ∨ Byte.isLineEnd (s.byte (p + lexeme.len - 1)) = false := by
  have hp := lt_len_of_scan hscan
  have hends := ends_of_scan hfit (Nat.le_of_lt hp) hscan
  have hopens := opens_of_isComment hscan
  have hline := @scan_of_slashes s p hfit
  generalize htag' : lexeme.tag = tag at htag hends hopens
  cases tag with
  | comment form =>
      rcases hopens rfl with hslashes | hblock
      · obtain ⟨other, hother, hform, -⟩ := hline hslashes
        cases hscan.symm.trans hother
        cases htag'.symm.trans hform
        cases htag
      · obtain ⟨hle, -, hslash, -⟩ := hends (writes_slashStar.stands_iff.1 hblock)
        have hlast : p + lexeme.len - 2 + 1 = p + lexeme.len - 1 := by omega
        rw [hlast] at hslash
        rw [hslash]
        exact .inr rfl
  | unterminatedComment => exact .inl hends
  | quoted form =>
      obtain rfl : form = .textBlock := eq_of_beq htag
      obtain ⟨-, hle, -, -, hquote, -⟩ := hends
      have hthree : delimiterLen .textBlock = 3 := rfl
      have hlast : p + lexeme.len - delimiterLen .textBlock + 1 + 1 = p + lexeme.len - 1 := by
        omega
      rw [hlast] at hquote
      rw [hquote]
      exact .inr rfl
  | unterminated form =>
      obtain rfl : form = .textBlock := eq_of_beq htag
      exact .inl (hends.2.2.resolve_right fun hother => hother.1 rfl)
  | _ => cases htag

/-- No lexeme ends between a carriage return and its line feed. -/
theorem not_splitsPair_of_scan (hscan : s.scan p = .ok (some lexeme)) :
    ¬ s.SplitsPair (p + lexeme.len) := by
  rintro ⟨i, hi, hreturn, hfeed⟩
  -- the carriage return is the last byte of the lexeme, which a newline would not stop behind
  have hpos := lexeme.len_pos
  have hline : Byte.isLineEnd (s.byte i) = true := Byte.isLineEnd_iff.2 (.inr hreturn)
  have hadmits := admits_of_scan hscan i (by omega) (by omega)
  rcases Tag.spansLines_of_admits hadmits hline with htag | htag
  · obtain ⟨-, hstop⟩ := newline_of_scan hscan htag
    unfold skipLineEnd at hstop
    split at hstop
    · rename_i hpair
      obtain rfl : i = p + 1 := by omega
      rw [(beq_iff_eq.1 (Bool.and_eq_true_iff.1 hpair).2)] at hreturn
      cases hreturn
    · rename_i hpair
      obtain rfl : i = p := by omega
      rw [hi] at hfeed
      exact hpair (by rw [hreturn, hfeed]; rfl)
  · rcases last_of_spansLines hfit hscan htag with hend | hlast
    · rw [byte_of_len_le (Nat.le_of_eq hend.symm)] at hfeed
      cases hfeed
    · rw [hi, Nat.add_sub_cancel, hline] at hlast
      cases hlast

theorem Scans.not_splitsPair (h : s.Scans p found q) (hp : ¬ s.SplitsPair p) :
    ¬ s.SplitsPair q := by
  induction h with
  | nil p => exact hp
  | cons hscan _ ih => exact ih (not_splitsPair_of_scan hfit hscan)

end

/-- How the lexemes of a text meet the ends of its lines. -/
structure MeetsLines (s : Source) (found : List Lexeme) : Prop where
  /-- No offset between lexemes is inside a line end. -/
  whole : ∀ before after, found = before ++ after →
    ¬ s.SplitsPair (before.map Lexeme.len).sum
  /-- Line ends are newlines or stand in lexemes that may go on over them. -/
  plain : ∀ (lexeme : Lexeme) p, lexeme.StandsIn found p → lexeme.tag ≠ .newline →
    lexeme.tag.spansLines = false → ∀ i, p ≤ i → i < p + lexeme.len →
      s.byte i ≠ Byte.lineFeed ∧ s.byte i ≠ Byte.carriageReturn
  /-- Lines start behind newlines and behind the line ends inside other lexemes. -/
  mem_starts_iff : ∀ q, q ≠ 0 → (q ∈ s.lines.starts ↔ ∃ (lexeme : Lexeme) (p : Nat),
    lexeme.StandsIn found p ∧ (lexeme.tag = .newline ∧ q = p + lexeme.len ∨
      lexeme.tag.spansLines = true ∧ ∃ i, s.LineBreak i q ∧ p ≤ i ∧ q ≤ p + lexeme.len))

namespace Scans

variable (hfit : s.len ≤ maxOffset) (h : s.Scans 0 found s.len)

include hfit h

theorem not_splitsPair_between (hrow : found = before ++ after) :
    ¬ s.SplitsPair (before.map Lexeme.len).sum := by
  subst hrow
  exact h.split.1.not_splitsPair hfit s.not_splitsPair_zero

theorem lineBreak_of_newline (hstands : lexeme.StandsIn found p) (htag : lexeme.tag = .newline) :
    s.LineBreak p (p + lexeme.len) := by
  obtain ⟨hline, hstop⟩ := newline_of_scan (h.scan_of_standsIn hstands) htag
  obtain ⟨before, after, hrow, rfl⟩ := hstands
  exact lineBreak_iff.2 ⟨hline, h.not_splitsPair_between hfit hrow, hstop⟩

theorem exists_lexeme_of_lineBreak {i : Nat} (hbreak : s.LineBreak i q) :
    ∃ (lexeme : Lexeme) (p : Nat), lexeme.StandsIn found p ∧
      (lexeme.tag = .newline ∧ q = p + lexeme.len ∨
        lexeme.tag.spansLines = true ∧ p ≤ i ∧ q ≤ p + lexeme.len) := by
  have hline := (lineBreak_iff.1 hbreak).1
  have hlt : 0 + i < s.len := by
    rw [Nat.zero_add]
    exact lt_len_of_accepts Byte.textClass_isLineEnd hline
  obtain ⟨lexeme, p, hstands, hle, hinside⟩ := h.exists_standsIn hlt
  have hscan := h.scan_of_standsIn hstands
  refine ⟨lexeme, p, hstands, ?_⟩
  rcases Tag.spansLines_of_admits (admits_of_scan hscan i hle hinside) hline with htag | htag
  · have hnewline := h.lineBreak_of_newline hfit hstands htag
    exact .inl ⟨htag, hnewline.eq_of_inside hbreak hle hinside⟩
  · have hend := not_splitsPair_of_scan hfit hscan
    exact .inr ⟨htag, hle, hbreak.le_of_not_splitsPair hinside hend⟩

theorem meetsLines : s.MeetsLines found := by
  refine ⟨fun before after => h.not_splitsPair_between hfit, ?_, ?_⟩
  · intro lexeme p hstands hnewline hspans i hle hlt
    have hadmits := admits_of_scan (h.scan_of_standsIn hstands) i hle hlt
    rw [← not_or, ← Byte.isLineEnd_iff]
    intro hline
    rcases Tag.spansLines_of_admits hadmits hline with htag | htag
    · exact hnewline htag
    · rw [hspans] at htag
      cases htag
  · intro q hq
    have hpos : 0 < q := Nat.pos_of_ne_zero hq
    rw [s.mem_starts_iff hpos, startsLine_iff_lineBreak hpos]
    constructor
    · rintro ⟨i, hbreak⟩
      obtain ⟨lexeme, p, hstands, hends⟩ := h.exists_lexeme_of_lineBreak hfit hbreak
      refine ⟨lexeme, p, hstands, hends.imp_right ?_⟩
      rintro ⟨htag, hle, hstop⟩
      exact ⟨htag, i, hbreak, hle, hstop⟩
    · rintro ⟨lexeme, p, hstands, ⟨htag, rfl⟩ | ⟨-, i, hbreak, -⟩⟩
      · exact ⟨p, h.lineBreak_of_newline hfit hstands htag⟩
      · exact ⟨i, hbreak⟩

end Scans

/-- No lexeme of a text that fits ends inside a line end, and the lines of the index start just
behind the newlines and behind the line ends that comments and text blocks go on over. -/
theorem lexemes_meetLines (s : Source) (hfit : s.len ≤ maxOffset) :
    ∃ found, s.lexemes 0 = .ok found ∧ s.MeetsLines found ∧ s.gatheredLines = .ok s.lines := by
  obtain ⟨found, hscans⟩ := exists_scans hfit (Nat.zero_le s.len)
  exact ⟨found, hscans.lexemes_eq, hscans.meetsLines hfit, gatheredLines_eq hfit⟩

/-- Pairs between lexemes, in a comment, behind a backslash in a text block, and behind a literal
that a backslash leaves open. -/
theorem lexemes_meetLines_pairs :
    len ⟨"a\r\n\r/*\r\n*/\"\"\"\n\\\r\n\"\"\"'\\\r\n"⟩ ≤ maxOffset ∧
      ∃ found, lexemes ⟨"a\r\n\r/*\r\n*/\"\"\"\n\\\r\n\"\"\"'\\\r\n"⟩ 0 = .ok found ∧
        found.map (fun lexeme => (lexeme.tag, lexeme.len)) =
          [(.word, 1), (.newline, 2), (.newline, 1), (.comment .block, 6),
            (.quoted .textBlock, 10), (.unterminated .char, 2), (.newline, 2)] ∧
        MeetsLines ⟨"a\r\n\r/*\r\n*/\"\"\"\n\\\r\n\"\"\"'\\\r\n"⟩ found ∧
        gatheredLines ⟨"a\r\n\r/*\r\n*/\"\"\"\n\\\r\n\"\"\"'\\\r\n"⟩ =
          .ok ⟨[3, 4, 8, 14, 17, 24], 24⟩ := by
  have hfit : len ⟨"a\r\n\r/*\r\n*/\"\"\"\n\\\r\n\"\"\"'\\\r\n"⟩ ≤ maxOffset := by decide
  have hrow : (List.map fun lexeme => (lexeme.tag, lexeme.len)) <$>
      lexemes ⟨"a\r\n\r/*\r\n*/\"\"\"\n\\\r\n\"\"\"'\\\r\n"⟩ 0 =
        .ok [(.word, 1), (.newline, 2), (.newline, 1), (.comment .block, 6),
          (.quoted .textBlock, 10), (.unterminated .char, 2), (.newline, 2)] := by
    decide +kernel
  obtain ⟨found, hfound, hmeets, hlines⟩ := lexemes_meetLines _ hfit
  rw [hfound, except_ok_map] at hrow
  exact ⟨hfit, found, hfound, Except.ok.inj hrow, hmeets, hlines.trans (by decide +kernel)⟩

end Source

end JavaLex
