import JavaLex.Proofs.EscapeEnds
import JavaLex.Proofs.EscapeValues

/-! Character literals. A literal whose escapes are good holds one character of its value, or one
diagnostic of the whole token says that it holds none or several. Its value is empty only if nothing
stands between the quotes: whatever stands there, each of its elements writes something. -/

namespace JavaLex

namespace Text

theorem units_ne_nil (c : Char) : units c ≠ [] := by
  unfold units
  split <;> exact List.cons_ne_nil _ _

theorem decode_eq_nil_iff {row : List Nat} : decode row = [] ↔ row = [] := by
  fun_cases decode row <;> simp

end Text

namespace Escape

/-- Whether a content is put together from characters and escapes. -/
def WellFormed (form : QuoteForm) (content : List Char) : Prop :=
  ∃ parts : List (List Char), (∀ part ∈ parts, Valid form part) ∧ parts.flatten = content

variable {form : QuoteForm} {piece : Piece} {text rest : List Char} {content : String}
  {found : List (Piece × List Char)} {base : Nat} {reading : Reading}

/-- Only the end of a joined line writes nothing, and only text blocks join their lines. -/
theorem Element.units_ne_nil (h : Element form piece text rest) (hform : form ≠ .textBlock) :
    piece.units ≠ [] := by
  cases h with
  | ordinary _ | letter _ | octal _ _ => exact Text.units_ne_nil _
  | unicode _ | malformed _ _ => exact List.cons_ne_nil _ _
  | joinedLine hblock _ => exact absurd hblock hform
  | invalid _ => exact List.append_ne_nil_of_left_ne_nil (Text.units_ne_nil _) _
  | trailing => exact Text.units_ne_nil _

theorem Elements.unitsOf_eq_nil_iff {content : List Char} (h : Elements form content found)
    (hform : form ≠ .textBlock) : unitsOf found = [] ↔ content = [] := by
  cases h with
  | nil => exact iff_of_true rfl rfl
  | @cons piece text rest later hfirst _ =>
      refine iff_of_false ?_ ?_
      · exact List.append_ne_nil_of_left_ne_nil (hfirst.units_ne_nil hform) _
      · exact List.append_ne_nil_of_left_ne_nil (List.ne_nil_of_length_pos hfirst.length_pos) _

theorem Piece.problem_ne {problem : Problem} (h : piece.problem? = some problem) :
    problem ≠ .emptyChar ∧ problem ≠ .severalChars := by
  cases piece <;> cases h <;> exact ⟨nofun, nofun⟩

section

variable (hread : read form content base = .ok reading)
  (hfit : base + content.utf8ByteSize ≤ maxOffset)

include hread hfit

theorem value_eq_empty_iff (hform : form ≠ .textBlock) :
    reading.value.getD content = "" ↔ content = "" := by
  obtain ⟨reading', found, hread', hfound, -, -, -, hvalue⟩ := read_value form content base hfit
  cases hread.symm.trans hread'
  have hcontent : content = "" ↔ content.toList = [] := String.toList_inj.symm
  rw [← String.toList_inj, hvalue, hcontent]
  exact Text.decode_eq_nil_iff.trans (hfound.unitsOf_eq_nil_iff hform)

theorem problems_eq_nil_iff : reading.problems = [] ↔ WellFormed form content.toList := by
  obtain ⟨found, hfound⟩ := exists_elements form content.toList
  rw [hfound.problems_of_read hread hfit]
  exact hfound.complaints_eq_nil_iff

theorem problem_ne_of_read :
    ∀ d ∈ reading.problems, d.problem ≠ .emptyChar ∧ d.problem ≠ .severalChars := by
  obtain ⟨found, hfound⟩ := exists_elements form content.toList
  rw [hfound.problems_of_read hread hfit]
  intro d hd
  obtain ⟨-, piece, -, -, -, -, hproblem, -⟩ := hfound.exists_of_mem hd
  exact Piece.problem_ne hproblem

end

end Escape

/-- What the errors of a character literal say of its content and of the value that this writes. -/
structure CharVerdict (content : String) (reading : Escape.Reading) (start stop : Nat)
    (errors : List Diagnostic) : Prop where
  /-- Bad escapes are all that is reported. -/
  of_bad : ¬ Escape.WellFormed .char content.toList →
    errors = reading.problems ∧ errors ≠ [] ∧
      ∀ d ∈ errors, d.problem ≠ .emptyChar ∧ d.problem ≠ .severalChars
  one_iff : Escape.WellFormed .char content.toList →
    (errors = [] ↔ (reading.value.getD content).length = 1)
  none_iff : Escape.WellFormed .char content.toList →
    (errors = [⟨.emptyChar, start, stop⟩] ↔ reading.value.getD content = "")
  several_iff : Escape.WellFormed .char content.toList →
    (errors = [⟨.severalChars, start, stop⟩] ↔ 2 ≤ (reading.value.getD content).length)
  emptyChar_iff : (∃ d ∈ errors, d.problem = .emptyChar) ↔ content = ""

namespace Source

variable {s : Source} {start stop : Nat} {content : String} {reading : Escape.Reading}

theorem literalProblems_char (hlong : start + 2 ≤ stop) (hfit : stop ≤ maxOffset)
    (hcontent : s.slice (start + 1) (stop - 1) = content)
    (hread : Escape.read .char content (start + 1) = .ok reading) :
    ∃ errors, s.literalProblems .char start stop = .ok errors ∧
      CharVerdict content reading start stop errors := by
  have hsize := s.utf8ByteSize_slice_le (start + 1) (stop - 1)
  rw [hcontent] at hsize
  have hwell := Escape.problems_eq_nil_iff hread (by omega)
  have hempty := Escape.value_eq_empty_iff hread (by omega) nofun
  unfold literalProblems literalValue
  simp only [delimiterLen, checkedAdd_eq_ok (show start + 1 ≤ maxOffset by omega),
    checkedSub_eq_ok (show 1 ≤ stop by omega), except_ok_bind, hcontent, hread, except_pure,
    true_and]
  by_cases hproblems : reading.problems = []
  · have hgood := hwell.1 hproblems
    rw [if_pos hproblems]
    have hlength : (reading.value.getD content).length =
        (reading.value.getD content).toList.length := String.length_toList.symm
    have hnil : reading.value.getD content = "" ↔ (reading.value.getD content).toList = [] :=
      String.toList_inj.symm
    rcases hchars : (reading.value.getD content).toList with - | ⟨c, - | ⟨d, rest⟩⟩
    all_goals
      rw [hchars] at hlength hnil
      refine ⟨_, rfl, absurd hgood, fun _ => ?_, fun _ => ?_, fun _ => ?_, ?_⟩ <;>
        simp [hlength, hnil, ← hempty]
  · rw [if_neg hproblems]
    have hbad := hwell.not.1 hproblems
    have hother := Escape.problem_ne_of_read hread (by omega)
    refine ⟨_, rfl, fun _ => ⟨rfl, hproblems, hother⟩, fun h => absurd h hbad,
      fun h => absurd h hbad, fun h => absurd h hbad, ?_⟩
    refine iff_of_false ?_ ?_
    · rintro ⟨d, hd, hproblem⟩
      exact (hother d hd).1 hproblem
    · rintro rfl
      exact hbad ⟨[], nofun, rfl⟩

end Source

theorem Tag.eq_of_charLiteral {tag : Tag} {text : String} {ternary : Bool}
    (h : tag.kind text ternary = .charLiteral) (hclosed : tag.isCut = false) :
    tag = .quoted .char := by
  cases tag with
  | word =>
      simp only [kind] at h
      split at h <;> cases h
  | operator op =>
      cases op with
      | colon => cases ternary <;> cases h
      | _ => cases h
  | quoted form =>
      cases form with
      | char => rfl
      | _ => cases h
  | unterminated form => cases hclosed
  | _ => cases h

/-- A character literal that is closed, with what is reported of it. -/
def Token.CharJudged (token : Token) (errors : List Diagnostic) : Prop :=
  ∃ content reading, token.text = "'" ++ content ++ "'" ∧
    Escape.read .char content (token.start + 1) = .ok reading ∧
    CharVerdict content reading token.start token.stop errors ∧
    ((∃ d ∈ errors, d.problem = .emptyChar) ↔ token.text = "''")

namespace Lexer

variable {lexer : Lexer} {stream mid : Stream} {token : Token}

section

variable (hfit : lexer.source.len ≤ maxOffset) (hlimit : lexer.config.errorLimit = 0)
  (hsound : lexer.Sound stream) (hnext : lexer.next stream = .ok (some (token, mid)))
  (hkind : token.kind = .charLiteral) (hclosed : token.flags.unterminated = false)

include hfit hlimit hsound hnext hkind hclosed

/-- A closed character literal is one lexeme, and its pull reports what is wrong with it. -/
theorem exists_literalProblems :
    lexer.source.Ends token.start token.stop (.quoted .char) ∧ ∃ errors,
      lexer.source.literalProblems .char token.start token.stop = .ok errors ∧
      mid.state.diagnostics.toList = stream.state.diagnostics.toList ++ errors := by
  have hstart : token.start ≤ lexer.source.len := by
    rw [(next_eq_some hfit hsound hnext).1.start_eq]
    exact hsound.boundary.le_len
  obtain ⟨lexeme, hscan, -, hjudged⟩ := next_judged hfit hsound hnext
  have hends := Source.ends_of_scan hfit hstart hscan
  cases hjudged with
  | blanks _ _ _ hblank _ _ =>
      rw [hkind] at hblank
      cases hblank
  | @marked sign _ _ _ _ hsettle =>
      obtain ⟨hsign, -, -⟩ := Verdict.settle_eq_ok hsettle
      simp only [hkind, judgeAt_kind] at hsign
      cases sign <;> cases hsign
  | single hstop hv hsettle =>
      obtain ⟨hverdict, hflags, -⟩ := Verdict.settle_eq_ok hsettle
      simp only at hverdict hflags
      rw [hkind, judge_kind hv] at hverdict
      rw [hflags] at hclosed
      have htag := Tag.eq_of_charLiteral hverdict.symm ((judge_flags hv).1.symm.trans hclosed)
      rw [htag, ← hstop] at hends
      rw [htag] at hv
      obtain ⟨errors, herrors, hv⟩ := bind_eq_ok hv
      cases hv
      exact ⟨hends, errors, herrors, Verdict.settle_diagnostics hlimit hsettle⟩

theorem next_charJudged :
    ∃ errors, mid.state.diagnostics.toList = stream.state.diagnostics.toList ++ errors ∧
      token.CharJudged errors := by
  obtain ⟨⟨hopens, hlong, hcloses⟩, errors, herrors, hnow⟩ :=
    exists_literalProblems hfit hlimit hsound hnext hkind hclosed
  obtain ⟨hcovers, hmid⟩ := next_eq_some hfit hsound hnext
  have hstop : token.stop ≤ maxOffset := by
    rw [hcovers.stop_eq]
    exact Nat.le_trans hmid.boundary.le_len hfit
  have hquotes := Source.writes_quotes .char
  have htext := hquotes.eq_between hquotes hopens.1 hcloses hcovers.text
    (by rw [QuoteForm.length_quotes]; omega)
  simp only [QuoteForm.length_quotes, Source.delimiterLen, QuoteForm.delimiter] at htext hlong
  have hsize := lexer.source.utf8ByteSize_slice_le (token.start + 1) (token.stop - 1)
  generalize hcontent : lexer.source.slice (token.start + 1) (token.stop - 1) = content
    at htext hsize
  obtain ⟨reading, hread, -⟩ :=
    Escape.read_returns .char content (token.start + 1) (by omega)
  obtain ⟨errors', herrors', hverdict⟩ := Source.literalProblems_char hlong hstop hcontent hread
  cases herrors.symm.trans herrors'
  refine ⟨errors, hnow, content, reading, htext, hread, hverdict, ?_⟩
  rw [hverdict.emptyChar_iff, htext, show "''" = "'" ++ "" ++ "'" from rfl,
    String.append_left_inj, String.append_right_inj]

end

/-- In a run without a limit every closed character literal has the errors of its escapes, if any,
and else none if its value is one character. -/
theorem run_charJudged (lexer : Lexer) (hfit : lexer.source.len ≤ maxOffset)
    (hlimit : lexer.config.errorLimit = 0) :
    ∃ tokens problems, lexer.run = .ok (tokens, problems) ∧
      ∀ token ∈ tokens, token.kind = .charLiteral → token.flags.unterminated = false →
        token.CharJudged (problems.filter token.holds) := by
  obtain ⟨tokens, final, hdrain, hpulls, -⟩ := exists_drain hfit
  refine ⟨tokens, final.state.diagnostics.toList, ?_, ?_⟩
  · rw [run, hdrain]
    rfl
  · intro token hmem hkind hclosed
    obtain ⟨-, later, stream, mid, -, hsound, hnext, hrest⟩ :=
      hpulls.exists_pull hfit lexer.sound_start hmem
    obtain ⟨errors, hnow, hjudged⟩ := next_charJudged hfit hlimit hsound hnext hkind hclosed
    obtain ⟨problems, hnow', -, hfilter⟩ := filter_holds hfit hsound hnext hlimit hrest
    rw [hfilter, List.append_cancel_left (hnow'.symm.trans hnow)]
    exact hjudged

/-- Nothing, two characters, two halves of one character, and two bad escapes. -/
theorem run_charJudged_halves :
    Source.len ⟨"'''ab''\\uD83D\\uDE00''\\q\\z'"⟩ ≤ maxOffset ∧ ({} : Config).errorLimit = 0 ∧
      ∃ tokens problems,
        run ⟨⟨"'''ab''\\uD83D\\uDE00''\\q\\z'"⟩, {}⟩ = .ok (tokens, problems) ∧
        problems = [⟨.emptyChar, 0, 2⟩, ⟨.severalChars, 2, 6⟩, ⟨.invalidEscape 'q', 21, 23⟩,
          ⟨.invalidEscape 'z', 23, 25⟩] ∧
        Token.CharJudged ⟨.charLiteral, "''", 0, 2, { hasError := true }⟩
          [⟨.emptyChar, 0, 2⟩] ∧
        Token.CharJudged ⟨.charLiteral, "'ab'", 2, 6, { hasError := true }⟩
          [⟨.severalChars, 2, 6⟩] ∧
        Token.CharJudged ⟨.charLiteral, "'\\uD83D\\uDE00'", 6, 20, {}⟩ [] ∧
        Token.CharJudged ⟨.charLiteral, "'\\q\\z'", 20, 26, { hasError := true }⟩
          [⟨.invalidEscape 'q', 21, 23⟩, ⟨.invalidEscape 'z', 23, 25⟩] := by
  have hrun : run ⟨⟨"'''ab''\\uD83D\\uDE00''\\q\\z'"⟩, {}⟩ = .ok
      ([⟨.charLiteral, "''", 0, 2, { hasError := true }⟩,
        ⟨.charLiteral, "'ab'", 2, 6, { hasError := true }⟩,
        ⟨.charLiteral, "'\\uD83D\\uDE00'", 6, 20, {}⟩,
        ⟨.charLiteral, "'\\q\\z'", 20, 26, { hasError := true }⟩],
        [⟨.emptyChar, 0, 2⟩, ⟨.severalChars, 2, 6⟩, ⟨.invalidEscape 'q', 21, 23⟩,
          ⟨.invalidEscape 'z', 23, 25⟩]) := by decide +kernel
  obtain ⟨tokens, problems, hfound, hall⟩ :=
    run_charJudged ⟨⟨"'''ab''\\uD83D\\uDE00''\\q\\z'"⟩, {}⟩ (by decide) rfl
  obtain ⟨htokens, hproblems⟩ := Prod.mk.inj (Except.ok.inj (hrun.symm.trans hfound))
  subst htokens hproblems
  exact ⟨by decide, rfl, _, _, hfound, rfl, hall _ (by simp) rfl rfl, hall _ (by simp) rfl rfl,
    hall _ (by simp) rfl rfl, hall _ (by simp) rfl rfl⟩

end Lexer

end JavaLex
