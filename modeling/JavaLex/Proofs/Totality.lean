import JavaLex.Proofs.EscapeGrammar
import JavaLex.Proofs.LineIndex
import JavaLex.Proofs.Pulling

/-! Lexing a text that fits ends without a fault, however the tokens are pulled, and so does
rendering what was found wrong with it. -/

namespace JavaLex

namespace Source

variable {s : Source}

theorem scan_returns {p : Nat} (hfit : s.len ≤ maxOffset) (hp : p ≤ s.len) :
    Returns (s.scan p) (fun found => ∀ lexeme ∈ found, p + lexeme.len ≤ s.len) := by
  rcases Nat.lt_or_ge p s.len with hlt | hge
  · obtain ⟨lexeme, hscan, hlexed⟩ := scan_of_lt_len hfit hlt
    refine ⟨some lexeme, hscan, ?_⟩
    intro found hfound
    cases hfound
    exact hlexed.reach.le_len
  · rw [Nat.le_antisymm hp hge, scan_len]
    refine .ok ?_
    intro found hfound
    cases hfound

end Source

namespace Diagnostic

variable {s : Source} {d : Diagnostic} {stop : Nat}

theorem lineCol_returns (hd : d.Within 0 stop) (hstop : stop ≤ maxOffset) :
    ∃ position, s.lines.lineCol d.start = .ok position := by
  have hlt : d.start < maxOffset :=
    Nat.lt_of_lt_of_le hd.nonempty (Nat.le_trans hd.le_stop hstop)
  obtain ⟨line, column, hposition⟩ :=
    s.exists_lineCol d.start (Nat.lt_of_le_of_lt (Nat.min_le_left _ _) hlt)
  exact ⟨_, hposition⟩

theorem render_returns (hd : d.Within 0 stop) (hstop : stop ≤ maxOffset) :
    ∃ text, d.render s.lines = .ok text := by
  obtain ⟨position, hposition⟩ := lineCol_returns (s := s) hd hstop
  rw [render, hposition]
  exact ⟨_, rfl⟩

theorem lookUp_returns (hd : d.Within 0 stop) (hstop : stop ≤ maxOffset) :
    ∃ position, s.lines.lookUp d.start = .ok position := by
  rw [s.lookUp_eq]
  exact lineCol_returns hd hstop

end Diagnostic

namespace Lexer

variable {lexer : Lexer} {stream final : Stream} {tokens : List Token}

/-- However many tokens are asked for, those that are there are taken, and the rest is left. -/
theorem Pulls.exists_take (h : lexer.Pulls stream tokens final)
    (hend : lexer.next final = .ok none) (n : Nat) :
    ∃ mid, lexer.take stream n = .ok (tokens.take n, mid) ∧
      lexer.Pulls stream (tokens.take n) mid ∧ lexer.Pulls mid (tokens.drop n) final := by
  have hsplit := h
  rw [← List.take_append_drop n tokens] at hsplit
  obtain ⟨mid, hbefore, hlater⟩ := hsplit.exists_mid
  refine ⟨mid, take_of_pulls hbefore ?_, hbefore, hlater⟩
  rcases Nat.lt_or_ge tokens.length n with hlt | hge
  · rw [List.drop_eq_nil_of_le (Nat.le_of_lt hlt)] at hlater
    cases hlater
    exact .inr ⟨Nat.lt_of_le_of_lt (List.length_take_le' n tokens) hlt, hend⟩
  · exact .inl (List.length_take_of_le hge)

theorem Pulls.take_eq (hfit : lexer.source.len ≤ maxOffset) (h : lexer.Pulls stream tokens final)
    (hsound : lexer.Sound stream) (hend : lexer.next final = .ok none) (n : Nat) :
    ∃ mid, lexer.take stream n = .ok (tokens.take n, mid) ∧ lexer.Sound mid := by
  obtain ⟨mid, htake, hbefore, -⟩ := h.exists_take hend n
  exact ⟨mid, htake, hbefore.sound hfit hsound⟩

theorem take_of_next_none (h : lexer.next stream = .ok none) (n : Nat) :
    lexer.take stream n = .ok ([], stream) := by
  cases n with
  | zero => rfl
  | succ n =>
      rw [take, h]
      rfl

/-- What draining a text gives when nothing faults: at most one token for each byte, a stream that
stays inside the text on the way and has nothing more to give behind it, scans that stay inside
the text wherever in it they start, numbers of escapes that fit in 16 and in 8 bits, and
diagnostics that each have a line and a column among the lines that are gathered, also if the line
is found by halving. -/
structure Drained (lexer : Lexer) (tokens : List Token) (final : Stream) : Prop where
  drain : lexer.drain {} = .ok (tokens, final)
  length_le : tokens.length ≤ lexer.source.len
  take : ∀ n, ∃ mid, lexer.take {} n = .ok (tokens.take n, mid) ∧ mid.pos ≤ lexer.source.len
  next : lexer.next final = .ok none
  take_final : ∀ n, lexer.take final n = .ok ([], final)
  sentinel : lexer.source.read lexer.source.len = .ok 0
  scan : ∀ p, p ≤ lexer.source.len → ∃ found, lexer.source.scan p = .ok found ∧
    ∀ lexeme ∈ found, p + lexeme.len ≤ lexer.source.len
  unit : ∀ digits unit, Escape.hexUnit? digits = some unit → unit < 2 ^ 16
  octal : ∀ first rest, Escape.isOctalDigit first = true →
    Escape.octalValue (Escape.octalDigits first rest) < 2 ^ 8
  render : ∃ index, lexer.source.gatheredLines = .ok index ∧
    ∀ d ∈ final.state.diagnostics,
      (∃ text, d.render index = .ok text) ∧ ∃ position, index.lookUp d.start = .ok position

/-- A text of up to the largest offset is drained and its diagnostics are rendered without a
fault. -/
theorem drain_never_faults (lexer : Lexer) (hfit : lexer.source.len ≤ maxOffset) :
    ∃ tokens final, lexer.Drained tokens final := by
  obtain ⟨tokens, final, hdrain, hpulls, hend, hfinal⟩ := exists_drain hfit
  have hstart := lexer.sound_start
  have hlen := hfinal.boundary.le_len
  refine ⟨tokens, final, hdrain, ?_, ?_, hend, take_of_next_none hend, ?_, ?_, ?_, ?_,
    lexer.source.lines, Source.gatheredLines_eq hfit, ?_⟩
  · have hcount := hpulls.length_le hfit hstart
    omega
  · intro n
    obtain ⟨mid, htake, hmid⟩ := hpulls.take_eq hfit hstart hend n
    exact ⟨mid, htake, hmid.boundary.le_len⟩
  · rw [Source.read_of_le_len (Nat.le_refl _), Source.byte_of_len_le (Nat.le_refl _)]
  · intro p hp
    exact Source.scan_returns hfit hp
  · intro digits unit hunit
    obtain ⟨four, -, hfour⟩ := Escape.hexUnit?_eq_some_iff.1 hunit
    exact hfour.lt
  · intro first rest hfirst
    obtain ⟨value, hvalue⟩ := Escape.exists_octal hfirst rest
    rw [hvalue.octalValue_eq]
    exact hvalue.lt
  · intro d hd
    have hwithin := hfinal.state.within d hd
    have hstop := Nat.le_trans hlen hfit
    exact ⟨Diagnostic.render_returns hwithin hstop, Diagnostic.lookUp_returns hwithin hstop⟩

/-- A text whose 63 bytes leave one zero byte behind them, with a conditional, an escape that is
malformed and an annotation and a comment that nothing closes. -/
theorem drain_never_faults_padded :
    Source.len ⟨"x ? '\\u12' : y;\r\n@a.b((c, @d(/* * */ \"é\\q\" + 0x1p /** \x00 ------"⟩ = 63 ∧
      Source.len ⟨"x ? '\\u12' : y;\r\n@a.b((c, @d(/* * */ \"é\\q\" + 0x1p /** \x00 ------"⟩ ≤
        maxOffset ∧
      ∃ tokens final, Drained
        ⟨⟨"x ? '\\u12' : y;\r\n@a.b((c, @d(/* * */ \"é\\q\" + 0x1p /** \x00 ------"⟩, {}⟩
        tokens final :=
  ⟨by decide, by decide, drain_never_faults _ (by decide)⟩

end Lexer

end JavaLex
