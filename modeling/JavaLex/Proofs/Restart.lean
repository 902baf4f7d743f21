import JavaLex.Proofs.Effects
import JavaLex.Proofs.Shifting

/-! A semicolon outside all braces parts a text. What stands before it and what stands behind it
can be lexed by themselves: nothing is carried over the semicolon, and nothing looks past it. -/

namespace JavaLex

/-- How deep in braces the text behind a token is. A brace that closes nothing counts for
nothing. -/
def Token.depthAfter (depth : Nat) (token : Token) : Nat :=
  if token.isOpenBrace then depth + 1
  else if token.isCloseBrace then depth - 1
  else depth

def braceDepth (tokens : List Token) : Nat := tokens.foldl Token.depthAfter 0

theorem Token.Acts.depth_eq {token : Token} {st st' : StatementState} (h : token.Acts st st') :
    st'.depth = token.depthAfter st.depth := by
  cases h with
  | openBrace hkind htext => simp [depthAfter, isOpenBrace, hkind, htext, StatementState.openBrace,
      StatementState.depth]
  | closeBrace hkind htext => simp [depthAfter, isOpenBrace, isCloseBrace, hkind, htext,
      StatementState.closeBrace, StatementState.depth]
  | semicolon hkind htext => simp [depthAfter, isOpenBrace, isCloseBrace, htext,
      StatementState.semicolon, StatementState.depth]
  | question htext _ hst =>
      have houter := (StatementState.question_eq_ok hst).1
      simp [depthAfter, isOpenBrace, isCloseBrace, htext, StatementState.depth, houter]
  | colon htext _ _ hst =>
      have houter := (StatementState.colon_eq_ok hst).1
      simp [depthAfter, isOpenBrace, isCloseBrace, htext, StatementState.depth, houter]
  | other hopen hclose _ _ _ houter _ =>
      simp [depthAfter, hopen, hclose, StatementState.depth, houter]

namespace Lexer

variable {lexer : Lexer} {stream final : Stream} {tokens : List Token}

theorem Pulls.depth_eq (hfit : lexer.source.len ≤ maxOffset) (hsound : lexer.Sound stream)
    (h : lexer.Pulls stream tokens final) :
    final.state.statement.depth =
      tokens.foldl Token.depthAfter stream.state.statement.depth := by
  induction h with
  | nil stream => rfl
  | cons hnext _ ih =>
      have hmid := (next_eq_some hfit hsound hnext).2
      rw [ih hmid, (next_acts hfit hsound hnext).depth_eq, List.foldl_cons]

theorem next_of_semicolon (hfit : lexer.source.len ≤ maxOffset)
    (hb : lexer.source.byte stream.pos = 59) :
    lexer.next stream = .ok (some
      (⟨.punctuation, lexer.source.slice stream.pos (stream.pos + 1), stream.pos, stream.pos + 1,
          {}⟩,
        ⟨stream.pos + 1, stream.state.statement.semicolon, false, stream.state.diagnostics⟩)) := by
  have hlt : stream.pos < lexer.source.len :=
    Source.lt_len_of_byte_ne_zero (by rw [hb]; decide)
  have hfits : stream.pos + 1 ≤ maxOffset := Nat.le_trans hlt hfit
  exact next_eq_ok (segmentAt_of_scan (Source.scan_of_semicolon hfit hb) (by simp)) hfits rfl

theorem run_of_drain (h : lexer.drain {} = .ok (tokens, final)) :
    lexer.run = .ok (tokens, final.state.diagnostics.toList) := by
  rw [run, h]
  rfl

/-- The stream behind a semicolon outside all braces is a new one, but for its place and the
diagnostics before it. -/
theorem shift_start_of_depth {st : StatementState} (h : st.depth = 0) (p : Nat)
    (diagnostics : Array Diagnostic) :
    (⟨p, st.semicolon, false, diagnostics⟩ : Stream) = Stream.shift diagnostics p {} := by
  have houter : st.outer = [] := List.length_eq_zero_iff.1 h
  simp only [StatementState.semicolon, houter, Stream.shift, Classifier.shift, Nat.zero_add]
  simp

section

variable {a b : String} {config : Config} {mid : Stream} {before : List Token}

theorem pulls_left (hfit : Source.len ⟨a ++ b⟩ ≤ maxOffset) (hlimit : config.errorLimit = 0)
    (h : Pulls ⟨⟨a ++ b⟩, config⟩ {} before mid) (hpos : mid.pos + 1 = a.utf8ByteSize)
    (hb : Source.byte ⟨a⟩ mid.pos = 59) : Pulls ⟨⟨a⟩, config⟩ {} before mid := by
  have hreads := Source.readsAs_left (b := b) hfit hpos hb
  have hpulls := pulls_shift hreads #[] hlimit (sound_start _) h (.nil _)
  have hid : Token.shift 0 = id := rfl
  rw [Stream.shift_zero, Stream.shift_zero, hid, List.map_id] at hpulls
  exact hpulls

theorem pulls_right (hfit : Source.len ⟨a ++ b⟩ ≤ maxOffset) (hlimit : config.errorLimit = 0)
    (earlier : Array Diagnostic) (h : Pulls ⟨⟨b⟩, config⟩ {} tokens final)
    (hend : next ⟨⟨b⟩, config⟩ final = .ok none) :
    Pulls ⟨⟨a ++ b⟩, config⟩ (Stream.shift earlier a.utf8ByteSize {})
        (tokens.map (Token.shift a.utf8ByteSize)) (final.shift earlier a.utf8ByteSize) ∧
      next ⟨⟨a ++ b⟩, config⟩ (final.shift earlier a.utf8ByteSize) = .ok none := by
  have hreads := Source.readsAs_right hfit
  have hstart := sound_start ⟨⟨b⟩, config⟩
  have hpos : final.pos = b.utf8ByteSize :=
    pos_eq_len_of_next hreads.fit (h.sound hreads.fit hstart) hend
  refine ⟨pulls_shift hreads earlier hlimit hstart h (by rw [hpos]; exact .nil _), next_len ?_⟩
  simp only [Stream.shift, hpos, Source.len, String.utf8ByteSize_append, Nat.add_comm]

theorem run_both {mid' : Stream} {semicolon : Token} {after : List Token}
    (hfit : Source.len ⟨a ++ b⟩ ≤ maxOffset) (hlimit : config.errorLimit = 0)
    (hbefore : Pulls ⟨⟨a ++ b⟩, config⟩ {} before mid)
    (hnext : next ⟨⟨a ++ b⟩, config⟩ mid = .ok (some (semicolon, mid')))
    (hafter : Pulls ⟨⟨a ++ b⟩, config⟩ mid' after final)
    (hend : next ⟨⟨a ++ b⟩, config⟩ final = .ok none)
    (hpos : mid.pos + 1 = a.utf8ByteSize) (hb : Source.byte ⟨a⟩ mid.pos = 59)
    (hdepth : mid'.state.statement.depth = 0) :
    ∃ problems₁ tokens₂ problems₂,
      run ⟨⟨a⟩, config⟩ = .ok (before ++ [semicolon], problems₁) ∧
      run ⟨⟨b⟩, config⟩ = .ok (tokens₂, problems₂) ∧
      after = tokens₂.map (Token.shift a.utf8ByteSize) ∧
      final.state.diagnostics.toList =
        problems₁ ++ problems₂.map (Diagnostic.shift a.utf8ByteSize) := by
  have hlen : Source.len ⟨a ++ b⟩ = a.utf8ByteSize + b.utf8ByteSize := String.utf8ByteSize_append
  have hfit₁ : Source.len ⟨a⟩ ≤ maxOffset := by
    simp only [Source.len] at hlen hfit ⊢
    omega
  have hfit₂ : Source.len ⟨b⟩ ≤ maxOffset := by
    simp only [Source.len] at hlen hfit ⊢
    omega
  have hbyte : Source.byte ⟨a ++ b⟩ mid.pos = 59 := by
    rw [Source.byte_append_left (by omega)]
    exact hb
  have hslice : Source.slice ⟨a ++ b⟩ mid.pos (mid.pos + 1) =
      Source.slice ⟨a⟩ mid.pos (mid.pos + 1) := by
    unfold Source.slice
    rw [Source.slice?_append_left (by omega)]
  have hnext₁ := @next_of_semicolon ⟨⟨a⟩, config⟩ mid hfit₁ hb
  simp only at hnext₁
  rw [@next_of_semicolon ⟨⟨a ++ b⟩, config⟩ mid hfit hbyte] at hnext
  simp only [hslice] at hnext
  cases hnext
  have hpulls₁ := (pulls_left hfit hlimit hbefore hpos hb).append (.cons hnext₁ (.nil _))
  have hdrain₁ := drain_of_pulls hfit₁ (sound_start _) hpulls₁ (next_len hpos)
  obtain ⟨tokens₂, final₂, hdrain₂, hpulls₂, hend₂, -⟩ := @exists_drain ⟨⟨b⟩, config⟩ hfit₂
  obtain ⟨hmoved, hmovedEnd⟩ :=
    pulls_right hfit hlimit mid.state.diagnostics hpulls₂ hend₂
  rw [← shift_start_of_depth hdepth, ← hpos] at hmoved
  obtain ⟨hafter₂, hfinal₂⟩ := hafter.unique hend hmoved (hpos ▸ hmovedEnd)
  refine ⟨_, tokens₂, _, run_of_drain hdrain₁, run_of_drain hdrain₂, ?_, ?_⟩
  · rw [hafter₂, hpos]
  · rw [hfinal₂, hpos]
    simp [Stream.shift, Classifier.shift]

end

/-- Lexing starts anew behind every semicolon outside all braces. -/
theorem run_restarts (lexer : Lexer) (hfit : lexer.source.len ≤ maxOffset)
    (hlimit : lexer.config.errorLimit = 0) :
    ∃ tokens problems, lexer.run = .ok (tokens, problems) ∧
      ∀ before semicolon after, tokens = before ++ semicolon :: after →
        semicolon.kind = .punctuation → semicolon.text = ";" →
        braceDepth (before ++ [semicolon]) = 0 →
        ∃ left right,
          lexer.source.slice? 0 semicolon.stop = some left ∧
          lexer.source.slice? semicolon.stop lexer.source.len = some right ∧
          ∃ tokens₁ problems₁ tokens₂ problems₂,
            run ⟨⟨left⟩, lexer.config⟩ = .ok (tokens₁, problems₁) ∧
            run ⟨⟨right⟩, lexer.config⟩ = .ok (tokens₂, problems₂) ∧
            tokens = tokens₁ ++ tokens₂.map (Token.shift semicolon.stop) ∧
            problems = problems₁ ++ problems₂.map (Diagnostic.shift semicolon.stop) := by
  obtain ⟨⟨text⟩, config⟩ := lexer
  obtain ⟨tokens, final, hdrain, hpulls, hend, hfinal⟩ := exists_drain hfit
  have hstart := sound_start ⟨⟨text⟩, config⟩
  refine ⟨tokens, final.state.diagnostics.toList, run_of_drain hdrain, ?_⟩
  intro before semicolon after htokens _ htext hdepth
  subst htokens
  obtain ⟨mid, hbefore, hrest⟩ := hpulls.exists_mid
  cases hrest with
  | @cons _ mid' _ _ _ hnext hafter =>
      have hmid := hbefore.sound hfit hstart
      have hcovers := (next_eq_some hfit hmid hnext).1
      have hslice := hcovers.text
      rw [htext] at hslice
      have hb : Source.byte ⟨text⟩ mid.pos = 59 := by
        have hbyte := Source.byte_of_slice? hslice (i := 0) (by decide)
        rwa [Nat.zero_add, hcovers.start_eq] at hbyte
      have hpos : mid.pos + 1 = semicolon.stop := by
        obtain ⟨_, _, -, -, hstop⟩ := Source.slice?_eq_some_iff.1 hslice
        rw [← hcovers.start_eq]
        exact hstop
      have hdepth' : mid'.state.statement.depth = 0 := by
        rw [← hdepth]
        exact (hbefore.append (.cons hnext (.nil _))).depth_eq hfit hstart
      obtain ⟨a, b, hab, ha⟩ :=
        Source.isBoundary_iff_append.1 (Source.isBoundary_of_slice? hslice).2.1
      simp only at hab
      subst hab
      rw [← ha] at hpos ⊢
      rw [Source.byte_append_left (by omega)] at hb
      obtain ⟨problems₁, tokens₂, problems₂, hrun₁, hrun₂, hafter₂, hproblems⟩ :=
        run_both hfit hlimit hbefore hnext hafter hend hpos hb hdepth'
      refine ⟨a, b, ?_, ?_, _, problems₁, tokens₂, problems₂, hrun₁, hrun₂, ?_, hproblems⟩
      · exact Source.slice?_eq_some_iff.2 ⟨"", b, by simp, rfl, Nat.zero_add _⟩
      · exact Source.slice?_eq_some_iff.2
          ⟨a, "", by simp, rfl, String.utf8ByteSize_append.symm⟩
      · rw [hafter₂, List.append_assoc]
        rfl

/-- An open conditional and an open type argument end with the semicolon, so that a label and a bad
escape behind it are found as at the start of a text. -/
theorem run_restarts_open_conditional :
    Source.len ⟨"?<;é:'\\q'"⟩ ≤ maxOffset ∧ ({} : Config).errorLimit = 0 ∧
      run ⟨⟨"?<;"⟩, {}⟩ = .ok
        ([⟨.operator, "?", 0, 1, { ternary := true }⟩, ⟨.operator, "<", 1, 2, {}⟩,
          ⟨.punctuation, ";", 2, 3, {}⟩], []) ∧
      run ⟨⟨"é:'\\q'"⟩, {}⟩ = .ok
        ([⟨.identifier, "é", 0, 2, { label := true }⟩, ⟨.punctuation, ":", 2, 3, {}⟩,
          ⟨.charLiteral, "'\\q'", 3, 7, { hasError := true }⟩], [⟨.invalidEscape 'q', 4, 6⟩]) ∧
      run ⟨⟨"?<;é:'\\q'"⟩, {}⟩ = .ok
        ([⟨.operator, "?", 0, 1, { ternary := true }⟩, ⟨.operator, "<", 1, 2, {}⟩,
          ⟨.punctuation, ";", 2, 3, {}⟩] ++
            [⟨.identifier, "é", 0, 2, { label := true }⟩, ⟨.punctuation, ":", 2, 3, {}⟩,
              ⟨.charLiteral, "'\\q'", 3, 7, { hasError := true }⟩].map (Token.shift 3),
          [] ++ [⟨.invalidEscape 'q', 4, 6⟩].map (Diagnostic.shift 3)) := by
  have hfit : Source.len ⟨"?<;é:'\\q'"⟩ ≤ maxOffset := by decide
  have hfirst : run ⟨⟨"?<;"⟩, {}⟩ = .ok
      ([⟨.operator, "?", 0, 1, { ternary := true }⟩, ⟨.operator, "<", 1, 2, {}⟩,
        ⟨.punctuation, ";", 2, 3, {}⟩], []) := by decide +kernel
  have hsecond : run ⟨⟨"é:'\\q'"⟩, {}⟩ = .ok
      ([⟨.identifier, "é", 0, 2, { label := true }⟩, ⟨.punctuation, ":", 2, 3, {}⟩,
        ⟨.charLiteral, "'\\q'", 3, 7, { hasError := true }⟩], [⟨.invalidEscape 'q', 4, 6⟩]) := by
    decide +kernel
  have hwhole : (run ⟨⟨"?<;é:'\\q'"⟩, {}⟩).map Prod.fst = .ok
      [⟨.operator, "?", 0, 1, { ternary := true }⟩, ⟨.operator, "<", 1, 2, {}⟩,
        ⟨.punctuation, ";", 2, 3, {}⟩, ⟨.identifier, "é", 3, 5, { label := true }⟩,
        ⟨.punctuation, ":", 5, 6, {}⟩, ⟨.charLiteral, "'\\q'", 6, 10, { hasError := true }⟩] := by
    decide +kernel
  obtain ⟨tokens, problems, hrun, hsplit⟩ := run_restarts ⟨⟨"?<;é:'\\q'"⟩, {}⟩ hfit rfl
  rw [hrun] at hwhole
  cases hwhole
  obtain ⟨left, right, hleft, hright, tokens₁, problems₁, tokens₂, problems₂, hrun₁, hrun₂,
    hall, hproblems⟩ := hsplit [_, _] _ [_, _, _] rfl rfl rfl (by decide)
  have hleft' : Source.slice? ⟨"?<;é:'\\q'"⟩ 0 3 = some "?<;" := by decide +kernel
  have hright' : Source.slice? ⟨"?<;é:'\\q'"⟩ 3 10 = some "é:'\\q'" := by decide +kernel
  cases hleft.symm.trans hleft'
  cases hright.symm.trans hright'
  cases hrun₁.symm.trans hfirst
  cases hrun₂.symm.trans hsecond
  exact ⟨hfit, rfl, hfirst, hsecond, by rw [hrun, hall, hproblems]⟩

end Lexer

end JavaLex
