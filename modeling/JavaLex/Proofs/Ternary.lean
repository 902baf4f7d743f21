import JavaLex.Proofs.Scopes

/-! Which colons belong to a conditional. The classifier counts open conditionals for every block
around it; the count is the one that the tokens of the block call for. -/

namespace JavaLex

/-- The conditionals that are open behind a token, if `pending` were before it. A colon that
closes none counts for nothing. -/
def Token.pendingAfter (pending : Nat) (token : Token) : Nat :=
  if token.isQuestion then pending + 1
  else if token.isColon then pending - 1
  else pending

def pending (tokens : List Token) : Nat := tokens.foldl Token.pendingAfter 0

theorem pending_append (tokens : List Token) (token : Token) :
    pending (tokens ++ [token]) = token.pendingAfter (pending tokens) := by
  rw [pending, List.foldl_append]
  rfl

/-- Some of the last tokens hold more question marks of conditionals than colons. -/
def AwaitsColon (tokens : List Token) : Prop :=
  ∃ last, last <:+ tokens ∧ last.countP Token.isColon < last.countP Token.isQuestion

theorem Token.isColon_of_isQuestion {token : Token} (h : token.isQuestion = true) :
    token.isColon = false := by
  have htext : token.text = "?" := by simpa using (Bool.and_eq_true_iff.1 h).1
  simp [isColon, htext]

/-- An end with an excess is not empty, so that it ends with the last token. -/
theorem exists_excess_append_iff {tokens : List Token} {token : Token} {k : Nat} :
    (∃ last, last <:+ tokens ++ [token] ∧
      last.countP Token.isColon + (k + 1) ≤ last.countP Token.isQuestion) ↔
    ∃ last, last <:+ tokens ∧
      last.countP Token.isColon + (if token.isColon then 1 else 0) + (k + 1) ≤
        last.countP Token.isQuestion + (if token.isQuestion then 1 else 0) := by
  constructor
  · rintro ⟨last, hsuffix, hle⟩
    rcases List.suffix_concat_iff.1 hsuffix with rfl | ⟨start, rfl, hstart⟩
    · cases hle
    · rw [List.countP_append, List.countP_append, List.countP_singleton,
        List.countP_singleton] at hle
      exact ⟨start, hstart, hle⟩
  · rintro ⟨start, hstart, hle⟩
    refine ⟨start ++ [token], List.suffix_concat_iff.2 (.inr ⟨start, rfl, hstart⟩), ?_⟩
    rw [List.countP_append, List.countP_append, List.countP_singleton, List.countP_singleton]
    exact hle

/-- A count that stays at zero where it would go below is the largest excess of any end of the
list. -/
theorem le_pending_iff (tokens : List Token) (k : Nat) :
    k ≤ pending tokens ↔ ∃ last, last <:+ tokens ∧
      last.countP Token.isColon + k ≤ last.countP Token.isQuestion := by
  induction tokens using List.reverseRecOn generalizing k with
  | nil =>
      simp [pending]
  | append_singleton tokens token ih =>
      cases k with
      | zero => exact ⟨fun _ => ⟨[], List.nil_suffix, Nat.le_refl 0⟩, fun _ => Nat.zero_le _⟩
      | succ k =>
          rw [exists_excess_append_iff, pending_append]
          unfold Token.pendingAfter
          by_cases hquestion : token.isQuestion = true
          · have hcolon := Token.isColon_of_isQuestion hquestion
            simp only [hquestion, hcolon, if_true, Bool.false_eq_true, if_false, Nat.add_zero,
              Nat.add_le_add_iff_right, ← Nat.add_assoc]
            exact ih k
          · by_cases hcolon : token.isColon = true
            · -- the colon has to close one conditional more than are to be left
              simp only [hquestion, hcolon, if_true, Bool.false_eq_true, if_false, Nat.add_zero,
                Nat.add_assoc, Nat.add_comm 1 (k + 1)]
              rw [← ih (k + 2)]
              omega
            · simp only [hquestion, hcolon, Bool.false_eq_true, if_false, Nat.add_zero]
              exact ih (k + 1)

theorem awaitsColon_iff {tokens : List Token} : AwaitsColon tokens ↔ 0 < pending tokens :=
  (le_pending_iff tokens 1).symm

/-- The conditionals that are open in the block `n` blocks out. -/
def StatementState.questionsAt (st : StatementState) (n : Nat) : Nat :=
  (((st.block :: st.outer)[n]?).map Block.questions).getD 0

/-- Every block around the end of `tokens` waits for the colons its segment calls for. -/
def StatementState.Counts (st : StatementState) (tokens : List Token) : Prop :=
  ∀ n, st.questionsAt n = pending (scopeSegment n tokens)

theorem counts_start : StatementState.Counts {} [] := by
  intro n
  cases n with
  | zero => rfl
  | succ n => rfl

theorem StatementState.questionsAt_closeBrace (st : StatementState) (n : Nat) :
    st.closeBrace.questionsAt n = st.questionsAt (n + 1) := by
  unfold questionsAt closeBrace
  cases st.outer with
  | nil =>
      cases n with
      | zero => rfl
      | succ n => rfl
  | cons block outer =>
      cases n with
      | zero => rfl
      | succ n => rfl

namespace Token

variable {token : Token} {st st' : StatementState} {tokens : List Token}

theorem isSemicolon_of_isBrace (h : token.isBrace = true) : token.isSemicolon = false := by
  rcases Bool.or_eq_true_iff.1 h with h | h
  · have htext : token.text = "\x7b" := by simpa using (Bool.and_eq_true_iff.1 h).2
    simp [isSemicolon, htext]
  · have htext : token.text = "\x7d" := by simpa using (Bool.and_eq_true_iff.1 h).2
    simp [isSemicolon, htext]

/-- A brace joins no segment. -/
theorem scopeSegment_of_brace (h : token.isBrace = true) (n : Nat) (tokens : List Token) :
    scopeSegment n (tokens ++ [token]) =
      (token.levelBefore n).elim [] (scopeSegment · tokens) := by
  rw [scopeSegment_append (by simp [isSemicolon_of_isBrace h])]
  simp [h]

theorem levelBefore_of_not_brace (h : token.isBrace = false) (n : Nat) :
    token.levelBefore n = some n := by
  simp only [isBrace, Bool.or_eq_false_iff] at h
  simp [levelBefore, h]

theorem counts_of_plain (hbrace : token.isBrace = false) (hsemicolon : token.isSemicolon = false)
    (houter : st'.outer = st.outer)
    (hquestions : st'.block.questions = token.pendingAfter st.block.questions)
    (h : st.Counts tokens) : st'.Counts (tokens ++ [token]) := by
  intro n
  rw [scopeSegment_append (by simp [hsemicolon]), levelBefore_of_not_brace hbrace]
  simp only [Option.elim, hbrace, and_true]
  cases n with
  | zero =>
      have hown : st.block.questions = pending (scopeSegment 0 tokens) := h 0
      rw [if_pos rfl, pending_append, ← hown]
      exact hquestions
  | succ n =>
      have hother := h (n + 1)
      rw [if_neg (Nat.succ_ne_zero n), List.append_nil, ← hother]
      unfold StatementState.questionsAt
      rw [List.getElem?_cons_succ, List.getElem?_cons_succ, houter]

theorem Acts.counts (hacts : token.Acts st st') (h : st.Counts tokens) :
    st'.Counts (tokens ++ [token]) := by
  cases hacts with
  | openBrace hkind htext =>
      have hopen : token.isOpenBrace = true := by simp [isOpenBrace, hkind, htext]
      intro n
      rw [scopeSegment_of_brace (by simp [isBrace, hopen])]
      cases n with
      | zero => simp [levelBefore, hopen, pending, StatementState.questionsAt,
          StatementState.openBrace]
      | succ n =>
          simp only [levelBefore, hopen, if_true, Nat.succ_ne_zero, if_false, Option.elim]
          exact h n
  | closeBrace hkind htext =>
      have hclose : token.isCloseBrace = true := by simp [isCloseBrace, hkind, htext]
      have hopen : token.isOpenBrace = false := by simp [isOpenBrace, htext]
      intro n
      rw [scopeSegment_of_brace (by simp [isBrace, hclose]), st.questionsAt_closeBrace]
      simp only [levelBefore, hopen, hclose, Bool.false_eq_true, if_false, if_true, Option.elim]
      exact h (n + 1)
  | semicolon _ htext =>
      have hsemicolon : token.isSemicolon = true := by simp [isSemicolon, htext]
      have hbrace : token.isBrace = false := by simp [isBrace, isOpenBrace, isCloseBrace, htext]
      intro n
      cases n with
      | zero =>
          rw [scopeSegment_of_semicolon hsemicolon]
          rfl
      | succ n =>
          rw [scopeSegment_append (by simp), levelBefore_of_not_brace hbrace]
          simp only [Option.elim, Nat.succ_ne_zero, false_and, if_false, List.append_nil]
          exact h (n + 1)
  | question htext hflag hst =>
      obtain ⟨houter, hquestions⟩ := StatementState.question_eq_ok hst
      refine counts_of_plain ?_ ?_ houter ?_ h
      · simp [isBrace, isOpenBrace, isCloseBrace, htext]
      · simp [isSemicolon, htext]
      · simp [pendingAfter, isQuestion, htext, hflag, hquestions]
  | colon htext _ _ hst =>
      obtain ⟨houter, hquestions⟩ := StatementState.colon_eq_ok hst
      refine counts_of_plain ?_ ?_ houter ?_ h
      · simp [isBrace, isOpenBrace, isCloseBrace, htext]
      · simp [isSemicolon, htext]
      · simp [pendingAfter, isQuestion, isColon, htext, hquestions]
  | other hopen hclose hsemicolon hcolon hquestion houter hquestions =>
      refine counts_of_plain ?_ hsemicolon houter ?_ h
      · simp [isBrace, hopen, hclose]
      · simp [pendingAfter, hcolon, hquestion, hquestions]

theorem Acts.of_colon (hacts : token.Acts st st') (htext : token.text = ":") :
    token.kind = (if st.closesQuestion then .operator else .punctuation) ∧
      token.flags = { ternary := st.closesQuestion } := by
  cases hacts with
  | colon _ hkind hflags _ => exact ⟨hkind, hflags⟩
  | other _ _ _ hcolon _ _ _ => simp [isColon, htext] at hcolon
  | openBrace _ htext' => simp [htext] at htext'
  | closeBrace _ htext' => simp [htext] at htext'
  | semicolon _ htext' => simp [htext] at htext'
  | question htext' _ _ => simp [htext] at htext'

end Token

namespace Lexer

variable {lexer : Lexer} {stream final : Stream} {before tokens : List Token}

theorem Pulls.counts (hfit : lexer.source.len ≤ maxOffset) (hsound : lexer.Sound stream)
    (h : lexer.Pulls stream tokens final) (hstream : stream.state.statement.Counts before) :
    final.state.statement.Counts (before ++ tokens) := by
  induction h generalizing before with
  | nil stream =>
      rw [List.append_nil]
      exact hstream
  | @cons stream mid final token tokens hnext _ ih =>
      have hmid := (next_eq_some hfit hsound hnext).2
      have hcounts := ih hmid ((next_acts hfit hsound hnext).counts hstream)
      rw [List.append_assoc, List.singleton_append] at hcounts
      exact hcounts

/-- A colon belongs to a conditional iff the tokens before it in its block, behind the last
semicolon there, wait for one. -/
theorem colon_ternary_iff (lexer : Lexer) (hfit : lexer.source.len ≤ maxOffset) :
    ∃ tokens final, lexer.drain {} = .ok (tokens, final) ∧
      ∀ (before : List Token) (colon : Token) (after : List Token),
        tokens = before ++ colon :: after → colon.text = ":" →
        (colon.kind = .operator ∧ colon.flags = { ternary := true } ↔
          AwaitsColon (scopeSegment 0 before)) ∧
        (¬ AwaitsColon (scopeSegment 0 before) →
          colon.kind = .punctuation ∧ colon.flags = {}) := by
  obtain ⟨tokens, final, hdrain, hpulls, -, -⟩ := exists_drain hfit
  have hstart := lexer.sound_start
  refine ⟨tokens, final, hdrain, ?_⟩
  intro before colon after htokens htext
  subst htokens
  obtain ⟨mid, hbefore, hrest⟩ := hpulls.exists_mid
  cases hrest with
  | cons hnext _ =>
      have hmid := hbefore.sound hfit hstart
      obtain ⟨hkind, hflags⟩ := (next_acts hfit hmid hnext).of_colon htext
      have hcount : mid.state.statement.block.questions = pending (scopeSegment 0 before) :=
        hbefore.counts hfit hstart counts_start 0
      rw [awaitsColon_iff, ← hcount]
      rw [StatementState.closesQuestion] at hkind hflags
      by_cases hopen : 0 < mid.state.statement.block.questions
      · rw [decide_eq_true hopen] at hkind hflags
        exact ⟨⟨fun _ => hopen, fun _ => ⟨hkind, hflags⟩⟩, fun hclosed => absurd hopen hclosed⟩
      · rw [decide_eq_false hopen] at hkind hflags
        refine ⟨⟨fun hoperator => ?_, fun hpending => absurd hpending hopen⟩,
          fun _ => ⟨hkind, hflags⟩⟩
        rw [hkind] at hoperator
        exact absurd hoperator.1 (by decide)

/-- The block inside the conditional ends a statement of its own, and its label takes nothing from
the conditional around it. The stray brace in front opens nothing. -/
theorem colon_ternary_iff_block :
    Source.len ⟨"\x7d?\x7b?;:\x7d: :"⟩ ≤ maxOffset ∧
      ∃ (before : List Token) (inner brace outer blank last : Token) (final : Stream),
        drain ⟨⟨"\x7d?\x7b?;:\x7d: :"⟩, {}⟩ {} =
          .ok (before ++ [inner, brace, outer, blank, last], final) ∧
        (inner.start = 5 ∧ inner.kind = .punctuation ∧ inner.flags = {}) ∧
        (outer.start = 7 ∧ outer.kind = .operator ∧ outer.flags = { ternary := true }) ∧
        (last.start = 9 ∧ last.kind = .punctuation ∧ last.flags = {}) := by
  refine ⟨by decide, ?_⟩
  obtain ⟨tokens, final, hdrain, hcolons⟩ :=
    colon_ternary_iff ⟨⟨"\x7d?\x7b?;:\x7d: :"⟩, {}⟩ (by decide)
  have htokens : (drain ⟨⟨"\x7d?\x7b?;:\x7d: :"⟩, {}⟩ {}).map Prod.fst = .ok
      [⟨.punctuation, "\x7d", 0, 1, {}⟩, ⟨.operator, "?", 1, 2, { ternary := true }⟩,
        ⟨.punctuation, "\x7b", 2, 3, {}⟩, ⟨.operator, "?", 3, 4, { ternary := true }⟩,
        ⟨.punctuation, ";", 4, 5, {}⟩, ⟨.punctuation, ":", 5, 6, {}⟩,
        ⟨.punctuation, "\x7d", 6, 7, {}⟩, ⟨.operator, ":", 7, 8, { ternary := true }⟩,
        ⟨.whitespace, " ", 8, 9, {}⟩, ⟨.punctuation, ":", 9, 10, {}⟩] := by decide +kernel
  rw [hdrain] at htokens
  cases htokens
  refine ⟨[_, _, _, _, _], _, _, _, _, _, final, hdrain, ⟨rfl, ?_⟩, ⟨rfl, ?_⟩, ⟨rfl, ?_⟩⟩
  · exact (hcolons [_, _, _, _, _] _ [_, _, _, _] rfl rfl).2 (by rw [awaitsColon_iff]; decide)
  · exact (hcolons [_, _, _, _, _, _, _] _ [_, _] rfl rfl).1.2 (by rw [awaitsColon_iff]; decide)
  · exact (hcolons [_, _, _, _, _, _, _, _, _] _ [] rfl rfl).2 (by rw [awaitsColon_iff]; decide)

end Lexer

end JavaLex
