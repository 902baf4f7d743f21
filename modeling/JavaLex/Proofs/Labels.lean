import JavaLex.Proofs.LookingAhead
import JavaLex.Proofs.Ternary

/-! Which names are labels. What a classifier knows of the statement it is in, and of the statements
around it, is what the tokens so far say: whether an assertion waits for its message, whether a
`case` waits for its colon or its arrow, and whether a statement may start. -/

namespace JavaLex

namespace Token

def isKeyword (token : Token) (word : String) : Bool :=
  token.kind == .keyword && token.text == word

/-- A colon that is none of a conditional. -/
def isPlainColon (token : Token) : Bool := token.kind == .punctuation && token.isColon

def isArrow (token : Token) : Bool := token.kind == .operator && token.text == "->"

def opensCase (token : Token) : Bool := token.isKeyword "case" || token.isKeyword "default"

end Token

/-- Some token opens what none behind it closes. -/
def Waits (opens closes : Token → Prop) : List Token → Prop
  | [] => False
  | token :: rest => opens token ∧ (∀ later ∈ rest, ¬ closes later) ∨ Waits opens closes rest

instance Waits.decidable (opens closes : Token → Prop) [DecidablePred opens]
    [DecidablePred closes] : (tokens : List Token) → Decidable (Waits opens closes tokens)
  | [] => .isFalse id
  | token :: rest =>
    have := Waits.decidable opens closes rest
    inferInstanceAs (Decidable
      (opens token ∧ (∀ later ∈ rest, ¬ closes later) ∨ Waits opens closes rest))

/-- An assertion of the segment has no message yet. -/
def AssertWaits (segment : List Token) : Prop :=
  Waits (fun token => token.isKeyword "assert" = true) (fun token => token.isPlainColon = true)
    segment

instance (segment : List Token) : Decidable (AssertWaits segment) :=
  inferInstanceAs (Decidable (Waits _ _ segment))

/-- The colon between an assertion and its message: the segment it stands behind waits for one. -/
def PartsAssertion (tokens : List Token) (colon : Token) : Prop :=
  colon.isPlainColon = true ∧
    ∃ before, before ++ [colon] <+: tokens ∧ AssertWaits (scopeSegment 0 before)

instance (tokens : List Token) (colon : Token) : Decidable (PartsAssertion tokens colon) :=
  decidable_of_iff
    (colon.isPlainColon = true ∧ ∃ before ∈ tokens.inits,
      before ++ [colon] <+: tokens ∧ AssertWaits (scopeSegment 0 before))
    (by
      refine and_congr_right fun _ => exists_congr fun before => ?_
      rw [List.mem_inits]
      exact and_iff_right_of_imp fun h => (List.prefix_append before [colon]).trans h.1)

def EndsCase (tokens : List Token) (token : Token) : Prop :=
  token.isArrow = true ∨ token.isPlainColon = true ∧ ¬ PartsAssertion tokens token

instance (tokens : List Token) : DecidablePred (EndsCase tokens) :=
  fun token => inferInstanceAs (Decidable (_ ∨ _ ∧ ¬ PartsAssertion tokens token))

/-- A `case` or `default` of a segment of these tokens has neither its colon nor its arrow. -/
def CaseWaits (tokens segment : List Token) : Prop :=
  Waits (fun token => token.opensCase = true) (EndsCase tokens) segment

instance (tokens segment : List Token) : Decidable (CaseWaits tokens segment) :=
  inferInstanceAs (Decidable (Waits _ _ segment))

/-- A statement may start behind this token of the list. -/
def PrecedesStatement (tokens : List Token) (token : Token) : Prop :=
  token.isBrace = true ∨ token.isSemicolon = true ∨ token.isKeyword "else" = true ∨
    token.isKeyword "do" = true ∨ token.isPlainColon = true ∧ ¬ PartsAssertion tokens token

instance (tokens : List Token) : DecidablePred (PrecedesStatement tokens) :=
  fun token => inferInstanceAs (Decidable (_ ∨ _ ∨ _ ∨ _ ∨ _ ∧ ¬ PartsAssertion tokens token))

/-- A statement may start behind these tokens: the last that is not trivia, if there is one, leaves
room for it. -/
def StartsStatement (tokens : List Token) : Prop :=
  ∀ last ∈ tokens.findRev? fun token => !token.kind.isTrivia, PrecedesStatement tokens last

instance (tokens : List Token) : Decidable (StartsStatement tokens) :=
  inferInstanceAs (Decidable (∀ last ∈ tokens.findRev? _, PrecedesStatement tokens last))

/-- What makes a token between others a label. -/
structure LabelPlace (before : List Token) (token : Token) (after : List Token) : Prop where
  name : token.kind = .identifier
  colon : ∃ colon, (after.find? fun token => !token.kind.isTrivia) = some colon ∧ colon.text = ":"
  start : StartsStatement before
  question : ¬ AwaitsColon (scopeSegment 0 before)
  assertion : ¬ AssertWaits (scopeSegment 0 before)
  alternative : ¬ CaseWaits before (scopeSegment 0 before)

theorem waits_append_iff {opens closes : Token → Prop} {tokens : List Token} {token : Token} :
    Waits opens closes (tokens ++ [token]) ↔
      opens token ∨ Waits opens closes tokens ∧ ¬ closes token := by
  induction tokens with
  | nil => simp [Waits]
  | cons first rest ih =>
      simp only [List.cons_append, Waits]
      rw [ih, List.forall_mem_append, List.forall_mem_singleton]
      tauto

theorem waits_congr {opens closes closes' : Token → Prop} {tokens : List Token}
    (h : ∀ token ∈ tokens, closes token ↔ closes' token) :
    Waits opens closes tokens ↔ Waits opens closes' tokens := by
  induction tokens with
  | nil => exact Iff.rfl
  | cons first rest ih =>
      rw [List.forall_mem_cons] at h
      simp only [Waits]
      rw [ih h.2]
      refine or_congr_left (and_congr_right fun _ => ?_)
      exact forall₂_congr fun later hlater => not_congr (h.2 later hlater)

theorem mem_of_mem_scopeSegment {n : Nat} {token : Token} {tokens : List Token}
    (h : token ∈ scopeSegment n tokens) : token ∈ tokens := by
  fun_induction scopeSegment n tokens with
  | case1 => exact h
  | case2 first rest hscope ih =>
      rcases List.mem_cons.1 h with rfl | h
      · exact List.mem_cons_self
      · exact List.mem_cons_of_mem first (ih h)
  | case3 first rest hscope ih => exact List.mem_cons_of_mem first (ih h)

section

variable {tokens : List Token} {last : Token} (hfresh : last ∉ tokens)

include hfresh

theorem partsAssertion_append_of_mem {colon : Token} (hmem : colon ∈ tokens) :
    PartsAssertion (tokens ++ [last]) colon ↔ PartsAssertion tokens colon := by
  have hne : colon ≠ last := fun heq => hfresh (heq ▸ hmem)
  refine and_congr_right fun _ => exists_congr fun before => and_congr_left fun _ => ?_
  rw [List.prefix_concat_iff]
  refine or_iff_right fun heq => hne ?_
  exact (List.append_singleton_inj.1 heq).2

theorem plain_append_self :
    last.isPlainColon = true ∧ ¬ PartsAssertion (tokens ++ [last]) last ↔
      last.isPlainColon = true ∧ ¬ AssertWaits (scopeSegment 0 tokens) := by
  refine and_congr_right fun hplain => not_congr ⟨?_, fun h => ⟨hplain, tokens, List.prefix_rfl, h⟩⟩
  rintro ⟨-, before, hbefore, h⟩
  rcases List.prefix_concat_iff.1 hbefore with heq | hbefore
  · rw [← (List.append_singleton_inj.1 heq).1]
    exact h
  · exact absurd (hbefore.subset (List.mem_append_right _ (List.mem_singleton_self last))) hfresh

theorem caseWaits_append_right {segment : List Token}
    (hsegment : ∀ token ∈ segment, token ∈ tokens) :
    CaseWaits (tokens ++ [last]) segment ↔ CaseWaits tokens segment := by
  refine waits_congr fun token hmem => or_congr_right (and_congr_right fun _ => not_congr ?_)
  exact partsAssertion_append_of_mem hfresh (hsegment token hmem)

end

namespace Token

variable {token : Token} {st st' : StatementState}

theorem isTrivia_iff : token.kind.isTrivia = true ↔ token.event? = none := by
  unfold event?
  cases token.kind <;> simp [Kind.isTrivia, StatementEvent.of?]

theorem isKeyword_iff {word : String} :
    token.isKeyword word = true ↔ token.event? = some (.keyword word) := by
  unfold isKeyword event? StatementEvent.of? StatementEvent.ofOperator StatementEvent.ofSeparator
  cases token.kind <;> simp <;> split_ifs <;> simp_all

theorem isArrow_iff : token.isArrow = true ↔ token.event? = some .arrow := by
  unfold isArrow event? StatementEvent.of? StatementEvent.ofOperator StatementEvent.ofSeparator
  cases token.kind <;> simp <;> split_ifs <;> simp_all

theorem event?_eq_separator_iff {text : String} {event : StatementEvent}
    (h : (text, event) ∈ [("\x7b", .openBrace), ("\x7d", .closeBrace), (";", .semicolon)]) :
    token.event? = some event ↔ token.kind = .punctuation ∧ token.text = text := by
  simp only [List.mem_cons, Prod.mk.injEq, List.not_mem_nil, or_false] at h
  unfold event? StatementEvent.of? StatementEvent.ofOperator StatementEvent.ofSeparator
  rcases h with ⟨rfl, rfl⟩ | ⟨rfl, rfl⟩ | ⟨rfl, rfl⟩ <;>
    cases token.kind <;> simp <;> split_ifs <;> simp_all

theorem isOpenBrace_iff : token.isOpenBrace = true ↔ token.event? = some .openBrace := by
  rw [event?_eq_separator_iff (.head _)]
  simp [isOpenBrace]

theorem isCloseBrace_iff : token.isCloseBrace = true ↔ token.event? = some .closeBrace := by
  rw [event?_eq_separator_iff (.tail _ (.head _))]
  simp [isCloseBrace]

theorem Acts.isSemicolon_iff (hacts : token.Acts st st') :
    token.isSemicolon = true ↔ token.event? = some .semicolon := by
  rw [event?_eq_separator_iff (.tail _ (.tail _ (.head _)))]
  refine ⟨fun h => ?_, fun h => by simp [isSemicolon, h.2]⟩
  have htext : token.text = ";" := by simpa [isSemicolon] using h
  refine ⟨?_, htext⟩
  cases hacts with
  | semicolon hkind _ => exact hkind
  | other _ _ hsemicolon _ _ _ _ => simp [h] at hsemicolon
  | openBrace hkind _ => exact hkind
  | closeBrace hkind _ => exact hkind
  | question htext' _ _ => simp [htext] at htext'
  | colon htext' _ _ => simp [htext] at htext'

theorem Acts.isPlainColon_iff (hacts : token.Acts st st') :
    token.isPlainColon = true ↔ token.event? = some .colon ∧ st.closesQuestion = false := by
  have hiff : (token.kind = .operator ∨ token.kind = .punctuation) ∧ token.text = ":" ↔
      token.event? = some .colon := by
    unfold event? StatementEvent.of? StatementEvent.ofOperator StatementEvent.ofSeparator
    cases token.kind <;> simp <;> split_ifs <;> simp_all
  rw [← hiff]
  simp only [isPlainColon, isColon, Bool.and_eq_true, beq_iff_eq]
  by_cases htext : token.text = ":"
  · have hkind := (hacts.of_colon htext).1
    rw [hkind]
    cases st.closesQuestion <;> simp [htext]
  · simp [htext]

theorem Moves.after {event : StatementEvent} (h : token.Moves st st')
    (hevent : token.event? = some event) : st.after event = .ok st' := by
  rcases h with ⟨hnone, -⟩ | ⟨event', hevent', hafter⟩
  · rw [hnone] at hevent
    cases hevent
  · rw [hevent'] at hevent
    cases hevent
    exact hafter

/-- What is neither a brace nor a semicolon opens or closes something in its own block only. -/
theorem Moves.of_plain (h : token.Moves st st') (hacts : token.Acts st st')
    (hbrace : token.isBrace = false) (hsemicolon : token.isSemicolon = false) :
    st'.outer = st.outer ∧
    (st'.block.assertOpen = true ↔ token.isKeyword "assert" = true ∨
      st.block.assertOpen = true ∧ ¬ token.isPlainColon = true) ∧
    (st'.block.caseOpen = true ↔ token.opensCase = true ∨ st.block.caseOpen = true ∧
      ¬ (token.isArrow = true ∨
        token.isPlainColon = true ∧ ¬ st.block.assertOpen = true)) := by
  simp only [isBrace, Bool.or_eq_false_iff] at hbrace
  simp only [opensCase, Bool.or_eq_true, isKeyword_iff, isArrow_iff, hacts.isPlainColon_iff]
  rcases h with ⟨hevent, rfl⟩ | ⟨event, hevent, hafter⟩
  · simp [hevent]
  · rw [hevent]
    cases event with
    | openBrace => simp [isOpenBrace_iff.2 hevent] at hbrace
    | closeBrace => simp [isCloseBrace_iff.2 hevent] at hbrace
    | semicolon => simp [hacts.isSemicolon_iff.2 hevent] at hsemicolon
    | operand =>
        cases hafter
        simp [StatementState.operand]
    | arrow =>
        cases hafter
        simp [StatementState.arrow]
    | keyword word =>
        cases hafter
        simp [StatementState.keyword, or_comm, or_left_comm]
    | question =>
        obtain ⟨questions, -, hst⟩ := bind_eq_ok hafter
        cases hst
        simp
    | colon =>
        rcases st.colon_cases with ⟨hcloses, hcolon⟩ | ⟨hcloses, hassert, hcolon⟩ |
          ⟨hcloses, hassert, hcolon⟩
        · cases hafter.symm.trans hcolon
          simp [hcloses]
        · cases hafter.symm.trans hcolon
          simp [hcloses, hassert]
        · cases hafter.symm.trans hcolon
          simp [hcloses, hassert]

theorem Moves.atStart_iff (h : token.Moves st st') (hacts : token.Acts st st')
    (hkind : token.kind.isTrivia = false) :
    st'.atStart = true ↔ token.isBrace = true ∨ token.isSemicolon = true ∨
      token.isKeyword "else" = true ∨ token.isKeyword "do" = true ∨
        token.isPlainColon = true ∧ ¬ st.block.assertOpen = true := by
  simp only [isBrace, Bool.or_eq_true, isOpenBrace_iff, isCloseBrace_iff, isKeyword_iff,
    hacts.isSemicolon_iff, hacts.isPlainColon_iff]
  rcases h with ⟨hevent, -⟩ | ⟨event, hevent, hafter⟩
  · rw [isTrivia_iff.2 hevent] at hkind
    cases hkind
  · rw [hevent]
    cases event with
    | question =>
        obtain ⟨questions, -, hst⟩ := bind_eq_ok hafter
        cases hst
        simp
    | colon =>
        rcases st.colon_cases with ⟨hcloses, hcolon⟩ | ⟨hcloses, hassert, hcolon⟩ |
          ⟨hcloses, hassert, hcolon⟩
        · cases hafter.symm.trans hcolon
          simp [hcloses]
        · cases hafter.symm.trans hcolon
          simp [hcloses, hassert]
        · cases hafter.symm.trans hcolon
          simp [hcloses, hassert]
    | keyword word =>
        cases hafter
        simp [StatementState.keyword]
    | _ =>
        cases hafter
        simp [StatementState.operand, StatementState.arrow, StatementState.openBrace,
          StatementState.closeBrace, StatementState.semicolon]

theorem Moves.eq_of_isTrivia (h : token.Moves st st') (hkind : token.kind.isTrivia = true) :
    st' = st := by
  rcases h with ⟨-, hst⟩ | ⟨event, hevent, -⟩
  · exact hst
  · rw [isTrivia_iff.1 hkind] at hevent
    cases hevent

end Token

/-- The block `n` blocks out, a fresh one if there are not so many. -/
def StatementState.blockAt (st : StatementState) (n : Nat) : Block :=
  ((st.block :: st.outer)[n]?).getD {}

theorem StatementState.blockAt_zero (st : StatementState) : st.blockAt 0 = st.block := rfl

theorem StatementState.blockAt_closeBrace (st : StatementState) (n : Nat) :
    st.closeBrace.blockAt n = st.blockAt (n + 1) := by
  unfold blockAt closeBrace
  cases st.outer with
  | nil =>
      cases n with
      | zero => rfl
      | succ n => rfl
  | cons block outer => rfl

/-- A block knows what its segment waits for. -/
structure Block.Knows (block : Block) (tokens segment : List Token) : Prop where
  assertion : block.assertOpen = true ↔ AssertWaits segment
  alternative : block.caseOpen = true ↔ CaseWaits tokens segment

theorem Block.knows_nil (tokens : List Token) : Block.Knows {} tokens [] := by
  refine ⟨?_, ?_⟩
  · simp [AssertWaits, Waits]
  · simp [CaseWaits, Waits]

structure StatementState.Knows (st : StatementState) (tokens : List Token) : Prop where
  blocks : ∀ n, (st.blockAt n).Knows tokens (scopeSegment n tokens)
  start : st.atStart = true ↔ StartsStatement tokens

theorem StatementState.knows_start : StatementState.Knows {} [] := by
  refine ⟨?_, ?_⟩
  · intro n
    cases n with
    | zero => exact Block.knows_nil []
    | succ n => exact Block.knows_nil []
  · simp [StartsStatement]

section

variable {tokens : List Token} {token : Token} (hfresh : token ∉ tokens)

include hfresh

theorem Block.Knows.append_right {block : Block} {n : Nat}
    (h : block.Knows tokens (scopeSegment n tokens)) :
    block.Knows (tokens ++ [token]) (scopeSegment n tokens) := by
  refine ⟨h.assertion, ?_⟩
  rw [h.alternative, caseWaits_append_right hfresh fun _ => mem_of_mem_scopeSegment]

theorem startsStatement_append_of_isTrivia (hkind : token.kind.isTrivia = true) :
    StartsStatement (tokens ++ [token]) ↔ StartsStatement tokens := by
  unfold StartsStatement
  simp only [List.findRev?_eq_find?_reverse, List.reverse_append, List.reverse_singleton,
    List.singleton_append]
  rw [List.find?_cons_of_neg (by simp [hkind])]
  refine forall₂_congr fun last hlast => ?_
  have hmem : last ∈ tokens := List.mem_reverse.1 (List.mem_of_find?_eq_some hlast)
  unfold PrecedesStatement
  rw [partsAssertion_append_of_mem hfresh hmem]

theorem startsStatement_append (hkind : token.kind.isTrivia = false) :
    StartsStatement (tokens ++ [token]) ↔ token.isBrace = true ∨ token.isSemicolon = true ∨
      token.isKeyword "else" = true ∨ token.isKeyword "do" = true ∨
        token.isPlainColon = true ∧ ¬ AssertWaits (scopeSegment 0 tokens) := by
  unfold StartsStatement
  simp only [List.findRev?_eq_find?_reverse, List.reverse_append, List.reverse_singleton,
    List.singleton_append]
  rw [List.find?_cons_of_pos (by simp [hkind])]
  simp only [Option.mem_some_iff, forall_eq', PrecedesStatement, plain_append_self hfresh]

variable {st st' : StatementState}

/-- What is neither a brace nor a semicolon joins the segment of its own block. -/
theorem Token.Moves.blocks_of_plain (hmoves : token.Moves st st') (hacts : token.Acts st st')
    (hbrace : token.isBrace = false) (hsemicolon : token.isSemicolon = false)
    (h : ∀ n, (st.blockAt n).Knows tokens (scopeSegment n tokens)) (n : Nat) :
    (st'.blockAt n).Knows (tokens ++ [token]) (scopeSegment n (tokens ++ [token])) := by
  obtain ⟨houter, hassert, hcase⟩ := hmoves.of_plain hacts hbrace hsemicolon
  rw [scopeSegment_append (by simp [hsemicolon]), Token.levelBefore_of_not_brace hbrace]
  simp only [Option.elim, hbrace, and_true]
  cases n with
  | zero =>
      obtain ⟨hassertion, halternative⟩ := (h 0).append_right hfresh
      rw [st.blockAt_zero] at hassertion halternative
      rw [if_pos rfl, st'.blockAt_zero]
      refine ⟨?_, ?_⟩
      · rw [hassert, hassertion, AssertWaits, AssertWaits, waits_append_iff]
      · rw [hcase, halternative, hassertion, CaseWaits, CaseWaits, waits_append_iff, EndsCase,
          plain_append_self hfresh]
  | succ n =>
      have hother : st'.blockAt (n + 1) = st.blockAt (n + 1) := by
        simp only [StatementState.blockAt, List.getElem?_cons_succ, houter]
      rw [if_neg (Nat.succ_ne_zero n), List.append_nil, hother]
      exact (h (n + 1)).append_right hfresh

theorem Token.Moves.blocks (hmoves : token.Moves st st') (hacts : token.Acts st st')
    (h : ∀ n, (st.blockAt n).Knows tokens (scopeSegment n tokens)) (n : Nat) :
    (st'.blockAt n).Knows (tokens ++ [token]) (scopeSegment n (tokens ++ [token])) := by
  cases hopen : token.isOpenBrace with
  | true =>
      cases hmoves.after (isOpenBrace_iff.1 hopen)
      rw [scopeSegment_of_brace (by simp [isBrace, hopen])]
      cases n with
      | zero =>
          simp only [levelBefore, hopen, if_true, Option.elim]
          exact Block.knows_nil _
      | succ n =>
          simp only [levelBefore, hopen, if_true, Nat.succ_ne_zero, if_false, Option.elim]
          exact (h n).append_right hfresh
  | false =>
      cases hclose : token.isCloseBrace with
      | true =>
          cases hmoves.after (isCloseBrace_iff.1 hclose)
          rw [scopeSegment_of_brace (by simp [isBrace, hclose]), st.blockAt_closeBrace]
          simp only [levelBefore, hopen, hclose, Bool.false_eq_true, if_false, if_true, Option.elim]
          exact (h (n + 1)).append_right hfresh
      | false =>
          have hbrace : token.isBrace = false := by simp [isBrace, hopen, hclose]
          cases hsemicolon : token.isSemicolon with
          | true =>
              cases hmoves.after (hacts.isSemicolon_iff.1 hsemicolon)
              cases n with
              | zero =>
                  rw [scopeSegment_of_semicolon hsemicolon]
                  exact Block.knows_nil _
              | succ n =>
                  rw [scopeSegment_append (by simp), levelBefore_of_not_brace hbrace]
                  simp only [Option.elim, Nat.succ_ne_zero, false_and, if_false, List.append_nil]
                  exact (h (n + 1)).append_right hfresh
          | false => exact hmoves.blocks_of_plain hfresh hacts hbrace hsemicolon h n

theorem Token.Moves.knows (hmoves : token.Moves st st') (hacts : token.Acts st st')
    (h : st.Knows tokens) : st'.Knows (tokens ++ [token]) := by
  refine ⟨hmoves.blocks hfresh hacts h.blocks, ?_⟩
  cases hkind : token.kind.isTrivia with
  | true =>
      rw [hmoves.eq_of_isTrivia hkind, startsStatement_append_of_isTrivia hfresh hkind]
      exact h.start
  | false =>
      have hassertion := (h.blocks 0).assertion
      rw [st.blockAt_zero] at hassertion
      rw [startsStatement_append hfresh hkind, ← hassertion]
      exact hmoves.atStart_iff hacts hkind

end

theorem StatementState.Counts.closesQuestion_eq_false {st : StatementState} {tokens : List Token}
    (h : st.Counts tokens) (hquestion : ¬ AwaitsColon (scopeSegment 0 tokens)) :
    st.closesQuestion = false := by
  have hown : st.block.questions = pending (scopeSegment 0 tokens) := h 0
  rw [awaitsColon_iff, ← hown] at hquestion
  exact decide_eq_false hquestion

theorem StatementState.Knows.allowsLabel_iff {st : StatementState} {tokens : List Token}
    (h : st.Knows tokens) (hcounts : st.Counts tokens) :
    st.allowsLabel = true ↔ StartsStatement tokens ∧ ¬ AwaitsColon (scopeSegment 0 tokens) ∧
      ¬ AssertWaits (scopeSegment 0 tokens) ∧ ¬ CaseWaits tokens (scopeSegment 0 tokens) := by
  have hquestions : st.block.questions = pending (scopeSegment 0 tokens) := hcounts 0
  obtain ⟨hassertion, halternative⟩ := h.blocks 0
  rw [st.blockAt_zero] at hassertion halternative
  rw [← h.start, awaitsColon_iff, ← hquestions, ← hassertion, ← halternative]
  simp [allowsLabel, and_assoc]

namespace Lexer

variable {lexer : Lexer} {stream final : Stream} {before tokens : List Token}

theorem Pulls.knows (hfit : lexer.source.len ≤ maxOffset) (hsound : lexer.Sound stream)
    (h : lexer.Pulls stream tokens final) (hbefore : ∀ token ∈ before, token.stop ≤ stream.pos)
    (hstream : stream.state.statement.Knows before) :
    final.state.statement.Knows (before ++ tokens) := by
  induction h generalizing before with
  | nil stream =>
      rw [List.append_nil]
      exact hstream
  | @cons stream mid final token tokens hnext _ ih =>
      obtain ⟨hcovers, hmid⟩ := next_eq_some hfit hsound hnext
      have hnonempty := hcovers.nonempty
      have hstart := hcovers.start_eq
      have hstop := hcovers.stop_eq
      have hfresh : token ∉ before := by
        intro hmem
        have hle := hbefore token hmem
        omega
      have hlater : ∀ earlier ∈ before ++ [token], earlier.stop ≤ mid.pos := by
        rw [List.forall_mem_append, List.forall_mem_singleton]
        refine ⟨fun earlier hmem => ?_, Nat.le_of_eq hstop⟩
        have hle := hbefore earlier hmem
        omega
      have hacts := next_acts hfit hsound hnext
      have hknows := ih hmid hlater ((next_moves hfit hsound hnext).knows hfresh hacts hstream)
      rw [List.append_assoc, List.singleton_append] at hknows
      exact hknows

theorem Pulls.kind_of_colon (hfit : lexer.source.len ≤ maxOffset) (hsound : lexer.Sound stream)
    (h : lexer.Pulls stream tokens final) {colon : Token}
    (hclosed : stream.state.statement.closesQuestion = false)
    (hcolon : (tokens.find? fun token => !token.kind.isTrivia) = some colon)
    (htext : colon.text = ":") : colon.kind = .punctuation := by
  induction h with
  | nil stream => cases hcolon
  | @cons stream mid final token tokens hnext _ ih =>
      have hmid := (next_eq_some hfit hsound hnext).2
      cases hkind : token.kind.isTrivia with
      | true =>
          have hst := (next_moves hfit hsound hnext).eq_of_isTrivia hkind
          rw [List.find?_cons_of_neg (by simp [hkind])] at hcolon
          exact ih hmid (hst ▸ hclosed) hcolon
      | false =>
          rw [List.find?_cons_of_pos (by simp [hkind])] at hcolon
          cases hcolon
          rw [((next_acts hfit hsound hnext).of_colon htext).1, hclosed]
          rfl

/-- The names that are labels, told from the tokens around them. The colon of a label is none of a
conditional. -/
theorem label_iff (lexer : Lexer) (hfit : lexer.source.len ≤ maxOffset) :
    ∃ tokens final, lexer.drain {} = .ok (tokens, final) ∧
      ∀ (before : List Token) (token : Token) (after : List Token),
        tokens = before ++ token :: after →
        (token.flags.label = true ↔ LabelPlace before token after) ∧
        (token.flags.label = true → ∀ colon,
          (after.find? fun token => !token.kind.isTrivia) = some colon →
            colon.kind = .punctuation) := by
  obtain ⟨tokens, final, hdrain, hpulls, hend, -⟩ := exists_drain hfit
  have hstart := lexer.sound_start
  refine ⟨tokens, final, hdrain, ?_⟩
  intro before token after htokens
  subst htokens
  obtain ⟨stream, hbefore, hrest⟩ := hpulls.exists_mid
  cases hrest with
  | @cons _ mid _ _ _ hnext hafter =>
      have hsound := hbefore.sound hfit hstart
      have hmid := (next_eq_some hfit hsound hnext).2
      have hknows : stream.state.statement.Knows before :=
        hbefore.knows hfit hstart (by simp) StatementState.knows_start
      have hcounts : stream.state.statement.Counts before :=
        hbefore.counts hfit hstart counts_start
      have hallows := hknows.allowsLabel_iff hcounts
      have hlabel : token.flags.label = true ↔ LabelPlace before token after := by
        rw [next_label hfit hsound hnext, hafter.lookAhead_colon_iff hfit hmid hend, hallows]
        constructor
        · rintro ⟨hname, ⟨hplace, hquestion, hassertion, halternative⟩, hcolon⟩
          exact ⟨hname, hcolon, hplace, hquestion, hassertion, halternative⟩
        · rintro ⟨hname, hcolon, hplace, hquestion, hassertion, halternative⟩
          exact ⟨hname, ⟨hplace, hquestion, hassertion, halternative⟩, hcolon⟩
      refine ⟨hlabel, fun hflag colon hfound => ?_⟩
      obtain ⟨hname, ⟨colon', hfound', htext⟩, -, hquestion, -, -⟩ := hlabel.1 hflag
      rw [hfound] at hfound'
      cases hfound'
      have hoperand : token.event? = some .operand := by
        rw [Token.event?, hname]
        rfl
      have hst := Except.ok.inj ((next_moves hfit hsound hnext).after hoperand)
      refine hafter.kind_of_colon hfit hmid ?_ hfound htext
      rw [← hst]
      exact hcounts.closesQuestion_eq_false hquestion

/-- The first colon parts the assertion, so that only the second one lets a statement start. The
block around still waits for the colon of its `default`. -/
theorem label_iff_assertion :
    Source.len ⟨"default\x7bassert k:l:m: \x7dn:"⟩ ≤ maxOffset ∧
      ∃ (before : List Token) (parted colon inner colon' blank brace outer last : Token)
        (final : Stream),
        drain ⟨⟨"default\x7bassert k:l:m: \x7dn:"⟩, {}⟩ {} =
          .ok (before ++ [parted, colon, inner, colon', blank, brace, outer, last], final) ∧
        (parted.start = 17 ∧ parted.kind = .identifier ∧ parted.flags.label = false) ∧
        (inner.start = 19 ∧ inner.flags.label = true ∧ colon'.kind = .punctuation) ∧
        (outer.start = 23 ∧ outer.kind = .identifier ∧ outer.flags.label = false) := by
  refine ⟨by decide, ?_⟩
  obtain ⟨tokens, final, hdrain, hlabels⟩ :=
    label_iff ⟨⟨"default\x7bassert k:l:m: \x7dn:"⟩, {}⟩ (by decide)
  have htokens : (drain ⟨⟨"default\x7bassert k:l:m: \x7dn:"⟩, {}⟩ {}).map Prod.fst = .ok
      [⟨.keyword, "default", 0, 7, {}⟩, ⟨.punctuation, "\x7b", 7, 8, {}⟩,
        ⟨.keyword, "assert", 8, 14, {}⟩, ⟨.whitespace, " ", 14, 15, {}⟩,
        ⟨.identifier, "k", 15, 16, {}⟩, ⟨.punctuation, ":", 16, 17, {}⟩,
        ⟨.identifier, "l", 17, 18, {}⟩, ⟨.punctuation, ":", 18, 19, {}⟩,
        ⟨.identifier, "m", 19, 20, { label := true }⟩, ⟨.punctuation, ":", 20, 21, {}⟩,
        ⟨.whitespace, " ", 21, 22, {}⟩, ⟨.punctuation, "\x7d", 22, 23, {}⟩,
        ⟨.identifier, "n", 23, 24, {}⟩, ⟨.punctuation, ":", 24, 25, {}⟩] := by decide +kernel
  rw [hdrain] at htokens
  cases htokens
  refine ⟨[_, _, _, _, _, _], _, _, _, _, _, _, _, _, final, hdrain, ⟨rfl, rfl, ?_⟩,
    ⟨rfl, ?_, ?_⟩, ⟨rfl, rfl, ?_⟩⟩
  · have hparted := (hlabels [_, _, _, _, _, _] _ [_, _, _, _, _, _, _] rfl).1
    exact Bool.eq_false_iff.2 fun hlabel => absurd (hparted.1 hlabel).start (by decide)
  · have hinner := (hlabels [_, _, _, _, _, _, _, _] _ [_, _, _, _, _] rfl).1
    exact hinner.2 ⟨rfl, ⟨_, rfl, rfl⟩, by decide, by rw [awaitsColon_iff]; decide, by decide,
      by decide⟩
  · exact (hlabels [_, _, _, _, _, _, _, _] _ [_, _, _, _, _] rfl).2 rfl _ rfl
  · have houter := (hlabels [_, _, _, _, _, _, _, _, _, _, _, _] _ [_] rfl).1
    exact Bool.eq_false_iff.2 fun hlabel => absurd (by decide) (houter.1 hlabel).alternative

end Lexer

end JavaLex
