import Mathlib.Data.List.Infix
import JavaLex.Proofs.Verdicts

/-! Blocks. What stands between two braces neither notices nor changes what is open around them: the
events inside act as they do at the start of a text, and the closing brace brings back the block
that the opening one left. -/

namespace JavaLex

namespace StatementEvent

/-- No start of the events closes more braces than it opens and than are open before it. -/
def StaysInside (depth : Nat) (events : List StatementEvent) : Prop :=
  ∀ initial, initial <+: events → initial.count closeBrace ≤ initial.count openBrace + depth

/-- The events close the braces that they open, and no other. -/
structure Balanced (events : List StatementEvent) : Prop where
  closes_le : ∀ initial, initial <+: events → initial.count closeBrace ≤ initial.count openBrace
  opens_eq : events.count openBrace = events.count closeBrace

instance (events : List StatementEvent) : Decidable (Balanced events) :=
  decidable_of_iff
    ((∀ initial ∈ events.inits, initial.count closeBrace ≤ initial.count openBrace) ∧
      events.count openBrace = events.count closeBrace)
    (by simp only [List.mem_inits]; exact ⟨fun h => ⟨h.1, h.2⟩, fun h => ⟨h.1, h.2⟩⟩)

end StatementEvent

namespace StatementState

open StatementEvent (StaysInside Balanced)

/-- What an event finds out: a colon, whether it belongs to a conditional. -/
def answers (st : StatementState) : StatementEvent → List Bool
  | .colon => [st.closesQuestion]
  | _ => []

/-- What a row of events finds out, and the state behind it. -/
def run (st : StatementState) : List StatementEvent → Except Fault (List Bool × StatementState)
  | [] => pure ([], st)
  | event :: rest => do
    let next ← st.after event
    let (later, final) ← next.run rest
    pure (st.answers event ++ later, final)

/-- The same with more blocks around all of its own. -/
def inside (st : StatementState) (around : List Block) : StatementState :=
  { st with outer := st.outer ++ around }

variable {st st' final : StatementState} {event : StatementEvent}
  {events later : List StatementEvent} {found : List Bool} {around : List Block}

theorem depth_after (h : st.after event = .ok st')
    (hclose : event = .closeBrace → 0 < st.depth) :
    st'.depth + [event].count .closeBrace = st.depth + [event].count .openBrace := by
  cases event with
  | question =>
      obtain ⟨questions, -, h⟩ := bind_eq_ok h
      cases h
      rfl
  | colon =>
      rcases st.colon_cases with ⟨-, hcolon⟩ | ⟨-, -, hcolon⟩ | ⟨-, -, hcolon⟩
      all_goals
        cases h.symm.trans hcolon
        rfl
  | openBrace =>
      cases h
      rfl
  | closeBrace =>
      cases h
      have hdepth := hclose rfl
      simp only [closeBrace, depth, List.length_tail, List.count_singleton_self] at hdepth ⊢
      exact Nat.sub_add_cancel hdepth
  | _ =>
      cases h
      rfl

theorem answers_inside : (st.inside around).answers event = st.answers event := by
  cases event <;> rfl

theorem colon_inside (st : StatementState) (around : List Block) :
    (st.inside around).colon = (inside · around) <$> st.colon := by
  obtain ⟨⟨questions, assertOpen, caseOpen⟩, outer, atStart⟩ := st
  cases questions <;> cases assertOpen <;> rfl

/-- An event leaves what is around alone, unless it closes a brace and no other is open. -/
theorem after_inside (hclose : event = .closeBrace → 0 < st.depth) :
    (st.inside around).after event = (inside · around) <$> st.after event := by
  cases event with
  | question =>
      simp only [after, question, inside]
      cases checkedAdd st.block.questions 1 <;> rfl
  | colon => exact st.colon_inside around
  | closeBrace =>
      obtain ⟨top, rest, houter⟩ := List.exists_cons_of_length_pos (hclose rfl)
      simp [after, closeBrace, inside, houter]
  | _ => rfl

theorem run_append (st : StatementState) (events later : List StatementEvent) :
    st.run (events ++ later) = (do
      let (first, mid) ← st.run events
      let (second, final) ← mid.run later
      pure (first ++ second, final)) := by
  induction events generalizing st with
  | nil =>
      simp only [List.nil_append, run, except_pure, except_ok_bind]
      cases st.run later <;> rfl
  | cons event rest ih =>
      rw [List.cons_append, run, run]
      cases st.after event with
      | error fault => rfl
      | ok next =>
          simp only [except_ok_bind, ih]
          cases next.run rest with
          | error fault => rfl
          | ok found =>
              simp only [except_ok_bind, except_pure]
              cases found.2.run later with
              | error fault => rfl
              | ok last => simp only [except_ok_bind, List.append_assoc]

theorem StaysInside.uncons (h : StaysInside st.depth (event :: events)) :
    (event = .closeBrace → 0 < st.depth) ∧
      ∀ st', st.after event = .ok st' → StaysInside st'.depth events := by
  have hclose : event = .closeBrace → 0 < st.depth := by
    rintro rfl
    have hfirst : 1 ≤ st.depth := by
      simpa using h [.closeBrace] (List.prefix_append [StatementEvent.closeBrace] events)
    exact hfirst
  refine ⟨hclose, ?_⟩
  intro st' hafter initial hinitial
  have hstart := h (event :: initial) (List.cons_prefix_cons.2 ⟨rfl, hinitial⟩)
  have hdepth := depth_after hafter hclose
  rw [← List.singleton_append, List.count_append, List.count_append] at hstart
  omega

theorem run_inside (h : StaysInside st.depth events) :
    (st.inside around).run events = (fun r => (r.1, r.2.inside around)) <$> st.run events := by
  induction events generalizing st with
  | nil => rfl
  | cons event rest ih =>
      obtain ⟨hclose, hrest⟩ := StaysInside.uncons h
      rw [run, run, after_inside hclose, answers_inside]
      cases hafter : st.after event with
      | error fault => rfl
      | ok next =>
          simp only [except_ok_map, except_ok_bind, ih (hrest next hafter)]
          cases next.run rest <;> rfl

theorem depth_run (h : StaysInside st.depth events) (hrun : st.run events = .ok (found, final)) :
    final.depth + events.count .closeBrace = st.depth + events.count .openBrace := by
  induction events generalizing st found with
  | nil =>
      cases hrun
      rfl
  | cons event rest ih =>
      obtain ⟨hclose, hrest⟩ := StaysInside.uncons h
      obtain ⟨next, hafter, hrun⟩ := bind_eq_ok hrun
      obtain ⟨⟨more, last⟩, hlater, hrun⟩ := bind_eq_ok hrun
      cases hrun
      have hfirst := depth_after hafter hclose
      have hothers := ih (hrest next hafter) hlater
      rw [← List.singleton_append, List.count_append, List.count_append]
      omega

/-- A row of events is followed to its end unless a block counts more conditionals than fit. -/
theorem run_returns {n : Nat} (h : st.Bounded n) (hn : n + events.count .question ≤ maxOffset) :
    ∃ found final, st.run events = .ok (found, final) := by
  induction events generalizing st n with
  | nil => exact ⟨_, _, rfl⟩
  | cons event rest ih =>
      rw [← List.singleton_append, List.count_append] at hn
      have hone : event = .question → n < maxOffset := by
        rintro rfl
        rw [List.count_singleton_self] at hn
        omega
      obtain ⟨next, hafter, hnext⟩ := after_bounded h hone
      obtain ⟨found, final, hrun⟩ := ih hnext (by omega)
      exact ⟨_, _, by rw [run, hafter, except_ok_bind, hrun]; rfl⟩

theorem bounded_start : ({} : StatementState).Bounded 0 := by
  intro block hb
  rw [List.mem_singleton.1 hb]

theorem allowsLabel_iff (hstart : st.atStart = true) :
    st.allowsLabel = true ↔
      st.block.questions = 0 ∧ st.block.assertOpen = false ∧ st.block.caseOpen = false := by
  simp [allowsLabel, hstart, and_assoc]

theorem run_block (st : StatementState) (h : Balanced events) :
    st.run (.openBrace :: (events ++ [.closeBrace])) =
      (fun r => (r.1, { st with atStart := true })) <$> ({} : StatementState).run events := by
  have hstays : StaysInside ({} : StatementState).depth events := h.closes_le
  have hinside := @run_inside {} events (st.block :: st.outer) hstays
  have hopen : st.openBrace = inside {} (st.block :: st.outer) := rfl
  rw [run, after, except_pure, except_ok_bind, run_append, hopen, hinside]
  cases hrun : ({} : StatementState).run events with
  | error fault => rfl
  | ok found =>
      -- the braces inside are closed, so the last one closes the block itself
      have hdepth := depth_run hstays hrun
      rw [h.opens_eq] at hdepth
      have houter : found.2.outer = [] := List.length_eq_zero_iff.1 (Nat.add_right_cancel hdepth)
      simp [run, after, closeBrace, inside, houter, answers]

/-- A block is transparent to the statement around it: behind it everything is as before, at the
start of a statement, and its colons find out what they would at the start of a text. A block in
which a counter overflows does so wherever it stands, and none does in a block with no more
conditionals than fit. -/
theorem block_transparent (st : StatementState) {events : List StatementEvent}
    (h : Balanced events) :
    st.run (.openBrace :: (events ++ [.closeBrace])) =
        (fun r => (r.1, { st with atStart := true })) <$> ({} : StatementState).run events ∧
      (events.count .question ≤ maxOffset → ∃ found final behind,
        ({} : StatementState).run events = .ok (found, final) ∧
          st.run (.openBrace :: (events ++ [.closeBrace])) = .ok (found, behind) ∧
          behind.block = st.block ∧ behind.outer = st.outer ∧ behind.depth = st.depth ∧
          behind.atStart = true ∧
          (behind.allowsLabel = true ↔ st.block.questions = 0 ∧ st.block.assertOpen = false ∧
            st.block.caseOpen = false)) := by
  refine ⟨st.run_block h, fun hcount => ?_⟩
  rw [← Nat.zero_add (events.count .question)] at hcount
  obtain ⟨found, final, hrun⟩ := run_returns bounded_start hcount
  refine ⟨found, final, { st with atStart := true }, hrun, ?_, rfl, rfl, rfl, rfl,
    allowsLabel_iff rfl⟩
  rw [st.run_block h, hrun]
  rfl

/-- An assertion and a conditional wait outside; the block asserts something itself, holds another
block, and leaves a `case` and a question open. -/
theorem block_transparent_pending :
    let st : StatementState :=
      { block := { questions := 1, assertOpen := true }, outer := [{ caseOpen := true }] }
    let events : List StatementEvent :=
      [.keyword "assert", .operand, .question, .openBrace, .colon, .semicolon, .closeBrace,
        .colon, .colon, .keyword "case", .question]
    Balanced events ∧ events.count .question ≤ maxOffset ∧
      st.run (.openBrace :: (events ++ [.closeBrace])) =
        .ok ([false, true, false],
          { block := { questions := 1, assertOpen := true }, outer := [{ caseOpen := true }] }) ∧
      ∃ found behind, st.run (.openBrace :: (events ++ [.closeBrace])) = .ok (found, behind) ∧
        behind.depth = 1 ∧ behind.allowsLabel = false := by
  intro st events
  have hbalanced : Balanced events := by decide
  have hcount : events.count .question ≤ maxOffset := by decide
  obtain ⟨hrun, hreturns⟩ := block_transparent st hbalanced
  obtain ⟨found, final, behind, -, hbehind, -, -, hdepth, -, hlabel⟩ := hreturns hcount
  have hpending : ¬ behind.allowsLabel = true := fun h => absurd (hlabel.1 h).1 (by decide)
  exact ⟨hbalanced, hcount, hrun.trans rfl, found, behind, hbehind, hdepth,
    Bool.eq_false_iff.2 hpending⟩

end StatementState

end JavaLex
