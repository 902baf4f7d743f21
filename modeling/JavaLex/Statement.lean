import JavaLex.Fault

/-! What a statement still waits for. A colon ends a label or a `case`, parts an assertion from
its message, or belongs to a conditional; what stands before it in its own braces decides. -/

namespace JavaLex

/-- What is open between one pair of braces. -/
structure Block where
  /-- Question marks of conditionals that have no colon yet. -/
  questions : Nat := 0
  assertOpen : Bool := false
  /-- A `case` or `default` has neither its colon nor its arrow yet. -/
  caseOpen : Bool := false
  deriving DecidableEq

inductive StatementEvent where
  | operand
  | keyword (word : String)
  /-- The question mark of a conditional. -/
  | question
  | colon
  | arrow
  | openBrace
  | closeBrace
  | semicolon
  deriving DecidableEq

structure StatementState where
  block : Block := {}
  /-- The blocks around the current one, the nearest first. -/
  outer : List Block := []
  atStart : Bool := true
  deriving DecidableEq

namespace StatementState

def depth (st : StatementState) : Nat := st.outer.length

/-- Whether a word before a colon would be a label here. -/
def allowsLabel (st : StatementState) : Bool :=
  st.atStart && st.block.questions == 0 && !st.block.assertOpen && !st.block.caseOpen

/-- Whether a colon here belongs to a conditional. -/
def closesQuestion (st : StatementState) : Bool := decide (0 < st.block.questions)

def operand (st : StatementState) : StatementState := { st with atStart := false }

def keyword (st : StatementState) (word : String) : StatementState :=
  { st with
    block :=
      { st.block with
        assertOpen := st.block.assertOpen || word == "assert"
        caseOpen := st.block.caseOpen || word == "case" || word == "default" }
    atStart := word == "else" || word == "do" }

def question (st : StatementState) : Except Fault StatementState := do
  let questions ← checkedAdd st.block.questions 1
  pure { st with block := { st.block with questions }, atStart := false }

def colon (st : StatementState) : Except Fault StatementState := do
  if st.closesQuestion then
    let questions ← checkedSub st.block.questions 1
    pure { st with block := { st.block with questions }, atStart := false }
  else if st.block.assertOpen then
    pure { st with block := { st.block with assertOpen := false }, atStart := false }
  else
    pure { st with block := { st.block with caseOpen := false }, atStart := true }

theorem colon_cases (st : StatementState) :
    (st.closesQuestion = true ∧ st.colon = .ok { st with
      block := { st.block with questions := st.block.questions - 1 }, atStart := false }) ∨
    (st.closesQuestion = false ∧ st.block.assertOpen = true ∧ st.colon = .ok { st with
      block := { st.block with assertOpen := false }, atStart := false }) ∨
    (st.closesQuestion = false ∧ st.block.assertOpen = false ∧ st.colon = .ok { st with
      block := { st.block with caseOpen := false }, atStart := true }) := by
  unfold colon
  cases hcloses : st.closesQuestion with
  | true =>
    have hquestions : 1 ≤ st.block.questions := of_decide_eq_true hcloses
    refine .inl ⟨rfl, ?_⟩
    rw [if_pos rfl, checkedSub_eq_ok hquestions]
    rfl
  | false =>
    cases hassert : st.block.assertOpen with
    | true => exact .inr (.inl ⟨rfl, rfl, rfl⟩)
    | false => exact .inr (.inr ⟨rfl, rfl, rfl⟩)

def arrow (st : StatementState) : StatementState :=
  { st with block := { st.block with caseOpen := false }, atStart := false }

def openBrace (st : StatementState) : StatementState :=
  { block := {}, outer := st.block :: st.outer, atStart := true }

/-- A brace that closes nothing leaves a fresh block. -/
def closeBrace (st : StatementState) : StatementState :=
  { block := st.outer.headD {}, outer := st.outer.tail, atStart := true }

def semicolon (st : StatementState) : StatementState :=
  { st with block := {}, atStart := true }

def after (st : StatementState) : StatementEvent → Except Fault StatementState
  | .operand => pure st.operand
  | .keyword word => pure (st.keyword word)
  | .question => st.question
  | .colon => st.colon
  | .arrow => pure st.arrow
  | .openBrace => pure st.openBrace
  | .closeBrace => pure st.closeBrace
  | .semicolon => pure st.semicolon

end StatementState

end JavaLex
