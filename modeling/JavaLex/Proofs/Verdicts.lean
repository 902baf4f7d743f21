import JavaLex.Stream
import JavaLex.Proofs.Segments

/-! Classifying never faults. Its sums are sums of offsets inside the text, and its counters count
bytes of the text, so that none of them leaves its range. -/

namespace JavaLex

/-- The diagnostic concerns some of the bytes between two offsets. -/
structure Diagnostic.Within (start stop : Nat) (d : Diagnostic) : Prop where
  start_le : start ≤ d.start
  nonempty : d.start < d.stop
  le_stop : d.stop ≤ stop

theorem Diagnostic.Within.mono {start stop start' stop' : Nat} {d : Diagnostic}
    (h : d.Within start stop) (hstart : start' ≤ start) (hstop : stop ≤ stop') :
    d.Within start' stop' :=
  ⟨Nat.le_trans hstart h.start_le, h.nonempty, Nat.le_trans h.le_stop hstop⟩

namespace Escape

theorem width_append (a b : List Char) : width (a ++ b) = width a + width b := by
  induction a with
  | nil => simp [width]
  | cons c rest ih => simp only [List.cons_append, width, ih, Nat.add_assoc]

theorem width_toList (text : String) : width text.toList = text.utf8ByteSize := by
  have : ∀ l : List Char, width l = (String.ofList l).utf8ByteSize := by
    intro l
    induction l with
    | nil => rfl
    | cons c rest ih =>
        have hsplit : String.ofList (c :: rest) = String.singleton c ++ String.ofList rest := by
          rw [String.singleton_eq_ofList, ← String.ofList_append, List.singleton_append]
        rw [width, ih, hsplit, String.utf8ByteSize_append, String.utf8ByteSize_singleton]
  rw [this, String.ofList_toList]

def span : List (Piece × Nat) → Nat
  | [] => 0
  | piece :: rest => piece.2 + span rest

theorem span_pieces (form : QuoteForm) (content : List Char) :
    span (pieces form content) = width content ∧ ∀ piece ∈ pieces form content, 0 < piece.2 := by
  fun_induction pieces form content with
  | case1 => exact ⟨rfl, fun piece h => by cases h⟩
  | case2 =>
      refine ⟨rfl, ?_⟩
      intro piece h
      rw [List.mem_singleton.1 h]
      decide
  | case3 c rest found ih =>
      refine ⟨?_, fun piece h => ?_⟩
      · have hrest := width_append (rest.take found.2) (rest.drop found.2)
        rw [List.take_append_drop] at hrest
        rw [span, ih.1]
        simp only [width, hrest]
        have : '\\'.utf8Size = 1 := rfl
        omega
      · rcases List.mem_cons.1 h with rfl | h
        · exact Nat.lt_of_lt_of_le Nat.zero_lt_one (by simp only; omega)
        · exact ih.2 piece h
  | case4 c rest _ _ ih =>
      refine ⟨?_, fun piece h => ?_⟩
      · rw [span, ih.1, width]
      · rcases List.mem_cons.1 h with rfl | h
        · exact c.utf8Size_pos
        · exact ih.2 piece h

/-- The problems of pieces, the first of which stands at `offset` of a content at `base`. -/
def diagnostics (base : Nat) : (offset : Nat) → List (Piece × Nat) →
    Except Fault (List Diagnostic)
  | _, [] => pure []
  | offset, (piece, bytes) :: rest =>
    match piece.problem? with
    | none => diagnostics base (offset + bytes) rest
    | some problem => do
      let start ← checkedAdd base offset
      let stop ← checkedAdd base (offset + bytes)
      (⟨problem, start, stop⟩ :: ·) <$> diagnostics base (offset + bytes) rest

theorem report_eq (base offset : Nat) (found : List (Piece × Nat)) (stored : Array Diagnostic) :
    report base offset found stored =
      (fun ds => stored ++ ds.toArray) <$> diagnostics base offset found := by
  induction found generalizing offset stored with
  | nil => simp [report, diagnostics]
  | cons entry rest ih =>
      obtain ⟨piece, bytes⟩ := entry
      rw [report, diagnostics]
      cases piece.problem? with
      | none => exact ih _ _
      | some problem =>
          cases checkedAdd base offset with
          | error fault => rfl
          | ok start =>
              cases checkedAdd base (offset + bytes) with
              | error fault => rfl
              | ok stop =>
                  simp only [except_ok_bind, ih]
                  cases diagnostics base (offset + bytes) rest with
                  | error fault => rfl
                  | ok ds => simp

theorem read_eq (form : QuoteForm) (content : String) (base : Nat) :
    read form content base =
      if content.toList.contains '\\' then do
        let found := pieces form content.toList
        pure ⟨some (value found), ← diagnostics base 0 found⟩
      else pure ⟨none, []⟩ := by
  unfold read readInto
  split
  · simp only [report_eq]
    cases diagnostics base 0 (pieces form content.toList) with
    | error fault => rfl
    | ok ds => simp
  · rfl

theorem diagnostics_returns (base offset : Nat) {found : List (Piece × Nat)}
    (hpos : ∀ piece ∈ found, 0 < piece.2) (hfit : base + (offset + span found) ≤ maxOffset) :
    Returns (diagnostics base offset found)
      (fun ds => ∀ d ∈ ds, d.Within (base + offset) (base + (offset + span found))) := by
  induction found generalizing offset with
  | nil => exact .ok fun d h => by cases h
  | cons entry rest ih =>
      obtain ⟨piece, bytes⟩ := entry
      rw [span, ← Nat.add_assoc offset] at hfit ⊢
      simp only at hfit ⊢
      have hbytes : 0 < bytes := hpos (piece, bytes) List.mem_cons_self
      have hrest := ih (offset + bytes) (fun piece h => hpos piece (List.mem_cons_of_mem _ h)) hfit
      have hlater : ∀ d : Diagnostic,
          d.Within (base + (offset + bytes)) (base + (offset + bytes + span rest)) →
          d.Within (base + offset) (base + (offset + bytes + span rest)) :=
        fun d h => h.mono (by omega) (Nat.le_refl _)
      rw [diagnostics]
      split
      · exact hrest.mono fun ds h d hd => hlater d (h d hd)
      · rw [checkedAdd_eq_ok (by omega), except_ok_bind, checkedAdd_eq_ok (by omega),
          except_ok_bind]
        refine hrest.map ?_
        intro ds _ h d hd
        rcases List.mem_cons.1 hd with rfl | hd
        · exact ⟨Nat.le_refl _, by simp only; omega, by simp only; omega⟩
        · exact hlater d (h d hd)

theorem read_returns (form : QuoteForm) (content : String) (base : Nat)
    (hfit : base + content.utf8ByteSize ≤ maxOffset) :
    Returns (read form content base)
      (fun reading => ∀ d ∈ reading.problems, d.Within base (base + content.utf8ByteSize)) := by
  rw [read_eq]
  split
  · obtain ⟨hspan, hpos⟩ := span_pieces form content.toList
    rw [width_toList] at hspan
    refine (diagnostics_returns base 0 hpos (by rw [hspan]; omega)).bind ?_
    intro ds _ hds
    refine .ok ?_
    simpa only [hspan, Nat.zero_add, Nat.add_zero] using hds
  · exact .ok fun d h => by cases h

end Escape

namespace Source

variable {s : Source} {p q : Nat}

theorem utf8ByteSize_slice_le (s : Source) (p q : Nat) : (s.slice p q).utf8ByteSize ≤ q - p := by
  unfold slice
  cases h : s.slice? p q with
  | none => exact Nat.zero_le _
  | some t =>
      obtain ⟨_, _, -, -, hq⟩ := slice?_eq_some_iff.1 h
      exact Nat.le_sub_of_add_le (by rw [Nat.add_comm]; exact Nat.le_of_eq hq)

theorem literalProblems_returns {form : QuoteForm} (hlong : p + 2 * delimiterLen form ≤ q)
    (hfit : q ≤ maxOffset) :
    Returns (s.literalProblems form p q) (fun ds => ∀ d ∈ ds, d.Within p q) := by
  have hpos : 0 < delimiterLen form := by cases form <;> decide
  have hcontent := s.utf8ByteSize_slice_le (p + delimiterLen form) (q - delimiterLen form)
  have hwhole : ∀ problem, ∀ d ∈ [(⟨problem, p, q⟩ : Diagnostic)], d.Within p q := by
    intro problem d hd
    rw [List.mem_singleton.1 hd]
    exact ⟨Nat.le_refl p, by simp only; omega, Nat.le_refl q⟩
  unfold literalProblems literalValue
  rw [checkedAdd_eq_ok (by omega), except_ok_bind, checkedSub_eq_ok (by omega), except_ok_bind]
  obtain ⟨reading, hread, hwithin⟩ := Escape.read_returns form
    (s.slice (p + delimiterLen form) (q - delimiterLen form)) (p + delimiterLen form) (by omega)
  simp only [hread, except_ok_bind, except_pure]
  split
  · split
    · exact .ok (hwhole _)
    · exact .ok fun d hd => by cases hd
    · exact .ok (hwhole _)
  · exact .ok fun d hd => (hwithin d hd).mono (by omega) (by omega)

theorem numberProblems_within {form : NumberForm} (hlt : p < q) :
    ∀ d ∈ s.numberProblems form p q, d.Within p q := by
  intro d hd
  unfold numberProblems at hd
  split at hd
  · rw [List.mem_singleton.1 hd]
    exact ⟨Nat.le_refl p, hlt, Nat.le_refl q⟩
  · cases hd

theorem lookAhead_returns (hfit : s.len ≤ maxOffset) (hp : p ≤ s.len) :
    Returns (s.lookAhead p) (fun _ => True) := by
  fun_induction lookAhead s p with
  | case1 p hlt ih =>
      obtain ⟨⟨tag, len, hpos⟩, hscan, hlexed⟩ := scan_of_lt_len hfit hlt
      have hle := hlexed.reach.le_len
      rw [hscan, except_ok_bind]
      simp only
      split
      · exact ih len hpos hle
      · rw [checkedAdd_eq_ok (Nat.le_trans hle hfit), except_ok_bind]
        exact .ok trivial
  | case2 p hlt => exact .ok trivial

end Source

namespace StatementState

def Bounded (st : StatementState) (n : Nat) : Prop :=
  ∀ block ∈ st.block :: st.outer, block.questions ≤ n

theorem Bounded.mono {st : StatementState} {m n : Nat} (h : st.Bounded m) (hle : m ≤ n) :
    st.Bounded n := fun block hb => Nat.le_trans (h block hb) hle

theorem Bounded.of_block {st st' : StatementState} {n : Nat} (h : st.Bounded n)
    (hblock : st'.block.questions ≤ n) (houter : st'.outer = st.outer) : st'.Bounded n := by
  intro block hb
  rcases List.mem_cons.1 hb with rfl | hb
  · exact hblock
  · exact h block (List.mem_cons_of_mem _ (houter ▸ hb))

/-- Only the question mark of a conditional makes a block wait for one colon more. -/
theorem after_bounded {st : StatementState} {n : Nat} (h : st.Bounded n) {event : StatementEvent}
    (hn : event = .question → n < maxOffset) :
    Returns (st.after event) (fun st' => st'.Bounded (n + [event].count .question)) := by
  have hcurrent : st.block.questions ≤ n := h st.block List.mem_cons_self
  cases event with
  | operand => exact .ok h
  | keyword word => exact .ok (h.of_block hcurrent rfl)
  | question =>
      have hmax : st.block.questions + 1 ≤ maxOffset := by
        have := hn rfl
        omega
      simp only [after, question, checkedAdd_eq_ok hmax, except_ok_bind, except_pure]
      exact .ok ((h.mono (Nat.le_succ n)).of_block (Nat.succ_le_succ hcurrent) rfl)
  | colon =>
      rcases st.colon_cases with ⟨-, hcolon⟩ | ⟨-, -, hcolon⟩ | ⟨-, -, hcolon⟩
      · exact ⟨_, hcolon, h.of_block (Nat.le_trans (Nat.sub_le _ 1) hcurrent) rfl⟩
      · exact ⟨_, hcolon, h.of_block hcurrent rfl⟩
      · exact ⟨_, hcolon, h.of_block hcurrent rfl⟩
  | arrow => exact .ok (h.of_block hcurrent rfl)
  | openBrace =>
      refine .ok ?_
      intro block hb
      rcases List.mem_cons.1 hb with rfl | hb
      · exact Nat.zero_le _
      · exact h block hb
  | closeBrace =>
      refine .ok ?_
      intro block hb
      simp only [closeBrace] at hb
      cases houter : st.outer with
      | nil =>
          simp only [houter, List.headD_nil, List.tail_nil, List.mem_singleton] at hb
          rw [hb]
          exact Nat.zero_le _
      | cons top rest =>
          simp only [houter, List.headD_cons, List.tail_cons] at hb
          exact h block (by rw [houter]; exact List.mem_cons_of_mem _ hb)
  | semicolon => exact .ok (h.of_block (Nat.zero_le _) rfl)

theorem after_returns {st : StatementState} {n : Nat} (h : st.Bounded n) (hn : n < maxOffset)
    (event : StatementEvent) : Returns (st.after event) (fun st' => st'.Bounded (n + 1)) :=
  (after_bounded h fun _ => hn).mono fun _ hlater =>
    hlater.mono (Nat.add_le_add_left List.count_le_length n)

end StatementState

theorem Config.mem_keep {config : Config} {stored : Array Diagnostic} {problems : List Diagnostic}
    {d : Diagnostic} (h : d ∈ config.keep stored problems) : d ∈ stored ∨ d ∈ problems := by
  induction problems generalizing stored with
  | nil => exact .inl h
  | cons first rest ih =>
      rcases ih h with h | h
      · simp only at h
        split at h
        · rcases Array.mem_push.1 h with h | rfl
          · exact .inl h
          · exact .inr List.mem_cons_self
        · exact .inl h
      · exact .inr (List.mem_cons_of_mem _ h)

/-- What holds of the classifier at an offset: it counts no more conditionals than bytes, and its
diagnostics concern bytes before the offset. -/
structure Classifier.Sound (state : Classifier) (pos : Nat) : Prop where
  bounded : state.statement.Bounded pos
  within : ∀ d ∈ state.diagnostics, d.Within 0 pos

theorem Classifier.Sound.mono {state : Classifier} {p q : Nat} (h : state.Sound p) (hle : p ≤ q) :
    state.Sound q :=
  ⟨h.bounded.mono hle, fun d hd => (h.within d hd).mono (Nat.le_refl 0) hle⟩

theorem Verdict.settle_returns {v : Verdict} {config : Config} {state : Classifier}
    {typeArgument : Bool} {start stop : Nat} (hstate : state.Sound start) (hlt : start < stop)
    (hfit : stop ≤ maxOffset) (hproblems : ∀ d ∈ v.problems, d.Within start stop) :
    Returns (v.settle config state typeArgument) (fun found => found.state.Sound stop) := by
  have hwithin : ∀ d ∈ config.keep state.diagnostics v.problems, d.Within 0 stop := by
    intro d hd
    rcases Config.mem_keep hd with hd | hd
    · exact (hstate.within d hd).mono (Nat.le_refl 0) (Nat.le_of_lt hlt)
    · exact (hproblems d hd).mono (Nat.zero_le _) (Nat.le_refl _)
  unfold settle
  cases v.event with
  | none => exact .ok ⟨hstate.bounded.mono (Nat.le_of_lt hlt), hwithin⟩
  | some event =>
      have hafter := StatementState.after_returns hstate.bounded (by omega) event
      refine hafter.bind fun st _ hst => .ok ⟨hst.mono hlt, hwithin⟩

namespace Lexer

variable {lexer : Lexer} {state : Classifier} {start stop : Nat}

theorem judgeWord_returns (hfit : lexer.source.len ≤ maxOffset) (hstop : stop ≤ lexer.source.len)
    (text : String) :
    Returns (lexer.judgeWord state text stop) (fun v => v.problems = []) := by
  unfold judgeWord
  split
  · exact .ok rfl
  · split
    · refine (Source.lookAhead_returns hfit hstop).bind ?_
      intro next _ _
      split <;> exact .ok rfl
    · exact .ok rfl

theorem judgeQuestion_returns (hfit : lexer.source.len ≤ maxOffset)
    (hstop : stop ≤ lexer.source.len) :
    Returns (lexer.judgeQuestion state stop) (fun v => v.problems = []) := by
  unfold judgeQuestion
  split
  · obtain ⟨next, hnext, -⟩ := Source.lookAhead_returns hfit hstop
    rw [hnext]
    exact .ok rfl
  · exact .ok rfl

theorem judge_returns {tag : Tag} (hfit : lexer.source.len ≤ maxOffset)
    (hlexed : lexer.source.Lexed start tag stop) :
    Returns (lexer.judge state tag start stop stop)
      (fun v => ∀ d ∈ v.problems, d.Within start stop) := by
  have hstop := hlexed.reach.le_len
  have hnone : ∀ v : Verdict, v.problems = [] → ∀ d ∈ v.problems, d.Within start stop := by
    intro v hv d hd
    rw [hv] at hd
    cases hd
  have hwhole : ∀ problem, ∀ d ∈ [(⟨problem, start, stop⟩ : Diagnostic)],
      d.Within start stop := by
    intro problem d hd
    rw [List.mem_singleton.1 hd]
    exact ⟨Nat.le_refl _, hlexed.lt, Nat.le_refl _⟩
  cases tag with
  | word => exact (judgeWord_returns hfit hstop _).mono hnone
  | number form => exact .ok (Source.numberProblems_within hlexed.lt)
  | quoted form =>
      refine (Source.literalProblems_returns hlexed.spells (Nat.le_trans hstop hfit)).bind ?_
      exact fun problems _ hproblems => .ok hproblems
  | operator op =>
      cases op with
      | question => exact (judgeQuestion_returns hfit hstop).mono hnone
      | _ => exact .ok (hnone _ rfl)
  | separator sep => exact .ok (hnone _ rfl)
  | blank => exact .ok (hnone _ rfl)
  | newline => exact .ok (hnone _ rfl)
  | comment form => exact .ok (hnone _ rfl)
  | invalidChar => exact .ok (hwhole _)
  | unterminated form => exact .ok (hwhole _)
  | unterminatedComment => exact .ok (hwhole _)
  | interiorNull => exact .ok (hwhole _)
  | endOfText => exact hlexed.spells.elim

theorem judgeAt_within (hlt : start < stop) (sign : AtSign) :
    ∀ d ∈ (judgeAt sign start stop).problems, d.Within start stop := by
  intro d hd
  unfold judgeAt at hd
  split at hd
  · cases hd
  · cases hd
  · cases hd
  · rw [List.mem_singleton.1 hd]
    exact ⟨Nat.le_refl _, hlt, Nat.le_refl _⟩

theorem classifySegment_returns {segment : Segment} (hfit : lexer.source.len ≤ maxOffset)
    (hstart : start ≤ lexer.source.len) (hcut : lexer.Cut start segment)
    (hstate : state.Sound start) :
    Returns (lexer.classifySegment state segment.shape start (start + segment.len))
      (fun found => found.state.Sound (start + segment.len)) := by
  have hlt : start < start + segment.len := Nat.lt_add_of_pos_right segment.len_pos
  have hmax : start + segment.len ≤ maxOffset :=
    Nat.le_trans (hcut.row.reach hfit hstart).le_len hfit
  have hshaped := hcut.shaped
  cases hshape : segment.shape with
  | blanks => exact .ok (hstate.mono (Nat.le_of_lt hlt))
  | marked sign => exact Verdict.settle_returns hstate hlt hmax (judgeAt_within hlt sign)
  | single tag =>
      rw [hshape] at hshaped
      refine (judge_returns hfit hshaped.1).bind ?_
      intro v _ hv
      exact Verdict.settle_returns hstate hlt hmax hv

end Lexer

end JavaLex
