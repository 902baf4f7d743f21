import Mathlib.Data.List.Forall2
import JavaLex.Proofs.Kinds
import JavaLex.Proofs.Shifting

/-! One lexeme at two places. What is found out about it is the same at both, and its problems
stand at the same offsets from where it starts. -/

namespace JavaLex

namespace Source

variable {s t : Source} {p q : Nat} {text : String}

theorem slice?_of_slice? {i j : Nat} (h : s.slice? p q = some text) (hj : j ≤ text.utf8ByteSize) :
    s.slice? (i + p) (j + p) = slice? ⟨text⟩ i j := by
  obtain ⟨a, b, hs, rfl, -⟩ := slice?_eq_some_iff.1 h
  have hsource : s = ⟨a ++ (text ++ b)⟩ := by rw [← hs]
  rw [hsource, slice?_append_right, slice?_append_left hj]

theorem slice_of_slice? {i j : Nat} (h : s.slice? p q = some text) (hj : j ≤ text.utf8ByteSize) :
    s.slice (i + p) (j + p) = slice ⟨text⟩ i j := by
  rw [slice, slice?_of_slice? h hj, slice]

theorem size_of_slice? (h : s.slice? p q = some text) : text.utf8ByteSize + p = q := by
  obtain ⟨_, _, -, -, hsize⟩ := slice?_eq_some_iff.1 h
  rw [Nat.add_comm, hsize]

theorem slice_zero_size (text : String) : slice ⟨text⟩ 0 text.utf8ByteSize = text := by
  rw [slice, show text.utf8ByteSize = len ⟨text⟩ from rfl, slice?_zero_len, Option.getD_some]

theorem numberProblems_of_slice? (form : NumberForm) (h : s.slice? p q = some text) :
    s.numberProblems form p q =
      (numberProblems ⟨text⟩ form 0 text.utf8ByteSize).map (Diagnostic.shift p) := by
  simp only [numberProblems, slice_zero_size]
  rw [slice, h, Option.getD_some]
  split
  · rw [List.map_singleton, Diagnostic.shift, Nat.zero_add, size_of_slice? h]
  · rfl

theorem literalProblems_of_slice? {form : QuoteForm} (h : s.slice? p q = some text)
    (hlong : p + 2 * delimiterLen form ≤ q) (hfit : q ≤ maxOffset) :
    Returns (literalProblems ⟨text⟩ form 0 text.utf8ByteSize) fun problems =>
      s.literalProblems form p q = .ok (problems.map (Diagnostic.shift p)) := by
  have hsize := size_of_slice? h
  obtain ⟨problems, hproblems, -⟩ :=
    @literalProblems_returns ⟨text⟩ 0 text.utf8ByteSize form (by omega) (by omega)
  have hshift := literalProblems_shift (slice_of_slice? h (Nat.sub_le _ _)) (by omega) (by omega)
    hproblems
  rw [Nat.zero_add, hsize] at hshift
  exact ⟨problems, hproblems, hshift⟩

/-- A lexeme of one source that another source repeats, with the same behind it. -/
structure Echoes (s t : Source) (tag : Tag) (text : String) (start stop start' stop' : Nat) :
    Prop where
  lexed : s.Lexed start tag stop
  lexed_right : t.Lexed start' tag stop'
  slice : s.slice? start stop = some text
  slice_right : t.slice? start' stop' = some text
  ahead : t.lookAhead stop' = s.lookAhead stop

end Source

/-- Two classifiers that differ in their diagnostics alone. -/
structure Classifier.Alike (R : Diagnostic → Diagnostic → Prop) (state state' : Classifier) :
    Prop where
  statement : state'.statement = state.statement
  typeArgument : state'.typeArgument = state.typeArgument
  diagnostics : List.Forall₂ R state.diagnostics.toList state'.diagnostics.toList

theorem Config.forall₂_keep {R : Diagnostic → Diagnostic → Prop} {config : Config}
    {stored stored' : Array Diagnostic} {problems problems' : List Diagnostic}
    (hstored : List.Forall₂ R stored.toList stored'.toList)
    (hproblems : List.Forall₂ R problems problems') :
    List.Forall₂ R (config.keep stored problems).toList (config.keep stored' problems').toList := by
  induction hproblems generalizing stored stored' with
  | nil => exact hstored
  | cons hfirst _ ih =>
      have hsize : stored.size = stored'.size := hstored.length_eq
      apply ih
      simp only [hsize]
      split
      · rw [Array.toList_push, Array.toList_push]
        exact List.rel_append hstored (.cons hfirst .nil)
      · exact hstored

section

variable {R : Diagnostic → Diagnostic → Prop} {state state' : Classifier} {start start' : Nat}

theorem Verdict.settle_alike {v : Verdict} {config : Config} {typeArgument : Bool}
    {found : Classified} (halike : state.Alike R state')
    (hproblems : ∀ d ∈ v.problems, R (d.shift start) (d.shift start'))
    (h : (v.shift start).settle config state typeArgument = .ok found) :
    ∃ found', (v.shift start').settle config state' typeArgument = .ok found' ∧
      found'.kind = found.kind ∧ found'.flags = found.flags ∧
      found.state.Alike R found'.state := by
  have hpairs : List.Forall₂ R (v.shift start).problems (v.shift start').problems := by
    apply List.forall₂_map_left_iff.2
    apply List.forall₂_map_right_iff.2
    exact List.forall₂_same.2 hproblems
  have hkeep : List.Forall₂ R (config.keep state.diagnostics (v.shift start).problems).toList
      (config.keep state'.diagnostics (v.shift start').problems).toList :=
    Config.forall₂_keep halike.diagnostics hpairs
  have hempty : (v.shift start').problems.isEmpty = (v.shift start).problems.isEmpty := by
    simp only [shift, List.isEmpty_map]
  unfold settle at h ⊢
  rw [halike.statement, hempty]
  have hevent : (v.shift start').event = (v.shift start).event := rfl
  rw [hevent]
  cases he : (v.shift start).event with
  | none =>
      rw [he] at h
      cases h
      exact ⟨_, rfl, rfl, rfl, rfl, rfl, hkeep⟩
  | some event =>
      rw [he] at h
      obtain ⟨statement, hstatement, h⟩ := bind_eq_ok h
      cases h
      simp only [hstatement]
      exact ⟨_, rfl, rfl, rfl, rfl, rfl, hkeep⟩

end

namespace Lexer

section

variable {s t : Source} {tag : Tag} {text : String} {start stop start' stop' : Nat}
  {config : Config} {state state' : Classifier} {R : Diagnostic → Diagnostic → Prop}
  (h : s.Echoes t tag text start stop start' stop')

include h

theorem judgeWord_echo (halike : state.Alike R state') (word : String) :
    judgeWord ⟨t, config⟩ state' word stop' = judgeWord ⟨s, config⟩ state word stop := by
  unfold judgeWord
  rw [halike.statement, h.ahead]

theorem judgeQuestion_echo (halike : state.Alike R state') :
    judgeQuestion ⟨t, config⟩ state' stop' = judgeQuestion ⟨s, config⟩ state stop := by
  unfold judgeQuestion
  rw [halike.typeArgument, h.ahead]

theorem judge_echo (hfit : s.len ≤ maxOffset) (hfit' : t.len ≤ maxOffset)
    (halike : state.Alike R state') :
    ∃ v : Verdict, judge ⟨s, config⟩ state tag start stop stop = .ok (v.shift start) ∧
      judge ⟨t, config⟩ state' tag start' stop' stop' = .ok (v.shift start') := by
  have hslice : s.slice start stop = text := by rw [Source.slice, h.slice, Option.getD_some]
  have hslice' : t.slice start' stop' = text := by
    rw [Source.slice, h.slice_right, Option.getD_some]
  have hstop := Source.size_of_slice? h.slice
  have hstop' := Source.size_of_slice? h.slice_right
  have hle := h.lexed.reach.le_len
  have hle' := h.lexed_right.reach.le_len
  have hfree : ∀ v : Verdict, v.problems = [] →
      judge ⟨s, config⟩ state tag start stop stop = .ok v →
      judge ⟨t, config⟩ state' tag start' stop' stop' = .ok v →
      ∃ v : Verdict, judge ⟨s, config⟩ state tag start stop stop = .ok (v.shift start) ∧
        judge ⟨t, config⟩ state' tag start' stop' stop' = .ok (v.shift start') := by
    intro v hnone hv hv'
    refine ⟨v, ?_, ?_⟩
    · rw [Verdict.shift_of_nil hnone, hv]
    · rw [Verdict.shift_of_nil hnone, hv']
  have hwhole : ∀ kind flags event problem,
      judge ⟨s, config⟩ state tag start stop stop =
        .ok ⟨kind, flags, event, [⟨problem, start, stop⟩]⟩ →
      judge ⟨t, config⟩ state' tag start' stop' stop' =
        .ok ⟨kind, flags, event, [⟨problem, start', stop'⟩]⟩ →
      ∃ v : Verdict, judge ⟨s, config⟩ state tag start stop stop = .ok (v.shift start) ∧
        judge ⟨t, config⟩ state' tag start' stop' stop' = .ok (v.shift start') := by
    intro kind flags event problem hv hv'
    refine ⟨⟨kind, flags, event, [⟨problem, 0, text.utf8ByteSize⟩]⟩, ?_, ?_⟩
    · simp only [hv, Verdict.shift, List.map_singleton, Diagnostic.shift, Nat.zero_add, hstop]
    · simp only [hv', Verdict.shift, List.map_singleton, Diagnostic.shift, Nat.zero_add, hstop']
  cases tag with
  | word =>
      obtain ⟨v, hv, hnone⟩ := @judgeWord_returns ⟨s, config⟩ state stop hfit hle text
      apply hfree v hnone
      · rw [judge, hslice, hv]
      · rw [judge, hslice', judgeWord_echo h halike, hv]
  | number form =>
      refine ⟨{ kind := .numberLiteral, event := some .operand,
                problems := Source.numberProblems ⟨text⟩ form 0 text.utf8ByteSize }, ?_, ?_⟩
      · rw [judge, Source.numberProblems_of_slice? form h.slice]
        rfl
      · rw [judge, Source.numberProblems_of_slice? form h.slice_right]
        rfl
  | quoted form =>
      obtain ⟨problems, hproblems, hs⟩ :=
        Source.literalProblems_of_slice? h.slice h.lexed.spells (Nat.le_trans hle hfit)
      obtain ⟨problems', hproblems', ht⟩ :=
        Source.literalProblems_of_slice? h.slice_right h.lexed_right.spells
          (Nat.le_trans hle' hfit')
      rw [hproblems] at hproblems'
      cases hproblems'
      refine ⟨{ kind := form.kind, flags := { textBlock := form == .textBlock },
                event := some .operand, problems }, ?_, ?_⟩
      · rw [judge, hs]
        rfl
      · rw [judge, ht]
        rfl
  | unterminated form => exact hwhole _ _ _ _ rfl rfl
  | unterminatedComment =>
      apply hwhole .comment
        { unterminated := true, docComment := ['/', '*', '*'].isPrefixOf text.toList } none
        .unterminatedComment
      · rw [judge, hslice]
        rfl
      · rw [judge, hslice']
        rfl
  | operator op =>
      cases op with
      | question =>
          obtain ⟨v, hv, hnone⟩ := @judgeQuestion_returns ⟨s, config⟩ state stop hfit hle
          exact hfree v hnone hv ((judgeQuestion_echo h halike).trans hv)
      | colon =>
          apply hfree (judgeColon state) rfl rfl
          rw [judge, judgeColon, judgeColon, halike.statement]
          rfl
      | _ => exact hfree _ rfl rfl rfl
  | invalidChar | interiorNull =>
      apply hwhole .unknown {} (some .operand)
        (.unrecognizedCharacter (text.toList.headD '\x00'))
      · rw [judge, hslice]
        rfl
      · rw [judge, hslice']
        rfl
  | endOfText => exact h.lexed.spells.elim
  | _ => exact hfree _ rfl rfl rfl

theorem classify_echo (hfit : s.len ≤ maxOffset) (hfit' : t.len ≤ maxOffset)
    (halike : state.Alike R state')
    (hR : ∀ d : Diagnostic, d.stop ≤ text.utf8ByteSize → R (d.shift start) (d.shift start'))
    {found : Classified} (hfound : classify ⟨s, config⟩ state tag start stop stop = .ok found) :
    ∃ found', classify ⟨t, config⟩ state' tag start' stop' stop' = .ok found' ∧
      found'.kind = found.kind ∧ found'.flags = found.flags ∧
      found.state.Alike R found'.state := by
  obtain ⟨v, hv, hv'⟩ := judge_echo h hfit hfit' halike
  have hstop := Source.size_of_slice? h.slice
  have hproblems : ∀ d ∈ v.problems, R (d.shift start) (d.shift start') := by
    intro d hd
    have hwithin := (judge_returns hfit h.lexed).of_eq_ok hv _ (List.mem_map_of_mem hd)
    have hle := hwithin.le_stop
    simp only [Diagnostic.shift] at hle
    exact hR d (by omega)
  unfold classify at hfound ⊢
  rw [hv, except_ok_bind] at hfound
  rw [hv', except_ok_bind, halike.typeArgument]
  exact Verdict.settle_alike halike hproblems hfound

end

end Lexer

end JavaLex
