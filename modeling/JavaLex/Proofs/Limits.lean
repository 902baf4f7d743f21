import JavaLex.Proofs.Shifting
import JavaLex.Proofs.Totality

/-! A limit on diagnostics holds back the later ones and changes nothing else. No verdict depends on
how many diagnostics are stored, so that a run with a limit is the run without one, less the
diagnostics behind the first ones. -/

namespace JavaLex

theorem Config.keep_of_limited {config : Config} {stored : Array Diagnostic}
    {all problems : List Diagnostic} (hlimit : 0 < config.errorLimit)
    (h : stored.toList = all.take config.errorLimit) :
    (config.keep stored problems).toList = (all ++ problems).take config.errorLimit := by
  induction problems generalizing stored all with
  | nil =>
      rw [List.append_nil]
      exact h
  | cons d rest ih =>
      have hsize : stored.size = min config.errorLimit all.length := by
        rw [← Array.length_toList, h, List.length_take]
      have hroom : config.hasRoom stored.size = decide (all.length < config.errorLimit) := by
        rw [hasRoom, beq_eq_false_iff_ne.2 (Nat.ne_of_gt hlimit), Bool.false_or, hsize]
        apply decide_eq_decide.2
        omega
      have hstep : (if config.hasRoom stored.size then stored.push d else stored).toList =
          (all ++ [d]).take config.errorLimit := by
        rw [hroom]
        by_cases hlt : all.length < config.errorLimit
        · rw [decide_eq_true hlt, if_pos rfl, Array.toList_push, h,
            List.take_of_length_le (Nat.le_of_lt hlt), List.take_of_length_le]
          rw [List.length_append, List.length_singleton]
          exact hlt
        · rw [decide_eq_false hlt, if_neg Bool.false_ne_true, h,
            List.take_append_of_le_length (Nat.not_lt.1 hlt)]
      have hrest := ih hstep
      rw [List.append_assoc, List.singleton_append] at hrest
      exact hrest

/-- The same text read with another limit. -/
def Lexer.limited (lexer : Lexer) (limit : Nat) : Lexer :=
  { lexer with config := { lexer.config with errorLimit := limit } }

/-- Two streams at the same place that know the same, one of which has kept the first diagnostics
of the other. -/
structure Stream.Truncates (limit : Nat) (full kept : Stream) : Prop where
  pos : kept.pos = full.pos
  statement : kept.state.statement = full.state.statement
  typeArgument : kept.state.typeArgument = full.state.typeArgument
  diagnostics : kept.state.diagnostics.toList = full.state.diagnostics.toList.take limit

namespace Lexer

variable {lexer : Lexer} {limit : Nat} {full kept mid final : Stream} {token : Token}
  {tokens : List Token}

/-- Verdicts do not take notice of diagnostics, nor of the limit. -/
theorem judge_limited (statement : StatementState) (typeArgument : Bool)
    (stored stored' : Array Diagnostic) (tag : Tag) (start stop ahead : Nat) :
    (lexer.limited limit).judge ⟨statement, typeArgument, stored⟩ tag start stop ahead =
      lexer.judge ⟨statement, typeArgument, stored'⟩ tag start stop ahead := by
  cases tag with
  | operator op => cases op <;> rfl
  | _ => rfl

theorem settle_limited {v : Verdict} {typeArgument : Bool} {found : Classified} {stop : Nat}
    (hlimit : 0 < limit) (h : Stream.Truncates limit full kept)
    (hfound : v.settle (lexer.limited 0).config full.state typeArgument = .ok found) :
    ∃ state, v.settle (lexer.limited limit).config kept.state typeArgument =
        .ok ⟨found.kind, found.flags, state⟩ ∧
      Stream.Truncates limit ⟨stop, found.state⟩ ⟨stop, state⟩ := by
  have hkeep : ((lexer.limited limit).config.keep kept.state.diagnostics v.problems).toList =
      ((lexer.limited 0).config.keep full.state.diagnostics v.problems).toList.take limit := by
    have hunlimited : (lexer.limited 0).config.errorLimit = 0 := rfl
    rw [Config.keep_of_unlimited hunlimited, Array.toList_append]
    exact Config.keep_of_limited hlimit h.diagnostics
  unfold Verdict.settle at hfound ⊢
  rw [h.statement]
  cases hevent : v.event with
  | none =>
      rw [hevent] at hfound
      cases hfound
      exact ⟨_, rfl, rfl, rfl, rfl, hkeep⟩
  | some event =>
      rw [hevent] at hfound
      obtain ⟨statement, hstatement, hfound⟩ := bind_eq_ok hfound
      cases hfound
      simp only [hstatement]
      exact ⟨_, rfl, rfl, rfl, rfl, hkeep⟩

theorem classifySegment_limited {shape : Shape} {start stop : Nat} {found : Classified}
    (hlimit : 0 < limit) (h : Stream.Truncates limit full kept)
    (hfound : (lexer.limited 0).classifySegment full.state shape start stop = .ok found) :
    ∃ state, (lexer.limited limit).classifySegment kept.state shape start stop =
        .ok ⟨found.kind, found.flags, state⟩ ∧
      Stream.Truncates limit ⟨stop, found.state⟩ ⟨stop, state⟩ := by
  cases shape with
  | blanks =>
      cases hfound
      exact ⟨_, rfl, rfl, h.statement, h.typeArgument, h.diagnostics⟩
  | marked sign =>
      simp only [classifySegment, classifyAt, h.typeArgument] at hfound ⊢
      exact settle_limited hlimit h hfound
  | single tag =>
      obtain ⟨v, hv, hfound⟩ := bind_eq_ok hfound
      have hv' : (lexer.limited limit).judge kept.state tag start stop stop = .ok v := by
        obtain ⟨pos, statement, typeArgument, stored⟩ := kept
        obtain ⟨pos', statement', typeArgument', stored'⟩ := full
        cases h.statement
        cases h.typeArgument
        exact (judge_limited _ _ _ stored' _ _ _ _).trans hv
      simp only [classifySegment, classify, hv', except_ok_bind, h.typeArgument]
      exact settle_limited hlimit h hfound

theorem next_limited (hlimit : 0 < limit) (h : Stream.Truncates limit full kept)
    (hnext : (lexer.limited 0).next full = .ok (some (token, mid))) :
    ∃ mid', (lexer.limited limit).next kept = .ok (some (token, mid')) ∧
      Stream.Truncates limit mid mid' := by
  obtain ⟨segment, hsegment, hemit, hpos⟩ := next_inv hnext
  obtain ⟨found, hfound, hfits, hemit⟩ := emit_inv hemit
  obtain ⟨pos, state⟩ := mid
  cases hpos
  cases hemit
  have hsegment' : (lexer.limited limit).segmentAt full.pos = .ok (some segment) := hsegment
  obtain ⟨state, hstate, htruncates⟩ := classifySegment_limited hlimit h hfound
  refine ⟨⟨full.pos + segment.len, state⟩, ?_, htruncates⟩
  rw [← h.pos] at hsegment' hfits hstate ⊢
  exact next_eq_ok hsegment' hfits hstate

theorem next_limited_none (h : Stream.Truncates limit full kept)
    (hnext : (lexer.limited 0).next full = .ok none) :
    (lexer.limited limit).next kept = .ok none := by
  have hsegment : (lexer.limited limit).segmentAt full.pos = .ok none := by
    obtain ⟨found, hfound, hnext⟩ := bind_eq_ok hnext
    cases found with
    | none => exact hfound
    | some segment =>
        obtain ⟨r, -, hnext⟩ := bind_eq_ok hnext
        cases hnext
  rw [next, h.pos, hsegment]
  rfl

theorem take_truncates {n : Nat} (hlimit : 0 < limit) (h : Stream.Truncates limit full kept)
    (htake : (lexer.limited 0).take full n = .ok (tokens, final)) :
    ∃ final', (lexer.limited limit).take kept n = .ok (tokens, final') ∧
      Stream.Truncates limit final final' := by
  induction n generalizing full kept tokens with
  | zero =>
      cases htake
      exact ⟨kept, rfl, h⟩
  | succ n ih =>
      obtain ⟨found, hnext, htake⟩ := bind_eq_ok htake
      cases found with
      | none =>
          cases htake
          refine ⟨kept, ?_, h⟩
          rw [take, next_limited_none h hnext]
          rfl
      | some pulled =>
          obtain ⟨token, mid⟩ := pulled
          obtain ⟨⟨later, last⟩, hlater, htake⟩ := bind_eq_ok htake
          cases htake
          obtain ⟨mid', hnext', hmid⟩ := next_limited hlimit h hnext
          obtain ⟨final', hlater', hfinal⟩ := ih hmid hlater
          refine ⟨final', ?_, hfinal⟩
          simp only [take, hnext', except_ok_bind, hlater', except_pure]

/-- However many tokens are pulled, they are the same with every limit, and what a limit keeps is
the first part of all diagnostics so far. -/
theorem take_limited (lexer : Lexer) (hfit : lexer.source.len ≤ maxOffset) (n : Nat) :
    ∃ tokens full, (lexer.limited 0).take {} n = .ok (tokens, full) ∧
      ∀ limit, ∃ kept, (lexer.limited limit).take {} n = .ok (tokens, kept) ∧
        kept.pos = full.pos ∧
        kept.state.diagnostics.toList =
          if limit = 0 then full.state.diagnostics.toList
          else full.state.diagnostics.toList.take limit := by
  obtain ⟨tokens, final, -, hpulls, hend, -⟩ := @exists_drain (lexer.limited 0) hfit
  obtain ⟨full, htake, -, -⟩ := hpulls.exists_take hend n
  refine ⟨_, full, htake, ?_⟩
  intro limit
  rcases Nat.eq_zero_or_pos limit with rfl | hlimit
  · exact ⟨full, htake, rfl, rfl⟩
  · have hstart : Stream.Truncates limit {} {} := ⟨rfl, rfl, rfl, List.take_nil.symm⟩
    obtain ⟨kept, hkept, htruncates⟩ := take_truncates hlimit hstart htake
    refine ⟨kept, hkept, htruncates.pos, ?_⟩
    rw [if_neg (Nat.ne_of_gt hlimit)]
    exact htruncates.diagnostics

/-- One string has three bad escapes, and the limit falls between them. The number behind it is
flagged all the same. -/
theorem take_limited_inside :
    Source.len ⟨"\"\\q\\w\\z\"0x"⟩ ≤ maxOffset ∧
      ∃ full kept,
        take ⟨⟨"\"\\q\\w\\z\"0x"⟩, {}⟩ {} 2 = .ok
          ([⟨.stringLiteral, "\"\\q\\w\\z\"", 0, 8, { hasError := true }⟩,
            ⟨.numberLiteral, "0x", 8, 10, { hasError := true }⟩], full) ∧
        take ⟨⟨"\"\\q\\w\\z\"0x"⟩, { errorLimit := 2 }⟩ {} 2 = .ok
          ([⟨.stringLiteral, "\"\\q\\w\\z\"", 0, 8, { hasError := true }⟩,
            ⟨.numberLiteral, "0x", 8, 10, { hasError := true }⟩], kept) ∧
        full.state.diagnostics.size = 4 ∧
        kept.state.diagnostics.toList =
          [⟨.invalidEscape 'q', 1, 3⟩, ⟨.invalidEscape 'w', 3, 5⟩] := by
  have hall : (take ⟨⟨"\"\\q\\w\\z\"0x"⟩, {}⟩ {} 2).map
      (fun r => (r.1, r.2.state.diagnostics.toList)) = .ok
      ([⟨.stringLiteral, "\"\\q\\w\\z\"", 0, 8, { hasError := true }⟩,
        ⟨.numberLiteral, "0x", 8, 10, { hasError := true }⟩],
        [⟨.invalidEscape 'q', 1, 3⟩, ⟨.invalidEscape 'w', 3, 5⟩, ⟨.invalidEscape 'z', 5, 7⟩,
          ⟨.malformedNumber "hexadecimal literal has no digits", 8, 10⟩]) := by decide +kernel
  obtain ⟨tokens, full, htake, hlimited⟩ :=
    take_limited ⟨⟨"\"\\q\\w\\z\"0x"⟩, {}⟩ (by decide) 2
  obtain ⟨kept, hkept, -, hfirst⟩ := hlimited 2
  have hfull : take ⟨⟨"\"\\q\\w\\z\"0x"⟩, {}⟩ {} 2 = .ok (tokens, full) := htake
  rw [hfull] at hall
  obtain ⟨rfl, hdiagnostics⟩ := Prod.mk.inj (Except.ok.inj hall)
  refine ⟨by decide, full, kept, htake, hkept, ?_, ?_⟩
  · rw [← Array.length_toList, hdiagnostics]
    rfl
  · rw [hfirst, hdiagnostics]
    rfl

end Lexer

end JavaLex
