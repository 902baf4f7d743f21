import JavaLex.Proofs.Pulling
import JavaLex.Proofs.SegmentAgreement

/-! Classifying the same lexemes at another place of another text. Tokens and diagnostics are found
with their offsets moved; what was found before stays in front. -/

namespace JavaLex

def Diagnostic.shift (d : Nat) (problem : Diagnostic) : Diagnostic :=
  { problem with start := problem.start + d, stop := problem.stop + d }

def Token.shift (d : Nat) (token : Token) : Token :=
  { token with start := token.start + d, stop := token.stop + d }

def Verdict.shift (d : Nat) (v : Verdict) : Verdict :=
  { v with problems := v.problems.map (Diagnostic.shift d) }

/-- The classifier as it would be `d` bytes later and after `earlier` diagnostics. -/
def Classifier.shift (earlier : Array Diagnostic) (d : Nat) (state : Classifier) : Classifier :=
  { state with diagnostics := earlier ++ state.diagnostics.map (Diagnostic.shift d) }

def Classified.shift (earlier : Array Diagnostic) (d : Nat) (found : Classified) : Classified :=
  { found with state := found.state.shift earlier d }

def Stream.shift (earlier : Array Diagnostic) (d : Nat) (stream : Stream) : Stream :=
  ⟨stream.pos + d, stream.state.shift earlier d⟩

theorem Stream.shift_zero (stream : Stream) : stream.shift #[] 0 = stream := by
  obtain ⟨pos, statement, typeArgument, diagnostics⟩ := stream
  have hid : Diagnostic.shift 0 = id := rfl
  simp only [shift, Classifier.shift, hid, Array.map_id, Array.empty_append, Nat.add_zero]

theorem Verdict.shift_of_nil {d : Nat} {v : Verdict} (h : v.problems = []) : v.shift d = v := by
  obtain ⟨kind, flags, event, problems⟩ := v
  cases h
  rfl

namespace Escape

theorem diagnostics_shift {base offset d : Nat} {found : List (Piece × Nat)}
    {problems : List Diagnostic} (h : diagnostics base offset found = .ok problems)
    (hfit : base + d + (offset + span found) ≤ maxOffset) :
    diagnostics (base + d) offset found = .ok (problems.map (Diagnostic.shift d)) := by
  induction found generalizing offset problems with
  | nil =>
      cases h
      rfl
  | cons entry rest ih =>
      obtain ⟨piece, bytes⟩ := entry
      rw [span, ← Nat.add_assoc offset] at hfit
      simp only at hfit
      rw [diagnostics] at h ⊢
      split at h
      · exact ih h hfit
      · rw [checkedAdd_eq_ok (by omega), except_ok_bind, checkedAdd_eq_ok (by omega),
          except_ok_bind] at h ⊢
        obtain ⟨later, hlater, rfl⟩ := map_eq_ok h
        rw [ih hlater hfit, except_ok_map, List.map_cons, Diagnostic.shift, Nat.add_right_comm,
          Nat.add_right_comm base d]

theorem read_shift {form : QuoteForm} {content : String} {base d : Nat} {reading : Reading}
    (h : read form content base = .ok reading)
    (hfit : base + d + content.utf8ByteSize ≤ maxOffset) :
    read form content (base + d) =
      .ok ⟨reading.value, reading.problems.map (Diagnostic.shift d)⟩ := by
  rw [read_eq] at h ⊢
  split at h
  · rename_i hescape
    obtain ⟨problems, hproblems, h⟩ := bind_eq_ok h
    cases h
    have hspan := (span_pieces form content.toList).1
    rw [width_toList] at hspan
    have hshift := diagnostics_shift (d := d) hproblems (by rw [hspan, Nat.zero_add]; exact hfit)
    rw [if_pos hescape]
    simp only [hshift, except_ok_bind, except_pure]
  · rename_i hescape
    cases h
    rw [if_neg hescape]
    rfl

end Escape

theorem Source.literalProblems_shift {s t : Source} {form : QuoteForm} {p q d : Nat}
    {problems : List Diagnostic}
    (hslice : t.slice (p + delimiterLen form + d) (q - delimiterLen form + d) =
      s.slice (p + delimiterLen form) (q - delimiterLen form))
    (hlong : p + 2 * delimiterLen form ≤ q) (hfit : q + d ≤ maxOffset)
    (hs : s.literalProblems form p q = .ok problems) :
    t.literalProblems form (p + d) (q + d) = .ok (problems.map (Diagnostic.shift d)) := by
  have hsize := s.utf8ByteSize_slice_le (p + delimiterLen form) (q - delimiterLen form)
  have hstop : q + d - delimiterLen form = q - delimiterLen form + d := by omega
  unfold Source.literalProblems Source.literalValue at hs ⊢
  rw [checkedAdd_eq_ok (by omega), except_ok_bind, checkedSub_eq_ok (by omega),
    except_ok_bind] at hs ⊢
  rw [hstop, Nat.add_right_comm, hslice]
  obtain ⟨found, hfound, hs⟩ := bind_eq_ok hs
  obtain ⟨reading, hread, hfound⟩ := bind_eq_ok hfound
  cases hfound
  have hshift := Escape.read_shift (d := d) hread (by omega)
  simp only [hshift, except_ok_bind, except_pure, List.map_eq_nil_iff] at hs ⊢
  split at hs
  · rename_i hchar
    rw [if_pos hchar]
    split at hs
    · cases hs
      rfl
    · cases hs
      rfl
    · cases hs
      rfl
  · rename_i hchar
    cases hs
    rw [if_neg hchar]

namespace Source.ReadsAs

variable {s t : Source} {d hi p q : Nat} (h : s.ReadsAs t d hi)

include h

theorem literalProblems {form : QuoteForm} {problems : List Diagnostic}
    (hlong : p + 2 * delimiterLen form ≤ q) (hq : q ≤ hi)
    (hs : s.literalProblems form p q = .ok problems) :
    t.literalProblems form (p + d) (q + d) = .ok (problems.map (Diagnostic.shift d)) := by
  have hadd := h.add_le_len
  have hmax := h.fit_right
  exact literalProblems_shift (h.slice (by omega)) hlong (by omega) hs

theorem numberProblems {form : NumberForm} (hq : q ≤ hi) :
    t.numberProblems form (p + d) (q + d) =
      (s.numberProblems form p q).map (Diagnostic.shift d) := by
  unfold Source.numberProblems
  rw [h.slice (Nat.le_succ_of_le hq)]
  split <;> rfl

end Source.ReadsAs

theorem Config.keep_of_unlimited {config : Config} (hlimit : config.errorLimit = 0)
    (stored : Array Diagnostic) (problems : List Diagnostic) :
    config.keep stored problems = stored ++ problems.toArray := by
  have hroom : ∀ n, config.hasRoom n = true := by
    intro n
    simp [hasRoom, hlimit]
  unfold keep
  induction problems generalizing stored with
  | nil => simp
  | cons first rest ih =>
      rw [List.foldl_cons, ih, hroom]
      simp

theorem Verdict.settle_shift {v : Verdict} {config : Config} {state : Classifier}
    {typeArgument : Bool} {found : Classified} (hlimit : config.errorLimit = 0)
    (h : v.settle config state typeArgument = .ok found) (earlier : Array Diagnostic) (d : Nat) :
    (v.shift d).settle config (state.shift earlier d) typeArgument =
      .ok (found.shift earlier d) := by
  have hkeep : config.keep (state.shift earlier d).diagnostics (v.shift d).problems =
      earlier ++ (config.keep state.diagnostics v.problems).map (Diagnostic.shift d) := by
    rw [Config.keep_of_unlimited hlimit, Config.keep_of_unlimited hlimit]
    simp [Classifier.shift, Verdict.shift]
  have hflag : (v.shift d).problems.isEmpty = v.problems.isEmpty := List.isEmpty_map
  have hevent : (v.shift d).event = v.event := rfl
  unfold settle at h ⊢
  rw [hkeep, hflag, hevent]
  cases he : v.event with
  | none =>
      rw [he] at h
      cases h
      rfl
  | some event =>
      rw [he] at h
      obtain ⟨statement, hstatement, h⟩ := bind_eq_ok h
      cases h
      have hstatement' : (state.shift earlier d).statement.after event = .ok statement :=
        hstatement
      simp only [hstatement', except_ok_bind]
      rfl

namespace Lexer

variable {s t : Source} {d hi start stop : Nat} {config : Config} {state : Classifier}

theorem judgeAt_shift (sign : AtSign) (start stop d : Nat) :
    judgeAt sign (start + d) (stop + d) = (judgeAt sign start stop).shift d := by
  unfold judgeAt
  split <;> rfl

section

variable (h : s.ReadsAs t d hi) (earlier : Array Diagnostic)

include h

theorem judgeWord_agrees (hrow : s.Row stop hi) (text : String) :
    judgeWord ⟨t, config⟩ (state.shift earlier d) text (stop + d) =
      judgeWord ⟨s, config⟩ state text stop := by
  unfold judgeWord
  rw [h.lookAhead hrow]
  rfl

theorem judgeQuestion_agrees (hrow : s.Row stop hi) :
    judgeQuestion ⟨t, config⟩ (state.shift earlier d) (stop + d) =
      judgeQuestion ⟨s, config⟩ state stop := by
  unfold judgeQuestion
  rw [h.lookAhead hrow]
  rfl

theorem judge_shift {tag : Tag} {v : Verdict} (hlexed : s.Lexed start tag stop)
    (hrow : s.Row stop hi) (hv : judge ⟨s, config⟩ state tag start stop stop = .ok v) :
    judge ⟨t, config⟩ (state.shift earlier d) tag (start + d) (stop + d) (stop + d) =
      .ok (v.shift d) := by
  have hslice : t.slice (start + d) (stop + d) = s.slice start stop :=
    h.slice (Nat.le_succ_of_le hrow.le)
  cases tag with
  | word =>
      have hproblems := (judgeWord_returns h.fit hlexed.reach.le_len _).of_eq_ok hv
      rw [Verdict.shift_of_nil hproblems]
      simp only [judge, hslice]
      rw [judgeWord_agrees h earlier hrow]
      exact hv
  | number form =>
      cases hv
      simp only [judge]
      rw [h.numberProblems hrow.le]
      rfl
  | quoted form =>
      obtain ⟨problems, hproblems, hv⟩ := bind_eq_ok hv
      cases hv
      simp only [judge]
      rw [h.literalProblems hlexed.spells hrow.le hproblems]
      rfl
  | operator op =>
      cases op with
      | question =>
          have hproblems := (judgeQuestion_returns h.fit hlexed.reach.le_len).of_eq_ok hv
          rw [Verdict.shift_of_nil hproblems]
          simp only [judge]
          rw [judgeQuestion_agrees h earlier hrow]
          exact hv
      | _ =>
          cases hv
          rfl
  | endOfText => exact hlexed.spells.elim
  | unterminatedComment =>
      cases hv
      simp only [judge, hslice]
      rfl
  | invalidChar =>
      cases hv
      simp only [judge, hslice]
      rfl
  | interiorNull =>
      cases hv
      simp only [judge, hslice]
      rfl
  | _ =>
      cases hv
      rfl

theorem classifySegment_shift {shape : Shape} {found : Classified}
    (hlimit : config.errorLimit = 0) (hshaped : s.Shaped start stop shape) (hrow : s.Row stop hi)
    (hs : classifySegment ⟨s, config⟩ state shape start stop = .ok found) :
    classifySegment ⟨t, config⟩ (state.shift earlier d) shape (start + d) (stop + d) =
      .ok (found.shift earlier d) := by
  cases shape with
  | blanks =>
      cases hs
      rfl
  | marked sign =>
      simp only [classifySegment, classifyAt] at hs ⊢
      rw [judgeAt_shift]
      exact Verdict.settle_shift hlimit hs earlier d
  | single tag =>
      obtain ⟨v, hv, hs⟩ := bind_eq_ok hs
      simp only [classifySegment, classify]
      rw [judge_shift h earlier hshaped.1 hrow hv, except_ok_bind]
      exact Verdict.settle_shift hlimit hs earlier d

variable {stream mid final : Stream}

theorem next_shift {token : Token} (hlimit : config.errorLimit = 0) (hpos : stream.pos ≤ s.len)
    (hrow : s.Row mid.pos hi) (hnext : next ⟨s, config⟩ stream = .ok (some (token, mid))) :
    next ⟨t, config⟩ (stream.shift earlier d) =
      .ok (some (token.shift d, mid.shift earlier d)) := by
  obtain ⟨segment, hsegment, hemit, hmid⟩ := next_inv hnext
  have hcut := cut_of_segmentAt h.fit hpos hsegment
  rw [hmid] at hrow
  have hsegment' := segmentAt_agrees h (hcut.row.trans hrow) hsegment hrow.le
  obtain ⟨found, hfound, -, hemit⟩ := emit_inv hemit
  have hfound' := classifySegment_shift h earlier hlimit hcut.shaped hrow hfound
  have hmoved : stream.pos + segment.len + d = stream.pos + d + segment.len :=
    Nat.add_right_comm _ _ _
  have hslice := h.slice (i := stream.pos) (Nat.le_succ_of_le hrow.le)
  have hfits : stream.pos + d + segment.len ≤ maxOffset := by
    have hle := Nat.add_le_add_right hrow.le d
    rw [← hmoved]
    exact Nat.le_trans hle (Nat.le_trans h.add_le_len h.fit_right)
  rw [hmoved] at hfound' hslice
  obtain ⟨pos, state⟩ := mid
  simp only at hmid
  subst hmid
  cases hemit
  have hnext' : next ⟨t, config⟩ (stream.shift earlier d) = _ :=
    next_eq_ok hsegment' hfits hfound'
  rw [hnext']
  simp only [Stream.shift, hslice, Token.shift, Classified.shift, hmoved]

theorem pulls_shift {tokens : List Token} (hlimit : config.errorLimit = 0)
    (hsound : Sound ⟨s, config⟩ stream) (hpulls : Pulls ⟨s, config⟩ stream tokens final)
    (hrow : s.Row final.pos hi) :
    Pulls ⟨t, config⟩ (stream.shift earlier d) (tokens.map (Token.shift d))
      (final.shift earlier d) := by
  induction hpulls with
  | nil stream => exact .nil _
  | cons hnext hrest ih =>
      have hmid := (next_eq_some h.fit hsound hnext).2
      have hrow' := (hrest.row h.fit hmid).trans hrow
      exact .cons (next_shift h earlier hlimit hsound.boundary.le_len hrow' hnext) (ih hmid hrow)

end

end Lexer

end JavaLex
