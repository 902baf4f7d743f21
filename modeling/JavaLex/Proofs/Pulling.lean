import JavaLex.Proofs.Verdicts

/-! Pulling tokens one after the other. A pull from a sound stream gives a token and a sound
stream, or finds the text at its end; what holds of any number of pulls follows by induction. -/

namespace JavaLex

namespace Lexer

/-- Some tokens pulled from a stream, and the stream that is left. -/
inductive Pulls (lexer : Lexer) : Stream → List Token → Stream → Prop where
  | nil (stream : Stream) : Pulls lexer stream [] stream
  | cons {stream mid final : Stream} {token : Token} {tokens : List Token} :
      lexer.next stream = .ok (some (token, mid)) → Pulls lexer mid tokens final →
      Pulls lexer stream (token :: tokens) final

/-- What holds of a stream between two pulls. -/
structure Sound (lexer : Lexer) (stream : Stream) : Prop where
  boundary : lexer.source.IsBoundary stream.pos
  state : stream.state.Sound stream.pos

variable {lexer : Lexer} {stream mid final : Stream} {token : Token} {tokens rest : List Token}

theorem sound_start (lexer : Lexer) : lexer.Sound {} := by
  refine ⟨lexer.source.isBoundary_zero, ?_, ?_⟩
  · intro block hb
    cases List.mem_singleton.1 hb
    exact Nat.le_refl 0
  · intro d hd
    exact absurd hd (Array.not_mem_empty d)

/-- What a token has to do with the text between the two streams around its pull. -/
structure Covers (lexer : Lexer) (stream : Stream) (token : Token) (mid : Stream) : Prop where
  start_eq : token.start = stream.pos
  stop_eq : token.stop = mid.pos
  nonempty : token.start < token.stop
  text : lexer.source.slice? token.start token.stop = some token.text

theorem next_len (h : stream.pos = lexer.source.len) : lexer.next stream = .ok none := by
  rw [next, h, segmentAt_len]
  rfl

theorem next_eq_ok {segment : Segment} {found : Classified}
    (hsegment : lexer.segmentAt stream.pos = .ok (some segment))
    (hfits : stream.pos + segment.len ≤ maxOffset)
    (hfound : lexer.classifySegment stream.state segment.shape stream.pos
      (stream.pos + segment.len) = .ok found) :
    lexer.next stream = .ok (some
      (⟨found.kind, lexer.source.slice stream.pos (stream.pos + segment.len), stream.pos,
        stream.pos + segment.len, found.flags⟩, ⟨stream.pos + segment.len, found.state⟩)) := by
  simp only [next, hsegment, except_ok_bind, emit, checkedAdd_eq_ok hfits, hfound, except_pure]

theorem next_of_lt_len (hfit : lexer.source.len ≤ maxOffset) (hsound : lexer.Sound stream)
    (hlt : stream.pos < lexer.source.len) :
    ∃ token mid, lexer.next stream = .ok (some (token, mid)) ∧
      lexer.Covers stream token mid ∧ lexer.Sound mid := by
  obtain ⟨segment, hsegment, hcut⟩ := segmentAt_of_lt_len hfit hlt
  have hle := Nat.le_of_lt hlt
  have hreach := hcut.row.reach hfit hle
  have hboundary := hreach.boundary hsound.boundary
  obtain ⟨found, hfound, hstate⟩ := classifySegment_returns hfit hle hcut hsound.state
  have hnext := next_eq_ok hsegment (Nat.le_trans hreach.le_len hfit) hfound
  refine ⟨_, _, hnext, ⟨rfl, rfl, ?_, ?_⟩, hboundary, hstate⟩
  · exact Nat.lt_add_of_pos_right segment.len_pos
  · exact Source.slice?_eq_some_slice hsound.boundary hboundary hreach.le

theorem next_eq_some (hfit : lexer.source.len ≤ maxOffset) (hsound : lexer.Sound stream)
    (h : lexer.next stream = .ok (some (token, mid))) :
    lexer.Covers stream token mid ∧ lexer.Sound mid := by
  rcases Nat.lt_or_ge stream.pos lexer.source.len with hlt | hge
  · obtain ⟨token', mid', hnext, hcovers, hmid⟩ := next_of_lt_len hfit hsound hlt
    rw [h] at hnext
    cases hnext
    exact ⟨hcovers, hmid⟩
  · rw [next_len (Nat.le_antisymm hsound.boundary.le_len hge)] at h
    cases h

theorem pos_eq_len_of_next (hfit : lexer.source.len ≤ maxOffset) (hsound : lexer.Sound stream)
    (h : lexer.next stream = .ok none) : stream.pos = lexer.source.len := by
  rcases Nat.lt_or_ge stream.pos lexer.source.len with hlt | hge
  · obtain ⟨_, _, hnext, -, -⟩ := next_of_lt_len hfit hsound hlt
    rw [h] at hnext
    cases hnext
  · exact Nat.le_antisymm hsound.boundary.le_len hge

/-- What a token is made of. -/
theorem emit_inv {segment : Segment} {state : Classifier}
    (h : lexer.emit stream segment = .ok (token, state)) :
    ∃ found, lexer.classifySegment stream.state segment.shape stream.pos
        (stream.pos + segment.len) = .ok found ∧
      stream.pos + segment.len ≤ maxOffset ∧
      (⟨found.kind, lexer.source.slice stream.pos (stream.pos + segment.len), stream.pos,
        stream.pos + segment.len, found.flags⟩, found.state) = (token, state) := by
  obtain ⟨stop, hstop, h⟩ := bind_eq_ok h
  obtain ⟨rfl, hfits⟩ := checkedAdd_inv hstop
  obtain ⟨found, hfound, h⟩ := bind_eq_ok h
  exact ⟨found, hfound, hfits, Except.ok.inj h⟩

theorem next_inv (h : lexer.next stream = .ok (some (token, mid))) :
    ∃ segment, lexer.segmentAt stream.pos = .ok (some segment) ∧
      lexer.emit stream segment = .ok (token, mid.state) ∧
      mid.pos = stream.pos + segment.len := by
  obtain ⟨found, hsegment, h⟩ := bind_eq_ok h
  cases found with
  | none => cases h
  | some segment =>
      obtain ⟨⟨token', state⟩, hemit, h⟩ := bind_eq_ok h
      cases h
      exact ⟨segment, hsegment, hemit, rfl⟩

theorem next_classified (h : lexer.next stream = .ok (some (token, mid))) :
    ∃ segment, lexer.segmentAt stream.pos = .ok (some segment) ∧
      mid.pos = stream.pos + segment.len ∧
      lexer.classifySegment stream.state segment.shape stream.pos mid.pos =
        .ok ⟨token.kind, token.flags, mid.state⟩ := by
  obtain ⟨segment, hsegment, hemit, hpos⟩ := next_inv h
  obtain ⟨found, hfound, -, hemit⟩ := emit_inv hemit
  obtain ⟨pos, state⟩ := mid
  cases hemit
  cases hpos
  exact ⟨segment, hsegment, rfl, hfound⟩

theorem row_of_next (hfit : lexer.source.len ≤ maxOffset) (hsound : lexer.Sound stream)
    (h : lexer.next stream = .ok (some (token, mid))) :
    lexer.source.Row stream.pos mid.pos := by
  obtain ⟨segment, hsegment, -, hpos⟩ := next_inv h
  rw [hpos]
  exact (cut_of_segmentAt hfit hsound.boundary.le_len hsegment).row

namespace Pulls

theorem append {later : List Token} (h : lexer.Pulls stream tokens mid)
    (h' : lexer.Pulls mid later final) : lexer.Pulls stream (tokens ++ later) final := by
  induction h with
  | nil stream => exact h'
  | cons hnext _ ih => exact .cons hnext (ih h')

theorem exists_mid {before later : List Token} (h : lexer.Pulls stream (before ++ later) final) :
    ∃ mid, lexer.Pulls stream before mid ∧ lexer.Pulls mid later final := by
  induction before generalizing stream with
  | nil => exact ⟨stream, .nil stream, h⟩
  | cons token before ih =>
      cases h with
      | cons hnext hrest =>
          obtain ⟨mid, hbefore, hlater⟩ := ih hrest
          exact ⟨mid, .cons hnext hbefore, hlater⟩

theorem sound (hfit : lexer.source.len ≤ maxOffset) (h : lexer.Pulls stream tokens final)
    (hsound : lexer.Sound stream) : lexer.Sound final := by
  induction h with
  | nil stream => exact hsound
  | cons hnext _ ih => exact ih (next_eq_some hfit hsound hnext).2

theorem exists_pull (hfit : lexer.source.len ≤ maxOffset) (h : lexer.Pulls stream tokens final)
    (hsound : lexer.Sound stream) (hmem : token ∈ tokens) :
    ∃ before later here next, tokens = before ++ token :: later ∧ lexer.Sound here ∧
      lexer.next here = .ok (some (token, next)) ∧ lexer.Pulls next later final := by
  obtain ⟨before, later, rfl⟩ := List.append_of_mem hmem
  obtain ⟨here, hbefore, hlater⟩ := h.exists_mid
  cases hlater with
  | cons hnext hrest =>
      exact ⟨before, later, here, _, rfl, hbefore.sound hfit hsound, hnext, hrest⟩

theorem row (hfit : lexer.source.len ≤ maxOffset) (h : lexer.Pulls stream tokens final)
    (hsound : lexer.Sound stream) : lexer.source.Row stream.pos final.pos := by
  induction h with
  | nil stream => exact .nil _
  | cons hnext _ ih =>
      exact (row_of_next hfit hsound hnext).trans (ih (next_eq_some hfit hsound hnext).2)

theorem length_le (hfit : lexer.source.len ≤ maxOffset) (h : lexer.Pulls stream tokens final)
    (hsound : lexer.Sound stream) : stream.pos + tokens.length ≤ final.pos := by
  induction h with
  | nil stream => exact Nat.le_refl _
  | cons hnext _ ih =>
      obtain ⟨hcovers, hmid⟩ := next_eq_some hfit hsound hnext
      have hrest := ih hmid
      have hlt := hcovers.nonempty
      rw [hcovers.start_eq, hcovers.stop_eq] at hlt
      rw [List.length_cons]
      omega

end Pulls

theorem Pulls.unique {final' : Stream} (h : lexer.Pulls stream tokens final)
    (hend : lexer.next final = .ok none) (h' : lexer.Pulls stream rest final')
    (hend' : lexer.next final' = .ok none) : tokens = rest ∧ final = final' := by
  induction h generalizing rest with
  | nil stream =>
      cases h' with
      | nil => exact ⟨rfl, rfl⟩
      | cons hnext _ =>
          rw [hend] at hnext
          cases hnext
  | cons hnext _ ih =>
      cases h' with
      | nil =>
          rw [hend'] at hnext
          cases hnext
      | cons hnext' hrest' =>
          rw [hnext] at hnext'
          cases hnext'
          obtain ⟨htokens, hfinal⟩ := ih hend hrest'
          exact ⟨congrArg _ htokens, hfinal⟩

theorem take_of_pulls {n : Nat} (h : lexer.Pulls stream tokens final)
    (hn : tokens.length = n ∨ tokens.length < n ∧ lexer.next final = .ok none) :
    lexer.take stream n = .ok (tokens, final) := by
  induction h generalizing n with
  | nil stream =>
      cases n with
      | zero => rfl
      | succ n =>
          rcases hn with hn | ⟨-, hend⟩
          · cases hn
          · rw [take, hend]
            rfl
  | cons hnext _ ih =>
      cases n with
      | zero =>
          rcases hn with hn | hn
          · cases hn
          · omega
      | succ n =>
          have hrest := ih (n := n) (by simpa only [List.length_cons, Nat.succ_inj,
            Nat.add_lt_add_iff_right] using hn)
          simp only [take, hnext, except_ok_bind, hrest, except_pure]

theorem drain_of_next (hlt : stream.pos < lexer.source.len)
    (hnext : lexer.next stream = .ok (some (token, mid)))
    (hrest : lexer.drain mid = .ok (rest, final)) :
    lexer.drain stream = .ok (token :: rest, final) := by
  obtain ⟨segment, hsegment, hemit, hpos⟩ := next_inv hnext
  have hmid : mid = ⟨stream.pos + segment.len, mid.state⟩ := by rw [← hpos]
  rw [hmid] at hrest
  rw [drain, if_pos hlt, hsegment]
  simp only [except_ok_bind, hemit, hrest, except_pure]

theorem drain_of_pulls (hfit : lexer.source.len ≤ maxOffset) (hsound : lexer.Sound stream)
    (h : lexer.Pulls stream tokens final) (hend : lexer.next final = .ok none) :
    lexer.drain stream = .ok (tokens, final) := by
  induction h with
  | nil stream =>
      rw [drain, if_neg (Nat.not_lt.2 (Nat.le_of_eq (pos_eq_len_of_next hfit hsound hend).symm))]
      rfl
  | @cons stream mid final token tokens hnext _ ih =>
      obtain ⟨hcovers, hmid⟩ := next_eq_some hfit hsound hnext
      have hlt : stream.pos < mid.pos := by
        rw [← hcovers.start_eq, ← hcovers.stop_eq]
        exact hcovers.nonempty
      exact drain_of_next (Nat.lt_of_lt_of_le hlt hmid.boundary.le_len) hnext (ih hmid hend)

theorem exists_pulls (hfit : lexer.source.len ≤ maxOffset) (hsound : lexer.Sound stream) :
    ∃ tokens final, lexer.Pulls stream tokens final ∧ lexer.next final = .ok none := by
  obtain ⟨n, hn⟩ := Nat.exists_eq_add_of_le hsound.boundary.le_len
  induction n using Nat.strongRecOn generalizing stream with
  | ind n ih =>
      rcases Nat.lt_or_ge stream.pos lexer.source.len with hlt | hge
      · obtain ⟨token, mid, hnext, hcovers, hmid⟩ := next_of_lt_len hfit hsound hlt
        have hle := hmid.boundary.le_len
        have hstep := hcovers.nonempty
        rw [hcovers.start_eq, hcovers.stop_eq] at hstep
        obtain ⟨tokens, final, hrest, hend⟩ :=
          ih (lexer.source.len - mid.pos) (by omega) hmid (by omega)
        exact ⟨token :: tokens, final, .cons hnext hrest, hend⟩
      · have heq := Nat.le_antisymm hsound.boundary.le_len hge
        exact ⟨[], stream, .nil stream, next_len heq⟩

theorem exists_drain (hfit : lexer.source.len ≤ maxOffset) :
    ∃ tokens final, lexer.drain {} = .ok (tokens, final) ∧ lexer.Pulls {} tokens final ∧
      lexer.next final = .ok none ∧ lexer.Sound final := by
  obtain ⟨tokens, final, hpulls, hend⟩ := exists_pulls hfit lexer.sound_start
  exact ⟨tokens, final, drain_of_pulls hfit lexer.sound_start hpulls hend, hpulls, hend,
    hpulls.sound hfit lexer.sound_start⟩

end Lexer

end JavaLex
