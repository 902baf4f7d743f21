import JavaLex.Proofs.Events
import JavaLex.Proofs.Lossless
import JavaLex.Proofs.Shifting
import JavaLex.Proofs.Totality

/-! What is found wrong with a text belongs to its tokens. While no limit holds diagnostics back,
the list of them and the flags of the tokens tell the same story: a token is flagged where it has
a problem, and each problem is inside one token. -/

namespace JavaLex

/-- What may be reported of the text between two offsets: problems in its order that do not
overlap, each of some whole characters. -/
structure Source.Reports (s : Source) (start stop : Nat) (problems : List Diagnostic) : Prop where
  within : ∀ d ∈ problems, d.Within start stop
  boundary : ∀ d ∈ problems, s.IsBoundary d.start ∧ s.IsBoundary d.stop
  ordered : problems.Pairwise fun a b => a.stop ≤ b.start

namespace Source.Reports

variable {s : Source} {start stop : Nat}

theorem nil : s.Reports start stop [] := by
  refine ⟨?_, ?_, .nil⟩
  · intro d hd
    cases hd
  · intro d hd
    cases hd

theorem whole (hlt : start < stop) (hstart : s.IsBoundary start) (hstop : s.IsBoundary stop)
    (problem : Problem) : s.Reports start stop [⟨problem, start, stop⟩] := by
  refine ⟨?_, ?_, List.pairwise_singleton _ _⟩
  · intro d hd
    rw [List.mem_singleton.1 hd]
    exact ⟨Nat.le_refl _, hlt, Nat.le_refl _⟩
  · intro d hd
    rw [List.mem_singleton.1 hd]
    exact ⟨hstart, hstop⟩

end Source.Reports

namespace Escape

/-- The offsets where pieces meet, the first of which stands at `pos`. -/
def CutsAt (P : Nat → Prop) : (pos : Nat) → List (Piece × Nat) → Prop
  | pos, [] => P pos
  | pos, piece :: rest => P pos ∧ CutsAt P (pos + piece.2) rest

theorem CutsAt.first {P : Nat → Prop} {pos : Nat} {found : List (Piece × Nat)}
    (h : CutsAt P pos found) : P pos := by
  cases found with
  | nil => exact h
  | cons piece rest => exact h.1

theorem width_eq_utf8ByteSize (l : List Char) : width l = (String.ofList l).utf8ByteSize := by
  rw [← width_toList, String.toList_ofList]

/-- A piece takes whole characters, so it ends at a boundary of the text around it. -/
theorem cutsAt_cons {s : Source} {a b : String} {piece : Piece × Nat}
    {found : List (Piece × Nat)} (taken rest : List Char)
    (h : s.text = a ++ (String.ofList (taken ++ rest) ++ b))
    (hbytes : piece.2 = width taken)
    (hrest : ∀ a' : String, s.text = a' ++ (String.ofList rest ++ b) →
      CutsAt s.IsBoundary a'.utf8ByteSize found) :
    CutsAt s.IsBoundary a.utf8ByteSize (piece :: found) := by
  have htext : s.text = a ++ String.ofList taken ++ (String.ofList rest ++ b) := by
    rw [h, String.ofList_append, String.append_assoc, String.append_assoc]
  have hnext := hrest _ htext
  rw [String.utf8ByteSize_append, ← width_eq_utf8ByteSize, ← hbytes] at hnext
  exact ⟨Source.isBoundary_iff_append.2 ⟨a, _, h, rfl⟩, hnext⟩

theorem cutsAt_pieces {s : Source} {b : String} (form : QuoteForm) (content : List Char) :
    ∀ a : String, s.text = a ++ (String.ofList content ++ b) →
      CutsAt s.IsBoundary a.utf8ByteSize (pieces form content) := by
  fun_induction pieces form content with
  | case1 => exact fun a h => Source.isBoundary_iff_append.2 ⟨a, _, h, rfl⟩
  | case2 =>
      intro a h
      refine cutsAt_cons ['\\'] [] h rfl ?_
      exact fun a' h' => Source.isBoundary_iff_append.2 ⟨a', _, h', rfl⟩
  | case3 c rest found ih =>
      intro a h
      refine cutsAt_cons ('\\' :: c :: rest.take found.2) (rest.drop found.2) ?_ ?_ ih
      · rw [h, List.cons_append, List.cons_append, List.take_append_drop]
      · simp only [width, Nat.add_assoc]
        rfl
  | case4 c rest _ _ ih =>
      intro a h
      exact cutsAt_cons [c] rest h rfl ih

/-- Problems of a row of pieces come in its order, and start and stop where pieces meet. -/
theorem diagnostics_cut {P : Nat → Prop} {base offset : Nat} {found : List (Piece × Nat)}
    {ds : List Diagnostic} (h : diagnostics base offset found = .ok ds)
    (hcut : CutsAt P (base + offset) found) :
    (∀ d ∈ ds, base + offset ≤ d.start ∧ P d.start ∧ P d.stop) ∧
      ds.Pairwise fun a b => a.stop ≤ b.start := by
  induction found generalizing offset ds with
  | nil =>
      cases h
      refine ⟨?_, .nil⟩
      intro d hd
      cases hd
  | cons entry rest ih =>
      obtain ⟨piece, bytes⟩ := entry
      obtain ⟨hstart, hrest⟩ := hcut
      rw [Nat.add_assoc] at hrest
      have hlater : base + offset ≤ base + (offset + bytes) := by omega
      rw [diagnostics] at h
      split at h
      · obtain ⟨hall, hordered⟩ := ih h hrest
        refine ⟨?_, hordered⟩
        intro d hd
        exact ⟨Nat.le_trans hlater (hall d hd).1, (hall d hd).2⟩
      · obtain ⟨start, hfirst, h⟩ := bind_eq_ok h
        obtain ⟨stop, hlast, h⟩ := bind_eq_ok h
        obtain ⟨more, hmore, rfl⟩ := map_eq_ok h
        obtain ⟨hall, hordered⟩ := ih hmore hrest
        rw [eq_of_checkedAdd hfirst, eq_of_checkedAdd hlast]
        refine ⟨?_, List.pairwise_cons.2 ⟨fun d hd => (hall d hd).1, hordered⟩⟩
        intro d hd
        rcases List.mem_cons.1 hd with rfl | hd
        · exact ⟨Nat.le_refl _, hstart, hrest.first⟩
        · exact ⟨Nat.le_trans hlater (hall d hd).1, (hall d hd).2⟩

theorem read_cut {s : Source} {form : QuoteForm} {start stop : Nat} {content : String}
    {reading : Reading} (hcontent : s.slice? start stop = some content)
    (h : read form content start = .ok reading) :
    (∀ d ∈ reading.problems, s.IsBoundary d.start ∧ s.IsBoundary d.stop) ∧
      reading.problems.Pairwise fun a b => a.stop ≤ b.start := by
  rw [read_eq] at h
  split at h
  · obtain ⟨ds, hds, h⟩ := bind_eq_ok h
    cases h
    obtain ⟨a, b, htext, rfl, -⟩ := Source.slice?_eq_some_iff.1 hcontent
    rw [← String.ofList_toList (s := content)] at htext
    obtain ⟨hall, hordered⟩ := diagnostics_cut hds (cutsAt_pieces form content.toList a htext)
    exact ⟨fun d hd => (hall d hd).2, hordered⟩
  · cases h
    refine ⟨?_, .nil⟩
    intro d hd
    cases hd

end Escape

namespace Source

variable {s : Source} {start stop : Nat}

/-- The problems of a closed literal are those of its content, or that it is a character literal
without just one character. -/
theorem literalProblems_eq_ok {form : QuoteForm} {problems : List Diagnostic}
    (h : s.literalProblems form start stop = .ok problems) :
    ∃ reading, Escape.read form (s.slice (start + delimiterLen form) (stop - delimiterLen form))
        (start + delimiterLen form) = .ok reading ∧
      (problems = reading.problems ∨ ∃ problem, (problem = .emptyChar ∨ problem = .severalChars) ∧
        problems = [⟨problem, start, stop⟩]) := by
  obtain ⟨first, hfirst, h⟩ := bind_eq_ok h
  obtain ⟨last, hlast, h⟩ := bind_eq_ok h
  obtain ⟨⟨value, found⟩, hvalue, h⟩ := bind_eq_ok h
  obtain ⟨reading, hread, hvalue⟩ := bind_eq_ok hvalue
  cases hvalue
  rw [eq_of_checkedAdd hfirst, eq_of_checkedSub hlast] at hread
  refine ⟨reading, hread, ?_⟩
  simp only at h
  split at h
  · rename_i hchar
    split at h
    · cases h
      exact .inr ⟨_, .inl rfl, rfl⟩
    · cases h
      exact .inl hchar.2.symm
    · cases h
      exact .inr ⟨_, .inr rfl, rfl⟩
  · cases h
    exact .inl rfl

theorem literalProblems_reports {form : QuoteForm} {problems : List Diagnostic}
    (hfit : stop ≤ maxOffset) (hlong : start + 2 * delimiterLen form ≤ stop) (hlt : start < stop)
    (hstart : s.IsBoundary start) (hstop : s.IsBoundary stop)
    (h : s.literalProblems form start stop = .ok problems) : s.Reports start stop problems := by
  have hwithin := (literalProblems_returns hlong hfit).of_eq_ok h
  obtain ⟨reading, hread, rfl | ⟨problem, -, rfl⟩⟩ := literalProblems_eq_ok h
  · unfold slice at hread
    cases hcontent : s.slice? (start + delimiterLen form) (stop - delimiterLen form) with
    | none =>
        rw [hcontent] at hread
        cases hread
        exact .nil
    | some content =>
        rw [hcontent] at hread
        obtain ⟨hboundary, hordered⟩ := Escape.read_cut hcontent hread
        exact ⟨hwithin, hboundary, hordered⟩
  · exact .whole hlt hstart hstop problem

theorem numberProblems_reports (form : NumberForm) (hlt : start < stop)
    (hstart : s.IsBoundary start) (hstop : s.IsBoundary stop) :
    s.Reports start stop (s.numberProblems form start stop) ∧
      (s.numberProblems form start stop).length ≤ 1 := by
  unfold numberProblems
  split
  · exact ⟨.whole hlt hstart hstop _, Nat.le_refl 1⟩
  · exact ⟨.nil, Nat.zero_le 1⟩

end Source

/-- What a verdict may say of the text between two offsets. Only what is quoted and closed has
more than one problem. -/
structure Verdict.Reports (v : Verdict) (s : Source) (start stop : Nat) : Prop where
  reports : s.Reports start stop v.problems
  several : 1 < v.problems.length →
    (v.kind = .stringLiteral ∨ v.kind = .charLiteral) ∧ v.flags.unterminated = false

theorem Verdict.Reports.of_length_le {v : Verdict} {s : Source} {start stop : Nat}
    (h : s.Reports start stop v.problems) (hlength : v.problems.length ≤ 1) :
    v.Reports s start stop :=
  ⟨h, fun hmore => absurd hmore (Nat.not_lt.2 hlength)⟩

theorem Verdict.Reports.of_nil {v : Verdict} {s : Source} {start stop : Nat}
    (h : v.problems = []) : v.Reports s start stop :=
  .of_length_le (by rw [h]; exact .nil) (by rw [h]; exact Nat.zero_le 1)

namespace Lexer

variable {lexer : Lexer} {state : Classifier} {start stop : Nat}

theorem judge_reports {tag : Tag} {v : Verdict} (hfit : lexer.source.len ≤ maxOffset)
    (hstart : lexer.source.IsBoundary start) (hlexed : lexer.source.Lexed start tag stop)
    (h : lexer.judge state tag start stop stop = .ok v) : v.Reports lexer.source start stop := by
  have hstop := hlexed.reach.boundary hstart
  have hmax := hlexed.reach.le_len
  have hwhole : ∀ problem, v.problems = [⟨problem, start, stop⟩] →
      v.Reports lexer.source start stop := by
    intro problem hproblems
    refine .of_length_le ?_ (by rw [hproblems]; exact Nat.le_refl 1)
    rw [hproblems]
    exact .whole hlexed.lt hstart hstop problem
  cases tag with
  | word => exact .of_nil ((judgeWord_returns hfit hmax _).of_eq_ok h)
  | number form =>
      cases h
      obtain ⟨hreports, hlength⟩ :=
        Source.numberProblems_reports form hlexed.lt hstart hstop
      exact .of_length_le hreports hlength
  | quoted form =>
      obtain ⟨problems, hproblems, h⟩ := bind_eq_ok h
      cases h
      refine ⟨Source.literalProblems_reports (Nat.le_trans hmax hfit) hlexed.spells hlexed.lt
        hstart hstop hproblems, fun _ => ⟨?_, rfl⟩⟩
      cases form with
      | char => exact .inr rfl
      | _ => exact .inl rfl
  | operator op =>
      cases op with
      | question => exact .of_nil ((judgeQuestion_returns hfit hmax).of_eq_ok h)
      | _ =>
          cases h
          exact .of_nil rfl
  | unterminated form =>
      cases h
      exact hwhole _ rfl
  | unterminatedComment =>
      cases h
      exact hwhole _ rfl
  | invalidChar =>
      cases h
      exact hwhole _ rfl
  | interiorNull =>
      cases h
      exact hwhole _ rfl
  | _ =>
      cases h
      exact .of_nil rfl

theorem judgeAt_reports (hlt : start < stop) (hstart : lexer.source.IsBoundary start)
    (hstop : lexer.source.IsBoundary stop) (sign : AtSign) :
    (judgeAt sign start stop).Reports lexer.source start stop := by
  unfold judgeAt
  split
  · exact .of_nil rfl
  · exact .of_nil rfl
  · exact .of_nil rfl
  · exact .of_length_le (.whole hlt hstart hstop _) (Nat.le_refl 1)

end Lexer

theorem Verdict.settle_keeps {v : Verdict} {config : Config} {state : Classifier}
    {typeArgument : Bool} {found : Classified}
    (h : v.settle config state typeArgument = .ok found) :
    found.state.diagnostics = config.keep state.diagnostics v.problems := by
  unfold settle at h
  cases hevent : v.event with
  | none =>
      rw [hevent] at h
      cases h
      rfl
  | some event =>
      rw [hevent] at h
      obtain ⟨statement, -, h⟩ := bind_eq_ok h
      cases h
      rfl

theorem Verdict.settle_diagnostics {v : Verdict} {config : Config} {state : Classifier}
    {typeArgument : Bool} {found : Classified} (hlimit : config.errorLimit = 0)
    (h : v.settle config state typeArgument = .ok found) :
    found.state.diagnostics.toList = state.diagnostics.toList ++ v.problems := by
  rw [settle_keeps h, Config.keep_of_unlimited hlimit, Array.toList_append]

namespace Token

/-- Whether what a diagnostic concerns is part of the token. -/
def holds (token : Token) (d : Diagnostic) : Bool :=
  decide (token.start ≤ d.start) && decide (d.stop ≤ token.stop)

/-- A string, a text block or a character literal that has its closing delimiter. -/
def isClosedLiteral (token : Token) : Bool :=
  (token.kind == .stringLiteral || token.kind == .charLiteral) && !token.flags.unterminated

theorem holds_iff {token : Token} {d : Diagnostic} :
    token.holds d = true ↔ token.start ≤ d.start ∧ d.stop ≤ token.stop := by
  simp [holds]

end Token

/-- What the diagnostics of some tokens have to do with them. -/
structure Source.Diagnosed (s : Source) (tokens : List Token) (problems : List Diagnostic) :
    Prop where
  flagged : ∀ token ∈ tokens, (token.flags.hasError = true ↔ ∃ d ∈ problems, token.holds d = true)
  home : ∀ d ∈ problems, tokens.countP (fun token => token.holds d) = 1
  ordered : problems.Pairwise fun a b => a.stop ≤ b.start
  nonempty : ∀ d ∈ problems, d.start < d.stop
  boundary : ∀ d ∈ problems, s.IsBoundary d.start ∧ s.IsBoundary d.stop
  single : ∀ token ∈ tokens, 1 < problems.countP token.holds → token.isClosedLiteral = true

/-- What one pull reports, in the flags of its token and in the list of diagnostics. -/
structure Token.Reported (token : Token) (s : Source) (problems : List Diagnostic) : Prop where
  flagged : token.flags.hasError = !problems.isEmpty
  reports : s.Reports token.start token.stop problems
  several : 1 < problems.length → token.isClosedLiteral = true

theorem Token.Reported.holds {token : Token} {s : Source} {problems : List Diagnostic}
    (h : token.Reported s problems) {d : Diagnostic} (hd : d ∈ problems) :
    token.holds d = true :=
  holds_iff.2 ⟨(h.reports.within d hd).start_le, (h.reports.within d hd).le_stop⟩

theorem Token.Reported.hasError_iff {token : Token} {s : Source} {problems : List Diagnostic}
    (h : token.Reported s problems) :
    token.flags.hasError = true ↔ ∃ d ∈ problems, token.holds d = true := by
  rw [h.flagged]
  cases problems with
  | nil => simp
  | cons d rest =>
      exact ⟨fun _ => ⟨d, List.mem_cons_self, h.holds List.mem_cons_self⟩, fun _ => rfl⟩

namespace Source.Diagnosed

variable {s : Source} {before : List Token} {token : Token} {earlier problems : List Diagnostic}

theorem nil (s : Source) : s.Diagnosed [] [] := by
  refine ⟨?_, ?_, .nil, ?_, ?_, ?_⟩ <;> simp

/-- One more token behind the others. Its problems are inside no other token, and no other
problems are inside it. -/
theorem append (h : s.Diagnosed before earlier)
    (hbefore : ∀ other ∈ before, other.stop ≤ token.start)
    (hearlier : ∀ d ∈ earlier, d.stop ≤ token.start) (hreported : token.Reported s problems) :
    s.Diagnosed (before ++ [token]) (earlier ++ problems) := by
  have hwithin := hreported.reports.within
  have hout : ∀ d ∈ earlier, ¬ token.holds d = true := by
    intro d hd hholds
    have hnonempty := h.nonempty d hd
    have hstop := hearlier d hd
    have hstart := (Token.holds_iff.1 hholds).1
    omega
  have hother : ∀ other ∈ before, ∀ d ∈ problems, ¬ other.holds d = true := by
    intro other hmem d hd hholds
    obtain ⟨hstart, hnonempty, -⟩ := hwithin d hd
    have hle := hbefore other hmem
    have hstop := (Token.holds_iff.1 hholds).2
    omega
  refine ⟨?_, ?_, ?_, ?_, ?_, ?_⟩
  · intro other hmem
    simp only [List.mem_append, or_and_right, exists_or]
    rcases List.mem_append.1 hmem with hmem | hmem
    · rw [h.flagged other hmem, or_iff_left]
      rintro ⟨d, hd, hholds⟩
      exact hother other hmem d hd hholds
    · rw [List.mem_singleton.1 hmem, hreported.hasError_iff, or_iff_right]
      rintro ⟨d, hd, hholds⟩
      exact hout d hd hholds
  · intro d hd
    rw [List.countP_append, List.countP_singleton]
    rcases List.mem_append.1 hd with hd | hd
    · rw [h.home d hd, if_neg (hout d hd)]
    · have hnone := List.countP_eq_zero.2 fun other hmem => hother other hmem d hd
      rw [hnone, if_pos (hreported.holds hd)]
  · refine List.pairwise_append.2 ⟨h.ordered, hreported.reports.ordered, ?_⟩
    intro a ha b hb
    exact Nat.le_trans (hearlier a ha) (hwithin b hb).start_le
  · intro d hd
    rcases List.mem_append.1 hd with hd | hd
    · exact h.nonempty d hd
    · exact (hwithin d hd).nonempty
  · intro d hd
    rcases List.mem_append.1 hd with hd | hd
    · exact h.boundary d hd
    · exact hreported.reports.boundary d hd
  · intro other hmem hmore
    rw [List.countP_append] at hmore
    rcases List.mem_append.1 hmem with hmem | hmem
    · rw [List.countP_eq_zero.2 (hother other hmem)] at hmore
      exact h.single other hmem hmore
    · rw [List.mem_singleton.1 hmem] at hmore ⊢
      rw [List.countP_eq_zero.2 hout, Nat.zero_add] at hmore
      exact hreported.several (Nat.lt_of_lt_of_le hmore List.countP_le_length)

end Source.Diagnosed

namespace Lexer

variable {lexer : Lexer} {stream mid final : Stream} {token : Token} {before later : List Token}

section

variable (hfit : lexer.source.len ≤ maxOffset) (hlimit : lexer.config.errorLimit = 0)

include hfit hlimit

theorem next_reported (hsound : lexer.Sound stream)
    (hnext : lexer.next stream = .ok (some (token, mid))) :
    ∃ problems, mid.state.diagnostics.toList = stream.state.diagnostics.toList ++ problems ∧
      token.Reported lexer.source problems := by
  obtain ⟨hcovers, hmid⟩ := next_eq_some hfit hsound hnext
  have hstart : lexer.source.IsBoundary token.start := hcovers.start_eq ▸ hsound.boundary
  have hstop : lexer.source.IsBoundary token.stop := hcovers.stop_eq ▸ hmid.boundary
  have hsettled : ∀ {v : Verdict} {typeArgument : Bool},
      v.Reports lexer.source token.start token.stop →
      v.settle lexer.config stream.state typeArgument =
        .ok ⟨token.kind, token.flags, mid.state⟩ →
      ∃ problems, mid.state.diagnostics.toList = stream.state.diagnostics.toList ++ problems ∧
        token.Reported lexer.source problems := by
    intro v typeArgument hv hsettle
    obtain ⟨hkind, hflags, -⟩ := Verdict.settle_eq_ok hsettle
    simp only at hkind hflags
    refine ⟨v.problems, Verdict.settle_diagnostics hlimit hsettle, by rw [hflags], hv.reports, ?_⟩
    intro hmore
    obtain ⟨hliteral, hclosed⟩ := hv.several hmore
    simp only [Token.isClosedLiteral, hkind, hflags, hclosed]
    rcases hliteral with hliteral | hliteral <;> rw [hliteral] <;> rfl
  obtain ⟨lexeme, -, hlexed, hjudged⟩ := next_judged hfit hsound hnext
  cases hjudged with
  | blanks _ _ _ _ hflags hstate =>
      refine ⟨[], by rw [hstate, List.append_nil], by rw [hflags]; rfl, .nil, ?_⟩
      intro hmore
      cases hmore
  | marked _ _ _ hsettle =>
      exact hsettled (judgeAt_reports hcovers.nonempty hstart hstop _) hsettle
  | single hstop hv hsettle =>
      rw [← hstop] at hlexed
      exact hsettled (judge_reports hfit hstart hlexed hv) hsettle

theorem Pulls.diagnosed (h : lexer.Pulls stream later final) (hsound : lexer.Sound stream)
    (hdiagnosed : lexer.source.Diagnosed before stream.state.diagnostics.toList)
    (hbefore : ∀ token ∈ before, token.stop ≤ stream.pos) :
    lexer.source.Diagnosed (before ++ later) final.state.diagnostics.toList := by
  induction h generalizing before with
  | nil stream =>
      rw [List.append_nil]
      exact hdiagnosed
  | @cons stream mid final token later hnext _ ih =>
      obtain ⟨hcovers, hmid⟩ := next_eq_some hfit hsound hnext
      obtain ⟨problems, hmore, hreported⟩ := next_reported hfit hlimit hsound hnext
      have hstart : ∀ d ∈ stream.state.diagnostics.toList, d.stop ≤ token.start := by
        intro d hd
        rw [hcovers.start_eq]
        exact (hsound.state.within d (Array.mem_toList_iff.1 hd)).le_stop
      have hnow := hdiagnosed.append (fun other hmem => hcovers.start_eq ▸ hbefore other hmem)
        hstart hreported
      rw [← hmore] at hnow
      have hall := ih hmid hnow ?_
      · rwa [List.append_assoc, List.singleton_append] at hall
      · intro other hmem
        rw [← hcovers.stop_eq]
        rcases List.mem_append.1 hmem with hmem | hmem
        · have hle := hbefore other hmem
          have hlt := hcovers.nonempty
          rw [hcovers.start_eq] at hlt
          exact Nat.le_of_lt (Nat.lt_of_le_of_lt hle hlt)
        · rw [List.mem_singleton.1 hmem]

theorem Pulls.diagnostics_eq (h : lexer.Pulls stream later final) (hsound : lexer.Sound stream) :
    ∃ more, final.state.diagnostics.toList = stream.state.diagnostics.toList ++ more ∧
      ∀ d ∈ more, stream.pos ≤ d.start := by
  induction h with
  | nil stream => exact ⟨[], (List.append_nil _).symm, fun d hd => by cases hd⟩
  | @cons stream mid final token later hnext _ ih =>
      obtain ⟨hcovers, hmid⟩ := next_eq_some hfit hsound hnext
      obtain ⟨problems, hnow, hreported⟩ := next_reported hfit hlimit hsound hnext
      obtain ⟨more, hlater, hstart⟩ := ih hmid
      refine ⟨problems ++ more, ?_, ?_⟩
      · rw [hlater, hnow, List.append_assoc]
      · intro d hd
        rcases List.mem_append.1 hd with hd | hd
        · rw [← hcovers.start_eq]
          exact (hreported.reports.within d hd).start_le
        · have hlt := hcovers.nonempty
          rw [hcovers.start_eq, hcovers.stop_eq] at hlt
          exact Nat.le_trans (Nat.le_of_lt hlt) (hstart d hd)

end

/-- However many tokens are pulled, the diagnostics so far are those of the pulled tokens: the
part of all diagnostics that starts before the last of these tokens ends. -/
theorem run_diagnoses (lexer : Lexer) (hfit : lexer.source.len ≤ maxOffset)
    (hlimit : lexer.config.errorLimit = 0) :
    ∃ tokens problems, lexer.run = .ok (tokens, problems) ∧
      ∀ m, ∃ mid, lexer.take {} m = .ok (tokens.take m, mid) ∧
        lexer.source.Diagnosed (tokens.take m) mid.state.diagnostics.toList ∧
        ∀ last, (tokens.take m).getLast? = some last →
          mid.state.diagnostics.toList = problems.filter fun d => decide (d.start < last.stop) := by
  obtain ⟨tokens, final, hdrain, hpulls, hend, -⟩ := exists_drain hfit
  have hstart := lexer.sound_start
  refine ⟨tokens, final.state.diagnostics.toList, ?_, ?_⟩
  · rw [run, hdrain]
    rfl
  · intro m
    obtain ⟨mid, htake, hbefore, hlater⟩ := hpulls.exists_take hend m
    have hmid := hbefore.sound hfit hstart
    have hdiagnosed := hbefore.diagnosed hfit hlimit hstart (.nil lexer.source)
      (fun token hmem => by cases hmem)
    obtain ⟨more, hmore, hbehind⟩ := hlater.diagnostics_eq hfit hlimit hmid
    refine ⟨mid, htake, hdiagnosed, ?_⟩
    intro last hlast
    rw [hbefore.stop_of_getLast hfit hstart hlast, hmore, List.filter_append]
    have hkept : mid.state.diagnostics.toList.filter (fun d => decide (d.start < mid.pos)) =
        mid.state.diagnostics.toList := by
      refine List.filter_eq_self.2 ?_
      intro d hd
      have hd := hmid.state.within d (Array.mem_toList_iff.1 hd)
      exact decide_eq_true (Nat.lt_of_lt_of_le hd.nonempty hd.le_stop)
    have hdropped : more.filter (fun d => decide (d.start < mid.pos)) = [] := by
      refine List.filter_eq_nil_iff.2 ?_
      intro d hd
      have := hbehind d hd
      simp only [decide_eq_true_eq]
      omega
    rw [hkept, hdropped, List.append_nil]

/-- A string with two bad escapes and a wide character between them, an unknown character and a
number without digits that is not pulled yet. -/
theorem run_diagnoses_escapes :
    Source.len ⟨"\"\\qé\\u1\" # 0x"⟩ ≤ maxOffset ∧ ({} : Config).errorLimit = 0 ∧
      run ⟨⟨"\"\\qé\\u1\" # 0x"⟩, {}⟩ = .ok
        ([⟨.stringLiteral, "\"\\qé\\u1\"", 0, 9, { hasError := true }⟩,
          ⟨.whitespace, " ", 9, 10, {}⟩, ⟨.unknown, "#", 10, 11, { hasError := true }⟩,
          ⟨.whitespace, " ", 11, 12, {}⟩, ⟨.numberLiteral, "0x", 12, 14, { hasError := true }⟩],
          [⟨.invalidEscape 'q', 1, 3⟩, ⟨.malformedUnicodeEscape, 5, 7⟩,
            ⟨.unrecognizedCharacter '#', 10, 11⟩,
            ⟨.malformedNumber "hexadecimal literal has no digits", 12, 14⟩]) ∧
      ∃ mid, take ⟨⟨"\"\\qé\\u1\" # 0x"⟩, {}⟩ {} 3 = .ok
          ([⟨.stringLiteral, "\"\\qé\\u1\"", 0, 9, { hasError := true }⟩,
            ⟨.whitespace, " ", 9, 10, {}⟩, ⟨.unknown, "#", 10, 11, { hasError := true }⟩], mid) ∧
        mid.state.diagnostics.toList =
          [⟨.invalidEscape 'q', 1, 3⟩, ⟨.malformedUnicodeEscape, 5, 7⟩,
            ⟨.unrecognizedCharacter '#', 10, 11⟩] ∧
        Source.Diagnosed ⟨"\"\\qé\\u1\" # 0x"⟩
          [⟨.stringLiteral, "\"\\qé\\u1\"", 0, 9, { hasError := true }⟩,
            ⟨.whitespace, " ", 9, 10, {}⟩, ⟨.unknown, "#", 10, 11, { hasError := true }⟩]
          mid.state.diagnostics.toList := by
  have hfit : Source.len ⟨"\"\\qé\\u1\" # 0x"⟩ ≤ maxOffset := by decide
  have hwhole : run ⟨⟨"\"\\qé\\u1\" # 0x"⟩, {}⟩ = .ok
      ([⟨.stringLiteral, "\"\\qé\\u1\"", 0, 9, { hasError := true }⟩,
        ⟨.whitespace, " ", 9, 10, {}⟩, ⟨.unknown, "#", 10, 11, { hasError := true }⟩,
        ⟨.whitespace, " ", 11, 12, {}⟩, ⟨.numberLiteral, "0x", 12, 14, { hasError := true }⟩],
        [⟨.invalidEscape 'q', 1, 3⟩, ⟨.malformedUnicodeEscape, 5, 7⟩,
          ⟨.unrecognizedCharacter '#', 10, 11⟩,
          ⟨.malformedNumber "hexadecimal literal has no digits", 12, 14⟩]) := by decide +kernel
  obtain ⟨tokens, problems, hrun, hpulls⟩ :=
    run_diagnoses ⟨⟨"\"\\qé\\u1\" # 0x"⟩, {}⟩ hfit rfl
  cases hrun.symm.trans hwhole
  obtain ⟨mid, htake, hdiagnosed, hproblems⟩ := hpulls 3
  exact ⟨hfit, rfl, hwhole, mid, htake, hproblems _ rfl, hdiagnosed⟩

end Lexer

end JavaLex
