import JavaLex.Proofs.Delimiters
import JavaLex.Proofs.Diagnosing
import JavaLex.Proofs.Folding

/-! What nothing closes. A token that its line or the text cuts off is flagged and has one problem,
which concerns it as a whole; a literal or a comment without the flag has its delimiters. -/

namespace JavaLex

/-- A verdict that calls a lexeme cut off says so once and says nothing else. -/
structure Verdict.Marks (v : Verdict) (start stop : Nat) : Prop where
  of_cut : v.flags.unterminated = true →
    ∃ problem, problem.isUnterminated = true ∧ v.problems = [⟨problem, start, stop⟩]
  of_closed : v.flags.unterminated = false →
    ∀ d ∈ v.problems, d.problem.isUnterminated = false

theorem Verdict.Marks.of_nil {v : Verdict} {start stop : Nat}
    (hflag : v.flags.unterminated = false) (h : v.problems = []) : v.Marks start stop := by
  refine ⟨fun hcut => ?_, fun _ d hd => ?_⟩
  · rw [hflag] at hcut
    cases hcut
  · rw [h] at hd
    cases hd

theorem Escape.diagnostics_closed {base offset : Nat} {found : List (Piece × Nat)}
    {ds : List Diagnostic} (h : diagnostics base offset found = .ok ds) :
    ∀ d ∈ ds, d.problem.isUnterminated = false := by
  induction found generalizing offset ds with
  | nil =>
      cases h
      intro d hd
      cases hd
  | cons entry rest ih =>
      obtain ⟨piece, bytes⟩ := entry
      rw [diagnostics] at h
      split at h
      · exact ih h
      · rename_i problem hproblem
        obtain ⟨start, -, h⟩ := bind_eq_ok h
        obtain ⟨stop, -, h⟩ := bind_eq_ok h
        obtain ⟨more, hmore, rfl⟩ := map_eq_ok h
        refine List.forall_mem_cons.2 ⟨?_, ih hmore⟩
        cases piece <;> cases hproblem <;> rfl

theorem Source.literalProblems_closed {s : Source} {form : QuoteForm} {start stop : Nat}
    {problems : List Diagnostic} (h : s.literalProblems form start stop = .ok problems) :
    ∀ d ∈ problems, d.problem.isUnterminated = false := by
  obtain ⟨reading, hread, rfl | ⟨problem, hproblem, rfl⟩⟩ := literalProblems_eq_ok h
  · rw [Escape.read_eq] at hread
    split at hread
    · obtain ⟨ds, hds, hread⟩ := bind_eq_ok hread
      cases hread
      exact Escape.diagnostics_closed hds
    · cases hread
      exact nofun
  · rcases hproblem with rfl | rfl <;> simp [Problem.isUnterminated]

namespace Tag

/-- Tags of what its line or the text cuts off. -/
def isCut : Tag → Bool
  | unterminated _ | unterminatedComment => true
  | _ => false

def isTextBlock : Tag → Bool
  | quoted .textBlock | unterminated .textBlock => true
  | _ => false

/-- Tags of what has to be closed. -/
def isDelimited : Tag → Bool
  | quoted _ | unterminated _ | comment _ | unterminatedComment => true
  | _ => false

theorem isDelimited_of_isCut {tag : Tag} (h : tag.isCut = true) : tag.isDelimited = true := by
  cases tag with
  | unterminated form => rfl
  | unterminatedComment => rfl
  | _ => cases h

theorem isDelimited_of_kind {tag : Tag} {text : String} {ternary : Bool}
    (h : tag.kind text ternary = .stringLiteral ∨ tag.kind text ternary = .charLiteral ∨
      tag.kind text ternary = .comment) : tag.isDelimited = true := by
  cases tag with
  | word =>
      simp only [kind] at h
      split at h <;> simp at h
  | operator op =>
      cases op with
      | colon => cases ternary <;> simp [kind] at h
      | _ => simp [kind] at h
  | quoted form => rfl
  | unterminated form => rfl
  | comment form => rfl
  | unterminatedComment => rfl
  | _ => simp [kind] at h

theorem kind_of_isCut {tag : Tag} (text : String) (ternary : Bool) (h : tag.isCut = true) :
    tag.kind text ternary ∈ [Kind.comment, .stringLiteral, .charLiteral] := by
  cases tag with
  | unterminated form => cases form <;> simp [kind, QuoteForm.kind]
  | unterminatedComment => simp [kind]
  | _ => cases h

end Tag

/-- Only the opening delimiter of a text block starts with two quotes more. -/
theorem Source.OpensQuote.textBlock_iff {s : Source} {form : QuoteForm} {p q : Nat} {text : String}
    (h : s.OpensQuote form p) (htext : s.slice? p q = some text)
    (hle : p + delimiterLen form ≤ q) (hchar : form ≠ .char) :
    form = .textBlock ↔ ∃ rest, text = QuoteForm.textBlock.delimiter ++ rest := by
  constructor
  · rintro rfl
    exact (writes_quotes .textBlock).exists_append h.1 htext hle
  · rintro ⟨rest, rfl⟩
    have hblock := (writes_quotes .textBlock).matches_of_slice? htext
    cases form with
    | string => exact absurd hblock (h.2 rfl)
    | textBlock => rfl
    | char => exact absurd rfl hchar

namespace Lexer

variable {lexer : Lexer} {state : Classifier} {start stop : Nat}

theorem judgeWord_flags {text : String} {ahead : Nat} {v : Verdict}
    (h : lexer.judgeWord state text ahead = .ok v) :
    v.flags.unterminated = false ∧ v.flags.textBlock = false ∧ v.problems = [] := by
  unfold judgeWord at h
  split at h
  · cases h
    exact ⟨rfl, rfl, rfl⟩
  · split at h
    · obtain ⟨next, -, h⟩ := bind_eq_ok h
      split at h <;> cases h <;> exact ⟨rfl, rfl, rfl⟩
    · cases h
      exact ⟨rfl, rfl, rfl⟩

theorem judge_flags {tag : Tag} {ahead : Nat} {v : Verdict}
    (h : lexer.judge state tag start stop ahead = .ok v) :
    v.flags.unterminated = tag.isCut ∧ v.flags.textBlock = tag.isTextBlock := by
  cases tag with
  | word =>
      obtain ⟨hcut, hblock, -⟩ := judgeWord_flags h
      exact ⟨hcut, hblock⟩
  | quoted form =>
      obtain ⟨problems, -, h⟩ := bind_eq_ok h
      cases h
      cases form <;> exact ⟨rfl, rfl⟩
  | unterminated form =>
      cases h
      cases form <;> exact ⟨rfl, rfl⟩
  | operator op =>
      cases op with
      | question => rcases judgeQuestion_eq_ok h with rfl | rfl <;> exact ⟨rfl, rfl⟩
      | _ =>
          cases h
          exact ⟨rfl, rfl⟩
  | _ =>
      cases h
      exact ⟨rfl, rfl⟩

theorem judge_marks {tag : Tag} {ahead : Nat} {v : Verdict}
    (h : lexer.judge state tag start stop ahead = .ok v) : v.Marks start stop := by
  cases tag with
  | word =>
      obtain ⟨hcut, -, hproblems⟩ := judgeWord_flags h
      exact .of_nil hcut hproblems
  | number form =>
      cases h
      refine ⟨nofun, fun _ => ?_⟩
      unfold Source.numberProblems
      split <;> simp [Problem.isUnterminated]
  | quoted form =>
      obtain ⟨problems, hproblems, h⟩ := bind_eq_ok h
      cases h
      exact ⟨nofun, fun _ => Source.literalProblems_closed hproblems⟩
  | unterminated form =>
      cases h
      exact ⟨fun _ => ⟨_, rfl, rfl⟩, nofun⟩
  | unterminatedComment =>
      cases h
      exact ⟨fun _ => ⟨_, rfl, rfl⟩, nofun⟩
  | operator op =>
      cases op with
      | question => rcases judgeQuestion_eq_ok h with rfl | rfl <;> exact .of_nil rfl rfl
      | _ =>
          cases h
          exact .of_nil rfl rfl
  | invalidChar =>
      cases h
      exact ⟨nofun, fun _ => by simp [Problem.isUnterminated]⟩
  | interiorNull =>
      cases h
      exact ⟨nofun, fun _ => by simp [Problem.isUnterminated]⟩
  | _ =>
      cases h
      exact .of_nil rfl rfl

theorem judgeAt_marks (sign : AtSign) : (judgeAt sign start stop).Marks start stop := by
  unfold judgeAt
  split
  · exact .of_nil rfl rfl
  · exact .of_nil rfl rfl
  · exact .of_nil rfl rfl
  · exact ⟨fun _ => ⟨_, rfl, rfl⟩, nofun⟩

end Lexer

namespace Token

/-- What a string, a text block or a character literal is opened and closed by. -/
def delimiter (token : Token) : String :=
  if token.kind = .charLiteral then "'" else if token.flags.textBlock then "\"\"\"" else "\""

/-- How a token that has to be closed ends. -/
structure Ends (token : Token) (s : Source) : Prop where
  cut_kind : token.flags.unterminated = true →
    token.kind ∈ [.comment, .stringLiteral, .charLiteral, .annotationMark]
  /-- Only the literals that fit on a line are cut off before the text ends. -/
  cut_stop : token.flags.unterminated = true →
    token.stop = s.len ∨
      token.kind ∈ [.stringLiteral, .charLiteral] ∧ token.flags.textBlock = false ∧
        (s.char? token.stop = some '\n' ∨ s.char? token.stop = some '\r')
  literal : token.kind ∈ [.stringLiteral, .charLiteral] → token.flags.unterminated = false →
    ∃ content, token.text = token.delimiter ++ content ++ token.delimiter
  comment : token.kind = .comment → token.flags.unterminated = false →
    (∃ rest, token.text = "/*" ++ rest) → ∃ content, token.text = "/*" ++ content ++ "*/"
  textBlock_iff : token.kind = .stringLiteral →
    (token.flags.textBlock = true ↔ ∃ rest, token.text = "\"\"\"" ++ rest)

end Token

namespace Token.Ends

variable {token : Token} {s : Source} {tag : Tag} {form : QuoteForm}

theorem of_other (hflag : token.flags.unterminated = false)
    (hkind : token.kind ∉ [Kind.comment, .stringLiteral, .charLiteral]) : token.Ends s := by
  simp only [List.mem_cons, List.not_mem_nil, or_false, not_or] at hkind
  refine ⟨?_, ?_, ?_, ?_, ?_⟩ <;> simp [hflag, hkind]

section

variable (htext : s.slice? token.start token.stop = some token.text)

include htext

theorem textBlock_iff_of_opens (hkind : token.kind = form.kind)
    (hblock : token.flags.textBlock = (form == .textBlock))
    (hopens : s.OpensQuote form token.start)
    (hle : token.start + Source.delimiterLen form ≤ token.stop)
    (hstring : token.kind = .stringLiteral) :
    token.flags.textBlock = true ↔ ∃ rest, token.text = "\"\"\"" ++ rest := by
  have hchar : form ≠ .char := by
    rintro rfl
    rw [hkind] at hstring
    cases hstring
  rw [hblock, beq_iff_eq]
  exact hopens.textBlock_iff htext hle hchar

theorem of_quoted (hkind : token.kind = form.kind) (hflag : token.flags.unterminated = false)
    (hblock : token.flags.textBlock = (form == .textBlock))
    (hends : s.Ends token.start token.stop (.quoted form)) : token.Ends s := by
  obtain ⟨hopens, hle, hcloses⟩ := hends
  have hdelimiter : token.delimiter = form.delimiter := by
    rw [delimiter, hkind, hblock]
    cases form <;> rfl
  refine ⟨?_, ?_, ?_, ?_, ?_⟩
  · simp [hflag]
  · simp [hflag]
  · intro _ _
    rw [hdelimiter]
    rw [← form.length_quotes] at hcloses hle
    exact ⟨_, (Source.writes_quotes form).eq_between (Source.writes_quotes form) hopens.1 hcloses
      htext (by omega)⟩
  · intro hcomment
    rw [hkind] at hcomment
    cases form <;> cases hcomment
  · exact textBlock_iff_of_opens htext hkind hblock hopens (by omega)

theorem of_unterminated (hkind : token.kind = form.kind)
    (hflag : token.flags.unterminated = true)
    (hblock : token.flags.textBlock = (form == .textBlock)) (hstop : token.stop ≤ s.len)
    (hends : s.Ends token.start token.stop (.unterminated form)) : token.Ends s := by
  obtain ⟨hopens, hle, hcut⟩ := hends
  have hliteral : token.kind ∈ [Kind.stringLiteral, .charLiteral] := by
    rw [hkind]
    cases form <;> decide
  refine ⟨?_, ?_, ?_, ?_, ?_⟩
  · exact fun _ => List.mem_cons_of_mem _ (List.mem_append_left [Kind.annotationMark] hliteral)
  · intro _
    rcases hcut with hend | ⟨hline, hbreak⟩
    · exact .inl hend
    · rcases Nat.lt_or_eq_of_le hstop with hlt | hend
      · refine .inr ⟨hliteral, ?_, Source.char?_of_isLineEnd hlt hbreak⟩
        rw [hblock]
        exact beq_eq_false_iff_ne.2 hline
      · exact .inl hend
  · intro _ hclosed
    rw [hflag] at hclosed
    cases hclosed
  · intro _ hclosed
    rw [hflag] at hclosed
    cases hclosed
  · exact textBlock_iff_of_opens htext hkind hblock hopens hle

theorem of_comment {which : CommentForm} (hkind : token.kind = .comment)
    (hflag : token.flags.unterminated = false)
    (hends : s.Ends token.start token.stop (.comment which)) : token.Ends s := by
  have hopen : Source.Writes [Byte.slash, Byte.star] "/*" :=
    ⟨rfl, by decide +kernel, by decide, by decide⟩
  have hclose : Source.Writes [Byte.star, Byte.slash] "*/" :=
    ⟨rfl, by decide +kernel, by decide, by decide⟩
  refine ⟨?_, ?_, ?_, ?_, ?_⟩
  · simp [hflag]
  · simp [hflag]
  · simp [hkind]
  · rintro - - ⟨rest, hrest⟩
    rw [hrest] at htext
    have hopens := hopen.matches_of_slice? htext
    obtain ⟨hle, hcloses⟩ := hends hopens
    rw [hrest]
    exact ⟨_, hopen.eq_between hclose hopens hcloses htext hle⟩
  · simp [hkind]

omit htext in
theorem of_cut (hkind : token.kind ∈ [Kind.comment, .annotationMark])
    (hflag : token.flags.unterminated = true) (hend : token.stop = s.len) : token.Ends s := by
  have hcases : token.kind = .comment ∨ token.kind = .annotationMark := by simpa using hkind
  refine ⟨?_, fun _ => .inl hend, ?_, ?_, ?_⟩
  · rcases hcases with h | h <;> simp [h]
  · rcases hcases with h | h <;> simp [h]
  · simp [hflag]
  · rcases hcases with h | h <;> simp [h]

theorem of_tag {text : String} {ternary : Bool} (hkind : token.kind = tag.kind text ternary)
    (hflag : token.flags.unterminated = tag.isCut)
    (hblock : token.flags.textBlock = tag.isTextBlock) (hstop : token.stop ≤ s.len)
    (hends : s.Ends token.start token.stop tag) : token.Ends s := by
  cases htag : tag.isDelimited with
  | false =>
      refine .of_other ?_ ?_
      · rw [hflag, Bool.eq_false_iff]
        intro hcut
        rw [Tag.isDelimited_of_isCut hcut] at htag
        cases htag
      · intro hmem
        simp only [List.mem_cons, List.not_mem_nil, or_false, hkind] at hmem
        rw [Tag.isDelimited_of_kind (by tauto)] at htag
        cases htag
  | true =>
      cases tag with
      | quoted form => exact .of_quoted htext hkind hflag (by rw [hblock]; cases form <;> rfl) hends
      | unterminated form =>
          exact .of_unterminated htext hkind hflag (by rw [hblock]; cases form <;> rfl) hstop hends
      | comment which => exact .of_comment htext hkind hflag hends
      | unterminatedComment => exact .of_cut (by simp [hkind, Tag.kind]) hflag hends
      | _ => cases htag

end

end Token.Ends

/-- How a token of a run ends, and what the diagnostics of the run say of it. -/
structure Source.Terminates (s : Source) (tokens : List Token) (problems : List Diagnostic)
    (token : Token) : Prop where
  unterminated_iff : token.flags.unterminated = true ↔
    ∃ d ∈ problems, d.start = token.start ∧ d.stop = token.stop ∧ d.problem.isUnterminated = true
  /-- Nothing else is reported of a token that is cut off. -/
  only : ∀ d ∈ problems, d.start = token.start → d.stop = token.stop →
    d.problem.isUnterminated = true →
      token.flags.hasError = true ∧ problems.filter token.holds = [d]
  ends : token.Ends s
  last : token.flags.unterminated = true → token.stop = s.len → tokens.getLast? = some token

namespace Lexer

variable {lexer : Lexer} {stream mid final : Stream} {token : Token} {later : List Token}

section

variable (hfit : lexer.source.len ≤ maxOffset) (hsound : lexer.Sound stream)
  (hnext : lexer.next stream = .ok (some (token, mid)))

include hfit hsound hnext

theorem stop_of_annotationMark (hkind : token.kind = .annotationMark)
    (hcut : token.flags.unterminated = true) : token.stop = lexer.source.len := by
  obtain ⟨segment, hsegment, hemit, hpos⟩ := next_inv hnext
  obtain ⟨hcovers, hmid⟩ := next_eq_some hfit hsound hnext
  obtain ⟨found, hfound, -, hemit⟩ := emit_inv hemit
  have hflags : found.flags = token.flags := congrArg (fun r => r.1.flags) hemit
  have hkinds : found.kind = token.kind := congrArg (fun r => r.1.kind) hemit
  rw [hkind] at hkinds
  rw [← hflags] at hcut
  rw [hcovers.stop_eq, hpos]
  obtain ⟨lexeme, hscan, hshape⟩ := segmentAt_inv hsegment
  rcases hshape with ⟨-, hshape, -⟩ | ⟨htag, sign, n, hshape, hlen, hsign⟩ | ⟨hshape, -⟩
  · rw [hshape] at hfound
    cases hfound
    cases hcut
  · rw [hshape] at hfound
    obtain ⟨-, hverdict, -⟩ := Verdict.settle_eq_ok hfound
    rw [hverdict] at hcut
    have hunbalanced : sign = .annotationMark false := by
      cases sign with
      | annotationMark balanced =>
          cases balanced with
          | true => cases hcut
          | false => rfl
      | _ => cases hcut
    rw [hunbalanced] at hsign
    have hle := (Source.lexed_of_scan hfit hsound.boundary.le_len hscan).2.reach.le_len
    rw [hlen, ← Nat.add_assoc]
    exact Source.annotationAt_unbalanced hfit hle hsign
  · rw [hshape] at hfound
    obtain ⟨v, hv, hsettle⟩ := bind_eq_ok hfound
    obtain ⟨hverdict, hmarks, -⟩ := Verdict.settle_eq_ok hsettle
    have htag : lexeme.tag.isCut = true := by rw [← (judge_flags hv).1, ← hcut, hmarks]
    have hmem := Tag.kind_of_isCut (lexer.source.slice stream.pos (stream.pos + segment.len))
      v.flags.ternary htag
    rw [← judge_kind hv, ← hverdict, hkinds] at hmem
    exact absurd hmem (by decide)

theorem next_ends : token.Ends lexer.source := by
  obtain ⟨hcovers, hmid⟩ := next_eq_some hfit hsound hnext
  have htext := hcovers.text
  have hstart : token.start ≤ lexer.source.len := hcovers.start_eq ▸ hsound.boundary.le_len
  have hstop : token.stop ≤ lexer.source.len := hcovers.stop_eq ▸ hmid.boundary.le_len
  obtain ⟨lexeme, hscan, -, hjudged⟩ := next_judged hfit hsound hnext
  have hends := Source.ends_of_scan hfit hstart hscan
  cases hjudged with
  | blanks _ _ _ hkind hflags _ => exact .of_other (by rw [hflags]) (by rw [hkind]; decide)
  | @marked sign _ _ _ _ hsettle =>
      obtain ⟨hkind, hflags, -⟩ := Verdict.settle_eq_ok hsettle
      simp only [judgeAt_kind] at hkind hflags
      cases hcut : token.flags.unterminated with
      | false => exact .of_other hcut (by cases sign <;> simp [hkind, AtSign.kind])
      | true =>
          have hmark : token.kind = .annotationMark := by
            rw [hflags] at hcut
            cases sign with
            | annotationMark balanced => exact hkind
            | _ => cases hcut
          have hend := stop_of_annotationMark hfit hsound hnext hmark hcut
          exact .of_cut (by rw [hmark]; decide) hcut hend
  | single hlen hv hsettle =>
      obtain ⟨hkind, hflags, -⟩ := Verdict.settle_eq_ok hsettle
      obtain ⟨hcut, hblock⟩ := judge_flags hv
      rw [judge_kind hv] at hkind
      rw [← hlen] at hends
      simp only at hkind hflags
      exact .of_tag htext hkind (by rw [hflags]; exact hcut) (by rw [hflags]; exact hblock) hstop
        hends

section

variable (hlimit : lexer.config.errorLimit = 0)

include hlimit

theorem next_marks : ∃ v : Verdict, v.Marks token.start token.stop ∧
    token.flags.unterminated = v.flags.unterminated ∧
    mid.state.diagnostics.toList = stream.state.diagnostics.toList ++ v.problems := by
  have hsettled : ∀ {v : Verdict} {typeArgument : Bool}, v.Marks token.start token.stop →
      v.settle lexer.config stream.state typeArgument =
        .ok ⟨token.kind, token.flags, mid.state⟩ →
      ∃ v : Verdict, v.Marks token.start token.stop ∧
        token.flags.unterminated = v.flags.unterminated ∧
        mid.state.diagnostics.toList = stream.state.diagnostics.toList ++ v.problems := by
    intro v typeArgument hmarks hsettle
    obtain ⟨-, hflags, -⟩ := Verdict.settle_eq_ok hsettle
    simp only at hflags
    exact ⟨v, hmarks, by rw [hflags], Verdict.settle_diagnostics hlimit hsettle⟩
  obtain ⟨lexeme, -, -, hjudged⟩ := next_judged hfit hsound hnext
  cases hjudged with
  | blanks _ _ _ _ hflags hstate =>
      refine ⟨{ kind := .whitespace }, .of_nil rfl rfl, by rw [hflags], ?_⟩
      rw [hstate]
      exact (List.append_nil _).symm
  | marked _ _ _ hsettle => exact hsettled (judgeAt_marks _) hsettle
  | single _ hv hsettle => exact hsettled (judge_marks hv) hsettle

theorem filter_holds (hrest : lexer.Pulls mid later final) :
    ∃ problems, mid.state.diagnostics.toList = stream.state.diagnostics.toList ++ problems ∧
      token.Reported lexer.source problems ∧
      final.state.diagnostics.toList.filter token.holds = problems := by
  obtain ⟨hcovers, hmid⟩ := next_eq_some hfit hsound hnext
  obtain ⟨problems, hnow, hreported⟩ := next_reported hfit hlimit hsound hnext
  obtain ⟨more, hmore, hbehind⟩ := hrest.diagnostics_eq hfit hlimit hmid
  have hnonempty : ∀ d ∈ final.state.diagnostics.toList, d.start < d.stop := by
    intro d hd
    exact ((hrest.sound hfit hmid).state.within d (Array.mem_toList_iff.1 hd)).nonempty
  refine ⟨problems, hnow, hreported, ?_⟩
  rw [hmore, hnow] at hnonempty ⊢
  have hbefore : stream.state.diagnostics.toList.filter token.holds = [] := by
    refine List.filter_eq_nil_iff.2 fun d hd hholds => ?_
    have hwithin := hsound.state.within d (Array.mem_toList_iff.1 hd)
    have hstart := (Token.holds_iff.1 hholds).1
    have hlt := hwithin.nonempty
    have hle := hwithin.le_stop
    rw [hcovers.start_eq] at hstart
    omega
  have hlater : more.filter token.holds = [] := by
    refine List.filter_eq_nil_iff.2 fun d hd hholds => ?_
    have hlt := hnonempty d (List.mem_append_right _ hd)
    have hle := (Token.holds_iff.1 hholds).2
    have hstart := hbehind d hd
    rw [hcovers.stop_eq] at hle
    omega
  have hself : problems.filter token.holds = problems :=
    List.filter_eq_self.2 fun d hd => hreported.holds hd
  rw [List.filter_append, List.filter_append, hbefore, hself, hlater, List.append_nil,
    List.nil_append]

theorem next_terminates (hrest : lexer.Pulls mid later final) (before : List Token) :
    lexer.source.Terminates (before ++ token :: later) final.state.diagnostics.toList token := by
  obtain ⟨hcovers, hmid⟩ := next_eq_some hfit hsound hnext
  obtain ⟨v, hmarks, hflag, hnow⟩ := next_marks hfit hsound hnext hlimit
  obtain ⟨problems, hnow', hreported, hfilter⟩ := filter_holds hfit hsound hnext hlimit hrest
  have hproblems : problems = v.problems := List.append_cancel_left (hnow'.symm.trans hnow)
  subst hproblems
  have hown : ∀ d ∈ final.state.diagnostics.toList, d.start = token.start → d.stop = token.stop →
      d ∈ v.problems := by
    intro d hd hstart hstop
    rw [← hfilter, List.mem_filter]
    exact ⟨hd, Token.holds_iff.2 ⟨Nat.le_of_eq hstart.symm, Nat.le_of_eq hstop⟩⟩
  have hcut : ∀ d ∈ v.problems, d.problem.isUnterminated = true →
      token.flags.unterminated = true := by
    intro d hd hproblem
    by_contra hclosed
    rw [hflag, Bool.not_eq_true] at hclosed
    rw [hmarks.of_closed hclosed d hd] at hproblem
    cases hproblem
  refine ⟨⟨?_, ?_⟩, ?_, next_ends hfit hsound hnext, ?_⟩
  · intro hset
    obtain ⟨problem, hproblem, heq⟩ := hmarks.of_cut (hflag ▸ hset)
    have hmem : ⟨problem, token.start, token.stop⟩ ∈
        final.state.diagnostics.toList.filter token.holds := by
      rw [hfilter, heq]
      exact List.mem_singleton_self _
    exact ⟨_, (List.mem_filter.1 hmem).1, rfl, rfl, hproblem⟩
  · rintro ⟨d, hd, hstart, hstop, hproblem⟩
    exact hcut d (hown d hd hstart hstop) hproblem
  · intro d hd hstart hstop hproblem
    have hmem := hown d hd hstart hstop
    obtain ⟨problem, -, heq⟩ := hmarks.of_cut (hflag ▸ hcut d hmem hproblem)
    refine ⟨?_, ?_⟩
    · rw [hreported.flagged, heq]
      rfl
    · rw [hfilter, heq]
      rw [heq] at hmem
      rw [List.mem_singleton.1 hmem]
  · intro _ hstop
    have hlength := hrest.length_le hfit hmid
    have hle := (hrest.sound hfit hmid).boundary.le_len
    rw [← hcovers.stop_eq, hstop] at hlength
    have hnil : later = [] := List.length_eq_zero_iff.1 (by omega)
    rw [hnil]
    exact List.getLast?_concat

end

end

/-- In a run without a limit a token is cut off just where a diagnostic of the whole token says so.
It is then the last of the text, or a literal at the end of its line. -/
theorem run_terminates (lexer : Lexer) (hfit : lexer.source.len ≤ maxOffset)
    (hlimit : lexer.config.errorLimit = 0) :
    ∃ tokens problems, lexer.run = .ok (tokens, problems) ∧
      ∀ token ∈ tokens, lexer.source.Terminates tokens problems token := by
  obtain ⟨tokens, final, hdrain, hpulls, hend, -⟩ := exists_drain hfit
  refine ⟨tokens, final.state.diagnostics.toList, ?_, ?_⟩
  · rw [run, hdrain]
    rfl
  · intro token hmem
    obtain ⟨before, later, stream, mid, rfl, hsound, hnext, hrest⟩ :=
      hpulls.exists_pull hfit lexer.sound_start hmem
    exact next_terminates hfit hsound hnext hlimit hrest before

/-- A string that its line cuts off behind a backslash, the shortest comment, a text block, and an
annotation that the text cuts off. -/
theorem run_terminates_kinds :
    Source.len ⟨"\"a\\\n/**/\"\"\"b\"\"\"@d(e"⟩ ≤ maxOffset ∧ ({} : Config).errorLimit = 0 ∧
      ∃ tokens problems,
        run ⟨⟨"\"a\\\n/**/\"\"\"b\"\"\"@d(e"⟩, {}⟩ = .ok (tokens, problems) ∧
        problems = [⟨.unterminated .string, 0, 3⟩, ⟨.unbalancedArguments, 15, 19⟩] ∧
        (∀ token ∈ tokens,
          Source.Terminates ⟨"\"a\\\n/**/\"\"\"b\"\"\"@d(e"⟩ tokens problems token) ∧
        ⟨.annotationMark, "@d(e", 15, 19, { hasError := true, unterminated := true }⟩ ∈ tokens := by
  have hrun : run ⟨⟨"\"a\\\n/**/\"\"\"b\"\"\"@d(e"⟩, {}⟩ = .ok
      ([⟨.stringLiteral, "\"a\\", 0, 3, { hasError := true, unterminated := true }⟩,
        ⟨.whitespace, "\n", 3, 4, {}⟩, ⟨.comment, "/**/", 4, 8, {}⟩,
        ⟨.stringLiteral, "\"\"\"b\"\"\"", 8, 15, { textBlock := true }⟩,
        ⟨.annotationMark, "@d(e", 15, 19, { hasError := true, unterminated := true }⟩],
        [⟨.unterminated .string, 0, 3⟩, ⟨.unbalancedArguments, 15, 19⟩]) := by decide +kernel
  obtain ⟨tokens, problems, hfound, hall⟩ :=
    run_terminates ⟨⟨"\"a\\\n/**/\"\"\"b\"\"\"@d(e"⟩, {}⟩ (by decide) rfl
  obtain ⟨htokens, hproblems⟩ := Prod.mk.inj (Except.ok.inj (hrun.symm.trans hfound))
  refine ⟨by decide, rfl, tokens, problems, hfound, hproblems.symm, hall, ?_⟩
  rw [← htokens]
  simp

end Lexer

end JavaLex
