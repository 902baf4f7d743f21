import JavaLex.Proofs.Pulling

/-! What a token does to the statement it stands in can be told from the token. Five texts matter:
the braces, the semicolon, the colon and the question mark of a conditional. -/

namespace JavaLex

namespace Source

variable {s : Source} {p q : Nat}

theorem Matches.byte_eq {t : Source} {bytes : List UInt8} (hs : s.Matches bytes p)
    (ht : t.Matches bytes q) {i : Nat} (hi : i < bytes.length) :
    s.byte (i + p) = t.byte (i + q) := by
  induction bytes generalizing p q i with
  | nil => cases hi
  | cons b rest ih =>
      cases i with
      | zero => rw [Nat.zero_add, Nat.zero_add, hs.1, ht.1]
      | succ i =>
          rw [Nat.add_assoc, Nat.add_assoc, Nat.add_comm 1 p, Nat.add_comm 1 q]
          exact ih hs.2 ht.2 (Nat.lt_of_succ_lt_succ hi)

theorem slice_of_mem_fixed {tag : Tag} (htag : tag ∈ Tag.fixed) (hp : s.IsBoundary p)
    (hlexed : s.Lexed p tag q) : s.slice p q = tag.text?.getD "" := by
  have htable : ∀ tag ∈ Tag.fixed, (tag.text?.getD "").utf8ByteSize = tag.bytes.length ∧
      Matches ⟨tag.text?.getD ""⟩ tag.bytes 0 := by decide +kernel
  have hspells : s.Matches tag.bytes p ∧ q = p + tag.bytes.length := by
    have hspells := hlexed.spells
    simp only [Tag.fixed, List.mem_append, List.mem_map] at htag
    rcases htag with ⟨op, -, rfl⟩ | ⟨sep, -, rfl⟩
    · exact hspells
    · exact hspells
  obtain ⟨hsize, htext⟩ := htable tag htag
  have hq := hlexed.reach.boundary hp
  rw [hspells.2, ← hsize] at hq ⊢
  apply slice_eq_of_byte_eq hp hq
  intro i hi
  rw [hspells.1.byte_eq htext (by omega), Nat.add_zero]

theorem scan_of_colon (hfit : s.len ≤ maxOffset) (hb : s.byte p = 58) :
    ∃ lexeme, s.scan p = .ok (some lexeme) ∧
      (lexeme.tag = .operator .colon ∨ lexeme.tag = .separator .doubleColon ∧ lexeme.len = 2) := by
  have hp : p < s.len := lt_len_of_byte_ne_zero (by rw [hb]; decide)
  have hentries : (Tag.longestFirst.filter fun entry => entry.1.head? == some 58) =
      [([58, 58], .separator .doubleColon), ([58], .operator .colon)] := by decide +kernel
  have hfixed : s.fixed? p = some ([58, 58], .separator .doubleColon) ∨
      s.fixed? p = some ([58], .operator .colon) := by
    rw [fixed?_eq_find?, hb, hentries]
    by_cases hnext : s.byte (p + 1) = 58
    · exact .inl (by simp [Matches, hb, hnext])
    · exact .inr (by simp [Matches, hb, hnext])
  have hother : Opening.ofByte 58 = .other := by decide
  obtain ⟨lexeme, hscan, -⟩ := scan_of_lt_len hfit hp
  refine ⟨lexeme, hscan, ?_⟩
  have hrule := ((scan_eq_some_iff hp).1 hscan).1
  rw [hb, hother, rule, fixedAt_eq_ok (Nat.le_of_lt hp)] at hrule
  rcases hfixed with hfixed | hfixed
  · rw [hfixed] at hrule
    have hlen := congrArg Prod.snd (Except.ok.inj hrule)
    exact .inr ⟨(congrArg Prod.fst (Except.ok.inj hrule)).symm, (Nat.add_left_cancel hlen).symm⟩
  · rw [hfixed] at hrule
    exact .inl (congrArg Prod.fst (Except.ok.inj hrule)).symm

end Source

/-- The tags that open, close or part statements and conditionals. -/
def Tag.marks : List Tag :=
  [.separator .leftBrace, .separator .rightBrace, .separator .semicolon, .operator .question,
   .operator .colon]

namespace Lexer

variable {lexer : Lexer} {p : Nat} {segment : Segment}

theorem shape_of_scan {lexeme : Lexeme} (hscan : lexer.source.scan p = .ok (some lexeme))
    (htag : lexeme.tag ≠ .blank ∧ lexeme.tag ≠ .newline ∧ lexeme.tag ≠ .separator .atSign)
    (hsegment : lexer.segmentAt p = .ok (some segment)) :
    segment.shape = .single lexeme.tag ∧ segment.len = lexeme.len := by
  rw [segmentAt_of_scan hscan htag] at hsegment
  cases hsegment
  exact ⟨rfl, rfl⟩

/-- All of these but the colon are written in a byte that no other lexeme starts with. -/
theorem lone_of_mem_marks :
    ∀ tag ∈ Tag.marks, tag ≠ .operator .colon →
      Opening.ofByte (Source.byte ⟨tag.text?.getD ""⟩ 0) = .other ∧
      (Tag.longestFirst.filter fun entry =>
        entry.1.head? == some (Source.byte ⟨tag.text?.getD ""⟩ 0)) =
          [([Source.byte ⟨tag.text?.getD ""⟩ 0], tag)] := by
  decide +kernel

theorem mem_marks_plain :
    ∀ tag ∈ Tag.marks, tag ∈ Tag.fixed ∧ (tag.text?.getD "").utf8ByteSize = 1 ∧
      tag ≠ .blank ∧ tag ≠ .newline ∧ tag ≠ .separator .atSign := by
  decide +kernel

theorem shape_of_mark {tag : Tag} (hfit : lexer.source.len ≤ maxOffset) (htag : tag ∈ Tag.marks)
    (hsegment : lexer.segmentAt p = .ok (some segment))
    (hslice : lexer.source.slice? p (p + segment.len) = some (tag.text?.getD "")) :
    segment.shape = .single tag := by
  obtain ⟨-, hsize, hplain⟩ := mem_marks_plain tag htag
  have hbyte := Source.byte_of_slice? hslice (by rw [hsize]; exact Nat.one_pos)
  rw [Nat.zero_add] at hbyte
  by_cases hcolon : tag = .operator .colon
  · subst hcolon
    obtain ⟨lexeme, hscan, hcolon | ⟨hdouble, hlen⟩⟩ := Source.scan_of_colon hfit hbyte
    · have hshape := shape_of_scan hscan (by rw [hcolon]; exact hplain) hsegment
      rw [hshape.1, hcolon]
    · have hshape := shape_of_scan hscan (by rw [hdouble]; decide) hsegment
      obtain ⟨_, _, -, -, hstop⟩ := Source.slice?_eq_some_iff.1 hslice
      rw [hshape.2, hlen, hsize] at hstop
      exact absurd (Nat.add_left_cancel hstop) (by decide)
  · obtain ⟨hother, hentries⟩ := lone_of_mem_marks tag htag hcolon
    have hscan := Source.scan_of_lone hfit hother hentries hbyte
    exact (shape_of_scan hscan hplain hsegment).1

end Lexer

namespace Token

def isOpenBrace (token : Token) : Bool := token.kind == .punctuation && token.text == "\x7b"

def isCloseBrace (token : Token) : Bool := token.kind == .punctuation && token.text == "\x7d"

def isSemicolon (token : Token) : Bool := token.text == ";"

def isColon (token : Token) : Bool := token.text == ":"

/-- The question mark of a conditional, not that of a wildcard. -/
def isQuestion (token : Token) : Bool := token.text == "?" && token.flags.ternary

/-- What a token does to the statement it stands in. -/
inductive Acts (token : Token) (st : StatementState) : StatementState → Prop where
  | openBrace : token.kind = .punctuation → token.text = "\x7b" → Acts token st st.openBrace
  | closeBrace : token.kind = .punctuation → token.text = "\x7d" → Acts token st st.closeBrace
  | semicolon : token.kind = .punctuation → token.text = ";" → Acts token st st.semicolon
  | question {st' : StatementState} :
      token.text = "?" → token.flags.ternary = true → st.question = .ok st' → Acts token st st'
  | colon {st' : StatementState} :
      token.text = ":" →
      token.kind = (if st.closesQuestion then .operator else .punctuation) →
      token.flags = { ternary := st.closesQuestion } → st.colon = .ok st' → Acts token st st'
  /-- Anything else leaves the blocks and what they wait for as they are. -/
  | other {st' : StatementState} :
      token.isOpenBrace = false → token.isCloseBrace = false → token.isSemicolon = false →
      token.isColon = false → token.isQuestion = false →
      st'.outer = st.outer → st'.block.questions = st.block.questions → Acts token st st'

theorem Acts.of_no_mark {token : Token} {st st' : StatementState}
    (h : ∀ tag ∈ Tag.marks, token.text ≠ tag.text?.getD "") (houter : st'.outer = st.outer)
    (hquestions : st'.block.questions = st.block.questions) : token.Acts st st' := by
  have hopen : token.text ≠ "\x7b" := h (.separator .leftBrace) (by decide)
  have hclose : token.text ≠ "\x7d" := h (.separator .rightBrace) (by decide)
  have hsemicolon : token.text ≠ ";" := h (.separator .semicolon) (by decide)
  have hcolon : token.text ≠ ":" := h (.operator .colon) (by decide)
  have hquestion : token.text ≠ "?" := h (.operator .question) (by decide)
  refine .other ?_ ?_ ?_ ?_ ?_ houter hquestions
  · simp [isOpenBrace, hopen]
  · simp [isCloseBrace, hclose]
  · simp [isSemicolon, hsemicolon]
  · simp [isColon, hcolon]
  · simp [isQuestion, hquestion]

theorem Acts.of_wildcard {token : Token} {st st' : StatementState} (htext : token.text = "?")
    (hflag : token.flags.ternary = false) (houter : st'.outer = st.outer)
    (hquestions : st'.block.questions = st.block.questions) : token.Acts st st' := by
  refine .other ?_ ?_ ?_ ?_ ?_ houter hquestions
  · simp [isOpenBrace, htext]
  · simp [isCloseBrace, htext]
  · simp [isSemicolon, htext]
  · simp [isColon, htext]
  · simp [isQuestion, hflag]

end Token

/-- Events that open and close nothing and count no conditional. -/
def StatementEvent.isQuiet : StatementEvent → Bool
  | .operand | .keyword _ | .arrow => true
  | _ => false

theorem StatementState.after_of_isQuiet {st st' : StatementState} {event : StatementEvent}
    (hquiet : event.isQuiet = true) (h : st.after event = .ok st') :
    st'.outer = st.outer ∧ st'.block.questions = st.block.questions := by
  cases event with
  | operand =>
      cases h
      exact ⟨rfl, rfl⟩
  | keyword word =>
      cases h
      exact ⟨rfl, rfl⟩
  | arrow =>
      cases h
      exact ⟨rfl, rfl⟩
  | _ => cases hquiet

theorem StatementState.colon_eq_ok {st st' : StatementState} (h : st.colon = .ok st') :
    st'.outer = st.outer ∧ st'.block.questions = st.block.questions - 1 := by
  have hnone : st.closesQuestion = false → st.block.questions = st.block.questions - 1 := by
    intro hcloses
    have hzero : ¬ 0 < st.block.questions := of_decide_eq_false hcloses
    omega
  rcases st.colon_cases with ⟨-, hcolon⟩ | ⟨hcloses, -, hcolon⟩ | ⟨hcloses, -, hcolon⟩
  · cases h.symm.trans hcolon
    exact ⟨rfl, rfl⟩
  · cases h.symm.trans hcolon
    exact ⟨rfl, hnone hcloses⟩
  · cases h.symm.trans hcolon
    exact ⟨rfl, hnone hcloses⟩

theorem StatementState.question_eq_ok {st st' : StatementState} (h : st.question = .ok st') :
    st'.outer = st.outer ∧ st'.block.questions = st.block.questions + 1 := by
  obtain ⟨questions, hquestions, h⟩ := bind_eq_ok h
  cases h
  unfold checkedAdd at hquestions
  split at hquestions
  · exact ⟨rfl, (Except.ok.inj hquestions).symm⟩
  · cases hquestions

theorem Verdict.settle_eq_ok {v : Verdict} {config : Config} {state : Classifier}
    {typeArgument : Bool} {found : Classified}
    (h : v.settle config state typeArgument = .ok found) :
    found.kind = v.kind ∧ found.flags = { v.flags with hasError := !v.problems.isEmpty } ∧
      (v.event = none ∧ found.state.statement = state.statement ∨
        ∃ event, v.event = some event ∧
          state.statement.after event = .ok found.state.statement) := by
  unfold settle at h
  cases hevent : v.event with
  | none =>
      rw [hevent] at h
      cases h
      exact ⟨rfl, rfl, .inl ⟨rfl, rfl⟩⟩
  | some event =>
      rw [hevent] at h
      obtain ⟨statement, hstatement, h⟩ := bind_eq_ok h
      cases h
      exact ⟨rfl, rfl, .inr ⟨event, rfl, hstatement⟩⟩

theorem Verdict.settle_quiet {v : Verdict} {config : Config} {state : Classifier}
    {typeArgument : Bool} {found : Classified}
    (hquiet : ∀ event, v.event = some event → event.isQuiet = true)
    (h : v.settle config state typeArgument = .ok found) :
    found.state.statement.outer = state.statement.outer ∧
      found.state.statement.block.questions = state.statement.block.questions := by
  obtain ⟨-, -, ⟨-, hst⟩ | ⟨event, hevent, hst⟩⟩ := settle_eq_ok h
  · rw [hst]
    exact ⟨rfl, rfl⟩
  · exact StatementState.after_of_isQuiet (hquiet event hevent) hst

namespace Lexer

variable {lexer : Lexer} {state : Classifier} {start stop : Nat}

theorem judgeAt_quiet (sign : AtSign) :
    ∀ event, (judgeAt sign start stop).event = some event → event.isQuiet = true := by
  intro event hevent
  unfold judgeAt at hevent
  split at hevent <;> cases hevent <;> rfl

theorem judgeWord_quiet {text : String} {ahead : Nat} {v : Verdict}
    (hv : lexer.judgeWord state text ahead = .ok v) :
    ∀ event, v.event = some event → event.isQuiet = true := by
  intro event hevent
  unfold judgeWord at hv
  split at hv
  · cases hv
    cases hevent
    rfl
  · have hname : v.event = some .operand := by
      split at hv
      · obtain ⟨next, -, hv⟩ := bind_eq_ok hv
        split at hv <;> cases hv <;> rfl
      · cases hv
        rfl
    rw [hname] at hevent
    cases hevent
    rfl

theorem judge_quiet {tag : Tag} {ahead : Nat} {v : Verdict} (htag : tag ∉ Tag.marks)
    (hv : lexer.judge state tag start stop ahead = .ok v) :
    ∀ event, v.event = some event → event.isQuiet = true := by
  intro event hevent
  cases tag with
  | word => exact judgeWord_quiet hv event hevent
  | quoted form =>
      obtain ⟨problems, -, hv⟩ := bind_eq_ok hv
      cases hv
      cases hevent
      rfl
  | operator op =>
      cases op with
      | question => exact absurd (by decide) htag
      | colon => exact absurd (by decide) htag
      | _ =>
          cases hv
          cases hevent
          rfl
  | separator sep =>
      cases hv
      cases sep with
      | leftBrace => exact absurd (by decide) htag
      | rightBrace => exact absurd (by decide) htag
      | semicolon => exact absurd (by decide) htag
      | _ =>
          cases hevent
          rfl
  | number form =>
      cases hv
      cases hevent
      rfl
  | unterminated form =>
      cases hv
      cases hevent
      rfl
  | invalidChar =>
      cases hv
      cases hevent
      rfl
  | interiorNull =>
      cases hv
      cases hevent
      rfl
  | _ =>
      cases hv
      cases hevent

theorem classifySegment_quiet {shape : Shape} {found : Classified}
    (hshape : ∀ tag ∈ Tag.marks, shape ≠ .single tag)
    (h : lexer.classifySegment state shape start stop = .ok found) :
    found.state.statement.outer = state.statement.outer ∧
      found.state.statement.block.questions = state.statement.block.questions := by
  cases shape with
  | blanks =>
      cases h
      exact ⟨rfl, rfl⟩
  | marked sign => exact Verdict.settle_quiet (judgeAt_quiet sign) h
  | single tag =>
      obtain ⟨v, hv, h⟩ := bind_eq_ok h
      have htag : tag ∉ Tag.marks := fun htag => hshape tag htag rfl
      exact Verdict.settle_quiet (judge_quiet htag hv) h

theorem judgeQuestion_eq_ok {ahead : Nat} {v : Verdict}
    (h : lexer.judgeQuestion state ahead = .ok v) :
    v = { kind := .operator, flags := { wildcard := true }, event := some .operand } ∨
      v = { kind := .operator, flags := { ternary := true }, event := some .question } := by
  have hwildcard : ∃ wildcard : Bool, v =
      { kind := .operator, flags := { wildcard, ternary := !wildcard },
        event := some (if wildcard then .operand else .question) } := by
    unfold judgeQuestion at h
    split at h
    · obtain ⟨wildcard, -, h⟩ := bind_eq_ok h
      exact ⟨wildcard, (Except.ok.inj h).symm⟩
    · exact ⟨false, (Except.ok.inj h).symm⟩
  obtain ⟨wildcard, rfl⟩ := hwildcard
  cases wildcard with
  | true => exact .inl rfl
  | false => exact .inr rfl

variable {stream mid : Stream} {token : Token}

theorem next_acts (hfit : lexer.source.len ≤ maxOffset) (hsound : lexer.Sound stream)
    (hnext : lexer.next stream = .ok (some (token, mid))) :
    token.Acts stream.state.statement mid.state.statement := by
  obtain ⟨segment, hsegment, hemit, hpos⟩ := next_inv hnext
  have hcovers := (next_eq_some hfit hsound hnext).1
  have hcut := cut_of_segmentAt hfit hsound.boundary.le_len hsegment
  have htext := hcovers.text
  rw [hcovers.start_eq, hcovers.stop_eq, hpos] at htext
  have hmark : ∀ tag ∈ Tag.marks, token.text = tag.text?.getD "" →
      segment.shape = .single tag := by
    intro tag htag heq
    rw [heq] at htext
    exact shape_of_mark hfit htag hsegment htext
  have hfixed : ∀ tag ∈ Tag.marks, segment.shape = .single tag →
      token.text = tag.text?.getD "" := by
    intro tag htag hshape
    have hshaped := hcut.shaped
    rw [hshape] at hshaped
    have hslice := Source.slice_of_mem_fixed (mem_marks_plain tag htag).1 hsound.boundary hshaped.1
    rw [Source.slice, htext] at hslice
    exact hslice
  obtain ⟨found, hfound, -, hemit⟩ := emit_inv hemit
  have hstate : found.state = mid.state := congrArg Prod.snd hemit
  have hkind : token.kind = found.kind := (congrArg (fun r => r.1.kind) hemit).symm
  have hflags : token.flags = found.flags := (congrArg (fun r => r.1.flags) hemit).symm
  rw [← hstate]
  by_cases hshape : ∃ tag ∈ Tag.marks, segment.shape = .single tag
  · obtain ⟨tag, htag, hshape⟩ := hshape
    have htext := hfixed tag htag hshape
    rw [hshape] at hfound
    simp only [Tag.marks, List.mem_cons, List.not_mem_nil, or_false] at htag
    rcases htag with rfl | rfl | rfl | rfl | rfl
    · cases hfound
      exact .openBrace hkind htext
    · cases hfound
      exact .closeBrace hkind htext
    · cases hfound
      exact .semicolon hkind htext
    · obtain ⟨v, hv, hsettle⟩ := bind_eq_ok hfound
      rcases judgeQuestion_eq_ok hv with rfl | rfl
      · cases hsettle
        exact .of_wildcard htext (by rw [hflags]) rfl rfl
      · obtain ⟨st, hst, hsettle⟩ := bind_eq_ok hsettle
        cases hsettle
        exact .question htext (by rw [hflags]) hst
    · obtain ⟨v, hv, hsettle⟩ := bind_eq_ok hfound
      cases hv
      obtain ⟨st, hst, hsettle⟩ := bind_eq_ok hsettle
      cases hsettle
      exact .colon htext hkind hflags hst
  · have hquiet := classifySegment_quiet (fun tag htag heq => hshape ⟨tag, htag, heq⟩) hfound
    exact .of_no_mark (fun tag htag heq => hshape ⟨tag, htag, hmark tag htag heq⟩) hquiet.1 hquiet.2

end Lexer

end JavaLex
