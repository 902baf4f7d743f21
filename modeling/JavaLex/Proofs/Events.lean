import JavaLex.Proofs.Effects

/-! What a token is to the statement it stands in, told from the token alone, and what makes a word
a label. -/

namespace JavaLex

namespace StatementEvent

def ofOperator (ternary : Bool) (text : String) : StatementEvent :=
  if text = "?" then if ternary then .question else .operand
  else if text = ":" then .colon
  else if text = "->" then .arrow
  else .operand

/-- What a separator, or a colon that is none of a conditional, is to a statement. -/
def ofSeparator (text : String) : StatementEvent :=
  if text = ":" then .colon
  else if text = "\x7b" then .openBrace
  else if text = "\x7d" then .closeBrace
  else if text = ";" then .semicolon
  else .operand

/-- None for what statements do not notice. -/
def of? (kind : Kind) (ternary : Bool) (text : String) : Option StatementEvent :=
  match kind with
  | .whitespace | .comment => none
  | .keyword => some (.keyword text)
  | .operator => some (ofOperator ternary text)
  | .punctuation => some (ofSeparator text)
  | _ => some .operand

end StatementEvent

def Token.event? (token : Token) : Option StatementEvent :=
  StatementEvent.of? token.kind token.flags.ternary token.text

/-- A token changes the statement as its event does. -/
def Token.Moves (token : Token) (st st' : StatementState) : Prop :=
  token.event? = none ∧ st' = st ∨
    ∃ event, token.event? = some event ∧ st.after event = .ok st'

namespace Tag

theorem operator_mem_fixed (op : Operator) : operator op ∈ fixed :=
  List.mem_append_left _ (List.mem_map_of_mem op.mem_all)

theorem separator_mem_fixed (sep : Separator) : separator sep ∈ fixed :=
  List.mem_append_right _ (List.mem_map_of_mem sep.mem_all)

end Tag

theorem Separator.of?_text (sep : Separator) :
    StatementEvent.of? .punctuation false sep.text = some sep.event := by
  cases sep <;> rfl

namespace Source

variable {s : Source} {p : Nat}

theorem nameAt?_of_interfaceWord {extent : AnnotationExtent} {n : Nat}
    (h : s.annotationAt extent p = .ok (.interfaceWord, n)) :
    s.nameAt? p = .ok (some ("interface", n)) := by
  obtain ⟨name?, hname, h⟩ := bind_eq_ok h
  rw [hname]
  split at h
  · cases h
  · rename_i name len
    split at h
    · rename_i heq
      cases h
      rw [heq]
    · split at h
      · cases h
      · obtain ⟨more, -, h⟩ := bind_eq_ok h
        simp only at h
        split at h
        · cases h
        · obtain ⟨found, -, h⟩ := bind_eq_ok h
          split at h
          · obtain ⟨⟨balanced, arguments⟩, -, h⟩ := bind_eq_ok h
            cases h
          · cases h

theorem slice?_of_nameAt? {name : String} {n : Nat} (h : s.nameAt? p = .ok (some (name, n))) :
    s.slice? p (p + n) = some name := by
  obtain ⟨found, -, h⟩ := bind_eq_ok h
  split at h
  · obtain ⟨text, hslice, h⟩ := Option.map_eq_some_iff.1 (Except.ok.inj h)
    cases h
    exact hslice
  · cases h

end Source

namespace Lexer

variable {lexer : Lexer} {state : Classifier} {start stop p : Nat} {segment : Segment}

theorem segmentAt_inv (h : lexer.segmentAt p = .ok (some segment)) :
    ∃ lexeme, lexer.source.scan p = .ok (some lexeme) ∧
      ((lexeme.tag = .blank ∨ lexeme.tag = .newline) ∧ segment.shape = .blanks ∧
          (∃ n, lexer.source.blanksLen (p + lexeme.len) = .ok n ∧ segment.len = lexeme.len + n) ∨
        lexeme.tag = .separator .atSign ∧
          (∃ sign n, segment.shape = .marked sign ∧ segment.len = lexeme.len + n ∧
            lexer.source.annotationAt lexer.config.annotations (p + lexeme.len) =
              .ok (sign, n)) ∨
        segment.shape = .single lexeme.tag ∧ segment.len = lexeme.len) := by
  obtain ⟨found, hscan, h⟩ := bind_eq_ok h
  cases found with
  | none => cases h
  | some lexeme =>
      refine ⟨lexeme, hscan, ?_⟩
      simp only at h
      split at h
      · rename_i hblank
        obtain ⟨n, hn, h⟩ := bind_eq_ok h
        cases h
        exact .inl ⟨hblank.2, rfl, n, hn, rfl⟩
      · split at h
        · rename_i hat
          obtain ⟨⟨sign, n⟩, hsign, h⟩ := bind_eq_ok h
          cases h
          exact .inr (.inl ⟨hat, sign, n, rfl, rfl, hsign⟩)
        · cases h
          exact .inr (.inr ⟨rfl, rfl⟩)

theorem text_of_marked {lexeme : Lexeme} {sign : AtSign} {n : Nat}
    (hfit : lexer.source.len ≤ maxOffset) (hp : lexer.source.IsBoundary p)
    (hlexed : lexer.source.Lexed p (.separator .atSign) (p + lexeme.len))
    (hsign : lexer.source.annotationAt lexer.config.annotations (p + lexeme.len) =
      .ok (sign, n)) :
    (sign = .punctuation → lexer.source.slice p (p + (lexeme.len + n)) = "@") ∧
      (sign = .interfaceWord → lexer.source.slice p (p + (lexeme.len + n)) = "@interface") := by
  have hat := Source.slice_of_mem_fixed (Tag.separator_mem_fixed _) hp hlexed
  constructor
  · rintro rfl
    have hzero : n = 0 :=
      ((Source.annotationAt_returns hfit _ hlexed.reach.le_len).of_eq_ok hsign).2 rfl
    rw [hzero]
    exact hat
  · rintro rfl
    have hname := Source.slice?_of_nameAt? (Source.nameAt?_of_interfaceWord hsign)
    have hfirst := Source.slice?_eq_some_slice hp (hlexed.reach.boundary hp) hlexed.reach.le
    rw [← Nat.add_assoc, Source.slice, Source.slice?_trans hfirst hname, hat]
    rfl

theorem judgeWord_event {text : String} {ahead : Nat} {v : Verdict}
    (h : lexer.judgeWord state text ahead = .ok v) :
    v.event = StatementEvent.of? v.kind v.flags.ternary text := by
  unfold judgeWord at h
  split at h
  · cases h
    rfl
  · split at h
    · obtain ⟨next, -, h⟩ := bind_eq_ok h
      split at h <;> cases h <;> rfl
    · cases h
      rfl

theorem judge_event {tag : Tag} {ahead : Nat} {v : Verdict}
    (hstart : lexer.source.IsBoundary start) (hlexed : lexer.source.Lexed start tag stop)
    (h : lexer.judge state tag start stop ahead = .ok v) :
    v.event = StatementEvent.of? v.kind v.flags.ternary (lexer.source.slice start stop) := by
  cases tag with
  | word => exact judgeWord_event h
  | quoted form =>
      obtain ⟨problems, -, h⟩ := bind_eq_ok h
      cases h
      cases form <;> rfl
  | unterminated form =>
      cases h
      cases form <;> rfl
  | operator op =>
      have htext := Source.slice_of_mem_fixed (Tag.operator_mem_fixed op) hstart hlexed
      rw [htext]
      cases op with
      | question =>
          rcases judgeQuestion_eq_ok h with rfl | rfl
          · rfl
          · rfl
      | colon =>
          cases h
          unfold judgeColon
          cases state.statement.closesQuestion <;> rfl
      | _ =>
          cases h
          rfl
  | separator sep =>
      have htext := Source.slice_of_mem_fixed (Tag.separator_mem_fixed sep) hstart hlexed
      rw [htext]
      cases h
      exact sep.of?_text.symm
  | endOfText => exact hlexed.spells.elim
  | _ =>
      cases h
      rfl

theorem judgeAt_event {sign : AtSign} {text : String} (hat : sign = .punctuation → text = "@")
    (hword : sign = .interfaceWord → text = "@interface") :
    (judgeAt sign start stop).event = StatementEvent.of? (judgeAt sign start stop).kind
      (judgeAt sign start stop).flags.ternary text := by
  cases sign with
  | punctuation =>
      rw [hat rfl]
      rfl
  | interfaceWord =>
      rw [hword rfl]
      rfl
  | annotationMark balanced => cases balanced <;> rfl

theorem judgeWord_label {text : String} {ahead : Nat} {v : Verdict}
    (h : lexer.judgeWord state text ahead = .ok v) :
    v.flags.label = true ↔ v.kind = .identifier ∧ state.statement.allowsLabel = true ∧
      ∃ next, lexer.source.lookAhead ahead = .ok (some (.operator .colon, next)) := by
  unfold judgeWord at h
  split at h
  · cases h
    simp
  · split at h
    · rename_i hallows
      obtain ⟨found, hfound, h⟩ := bind_eq_ok h
      rw [hfound]
      split at h
      · cases h
        simp [hallows]
      · rename_i hcolon
        cases h
        simp only [Bool.false_eq_true, false_iff, not_and]
        rintro - - ⟨next, hnext⟩
        exact hcolon next (Except.ok.inj hnext)
    · rename_i hallows
      cases h
      simp [hallows]

variable {stream mid : Stream} {token : Token}

/-- What a pull gives: blanks, which are not judged, or the settled verdict on what an `@` starts
or on one lexeme. -/
inductive Judged (lexer : Lexer) (stream : Stream) (token : Token) (state : Classifier) :
    Lexeme → Prop where
  | blanks {lexeme : Lexeme} {n : Nat} :
      lexeme.tag = .blank ∨ lexeme.tag = .newline →
      lexer.source.blanksLen (token.start + lexeme.len) = .ok n →
      token.stop = token.start + (lexeme.len + n) →
      token.kind = .whitespace → token.flags = {} → state = stream.state →
      Judged lexer stream token state lexeme
  | marked {lexeme : Lexeme} {sign : AtSign} {typeArgument : Bool} :
      lexeme.tag = .separator .atSign →
      (sign = .punctuation → token.text = "@") →
      (sign = .interfaceWord → token.text = "@interface") →
      (judgeAt sign token.start token.stop).settle lexer.config stream.state typeArgument =
        .ok ⟨token.kind, token.flags, state⟩ →
      Judged lexer stream token state lexeme
  | single {lexeme : Lexeme} {v : Verdict} {typeArgument : Bool} :
      token.stop = token.start + lexeme.len →
      lexer.judge stream.state lexeme.tag token.start token.stop token.stop = .ok v →
      v.settle lexer.config stream.state typeArgument = .ok ⟨token.kind, token.flags, state⟩ →
      Judged lexer stream token state lexeme

theorem next_judged (hfit : lexer.source.len ≤ maxOffset) (hsound : lexer.Sound stream)
    (hnext : lexer.next stream = .ok (some (token, mid))) :
    ∃ lexeme, lexer.source.scan token.start = .ok (some lexeme) ∧
      lexer.source.Lexed token.start lexeme.tag (token.start + lexeme.len) ∧
      lexer.Judged stream token mid.state lexeme := by
  obtain ⟨segment, hsegment, hemit, hpos⟩ := next_inv hnext
  obtain ⟨hcovers, hmid⟩ := next_eq_some hfit hsound hnext
  have hlt : stream.pos < lexer.source.len := by
    have := hmid.boundary.le_len
    have := segment.len_pos
    omega
  obtain ⟨found, hfound, -, hemit⟩ := emit_inv hemit
  obtain ⟨pos, state⟩ := mid
  cases hemit
  obtain ⟨lexeme, hscan, hshape⟩ := segmentAt_inv hsegment
  obtain ⟨lexeme', hscan', hlexed⟩ := Source.scan_of_lt_len hfit hlt
  rw [hscan] at hscan'
  cases hscan'
  refine ⟨lexeme, hscan, hlexed, ?_⟩
  rcases hshape with ⟨htag, hshape, n, hn, hlen⟩ | ⟨htag, sign, n, hshape, hlen, hsign⟩ |
    ⟨hshape, hlen⟩
  · rw [hshape] at hfound
    cases hfound
    exact .blanks htag hn (by simp only [hlen]) rfl rfl rfl
  · rw [hshape] at hfound
    rw [htag] at hlexed
    obtain ⟨hat, hword⟩ := text_of_marked hfit hsound.boundary hlexed hsign
    rw [← hlen] at hat hword
    exact .marked htag hat hword hfound
  · rw [hshape] at hfound
    obtain ⟨v, hv, hsettle⟩ := bind_eq_ok hfound
    exact .single (by simp only [hlen]) hv hsettle

theorem next_moves (hfit : lexer.source.len ≤ maxOffset) (hsound : lexer.Sound stream)
    (hnext : lexer.next stream = .ok (some (token, mid))) :
    token.Moves stream.state.statement mid.state.statement := by
  have hboundary : lexer.source.IsBoundary token.start := by
    rw [(next_eq_some hfit hsound hnext).1.start_eq]
    exact hsound.boundary
  have hslice : lexer.source.slice token.start token.stop = token.text := by
    rw [Source.slice, (next_eq_some hfit hsound hnext).1.text]
    rfl
  have hsettled : ∀ {v : Verdict} {typeArgument : Bool},
      v.event = StatementEvent.of? v.kind v.flags.ternary token.text →
      v.settle lexer.config stream.state typeArgument =
        .ok ⟨token.kind, token.flags, mid.state⟩ →
      token.Moves stream.state.statement mid.state.statement := by
    intro v typeArgument hevent hsettle
    obtain ⟨hkind, hflags, hstatement⟩ := Verdict.settle_eq_ok hsettle
    simp only at hkind hflags hstatement
    have htoken : token.event? = v.event := by
      rw [Token.event?, hkind, hflags, hevent]
    rw [Token.Moves, htoken]
    exact hstatement
  obtain ⟨lexeme, -, hlexed, hjudged⟩ := next_judged hfit hsound hnext
  cases hjudged with
  | blanks _ _ _ hkind _ hstate =>
      exact .inl ⟨by rw [Token.event?, hkind]; rfl, by rw [hstate]⟩
  | marked _ hat hword hsettle => exact hsettled (judgeAt_event hat hword) hsettle
  | single hstop hv hsettle =>
      rw [← hstop] at hlexed
      exact hsettled (hslice ▸ judge_event hboundary hlexed hv) hsettle

theorem judge_label {tag : Tag} {ahead : Nat} {v : Verdict}
    (hlexed : lexer.source.Lexed start tag stop)
    (h : lexer.judge state tag start stop ahead = .ok v) :
    v.flags.label = true ↔ v.kind = .identifier ∧ state.statement.allowsLabel = true ∧
      ∃ next, lexer.source.lookAhead ahead = .ok (some (.operator .colon, next)) := by
  have hnone : v.flags.label = false → v.kind ≠ .identifier →
      (v.flags.label = true ↔ v.kind = .identifier ∧ state.statement.allowsLabel = true ∧
        ∃ next, lexer.source.lookAhead ahead = .ok (some (.operator .colon, next))) := by
    intro hlabel hkind
    simp [hlabel, hkind]
  cases tag with
  | word => exact judgeWord_label h
  | quoted form =>
      obtain ⟨problems, -, h⟩ := bind_eq_ok h
      cases h
      exact hnone rfl (by cases form <;> simp [QuoteForm.kind])
  | unterminated form =>
      cases h
      exact hnone rfl (by cases form <;> simp [QuoteForm.kind])
  | operator op =>
      cases op with
      | question =>
          rcases judgeQuestion_eq_ok h with rfl | rfl
          · exact hnone rfl (by simp)
          · exact hnone rfl (by simp)
      | colon =>
          cases h
          refine hnone rfl ?_
          unfold judgeColon
          cases state.statement.closesQuestion <;> simp
      | _ =>
          cases h
          exact hnone rfl (by simp)
  | endOfText => exact hlexed.spells.elim
  | _ =>
      cases h
      exact hnone rfl (by simp)

theorem next_label (hfit : lexer.source.len ≤ maxOffset) (hsound : lexer.Sound stream)
    (hnext : lexer.next stream = .ok (some (token, mid))) :
    token.flags.label = true ↔
      token.kind = .identifier ∧ stream.state.statement.allowsLabel = true ∧
        ∃ next, lexer.source.lookAhead mid.pos = .ok (some (.operator .colon, next)) := by
  rw [← (next_eq_some hfit hsound hnext).1.stop_eq]
  obtain ⟨lexeme, -, hlexed, hjudged⟩ := next_judged hfit hsound hnext
  cases hjudged with
  | blanks _ _ _ hkind hflags _ => simp [hkind, hflags]
  | @marked sign _ _ _ _ hsettle =>
      obtain ⟨hkind, hflags, -⟩ := Verdict.settle_eq_ok hsettle
      simp only at hkind hflags
      rw [hkind, hflags]
      cases sign with
      | annotationMark balanced => cases balanced <;> simp [judgeAt]
      | _ => simp [judgeAt]
  | single hstop hv hsettle =>
      obtain ⟨hkind, hflags, -⟩ := Verdict.settle_eq_ok hsettle
      simp only at hkind hflags
      rw [← hstop] at hlexed
      rw [hkind, hflags]
      exact judge_label hlexed hv

end Lexer

end JavaLex
