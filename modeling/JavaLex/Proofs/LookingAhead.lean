import JavaLex.Proofs.FixedTexts

/-! Looking ahead shows the next token that is not trivia, although it goes by lexemes, and tokens
are only cut from them later. -/

namespace JavaLex

namespace Source

variable {s : Source} {p : Nat}

theorem lookAhead_of_scan {lexeme : Lexeme} (hp : p < s.len)
    (hscan : s.scan p = .ok (some lexeme)) :
    s.lookAhead p = if lexeme.tag.isTrivia then s.lookAhead (p + lexeme.len)
      else .ok (some (lexeme.tag, s.slice p (p + lexeme.len))) := by
  have hfits := checkedAdd_eq_ok (scan_fits hscan)
  rw [lookAhead, if_pos hp, hscan, except_ok_bind]
  simp only [hfits, except_ok_bind]
  rfl

theorem lookAhead_len : s.lookAhead s.len = .ok none := by
  rw [lookAhead, if_neg (Nat.lt_irrefl _)]
  rfl

theorem lookAhead_blanksLen (hfit : s.len ≤ maxOffset) :
    ∀ n, s.blanksLen p = .ok n → s.lookAhead (p + n) = s.lookAhead p := by
  fun_induction blanksLen s p with
  | case1 p hlt ih =>
      intro n h
      obtain ⟨⟨tag, len, hpos⟩, hscan, -⟩ := scan_of_lt_len hfit hlt
      have hahead := lookAhead_of_scan hlt hscan
      have hrest : (len + ·) <$> s.blanksLen (p + len) = .ok n →
          s.lookAhead (p + n) = s.lookAhead (p + len) := by
        intro h
        obtain ⟨m, hm, rfl⟩ := map_eq_ok h
        rw [← Nat.add_assoc]
        exact ih len hpos m hm
      rw [hscan, except_ok_bind] at h
      rw [hahead]
      cases tag with
      | blank => exact hrest h
      | newline => exact hrest h
      | _ =>
          cases h
          exact hahead
  | case2 p hlt =>
      intro n h
      cases h
      rfl

/-- What looking ahead from the start of a token shows of it. -/
inductive Foresees (s : Source) (token : Token) : Prop where
  | trivia : token.kind.isTrivia = true →
      s.lookAhead token.start = s.lookAhead token.stop → Foresees s token
  | unclosed {text : String} : token.kind.isTrivia = true → token.stop = s.len →
      s.lookAhead token.start = .ok (some (.unterminatedComment, text)) → Foresees s token
  | marked {text : String} : token.kind.isTrivia = false → s.byte token.start = 64 →
      s.lookAhead token.start = .ok (some (.separator .atSign, text)) → Foresees s token
  | lexeme {lexeme : Lexeme} : token.kind.isTrivia = false →
      s.scan token.start = .ok (some lexeme) → token.stop = token.start + lexeme.len →
      s.lookAhead token.start = .ok (some (lexeme.tag, token.text)) → Foresees s token

/-- Whether the lexeme ahead is as wanted is told by its text, which is one of a list. An `@` that
takes more along, and a comment that is not closed, are not wanted. -/
structure TellsAhead (s : Source) (wanted : Tag → String → Prop) (texts : List String) : Prop where
  lexeme : ∀ {p : Nat} {lexeme : Lexeme} {text : String}, s.scan p = .ok (some lexeme) →
    s.slice? p (p + lexeme.len) = some text → (wanted lexeme.tag text ↔ text ∈ texts)
  sign : ∀ text, ¬ wanted (.separator .atSign) text
  unclosed : ∀ text, ¬ wanted .unterminatedComment text
  first : ∀ text ∈ texts, 0 < text.utf8ByteSize ∧ byte ⟨text⟩ 0 ≠ 64

theorem tellsAhead_colon (hfit : s.len ≤ maxOffset) :
    s.TellsAhead (fun tag _ => tag = .operator .colon) [":"] where
  lexeme hscan hslice := by
    rw [List.mem_singleton]
    exact tag_eq_iff hfit hscan rfl (by decide) hslice
  sign _ := by simp
  unclosed _ := by simp
  first := by decide

end Source

namespace Lexer

variable {lexer : Lexer} {state : Classifier} {start stop : Nat} {stream mid final : Stream}
  {token : Token} {tokens : List Token}

theorem judge_isTrivia {tag : Tag} {ahead : Nat} {v : Verdict}
    (hlexed : lexer.source.Lexed start tag stop)
    (h : lexer.judge state tag start stop ahead = .ok v) :
    v.kind.isTrivia = (tag.isTrivia || tag == .unterminatedComment) := by
  cases tag with
  | word =>
      simp only [judge, judgeWord] at h
      split at h
      · cases h
        rfl
      · split at h
        · obtain ⟨next, -, h⟩ := bind_eq_ok h
          split at h <;> cases h <;> rfl
        · cases h
          rfl
  | quoted form =>
      obtain ⟨problems, -, h⟩ := bind_eq_ok h
      cases h
      cases form <;> rfl
  | unterminated form =>
      cases h
      cases form <;> rfl
  | operator op =>
      cases op with
      | question =>
          rcases judgeQuestion_eq_ok h with rfl | rfl
          · rfl
          · rfl
      | colon =>
          cases h
          unfold judgeColon
          cases state.statement.closesQuestion <;> rfl
      | _ =>
          cases h
          rfl
  | endOfText => exact hlexed.spells.elim
  | _ =>
      cases h
      rfl

theorem next_foresees (hfit : lexer.source.len ≤ maxOffset) (hsound : lexer.Sound stream)
    (hnext : lexer.next stream = .ok (some (token, mid))) : lexer.source.Foresees token := by
  obtain ⟨hcovers, hmid⟩ := next_eq_some hfit hsound hnext
  obtain ⟨lexeme, hscan, hlexed, hjudged⟩ := next_judged hfit hsound hnext
  have hlt : token.start < lexer.source.len := by
    have := hmid.boundary.le_len
    have := hcovers.nonempty
    have := hcovers.stop_eq
    omega
  have hahead := Source.lookAhead_of_scan hlt hscan
  cases hjudged with
  | @blanks n htag hn hstop hkind _ _ =>
      have htrivia : lexeme.tag.isTrivia = true := by
        rcases htag with htag | htag <;> rw [htag] <;> rfl
      refine .trivia (by rw [hkind]; rfl) ?_
      rw [hahead, if_pos htrivia, hstop, ← Nat.add_assoc, Source.lookAhead_blanksLen hfit n hn]
  | @marked sign _ htag _ _ hsettle =>
      have hkind : token.kind.isTrivia = false := by
        obtain ⟨hkind, -, -⟩ := Verdict.settle_eq_ok hsettle
        simp only at hkind
        rw [hkind]
        cases sign with
        | annotationMark balanced => cases balanced <;> rfl
        | _ => rfl
      rw [htag] at hahead hlexed
      exact .marked hkind hlexed.spells.1.1 hahead
  | single hstop hv hsettle =>
      obtain ⟨hkind, -, -⟩ := Verdict.settle_eq_ok hsettle
      simp only at hkind
      have htrivia := judge_isTrivia hlexed (hstop ▸ hv)
      rw [← hkind] at htrivia
      by_cases htag : lexeme.tag.isTrivia = true
      · refine .trivia (by rw [htrivia, htag]; rfl) ?_
        rw [hahead, if_pos htag, hstop]
      · rw [if_neg htag] at hahead
        by_cases hcomment : lexeme.tag = .unterminatedComment
        · rw [hcomment] at hahead hlexed htrivia
          exact .unclosed htrivia (hstop.trans hlexed.spells) hahead
        · have htext : lexer.source.slice token.start token.stop = token.text := by
            rw [Source.slice, hcovers.text]
            rfl
          rw [← hstop, htext] at hahead
          refine .lexeme ?_ hscan hstop hahead
          rw [htrivia, Bool.eq_false_iff.2 htag, Bool.false_or]
          exact beq_eq_false_iff_ne.2 hcomment

/-- Looking ahead shows what is wanted if the next token that is not trivia has one of its texts. -/
theorem Pulls.lookAhead_iff {wanted : Tag → String → Prop} {texts : List String}
    (hfit : lexer.source.len ≤ maxOffset) (hsound : lexer.Sound stream)
    (h : lexer.Pulls stream tokens final) (hend : lexer.next final = .ok none)
    (htells : lexer.source.TellsAhead wanted texts) :
    (∃ tag text, lexer.source.lookAhead stream.pos = .ok (some (tag, text)) ∧ wanted tag text) ↔
      ∃ next, (tokens.find? fun token => !token.kind.isTrivia) = some next ∧
        next.text ∈ texts := by
  induction h with
  | nil stream =>
      rw [pos_eq_len_of_next hfit hsound hend, Source.lookAhead_len]
      simp
  | @cons stream mid final token tokens hnext hrest ih =>
      obtain ⟨hcovers, hmid⟩ := next_eq_some hfit hsound hnext
      rw [← hcovers.start_eq]
      cases next_foresees hfit hsound hnext with
      | trivia hkind hahead =>
          rw [hahead, hcovers.stop_eq, ih hmid hend, List.find?_cons_of_neg (by simp [hkind])]
      | unclosed hkind hstop hahead =>
          have hnone : tokens = [] := by
            cases hrest with
            | nil => rfl
            | cons hnext' _ =>
                rw [next_len (hcovers.stop_eq ▸ hstop)] at hnext'
                cases hnext'
          rw [hahead, hnone, List.find?_cons_of_neg (by simp [hkind])]
          simp [htells.unclosed]
      | marked hkind hbyte hahead =>
          rw [hahead, List.find?_cons_of_pos (by simp [hkind])]
          have hnot : token.text ∉ texts := by
            intro hmem
            obtain ⟨hpos, hne⟩ := htells.first _ hmem
            have hfirst := Source.byte_of_slice? hcovers.text hpos
            rw [Nat.zero_add, hbyte] at hfirst
            exact hne hfirst.symm
          simp [htells.sign, hnot]
      | lexeme hkind hscan hstop hahead =>
          have htold := htells.lexeme hscan (hstop ▸ hcovers.text)
          rw [hahead, List.find?_cons_of_pos (by simp [hkind])]
          simp [htold]

theorem Pulls.lookAhead_colon_iff (hfit : lexer.source.len ≤ maxOffset)
    (hsound : lexer.Sound stream) (h : lexer.Pulls stream tokens final)
    (hend : lexer.next final = .ok none) :
    (∃ next, lexer.source.lookAhead stream.pos = .ok (some (.operator .colon, next))) ↔
      ∃ colon, (tokens.find? fun token => !token.kind.isTrivia) = some colon ∧
        colon.text = ":" := by
  have hahead := h.lookAhead_iff hfit hsound hend (Source.tellsAhead_colon hfit)
  simp only [List.mem_singleton] at hahead
  rw [← hahead]
  constructor
  · rintro ⟨text, htext⟩
    exact ⟨_, text, htext, rfl⟩
  · rintro ⟨tag, text, htext, rfl⟩
    exact ⟨text, htext⟩

end Lexer

end JavaLex
