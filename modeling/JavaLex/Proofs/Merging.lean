import Mathlib.Data.List.Forall2
import Mathlib.Data.List.SplitBy
import JavaLex.Proofs.Grouping
import JavaLex.Proofs.Lossless
import JavaLex.Proofs.Restart

/-! Merging blanks joins the tokens they would be by themselves and does nothing else. What a
merged token covers is a maximal run of such tokens, and classifying takes no notice of them. -/

namespace JavaLex

namespace Token

def isBlank (token : Token) : Bool := token.kind == .whitespace

/-- Whether two tokens next to each other are part of one run of blanks. -/
def joins (a b : Token) : Bool := a.isBlank && b.isBlank

/-- One token, without flags, for a run of blanks. -/
def cover (first : Token) (rest : List Token) : Token where
  kind := .whitespace
  text := String.join ((first :: rest).map Token.text)
  start := first.start
  stop := (rest.getLastD first).stop

/-- A run of blanks as one token, any other tokens as they are. -/
def fuse : List Token → List Token
  | [] => []
  | first :: rest => if first.isBlank then [cover first rest] else first :: rest

/-- A token and the tokens that are fused to it. -/
inductive Fuses : Token → List Token → Prop where
  | blanks {first : Token} {rest : List Token} :
      (∀ token ∈ first :: rest, token.isBlank = true) → Fuses (cover first rest) (first :: rest)
  | other {token : Token} : token.isBlank = false → Fuses token [token]

namespace Fuses

variable {token : Token} {group : List Token}

theorem ne_nil (h : token.Fuses group) : group ≠ [] := by
  cases h <;> exact List.cons_ne_nil _ _

theorem isBlank_eq (h : token.Fuses group) : ∀ piece ∈ group, piece.isBlank = token.isBlank := by
  cases h with
  | blanks hblank => exact hblank
  | other _ => exact List.forall_mem_singleton.2 rfl

theorem fuse_eq (h : token.Fuses group) : fuse group = [token] := by
  cases h with
  | blanks hblank => rw [fuse, if_pos (hblank _ List.mem_cons_self)]
  | other hother => rw [fuse, if_neg (by rw [hother]; exact Bool.false_ne_true)]

theorem isChain (h : token.Fuses group) : group.IsChain fun a b => a.joins b = true := by
  cases h with
  | @blanks first rest hblank =>
      have hpairs : (first :: rest).Pairwise fun a b => a.joins b = true := by
        apply List.pairwise_of_forall_mem_list
        intro a ha b hb
        rw [joins, hblank a ha, hblank b hb]
        rfl
      exact hpairs.isChain
  | other _ => exact .singleton _

end Fuses

end Token

/-- The tokens with one token in place of each maximal run of blanks. -/
def coalesce (tokens : List Token) : List Token :=
  (tokens.splitBy Token.joins).flatMap Token.fuse

section

variable {tokens : List Token} {groups : List (List Token)}
  (h : List.Forall₂ Token.Fuses tokens groups)

include h

theorem flatMap_fuse : groups.flatMap Token.fuse = tokens := by
  induction h with
  | nil => rfl
  | cons hfuses _ ih => rw [List.flatMap_cons, hfuses.fuse_eq, ih, List.singleton_append]

theorem exists_fuses : ∀ group ∈ groups, ∃ token, Token.Fuses token group := by
  induction h with
  | nil => exact List.forall_mem_nil _
  | cons hfuses _ ih => exact List.forall_mem_cons.2 ⟨⟨_, hfuses⟩, ih⟩

theorem splitBy_joins (hchain : tokens.IsChain fun a b => a.joins b = false) :
    groups.flatten.splitBy Token.joins = groups := by
  refine List.splitBy_flatten ?_ ?_ ?_
  · intro hmem
    obtain ⟨token, hfuses⟩ := exists_fuses h [] hmem
    exact hfuses.ne_nil rfl
  · intro group hmem
    obtain ⟨token, hfuses⟩ := exists_fuses h group hmem
    exact hfuses.isChain
  · induction h with
    | nil => exact .nil
    | cons hfirst hlater ih =>
        obtain ⟨hmeet, hchain⟩ := List.isChain_cons.1 hchain
        refine List.isChain_cons.2 ⟨?_, ih hchain⟩
        intro second hhead
        cases hlater with
        | nil => cases hhead
        | cons hsecond _ =>
            cases hhead
            refine ⟨hfirst.ne_nil, hsecond.ne_nil, ?_⟩
            rw [Token.joins, hfirst.isBlank_eq _ (List.getLast_mem _),
              hsecond.isBlank_eq _ (List.head_mem _)]
            exact hmeet _ rfl

theorem coalesce_flatten (hchain : tokens.IsChain fun a b => a.joins b = false) :
    coalesce groups.flatten = tokens := by
  rw [coalesce, splitBy_joins h hchain, flatMap_fuse h]

end

/-- The same text read with blanks merged, or not. -/
def Lexer.merging (lexer : Lexer) (merge : Bool) : Lexer :=
  { lexer with config := { lexer.config with mergeBlanks := merge } }

namespace Lexer

variable {lexer : Lexer} {merge : Bool} {p : Nat} {lexeme : Lexeme} {stream mid final : Stream}
  {token : Token} {tokens : List Token}

theorem classifySegment_merging (state : Classifier) (shape : Shape) (start stop : Nat) :
    (lexer.merging merge).classifySegment state shape start stop =
      lexer.classifySegment state shape start stop := by
  cases shape <;> rfl

/-- Only where blanks stand does merging make a difference. -/
theorem next_merging (hscan : lexer.source.scan stream.pos = .ok (some lexeme))
    (htag : lexeme.tag.isBlank = false) :
    (lexer.merging merge).next stream = lexer.next stream := by
  have hsegment : (lexer.merging merge).segmentAt stream.pos = lexer.segmentAt stream.pos := by
    have hother : ¬(lexeme.tag = .blank ∨ lexeme.tag = .newline) := by
      rw [← Tag.isBlank_iff, htag]
      exact Bool.false_ne_true
    have hscan' : (lexer.merging merge).source.scan stream.pos = .ok (some lexeme) := hscan
    simp only [segmentAt, hscan, hscan', except_ok_bind, hother, and_false, if_false]
    rfl
  simp only [next, hsegment, emit, classifySegment_merging]
  rfl

theorem next_of_blank (hscan : lexer.source.scan stream.pos = .ok (some lexeme))
    (htag : lexeme.tag.isBlank = true) :
    (lexer.merging false).next stream = .ok (some
      (⟨.whitespace, lexer.source.slice stream.pos (stream.pos + lexeme.len), stream.pos,
          stream.pos + lexeme.len, {}⟩, ⟨stream.pos + lexeme.len, stream.state⟩)) := by
  have hscan' : (lexer.merging false).source.scan stream.pos = .ok (some lexeme) := hscan
  have hsegment : (lexer.merging false).segmentAt stream.pos =
      .ok (some (lexeme.extended (.single lexeme.tag) 0)) := by
    rcases Tag.isBlank_iff.1 htag with htag | htag
    · simp only [segmentAt, hscan', except_ok_bind, htag]
      rfl
    · simp only [segmentAt, hscan', except_ok_bind, htag]
      rfl
  have hfound : (lexer.merging false).classifySegment stream.state (.single lexeme.tag) stream.pos
      (stream.pos + lexeme.len) = .ok ⟨.whitespace, {}, stream.state⟩ := by
    rcases Tag.isBlank_iff.1 htag with htag | htag
    · rw [htag]
      rfl
    · rw [htag]
      rfl
  exact next_eq_ok hsegment (Source.scan_fits hscan) hfound

/-- Blanks that are not merged are one token each, and leave what is known about the text as it
is. -/
theorem pulls_of_blanks {q : Nat} (h : lexer.source.ScansOnly Tag.isBlank p q)
    (state : Classifier) :
    ∃ run, (lexer.merging false).Pulls ⟨p, state⟩ run ⟨q, state⟩ ∧
      ∀ token ∈ run, token.isBlank = true := by
  obtain ⟨found, hscans, htags⟩ := h
  induction hscans with
  | nil p => exact ⟨[], .nil _, List.forall_mem_nil _⟩
  | cons hscan _ ih =>
      obtain ⟨htag, htags⟩ := List.forall_mem_cons.1 htags
      obtain ⟨run, hpulls, hblank⟩ := ih htags
      exact ⟨_, .cons (next_of_blank hscan htag) hpulls, List.forall_mem_cons.2 ⟨rfl, hblank⟩⟩

theorem sound_merging : (lexer.merging merge).Sound stream ↔ lexer.Sound stream :=
  ⟨fun h => ⟨h.boundary, h.state⟩, fun h => ⟨h.boundary, h.state⟩⟩

theorem scan_of_next (h : lexer.next stream = .ok (some (token, mid))) :
    ∃ lexeme, lexer.source.scan stream.pos = .ok (some lexeme) := by
  obtain ⟨segment, hsegment, -, -⟩ := next_inv h
  obtain ⟨lexeme, hscan, -⟩ := segmentAt_inv hsegment
  exact ⟨lexeme, hscan⟩

section

variable (hfit : lexer.source.len ≤ maxOffset)

include hfit

theorem isBlank_of_next (hsound : lexer.Sound stream)
    (hnext : lexer.next stream = .ok (some (token, mid)))
    (hscan : lexer.source.scan stream.pos = .ok (some lexeme)) (hblank : token.isBlank = true) :
    lexeme.tag.isBlank = true := by
  obtain ⟨lexeme', hscan', htag⟩ := tag_of_whitespace hfit hsound hnext (eq_of_beq hblank)
  rw [(next_eq_some hfit hsound hnext).1.start_eq, hscan] at hscan'
  cases hscan'
  exact Tag.isBlank_iff.2 htag

theorem next_of_blanks (hsound : lexer.Sound stream)
    (hscan : lexer.source.scan stream.pos = .ok (some lexeme)) (htag : lexeme.tag.isBlank = true) :
    ∃ q, lexer.source.ScansOnly Tag.isBlank (stream.pos + lexeme.len) q ∧
      (∀ later, lexer.source.scan q = .ok (some later) → later.tag.isBlank = false) ∧
      (lexer.merging true).next stream = .ok (some
        (⟨.whitespace, lexer.source.slice stream.pos q, stream.pos, q, {}⟩,
          ⟨q, stream.state⟩)) := by
  have hle := ((Source.Row.single hscan).reach hfit hsound.boundary.le_len).le_len
  obtain ⟨n, hn, hrow⟩ := Source.blanksLen_returns hfit hle
  obtain ⟨honly, hstop⟩ := Source.scansOnly_of_blanksLen hfit hle n hn
  refine ⟨stream.pos + lexeme.len + n, honly, hstop, ?_⟩
  have hscan' : (lexer.merging true).source.scan stream.pos = .ok (some lexeme) := hscan
  have hn' : (lexer.merging true).source.blanksLen (stream.pos + lexeme.len) = .ok n := hn
  have hmerge : (lexer.merging true).config.mergeBlanks = true := rfl
  have hsegment : (lexer.merging true).segmentAt stream.pos =
      .ok (some (lexeme.extended .blanks n)) := by
    simp only [segmentAt, hscan', except_ok_bind, hmerge, Tag.isBlank_iff.1 htag, and_self, if_true,
      hn', except_pure]
  have hfits := Nat.le_trans (hrow.reach hfit hle).le_len hfit
  rw [Nat.add_assoc] at hfits ⊢
  exact next_eq_ok hsegment hfits rfl

theorem Pulls.cover_eq {first : Token} {rest : List Token}
    (h : lexer.Pulls stream (first :: rest) final) (hsound : lexer.Sound stream) :
    Token.cover first rest =
      ⟨.whitespace, lexer.source.slice stream.pos final.pos, stream.pos, final.pos, {}⟩ := by
  have hstop := h.stop_of_getLast hfit hsound List.getLast?_cons
  rw [Token.cover, h.start_of_head hfit hsound rfl, List.getLastD_eq_getLast?, hstop, Source.slice,
    h.slice?_join hfit hsound, Option.getD_some]

theorem exists_group (hsound : lexer.Sound stream)
    (hnext : (lexer.merging true).next stream = .ok (some (token, mid))) :
    ∃ group, token.Fuses group ∧ (lexer.merging false).Pulls stream group mid := by
  obtain ⟨lexeme, hscan⟩ := scan_of_next hnext
  change lexer.source.scan stream.pos = .ok (some lexeme) at hscan
  have hfit' : (lexer.merging false).source.len ≤ maxOffset := hfit
  cases htag : lexeme.tag.isBlank with
  | false =>
      rw [next_merging hscan htag] at hnext
      have hother : token.isBlank = false := by
        apply Bool.eq_false_iff.2
        intro hblank
        rw [isBlank_of_next hfit hsound hnext hscan hblank] at htag
        cases htag
      exact ⟨[token], .other hother, .cons ((next_merging hscan htag).trans hnext) (.nil _)⟩
  | true =>
      obtain ⟨q, honly, -, hmerged⟩ := next_of_blanks hfit hsound hscan htag
      rw [hmerged] at hnext
      cases hnext
      obtain ⟨rest, hrest, hblank⟩ := pulls_of_blanks honly stream.state
      have hpulls := Pulls.cons (next_of_blank hscan htag) hrest
      have hcover : Token.cover _ rest =
          ⟨.whitespace, lexer.source.slice stream.pos q, stream.pos, q, {}⟩ :=
        hpulls.cover_eq hfit' (sound_merging.2 hsound)
      rw [← hcover]
      exact ⟨_, .blanks (List.forall_mem_cons.2 ⟨rfl, hblank⟩), hpulls⟩

theorem Pulls.exists_fused (h : (lexer.merging true).Pulls stream tokens final)
    (hsound : lexer.Sound stream) :
    ∃ groups, List.Forall₂ Token.Fuses tokens groups ∧
      (lexer.merging false).Pulls stream groups.flatten final := by
  induction h with
  | nil stream => exact ⟨[], .nil, .nil _⟩
  | cons hnext _ ih =>
      obtain ⟨group, hfuses, hgroup⟩ := exists_group hfit hsound hnext
      have hfit' : (lexer.merging false).source.len ≤ maxOffset := hfit
      have hmid := hgroup.sound hfit' (sound_merging.2 hsound)
      obtain ⟨groups, hgroups, hpulls⟩ := ih (sound_merging.1 hmid)
      exact ⟨group :: groups, .cons hfuses hgroups, hgroup.append hpulls⟩

theorem Pulls.isChain_joins (h : (lexer.merging true).Pulls stream tokens final)
    (hsound : lexer.Sound stream) : tokens.IsChain fun a b => a.joins b = false := by
  have hfit' : (lexer.merging true).source.len ≤ maxOffset := hfit
  induction h with
  | nil stream => exact .nil
  | @cons stream mid final first rest hnext hrest ih =>
      have hsound' : (lexer.merging true).Sound stream := sound_merging.2 hsound
      obtain ⟨-, hmid⟩ := next_eq_some hfit' hsound' hnext
      refine List.isChain_cons.2 ⟨?_, ih (sound_merging.1 hmid)⟩
      intro second hhead
      apply Bool.eq_false_iff.2
      intro hjoins
      obtain ⟨hfirst, hsecond⟩ := Bool.and_eq_true_iff.1 hjoins
      cases hrest with
      | nil => cases hhead
      | cons hnext' _ =>
          cases hhead
          obtain ⟨lexeme, hscan⟩ := scan_of_next hnext
          obtain ⟨lexeme', hscan'⟩ := scan_of_next hnext'
          have htag := isBlank_of_next hfit' hsound' hnext hscan hfirst
          have htag' := isBlank_of_next hfit' hmid hnext' hscan' hsecond
          obtain ⟨q, -, hstop, hmerged⟩ := next_of_blanks hfit hsound hscan htag
          rw [hmerged] at hnext
          cases hnext
          rw [hstop lexeme' hscan'] at htag'
          cases htag'

end

/-- The tokens with blanks merged are those without merging, coalesced, and the diagnostics are the
same. -/
theorem run_coalesces (lexer : Lexer) (hfit : lexer.source.len ≤ maxOffset) :
    ∃ tokens problems, (lexer.merging false).run = .ok (tokens, problems) ∧
      (lexer.merging true).run = .ok (coalesce tokens, problems) ∧
      (coalesce tokens).IsChain fun a b => a.joins b = false := by
  have hmerged : (lexer.merging true).source.len ≤ maxOffset := hfit
  have hsplit : (lexer.merging false).source.len ≤ maxOffset := hfit
  have hstart := lexer.sound_start
  obtain ⟨tokens, final, hdrain, hpulls, hend, hfinal⟩ := exists_drain hmerged
  have hpos := pos_eq_len_of_next hmerged hfinal hend
  have hchain := hpulls.isChain_joins hfit hstart
  obtain ⟨groups, hgroups, hpulls'⟩ := hpulls.exists_fused hfit hstart
  have hdrain' := drain_of_pulls hsplit (sound_merging.2 hstart) hpulls' (next_len hpos)
  refine ⟨groups.flatten, _, run_of_drain hdrain', ?_⟩
  rw [coalesce_flatten hgroups hchain]
  exact ⟨run_of_drain hdrain, hchain⟩

/-- Line ends of both kinds, a comment that parts two runs, and a final SUB. -/
theorem run_coalesces_lines :
    Source.len ⟨"a \r\n\t/**/ \n?\x1a"⟩ ≤ maxOffset ∧
      ∃ tokens, run ⟨⟨"a \r\n\t/**/ \n?\x1a"⟩, { mergeBlanks := false }⟩ = .ok (tokens, []) ∧
        tokens.length = 9 ∧
        coalesce tokens =
          [⟨.identifier, "a", 0, 1, {}⟩, ⟨.whitespace, " \r\n\t", 1, 5, {}⟩,
            ⟨.comment, "/**/", 5, 9, {}⟩, ⟨.whitespace, " \n", 9, 11, {}⟩,
            ⟨.operator, "?", 11, 12, { ternary := true }⟩, ⟨.whitespace, "\x1a", 12, 13, {}⟩] := by
  have hmerged : run ⟨⟨"a \r\n\t/**/ \n?\x1a"⟩, {}⟩ = .ok
      ([⟨.identifier, "a", 0, 1, {}⟩, ⟨.whitespace, " \r\n\t", 1, 5, {}⟩,
        ⟨.comment, "/**/", 5, 9, {}⟩, ⟨.whitespace, " \n", 9, 11, {}⟩,
        ⟨.operator, "?", 11, 12, { ternary := true }⟩, ⟨.whitespace, "\x1a", 12, 13, {}⟩],
        []) := by decide +kernel
  have hcount : (run ⟨⟨"a \r\n\t/**/ \n?\x1a"⟩, { mergeBlanks := false }⟩).map
      (fun r => r.1.length) = .ok 9 := by decide +kernel
  obtain ⟨tokens, problems, hsplit, hcoalesced, -⟩ :=
    run_coalesces ⟨⟨"a \r\n\t/**/ \n?\x1a"⟩, {}⟩ (by decide)
  change run ⟨⟨"a \r\n\t/**/ \n?\x1a"⟩, { mergeBlanks := false }⟩ = .ok (tokens, problems) at hsplit
  obtain ⟨htokens, hproblems⟩ := Prod.mk.inj (Except.ok.inj (hcoalesced.symm.trans hmerged))
  subst hproblems
  rw [hsplit] at hcount
  exact ⟨by decide, tokens, hsplit, Except.ok.inj hcount, htokens⟩

end Lexer

end JavaLex
