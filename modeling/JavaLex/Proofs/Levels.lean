import JavaLex.Proofs.Grouping
import JavaLex.Proofs.Lossless
import JavaLex.Proofs.Restart

/-! Tokens refine each other by levels. The tokens of a text cut the row of its lexemes, and where
annotations are regions they cut the row of the tokens that annotations without arguments give. -/

namespace JavaLex

namespace Lexer

variable {lexer : Lexer} {p : Nat} {segment : Segment} {stream mid final : Stream}
  {token : Token} {tokens : List Token}

/-- A token covers a group of whole lexemes, and more than one only if it merges blanks or is what
an `@` started. -/
structure Gathers (lexer : Lexer) (token : Token) (group : List Lexeme) : Prop where
  scans : lexer.source.Scans token.start group token.stop
  nonempty : group ≠ []
  several : 1 < group.length →
    token.kind = .whitespace ∧ lexer.config.mergeBlanks = true ∨ token.kind = .annotationMark ∨
      token.kind = .keyword ∧ token.text = "@interface"

theorem mergeBlanks_of_blanks (h : lexer.segmentAt p = .ok (some segment))
    (hshape : segment.shape = .blanks) : lexer.config.mergeBlanks = true := by
  obtain ⟨found, -, h⟩ := bind_eq_ok h
  cases found with
  | none => cases h
  | some lexeme =>
      simp only at h
      split at h
      · rename_i hblank
        exact hblank.1
      · split at h
        · obtain ⟨r, -, h⟩ := bind_eq_ok h
          cases h
          cases hshape
        · cases h
          cases hshape

section

variable (hfit : lexer.source.len ≤ maxOffset)

include hfit

theorem text_of_interfaceWord (hp : lexer.source.IsBoundary p)
    (h : lexer.segmentAt p = .ok (some segment))
    (hshape : segment.shape = .marked .interfaceWord) :
    lexer.source.slice p (p + segment.len) = "@interface" := by
  obtain ⟨lexeme, hscan, hinv⟩ := segmentAt_inv h
  rcases hinv with ⟨-, hblanks, -⟩ | ⟨hat, sign, n, hmarked, hlen, hsign⟩ | ⟨hsingle, -⟩
  · rw [hshape] at hblanks
    cases hblanks
  · rw [hshape] at hmarked
    cases hmarked
    obtain ⟨-, hlexed⟩ := Source.lexed_of_scan hfit hp.le_len hscan
    rw [hat] at hlexed
    rw [hlen]
    exact (text_of_marked hfit hp hlexed hsign).2 rfl
  · rw [hshape] at hsingle
    cases hsingle

theorem next_gathers (hsound : lexer.Sound stream)
    (hnext : lexer.next stream = .ok (some (token, mid))) :
    ∃ group, lexer.Gathers token group := by
  obtain ⟨segment, hsegment, hemit, -⟩ := next_inv hnext
  obtain ⟨found, hfound, -, hemit⟩ := emit_inv hemit
  obtain ⟨pos, state⟩ := mid
  cases hemit
  obtain ⟨first, rest, hconsists⟩ := segmentAt_consists hfit hsound.boundary.le_len hsegment
  refine ⟨first :: rest, hconsists.scans, List.cons_ne_nil _ _, ?_⟩
  intro hmore
  have hgroup : segment.shape.isGroup = true := by
    apply hconsists.several
    rintro rfl
    exact absurd hmore (Nat.lt_irrefl 1)
  simp only
  cases hshape : segment.shape with
  | blanks =>
      rw [hshape] at hfound
      cases hfound
      exact .inl ⟨rfl, mergeBlanks_of_blanks hsegment hshape⟩
  | marked sign =>
      rw [hshape] at hfound hgroup
      obtain ⟨hkind, -, -⟩ := Verdict.settle_eq_ok hfound
      rw [judgeAt_kind] at hkind
      rw [hkind]
      cases sign with
      | punctuation => cases hgroup
      | interfaceWord =>
          exact .inr (.inr ⟨rfl, text_of_interfaceWord hfit hsound.boundary hsegment hshape⟩)
      | annotationMark balanced => exact .inr (.inl rfl)
  | single tag =>
      rw [hshape] at hgroup
      cases hgroup

theorem Pulls.exists_groups (h : lexer.Pulls stream tokens final) (hsound : lexer.Sound stream) :
    ∃ groups, List.Forall₂ lexer.Gathers tokens groups ∧
      lexer.source.Scans stream.pos groups.flatten final.pos := by
  induction h with
  | nil stream => exact ⟨[], .nil, .nil _⟩
  | cons hnext _ ih =>
      obtain ⟨hcovers, hmid⟩ := next_eq_some hfit hsound hnext
      obtain ⟨group, hgathers⟩ := next_gathers hfit hsound hnext
      obtain ⟨groups, hgroups, hscans⟩ := ih hmid
      have hfirst := hgathers.scans
      rw [hcovers.start_eq, hcovers.stop_eq] at hfirst
      exact ⟨group :: groups, .cons hgathers hgroups, hfirst.append hscans⟩

/-- A group without arguments does not go on behind a closing parenthesis. -/
theorem Consists.le_closing {first : Lexeme} {rest found : List Lexeme} {q : Nat}
    (h : lexer.Consists p segment first rest) (hp : p ≤ lexer.source.len)
    (hextent : lexer.config.annotations = .nameOnly)
    (hscans : lexer.source.Scans p found q) (hcloses : lexer.source.Closes found q) :
    p + segment.len ≤ q := by
  by_contra hlt
  obtain ⟨more, hmore, hrest⟩ := hscans.exists_append h.scans (Nat.le_of_not_le hlt)
  rcases hcloses with rfl | ⟨close, hclose, htag⟩
  · exact hlt (h.scans.row.reach hfit hp).le_len
  · have hmem := List.mem_of_getLast? hclose
    have hne : rest ≠ [] := by
      rintro rfl
      cases found with
      | nil => cases hmem
      | cons lexeme found =>
          obtain ⟨-, hnil⟩ := List.cons.inj hmore
          obtain ⟨-, rfl⟩ := List.append_eq_nil_iff.1 hnil.symm
          cases hrest
          exact hlt (Nat.le_refl _)
    refine h.nameOnly hextent hne close ?_ htag
    rw [hmore]
    exact List.mem_append_left more hmem

/-- Where annotations have no arguments, tokens meet at every closing parenthesis and at the end of
the text. -/
theorem Pulls.exists_closing {found : List Lexeme} {q : Nat}
    (hextent : lexer.config.annotations = .nameOnly) (h : lexer.Pulls stream tokens final)
    (hsound : lexer.Sound stream) (hend : lexer.next final = .ok none)
    (hscans : lexer.source.Scans stream.pos found q) (hcloses : lexer.source.Closes found q) :
    ∃ before mid after, tokens = before ++ after ∧ lexer.Pulls stream before mid ∧
      lexer.Pulls mid after final ∧ mid.pos = q := by
  induction h generalizing found with
  | nil stream =>
      have hpos := pos_eq_len_of_next hfit hsound hend
      have hq := (hscans.row.reach hfit hsound.boundary.le_len).le_len
      exact ⟨[], stream, [], rfl, .nil _, .nil _, Nat.le_antisymm hscans.row.le (hpos ▸ hq)⟩
  | @cons stream mid final token tokens hnext hrest ih =>
      obtain ⟨-, hmid⟩ := next_eq_some hfit hsound hnext
      obtain ⟨segment, hsegment, -, hpos⟩ := next_inv hnext
      have hle := hsound.boundary.le_len
      obtain ⟨first, rest, hconsists⟩ := segmentAt_consists hfit hle hsegment
      have hbefore := hconsists.le_closing hfit hle hextent hscans hcloses
      have hgroup := hconsists.scans
      rw [← hpos] at hgroup hbefore
      obtain ⟨more, rfl, hmore⟩ := hgroup.exists_append hscans hbefore
      by_cases hempty : more = []
      · subst hempty
        cases hmore
        exact ⟨[token], mid, tokens, rfl, .cons hnext (.nil _), hrest, rfl⟩
      · obtain ⟨before, cut, after, rfl, hbefore, hafter, hcut⟩ :=
          ih hmid hend hmore (hcloses.of_append hempty)
        exact ⟨token :: before, cut, after, rfl, .cons hnext hbefore, hafter, hcut⟩

end

section

variable {s : Source} {region nameOnly : Config}
  (hregion : region.annotations = .region) (hnameOnly : nameOnly.annotations = .nameOnly)
  (hmerge : region.mergeBlanks = nameOnly.mergeBlanks) (hfit : s.len ≤ maxOffset)

include hregion hnameOnly hmerge hfit

/-- A segment of a text with regions is one without them, or ends where lexemes close. -/
theorem segmentAt_nameOnly (hp : p ≤ s.len)
    (h : segmentAt ⟨s, region⟩ p = .ok (some segment)) :
    segmentAt ⟨s, nameOnly⟩ p = .ok (some segment) ∨
      ∃ found, s.Scans p found (p + segment.len) ∧ s.Closes found (p + segment.len) := by
  obtain ⟨found, hscan, h⟩ := bind_eq_ok h
  simp only at hscan
  cases found with
  | none => cases h
  | some lexeme =>
      simp only [segmentAt, hscan, except_ok_bind, ← hmerge, hnameOnly]
      simp only [hregion] at h
      by_cases hblank : region.mergeBlanks = true ∧ (lexeme.tag = .blank ∨ lexeme.tag = .newline)
      · rw [if_pos hblank] at h ⊢
        exact .inl h
      · rw [if_neg hblank] at h ⊢
        by_cases hat : lexeme.tag = .separator .atSign
        · rw [if_pos hat] at h ⊢
          obtain ⟨⟨sign, n⟩, hsign, h⟩ := bind_eq_ok h
          cases h
          rcases Source.annotationAt_nameOnly hsign with hsign |
            ⟨balanced, named, arguments, rfl, hnamed, harguments, rfl⟩
          · rw [hsign]
            exact .inl rfl
          · obtain ⟨⟨name, hname, -⟩, -⟩ := Source.scansOnly_of_nameOnly hnamed
            have hrow := (Source.Scans.single hscan).append hname
            obtain ⟨rest, hrest, hcloses⟩ := Source.scans_of_argumentsLen hfit
              (hrow.row.reach hfit hp).le_len balanced arguments harguments
            simp only [Lexeme.extended, ← Nat.add_assoc]
            exact .inr ⟨_, hrow.append hrest, hcloses.append _⟩
        · rw [if_neg hat] at h ⊢
          exact .inl h

theorem exists_nameOnly_tokens {stream' final' : Stream} {tokens' : List Token}
    (hsound : Sound ⟨s, region⟩ stream)
    (hnext : next ⟨s, region⟩ stream = .ok (some (token, mid)))
    (hsound' : Sound ⟨s, nameOnly⟩ stream') (h' : Pulls ⟨s, nameOnly⟩ stream' tokens' final')
    (hend' : next ⟨s, nameOnly⟩ final' = .ok none) (hpos : stream.pos = stream'.pos) :
    ∃ before mid' after, tokens' = before ++ after ∧ Pulls ⟨s, nameOnly⟩ stream' before mid' ∧
      Pulls ⟨s, nameOnly⟩ mid' after final' ∧ mid'.pos = mid.pos := by
  obtain ⟨segment, hsegment, -, hmid⟩ := next_inv hnext
  have hle : stream.pos ≤ s.len := hsound.boundary.le_len
  rw [hmid, hpos]
  rw [hpos] at hsegment hle
  rcases segmentAt_nameOnly hregion hnameOnly hmerge hfit hle hsegment with hsame |
    ⟨found, hscans, hcloses⟩
  · cases h' with
    | nil =>
        rw [pos_eq_len_of_next hfit hsound' hend', segmentAt_len] at hsame
        cases hsame
    | @cons _ mid' _ token' after hnext' hafter =>
        refine ⟨[token'], mid', after, rfl, .cons hnext' (.nil _), hafter, ?_⟩
        obtain ⟨segment', hsegment', -, hmid'⟩ := next_inv hnext'
        rw [hsame] at hsegment'
        cases hsegment'
        exact hmid'
  · exact h'.exists_closing hfit hnameOnly hsound' hend' hscans hcloses

/-- Some tokens of `tokens` start and end where this token does. -/
def MeetsAt (tokens : List Token) (token : Token) : Prop :=
  (∃ first ∈ tokens, first.start = token.start) ∧ ∃ last ∈ tokens, last.stop = token.stop

theorem Pulls.meetsAt {stream' final' : Stream} {tokens' : List Token}
    (h : Pulls ⟨s, region⟩ stream tokens final) (hsound : Sound ⟨s, region⟩ stream)
    (h' : Pulls ⟨s, nameOnly⟩ stream' tokens' final') (hsound' : Sound ⟨s, nameOnly⟩ stream')
    (hend' : next ⟨s, nameOnly⟩ final' = .ok none) (hpos : stream.pos = stream'.pos) :
    ∀ token ∈ tokens, MeetsAt tokens' token := by
  induction h generalizing stream' tokens' with
  | nil stream => exact List.forall_mem_nil _
  | @cons stream mid final token tokens hnext _ ih =>
      obtain ⟨hcovers, hmid⟩ := next_eq_some hfit hsound hnext
      obtain ⟨before, mid', after, rfl, hbefore, hafter, hmid'⟩ :=
        exists_nameOnly_tokens hregion hnameOnly hmerge hfit hsound hnext hsound' h' hend' hpos
      have hne : before ≠ [] := by
        rintro rfl
        cases hbefore
        have hlt := hcovers.nonempty
        rw [hcovers.start_eq, hcovers.stop_eq, ← hmid', hpos] at hlt
        exact Nat.lt_irrefl _ hlt
      refine List.forall_mem_cons.2 ⟨⟨?_, ?_⟩, ?_⟩
      · refine ⟨before.head hne, List.mem_append_left _ (List.head_mem hne), ?_⟩
        rw [hbefore.start_of_head hfit hsound' (List.head?_eq_some_head hne), hcovers.start_eq,
          hpos]
      · refine ⟨before.getLast hne, List.mem_append_left _ (List.getLast_mem hne), ?_⟩
        rw [hbefore.stop_of_getLast hfit hsound' (List.getLast?_eq_some_getLast hne), hmid',
          hcovers.stop_eq]
      · intro other hmem
        obtain ⟨⟨first, hfirst, hstart⟩, last, hlast, hstop⟩ :=
          ih hmid hafter (hbefore.sound hfit hsound') hmid'.symm other hmem
        exact ⟨⟨first, List.mem_append_right _ hfirst, hstart⟩,
          last, List.mem_append_right _ hlast, hstop⟩

end

/-- The tokens of a text cut the list of its lexemes into groups, and its tokens with regions start
and end where tokens without regions do. -/
theorem run_refines (s : Source) (hfit : s.len ≤ maxOffset) :
    (∀ config : Config, ∃ tokens problems lexemes groups,
      run ⟨s, config⟩ = .ok (tokens, problems) ∧ s.lexemes 0 = .ok lexemes ∧
      lexemes = groups.flatten ∧ List.Forall₂ (Gathers ⟨s, config⟩) tokens groups) ∧
    ∀ region nameOnly : Config, region.annotations = .region →
      nameOnly.annotations = .nameOnly → region.mergeBlanks = nameOnly.mergeBlanks →
      ∃ coarse problems fine problems', run ⟨s, region⟩ = .ok (coarse, problems) ∧
        run ⟨s, nameOnly⟩ = .ok (fine, problems') ∧ ∀ token ∈ coarse, MeetsAt fine token := by
  constructor
  · intro config
    obtain ⟨tokens, final, hdrain, hpulls, hend, hfinal⟩ := @exists_drain ⟨s, config⟩ hfit
    have hstart := sound_start ⟨s, config⟩
    obtain ⟨groups, hgroups, hscans⟩ := hpulls.exists_groups hfit hstart
    rw [pos_eq_len_of_next hfit hfinal hend] at hscans
    exact ⟨tokens, _, _, groups, run_of_drain hdrain, hscans.lexemes_eq, rfl, hgroups⟩
  · intro region nameOnly hregion hnameOnly hmerge
    obtain ⟨coarse, final, hdrain, hpulls, -, -⟩ := @exists_drain ⟨s, region⟩ hfit
    obtain ⟨fine, final', hdrain', hpulls', hend', -⟩ := @exists_drain ⟨s, nameOnly⟩ hfit
    refine ⟨coarse, _, fine, _, run_of_drain hdrain, run_of_drain hdrain', ?_⟩
    exact hpulls.meetsAt hregion hnameOnly hmerge hfit (sound_start _) hpulls' (sound_start _)
      hend' rfl

/-- An annotation among the arguments of another one, and one whose arguments never close. Without
regions all these parentheses are tokens of their own. -/
theorem run_refines_nested :
    Source.len ⟨"@a(@b.c (x)) @interface@d("⟩ ≤ maxOffset ∧
      run ⟨⟨"@a(@b.c (x)) @interface@d("⟩, {}⟩ = .ok
        ([⟨.annotationMark, "@a(@b.c (x))", 0, 12, {}⟩, ⟨.whitespace, " ", 12, 13, {}⟩,
          ⟨.keyword, "@interface", 13, 23, {}⟩,
          ⟨.annotationMark, "@d(", 23, 26, { hasError := true, unterminated := true }⟩],
          [⟨.unbalancedArguments, 23, 26⟩]) ∧
      ∃ fine problems, run ⟨⟨"@a(@b.c (x)) @interface@d("⟩, { annotations := .nameOnly }⟩ =
          .ok (fine, problems) ∧
        MeetsAt fine ⟨.annotationMark, "@a(@b.c (x))", 0, 12, {}⟩ ∧
        MeetsAt fine ⟨.keyword, "@interface", 13, 23, {}⟩ := by
  have htokens : run ⟨⟨"@a(@b.c (x)) @interface@d("⟩, {}⟩ = .ok
      ([⟨.annotationMark, "@a(@b.c (x))", 0, 12, {}⟩, ⟨.whitespace, " ", 12, 13, {}⟩,
        ⟨.keyword, "@interface", 13, 23, {}⟩,
        ⟨.annotationMark, "@d(", 23, 26, { hasError := true, unterminated := true }⟩],
        [⟨.unbalancedArguments, 23, 26⟩]) := by decide +kernel
  obtain ⟨coarse, problems, fine, problems', hcoarse, hfine, hmeets⟩ :=
    (run_refines ⟨"@a(@b.c (x)) @interface@d("⟩ (by decide)).2 {} { annotations := .nameOnly }
      rfl rfl rfl
  cases hcoarse.symm.trans htokens
  exact ⟨by decide, htokens, fine, problems', hfine, hmeets _ (by simp), hmeets _ (by simp)⟩

end Lexer

end JavaLex
