import JavaLex.Proofs.Diagnosing
import JavaLex.Proofs.Grouping
import JavaLex.Proofs.LineJoin
import JavaLex.Proofs.LookingAhead
import JavaLex.Proofs.Relative
import JavaLex.Proofs.Restart

/-! Trivia decides nothing. Where two texts have the same lexemes but for blanks and comments, the
others are classified alike: nothing is carried over from trivia, and looking ahead goes past it. -/

namespace JavaLex

theorem Tag.isTrivia_of_isBlank {tag : Tag} (h : tag.isBlank = true) : tag.isTrivia = true := by
  rcases isBlank_iff.1 h with rfl | rfl <;> rfl

namespace Source.Scans

variable {s : Source} {p q : Nat} {lexemes : List Lexeme}

theorem eq_cons {lexeme : Lexeme} (h : s.Scans p lexemes s.len)
    (hscan : s.scan p = .ok (some lexeme)) :
    ∃ rest, lexemes = lexeme :: rest ∧ s.Scans (p + lexeme.len) rest s.len := by
  generalize hq : s.len = q at h
  cases h with
  | nil =>
      rw [← hq, scan_len] at hscan
      cases hscan
  | cons hscan' hrest =>
      rw [hscan] at hscan'
      cases hscan'
      exact ⟨_, rfl, hrest⟩

end Source.Scans

theorem Source.scans_of_lexemes {s : Source} {lexemes : List Lexeme} (hfit : s.len ≤ maxOffset)
    (h : s.lexemes 0 = .ok lexemes) : s.Scans 0 lexemes s.len := by
  obtain ⟨found, hscans⟩ := exists_scans hfit (Nat.zero_le s.len)
  cases hscans.lexemes_eq.symm.trans h
  exact hscans

/-- The lexemes from `p` on that are not trivia, with their texts. -/
def Source.significant (s : Source) : Nat → List Lexeme → List (Tag × String)
  | _, [] => []
  | p, lexeme :: rest =>
    let later := s.significant (p + lexeme.len) rest
    if lexeme.tag.isTrivia then later else (lexeme.tag, s.slice p (p + lexeme.len)) :: later

def Source.tokenAt (s : Source) (p : Nat) (lexeme : Lexeme) (found : Classified) : Token :=
  ⟨found.kind, s.slice p (p + lexeme.len), p, p + lexeme.len, found.flags⟩

/-- The tokens of the lexemes from `p` on that are not trivia. -/
def Source.significantTokens (s : Source) : Nat → List Lexeme → List Classified → List Token
  | p, lexeme :: rest, found :: others =>
    let later := s.significantTokens (p + lexeme.len) rest others
    if lexeme.tag.isTrivia then later else s.tokenAt p lexeme found :: later
  | _, _, _ => []

namespace Token

def face (token : Token) : Kind × Flags × String := (token.kind, token.flags, token.text)

/-- Blanks and comments are trivia, unless the text ends before the comment does. -/
def isSignificant (token : Token) : Bool := !token.kind.isTrivia || token.flags.unterminated

theorem holds_shift {s : Source} {token : Token} {text : String} {d : Diagnostic}
    (h : s.slice? token.start token.stop = some text) (hd : d.stop ≤ text.utf8ByteSize) :
    token.holds (d.shift token.start) = true := by
  have hsize := Source.size_of_slice? h
  apply holds_iff.2
  simp only [Diagnostic.shift]
  omega

end Token

namespace Lexer

/-- A lexeme is classified by itself and becomes a token. -/
structure Takes (lexer : Lexer) (state : Classifier) (tag : Tag) (token : Token)
    (state' : Classifier) : Prop where
  lexed : lexer.source.Lexed token.start tag token.stop
  text : lexer.source.slice? token.start token.stop = some token.text
  classify : lexer.classify state tag token.start token.stop token.stop =
    .ok ⟨token.kind, token.flags, state'⟩

/-- From one stream to another by lexemes, of which those that are not trivia are listed. -/
inductive Reads (lexer : Lexer) : Stream → List (Tag × Token) → Stream → Prop where
  | nil (stream : Stream) : Reads lexer stream [] stream
  | skip {stream final : Stream} {lexeme : Lexeme} {found : List (Tag × Token)} :
      lexer.source.scan stream.pos = .ok (some lexeme) → lexeme.tag.isTrivia = true →
      Reads lexer ⟨stream.pos + lexeme.len, stream.state⟩ found final →
      Reads lexer stream found final
  | cons {stream final : Stream} {lexeme : Lexeme} {token : Token} {state : Classifier}
      {found : List (Tag × Token)} :
      lexer.source.scan stream.pos = .ok (some lexeme) → lexeme.tag.isTrivia = false →
      token.start = stream.pos → token.stop = stream.pos + lexeme.len →
      lexer.Takes stream.state lexeme.tag token state →
      Reads lexer ⟨stream.pos + lexeme.len, state⟩ found final →
      Reads lexer stream ((lexeme.tag, token) :: found) final

variable {lexer : Lexer} {stream mid final : Stream} {tag : Tag} {token : Token}
  {tokens : List Token} {found : List (Tag × Token)}

def spelling (entry : Tag × Token) : Tag × String := (entry.1, entry.2.text)

namespace Reads

theorem state_of_nil (h : lexer.Reads stream [] final) : final.state = stream.state := by
  generalize hnil : [] = found at h
  induction h with
  | nil stream => rfl
  | skip _ _ _ ih => exact ih hnil
  | cons => cases hnil

theorem head (h : lexer.Reads stream ((tag, token) :: found) final) :
    ∃ state, lexer.Takes stream.state tag token state ∧
      lexer.Reads ⟨token.stop, state⟩ found final := by
  generalize hlist : (tag, token) :: found = all at h
  induction h with
  | nil stream => cases hlist
  | skip _ _ _ ih => exact ih hlist
  | cons _ _ _ hstop htakes hrest _ =>
      cases hlist
      rw [← hstop] at hrest
      exact ⟨_, htakes, hrest⟩

theorem map_spelling (h : lexer.Reads stream found final) (hend : final.pos = lexer.source.len)
    {lexemes : List Lexeme} (hscans : lexer.source.Scans stream.pos lexemes lexer.source.len) :
    found.map spelling = lexer.source.significant stream.pos lexemes := by
  induction h generalizing lexemes with
  | nil stream =>
      rw [hend] at hscans
      rw [hscans.eq_nil]
      rfl
  | skip hscan htag _ ih =>
      obtain ⟨rest, rfl, hrest⟩ := hscans.eq_cons hscan
      rw [Source.significant, if_pos htag]
      exact ih hend hrest
  | cons hscan htag hstart hstop htakes _ ih =>
      obtain ⟨rest, rfl, hrest⟩ := hscans.eq_cons hscan
      rw [Source.significant, if_neg (by rw [htag]; exact Bool.false_ne_true), ← ih hend hrest,
        ← hstop, ← hstart, Source.slice, htakes.text]
      rfl

section

variable (hfit : lexer.source.len ≤ maxOffset)

include hfit

theorem lookAhead_eq (h : lexer.Reads stream found final) (hle : stream.pos ≤ lexer.source.len)
    (hend : final.pos = lexer.source.len) :
    lexer.source.lookAhead stream.pos = .ok (found.map spelling).head? := by
  induction h with
  | nil stream =>
      rw [hend, Source.lookAhead_len]
      rfl
  | skip hscan htag _ ih =>
      obtain ⟨hlt, hlexed⟩ := Source.lexed_of_scan hfit hle hscan
      rw [Source.lookAhead_of_scan hlt hscan, if_pos htag]
      exact ih hlexed.reach.le_len hend
  | cons hscan htag hstart hstop htakes _ _ =>
      obtain ⟨hlt, hlexed⟩ := Source.lexed_of_scan hfit hle hscan
      rw [Source.lookAhead_of_scan hlt hscan, if_neg (by rw [htag]; exact Bool.false_ne_true),
        ← hstop, ← hstart, Source.slice, htakes.text]
      rfl

end

end Reads

section

variable {s t : Source} {config : Config} {R : Diagnostic → Diagnostic → Prop}
  (hfit : s.len ≤ maxOffset) (hfit' : t.len ≤ maxOffset)

include hfit hfit'

theorem Takes.alike {state state' left right : Classifier} {token' : Token}
    (h : Takes ⟨s, config⟩ state tag token left) (h' : Takes ⟨t, config⟩ state' tag token' right)
    (htext : token'.text = token.text)
    (hahead : t.lookAhead token'.stop = s.lookAhead token.stop) (halike : state.Alike R state')
    (hR : ∀ d : Diagnostic, token.holds (d.shift token.start) = true →
      token'.holds (d.shift token'.start) = true →
      R (d.shift token.start) (d.shift token'.start)) :
    token'.face = token.face ∧ left.Alike R right := by
  have htext' := h'.text
  rw [htext] at htext'
  have hproblems : ∀ d : Diagnostic, d.stop ≤ token.text.utf8ByteSize →
      R (d.shift token.start) (d.shift token'.start) := by
    intro d hd
    exact hR d (Token.holds_shift h.text hd) (Token.holds_shift htext' hd)
  obtain ⟨found, hfound, hkind, hflags, hstate⟩ :=
    classify_echo ⟨h.lexed, h'.lexed, h.text, htext', hahead⟩ hfit hfit' halike hproblems
      h.classify
  cases h'.classify.symm.trans hfound
  simp only at hkind hflags
  exact ⟨by rw [Token.face, Token.face, hkind, hflags, htext], hstate⟩

/-- Lexemes that agree but for trivia are classified alike. -/
theorem Reads.alike {stream' final' : Stream} {found' : List (Tag × Token)}
    (h : Reads ⟨s, config⟩ stream found final) (hend : final.pos = s.len)
    (h' : Reads ⟨t, config⟩ stream' found' final') (hend' : final'.pos = t.len)
    (hsame : found.map spelling = found'.map spelling)
    (halike : stream.state.Alike R stream'.state)
    (hR : ∀ pair ∈ (found.map Prod.snd).zip (found'.map Prod.snd), ∀ d : Diagnostic,
      pair.1.holds (d.shift pair.1.start) = true → pair.2.holds (d.shift pair.2.start) = true →
      R (d.shift pair.1.start) (d.shift pair.2.start)) :
    (found.map Prod.snd).map Token.face = (found'.map Prod.snd).map Token.face ∧
      final.state.Alike R final'.state := by
  induction found generalizing stream stream' found' with
  | nil =>
      cases List.map_eq_nil_iff.1 hsame.symm
      rw [h.state_of_nil, h'.state_of_nil]
      exact ⟨rfl, halike⟩
  | cons entry found ih =>
      cases found' with
      | nil => cases hsame
      | cons entry' found' =>
          obtain ⟨tag, token⟩ := entry
          obtain ⟨tag', token'⟩ := entry'
          simp only [List.map_cons, List.cons.injEq, spelling, Prod.mk.injEq] at hsame
          obtain ⟨⟨rfl, htext⟩, hsame⟩ := hsame
          obtain ⟨left, htakes, hrest⟩ := h.head
          obtain ⟨right, htakes', hrest'⟩ := h'.head
          have hahead : t.lookAhead token'.stop = s.lookAhead token.stop := by
            have hleft := hrest.lookAhead_eq hfit htakes.lexed.reach.le_len hend
            have hright := hrest'.lookAhead_eq hfit' htakes'.lexed.reach.le_len hend'
            simp only at hleft hright
            rw [hleft, hright, hsame]
          obtain ⟨hpairs, hR⟩ := List.forall_mem_cons.1 hR
          obtain ⟨hface, hstate⟩ :=
            htakes.alike hfit hfit' htakes' htext.symm hahead halike hpairs
          obtain ⟨hfaces, hfinal⟩ := ih hrest hrest' hsame hstate hR
          refine ⟨?_, hfinal⟩
          simp only [List.map_cons, hface]
          rw [hfaces]

end

section

variable {state : Classifier} {p : Nat} {lexeme : Lexeme} (hfit : lexer.source.len ≤ maxOffset)

theorem classify_of_isTrivia (htag : tag.isTrivia = true) (start stop ahead : Nat) :
    ∃ kind flags, lexer.classify state tag start stop ahead = .ok ⟨kind, flags, state⟩ := by
  cases tag with
  | blank | newline => exact ⟨_, _, rfl⟩
  | comment form => exact ⟨_, _, rfl⟩
  | _ => cases htag

include hfit

theorem exists_takes (hp : lexer.source.IsBoundary p) (hstate : state.Sound p)
    (hscan : lexer.source.scan p = .ok (some lexeme)) :
    ∃ found, lexer.classify state lexeme.tag p (p + lexeme.len) (p + lexeme.len) = .ok found ∧
      found.state.Sound (p + lexeme.len) ∧
      lexer.Takes state lexeme.tag (lexer.source.tokenAt p lexeme found) found.state := by
  obtain ⟨-, hlexed⟩ := Source.lexed_of_scan hfit hp.le_len hscan
  obtain ⟨v, hv, hwithin⟩ := @judge_returns lexer state p _ lexeme.tag hfit hlexed
  have hle := Nat.le_trans hlexed.reach.le_len hfit
  obtain ⟨found, hsettle, hsound⟩ := Verdict.settle_returns hstate hlexed.lt hle hwithin
  have hfound : lexer.classify state lexeme.tag p (p + lexeme.len) (p + lexeme.len) =
      .ok found := by
    rw [classify, hv, except_ok_bind]
    exact hsettle
  refine ⟨found, hfound, hsound, hlexed, ?_, hfound⟩
  exact Source.slice?_eq_some_slice hp (hlexed.reach.boundary hp) hlexed.reach.le

theorem exists_reads {lexemes : List Lexeme} {q : Nat} (h : lexer.source.Scans p lexemes q)
    (hq : q = lexer.source.len) (hp : lexer.source.IsBoundary p) (hstate : state.Sound p) :
    ∃ found reads last, lexer.classifyLexemes state p = .ok found ∧
      found.length = lexemes.length ∧ lexer.Reads ⟨p, state⟩ reads ⟨q, last⟩ ∧
      reads.map Prod.snd = lexer.source.significantTokens p lexemes found ∧
      (found.map Classified.state).getLastD state = last := by
  induction h generalizing state with
  | nil p =>
      refine ⟨[], [], state, ?_, rfl, .nil _, rfl, rfl⟩
      rw [classifyLexemes, if_neg (by omega)]
      rfl
  | @cons p q lexeme rest hscan _ ih =>
      obtain ⟨hlt, hlexed⟩ := Source.lexed_of_scan hfit hp.le_len hscan
      obtain ⟨found, hfound, hsound, htakes⟩ := exists_takes hfit hp hstate hscan
      obtain ⟨others, reads, last, hothers, hlength, hreads, htokens, hlast⟩ :=
        ih hq (hlexed.reach.boundary hp) hsound
      have hall : lexer.classifyLexemes state p = .ok (found :: others) := by
        rw [classifyLexemes, if_pos hlt, hscan, except_ok_bind]
        simp only [hfound, except_ok_bind, hothers, except_ok_map]
      have hlast' : ((found :: others).map Classified.state).getLastD state = last := by
        rw [List.map_cons, List.getLastD_cons, hlast]
      cases htag : lexeme.tag.isTrivia with
      | true =>
          obtain ⟨kind, flags, hsame⟩ :=
            classify_of_isTrivia htag p (p + lexeme.len) (p + lexeme.len)
          cases hfound.symm.trans hsame
          refine ⟨_, reads, last, hall, congrArg _ hlength, .skip hscan htag hreads, ?_, hlast'⟩
          rw [htokens, Source.significantTokens, if_pos htag]
      | false =>
          refine ⟨_, _, last, hall, congrArg _ hlength,
            .cons hscan htag rfl rfl htakes hreads, ?_, hlast'⟩
          rw [List.map_cons, htokens, Source.significantTokens,
            if_neg (by rw [htag]; exact Bool.false_ne_true)]

omit hfit in
theorem Takes.isSignificant_eq {state' : Classifier} (h : lexer.Takes state tag token state') :
    token.isSignificant = !tag.isTrivia := by
  obtain ⟨v, hv, hsettle⟩ := bind_eq_ok h.classify
  obtain ⟨hkind, hflags, -⟩ := Verdict.settle_eq_ok hsettle
  have htrivia := judge_isTrivia h.lexed hv
  simp only at hkind hflags
  rw [Token.isSignificant, hkind, hflags, htrivia]
  cases tag with
  | blank | newline | comment form | unterminatedComment =>
      cases hv
      rfl
  | _ => rfl

omit hfit in
theorem Reads.skips {q : Nat} (h : lexer.source.ScansOnly Tag.isBlank p q)
    (hreads : lexer.Reads ⟨q, state⟩ found final) : lexer.Reads ⟨p, state⟩ found final := by
  obtain ⟨lexemes, hscans, htags⟩ := h
  induction hscans with
  | nil p => exact hreads
  | cons hscan _ ih =>
      obtain ⟨htag, htags⟩ := List.forall_mem_cons.1 htags
      exact .skip hscan (Tag.isTrivia_of_isBlank htag) (ih hreads htags)

theorem next_reads (hsound : lexer.Sound stream)
    (hnext : lexer.next stream = .ok (some (token, mid)))
    (hplain : ∀ lexeme, lexer.source.scan stream.pos = .ok (some lexeme) →
      lexeme.tag ≠ .separator .atSign)
    (hreads : lexer.Reads mid found final) :
    ∃ before, lexer.Reads stream (before ++ found) final ∧
      before.map Prod.snd = [token].filter Token.isSignificant := by
  obtain ⟨hcovers, hmid⟩ := next_eq_some hfit hsound hnext
  obtain ⟨segment, hsegment, hemit, hpos⟩ := next_inv hnext
  obtain ⟨lexeme, hscan, hshape⟩ := segmentAt_inv hsegment
  obtain ⟨classified, hclassified, -, hemit⟩ := emit_inv hemit
  obtain ⟨pos, state⟩ := mid
  simp only at hpos
  subst hpos
  cases hemit
  obtain ⟨-, hlexed⟩ := Source.lexed_of_scan hfit hsound.boundary.le_len hscan
  rcases hshape with ⟨hblank, hshape, n, hn, hlen⟩ | ⟨hat, -⟩ | ⟨hshape, hlen⟩
  · rw [hshape] at hclassified
    cases hclassified
    refine ⟨[], ?_, rfl⟩
    have hrest := (Source.scansOnly_of_blanksLen hfit hlexed.reach.le_len n hn).1
    rw [hlen, ← Nat.add_assoc] at hreads
    exact .skips (.cons hscan (Tag.isBlank_iff.2 hblank) hrest) hreads
  · exact absurd hat (hplain lexeme hscan)
  · rw [hshape, hlen] at hclassified
    rw [hlen] at hcovers hreads ⊢
    have htakes : lexer.Takes stream.state lexeme.tag _ _ := ⟨hlexed, hcovers.text, hclassified⟩
    have hsignificant := htakes.isSignificant_eq
    cases htag : lexeme.tag.isTrivia with
    | true =>
        obtain ⟨kind, flags, hsame⟩ := classify_of_isTrivia htag stream.pos
          (stream.pos + lexeme.len) (stream.pos + lexeme.len)
        cases hclassified.symm.trans hsame
        rw [htag] at hsignificant
        refine ⟨[], .skip hscan htag hreads, ?_⟩
        rw [List.filter_cons_of_neg (by rw [hsignificant]; exact Bool.false_ne_true)]
        rfl
    | false =>
        rw [htag] at hsignificant
        refine ⟨[_], .cons hscan htag rfl rfl htakes hreads, ?_⟩
        rw [List.filter_cons_of_pos hsignificant]
        rfl

theorem Pulls.exists_reads {lexemes : List Lexeme} (h : lexer.Pulls stream tokens final)
    (hsound : lexer.Sound stream)
    (hscans : lexer.source.Scans stream.pos lexemes lexer.source.len)
    (hplain : ∀ lexeme ∈ lexemes, lexeme.tag ≠ .separator .atSign) :
    ∃ reads, lexer.Reads stream reads final ∧
      reads.map Prod.snd = tokens.filter Token.isSignificant := by
  induction h generalizing lexemes with
  | nil stream => exact ⟨[], .nil _, rfl⟩
  | @cons stream mid final token tokens hnext _ ih =>
      obtain ⟨-, hmid⟩ := next_eq_some hfit hsound hnext
      have hfirst : ∀ lexeme, lexer.source.scan stream.pos = .ok (some lexeme) →
          lexeme.tag ≠ .separator .atSign := by
        intro lexeme hscan
        obtain ⟨rest, rfl, -⟩ := hscans.eq_cons hscan
        exact hplain lexeme List.mem_cons_self
      obtain ⟨segment, hsegment, -, hpos⟩ := next_inv hnext
      obtain ⟨first, rest, hconsists⟩ :=
        segmentAt_consists hfit hsound.boundary.le_len hsegment
      have hgroup := hconsists.scans
      rw [← hpos] at hgroup
      obtain ⟨later, rfl, hlater⟩ := hgroup.exists_append hscans hmid.boundary.le_len
      obtain ⟨reads, hreads, htokens⟩ :=
        ih hmid hlater fun lexeme hmem => hplain lexeme (List.mem_append_right _ hmem)
      obtain ⟨before, hbefore, htoken⟩ := next_reads hfit hsound hnext hfirst hreads
      refine ⟨before ++ reads, hbefore, ?_⟩
      rw [List.map_append, htoken, htokens, ← List.filter_append, List.singleton_append]

end

/-- Two problems of one kind, at the same offsets from the tokens of a pair. -/
def Corresponds (pairs : List (Token × Token)) (d d' : Diagnostic) : Prop :=
  d.problem = d'.problem ∧ ∃ pair ∈ pairs, pair.1.holds d = true ∧ pair.2.holds d' = true ∧
    d.start - pair.1.start = d'.start - pair.2.start ∧
    d.stop - pair.1.start = d'.stop - pair.2.start

theorem corresponds_shift {pairs : List (Token × Token)} {pair : Token × Token} {d : Diagnostic}
    (hmem : pair ∈ pairs) (hleft : pair.1.holds (d.shift pair.1.start) = true)
    (hright : pair.2.holds (d.shift pair.2.start) = true) :
    Corresponds pairs (d.shift pair.1.start) (d.shift pair.2.start) := by
  refine ⟨rfl, pair, hmem, hleft, hright, ?_, ?_⟩
  · simp only [Diagnostic.shift, Nat.add_sub_cancel]
  · simp only [Diagnostic.shift, Nat.add_sub_cancel]

/-- Where two texts have the same lexemes but for trivia, these lexemes are classified alike by
themselves, and so are their tokens if no `@` takes some of them along. -/
theorem classified_alike (s t : Source) (config : Config) (xs ys : List Lexeme)
    (hfit : s.len ≤ maxOffset) (hfit' : t.len ≤ maxOffset) (hxs : s.lexemes 0 = .ok xs)
    (hys : t.lexemes 0 = .ok ys) (hsame : s.significant 0 xs = t.significant 0 ys) :
    (∃ found found', classifyLexemes ⟨s, config⟩ {} 0 = .ok found ∧
      classifyLexemes ⟨t, config⟩ {} 0 = .ok found' ∧
      found.length = xs.length ∧ found'.length = ys.length ∧
      (s.significantTokens 0 xs found).map Token.face =
        (t.significantTokens 0 ys found').map Token.face ∧
      List.Forall₂
        (Corresponds ((s.significantTokens 0 xs found).zip (t.significantTokens 0 ys found')))
        ((found.map Classified.state).getLastD {}).diagnostics.toList
        ((found'.map Classified.state).getLastD {}).diagnostics.toList) ∧
    ((∀ lexeme ∈ xs ++ ys, lexeme.tag ≠ .separator .atSign) →
      ∃ tokens problems tokens' problems', run ⟨s, config⟩ = .ok (tokens, problems) ∧
        run ⟨t, config⟩ = .ok (tokens', problems') ∧
        (tokens.filter Token.isSignificant).map Token.face =
          (tokens'.filter Token.isSignificant).map Token.face) := by
  have hscans := Source.scans_of_lexemes hfit hxs
  have hscans' := Source.scans_of_lexemes hfit' hys
  constructor
  · obtain ⟨found, reads, last, hfound, hlength, hreads, htokens, hlast⟩ :=
      @exists_reads ⟨s, config⟩ {} 0 hfit xs s.len hscans rfl s.isBoundary_zero
        (sound_start ⟨s, config⟩).state
    obtain ⟨found', reads', last', hfound', hlength', hreads', htokens', hlast'⟩ :=
      @exists_reads ⟨t, config⟩ {} 0 hfit' ys t.len hscans' rfl t.isBoundary_zero
        (sound_start ⟨t, config⟩).state
    have hspelling : reads.map spelling = reads'.map spelling := by
      rw [hreads.map_spelling rfl hscans, hreads'.map_spelling rfl hscans']
      exact hsame
    refine ⟨found, found', hfound, hfound', hlength, hlength', ?_⟩
    rw [← htokens, ← htokens', hlast, hlast']
    obtain ⟨hfaces, halike⟩ := hreads.alike hfit hfit' rfl hreads' rfl hspelling ⟨rfl, rfl, .nil⟩
      fun pair hmem d => corresponds_shift hmem
    exact ⟨hfaces, halike.diagnostics⟩
  · intro hplain
    obtain ⟨hplain, hplain'⟩ := List.forall_mem_append.1 hplain
    obtain ⟨tokens, final, hdrain, hpulls, hend, hfinal⟩ := @exists_drain ⟨s, config⟩ hfit
    obtain ⟨tokens', final', hdrain', hpulls', hend', hfinal'⟩ := @exists_drain ⟨t, config⟩ hfit'
    obtain ⟨reads, hreads, htokens⟩ := hpulls.exists_reads hfit (sound_start _) hscans hplain
    obtain ⟨reads', hreads', htokens'⟩ :=
      hpulls'.exists_reads hfit' (sound_start _) hscans' hplain'
    have hpos := pos_eq_len_of_next hfit hfinal hend
    have hpos' := pos_eq_len_of_next hfit' hfinal' hend'
    have hspelling : reads.map spelling = reads'.map spelling := by
      rw [hreads.map_spelling hpos hscans, hreads'.map_spelling hpos' hscans']
      exact hsame
    refine ⟨tokens, _, tokens', _, run_of_drain hdrain, run_of_drain hdrain', ?_⟩
    rw [← htokens, ← htokens']
    exact (hreads.alike hfit hfit' hpos hreads' hpos' hspelling (R := fun _ _ => True)
      ⟨rfl, rfl, .nil⟩ fun _ _ _ _ _ => trivial).1

/-- Both lookaheads go past a comment: a label and a wildcard are found in either text. The bad
escape is found one byte behind the start of its literal in both. -/
theorem classified_alike_comments :
    ∃ xs ys found found', Source.lexemes ⟨"x: '\\q' <? //\n>"⟩ 0 = .ok xs ∧
      Source.lexemes ⟨"\tx/**/:'\\q'<?>"⟩ 0 = .ok ys ∧
      classifyLexemes ⟨⟨"x: '\\q' <? //\n>"⟩, {}⟩ {} 0 = .ok found ∧
      classifyLexemes ⟨⟨"\tx/**/:'\\q'<?>"⟩, {}⟩ {} 0 = .ok found' ∧
      Source.significantTokens ⟨"x: '\\q' <? //\n>"⟩ 0 xs found =
        [⟨.identifier, "x", 0, 1, { label := true }⟩, ⟨.punctuation, ":", 1, 2, {}⟩,
          ⟨.charLiteral, "'\\q'", 3, 7, { hasError := true }⟩, ⟨.operator, "<", 8, 9, {}⟩,
          ⟨.operator, "?", 9, 10, { wildcard := true }⟩, ⟨.operator, ">", 14, 15, {}⟩] ∧
      (Source.significantTokens ⟨"\tx/**/:'\\q'<?>"⟩ 0 ys found').map Token.face =
        [(.identifier, { label := true }, "x"), (.punctuation, {}, ":"),
          (.charLiteral, { hasError := true }, "'\\q'"), (.operator, {}, "<"),
          (.operator, { wildcard := true }, "?"), (.operator, {}, ">")] ∧
      ((found.map Classified.state).getLastD {}).diagnostics.toList =
        [⟨.invalidEscape 'q', 4, 6⟩] ∧
      ((found'.map Classified.state).getLastD {}).diagnostics.toList =
        [⟨.invalidEscape 'q', 8, 10⟩] ∧
      Corresponds ((Source.significantTokens ⟨"x: '\\q' <? //\n>"⟩ 0 xs found).zip
          (Source.significantTokens ⟨"\tx/**/:'\\q'<?>"⟩ 0 ys found'))
        ⟨.invalidEscape 'q', 4, 6⟩ ⟨.invalidEscape 'q', 8, 10⟩ ∧
      ∃ tokens problems, run ⟨⟨"\tx/**/:'\\q'<?>"⟩, {}⟩ = .ok (tokens, problems) ∧
        (tokens.filter Token.isSignificant).map Token.face =
          [(.identifier, { label := true }, "x"), (.punctuation, {}, ":"),
            (.charLiteral, { hasError := true }, "'\\q'"), (.operator, {}, "<"),
            (.operator, { wildcard := true }, "?"), (.operator, {}, ">")] := by
  have hxs : Source.lexemes ⟨"x: '\\q' <? //\n>"⟩ 0 = .ok
      [⟨.word, 1, by decide⟩, ⟨.operator .colon, 1, by decide⟩, ⟨.blank, 1, by decide⟩,
        ⟨.quoted .char, 4, by decide⟩, ⟨.blank, 1, by decide⟩, ⟨.operator .less, 1, by decide⟩,
        ⟨.operator .question, 1, by decide⟩, ⟨.blank, 1, by decide⟩,
        ⟨.comment .line, 2, by decide⟩, ⟨.newline, 1, by decide⟩,
        ⟨.operator .greater, 1, by decide⟩] := by decide +kernel
  have hys : Source.lexemes ⟨"\tx/**/:'\\q'<?>"⟩ 0 = .ok
      [⟨.blank, 1, by decide⟩, ⟨.word, 1, by decide⟩, ⟨.comment .block, 4, by decide⟩,
        ⟨.operator .colon, 1, by decide⟩, ⟨.quoted .char, 4, by decide⟩,
        ⟨.operator .less, 1, by decide⟩, ⟨.operator .question, 1, by decide⟩,
        ⟨.operator .greater, 1, by decide⟩] := by decide +kernel
  obtain ⟨⟨found, found', hfound, hfound', -, -, hfaces, hproblems⟩, hruns⟩ :=
    classified_alike ⟨"x: '\\q' <? //\n>"⟩ ⟨"\tx/**/:'\\q'<?>"⟩ {} _ _ (by decide) (by decide)
      hxs hys (by decide +kernel)
  have hleft : (classifyLexemes ⟨⟨"x: '\\q' <? //\n>"⟩, {}⟩ {} 0).map (fun found =>
      (Source.significantTokens ⟨"x: '\\q' <? //\n>"⟩ 0
        [⟨.word, 1, by decide⟩, ⟨.operator .colon, 1, by decide⟩, ⟨.blank, 1, by decide⟩,
          ⟨.quoted .char, 4, by decide⟩, ⟨.blank, 1, by decide⟩, ⟨.operator .less, 1, by decide⟩,
          ⟨.operator .question, 1, by decide⟩, ⟨.blank, 1, by decide⟩,
          ⟨.comment .line, 2, by decide⟩, ⟨.newline, 1, by decide⟩,
          ⟨.operator .greater, 1, by decide⟩] found,
        ((found.map Classified.state).getLastD {}).diagnostics.toList)) = .ok
      ([⟨.identifier, "x", 0, 1, { label := true }⟩, ⟨.punctuation, ":", 1, 2, {}⟩,
        ⟨.charLiteral, "'\\q'", 3, 7, { hasError := true }⟩, ⟨.operator, "<", 8, 9, {}⟩,
        ⟨.operator, "?", 9, 10, { wildcard := true }⟩, ⟨.operator, ">", 14, 15, {}⟩],
        [⟨.invalidEscape 'q', 4, 6⟩]) := by decide +kernel
  have hright : (classifyLexemes ⟨⟨"\tx/**/:'\\q'<?>"⟩, {}⟩ {} 0).map (fun found =>
      ((found.map Classified.state).getLastD {}).diagnostics.toList) =
        .ok [⟨.invalidEscape 'q', 8, 10⟩] := by decide +kernel
  have hplain : (run ⟨⟨"x: '\\q' <? //\n>"⟩, {}⟩).map
      (fun r => (r.1.filter Token.isSignificant).map Token.face) = .ok
        [(.identifier, { label := true }, "x"), (.punctuation, {}, ":"),
          (.charLiteral, { hasError := true }, "'\\q'"), (.operator, {}, "<"),
          (.operator, { wildcard := true }, "?"), (.operator, {}, ">")] := by decide +kernel
  obtain ⟨tokens, problems, tokens', problems', hrun, hrun', hsame⟩ := hruns (by simp)
  rw [hfound] at hleft
  rw [hfound'] at hright
  rw [hrun] at hplain
  obtain ⟨htokens, hfirst⟩ := Prod.mk.inj (Except.ok.inj hleft)
  have hsecond : ((found'.map Classified.state).getLastD {}).diagnostics.toList =
      [⟨.invalidEscape 'q', 8, 10⟩] := Except.ok.inj hright
  refine ⟨_, _, found, found', hxs, hys, hfound, hfound', htokens, ?_, hfirst, hsecond, ?_, tokens',
    problems', hrun', hsame.symm.trans (Except.ok.inj hplain)⟩
  · rw [← hfaces, htokens]
    rfl
  · rw [hfirst, hsecond] at hproblems
    exact (List.forall₂_cons.1 hproblems).1

end Lexer

end JavaLex
