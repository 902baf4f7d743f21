import Mathlib.Order.Bounds.Basic
import JavaLex.Proofs.Agreement
import JavaLex.Proofs.FixedTexts
import JavaLex.Proofs.Kinds

/-! How far comments run. A block comment runs to the first `*/` behind the `/*` that opens it, a
line comment to the end of its line. Which block comments document something is seen from their
text alone, whether or not they are closed. -/

namespace JavaLex

namespace Tag

def isComment : Tag → Bool
  | comment _ | unterminatedComment => true
  | _ => false

theorem kind_eq_comment_iff {tag : Tag} {text : String} {ternary : Bool} :
    tag.kind text ternary = .comment ↔ tag.isComment = true := by
  cases tag with
  | word => simp only [kind]; split <;> simp [isComment]
  | quoted form => cases form <;> simp [kind, QuoteForm.kind, isComment]
  | unterminated form => cases form <;> simp [kind, QuoteForm.kind, isComment]
  | operator op =>
      cases op with
      | colon => cases ternary <;> simp [kind, isComment]
      | _ => simp [kind, isComment]
  | _ => simp [kind, isComment]

end Tag

namespace Source

variable {s : Source} {p q stop : Nat} {tag : Tag} {text : String}

theorem writes_starSlash : Writes [Byte.star, Byte.slash] "*/" :=
  ⟨rfl, by decide +kernel, by decide, by decide⟩

theorem writes_star : Writes [Byte.star] "*" := ⟨rfl, by decide +kernel, by decide, by decide⟩

theorem writes_slash : Writes [Byte.slash] "/" := ⟨rfl, by decide +kernel, by decide, by decide⟩

/-- A `*/` at `q` can close the block comment that opens at `p`: its star is not the opening one. -/
def ClosesComment (s : Source) (p q : Nat) : Prop := p + 2 ≤ q ∧ s.Stands "*/" q

/-- What the block comment that opens at `p` is, and where it ends. -/
inductive CommentExtent (s : Source) (p : Nat) : Tag → Nat → Prop where
  | closed {q : Nat} {form : CommentForm} :
      IsLeast {q | s.ClosesComment p q} q → s.closeFrom (p + 2) = .ok (some (q + 2)) →
      form ≠ .line → (form = .doc ↔ s.Stands "*" (p + 2) ∧ ¬ s.Stands "/" (p + 3)) →
      CommentExtent s p (.comment form) (q + 2)
  | cut : (∀ q, ¬ s.ClosesComment p q) → s.closeFrom (p + 2) = .ok none →
      CommentExtent s p .unterminatedComment s.len

theorem closesComment_iff :
    s.ClosesComment p q ↔
      p + 2 ≤ q ∧ q < s.len ∧
        (s.byte q == Byte.star && s.byte (q + 1) == Byte.slash) = true := by
  rw [ClosesComment, writes_starSlash.stands_iff, Bool.and_eq_true, beq_iff_eq, beq_iff_eq]
  refine and_congr_right fun _ => ⟨fun h => ⟨?_, h.1, h.2.1⟩, fun h => ⟨h.2.1, h.2.2, trivial⟩⟩
  apply lt_len_of_byte_ne_zero
  rw [h.1]
  decide

theorem blockComment_extent (s : Source) (p : Nat) :
    s.CommentExtent p (s.blockComment p).1 (s.blockComment p).2 := by
  have hfrom := closeFrom_eq_ok s (p + 2)
  unfold blockComment
  split
  · rename_i last hclose
    rw [hclose] at hfrom
    obtain ⟨q, hseek, rfl⟩ := Option.map_eq_some_iff.1 hclose
    obtain ⟨hle, hlt, hfound, hbefore⟩ := seek?_eq_some_iff.1 hseek
    refine .closed ⟨closesComment_iff.2 ⟨hle, hlt, hfound⟩, ?_⟩ hfrom ?_ ?_
    · intro i hi
      obtain ⟨hi, -, hcloses⟩ := closesComment_iff.1 hi
      by_contra hfirst
      have hnot := hbefore i hi (Nat.lt_of_not_le hfirst)
      simp only [hcloses] at hnot
      cases hnot
    · split <;> simp
    · rw [writes_star.stands_iff, writes_slash.stands_iff]
      simp only [Matches, and_true]
      split <;> simp_all
  · rename_i hclose
    rw [hclose] at hfrom
    refine .cut (fun q hq => ?_) hfrom
    obtain ⟨hle, hlt, hcloses⟩ := closesComment_iff.1 hq
    have hnot := seek?_eq_none_iff.1 (Option.map_eq_none_iff.1 hclose) q hle hlt
    simp only [hcloses] at hnot
    cases hnot

theorem writes_lineFeed : Writes [Byte.lineFeed] "\n" :=
  ⟨rfl, by decide +kernel, by decide, by decide⟩

theorem writes_carriageReturn : Writes [Byte.carriageReturn] "\r" :=
  ⟨rfl, by decide +kernel, by decide, by decide⟩

/-- The line of `p` ends at `stop` or before it: there is a line end, or the text is over. -/
def EndsLine (s : Source) (p stop : Nat) : Prop :=
  p ≤ stop ∧ (s.Stands "\n" stop ∨ s.Stands "\r" stop ∨ stop = s.len)

theorem endsLine_iff :
    s.EndsLine p stop ↔ p ≤ stop ∧ (Byte.isLineEnd (s.byte stop) = true ∨ stop = s.len) := by
  rw [EndsLine, writes_lineFeed.stands_iff, writes_carriageReturn.stands_iff, ← or_assoc]
  simp only [Matches, and_true, Byte.isLineEnd, Bool.or_eq_true, beq_iff_eq]

theorem lineEnd_isLeast (hp : p < s.len) (hline : Byte.isLineEnd (s.byte p) = false) :
    IsLeast {stop | s.EndsLine p stop} (s.lineEnd (p + 1)) := by
  obtain ⟨hle, hlen, hbreak, hbefore⟩ := (lineEnd_eq_iff hp).1 rfl
  generalize s.lineEnd (p + 1) = last at hle hlen hbreak hbefore ⊢
  refine ⟨endsLine_iff.2 ⟨by omega, ?_⟩, fun stop hstop => ?_⟩
  · exact hbreak.symm.imp_right fun hend => Nat.le_antisymm hlen hend
  · obtain ⟨hp', hends⟩ := endsLine_iff.1 hstop
    by_contra hlt
    rcases hends with hends | rfl
    · have hnot : Byte.isLineEnd (s.byte stop) = false := by
        rcases Nat.eq_or_lt_of_le hp' with rfl | hlater
        · exact hline
        · exact hbefore stop hlater (Nat.lt_of_not_le hlt)
      rw [hnot] at hends
      cases hends
    · exact hlt hlen

theorem rule_of_slash (hb : s.byte p = Byte.slash) :
    p < s.len ∧ s.rule p (.ofByte (s.byte p)) = s.rule p .slash := by
  refine ⟨lt_len_of_byte_ne_zero (by rw [hb]; decide), ?_⟩
  rw [hb]
  rfl

theorem scan_of_slashStar (hfit : s.len ≤ maxOffset) (h : s.Stands "/*" p) :
    ∃ lexeme, s.scan p = .ok (some lexeme) ∧ s.CommentExtent p lexeme.tag (p + lexeme.len) := by
  obtain ⟨hb, hstar, -⟩ := writes_slashStar.stands_iff.1 h
  obtain ⟨hp, hslash⟩ := rule_of_slash hb
  obtain ⟨lexeme, hscan, -⟩ := scan_of_lt_len hfit hp
  have hrule := ((scan_eq_some_iff hp).1 hscan).1
  have hnext : p + 2 ≤ s.len := lt_len_of_byte_ne_zero (by rw [hstar]; decide)
  rw [hslash, rule, read_of_le_len hp, except_ok_bind, hstar] at hrule
  change s.blockCommentAt p = _ at hrule
  rw [blockCommentAt_eq_ok hnext] at hrule
  have hextent := blockComment_extent s p
  rw [Except.ok.inj hrule] at hextent
  exact ⟨lexeme, hscan, hextent⟩

theorem scan_of_slashes (hfit : s.len ≤ maxOffset) (h : s.Stands "//" p) :
    ∃ lexeme, s.scan p = .ok (some lexeme) ∧ lexeme.tag = .comment .line ∧
      IsLeast {stop | s.EndsLine p stop} (p + lexeme.len) := by
  obtain ⟨hb, hnext, -⟩ := writes_slashes.stands_iff.1 h
  obtain ⟨hp, hslash⟩ := rule_of_slash hb
  obtain ⟨lexeme, hscan, -⟩ := scan_of_lt_len hfit hp
  have hrule := ((scan_eq_some_iff hp).1 hscan).1
  rw [hslash, rule, read_of_le_len hp, except_ok_bind, hnext] at hrule
  obtain ⟨htag, hstop⟩ := Prod.mk.inj (Except.ok.inj hrule)
  refine ⟨lexeme, hscan, htag.symm, ?_⟩
  rw [← hstop]
  exact lineEnd_isLeast hp (by rw [hb]; rfl)

/-- The text of a comment that documents something. -/
def IsDocText (text : String) : Prop := (∃ rest, text = "/**" ++ rest) ∧ text ≠ "/**/"

theorem writes_doc : Writes [Byte.slash, Byte.star, Byte.star] "/**" :=
  ⟨rfl, by decide +kernel, by decide, by decide⟩

theorem writes_short : Writes [Byte.slash, Byte.star, Byte.star, Byte.slash] "/**/" :=
  ⟨rfl, by decide +kernel, by decide, by decide⟩

/-- A closed comment is told by its third and fourth byte, as only `/**/` could mislead. -/
theorem CommentExtent.doc_iff {form : CommentForm} (hopens : s.Stands "/*" p)
    (h : s.CommentExtent p (.comment form) stop) (htext : s.slice? p stop = some text) :
    form = .doc ↔ IsDocText text := by
  obtain ⟨hslash, hstar, -⟩ := writes_slashStar.stands_iff.1 hopens
  cases h with
  | @closed q _ hleast _ _ hdoc =>
      have hle : p + 2 ≤ q := hleast.1.1
      rw [hdoc, writes_star.stands_iff, writes_slash.stands_iff]
      constructor
      · rintro ⟨⟨hthird, -⟩, hfourth⟩
        refine ⟨writes_doc.exists_append ⟨hslash, hstar, hthird, trivial⟩ htext ?_, ?_⟩
        · exact Nat.add_le_add_right hle 1 |>.trans (Nat.le_succ _)
        · rintro rfl
          exact hfourth ⟨(writes_short.matches_of_text htext).2.2.2.1, trivial⟩
      · rintro ⟨⟨rest, rfl⟩, hne⟩
        have hthird := (writes_doc.matches_of_slice? htext).2.2.1
        refine ⟨⟨hthird, trivial⟩, fun hfourth => hne ?_⟩
        -- the second star would close the comment
        have hcloses : s.ClosesComment p (p + 2) :=
          ⟨Nat.le_refl _, writes_starSlash.stands_iff.2 ⟨hthird, hfourth.1, trivial⟩⟩
        have hq : q = p + 2 := Nat.le_antisymm (hleast.2 hcloses) hle
        have hshort := writes_short.slice? ⟨hslash, hstar, hthird, hfourth.1, trivial⟩
        rw [hq] at htext
        exact Option.some.inj (htext.symm.trans hshort)

theorem CommentExtent.doc_iff_of_cut (h : s.CommentExtent p .unterminatedComment stop)
    (htext : s.slice? p stop = some text) : (∃ rest, text = "/**" ++ rest) ↔ IsDocText text := by
  refine ⟨fun hrest => ⟨hrest, ?_⟩, And.left⟩
  rintro rfl
  obtain ⟨-, -, hstar, hslash, -⟩ := writes_short.matches_of_text htext
  generalize htag : Tag.unterminatedComment = tag at h
  cases h with
  | closed => cases htag
  | cut hnone _ =>
      exact hnone (p + 2)
        ⟨Nat.le_refl _, writes_starSlash.stands_iff.2 ⟨hstar, hslash, trivial⟩⟩

theorem opens_of_isComment {lexeme : Lexeme} (hscan : s.scan p = .ok (some lexeme))
    (htag : lexeme.tag.isComment = true) : s.Stands "//" p ∨ s.Stands "/*" p := by
  have hp := lt_len_of_scan hscan
  have hrule := ((scan_eq_some_iff hp).1 hscan).1
  have hfinds := finds_of_rule hp hrule
  have hopening : Opening.ofByte (s.byte p) = .slash := by
    generalize lexeme.tag = tag at htag hfinds
    cases tag with
    | comment form => exact eq_of_beq hfinds
    | unterminatedComment => exact eq_of_beq hfinds
    | _ => cases htag
  by_contra hnone
  rw [not_or] at hnone
  have hfree : ¬ s.Preempts p := by
    rintro (hline | hblock | ⟨hdot, -⟩)
    · exact hnone.1 hline
    · exact hnone.2 hblock
    · rw [(writes_dot.stands_iff.1 hdot).1] at hopening
      cases hopening
  rw [rule_eq_fixedAt hp (by rw [hopening]; rfl) hfree] at hrule
  rcases fixedAt_tag (Nat.le_of_lt hp) hrule with hmem | hinvalid
  · obtain ⟨text, htext⟩ := Tag.mem_fixed_iff.1 hmem
    generalize lexeme.tag = tag at htag htext
    cases tag <;> cases htag <;> cases htext
  · rw [hinvalid] at htag
    cases htag

/-- What the flag is taken from tells whether the text of a comment documents something. -/
theorem isDocText_iff {lexeme : Lexeme} (hfit : s.len ≤ maxOffset)
    (hscan : s.scan p = .ok (some lexeme)) (htag : lexeme.tag.isComment = true)
    (htext : s.slice? p (p + lexeme.len) = some text) :
    (lexeme.tag = .comment .doc ∨
        lexeme.tag = .unterminatedComment ∧ ∃ rest, text = "/**" ++ rest) ↔ IsDocText text := by
  rcases opens_of_isComment hscan htag with hline | hblock
  · obtain ⟨found, hfound, hform, -⟩ := scan_of_slashes hfit hline
    cases hscan.symm.trans hfound
    have hslash := (writes_slashes.stands_iff.1 hline).2.1
    refine iff_of_false (by simp [hform]) ?_
    rintro ⟨⟨rest, hrest⟩, -⟩
    rw [hrest] at htext
    have hstar := (writes_doc.matches_of_slice? htext).2.1
    exact absurd (hslash.symm.trans hstar) (by decide)
  · obtain ⟨found, hfound, hextent⟩ := scan_of_slashStar hfit hblock
    cases hscan.symm.trans hfound
    generalize lexeme.tag = tag at htag hextent
    cases tag with
    | comment form => simpa using hextent.doc_iff hblock htext
    | unterminatedComment => simpa using hextent.doc_iff_of_cut htext
    | _ => cases htag

end Source

namespace Lexer

variable {lexer : Lexer} {stream mid : Stream} {token : Token}

theorem judgeWord_docComment {state : Classifier} {text : String} {ahead : Nat} {v : Verdict}
    (h : lexer.judgeWord state text ahead = .ok v) : v.flags.docComment = false := by
  unfold judgeWord at h
  split at h
  · cases h
    rfl
  · split at h
    · obtain ⟨next, -, h⟩ := bind_eq_ok h
      split at h <;> cases h <;> rfl
    · cases h
      rfl

/-- The flag is taken from the tag, or from the text where there is no close. -/
theorem judge_docComment {state : Classifier} {tag : Tag} {start stop ahead : Nat} {v : Verdict}
    (h : lexer.judge state tag start stop ahead = .ok v) :
    v.flags.docComment = true ↔ tag = .comment .doc ∨
      tag = .unterminatedComment ∧ ∃ rest, lexer.source.slice start stop = "/**" ++ rest := by
  cases tag with
  | word => simp [judgeWord_docComment h]
  | quoted form =>
      obtain ⟨problems, -, h⟩ := bind_eq_ok h
      cases h
      simp
  | comment form =>
      cases h
      simp
  | unterminatedComment =>
      cases h
      simp only [List.isPrefixOf_iff_prefix, reduceCtorEq, true_and, false_or]
      constructor
      · rintro ⟨rest, hrest⟩
        refine ⟨String.ofList rest, ?_⟩
        rw [← String.toList_inj, ← hrest, String.toList_append, @String.toList_ofList rest]
        rfl
      · rintro ⟨rest, hrest⟩
        exact ⟨rest.toList, by rw [hrest, String.toList_append]; rfl⟩
  | operator op =>
      cases op with
      | question => rcases judgeQuestion_eq_ok h with rfl | rfl <;> simp
      | colon =>
          cases h
          simp [judgeColon]
      | _ =>
          cases h
          simp
  | _ =>
      cases h
      simp

theorem next_docComment (hfit : lexer.source.len ≤ maxOffset) (hsound : lexer.Sound stream)
    (hnext : lexer.next stream = .ok (some (token, mid))) :
    token.flags.docComment = true ↔ token.kind = .comment ∧ Source.IsDocText token.text := by
  obtain ⟨hcovers, -⟩ := next_eq_some hfit hsound hnext
  have htext := hcovers.text
  obtain ⟨lexeme, hscan, -, hjudged⟩ := next_judged hfit hsound hnext
  cases hjudged with
  | blanks _ _ _ hkind hflags _ => simp [hkind, hflags]
  | @marked sign _ _ _ _ hsettle =>
      obtain ⟨hkind, hflags, -⟩ := Verdict.settle_eq_ok hsettle
      rw [judgeAt_kind] at hkind
      simp only at hkind hflags
      rw [hkind, hflags]
      cases sign with
      | annotationMark balanced => cases balanced <;> simp [judgeAt, AtSign.kind]
      | _ => simp [judgeAt, AtSign.kind]
  | single hlen hv hsettle =>
      obtain ⟨hkind, hflags, -⟩ := Verdict.settle_eq_ok hsettle
      have hdoc := judge_docComment hv
      rw [judge_kind hv] at hkind
      simp only at hkind hflags
      rw [hkind, Tag.kind_eq_comment_iff, hflags, hdoc, Source.slice, htext, Option.getD_some]
      rw [hlen] at htext
      cases htag : lexeme.tag.isComment with
      | false =>
          generalize lexeme.tag = tag at htag
          cases tag <;> cases htag <;> simp
      | true =>
          rw [and_iff_right rfl]
          exact Source.isDocText_iff hfit hscan htag htext

theorem Pulls.docComments {tokens : List Token} {final : Stream}
    (hfit : lexer.source.len ≤ maxOffset) (hsound : lexer.Sound stream)
    (h : lexer.Pulls stream tokens final) : ∀ token ∈ tokens,
      (token.flags.docComment = true ↔ token.kind = .comment ∧ Source.IsDocText token.text) := by
  induction h with
  | nil stream => exact List.forall_mem_nil _
  | cons hnext _ ih =>
      have hmid := (next_eq_some hfit hsound hnext).2
      exact List.forall_mem_cons.2 ⟨next_docComment hfit hsound hnext, ih hmid⟩

/-- A block comment runs to the first `*/` behind its opening, or to the end of the text, and a line
comment to the end of its line. A token is flagged as documentation if it is a comment whose text
starts with `/**` and is not `/**/`, whether it is closed or not. -/
theorem comments_extend (lexer : Lexer) (hfit : lexer.source.len ≤ maxOffset) :
    (∀ p, lexer.source.Stands "/*" p → ∃ lexeme, lexer.source.scan p = .ok (some lexeme) ∧
        lexer.source.CommentExtent p lexeme.tag (p + lexeme.len)) ∧
      (∀ p, lexer.source.Stands "//" p → ∃ lexeme, lexer.source.scan p = .ok (some lexeme) ∧
        lexeme.tag = .comment .line ∧
          IsLeast {stop | lexer.source.EndsLine p stop} (p + lexeme.len)) ∧
      ∃ tokens final, lexer.drain {} = .ok (tokens, final) ∧ ∀ token ∈ tokens,
        (token.flags.docComment = true ↔
          token.kind = .comment ∧ Source.IsDocText token.text) := by
  obtain ⟨tokens, final, hdrain, hpulls, -, -⟩ := exists_drain hfit
  exact ⟨fun p => Source.scan_of_slashStar hfit, fun p => Source.scan_of_slashes hfit, tokens,
    final, hdrain, hpulls.docComments hfit lexer.sound_start⟩

/-- A comment of stars, the shortest one, one whose opening star closes nothing, one of a line that
a carriage return ends, and one that nothing closes. -/
theorem comments_extend_stars :
    Source.len ⟨"/***/x/**/x/*/**/x//y\r/**"⟩ ≤ maxOffset ∧
      Source.CommentExtent ⟨"/***/x/**/x/*/**/x//y\r/**"⟩ 0 (.comment .doc) 5 ∧
      Source.CommentExtent ⟨"/***/x/**/x/*/**/x//y\r/**"⟩ 11 (.comment .block) 17 ∧
      IsLeast {stop | Source.EndsLine ⟨"/***/x/**/x/*/**/x//y\r/**"⟩ 18 stop} 21 ∧
      Source.CommentExtent ⟨"/***/x/**/x/*/**/x//y\r/**"⟩ 22 .unterminatedComment 25 ∧
      ∃ final, drain ⟨⟨"/***/x/**/x/*/**/x//y\r/**"⟩, {}⟩ {} = .ok
          ([⟨.comment, "/***/", 0, 5, { docComment := true }⟩, ⟨.identifier, "x", 5, 6, {}⟩,
            ⟨.comment, "/**/", 6, 10, {}⟩, ⟨.identifier, "x", 10, 11, {}⟩,
            ⟨.comment, "/*/**/", 11, 17, {}⟩, ⟨.identifier, "x", 17, 18, {}⟩,
            ⟨.comment, "//y", 18, 21, {}⟩, ⟨.whitespace, "\r", 21, 22, {}⟩,
            ⟨.comment, "/**", 22, 25,
              { hasError := true, unterminated := true, docComment := true }⟩], final) ∧
        Source.IsDocText "/***/" ∧ ¬ Source.IsDocText "/**/" := by
  have hfit : Source.len ⟨"/***/x/**/x/*/**/x//y\r/**"⟩ ≤ maxOffset := by decide
  have hdoc : Source.scan ⟨"/***/x/**/x/*/**/x//y\r/**"⟩ 0 =
      .ok (some ⟨.comment .doc, 5, by decide⟩) :=
    (Source.scan_eq_some_iff (by decide)).2 ⟨by decide +kernel, by decide⟩
  have hblock : Source.scan ⟨"/***/x/**/x/*/**/x//y\r/**"⟩ 11 =
      .ok (some ⟨.comment .block, 6, by decide⟩) :=
    (Source.scan_eq_some_iff (by decide)).2 ⟨by decide +kernel, by decide⟩
  have hline : Source.scan ⟨"/***/x/**/x/*/**/x//y\r/**"⟩ 18 =
      .ok (some ⟨.comment .line, 3, by decide⟩) :=
    (Source.scan_eq_some_iff (by decide)).2 ⟨by decide +kernel, by decide⟩
  have hcut : Source.scan ⟨"/***/x/**/x/*/**/x//y\r/**"⟩ 22 =
      .ok (some ⟨.unterminatedComment, 3, by decide⟩) :=
    (Source.scan_eq_some_iff (by decide)).2 ⟨by decide +kernel, by decide⟩
  have htokens : (drain ⟨⟨"/***/x/**/x/*/**/x//y\r/**"⟩, {}⟩ {}).map Prod.fst = .ok
      [⟨.comment, "/***/", 0, 5, { docComment := true }⟩, ⟨.identifier, "x", 5, 6, {}⟩,
        ⟨.comment, "/**/", 6, 10, {}⟩, ⟨.identifier, "x", 10, 11, {}⟩,
        ⟨.comment, "/*/**/", 11, 17, {}⟩, ⟨.identifier, "x", 17, 18, {}⟩,
        ⟨.comment, "//y", 18, 21, {}⟩, ⟨.whitespace, "\r", 21, 22, {}⟩,
        ⟨.comment, "/**", 22, 25,
          { hasError := true, unterminated := true, docComment := true }⟩] := by
    decide +kernel
  obtain ⟨hblocks, hlines, tokens, final, hdrain, hflags⟩ :=
    comments_extend ⟨⟨"/***/x/**/x/*/**/x//y\r/**"⟩, {}⟩ hfit
  rw [hdrain] at htokens
  cases htokens
  refine ⟨hfit, ?_, ?_, ?_, ?_, final, hdrain, ((hflags _ (List.mem_cons_self)).1 rfl).2,
    fun h => h.2 rfl⟩
  · obtain ⟨lexeme, hscan, hextent⟩ := hblocks 0 (by decide +kernel)
    cases hdoc.symm.trans hscan
    exact hextent
  · obtain ⟨lexeme, hscan, hextent⟩ := hblocks 11 (by decide +kernel)
    cases hblock.symm.trans hscan
    exact hextent
  · obtain ⟨lexeme, hscan, -, hextent⟩ := hlines 18 (by decide +kernel)
    cases hline.symm.trans hscan
    exact hextent
  · obtain ⟨lexeme, hscan, hextent⟩ := hblocks 22 (by decide +kernel)
    cases hcut.symm.trans hscan
    exact hextent

end Lexer

end JavaLex
