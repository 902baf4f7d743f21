import JavaLex.Proofs.EscapeProblems
import JavaLex.Proofs.Numerals
import JavaLex.Proofs.Quoting
import JavaLex.Proofs.Unterminated

/-! Escapes end inside their literals. A literal is closed behind an even number of backslashes, so
that the last of them, if any, is taken along by another; the elements of its content then stop
where the content does. -/

namespace JavaLex

namespace Escape

/-- Whether a text ends with a backslash that takes along what comes next. -/
def hangs (text : List Char) : Bool :=
  text.foldl (fun hanging c => c == '\\' && !hanging) false

variable {form : QuoteForm} {piece : Piece} {text rest content : List Char}
  {found : List (Piece × List Char)}

theorem hangs_append (h : hangs text = false) : hangs (text ++ rest) = hangs rest := by
  unfold hangs at h ⊢
  rw [List.foldl_append, h]

theorem hangs_concat (text : List Char) (c : Char) :
    hangs (text ++ [c]) = (c == '\\' && !hangs text) := by
  unfold hangs
  rw [List.foldl_append]
  rfl

theorem hangs_of_not_mem (h : '\\' ∉ text) : hangs text = false := by
  rcases List.eq_nil_or_concat text with rfl | ⟨front, c, rfl⟩
  · rfl
  · have hc : (c == '\\') = false := by
      rw [beq_eq_false_iff_ne]
      rintro rfl
      exact h (by simp)
    rw [List.concat_eq_append, hangs_concat, hc, Bool.false_and]

/-- Behind its backslash and one more character an element has no backslash. -/
theorem Element.not_mem_more {c : Char} {more : List Char}
    (h : Element form piece ('\\' :: c :: more) rest) : '\\' ∉ more := by
  generalize htext : '\\' :: c :: more = text at h
  cases h with
  | ordinary _ => cases htext
  | letter _ =>
      cases htext
      exact List.not_mem_nil
  | octal hdigits _ =>
      cases htext
      intro hmem
      cases hdigits.forall_digit '\\' (List.mem_cons_of_mem _ hmem)
  | unicode hunit =>
      rw [List.replicate_succ, List.cons_append] at htext
      cases htext
      intro hmem
      rcases List.mem_append.1 hmem with hmem | hmem
      · cases List.eq_of_mem_replicate hmem
      · cases hunit with
        | four ha hb hc hd =>
            rw [← hexDigit?_eq_some_iff] at ha hb hc hd
            simp only [List.mem_cons, List.not_mem_nil, or_false] at hmem
            rcases hmem with rfl | rfl | rfl | rfl <;> contradiction
  | malformed _ _ =>
      rw [List.replicate_succ] at htext
      cases htext
      intro hmem
      cases List.eq_of_mem_replicate hmem
  | joinedLine _ hline =>
      rcases hline with rfl | rfl | ⟨rfl, -⟩ <;> cases htext <;> decide
  | invalid _ =>
      cases htext
      exact List.not_mem_nil
  | trailing => cases htext

theorem Element.hangs_eq (h : Element form piece text rest) (hpiece : piece ≠ .trailing) :
    hangs text = false := by
  rcases h.forms with ⟨c, hc, rfl, rfl⟩ | ⟨rfl, rfl, rfl⟩ | ⟨c, more, rfl⟩
  · exact hangs_of_not_mem fun hmem => hc (List.mem_singleton.1 hmem).symm
  · exact absurd rfl hpiece
  · have hpair : hangs ['\\', c] = false := by simp [hangs]
    exact (hangs_append hpair).trans (hangs_of_not_mem h.not_mem_more)

/-- A content that does not end with a hanging backslash has elements that end inside it. -/
theorem Elements.ne_trailing (h : Elements form content found) (hends : hangs content = false) :
    ∀ element ∈ found, element.1 ≠ .trailing := by
  induction h with
  | nil => exact nofun
  | @cons piece text rest later hfirst _ ih =>
      have hpiece : piece ≠ .trailing := by
        rintro rfl
        cases hfirst
        cases hends
      rw [hangs_append (hfirst.hangs_eq hpiece)] at hends
      exact List.forall_mem_cons.2 ⟨hpiece, ih hends⟩

end Escape

namespace Source

variable {s : Source} {form : QuoteForm} {p q r start : Nat} {c : Char} {text later : List Char}

/-- No character but a backslash ends with the byte of one. -/
theorem Reads.exists_last (h : s.Reads p q [c]) (hc : c ≠ '\\') :
    ∃ n, q = n + 1 ∧ s.byte n ≠ Byte.backslash := by
  have hchar := h.char
  have hq := h.eq_of_singleton
  have hpos := c.utf8Size_pos
  refine ⟨q - 1, by omega, ?_⟩
  intro hbyte
  have hascii : Byte.isAscii (s.byte (q - 1)) = true := by
    rw [hbyte]
    rfl
  have hlen := (isBoundary_of_slice? h).2.1.le_len
  have hboundary := isBoundary_of_isAscii (by omega) hascii
  rcases Nat.lt_or_ge p (q - 1) with hinside | hfirst
  · exact not_isBoundary_inside hchar hinside (by omega) hboundary
  · have hp : q - 1 = p := by omega
    rw [hp] at hascii hbyte
    apply hc
    rw [char_of_isAscii hchar hascii, hbyte]
    rfl

/-- The backslashes before an offset are odd in number if and only if the text up to it hangs. -/
theorem Reads.hangs_iff (h : s.Reads start q text) :
    Escape.hangs text = true ↔ ¬ Even (s.backslashes start q) := by
  induction text using List.reverseRecOn generalizing q with
  | nil =>
      rw [← h.eq_nil_iff.1 rfl, backslashes_self]
      exact iff_of_false nofun (not_not_intro Even.zero)
  | append_singleton front c ih =>
      obtain ⟨mid, hfront, hlast⟩ := h.split
      have hle : start ≤ mid := (isBoundary_of_slice? hfront).2.2
      rw [Escape.hangs_concat]
      by_cases hc : c = '\\'
      · subst hc
        have hbyte : s.byte mid = Byte.backslash := byte_of_char? hlast.char (by decide)
        rw [hlast.eq_of_singleton, show '\\'.utf8Size = 1 from rfl, backslashes_succ hle hbyte,
          Nat.even_add_one, not_not, ← not_iff_not, ← ih hfront]
        simp
      · obtain ⟨n, rfl, hbyte⟩ := hlast.exists_last hc
        rw [backslashes_succ_of_ne hbyte]
        simp [hc]

/-- What stands between a delimiter and the one that closes its literal does not hang. -/
theorem ClosesQuote.hangs_eq (h : s.ClosesQuote form start q) (htext : s.Reads start q text) :
    Escape.hangs text = false := by
  rw [Bool.eq_false_iff, Ne, htext.hangs_iff, not_not]
  exact h.even

/-- No line ends inside a literal that is no text block. -/
theorem ClosesQuote.not_lineEnd (h : s.ClosesQuote form start q) (hform : form ≠ .textBlock)
    (htext : s.Reads start q text) : ∀ c ∈ text, c ≠ '\n' ∧ c ≠ '\r' := by
  intro c hmem
  by_contra hc
  have hline : c = '\n' ∨ c = '\r' := by
    by_contra hne
    exact hc (not_or.1 hne)
  obtain ⟨front, behind, rfl⟩ := List.append_of_mem hmem
  obtain ⟨mid, hfront, hlast⟩ := htext.split
  have hbyte : s.byte mid = Byte.lineFeed ∨ s.byte mid = Byte.carriageReturn :=
    hline.imp (by rintro rfl; exact byte_of_char? hlast.char (by decide))
      (by rintro rfl; exact byte_of_char? hlast.char (by decide))
  have hlt := h.before mid ⟨(isBoundary_of_slice? hfront).2.2, .inr ⟨hform, hbyte⟩⟩
  have hle := (isBoundary_of_slice? hlast).2.2
  omega

theorem exists_content (hfit : s.len ≤ maxOffset) {lexeme : Lexeme}
    (hscan : s.scan p = .ok (some lexeme)) (htag : lexeme.tag = .quoted form) :
    ∃ content, s.Reads (p + delimiterLen form) (p + lexeme.len - delimiterLen form) content ∧
      s.ClosesQuote form (p + delimiterLen form) (p + lexeme.len - delimiterLen form) := by
  have hp := lt_len_of_scan hscan
  have hends := ends_of_scan hfit (Nat.le_of_lt hp) hscan
  rw [htag] at hends
  obtain ⟨hopens, -, hcloses⟩ := hends
  have hdelimits := delimits_of_scan hp hopens hscan
  rw [htag] at hdelimits
  generalize p + lexeme.len = stop at hdelimits hcloses ⊢
  cases hdelimits with
  | @closed q hleast =>
      rw [Nat.add_sub_cancel] at hcloses ⊢
      have hopening := (writes_quotes form).slice? hopens.1
      have hclosing := (writes_quotes form).slice? hcloses
      rw [form.length_quotes] at hopening
      have hcontent := slice?_eq_some_slice (isBoundary_of_slice? hopening).2.1
        (isBoundary_of_slice? hclosing).1 hleast.1.le
      refine ⟨(s.slice (p + delimiterLen form) q).toList, ?_, hleast.1⟩
      rw [Reads, String.ofList_toList]
      exact hcontent

end Source

/-- A bad escape is not one that would run on behind its literal or its line. -/
def Diagnostic.SparesEnds (d : Diagnostic) : Prop :=
  ∀ c, d.problem = .invalidEscape c → c ≠ '\\' ∧ c ≠ '\n' ∧ c ≠ '\r'

theorem Escape.Elements.sparesEnds {form : QuoteForm} {content : List Char}
    {found : List (Piece × List Char)} {start : Nat} (h : Elements form content found)
    (hends : ∀ element ∈ found, element.1 ≠ .trailing)
    (hlines : form ≠ .textBlock → ∀ c ∈ content, c ≠ '\n' ∧ c ≠ '\r') :
    ∀ d ∈ complaints start found, d.SparesEnds := by
  intro d hd c hc
  obtain ⟨before, piece, text, rest, hmem, hfirst, hproblem, hcontent, -⟩ := h.exists_of_mem hd
  rw [hc] at hproblem
  cases hfirst with
  | invalid hstarts =>
      cases hproblem
      have hletter : c ≠ '\\' := by
        rintro rfl
        exact hstarts (.inl (by decide))
      refine ⟨hletter, ?_⟩
      by_cases hform : form = .textBlock
      · exact ⟨fun hline => hstarts (.inr (.inr (.inr ⟨hform, .inl hline⟩))),
          fun hline => hstarts (.inr (.inr (.inr ⟨hform, .inr hline⟩)))⟩
      · apply hlines hform
        rw [hcontent]
        simp
  | trailing => exact absurd rfl (hends _ hmem)
  | _ => cases hproblem

theorem Source.literalProblems_spareEnds {s : Source} {form : QuoteForm} {p : Nat}
    {lexeme : Lexeme} {problems : List Diagnostic} (hfit : s.len ≤ maxOffset)
    (hscan : s.scan p = .ok (some lexeme)) (htag : lexeme.tag = .quoted form)
    (h : s.literalProblems form p (p + lexeme.len) = .ok problems) :
    ∀ d ∈ problems, d.SparesEnds := by
  obtain ⟨content, hcontent, hcloses⟩ := exists_content hfit hscan htag
  obtain ⟨reading, hread, rfl | ⟨problem, hproblem, rfl⟩⟩ := literalProblems_eq_ok h
  · have hslice : s.slice (p + delimiterLen form) (p + lexeme.len - delimiterLen form) =
        String.ofList content := by
      rw [slice, hcontent]
      rfl
    obtain ⟨found, hfound⟩ := Escape.exists_elements form content
    rw [← String.toList_ofList (l := content), ← hslice] at hfound
    have hsize := s.utf8ByteSize_slice_le (p + delimiterLen form)
      (p + lexeme.len - delimiterLen form)
    obtain ⟨-, hstop, hle⟩ := isBoundary_of_slice? hcontent
    have hlen := hstop.le_len
    rw [hfound.problems_of_read hread (by omega)]
    rw [hslice, String.toList_ofList] at hfound
    exact hfound.sparesEnds (hfound.ne_trailing (hcloses.hangs_eq hcontent))
      fun hform => hcloses.not_lineEnd hform hcontent
  · rcases hproblem with rfl | rfl <;> simp [Diagnostic.SparesEnds]

namespace Lexer

variable {lexer : Lexer} {state : Classifier} {start stop ahead : Nat} {stream mid final : Stream}
  {token : Token} {tokens : List Token}

theorem exists_quoted_of_judge {tag : Tag} {v : Verdict} {d : Diagnostic} {c : Char}
    (h : lexer.judge state tag start stop ahead = .ok v) (hd : d ∈ v.problems)
    (hc : d.problem = .invalidEscape c) :
    ∃ form, tag = .quoted form ∧ lexer.source.literalProblems form start stop = .ok v.problems := by
  have hnone : v.problems = [] → ∃ form, tag = .quoted form ∧
      lexer.source.literalProblems form start stop = .ok v.problems := by
    intro hnil
    rw [hnil] at hd
    cases hd
  cases tag with
  | word => exact hnone (judgeWord_flags h).2.2
  | number form =>
      cases h
      simp only [Source.numberProblems] at hd
      split at hd
      · rw [List.mem_singleton.1 hd] at hc
        cases hc
      · cases hd
  | quoted form =>
      obtain ⟨problems, hproblems, h⟩ := bind_eq_ok h
      cases h
      exact ⟨form, rfl, hproblems⟩
  | operator op =>
      cases op with
      | question => rcases judgeQuestion_eq_ok h with rfl | rfl <;> cases hd
      | _ =>
          cases h
          cases hd
  | unterminated form | unterminatedComment | invalidChar | interiorNull =>
      cases h
      rw [List.mem_singleton.1 hd] at hc
      cases hc
  | _ =>
      cases h
      cases hd

theorem judgeAt_sparesEnds (sign : AtSign) : ∀ d ∈ (judgeAt sign start stop).problems,
    d.SparesEnds := by
  unfold judgeAt
  split <;> simp [Diagnostic.SparesEnds]

theorem next_sparesEnds (hfit : lexer.source.len ≤ maxOffset) (hsound : lexer.Sound stream)
    (hnext : lexer.next stream = .ok (some (token, mid)))
    (h : ∀ d ∈ stream.state.diagnostics, d.SparesEnds) :
    ∀ d ∈ mid.state.diagnostics, d.SparesEnds := by
  have hsettled : ∀ {v : Verdict} {typeArgument : Bool}, (∀ d ∈ v.problems, d.SparesEnds) →
      v.settle lexer.config stream.state typeArgument =
        .ok ⟨token.kind, token.flags, mid.state⟩ →
      ∀ d ∈ mid.state.diagnostics, d.SparesEnds := by
    intro v typeArgument hproblems hsettle d hd
    rw [Verdict.settle_keeps hsettle] at hd
    exact (Config.mem_keep hd).elim (h d) (hproblems d)
  obtain ⟨lexeme, hscan, -, hjudged⟩ := next_judged hfit hsound hnext
  cases hjudged with
  | blanks _ _ _ _ _ hstate =>
      rw [hstate]
      exact h
  | marked _ _ _ hsettle => exact hsettled (judgeAt_sparesEnds _) hsettle
  | single hstop hv hsettle =>
      refine hsettled ?_ hsettle
      intro d hd c hc
      obtain ⟨form, htag, hproblems⟩ := exists_quoted_of_judge hv hd hc
      rw [hstop] at hproblems
      exact Source.literalProblems_spareEnds hfit hscan htag hproblems d hd c hc

theorem Pulls.sparesEnds (hfit : lexer.source.len ≤ maxOffset)
    (h : lexer.Pulls stream tokens final) (hsound : lexer.Sound stream)
    (hstream : ∀ d ∈ stream.state.diagnostics, d.SparesEnds) :
    ∀ d ∈ final.state.diagnostics, d.SparesEnds := by
  induction h with
  | nil stream => exact hstream
  | cons hnext _ ih =>
      exact ih (next_eq_some hfit hsound hnext).2 (next_sparesEnds hfit hsound hnext hstream)

end Lexer

/-- What the scanner takes for a closed literal has a content whose elements all end inside it, and
on its line unless it is a text block. However many tokens are pulled, no diagnostic names an
escape that would run on. -/
theorem Source.escapes_end (s : Source) (hfit : s.len ≤ maxOffset) :
    (∀ p lexeme form, s.scan p = .ok (some lexeme) → lexeme.tag = .quoted form →
      ∃ content found,
        s.slice? (p + delimiterLen form) (p + lexeme.len - delimiterLen form) = some content ∧
        Escape.Elements form content.toList found ∧
        Escape.pieces form content.toList =
          found.map (fun element => (element.1, Escape.width element.2)) ∧
        (∀ element ∈ found, element.1 ≠ .trailing) ∧
        (form ≠ .textBlock → ∀ element ∈ found, '\n' ∉ element.2 ∧ '\r' ∉ element.2)) ∧
      ∀ config m, ∃ tokens stream, Lexer.take ⟨s, config⟩ {} m = .ok (tokens, stream) ∧
        ∀ d ∈ stream.state.diagnostics, d.SparesEnds := by
  constructor
  · intro p lexeme form hscan htag
    obtain ⟨content, hcontent, hcloses⟩ := exists_content hfit hscan htag
    obtain ⟨found, hfound⟩ := Escape.exists_elements form content
    refine ⟨String.ofList content, found, hcontent, ?_, ?_, ?_, ?_⟩
    · rwa [String.toList_ofList]
    · rw [String.toList_ofList]
      exact hfound.pieces_eq
    · exact hfound.ne_trailing (hcloses.hangs_eq hcontent)
    · intro hform element hmem
      have hinside : ∀ c ∈ element.2, c ≠ '\n' ∧ c ≠ '\r' := by
        intro c hc
        apply hcloses.not_lineEnd hform hcontent
        rw [← hfound.flatten_eq]
        exact List.mem_flatten.2 ⟨_, List.mem_map_of_mem hmem, hc⟩
      exact ⟨fun hc => (hinside _ hc).1 rfl, fun hc => (hinside _ hc).2 rfl⟩
  · intro config m
    obtain ⟨tokens, final, -, hpulls, hend, -⟩ := @Lexer.exists_drain ⟨s, config⟩ hfit
    obtain ⟨mid, htake, hbefore, -⟩ := hpulls.exists_take hend m
    refine ⟨_, mid, htake, hbefore.sparesEnds hfit (Lexer.sound_start _) ?_⟩
    exact fun d hd => absurd hd (Array.not_mem_empty d)

/-- A string that ends with two backslashes, and a text block that joins its lines and ends with an
escaped quote. -/
theorem Source.escapes_end_joined :
    len ⟨"\"\\q\\\\\" \"\"\"\\\r\n\\\"\"\"\""⟩ ≤ maxOffset ∧
      (∃ found, slice? ⟨"\"\\q\\\\\" \"\"\"\\\r\n\\\"\"\"\""⟩ 10 15 = some "\\\r\n\\\"" ∧
        Escape.Elements .textBlock "\\\r\n\\\"".toList found ∧
        ∀ element ∈ found, element.1 ≠ .trailing) ∧
      ∃ tokens stream,
        Lexer.take ⟨⟨"\"\\q\\\\\" \"\"\"\\\r\n\\\"\"\"\""⟩, {}⟩ {} 3 = .ok (tokens, stream) ∧
        ∀ d ∈ stream.state.diagnostics, d.SparesEnds := by
  have hfit : len ⟨"\"\\q\\\\\" \"\"\"\\\r\n\\\"\"\"\""⟩ ≤ maxOffset := by decide
  have hscan : scan ⟨"\"\\q\\\\\" \"\"\"\\\r\n\\\"\"\"\""⟩ 7 =
      .ok (some ⟨.quoted .textBlock, 11, by decide⟩) :=
    (scan_eq_some_iff (by decide)).2 ⟨by decide +kernel, by decide⟩
  obtain ⟨hcontents, hstreams⟩ := escapes_end _ hfit
  refine ⟨hfit, ?_, hstreams {} 3⟩
  obtain ⟨content, found, hcontent, hfound, -, hends, -⟩ := hcontents 7 _ .textBlock hscan rfl
  have htext : slice? ⟨"\"\\q\\\\\" \"\"\"\\\r\n\\\"\"\"\""⟩ 10 15 = some "\\\r\n\\\"" := by
    decide +kernel
  cases hcontent.symm.trans htext
  exact ⟨found, htext, hfound, hends⟩

end JavaLex
