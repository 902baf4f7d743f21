import JavaLex.Proofs.LookingAhead

/-! Which question marks are wildcards. A wildcard stands where a type argument may start, right
behind a `<` or a comma but for trivia and annotations, and what follows ends a type argument or
bounds it. Every other question mark is that of a conditional. -/

namespace JavaLex

/-- What may stand in front of a type argument without filling its place. -/
def Token.isPassedOver (token : Token) : Bool :=
  token.kind.isTrivia || token.kind == .annotationMark

def argumentOpeners : List String := ["<", ","]

def wildcardClosers : List String := [">", ">>", ">>>", ",", "extends", "super"]

/-- A type argument may start behind these tokens. -/
def AdmitsArgument (before : List Token) : Prop :=
  ∃ last, (before.findRev? fun token => !token.isPassedOver) = some last ∧
    last.text ∈ argumentOpeners

/-- What these tokens start with ends a wildcard. -/
def FollowsWildcard (after : List Token) : Prop :=
  ∃ next, (after.find? fun token => !token.kind.isTrivia) = some next ∧
    next.text ∈ wildcardClosers

/-- What makes a question mark between others a wildcard. -/
structure WildcardPlace (before after : List Token) : Prop where
  left : AdmitsArgument before
  right : FollowsWildcard after

theorem not_admitsArgument_nil : ¬ AdmitsArgument [] := by
  rintro ⟨last, hlast, -⟩
  cases hlast

section

variable {tokens : List Token} {token : Token}

theorem admitsArgument_append_of_isPassedOver (h : token.isPassedOver = true) :
    AdmitsArgument (tokens ++ [token]) ↔ AdmitsArgument tokens := by
  unfold AdmitsArgument
  simp only [List.findRev?_eq_find?_reverse, List.reverse_append, List.reverse_singleton,
    List.singleton_append]
  rw [List.find?_cons_of_neg (by simp [h])]

theorem admitsArgument_append_of_not_isPassedOver (h : token.isPassedOver = false) :
    AdmitsArgument (tokens ++ [token]) ↔ token.text ∈ argumentOpeners := by
  unfold AdmitsArgument
  simp only [List.findRev?_eq_find?_reverse, List.reverse_append, List.reverse_singleton,
    List.singleton_append]
  rw [List.find?_cons_of_pos (by simp [h])]
  simp

end

theorem endsWildcard_some_iff {tag : Tag} {text : String} :
    endsWildcard (some (tag, text)) = true ↔
      (tag = .operator .greater ∨ tag = .operator .shiftRight ∨
        tag = .operator .unsignedShiftRight ∨ tag = .separator .comma) ∨
        tag = .word ∧ (text = "extends" ∨ text = "super") := by
  cases tag with
  | word => simp [endsWildcard]
  | operator op => cases op <;> simp [endsWildcard]
  | separator sep => cases sep <;> simp [endsWildcard]
  | _ => simp [endsWildcard]

namespace Source

variable {s : Source} {p : Nat} {lexeme : Lexeme} {text : String}

theorem tag_of_startsWord (hscan : s.scan p = .ok (some lexeme))
    (hslice : s.slice? p (p + lexeme.len) = some text) (hpos : 0 < text.utf8ByteSize)
    (hfirst : Opening.ofByte (byte ⟨text⟩ 0) = .word) : lexeme.tag = .word := by
  have hp := lt_len_of_scan hscan
  have hbyte := byte_of_slice? hslice hpos
  rw [Nat.zero_add] at hbyte
  have hrule := ((scan_eq_some_iff hp).1 hscan).1
  rw [hbyte, hfirst] at hrule
  have hfinds := finds_of_rule hp hrule
  cases htag : lexeme.tag with
  | word => rfl
  | quoted form | unterminated form =>
      rw [htag] at hfinds
      cases form <;> cases hfinds
  | _ =>
      rw [htag] at hfinds
      cases hfinds

section

variable (hfit : s.len ≤ maxOffset) (hscan : s.scan p = .ok (some lexeme))
  (hslice : s.slice? p (p + lexeme.len) = some text)

include hfit hscan hslice

theorem opensArgument_iff :
    lexeme.tag = .operator .less ∨ lexeme.tag = .separator .comma ↔ text ∈ argumentOpeners := by
  rw [tag_eq_iff hfit hscan rfl (by decide) hslice, tag_eq_iff hfit hscan rfl (by decide) hslice]
  simp [argumentOpeners, Operator.text, Separator.text]

theorem endsWildcard_iff :
    endsWildcard (some (lexeme.tag, text)) = true ↔ text ∈ wildcardClosers := by
  have hword : text = "extends" ∨ text = "super" → lexeme.tag = .word := by
    rintro (rfl | rfl)
    · exact tag_of_startsWord hscan hslice (by decide) (by decide)
    · exact tag_of_startsWord hscan hslice (by decide) (by decide)
  rw [endsWildcard_some_iff, and_iff_right_of_imp hword,
    tag_eq_iff hfit hscan rfl (by decide) hslice, tag_eq_iff hfit hscan rfl (by decide) hslice,
    tag_eq_iff hfit hscan rfl (by decide) hslice, tag_eq_iff hfit hscan rfl (by decide) hslice]
  simp [wildcardClosers, Operator.text, Separator.text, or_assoc]

end

theorem tellsAhead_wildcard (hfit : s.len ≤ maxOffset) :
    s.TellsAhead (fun tag text => endsWildcard (some (tag, text)) = true) wildcardClosers where
  lexeme hscan hslice := endsWildcard_iff hfit hscan hslice
  sign _ := by simp [endsWildcard]
  unclosed _ := by simp [endsWildcard]
  first := by decide

end Source

theorem Verdict.settle_typeArgument {v : Verdict} {config : Config} {state : Classifier}
    {typeArgument : Bool} {found : Classified}
    (h : v.settle config state typeArgument = .ok found) :
    found.state.typeArgument = typeArgument := by
  unfold settle at h
  cases hevent : v.event with
  | none =>
      rw [hevent] at h
      cases h
      rfl
  | some event =>
      rw [hevent] at h
      obtain ⟨statement, -, h⟩ := bind_eq_ok h
      cases h
      rfl

/-- What a token makes of the place for a type argument: it keeps it as it is, or it tells by its
text whether there is one behind it. -/
structure Token.Leaves (token : Token) (before after : Classifier) : Prop where
  passed : token.isPassedOver = true → after.typeArgument = before.typeArgument
  filled : token.isPassedOver = false →
    (after.typeArgument = true ↔ token.text ∈ argumentOpeners)

namespace Lexer

variable {lexer : Lexer} {stream mid final : Stream} {token : Token} {tokens : List Token}

section

variable {state after : Classifier} {start stop : Nat}

/-- An annotation keeps the place, a bare `@` and `@interface` do not. -/
theorem leaves_of_marked {sign : AtSign} (hat : sign = .punctuation → token.text = "@")
    (hword : sign = .interfaceWord → token.text = "@interface")
    (h : lexer.classifyAt state sign start stop = .ok ⟨token.kind, token.flags, after⟩) :
    token.Leaves state after := by
  have hargument := Verdict.settle_typeArgument h
  have hkind := (Verdict.settle_eq_ok h).1
  simp only [judgeAt_kind] at hkind hargument
  cases sign with
  | punctuation =>
      refine ⟨fun hpassed => ?_, fun _ => ?_⟩
      · rw [Token.isPassedOver, hkind] at hpassed
        cases hpassed
      · rw [hargument, hat rfl]
        simp [argumentOpeners]
  | interfaceWord =>
      refine ⟨fun hpassed => ?_, fun _ => ?_⟩
      · rw [Token.isPassedOver, hkind] at hpassed
        cases hpassed
      · rw [hargument, hword rfl]
        simp [argumentOpeners]
  | annotationMark balanced =>
      refine ⟨fun _ => hargument, fun hfilled => ?_⟩
      rw [Token.isPassedOver, hkind] at hfilled
      cases hfilled

/-- Trivia keeps the place, and of the other lexemes `<` and the comma open one. -/
theorem leaves_of_single {p ahead : Nat} {lexeme : Lexeme} (hfit : lexer.source.len ≤ maxOffset)
    (hscan : lexer.source.scan p = .ok (some lexeme))
    (hlexed : lexer.source.Lexed p lexeme.tag (p + lexeme.len))
    (hslice : lexer.source.slice? p (p + lexeme.len) = some token.text)
    (hclosed : lexeme.tag ≠ .unterminatedComment)
    (h : lexer.classify state lexeme.tag p (p + lexeme.len) ahead =
      .ok ⟨token.kind, token.flags, after⟩) : token.Leaves state after := by
  obtain ⟨v, hv, hsettle⟩ := bind_eq_ok h
  have hargument := Verdict.settle_typeArgument hsettle
  have hkind := (Verdict.settle_eq_ok hsettle).1
  simp only at hkind hargument
  have hpassed : token.isPassedOver = lexeme.tag.isTrivia := by
    have hmark : token.kind ≠ .annotationMark := by
      rw [hkind, judge_kind hv]
      exact Tag.kind_ne_annotationMark
    have htrivia := judge_isTrivia hlexed hv
    rw [← hkind, beq_eq_false_iff_ne.2 hclosed, Bool.or_false] at htrivia
    rw [Token.isPassedOver, beq_eq_false_iff_ne.2 hmark, Bool.or_false, htrivia]
  rw [← hpassed] at hargument
  refine ⟨fun hpassed => ?_, fun hfilled => ?_⟩
  · rw [hargument, if_pos hpassed]
  · rw [hargument, if_neg (by rw [hfilled]; exact Bool.false_ne_true), Bool.or_eq_true, beq_iff_eq,
      beq_iff_eq]
    exact Source.opensArgument_iff hfit hscan hslice

end

/-- One pull. A comment that is not closed is trivia and no type argument may follow it; but then
nothing follows it. -/
theorem next_leaves (hfit : lexer.source.len ≤ maxOffset) (hsound : lexer.Sound stream)
    (hnext : lexer.next stream = .ok (some (token, mid))) (hlt : mid.pos < lexer.source.len) :
    token.Leaves stream.state mid.state := by
  obtain ⟨segment, hsegment, hpos, hfound⟩ := next_classified hnext
  obtain ⟨lexeme, hscan, hshape⟩ := segmentAt_inv hsegment
  obtain ⟨-, hlexed⟩ := Source.lexed_of_scan hfit hsound.boundary.le_len hscan
  have hcovers := (next_eq_some hfit hsound hnext).1
  have htext := hcovers.text
  rw [hcovers.start_eq, hcovers.stop_eq] at htext
  rcases hshape with ⟨-, hshape, -⟩ | ⟨htag, sign, n, hshape, hlen, hsign⟩ | ⟨hshape, hlen⟩
  · rw [hshape] at hfound
    obtain ⟨hkind, -, hstate⟩ := Classified.mk.inj (Except.ok.inj hfound)
    refine ⟨fun _ => by rw [hstate], fun hfilled => ?_⟩
    rw [Token.isPassedOver, ← hkind] at hfilled
    cases hfilled
  · rw [hshape] at hfound
    rw [htag] at hlexed
    obtain ⟨hat, hword⟩ := text_of_marked hfit hsound.boundary hlexed hsign
    rw [← hlen, ← hpos, Source.slice, htext] at hat hword
    exact leaves_of_marked hat hword hfound
  · rw [hlen] at hpos
    rw [hshape, hpos] at hfound
    rw [hpos] at htext hlt
    refine leaves_of_single hfit hscan hlexed htext (fun hcomment => ?_) hfound
    rw [hcomment] at hlexed
    have hend : stream.pos + lexeme.len = lexer.source.len := hlexed.spells
    exact Nat.ne_of_lt hlt hend

theorem Pulls.admitsArgument {before : List Token} (hfit : lexer.source.len ≤ maxOffset)
    (hsound : lexer.Sound stream) (h : lexer.Pulls stream tokens final)
    (hlt : final.pos < lexer.source.len)
    (hstream : stream.state.typeArgument = true ↔ AdmitsArgument before) :
    final.state.typeArgument = true ↔ AdmitsArgument (before ++ tokens) := by
  induction h generalizing before with
  | nil stream =>
      rw [List.append_nil]
      exact hstream
  | @cons stream mid final token tokens hnext hrest ih =>
      have hmid := (next_eq_some hfit hsound hnext).2
      have hle := (hrest.row hfit hmid).le
      have hleaves := next_leaves hfit hsound hnext (Nat.lt_of_le_of_lt hle hlt)
      have hstep : mid.state.typeArgument = true ↔ AdmitsArgument (before ++ [token]) := by
        cases hpassed : token.isPassedOver with
        | true =>
            rw [hleaves.passed hpassed, hstream, admitsArgument_append_of_isPassedOver hpassed]
        | false =>
            rw [hleaves.filled hpassed, admitsArgument_append_of_not_isPassedOver hpassed]
      have hfinal := ih hmid hlt hstep
      rw [List.append_assoc, List.singleton_append] at hfinal
      exact hfinal

theorem judgeQuestion_wildcard {state : Classifier} {ahead : Nat} {v : Verdict}
    (h : lexer.judgeQuestion state ahead = .ok v) :
    v.flags.wildcard = true ↔ state.typeArgument = true ∧
      ∃ tag text, lexer.source.lookAhead ahead = .ok (some (tag, text)) ∧
        endsWildcard (some (tag, text)) = true := by
  unfold judgeQuestion at h
  split at h
  · rename_i hargument
    obtain ⟨wildcard, hwildcard, h⟩ := bind_eq_ok h
    obtain ⟨next, hnext, rfl⟩ := map_eq_ok hwildcard
    cases h
    rw [hnext, and_iff_right hargument]
    cases next with
    | none => simp [endsWildcard]
    | some next =>
        obtain ⟨tag, text⟩ := next
        simp
  · rename_i hargument
    cases h
    simp [hargument]

theorem next_question (hfit : lexer.source.len ≤ maxOffset) (hsound : lexer.Sound stream)
    (hnext : lexer.next stream = .ok (some (token, mid))) (htext : token.text = "?") :
    token.kind = .operator ∧ token.flags.ternary = !token.flags.wildcard ∧
      (token.flags.wildcard = true ↔ stream.state.typeArgument = true ∧
        ∃ tag text, lexer.source.lookAhead mid.pos = .ok (some (tag, text)) ∧
          endsWildcard (some (tag, text)) = true) := by
  obtain ⟨segment, hsegment, hpos, hfound⟩ := next_classified hnext
  have hcovers := (next_eq_some hfit hsound hnext).1
  have hslice := hcovers.text
  rw [hcovers.start_eq, hcovers.stop_eq, htext, hpos] at hslice
  have hshape : segment.shape = .single (.operator .question) :=
    shape_of_mark hfit (by decide) hsegment hslice
  rw [hshape] at hfound
  obtain ⟨v, hv, hsettle⟩ := bind_eq_ok hfound
  obtain ⟨hkind, hflags, -⟩ := Verdict.settle_eq_ok hsettle
  simp only at hkind hflags
  rw [hkind, hflags]
  refine ⟨?_, ?_, judgeQuestion_wildcard hv⟩
  · rcases judgeQuestion_eq_ok hv with rfl | rfl <;> rfl
  · rcases judgeQuestion_eq_ok hv with rfl | rfl <;> rfl

/-- The question marks that are wildcards, told from the tokens around them. All others are those
of conditionals. -/
theorem wildcard_iff (lexer : Lexer) (hfit : lexer.source.len ≤ maxOffset) :
    ∃ tokens final, lexer.drain {} = .ok (tokens, final) ∧
      ∀ (before : List Token) (question : Token) (after : List Token),
        tokens = before ++ question :: after → question.text = "?" →
          question.kind = .operator ∧ question.flags.ternary = !question.flags.wildcard ∧
            (question.flags.wildcard = true ↔ WildcardPlace before after) := by
  obtain ⟨tokens, final, hdrain, hpulls, hend, -⟩ := exists_drain hfit
  have hstart := lexer.sound_start
  refine ⟨tokens, final, hdrain, ?_⟩
  intro before question after htokens htext
  subst htokens
  obtain ⟨stream, hbefore, hrest⟩ := hpulls.exists_mid
  cases hrest with
  | @cons _ mid _ _ _ hnext hafter =>
      have hsound := hbefore.sound hfit hstart
      obtain ⟨hcovers, hmid⟩ := next_eq_some hfit hsound hnext
      have hlt : stream.pos < lexer.source.len := by
        have := hcovers.nonempty
        have := hcovers.start_eq
        have := hcovers.stop_eq
        have := hmid.boundary.le_len
        omega
      have hargument := hbefore.admitsArgument hfit hstart hlt
        (iff_of_false Bool.false_ne_true not_admitsArgument_nil)
      rw [List.nil_append] at hargument
      obtain ⟨hkind, hternary, hwildcard⟩ := next_question hfit hsound hnext htext
      refine ⟨hkind, hternary, ?_⟩
      rw [hwildcard, hargument,
        hafter.lookAhead_iff hfit hmid hend (Source.tellsAhead_wildcard hfit)]
      exact ⟨fun ⟨hleft, hright⟩ => ⟨hleft, hright⟩, fun h => ⟨h.left, h.right⟩⟩

/-- An annotation and a comment do not matter, but a bare `@` fills the place: the last question
mark is that of a conditional, although `>` follows it. -/
theorem wildcard_iff_annotated :
    Source.len ⟨"M<@N ?,?/**/super T,@ ?>"⟩ ≤ maxOffset ∧
      ∃ (before between rest : List Token) (first second last greater : Token) (final : Stream),
        drain ⟨⟨"M<@N ?,?/**/super T,@ ?>"⟩, {}⟩ {} =
          .ok (before ++ first :: between ++ second :: rest ++ [last, greater], final) ∧
        (first.start = 5 ∧ first.flags.wildcard = true) ∧
        (second.start = 7 ∧ second.flags.wildcard = true ∧ second.flags.ternary = false) ∧
        (last.start = 22 ∧ last.text = "?" ∧ last.flags.wildcard = false) := by
  refine ⟨by decide, ?_⟩
  obtain ⟨tokens, final, hdrain, hquestions⟩ :=
    wildcard_iff ⟨⟨"M<@N ?,?/**/super T,@ ?>"⟩, {}⟩ (by decide)
  have htokens : (drain ⟨⟨"M<@N ?,?/**/super T,@ ?>"⟩, {}⟩ {}).map Prod.fst = .ok
      [⟨.identifier, "M", 0, 1, {}⟩, ⟨.operator, "<", 1, 2, {}⟩,
        ⟨.annotationMark, "@N", 2, 4, {}⟩, ⟨.whitespace, " ", 4, 5, {}⟩,
        ⟨.operator, "?", 5, 6, { wildcard := true }⟩, ⟨.punctuation, ",", 6, 7, {}⟩,
        ⟨.operator, "?", 7, 8, { wildcard := true }⟩, ⟨.comment, "/**/", 8, 12, {}⟩,
        ⟨.keyword, "super", 12, 17, {}⟩, ⟨.whitespace, " ", 17, 18, {}⟩,
        ⟨.identifier, "T", 18, 19, {}⟩, ⟨.punctuation, ",", 19, 20, {}⟩,
        ⟨.punctuation, "@", 20, 21, {}⟩, ⟨.whitespace, " ", 21, 22, {}⟩,
        ⟨.operator, "?", 22, 23, { ternary := true }⟩, ⟨.operator, ">", 23, 24, {}⟩] := by
    decide +kernel
  rw [hdrain] at htokens
  cases htokens
  refine ⟨[_, _, _, _], [_], [_, _, _, _, _, _, _], _, _, _, _, final, hdrain, ⟨rfl, ?_⟩,
    ⟨rfl, ?_, ?_⟩, ⟨rfl, rfl, ?_⟩⟩
  · exact (hquestions [_, _, _, _] _ _ rfl rfl).2.2.2 ⟨⟨_, rfl, by decide⟩, ⟨_, rfl, by decide⟩⟩
  · exact (hquestions [_, _, _, _, _, _] _ _ rfl rfl).2.2.2
      ⟨⟨_, rfl, by decide⟩, ⟨_, rfl, by decide⟩⟩
  · exact (hquestions [_, _, _, _, _, _] _ _ rfl rfl).2.1
  · have hlast := (hquestions [_, _, _, _, _, _, _, _, _, _, _, _, _, _] _ [_] rfl rfl).2.2
    refine Bool.eq_false_iff.2 fun hflag => ?_
    obtain ⟨filler, hfiller, hmem⟩ := (hlast.1 hflag).left
    cases hfiller
    exact absurd hmem (by decide)

end Lexer

end JavaLex
