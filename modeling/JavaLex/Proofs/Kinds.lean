import JavaLex.Proofs.Events

/-! The kind of a token is told by the lexeme it starts with. Only a word and a colon need more:
the word may be reserved, the colon may belong to a conditional. -/

namespace JavaLex

def Tag.kind (text : String) (ternary : Bool) : Tag → Kind
  | word => if isReserved text then .keyword else .identifier
  | number _ => .numberLiteral
  | quoted form => form.kind
  | unterminated form => form.kind
  | operator .colon => if ternary then .operator else .punctuation
  | operator _ => .operator
  | separator _ => .punctuation
  | blank => .whitespace
  | newline => .whitespace
  | comment _ => .comment
  | unterminatedComment => .comment
  | invalidChar => .unknown
  | interiorNull => .unknown
  | endOfText => .unknown

def AtSign.kind : AtSign → Kind
  | punctuation => .punctuation
  | interfaceWord => .keyword
  | annotationMark _ => .annotationMark

namespace Tag

theorem kind_eq_whitespace_iff {tag : Tag} {text : String} {ternary : Bool} :
    tag.kind text ternary = .whitespace ↔ tag = .blank ∨ tag = .newline := by
  cases tag with
  | word => simp only [kind]; split <;> simp
  | quoted form => cases form <;> simp [kind, QuoteForm.kind]
  | unterminated form => cases form <;> simp [kind, QuoteForm.kind]
  | operator op =>
      cases op with
      | colon => cases ternary <;> simp [kind]
      | _ => simp [kind]
  | _ => simp [kind]

theorem kind_ne_annotationMark {tag : Tag} {text : String} {ternary : Bool} :
    tag.kind text ternary ≠ .annotationMark := by
  cases tag with
  | word =>
      simp only [kind]
      split <;> simp
  | quoted form => cases form <;> simp [kind, QuoteForm.kind]
  | unterminated form => cases form <;> simp [kind, QuoteForm.kind]
  | operator op =>
      cases op with
      | colon => cases ternary <;> simp [kind]
      | _ => simp [kind]
  | _ => simp [kind]

end Tag

theorem AtSign.kind_ne_whitespace (sign : AtSign) : sign.kind ≠ .whitespace := by
  cases sign <;> simp [kind]

theorem Source.lexed_of_scan {s : Source} {p : Nat} {lexeme : Lexeme} (hfit : s.len ≤ maxOffset)
    (hp : p ≤ s.len) (hscan : s.scan p = .ok (some lexeme)) :
    p < s.len ∧ s.Lexed p lexeme.tag (p + lexeme.len) := by
  rcases Nat.lt_or_ge p s.len with hlt | hge
  · obtain ⟨found, hfound, hlexed⟩ := scan_of_lt_len hfit hlt
    rw [hscan] at hfound
    cases hfound
    exact ⟨hlt, hlexed⟩
  · rw [Nat.le_antisymm hp hge, scan_len] at hscan
    cases hscan

namespace Lexer

variable {lexer : Lexer} {state : Classifier} {start stop : Nat}

theorem judgeWord_kind {text : String} {ahead : Nat} {v : Verdict}
    (h : lexer.judgeWord state text ahead = .ok v) :
    v.kind = Tag.kind text v.flags.ternary .word := by
  unfold judgeWord at h
  simp only [Tag.kind]
  split at h
  · cases h
    rw [if_pos ‹_›]
  · rw [if_neg ‹_›]
    split at h
    · obtain ⟨next, -, h⟩ := bind_eq_ok h
      split at h <;> cases h <;> rfl
    · cases h
      rfl

theorem judge_kind {tag : Tag} {ahead : Nat} {v : Verdict}
    (h : lexer.judge state tag start stop ahead = .ok v) :
    v.kind = tag.kind (lexer.source.slice start stop) v.flags.ternary := by
  cases tag with
  | word => exact judgeWord_kind h
  | quoted form =>
      obtain ⟨problems, -, h⟩ := bind_eq_ok h
      cases h
      rfl
  | operator op =>
      cases op with
      | question => rcases judgeQuestion_eq_ok h with rfl | rfl <;> rfl
      | _ =>
          cases h
          rfl
  | _ =>
      cases h
      rfl

theorem judgeAt_kind (sign : AtSign) : (judgeAt sign start stop).kind = sign.kind := by
  cases sign with
  | annotationMark balanced => cases balanced <;> rfl
  | _ => rfl

variable {stream mid : Stream} {token : Token}

theorem tag_of_whitespace (hfit : lexer.source.len ≤ maxOffset) (hsound : lexer.Sound stream)
    (hnext : lexer.next stream = .ok (some (token, mid))) (hkind : token.kind = .whitespace) :
    ∃ lexeme, lexer.source.scan token.start = .ok (some lexeme) ∧
      (lexeme.tag = .blank ∨ lexeme.tag = .newline) := by
  obtain ⟨lexeme, hscan, -, hjudged⟩ := next_judged hfit hsound hnext
  refine ⟨lexeme, hscan, ?_⟩
  cases hjudged with
  | blanks htag => exact htag
  | @marked sign _ _ _ _ hsettle =>
      obtain ⟨hsign, -, -⟩ := Verdict.settle_eq_ok hsettle
      simp only [hkind, judgeAt_kind] at hsign
      exact absurd hsign.symm sign.kind_ne_whitespace
  | single _ hv hsettle =>
      obtain ⟨hverdict, -, -⟩ := Verdict.settle_eq_ok hsettle
      simp only [hkind] at hverdict
      rw [judge_kind hv] at hverdict
      exact Tag.kind_eq_whitespace_iff.1 hverdict.symm

end Lexer

end JavaLex
