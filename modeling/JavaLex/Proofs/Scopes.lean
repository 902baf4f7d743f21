import Mathlib.Data.List.Infix
import JavaLex.Proofs.Effects

/-! Scopes, told from the tokens alone. A token stands in the same block as the end of a list if the
braces between them are balanced, and in the block `n` blocks out if they leave `n` open. -/

namespace JavaLex

namespace Token

def isBrace (token : Token) : Bool := token.isOpenBrace || token.isCloseBrace

theorem isCloseBrace_of_isOpenBrace {token : Token} (h : token.isOpenBrace = true) :
    token.isCloseBrace = false := by
  have htext : token.text = "\x7b" := by simpa using (Bool.and_eq_true_iff.1 h).2
  simp [isCloseBrace, htext]

/-- How far out, before a token, the block is that is `n` blocks out behind it. The block that a
brace opens was not there before it. -/
def levelBefore (token : Token) (n : Nat) : Option Nat :=
  if token.isOpenBrace then if n = 0 then none else some (n - 1)
  else if token.isCloseBrace then some (n + 1)
  else some n

theorem levelBefore_eq_some_iff {token : Token} {m n : Nat} :
    token.levelBefore n = some m ↔
      m + (if token.isOpenBrace then 1 else 0) = n + (if token.isCloseBrace then 1 else 0) := by
  unfold levelBefore
  by_cases hopen : token.isOpenBrace = true
  · have hclose := isCloseBrace_of_isOpenBrace hopen
    simp only [hopen, hclose, if_true, Bool.false_eq_true, if_false]
    split
    · simp only [reduceCtorEq, false_iff]
      omega
    · simp only [Option.some.injEq]
      omega
  · by_cases hclose : token.isCloseBrace = true
    · simp only [hopen, hclose, if_true, Bool.false_eq_true, if_false, Option.some.injEq]
      omega
    · simp only [hopen, hclose, Bool.false_eq_true, if_false, Option.some.injEq]
      omega

end Token

/-- The braces close none that stand before them and leave `n` open. They are balanced if that is
none. -/
structure LeavesOpen (n : Nat) (tokens : List Token) : Prop where
  closes_le : ∀ initial, initial <+: tokens →
    initial.countP Token.isCloseBrace ≤ initial.countP Token.isOpenBrace
  opens_eq : tokens.countP Token.isOpenBrace = tokens.countP Token.isCloseBrace + n

instance (n : Nat) (tokens : List Token) : Decidable (LeavesOpen n tokens) :=
  decidable_of_iff
    ((∀ initial ∈ tokens.inits,
        initial.countP Token.isCloseBrace ≤ initial.countP Token.isOpenBrace) ∧
      tokens.countP Token.isOpenBrace = tokens.countP Token.isCloseBrace + n)
    (by simp only [List.mem_inits]; exact ⟨fun h => ⟨h.1, h.2⟩, fun h => ⟨h.1, h.2⟩⟩)

/-- A semicolon stands in the block `n` blocks out. -/
def EndsStatement (n : Nat) : List Token → Prop
  | [] => False
  | token :: rest => token.isSemicolon = true ∧ LeavesOpen n rest ∨ EndsStatement n rest

instance EndsStatement.decidable (n : Nat) :
    (tokens : List Token) → Decidable (EndsStatement n tokens)
  | [] => .isFalse id
  | token :: rest =>
    have := EndsStatement.decidable n rest
    inferInstanceAs
      (Decidable (token.isSemicolon = true ∧ LeavesOpen n rest ∨ EndsStatement n rest))

/-- The tokens, braces apart, that stand in the block `n` blocks out and behind its last
semicolon. -/
def scopeSegment (n : Nat) : List Token → List Token
  | [] => []
  | token :: rest =>
    if token.isBrace = false ∧ LeavesOpen n rest ∧ ¬ EndsStatement n (token :: rest) then
      token :: scopeSegment n rest
    else scopeSegment n rest

theorem leavesOpen_nil {n : Nat} : LeavesOpen n [] ↔ n = 0 := by
  constructor
  · intro h
    have := h.opens_eq
    simpa using this.symm
  · intro h
    refine ⟨?_, by simp [h]⟩
    intro initial hinitial
    rw [List.prefix_nil.1 hinitial]
    simp

theorem leavesOpen_append_iff {n : Nat} {tokens : List Token} {token : Token} :
    LeavesOpen n (tokens ++ [token]) ↔
      ∃ m, token.levelBefore n = some m ∧ LeavesOpen m tokens := by
  have hsum : ∀ test : Token → Bool,
      (tokens ++ [token]).countP test = tokens.countP test + if test token then 1 else 0 := by
    intro test
    rw [List.countP_append, List.countP_singleton]
  constructor
  · intro h
    have hle : ∀ initial, initial <+: tokens →
        initial.countP Token.isCloseBrace ≤ initial.countP Token.isOpenBrace :=
      fun initial hinitial => h.closes_le initial (List.prefix_concat_iff.2 (.inr hinitial))
    have htokens := hle tokens List.prefix_rfl
    have heq := h.opens_eq
    rw [hsum, hsum] at heq
    refine ⟨tokens.countP Token.isOpenBrace - tokens.countP Token.isCloseBrace, ?_, hle, ?_⟩
    · rw [Token.levelBefore_eq_some_iff]
      omega
    · omega
  · rintro ⟨m, hm, h⟩
    have hlevel := Token.levelBefore_eq_some_iff.1 hm
    have heq := h.opens_eq
    have hcount : (tokens ++ [token]).countP Token.isOpenBrace =
        (tokens ++ [token]).countP Token.isCloseBrace + n := by
      rw [hsum, hsum]
      omega
    refine ⟨?_, hcount⟩
    intro initial hinitial
    rcases List.prefix_concat_iff.1 hinitial with rfl | hinitial
    · omega
    · exact h.closes_le initial hinitial

theorem endsStatement_append_iff {n : Nat} {tokens : List Token} {token : Token} :
    EndsStatement n (tokens ++ [token]) ↔
      (∃ m, token.levelBefore n = some m ∧ EndsStatement m tokens) ∨
        token.isSemicolon = true ∧ n = 0 := by
  induction tokens with
  | nil => simp [EndsStatement, leavesOpen_nil]
  | cons first rest ih =>
      simp only [List.cons_append, EndsStatement]
      rw [ih, leavesOpen_append_iff]
      constructor
      · rintro (⟨hsemicolon, m, hm, hrest⟩ | ⟨m, hm, hrest⟩ | hlast)
        · exact .inl ⟨m, hm, .inl ⟨hsemicolon, hrest⟩⟩
        · exact .inl ⟨m, hm, .inr hrest⟩
        · exact .inr hlast
      · rintro (⟨m, hm, ⟨hsemicolon, hrest⟩ | hrest⟩ | hlast)
        · exact .inl ⟨hsemicolon, m, hm, hrest⟩
        · exact .inr (.inl ⟨m, hm, hrest⟩)
        · exact .inr (.inr hlast)

theorem scopeSegment_of_semicolon {token : Token} (h : token.isSemicolon = true)
    (tokens : List Token) : scopeSegment 0 (tokens ++ [token]) = [] := by
  have hends : ∀ tokens, EndsStatement 0 (tokens ++ [token]) :=
    fun tokens => endsStatement_append_iff.2 (.inr ⟨h, rfl⟩)
  induction tokens with
  | nil =>
      have hlast := hends []
      simp only [List.nil_append] at hlast ⊢
      rw [scopeSegment, if_neg (fun hscope => hscope.2.2 hlast), scopeSegment]
  | cons first rest ih =>
      have hfirst := hends (first :: rest)
      simp only [List.cons_append] at hfirst ⊢
      rw [scopeSegment, if_neg (fun hscope => hscope.2.2 hfirst), ih]

/-- One more token joins its own block, and moves the others in or out. -/
theorem scopeSegment_append {n : Nat} {token : Token}
    (h : ¬ (token.isSemicolon = true ∧ n = 0)) (tokens : List Token) :
    scopeSegment n (tokens ++ [token]) =
      (token.levelBefore n).elim [] (scopeSegment · tokens) ++
        if n = 0 ∧ token.isBrace = false then [token] else [] := by
  induction tokens with
  | nil =>
      have hnone : (token.levelBefore n).elim [] (fun m => scopeSegment m []) = [] := by
        cases token.levelBefore n <;> rfl
      have hends : ¬ EndsStatement n [token] := by
        intro hends
        rw [← List.nil_append [token]] at hends
        rcases endsStatement_append_iff.1 hends with ⟨m, -, hm⟩ | hlast
        · exact hm
        · exact h hlast
      rw [hnone, List.nil_append, List.nil_append, scopeSegment, scopeSegment]
      by_cases hn : n = 0 ∧ token.isBrace = false
      · rw [if_pos hn, if_pos ⟨hn.2, leavesOpen_nil.2 hn.1, hends⟩]
      · rw [if_neg hn, if_neg (fun hscope => hn ⟨leavesOpen_nil.1 hscope.2.1, hscope.1⟩)]
  | cons first rest ih =>
      rw [List.cons_append, scopeSegment, ih]
      cases hlevel : token.levelBefore n with
      | none =>
          have hleaves : ¬ LeavesOpen n (rest ++ [token]) := by
            rw [leavesOpen_append_iff, hlevel]
            simp
          rw [if_neg (fun hscope => hleaves hscope.2.1)]
          rfl
      | some m =>
          have hleaves : LeavesOpen n (rest ++ [token]) ↔ LeavesOpen m rest := by
            rw [leavesOpen_append_iff, hlevel]
            simp
          have hends : EndsStatement n (first :: (rest ++ [token])) ↔
              EndsStatement m (first :: rest) := by
            rw [← List.cons_append, endsStatement_append_iff, hlevel]
            simp [h]
          simp only [Option.elim, hleaves, hends]
          rw [scopeSegment]
          split
          · rfl
          · rfl

end JavaLex
