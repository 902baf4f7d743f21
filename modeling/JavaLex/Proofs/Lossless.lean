import Mathlib.Data.List.Chain
import JavaLex.Proofs.Pulling

/-! Nothing of a text is lost. The tokens of a text are its slices between offsets that follow
each other from the start of the text to its end. -/

namespace JavaLex

/-- The tokens cut the text into pieces: they stand in its order, meet each other, are not empty
and have the text between their offsets, both of which are boundaries. -/
structure Source.PartitionedBy (s : Source) (tokens : List Token) : Prop where
  nil_iff : tokens = [] ↔ s.text = ""
  first : ∀ token, tokens.head? = some token → token.start = 0
  chain : tokens.IsChain fun a b => a.stop = b.start
  last : ∀ token, tokens.getLast? = some token → token.stop = s.len
  nonempty : ∀ token ∈ tokens, token.start < token.stop
  boundary : ∀ token ∈ tokens, s.IsBoundary token.start ∧ s.IsBoundary token.stop
  text : ∀ token ∈ tokens, s.slice? token.start token.stop = some token.text
  join : String.join (tokens.map Token.text) = s.text

namespace Lexer

variable {lexer : Lexer} {stream mid final : Stream} {token : Token} {tokens : List Token}

namespace Pulls

section

variable (hfit : lexer.source.len ≤ maxOffset)

include hfit

theorem start_of_head (h : lexer.Pulls stream tokens final) (hsound : lexer.Sound stream)
    (hhead : tokens.head? = some token) : token.start = stream.pos := by
  cases h with
  | nil stream => cases hhead
  | cons hnext _ =>
      cases hhead
      exact (next_eq_some hfit hsound hnext).1.start_eq

theorem stop_of_getLast (h : lexer.Pulls stream tokens final) (hsound : lexer.Sound stream)
    (hlast : tokens.getLast? = some token) : token.stop = final.pos := by
  induction h with
  | nil stream => cases hlast
  | @cons stream mid final first rest hnext hrest ih =>
      obtain ⟨hcovers, hmid⟩ := next_eq_some hfit hsound hnext
      cases rest with
      | nil =>
          cases hrest
          cases hlast
          exact hcovers.stop_eq
      | cons second rest =>
          rw [List.getLast?_cons_cons] at hlast
          exact ih hmid hlast

theorem isChain (h : lexer.Pulls stream tokens final) (hsound : lexer.Sound stream) :
    tokens.IsChain fun a b => a.stop = b.start := by
  induction h with
  | nil stream => exact .nil
  | cons hnext hrest ih =>
      obtain ⟨hcovers, hmid⟩ := next_eq_some hfit hsound hnext
      refine List.isChain_cons.2 ⟨fun token hhead => ?_, ih hmid⟩
      rw [hcovers.stop_eq, hrest.start_of_head hfit hmid hhead]

theorem covers_of_mem (h : lexer.Pulls stream tokens final) (hsound : lexer.Sound stream)
    (hmem : token ∈ tokens) : ∃ before behind, lexer.Covers before token behind := by
  induction h with
  | nil stream => cases hmem
  | cons hnext _ ih =>
      obtain ⟨hcovers, hmid⟩ := next_eq_some hfit hsound hnext
      rcases List.mem_cons.1 hmem with rfl | hmem
      · exact ⟨_, _, hcovers⟩
      · exact ih hmid hmem

/-- The tokens of some pulls, put together, are the text between the first stream and the
last. -/
theorem slice?_join (h : lexer.Pulls stream tokens final) (hsound : lexer.Sound stream) :
    lexer.source.slice? stream.pos final.pos = some (String.join (tokens.map Token.text)) := by
  induction h with
  | nil stream => exact Source.slice?_self hsound.boundary
  | cons hnext _ ih =>
      obtain ⟨hcovers, hmid⟩ := next_eq_some hfit hsound hnext
      have hfirst := hcovers.text
      rw [hcovers.start_eq, hcovers.stop_eq] at hfirst
      rw [List.map_cons, String.join_cons]
      exact Source.slice?_trans hfirst (ih hmid)

end

end Pulls

/-- The tokens of every text that fits partition it. -/
theorem drain_partitions (lexer : Lexer) (hfit : lexer.source.len ≤ maxOffset) :
    ∃ tokens final, lexer.drain {} = .ok (tokens, final) ∧
      lexer.source.PartitionedBy tokens := by
  obtain ⟨tokens, final, hdrain, hpulls, hend, hfinal⟩ := exists_drain hfit
  have hstart := lexer.sound_start
  have hpos := pos_eq_len_of_next hfit hfinal hend
  have hjoin : String.join (tokens.map Token.text) = lexer.source.text := by
    have hslice := hpulls.slice?_join hfit hstart
    rw [hpos, lexer.source.slice?_zero_len] at hslice
    exact (Option.some.inj hslice).symm
  refine ⟨tokens, final, hdrain, ?_, ?_, ?_, ?_, ?_, ?_, ?_, hjoin⟩
  · constructor
    · rintro rfl
      exact hjoin.symm
    · intro hempty
      have hlen : lexer.source.len = 0 := by rw [Source.len, hempty]; rfl
      have hcount := hpulls.length_le hfit hstart
      exact List.length_eq_zero_iff.1 (by omega)
  · exact fun token hhead => hpulls.start_of_head hfit hstart hhead
  · exact hpulls.isChain hfit hstart
  · intro token hlast
    rw [hpulls.stop_of_getLast hfit hstart hlast, hpos]
  · intro token hmem
    obtain ⟨_, _, hcovers⟩ := hpulls.covers_of_mem hfit hstart hmem
    exact hcovers.nonempty
  · intro token hmem
    obtain ⟨_, _, hcovers⟩ := hpulls.covers_of_mem hfit hstart hmem
    obtain ⟨hfirst, hsecond, -⟩ := Source.isBoundary_of_slice? hcovers.text
    exact ⟨hfirst, hsecond⟩
  · intro token hmem
    obtain ⟨_, _, hcovers⟩ := hpulls.covers_of_mem hfit hstart hmem
    exact hcovers.text

/-- A text with a zero byte, a mark in front, wide characters and an annotation and a string that
nothing closes. -/
theorem drain_partitions_unclosed :
    Source.len ⟨"\uFEFF\x00é @a.b(\"é\n"⟩ ≤ maxOffset ∧
      ∃ tokens final, drain ⟨⟨"\uFEFF\x00é @a.b(\"é\n"⟩, {}⟩ {} = .ok (tokens, final) ∧
        Source.PartitionedBy ⟨"\uFEFF\x00é @a.b(\"é\n"⟩ tokens :=
  ⟨by decide, drain_partitions _ (by decide)⟩

end Lexer

end JavaLex
