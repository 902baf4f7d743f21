import JavaLex.Proofs.EscapeGrammar
import JavaLex.Proofs.Surrogates

/-! The value of a content. Each of its elements adds a row of UTF-16 units, and the value is the
text of all of them. -/

namespace JavaLex.Escape

open Text (Utf16)

/-- The units that a piece adds to the value. -/
def Piece.units : Piece → List Nat
  | char c => Text.units c
  | unit value => [value]
  | joinedLine => []
  | malformedUnicode => [0xFFFD]
  | invalid c => Text.units '\\' ++ Text.units c
  | trailing => Text.units '\\'

/-- The units of a content whose elements are `found`. -/
def unitsOf (found : List (Piece × List Char)) : List Nat :=
  found.flatMap fun element => element.1.units

variable {form : QuoteForm} {piece : Piece} {text rest content : List Char}
  {found : List (Piece × List Char)} {t : Utf16} {row : List Nat}

theorem Piece.append_holds (piece : Piece) (h : t.Holds row) :
    (piece.append t).Holds (row ++ piece.units) := by
  cases piece with
  | char c => exact h.push c
  | unit value => exact h.pushUnit value
  | joinedLine =>
      rw [units, List.append_nil]
      exact h
  | malformedUnicode => exact h.push Text.replacement
  | invalid c =>
      rw [units, ← List.append_assoc]
      exact (h.push '\\').push c
  | trailing => exact h.push '\\'

theorem foldl_append_holds (found : List (Piece × Nat)) (h : t.Holds row) :
    (found.foldl (fun t piece => piece.1.append t) t).Holds
      (row ++ found.flatMap fun piece => piece.1.units) := by
  induction found generalizing t row with
  | nil =>
      rw [List.flatMap_nil, List.append_nil]
      exact h
  | cons first rest ih =>
      rw [List.flatMap_cons, ← List.append_assoc]
      exact ih (first.1.append_holds h)

theorem value_toList (found : List (Piece × Nat)) :
    (value found).toList = Text.decode (found.flatMap fun piece => piece.1.units) :=
  (foldl_append_holds found Text.Utf16.holds_nil).finish

theorem Elements.value_eq (h : Elements form content found) :
    (value (pieces form content)).toList = Text.decode (unitsOf found) := by
  rw [value_toList, h.pieces_eq, List.flatMap_map]
  rfl

theorem Element.units_lt (h : Element form piece text rest) :
    ∀ unit ∈ piece.units, unit < 0x10000 := by
  have hbackslash := Text.units_lt '\\'
  cases h with
  | ordinary _ | letter _ | octal _ _ => exact Text.units_lt _
  | unicode hunit =>
      intro unit hmem
      rw [List.mem_singleton.1 hmem]
      exact hunit.lt
  | malformed _ _ =>
      intro unit hmem
      rw [List.mem_singleton.1 hmem]
      decide
  | joinedLine _ _ => exact nofun
  | @invalid c =>
      intro unit hmem
      rcases List.mem_append.1 hmem with hmem | hmem
      · exact hbackslash unit hmem
      · exact Text.units_lt c unit hmem
  | trailing => exact hbackslash

theorem Elements.units_lt (h : Elements form content found) :
    ∀ unit ∈ unitsOf found, unit < 0x10000 := by
  induction h with
  | nil => exact nofun
  | cons hfirst _ ih =>
      intro unit hmem
      rw [unitsOf, List.flatMap_cons] at hmem
      rcases List.mem_append.1 hmem with hmem | hmem
      · exact hfirst.units_lt unit hmem
      · exact ih unit hmem

theorem Elements.eq_of_not_mem (h : Elements form content found) (hplain : '\\' ∉ content) :
    found = content.map fun c => (.char c, [c]) := by
  induction h with
  | nil => rfl
  | @cons piece text rest later hfirst _ ih =>
      obtain ⟨htext, hrest⟩ := not_or.1 (List.mem_append.not.1 hplain)
      rcases hfirst.forms with ⟨c, -, rfl, rfl⟩ | ⟨rfl, -⟩ | ⟨c, more, rfl⟩
      · rw [ih hrest]
        rfl
      · exact absurd List.mem_cons_self htext
      · exact absurd List.mem_cons_self htext

theorem Elements.decode_of_not_mem (h : Elements form content found) (hplain : '\\' ∉ content) :
    Text.decode (unitsOf found) = content := by
  rw [h.eq_of_not_mem hplain, unitsOf, List.flatMap_map]
  exact Text.decode_flatMap_units content

theorem value_of_read {content : String} {base : Nat} {reading : Reading}
    (h : read form content base = .ok reading) :
    reading.value =
      if '\\' ∈ content.toList then some (value (pieces form content.toList)) else none := by
  rw [read_eq] at h
  simp only [List.contains_iff_mem] at h
  split at h
  · rename_i hescape
    obtain ⟨ds, -, h⟩ := bind_eq_ok h
    cases h
    rw [if_pos hescape]
  · rename_i hplain
    cases h
    rw [if_neg hplain]

/-- A content is read. Its value is the text of the UTF-16 units of its elements, and no value is
given just for a content without a backslash, whose elements write the content itself. -/
theorem read_value (form : QuoteForm) (content : String) (base : Nat)
    (hfit : base + content.utf8ByteSize ≤ maxOffset) :
    ∃ reading found, read form content base = .ok reading ∧
      Elements form content.toList found ∧
      (∀ other, Elements form content.toList other → other = found) ∧
      (∀ unit ∈ unitsOf found, unit < 0x10000) ∧
      (reading.value = none ↔ '\\' ∉ content.toList) ∧
      (reading.value.getD content).toList = Text.decode (unitsOf found) := by
  obtain ⟨reading, hread, -⟩ := read_returns form content base hfit
  obtain ⟨found, hfound⟩ := exists_elements form content.toList
  have hvalue := value_of_read hread
  refine ⟨reading, found, hread, hfound, fun other h => h.unique hfound, hfound.units_lt, ?_⟩
  by_cases hescape : '\\' ∈ content.toList
  · rw [if_pos hescape] at hvalue
    rw [hvalue]
    exact ⟨iff_of_false nofun (not_not_intro hescape), hfound.value_eq⟩
  · rw [if_neg hescape] at hvalue
    rw [hvalue]
    exact ⟨iff_of_true rfl hescape, (hfound.decode_of_not_mem hescape).symm⟩

/-- Two halves of a pair meet where a line is joined; behind them stand an octal escape of two
digits, a half without a partner and a bad escape. -/
theorem read_value_halves :
    3 + "\\uD83D\\\r\n\\uDE00\\477\\uD83D\\q".utf8ByteSize ≤ maxOffset ∧
      ∃ reading found, read .textBlock "\\uD83D\\\r\n\\uDE00\\477\\uD83D\\q" 3 = .ok reading ∧
        Elements .textBlock "\\uD83D\\\r\n\\uDE00\\477\\uD83D\\q".toList found ∧
        unitsOf found = [0xD83D, 0xDE00, 0x27, 0x37, 0xD83D, 0x5C, 0x71] ∧
        reading.value = some "😀'7\uFFFD\\q" := by
  have hfit : 3 + "\\uD83D\\\r\n\\uDE00\\477\\uD83D\\q".utf8ByteSize ≤ maxOffset := by decide
  obtain ⟨reading, found, hread, hfound, -, -, hnone, hvalue⟩ := read_value .textBlock _ 3 hfit
  have hunits : unitsOf found = [0xD83D, 0xDE00, 0x27, 0x37, 0xD83D, 0x5C, 0x71] := by
    have hpieces := congrArg (List.flatMap fun piece => piece.1.units) hfound.pieces_eq
    rw [List.flatMap_map] at hpieces
    exact hpieces.symm.trans (by decide +kernel)
  refine ⟨hfit, reading, found, hread, hfound, hunits, ?_⟩
  obtain ⟨value, hsome⟩ := Option.ne_none_iff_exists'.1 (hnone.not.2 (by decide +kernel))
  rw [hsome, hunits] at hvalue
  rw [hsome]
  exact congrArg some (String.toList_inj.1 (hvalue.trans (by decide +kernel)))

end JavaLex.Escape
