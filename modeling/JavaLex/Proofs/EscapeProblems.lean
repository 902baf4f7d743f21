import JavaLex.Proofs.EscapeGrammar

/-! The problems of a content: one for each of its elements that is no escape, from the backslash
on. There are none if and only if the content can be put together from characters and escapes,
whichever way that is done. -/

namespace JavaLex.Escape

/-- A character or an escape, with nothing said about what stands behind it. -/
inductive Valid (form : QuoteForm) : List Char → Prop where
  | ordinary {c : Char} : c ≠ '\\' → Valid form [c]
  | letter {c value : Char} : (c, value) ∈ letters → Valid form ['\\', c]
  | octal {digits : List Char} {value : Nat} : Octal digits value → Valid form ('\\' :: digits)
  | unicode {n value : Nat} {digits : List Char} : HexUnit digits value →
      Valid form ('\\' :: (List.replicate (n + 1) 'u' ++ digits))
  | joinedLine {lineEnd : List Char} : form = .textBlock →
      lineEnd = ['\n'] ∨ lineEnd = ['\r'] ∨ lineEnd = ['\r', '\n'] →
      Valid form ('\\' :: lineEnd)

/-- What is wrong with elements, the first of which stands at `start`. -/
def complaints : (start : Nat) → List (Piece × List Char) → List Diagnostic
  | _, [] => []
  | start, (.invalid c, text) :: rest =>
    ⟨.invalidEscape c, start, start + width text⟩ :: complaints (start + width text) rest
  | start, (.malformedUnicode, text) :: rest =>
    ⟨.malformedUnicodeEscape, start, start + width text⟩ :: complaints (start + width text) rest
  | start, (.trailing, text) :: rest =>
    ⟨.invalidEscape '\\', start, start + width text⟩ :: complaints (start + width text) rest
  | start, (_, text) :: rest => complaints (start + width text) rest

variable {form : QuoteForm} {piece : Piece} {text rest part content : List Char}
  {found : List (Piece × List Char)} {parts : List (List Char)} {start : Nat}

theorem complaints_cons (start : Nat) (piece : Piece) (text : List Char)
    (found : List (Piece × List Char)) :
    complaints start ((piece, text) :: found) =
      (piece.problem?.map (⟨·, start, start + width text⟩ : Problem → Diagnostic)).toList ++
        complaints (start + width text) found := by
  cases piece <;> rfl

theorem diagnostics_complaints (base offset : Nat) (found : List (Piece × List Char))
    (hfit : base + (offset + width (found.map Prod.snd).flatten) ≤ maxOffset) :
    diagnostics base offset (found.map fun element => (element.1, width element.2)) =
      .ok (complaints (base + offset) found) := by
  induction found generalizing offset with
  | nil => rfl
  | cons element rest ih =>
      obtain ⟨piece, text⟩ := element
      simp only [List.map_cons, List.flatten_cons, width_append] at hfit
      have hrest := ih (offset + width text) (by omega)
      rw [complaints_cons, List.map_cons, diagnostics, Nat.add_assoc]
      cases piece.problem? with
      | none => exact hrest
      | some problem =>
          simp only [checkedAdd_eq_ok (show base + offset ≤ maxOffset by omega),
            checkedAdd_eq_ok (show base + (offset + width text) ≤ maxOffset by omega),
            except_ok_bind, hrest]
          rfl

theorem le_of_mem_complaints {d : Diagnostic} (h : d ∈ complaints start found) :
    start ≤ d.start := by
  induction found generalizing start with
  | nil => cases h
  | cons element rest ih =>
      rw [complaints_cons] at h
      rcases List.mem_append.1 h with h | h
      · obtain ⟨problem, -, rfl⟩ := Option.map_eq_some_iff.1 (Option.mem_toList.1 h)
        exact Nat.le_refl _
      · exact Nat.le_trans (Nat.le_add_right _ _) (ih h)

theorem complaints_ordered (start : Nat) (found : List (Piece × List Char)) :
    (complaints start found).Pairwise fun a b => a.stop ≤ b.start := by
  induction found generalizing start with
  | nil => exact .nil
  | cons element rest ih =>
      rw [complaints_cons]
      refine List.pairwise_append.2 ⟨?_, ih _, ?_⟩
      · cases element.1.problem? with
        | none => exact .nil
        | some problem => exact List.pairwise_singleton _ _
      · intro a ha b hb
        obtain ⟨problem, -, rfl⟩ := Option.map_eq_some_iff.1 (Option.mem_toList.1 ha)
        exact le_of_mem_complaints hb

theorem Element.backslash {problem : Problem} (h : Element form piece text rest)
    (hproblem : piece.problem? = some problem) : ∃ more, text = '\\' :: more := by
  rcases h.forms with ⟨c, -, -, rfl⟩ | ⟨rfl, -⟩ | ⟨c, more, rfl⟩
  · cases hproblem
  · exact ⟨_, rfl⟩
  · exact ⟨_, rfl⟩

theorem Elements.exists_of_mem {d : Diagnostic} (h : Elements form content found)
    (hd : d ∈ complaints start found) :
    ∃ before piece text rest, (piece, text) ∈ found ∧ Element form piece text rest ∧
      piece.problem? = some d.problem ∧ content = before ++ (text ++ rest) ∧
      d.start = start + width before ∧ d.stop = start + width (before ++ text) := by
  induction h generalizing start with
  | nil => cases hd
  | @cons first front behind _ hfirst _ ih =>
      rw [complaints_cons] at hd
      rcases List.mem_append.1 hd with hd | hd
      · obtain ⟨problem, hproblem, rfl⟩ := Option.map_eq_some_iff.1 (Option.mem_toList.1 hd)
        exact ⟨[], first, front, behind, List.mem_cons_self, hfirst, hproblem, rfl, rfl, rfl⟩
      · obtain ⟨before, piece, text, rest, hmem, helement, hproblem, rfl, hstart, hstop⟩ := ih hd
        refine ⟨front ++ before, piece, text, rest, List.mem_cons_of_mem _ hmem, helement, hproblem,
          (List.append_assoc _ _ _).symm, ?_, ?_⟩
        · rw [hstart, width_append, Nat.add_assoc]
        · rw [hstop, List.append_assoc, width_append front, Nat.add_assoc]

theorem complaints_eq_nil_iff :
    complaints start found = [] ↔ ∀ element ∈ found, element.1.problem? = none := by
  induction found generalizing start with
  | nil => exact iff_of_true rfl nofun
  | cons element rest ih =>
      rw [complaints_cons, List.append_eq_nil_iff, ih, List.forall_mem_cons,
        Option.toList_eq_nil_iff, Option.map_eq_none_iff]

theorem Element.valid (h : Element form piece text rest) (hproblem : piece.problem? = none) :
    Valid form text := by
  cases h with
  | ordinary hc => exact .ordinary hc
  | letter hletter => exact .letter hletter
  | octal hdigits _ => exact .octal hdigits
  | unicode hunit => exact .unicode hunit
  | malformed _ _ => cases hproblem
  | joinedLine hform hline =>
      refine .joinedLine hform ?_
      rcases hline with h | h | ⟨h, -⟩
      · exact .inl h
      · exact .inr (.inr h)
      · exact .inr (.inl h)
  | invalid _ => cases hproblem
  | trailing => cases hproblem

theorem Elements.valid (h : Elements form content found)
    (hproblems : ∀ element ∈ found, element.1.problem? = none) :
    ∀ part ∈ found.map Prod.snd, Valid form part := by
  induction h with
  | nil => exact nofun
  | cons hfirst _ ih =>
      obtain ⟨hproblem, hlater⟩ := List.forall_mem_cons.1 hproblems
      exact List.forall_mem_cons.2 ⟨hfirst.valid hproblem, ih hlater⟩

/-- What is valid starts an element. The element may take digits or a line feed on top of it, which
are characters otherwise. -/
theorem Valid.exists_element (h : Valid form part) (later : List Char) :
    ∃ piece extra rest, later = extra ++ rest ∧ '\\' ∉ extra ∧ piece.problem? = none ∧
      Element form piece (part ++ extra) rest := by
  have hnil : ∀ piece : Piece, piece.problem? = none → Element form piece part later →
      ∃ piece extra rest, later = extra ++ rest ∧ '\\' ∉ extra ∧ piece.problem? = none ∧
        Element form piece (part ++ extra) rest := by
    intro piece hproblem hfirst
    exact ⟨piece, [], later, rfl, List.not_mem_nil, hproblem, (List.append_nil part).symm ▸ hfirst⟩
  cases h with
  | ordinary hc => exact hnil _ rfl (.ordinary hc)
  | letter hletter => exact hnil _ rfl (.letter hletter)
  | octal hdigits =>
      obtain ⟨c, more, rfl⟩ := hdigits.exists_cons
      obtain ⟨value, rest, hrest, hfirst⟩ := exists_octal_element hdigits.head (more ++ later)
      have htaken : c :: more <+: octalDigits c (more ++ later) :=
        List.prefix_of_prefix_length_le (List.prefix_append (c :: more) later)
          (octalDigits_prefix_cons c (more ++ later)) (hdigits.length_le (List.prefix_append _ _))
      obtain ⟨extra, hextra⟩ := htaken
      rw [← hextra] at hrest hfirst
      obtain ⟨found, hfound⟩ := exists_octal hdigits.head (more ++ later)
      refine ⟨_, extra, rest, ?_, ?_, rfl, hfirst⟩
      · rw [List.append_assoc] at hrest
        exact (List.append_cancel_left hrest).symm
      · intro hmem
        rw [← hextra] at hfound
        cases hfound.forall_digit '\\' (List.mem_append_right _ hmem)
  | unicode hunit => exact hnil _ rfl (.unicode hunit)
  | joinedLine hform hline =>
      rcases hline with rfl | rfl | rfl
      · exact hnil _ rfl (.joinedLine hform (.inl rfl))
      · by_cases hnext : later.head? = some '\n'
        · obtain ⟨rest, rfl⟩ := List.head?_eq_some_iff.1 hnext
          exact ⟨_, ['\n'], rest, rfl, by decide, rfl, .joinedLine hform (.inr (.inl rfl))⟩
        · exact hnil _ rfl (.joinedLine hform (.inr (.inr ⟨rfl, hnext⟩)))
      · exact hnil _ rfl (.joinedLine hform (.inr (.inl rfl)))

theorem exists_parts_behind {extra : List Char} (hparts : ∀ part ∈ parts, Valid form part)
    (hextra : '\\' ∉ extra) (h : parts.flatten = extra ++ rest) :
    ∃ others : List (List Char), (∀ part ∈ others, Valid form part) ∧ others.flatten = rest := by
  induction extra generalizing parts with
  | nil => exact ⟨parts, hparts, h⟩
  | cons c extra ih =>
      obtain ⟨hc, hextra⟩ := not_or.1 (List.mem_cons.not.1 hextra)
      cases parts with
      | nil => cases h
      | cons part others =>
          obtain ⟨hpart, hothers⟩ := List.forall_mem_cons.1 hparts
          rw [List.flatten_cons] at h
          cases hpart with
          | ordinary _ => exact ih hothers hextra (List.cons.inj h).2
          | letter _ | octal _ | unicode _ | joinedLine _ _ => exact absurd (List.cons.inj h).1 hc

theorem exists_elements_of_valid (content : List Char) (hparts : ∀ part ∈ parts, Valid form part)
    (h : parts.flatten = content) :
    ∃ found, Elements form content found ∧ ∀ element ∈ found, element.1.problem? = none := by
  induction hlen : content.length using Nat.strong_induction_on generalizing content parts with
  | _ n ih =>
      cases parts with
      | nil =>
          cases h
          exact ⟨[], .nil, nofun⟩
      | cons part others =>
          obtain ⟨hpart, hothers⟩ := List.forall_mem_cons.1 hparts
          obtain ⟨piece, extra, rest, hlater, hextra, hproblem, hfirst⟩ :=
            hpart.exists_element others.flatten
          obtain ⟨others, hothers, hrest⟩ := exists_parts_behind hothers hextra hlater
          have hwhole : part ++ extra ++ rest = content := by
            rw [← h, List.flatten_cons, hlater, List.append_assoc]
          have hpos := hfirst.length_pos
          have hlt : rest.length < n := by
            rw [← hlen, ← hwhole, List.length_append]
            omega
          obtain ⟨found, hfound, hproblems⟩ := ih _ hlt rest hothers hrest rfl
          refine ⟨(piece, part ++ extra) :: found, ?_, List.forall_mem_cons.2 ⟨hproblem, hproblems⟩⟩
          exact hwhole ▸ .cons hfirst hfound

/-- There is nothing to complain about just where a content is put together from characters and
escapes. -/
theorem Elements.complaints_eq_nil_iff (h : Elements form content found) :
    complaints start found = [] ↔
      ∃ parts : List (List Char), (∀ part ∈ parts, Valid form part) ∧ parts.flatten = content := by
  rw [Escape.complaints_eq_nil_iff]
  constructor
  · intro hproblems
    exact ⟨found.map Prod.snd, h.valid hproblems, h.flatten_eq⟩
  · rintro ⟨parts, hparts, hflatten⟩
    obtain ⟨other, hother, hproblems⟩ := exists_elements_of_valid content hparts hflatten
    rw [h.unique hother]
    exact hproblems

theorem readInto_eq (form : QuoteForm) (content : String) (base : Nat)
    (stored : Array Diagnostic) :
    readInto form content base stored =
      (fun reading => (reading.value, stored ++ reading.problems.toArray)) <$>
        read form content base := by
  rw [read_eq, readInto]
  split
  · simp only [report_eq]
    cases diagnostics base 0 (pieces form content.toList) with
    | error fault => rfl
    | ok ds => rfl
  · simp

theorem Elements.problems_of_read {content : String} {base : Nat} {reading : Reading}
    (h : Elements form content.toList found) (hread : read form content base = .ok reading)
    (hfit : base + content.utf8ByteSize ≤ maxOffset) :
    reading.problems = complaints base found := by
  have hds := diagnostics_complaints base 0 found (by
    rw [h.flatten_eq, width_toList, Nat.zero_add]
    exact hfit)
  rw [← h.pieces_eq] at hds
  rw [read_eq] at hread
  split at hread
  · simp only [hds, except_ok_bind, except_pure] at hread
    cases hread
    rfl
  · rename_i hplain
    cases hread
    refine (List.eq_nil_iff_forall_not_mem.2 fun d hd => ?_).symm
    obtain ⟨before, piece, text, rest, -, hfirst, hproblem, hcontent, -⟩ := h.exists_of_mem hd
    obtain ⟨more, rfl⟩ := hfirst.backslash hproblem
    apply hplain
    rw [List.contains_iff_mem, hcontent]
    exact List.mem_append_right _ List.mem_cons_self

theorem Elements.span_of_mem {content : String} {d : Diagnostic}
    (h : Elements form content.toList found) (hd : d ∈ complaints start found) :
    ∃ first last, d.start = start + first ∧ d.stop = start + last ∧ first < last ∧
      Source.char? ⟨content⟩ first = some '\\' ∧ Source.IsBoundary ⟨content⟩ first ∧
      Source.IsBoundary ⟨content⟩ last := by
  obtain ⟨before, piece, text, later, -, hfirst, hproblem, hcontent, hstart, hstop⟩ :=
    h.exists_of_mem hd
  obtain ⟨more, rfl⟩ := hfirst.backslash hproblem
  have hsplit : ∀ a b : List Char, a ++ b = content.toList →
      content = String.ofList a ++ String.ofList b ∧ (String.ofList a).utf8ByteSize = width a := by
    intro a b hab
    rw [← String.ofList_append, hab, String.ofList_toList, ← width_toList, String.toList_ofList]
    exact ⟨rfl, rfl⟩
  obtain ⟨hfront, hbefore⟩ := hsplit before ('\\' :: more ++ later) hcontent.symm
  obtain ⟨hlast, hthrough⟩ := hsplit (before ++ '\\' :: more) later
    (by rw [hcontent, List.append_assoc])
  refine ⟨width before, width (before ++ '\\' :: more), hstart, hstop, ?_, ?_, ?_, ?_⟩
  · rw [width_append, width]
    have : '\\'.utf8Size = 1 := rfl
    omega
  · refine Source.char?_eq_some_iff.2 ⟨String.ofList before, String.ofList (more ++ later), ?_,
      hbefore⟩
    rw [String.singleton_eq_ofList, ← String.ofList_append]
    exact hfront
  · exact Source.isBoundary_iff_append.2 ⟨_, _, hfront, hbefore⟩
  · exact Source.isBoundary_iff_append.2 ⟨_, _, hlast, hthrough⟩

/-- Reading stores one problem for each bad escape, behind what is stored already and in the order
of the content. It stores none just where the content is made of characters and escapes. -/
theorem readInto_stores (form : QuoteForm) (content : String) (base : Nat)
    (stored : Array Diagnostic) (hfit : base + content.utf8ByteSize ≤ maxOffset) :
    ∃ value found, Elements form content.toList found ∧
      (∀ other, Elements form content.toList other → other = found) ∧
      readInto form content base stored =
        .ok (value, stored ++ (complaints base found).toArray) ∧
      (complaints base found = [] ↔ ∃ parts : List (List Char),
        (∀ part ∈ parts, Valid form part) ∧ parts.flatten = content.toList) ∧
      ((complaints base found).Pairwise fun a b => a.stop ≤ b.start) ∧
      ∀ d ∈ complaints base found,
        ∃ first last, d.start = base + first ∧ d.stop = base + last ∧ first < last ∧
          Source.char? ⟨content⟩ first = some '\\' ∧ Source.IsBoundary ⟨content⟩ first ∧
          Source.IsBoundary ⟨content⟩ last := by
  obtain ⟨reading, hread, -⟩ := read_returns form content base hfit
  obtain ⟨found, hfound⟩ := exists_elements form content.toList
  refine ⟨reading.value, found, hfound, fun other h => h.unique hfound, ?_,
    hfound.complaints_eq_nil_iff, complaints_ordered base found, fun d => hfound.span_of_mem⟩
  rw [readInto_eq, hread, except_ok_map, hfound.problems_of_read hread hfit]

/-- A bad escape, a wide character, a unicode escape of one digit, an octal escape and a backslash
at the end, read with one problem stored already. -/
theorem readInto_stores_behind :
    5 + "\\qé\\uu1\\7\\".utf8ByteSize ≤ maxOffset ∧
      ∃ value found, Elements .string "\\qé\\uu1\\7\\".toList found ∧
        complaints 5 found =
          [⟨.invalidEscape 'q', 5, 7⟩, ⟨.malformedUnicodeEscape, 9, 12⟩,
            ⟨.invalidEscape '\\', 15, 16⟩] ∧
        readInto .string "\\qé\\uu1\\7\\" 5 #[⟨.emptyChar, 1, 3⟩] =
          .ok (value, #[⟨.emptyChar, 1, 3⟩, ⟨.invalidEscape 'q', 5, 7⟩,
            ⟨.malformedUnicodeEscape, 9, 12⟩, ⟨.invalidEscape '\\', 15, 16⟩]) ∧
        ¬ ∃ parts : List (List Char), (∀ part ∈ parts, Valid .string part) ∧
          parts.flatten = "\\qé\\uu1\\7\\".toList := by
  have hfit : 5 + "\\qé\\uu1\\7\\".utf8ByteSize ≤ maxOffset := by decide
  obtain ⟨value, found, hfound, -, hread, hnone, -⟩ :=
    readInto_stores .string _ 5 #[⟨.emptyChar, 1, 3⟩] hfit
  have hcomplaints : complaints 5 found =
      [⟨.invalidEscape 'q', 5, 7⟩, ⟨.malformedUnicodeEscape, 9, 12⟩,
        ⟨.invalidEscape '\\', 15, 16⟩] := by
    have hds := diagnostics_complaints 5 0 found (by
      rw [hfound.flatten_eq]
      decide)
    rw [← hfound.pieces_eq] at hds
    exact Except.ok.inj (hds.symm.trans (by decide +kernel))
  rw [hcomplaints] at hread hnone
  exact ⟨hfit, value, found, hfound, hcomplaints, hread, hnone.not.1 (List.cons_ne_nil _ _)⟩

end JavaLex.Escape
