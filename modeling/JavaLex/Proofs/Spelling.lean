import JavaLex.Proofs.Characters
import JavaLex.Proofs.Ternary

/-! How tokens of each kind are written: which words are keywords, what names and blanks consist
of, which texts are operators and punctuation, and which characters nothing else takes. -/

namespace JavaLex

/-- The reserved words, those of the language before the three constants and the underscore. -/
def reservedWords : List String :=
  ["abstract", "assert", "boolean", "break", "byte", "case", "catch", "char", "class", "const",
   "continue", "default", "do", "double", "else", "enum", "extends", "final", "finally", "float",
   "for", "goto", "if", "implements", "import", "instanceof", "int", "interface", "long",
   "native", "new", "package", "private", "protected", "public", "return", "short", "static",
   "strictfp", "super", "switch", "synchronized", "this", "throw", "throws", "transient", "try",
   "void", "volatile", "while", "true", "false", "null", "_"]

def operatorTexts : List String :=
  ["=", ">", "<", "!", "~", "?", "==", "<=", ">=", "!=", "&&", "||", "++", "--", "+", "-", "*",
   "/", "&", "|", "^", "%", "<<", ">>", ">>>", "+=", "-=", "*=", "/=", "&=", "|=", "^=", "%=",
   "<<=", ">>=", ">>>=", "->", ":"]

def punctuationTexts : List String :=
  ["(", ")", "\x7b", "\x7d", "[", "]", ";", ",", ".", "...", "::", "@", ":"]

/-- Characters that start lexemes other than names: digits, blanks, quotes, and what the fixed texts
start with. A comment starts as an operator does, an annotation as punctuation does. -/
def ruleStarts : List Char :=
  "0123456789 \t\x0c\n\r\"'".toList ++
    (operatorTexts ++ punctuationTexts).filterMap fun text => text.toList.head?

def startsRule (c : Char) : Bool := startsName c || ruleStarts.contains c

/-- The texts that tokens of a kind can have. -/
def Kind.Describes (s : Source) (token : Token) : Kind → Prop
  | keyword => token.text ∈ reservedWords ∨ token.text = "@interface"
  | identifier =>
    IsName token.text ∧ token.text ∉ reservedWords ∧
      ∀ next, s.char? token.stop = some next → continuesName next = false
  | whitespace =>
    token.flags = {} ∧ ∃ blanks : List Char, (∀ c ∈ blanks, isBlankChar c = true) ∧
      (token.text.toList = blanks ∨
        token.text.toList = blanks ++ ['\x1a'] ∧ token.stop = s.len)
  | operator => token.text ∈ operatorTexts
  | punctuation => token.text ∈ punctuationTexts
  | unknown =>
    token.flags = { hasError := true } ∧ ∃ c, token.text = String.singleton c ∧
      isStray c = true ∧ (c = '\x1a' → token.stop ≠ s.len)
  | _ => True

/-- A token is written as its kind says. -/
structure Source.Spelled (s : Source) (token : Token) : Prop where
  kind : token.kind.Describes s token
  keyword_iff : token.kind = .keyword ↔ token.wordClass?.isSome = true
  colon : token.text = ":" → token.kind = if token.flags.ternary then .operator else .punctuation
  /-- What starts no rule is unknown, and nothing else is. -/
  unknown_iff : token.kind = .unknown ↔ ∃ c rest, token.text.toList = c :: rest ∧
    startsRule c = false ∧ (c = '\x1a' → token.start + 1 ≠ s.len)

theorem isReserved_iff {word : String} : isReserved word = true ↔ word ∈ reservedWords := by
  constructor
  · intro h
    have hwords : ∀ cls ∈ WordClass.all, ∀ word ∈ cls.words, word ∈ reservedWords := by
      decide +kernel
    obtain ⟨cls, hcls, hmem⟩ := List.find?_isSome.1 h
    exact hwords cls hcls word (List.contains_iff_mem.1 hmem)
  · revert word
    decide +kernel

theorem startsRule_eq (c : Char) : startsRule c = !isStray c := by
  by_cases hc : c.toNat < 128
  · exact forall_ascii (P := fun c => startsRule c = !isStray c) (by decide +kernel) hc
  · have hstarts : (ruleStarts.all fun d => decide (d.toNat < 128)) = true := by decide +kernel
    have hnone : ruleStarts.contains c = false := by
      rw [Bool.eq_false_iff]
      intro hmem
      exact hc (of_decide_eq_true (List.all_eq_true.1 hstarts c (List.contains_iff_mem.1 hmem)))
    rw [startsRule, startsName, isStray, if_neg hc, if_neg hc, hnone, Bool.or_false, Bool.not_not]

namespace Source

variable {s : Source} {p q : Nat} {c : Char} {text : String}

theorem OnlyChars.forall_mem {accepts : Char → Bool} (h : s.OnlyChars accepts p q)
    (htext : s.slice? p q = some text) : ∀ c ∈ text.toList, accepts c = true := by
  obtain ⟨found, hfound, hall⟩ := h
  rw [htext] at hfound
  cases hfound
  exact hall

theorem exists_cons_of_char? (h : s.char? p = some c) (hlt : p < q)
    (htext : s.slice? p q = some text) : ∃ rest, text.toList = c :: rest := by
  obtain ⟨a, b, hs, ha, hq⟩ := slice?_eq_some_iff.1 htext
  have hne : text.toList ≠ [] := by
    intro hnil
    rw [String.toList_eq_nil_iff.1 hnil, String.utf8ByteSize_empty] at hq
    omega
  obtain ⟨first, rest, hcons⟩ := List.exists_cons_of_ne_nil hne
  have hfirst : s.char? p = some first := by
    refine char?_eq_some_iff.2 ⟨a, String.ofList rest ++ b, ?_, ha⟩
    rw [hs]
    congr 1
    apply String.toList_injective
    simp [hcons]
  rw [h] at hfirst
  cases hfirst
  exact ⟨rest, hcons⟩

theorem Blanks.toList (h : s.Blanks p q) (htext : s.slice? p q = some text) :
    ∃ blanks : List Char, (∀ c ∈ blanks, isBlankChar c = true) ∧
      (text.toList = blanks ∨ text.toList = blanks ++ ['\x1a'] ∧ q = s.len) := by
  rcases h with h | ⟨m, ⟨blanks, hslice, hblanks⟩, hsub, rfl, hend⟩
  · exact ⟨text.toList, h.forall_mem htext, .inl rfl⟩
  · refine ⟨blanks.toList, hblanks, .inr ⟨?_, hend⟩⟩
    have hwhole := slice?_trans hslice (slice?_of_char? hsub)
    have hsize : m + ('\x1a').utf8Size = m + 1 := rfl
    rw [hsize, htext] at hwhole
    cases hwhole
    rw [String.toList_append, String.toList_singleton]

end Source

theorem Operator.text_mem (op : Operator) : op.text ∈ operatorTexts := by
  cases op <;> decide

theorem Separator.text_mem (sep : Separator) : sep.text ∈ punctuationTexts := by
  cases sep <;> decide

theorem Tag.kind_operator {text : String} {ternary : Bool} (op : Operator) :
    (operator op).kind text ternary = .operator ∨
      op = .colon ∧ (operator op).kind text ternary = .punctuation := by
  cases op with
  | colon => cases ternary <;> simp [kind]
  | _ => exact .inl rfl

theorem Tag.kind_of_isInvalid {tag : Tag} {text : String} {ternary : Bool}
    (h : tag.isInvalid = true) : tag.kind text ternary = .unknown := by
  cases tag with
  | invalidChar => rfl
  | interiorNull => rfl
  | _ => cases h

theorem QuoteForm.describes {s : Source} {token : Token} (form : QuoteForm) :
    form.kind.Describes s token := by
  cases form <;> trivial

namespace Lexer

variable {lexer : Lexer} {stream mid final : Stream} {token : Token} {tokens : List Token}

/-- What a token and the first lexeme of it have to do with each other, whatever is made of
them. -/
structure Opens (lexer : Lexer) (token : Token) (lexeme : Lexeme) (c : Char) : Prop where
  boundary : lexer.source.IsBoundary token.start
  text : lexer.source.slice? token.start token.stop = some token.text
  char : lexer.source.char? token.start = some c
  spelling : lexer.source.Spelling token.start c lexeme.tag (token.start + lexeme.len)
  lexed : lexer.source.Lexed token.start lexeme.tag (token.start + lexeme.len)

variable {lexeme : Lexeme} {c : Char}

theorem Opens.slice (h : lexer.Opens token lexeme c) :
    lexer.source.slice token.start token.stop = token.text := by
  rw [Source.slice, h.text]
  rfl

theorem Opens.text_of_mem_fixed (h : lexer.Opens token lexeme c)
    (hstop : token.stop = token.start + lexeme.len) (hfixed : lexeme.tag ∈ Tag.fixed) :
    token.text = lexeme.tag.text?.getD "" := by
  rw [← h.slice, hstop]
  exact Source.slice_of_mem_fixed hfixed h.boundary h.lexed

theorem Opens.whitespace {found : List Lexeme} (hfit : lexer.source.len ≤ maxOffset)
    (h : lexer.Opens token lexeme c) (hfound : lexer.source.Scans token.start found token.stop)
    (htags : ∀ lexeme ∈ found, lexeme.tag.isBlank = true) (hflags : token.flags = {}) :
    Kind.whitespace.Describes lexer.source token :=
  ⟨hflags, (hfound.blanks hfit htags h.boundary).toList h.text⟩

theorem Opens.identifier (h : lexer.Opens token lexeme c)
    (hstop : token.stop = token.start + lexeme.len) (htag : lexeme.tag = .word)
    (hreserved : ¬ isReserved token.text = true) :
    Kind.identifier.Describes lexer.source token := by
  have hspelling := h.spelling
  rw [htag, ← hstop] at hspelling
  obtain ⟨hc, ⟨rest, hslice, hall⟩, hnext⟩ := hspelling.of_word
  have hwhole := Source.slice?_trans (Source.slice?_of_char? h.char) hslice
  rw [h.text] at hwhole
  refine ⟨⟨c, rest.toList, ?_, hc, hall⟩, fun hmem => hreserved (isReserved_iff.2 hmem), hnext⟩
  rw [Option.some.inj hwhole, String.toList_append, String.toList_singleton]
  rfl

theorem Opens.unknown (h : lexer.Opens token lexeme c)
    (hstop : token.stop = token.start + lexeme.len) (htag : lexeme.tag.isInvalid = true)
    (hflags : token.flags = { hasError := true }) :
    Kind.unknown.Describes lexer.source token := by
  obtain ⟨hc, hsub, hend⟩ := h.spelling.of_stray htag
  rw [← hstop] at hend
  refine ⟨hflags, c, ?_, hc, ?_⟩
  · have hslice := Source.slice?_of_char? h.char
    rw [← hend, h.text] at hslice
    exact Option.some.inj hslice
  · rintro rfl
    rw [hend]
    exact hsub rfl

theorem describes_of_blanks {n : Nat} (hfit : lexer.source.len ≤ maxOffset)
    (h : lexer.Opens token lexeme c) (hscan : lexer.source.scan token.start = .ok (some lexeme))
    (htag : lexeme.tag = .blank ∨ lexeme.tag = .newline)
    (hn : lexer.source.blanksLen (token.start + lexeme.len) = .ok n)
    (hstop : token.stop = token.start + (lexeme.len + n)) (hflags : token.flags = {}) :
    Kind.whitespace.Describes lexer.source token := by
  have hrest := (Source.scansOnly_of_blanksLen hfit h.lexed.reach.le_len n hn).1
  obtain ⟨found, hfound, htags⟩ := Source.ScansOnly.cons hscan (Tag.isBlank_iff.2 htag) hrest
  rw [Nat.add_assoc, ← hstop] at hfound
  exact h.whitespace hfit hfound htags hflags

theorem describes_of_marked {sign : AtSign} (hat : sign = .punctuation → token.text = "@")
    (hword : sign = .interfaceWord → token.text = "@interface") :
    sign.kind.Describes lexer.source token := by
  cases sign with
  | punctuation =>
      show token.text ∈ punctuationTexts
      rw [hat rfl]
      decide
  | interfaceWord => exact .inr (hword rfl)
  | annotationMark balanced => trivial

theorem describes_of_single {v : Verdict} (hfit : lexer.source.len ≤ maxOffset)
    (h : lexer.Opens token lexeme c) (hscan : lexer.source.scan token.start = .ok (some lexeme))
    (hstop : token.stop = token.start + lexeme.len)
    (hv : lexer.judge stream.state lexeme.tag token.start token.stop token.stop = .ok v)
    (hflags : token.flags = { v.flags with hasError := !v.problems.isEmpty }) :
    v.kind.Describes lexer.source token := by
  have hrow : lexer.source.Scans token.start [lexeme] token.stop := by
    rw [hstop]
    exact .single hscan
  have hkind := judge_kind hv
  rw [h.slice] at hkind
  rw [hkind]
  cases htag : lexeme.tag with
  | word =>
      rw [Tag.kind]
      split
      · exact .inl (isReserved_iff.1 ‹_›)
      · exact h.identifier hstop htag ‹_›
  | quoted form => exact form.describes
  | unterminated form => exact form.describes
  | operator op =>
      have htext := h.text_of_mem_fixed hstop (htag ▸ Tag.operator_mem_fixed op)
      rw [htag] at htext
      rcases Tag.kind_operator op with hoperator | ⟨rfl, hpunctuation⟩
      · rw [hoperator]
        show token.text ∈ operatorTexts
        rw [htext]
        exact op.text_mem
      · rw [hpunctuation]
        show token.text ∈ punctuationTexts
        rw [htext]
        decide
  | separator sep =>
      have htext := h.text_of_mem_fixed hstop (htag ▸ Tag.separator_mem_fixed sep)
      rw [htag] at htext
      show token.text ∈ punctuationTexts
      rw [htext]
      exact sep.text_mem
  | blank =>
      rw [htag] at hv
      cases hv
      exact h.whitespace hfit hrow (List.forall_mem_singleton.2 (by rw [htag]; rfl)) hflags
  | newline =>
      rw [htag] at hv
      cases hv
      exact h.whitespace hfit hrow (List.forall_mem_singleton.2 (by rw [htag]; rfl)) hflags
  | invalidChar =>
      rw [htag] at hv
      cases hv
      exact h.unknown hstop (by rw [htag]; rfl) hflags
  | interiorNull =>
      rw [htag] at hv
      cases hv
      exact h.unknown hstop (by rw [htag]; rfl) hflags
  | endOfText => exact (htag ▸ h.lexed).spells.elim
  | _ => trivial

theorem Judged.unknown {state : Classifier} (h : lexer.Judged stream token state lexeme)
    (htag : lexeme.tag.isInvalid = true) : token.kind = .unknown := by
  cases h with
  | blanks hblank => rcases hblank with hblank | hblank <;> rw [hblank] at htag <;> cases htag
  | marked hat =>
      rw [hat] at htag
      cases htag
  | single _ hv hsettle =>
      obtain ⟨hkind, -, -⟩ := Verdict.settle_eq_ok hsettle
      exact hkind.trans ((judge_kind hv).trans (Tag.kind_of_isInvalid htag))

theorem next_spelled (hfit : lexer.source.len ≤ maxOffset) (hsound : lexer.Sound stream)
    (hnext : lexer.next stream = .ok (some (token, mid))) : lexer.source.Spelled token := by
  obtain ⟨lexeme, hscan, hlexed, hjudged⟩ := next_judged hfit hsound hnext
  have hcovers := (next_eq_some hfit hsound hnext).1
  have hboundary := (Source.isBoundary_of_slice? hcovers.text).1
  obtain ⟨c, hc, hspelling⟩ := Source.spelling_of_scan hfit hboundary hscan
  have hopens : lexer.Opens token lexeme c := ⟨hboundary, hcovers.text, hc, hspelling, hlexed⟩
  have hkind : token.kind.Describes lexer.source token := by
    cases hjudged with
    | blanks htag hn hstop hkind hflags _ =>
        rw [hkind]
        exact describes_of_blanks hfit hopens hscan htag hn hstop hflags
    | marked _ hat hword hsettle =>
        obtain ⟨hkind, -, -⟩ := Verdict.settle_eq_ok hsettle
        simp only at hkind
        rw [hkind, judgeAt_kind]
        exact describes_of_marked hat hword
    | single hstop hv hsettle =>
        obtain ⟨hkind, hflags, -⟩ := Verdict.settle_eq_ok hsettle
        simp only at hkind
        rw [hkind]
        exact describes_of_single hfit hopens hscan hstop hv hflags
  refine ⟨hkind, ?_, ?_, ?_⟩
  · constructor
    · intro hkeyword
      rw [hkeyword] at hkind
      rw [Token.wordClass?, if_pos hkeyword]
      split
      · rfl
      · exact isReserved_iff.2 (hkind.resolve_right ‹_›)
    · intro hclass
      by_contra hne
      rw [Token.wordClass?, if_neg hne] at hclass
      cases hclass
  · intro hcolon
    obtain ⟨hkind, hflags⟩ := (next_acts hfit hsound hnext).of_colon hcolon
    rw [hkind, hflags]
  · constructor
    · intro hunknown
      rw [hunknown] at hkind
      obtain ⟨-, c, htext, hstray, hsub⟩ := hkind
      refine ⟨c, [], by rw [htext, String.toList_singleton], ?_, ?_⟩
      · rw [startsRule_eq, hstray]
        rfl
      · rintro rfl
        obtain ⟨-, -, -, -, hsize⟩ := Source.slice?_eq_some_iff.1 hcovers.text
        rw [htext, String.utf8ByteSize_singleton] at hsize
        rw [← hsize] at hsub
        exact hsub rfl
    · rintro ⟨first, rest, htext, hrule, hsub⟩
      obtain ⟨rest', htext'⟩ := Source.exists_cons_of_char? hc hcovers.nonempty hcovers.text
      rw [htext] at htext'
      cases htext'
      rw [startsRule_eq, Bool.not_eq_false'] at hrule
      exact hjudged.unknown (hspelling.isInvalid_of_isStray hrule hsub)

theorem Pulls.spelled (hfit : lexer.source.len ≤ maxOffset) (hsound : lexer.Sound stream)
    (h : lexer.Pulls stream tokens final) : ∀ token ∈ tokens, lexer.source.Spelled token := by
  induction h with
  | nil stream => exact List.forall_mem_nil _
  | cons hnext _ ih =>
      have hmid := (next_eq_some hfit hsound hnext).2
      exact List.forall_mem_cons.2 ⟨next_spelled hfit hsound hnext, ih hmid⟩

/-- Every token of every text that fits is written as its kind says, and what no rule starts with
is unknown. -/
theorem drain_spells (lexer : Lexer) (hfit : lexer.source.len ≤ maxOffset) :
    ∃ tokens final, lexer.drain {} = .ok (tokens, final) ∧
      ∀ token ∈ tokens, lexer.source.Spelled token := by
  obtain ⟨tokens, final, hdrain, hpulls, -, -⟩ := exists_drain hfit
  exact ⟨tokens, final, hdrain, hpulls.spelled hfit lexer.sound_start⟩

/-- A name outside ASCII, a SUB inside the text and one that ends it, and both colons. -/
theorem drain_spells_substitute :
    Source.len ⟨"é²\x1a#?:_: \x1a"⟩ ≤ maxOffset ∧
      ∃ final, drain ⟨⟨"é²\x1a#?:_: \x1a"⟩, {}⟩ {} = .ok
          ([⟨.identifier, "é²", 0, 4, {}⟩, ⟨.unknown, "\x1a", 4, 5, { hasError := true }⟩,
            ⟨.unknown, "#", 5, 6, { hasError := true }⟩,
            ⟨.operator, "?", 6, 7, { ternary := true }⟩,
            ⟨.operator, ":", 7, 8, { ternary := true }⟩, ⟨.keyword, "_", 8, 9, {}⟩,
            ⟨.punctuation, ":", 9, 10, {}⟩, ⟨.whitespace, " \x1a", 10, 12, {}⟩], final) ∧
        Source.Spelled ⟨"é²\x1a#?:_: \x1a"⟩ ⟨.whitespace, " \x1a", 10, 12, {}⟩ := by
  refine ⟨by decide, ?_⟩
  obtain ⟨tokens, final, hdrain, hspelled⟩ := drain_spells ⟨⟨"é²\x1a#?:_: \x1a"⟩, {}⟩ (by decide)
  have htokens : (drain ⟨⟨"é²\x1a#?:_: \x1a"⟩, {}⟩ {}).map Prod.fst = .ok
      [⟨.identifier, "é²", 0, 4, {}⟩, ⟨.unknown, "\x1a", 4, 5, { hasError := true }⟩,
        ⟨.unknown, "#", 5, 6, { hasError := true }⟩,
        ⟨.operator, "?", 6, 7, { ternary := true }⟩,
        ⟨.operator, ":", 7, 8, { ternary := true }⟩, ⟨.keyword, "_", 8, 9, {}⟩,
        ⟨.punctuation, ":", 9, 10, {}⟩, ⟨.whitespace, " \x1a", 10, 12, {}⟩] := by
    decide +kernel
  rw [hdrain] at htokens
  cases htokens
  exact ⟨final, hdrain, hspelled _ (by decide)⟩

end Lexer

end JavaLex
