/-
Tokens written again. The tokens of a statement with single spaces between them, string literals with their
escapes, are read as the same tokens: what a token is read as does not depend on the text before it, and a space
ends every token.
-/
import WordMachine.Proofs.Cflat.TokenForms
import Mathlib.Data.List.Find

namespace WordMachine.Cflat

/-! ## Spelling -/

/-- What a character is written as in a string literal. -/
def escapeChar (c : Char) : List Char :=
  if c = '\\' then ['\\', '\\']
  else if c = '"' then ['\\', '"']
  else if c = '\n' then ['\\', 'n']
  else [c]

/-- The string literal of a text. -/
def literalText (content : List Char) : List Char := '"' :: content.flatMap escapeChar ++ ['"']

/-- The text of a token, a string literal with its escapes. -/
def Token.spell (t : Token) : String :=
  match t.toList with
  | '"' :: content => String.ofList (literalText content.dropLast)
  | _ => t

/-- The text ends or goes on with a space. -/
def EndsToken (rest : List Char) : Prop := ∀ c ∈ rest.head?, c = ' '

theorem endsToken_iff {rest : List Char} : EndsToken rest ↔ rest = [] ∨ ∃ more, rest = ' ' :: more := by
  cases rest with
  | nil => simp [EndsToken]
  | cons c rest => simp [EndsToken]

/-- The text ends or goes on with a space or a line feed. -/
def EndsWord (rest : List Char) : Prop := ∀ c ∈ rest.head?, c = ' ' ∨ c = '\n'

theorem EndsToken.endsWord {rest : List Char} (h : EndsToken rest) : EndsWord rest := fun c hc => .inl (h c hc)

/-! ## Ends of numbers and operators -/

section

variable {cs rest : List Char}

/-- The text starts with nothing that could continue a fraction. -/
def EndsFraction (rest : List Char) : Prop := ∀ c ∈ rest.head?, ∀ previous, continuesFraction previous c = false

theorem EndsToken.endsFraction (h : EndsToken rest) : EndsFraction rest := by
  intro c hc previous
  rw [h c hc]
  exact continuesFraction_isBlank (by decide)

theorem splitFraction_append_rest (hrest : EndsFraction rest) (previous : Char) (cs : List Char) :
    splitFraction previous (cs ++ rest) = ((splitFraction previous cs).1, (splitFraction previous cs).2 ++ rest) := by
  induction cs generalizing previous with
  | nil =>
    cases rest with
    | nil => rfl
    | cons c rest =>
      have hc := hrest c rfl previous
      simp [splitFraction, hc]
  | cons c cs ih =>
    rw [List.cons_append, splitFraction, splitFraction]
    split
    · rw [ih c]
    · rfl

theorem EndsFraction.startsWithDigit_eq (h : EndsFraction rest) : startsWithDigit rest = false := by
  cases rest with
  | nil => rfl
  | cons c rest =>
    have hc := h c rfl 'e'
    simp only [continuesFraction, Bool.or_eq_false_iff] at hc
    simpa [startsWithDigit] using hc.1.1

theorem EndsFraction.head?_ne (h : EndsFraction rest) : rest.head? ≠ some '+' ∧ rest.head? ≠ some '-' :=
  ⟨fun hc => absurd (h _ hc 'e') (by decide), fun hc => absurd (h _ hc 'e') (by decide)⟩

theorem startsWithExponent_append_rest (hrest : EndsFraction rest) (hcs : cs ≠ []) :
    startsWithExponent (cs ++ rest) = startsWithExponent cs := by
  have hdigit := hrest.startsWithDigit_eq
  obtain ⟨mark, cs, rfl⟩ := List.exists_cons_of_ne_nil hcs
  cases cs with
  | nil => simp [startsWithExponent, hrest.head?_ne, hdigit]; simp [startsWithDigit]
  | cons sign cs =>
    cases cs with
    | nil =>
      by_cases hsign : sign = '+' ∨ sign = '-'
      · simp [startsWithExponent, hsign, hdigit]; simp [startsWithDigit]
      · simp [startsWithExponent, hsign, startsWithDigit]
    | cons digit cs =>
      by_cases hsign : sign = '+' ∨ sign = '-' <;> simp [startsWithExponent, hsign, startsWithDigit]

/-- A point is part of a number by what stands before the end of the fraction. -/
theorem isDecimalPoint_append_rest (hrest : EndsFraction rest) (hcs : cs ≠ []) (word : String) :
    isDecimalPoint word (cs ++ rest) = isDecimalPoint word cs := by
  have hexponent := startsWithExponent_append_rest hrest hcs
  obtain ⟨c, cs, rfl⟩ := List.exists_cons_of_ne_nil hcs
  simp only [isDecimalPoint, hexponent]
  rfl

/-- A number that ends with its point ends where its token does. -/
theorem isDecimalPoint_of_endsToken {word : String} (h : isDecimalPoint word [] = true) (hrest : EndsToken rest) :
    isDecimalPoint word rest = true := by
  rcases endsToken_iff.1 hrest with rfl | ⟨more, rfl⟩
  · exact h
  · simp only [isDecimalPoint, Bool.and_eq_true, Bool.or_eq_true] at h ⊢
    exact ⟨h.1, .inr ⟨(h.2.resolve_left (by simp [startsWithDigit, startsWithExponent])).1, rfl⟩⟩

/-- Does the character stand in an operator, after its first character? -/
def continuesOperator (c : Char) : Bool := Token.operators.any fun op => op.toList.tail.contains c

theorem prefix_append_iff {op : List Char} (hcs : cs ≠ []) (hrest : ∀ c ∈ rest.head?, c ∉ op.tail) :
    op <+: cs ++ rest ↔ op <+: cs := by
  refine ⟨fun h => ?_, fun h => h.trans (List.prefix_append cs rest)⟩
  rcases List.prefix_or_prefix_of_prefix h (List.prefix_append cs rest) with hfront | ⟨more, rfl⟩
  · exact hfront
  · cases more with
    | nil => simp
    | cons c more =>
      obtain ⟨after, hafter⟩ := (List.prefix_append_right_inj cs).1 h
      obtain ⟨d, ds, rfl⟩ := List.exists_cons_of_ne_nil hcs
      exact absurd (by simp) (hrest c (by simp [← hafter]))

/-- The longest operator ends before a character that continues none. -/
theorem operatorAt?_append_of (hcs : cs ≠ []) (hrest : ∀ c ∈ rest.head?, continuesOperator c = false) :
    operatorAt? (cs ++ rest) = operatorAt? cs := by
  refine List.find?_congr fun op hop => ?_
  rw [Bool.eq_iff_iff, List.isPrefixOf_iff_prefix, List.isPrefixOf_iff_prefix]
  refine prefix_append_iff hcs fun c hc hmem => ?_
  have hnone := List.any_eq_false.1 (hrest c hc) op hop
  exact hnone (List.contains_iff_mem.2 hmem)

end

/-! ## Steps -/

namespace Scanner

variable {o : Options} {s s' t : Scanner} {c : Char} {cs rest rest' : List Char}

/-- The statements of a text, the scanner having read what stands before it. -/
def scanRest (o : Options) (s : Scanner) (cs : List Char) : Except Error (List Statement) := s.run o cs >>= finish o

theorem run_cons (o : Options) (s : Scanner) (c : Char) (rest : List Char) :
    s.run o (c :: rest) = s.step o c rest >>= fun p => p.1.run o p.2 := by
  rw [run]
  split
  · rename_i he
    rw [he]
    rfl
  · rename_i he
    rw [he]
    rfl

theorem scanRest_step (h : s.step o c rest = .ok (s', rest')) : s.scanRest o (c :: rest) = s'.scanRest o rest' := by
  unfold scanRest
  rw [run_cons, h]
  rfl

theorem endWord_of_empty (h : s.word = "") : s.endWord o = .ok s := by simp [endWord, h]

/-- A character that starts no comment and no digraph with the next one. -/
theorem step_eq_stepPlain_of (hslash : c = '/' → rest.head? ≠ some '/' ∧ rest.head? ≠ some '*')
    (hstar : c = '*' → rest.head? ≠ some '/') (hdigraph : rest.head?.bind (digraph? c) = none) :
    s.step o c rest = s.stepPlain o c rest := by
  unfold step
  rw [if_neg fun h => (hslash h.1).1 h.2, if_neg fun h => (hslash h.1).2 h.2, if_neg fun h => hstar h.1 h.2, hdigraph,
    ite_self]

/-- A character that starts no comment and no digraph. -/
theorem step_eq_stepPlain (h : c ∉ ['/', '*', '<', ':', '%']) : s.step o c rest = s.stepPlain o c rest := by
  simp only [List.mem_cons, List.not_mem_nil, or_false, not_or] at h
  obtain ⟨hslash, hstar, hless, hcolon, hpercent⟩ := h
  refine step_eq_stepPlain_of (fun hc => absurd hc hslash) (fun hc => absurd hc hstar) ?_
  cases rest.head? <;> simp [digraph?, hless, hcolon, hpercent]

theorem step_space (h : s.endWord o = .ok t) : s.step o ' ' rest = .ok (t, rest) := by
  rw [step_eq_stepPlain (by decide)]
  unfold stepPlain
  rw [if_neg (by decide), if_pos (by decide), h]
  rfl

theorem step_newline (h : s.endWord o = .ok t) : s.step o '\n' rest = .ok ({ t with line := t.line + 1 }, rest) := by
  rw [step_eq_stepPlain (by decide)]
  unfold stepPlain
  rw [if_pos rfl, h]
  rfl

/-- Where a word ends, ending it makes no difference. -/
theorem scanRest_endWord (h : s.endWord o = .ok t) (hrest : EndsWord rest) : s.scanRest o rest = t.scanRest o rest := by
  have hholds := holds_endWord h
  have ht : t.endWord o = .ok t := endWord_of_empty hholds.word
  cases rest with
  | nil =>
    have hparenLine : t.parenLine = s.parenLine := by
      rcases endWord_eq_ok h with ⟨-, rfl⟩ | ⟨-, -, rfl⟩ <;> rfl
    have hend : s.endStatement o false = t.endStatement o false := by
      unfold endStatement
      rw [h, ht]
    simp only [scanRest, run, bind, Except.bind, finish, hholds.parens, hparenLine, hend]
  | cons c rest =>
    rcases hrest c rfl with rfl | rfl
    · rw [scanRest_step (step_space h), scanRest_step (step_space ht)]
    · rw [scanRest_step (step_newline h), scanRest_step (step_newline ht)]

theorem ne_of_isWordChar {x : Char} (h : isWordChar c = true) (hx : isWordChar x = false) : c ≠ x := by
  rintro rfl
  simp [h] at hx

theorem step_of_isWordChar (h : isWordChar c = true) (s : Scanner) (rest : List Char) :
    s.step o c rest = .ok (s.addChar c, rest) := by
  obtain ⟨hblank, hspecial, hop⟩ := isWordChar_iff.1 h
  simp only [List.mem_cons, List.not_mem_nil, or_false, not_or] at hspecial
  obtain ⟨hopen, hclose, hsemicolon, hquote, hcharacter⟩ := hspecial
  have hstart : c ∉ ['/', '*', '<', ':', '%'] := by
    have hall : ['/', '*', '<', ':', '%'].all (!isWordChar ·) = true := by decide
    intro hmem
    simpa [h] using List.all_eq_true.1 hall c hmem
  have hpoint : c ≠ '.' := ne_of_isWordChar h (by decide)
  have hnewline : c ≠ '\n' := ne_of_isWordChar h (by decide)
  rw [step_eq_stepPlain hstart]
  unfold stepPlain
  rw [if_neg hnewline, if_neg (by simp [hblank]), if_neg hopen, if_neg hclose, if_neg hsemicolon, if_neg hquote,
    if_neg hcharacter, if_neg (by simp [hpoint]), hop]
  rfl

theorem scanRest_word (hcs : ∀ c ∈ cs, isWordChar c = true) (s : Scanner) (rest : List Char) :
    s.scanRest o (cs ++ rest) = (cs.foldl addChar s).scanRest o rest := by
  induction cs generalizing s with
  | nil => rfl
  | cons c cs ih =>
    rw [List.cons_append, scanRest_step (step_of_isWordChar (hcs c (by simp)) s (cs ++ rest)),
      ih (fun d hd => hcs d (by simp [hd]))]
    rfl

/-! ## One token -/

/-- The scanner is on the first line, outside of braces and between words, and has read these tokens, which leave
so many parentheses open. -/
structure Holding (s : Scanner) (n : Nat) (ts : List Token) : Prop where
  line : s.line = 1
  depth : s.depth = 0
  parens : s.parens = n
  word : s.word = ""
  current : s.current = ts
  currentLine : s.currentLine = 1
  finished : s.finished = []

variable {n : Nat} {ts : List Token} {token : Token}

theorem Holding.addToken (h : Holding s n ts) (token : Token) : Holding (s.addToken token 1) n (ts ++ [token]) := by
  refine ⟨h.line, h.depth, h.parens, h.word, ?_, ?_, h.finished⟩
  · simp [Scanner.addToken, h.current]
  · simp [Scanner.addToken, h.currentLine]

theorem foldl_addChar_of_ne (h : s.word ≠ "") (cs : List Char) :
    cs.foldl addChar s = { s with word := s.word ++ String.ofList cs } := by
  induction cs generalizing s with
  | nil => simp
  | cons c cs ih =>
    have hpush : s.word.push c ++ String.ofList cs = s.word ++ String.ofList (c :: cs) :=
      String.toList_inj.1 (by simp)
    rw [List.foldl_cons, ih (by simp [Scanner.addChar])]
    simp [Scanner.addChar, h, hpush]

theorem foldl_addChar_of_empty (h : s.word = "") (hne : token ≠ "") :
    token.toList.foldl addChar s = { s with word := token, wordLine := s.line } := by
  obtain ⟨c, cs, hcs⟩ := List.exists_cons_of_ne_nil (String.toList_eq_nil_iff.not.2 hne)
  have htoken : String.singleton c ++ String.ofList cs = token := String.toList_inj.1 (by simp [hcs])
  rw [hcs, List.foldl_cons, foldl_addChar_of_ne (by simp [Scanner.addChar])]
  simp [Scanner.addChar, h, htoken]

/-- The characters of a token that are read as a word make up the token. -/
theorem Holding.endWord (h : Holding s n ts) (htoken : token.Formed o) :
    ∃ s', (token.toList.foldl Scanner.addChar s).endWord o = .ok s' ∧ Holding s' n (ts ++ [token]) := by
  have hkeyword : (!o.lenient && Token.unsupportedKeywords.contains token) = false := by
    rcases htoken.supported with hlenient | hsupported
    · simp [hlenient]
    · simp [hsupported]
  refine ⟨{ s.addToken token 1 with word := "", wordLine := 1 }, ?_, ?_⟩
  · rw [foldl_addChar_of_empty h.word htoken.ne_empty]
    unfold Scanner.endWord
    rw [if_neg (by simpa using htoken.ne_empty), if_neg (by simp only [hkeyword]; decide)]
    simp [Scanner.addToken, h.line]
  · obtain ⟨hline, hdepth, hparens, -, hcurrent, hcurrentLine, hfinished⟩ := h.addToken token
    exact ⟨hline, hdepth, hparens, rfl, hcurrent, hcurrentLine, hfinished⟩

/-- The text is read as the token where `n` parentheses are open, and leaves `m` open. -/
def ReadsToken (o : Options) (text : List Char) (token : Token) (n m : Nat) : Prop :=
  ∀ (s : Scanner) (ts : List Token) (rest : List Char), Holding s n ts → EndsToken rest →
    ∃ s', Holding s' m (ts ++ [token]) ∧ s.scanRest o (text ++ rest) = s'.scanRest o rest

theorem readsToken_word (htoken : token.Formed o) (hchars : ∀ c ∈ token.toList, isWordChar c = true) (n : Nat) :
    ReadsToken o token.toList token n n := by
  intro s ts rest h hrest
  obtain ⟨s', hend, h'⟩ := h.endWord htoken
  exact ⟨s', h', by rw [scanRest_word hchars, scanRest_endWord hend hrest.endsWord]⟩

theorem step_point (hpoint : isDecimalPoint s.word rest = true)
    (h : ((splitFraction '.' rest).1.foldl addChar (s.addChar '.')).endWord o = .ok t) :
    s.step o '.' rest = .ok (t, (splitFraction '.' rest).2) := by
  rw [step_eq_stepPlain (by decide)]
  unfold stepPlain
  rw [if_neg (by decide), if_neg (by decide), if_neg (by decide), if_neg (by decide), if_neg (by decide),
    if_neg (by decide), if_neg (by decide), if_pos ⟨rfl, hpoint⟩]
  dsimp only
  rw [h]
  rfl

theorem readsToken_number {whole fraction : List Char} (htext : token.toList = whole ++ '.' :: fraction)
    (hpoint : isDecimalPoint (String.ofList whole) fraction = true)
    (hfraction : splitFraction '.' fraction = (fraction, [])) (n : Nat) : ReadsToken o token.toList token n n := by
  intro s ts rest h hrest
  have hdigits : ∀ c ∈ whole, isWordChar c = true := fun c hc =>
    isWordChar_of_isDigit (isDigit_of_isDecimalPoint hpoint c (by simpa using hc))
  have hword : (whole.foldl Scanner.addChar s).word = String.ofList whole :=
    String.toList_inj.1 (by simp [(foldl_addChar_word whole s).1, h.word])
  have hsplit : splitFraction '.' (fraction ++ rest) = (fraction, rest) := by
    rw [splitFraction_append_rest hrest.endsFraction, hfraction]
    rfl
  obtain ⟨s', hend, h'⟩ := h.endWord (.number (o := o) htext hpoint hfraction)
  rw [htext, List.foldl_append, List.foldl_cons] at hend
  refine ⟨s', h', ?_⟩
  rw [htext, List.append_assoc, scanRest_word hdigits, List.cons_append, scanRest_step (step_point ?_ ?_), hsplit]
  · rw [hword]
    cases fraction with
    | nil => exact isDecimalPoint_of_endsToken hpoint hrest
    | cons c fraction => rwa [isDecimalPoint_append_rest hrest.endsFraction (List.cons_ne_nil c fraction)]
  · rw [hsplit]
    exact hend

/-- A string literal is read as the text it was made of. -/
theorem readString_escape {content : List Char} (h : ((content.foldl addChar s).addChar '"').endWord o = .ok t) :
    s.readString o (content.flatMap escapeChar ++ '"' :: rest) = .ok (t, rest) := by
  induction content generalizing s with
  | nil =>
    rw [List.flatMap_nil, List.nil_append, readString_quote, show (s.addChar '"').endWord o = .ok t from h]
    rfl
  | cons c content ih =>
    have hrest := ih h
    rw [List.flatMap_cons, List.append_assoc, escapeChar]
    split
    · rename_i hc
      rw [hc] at hrest
      exact hrest
    split
    · rename_i hc
      rw [hc] at hrest
      exact hrest
    split
    · rename_i hc
      rw [hc] at hrest
      exact hrest
    · rename_i hbackslash hquote hnewline
      rw [List.singleton_append, readString_char (by simp [hbackslash, hquote, hnewline])]
      exact hrest

theorem readsToken_string {content : List Char} (htext : token.toList = '"' :: content ++ ['"']) (n : Nat) :
    ReadsToken o (literalText content) token n n := by
  intro s ts rest h hrest
  obtain ⟨s', hend, h'⟩ := h.endWord (.string (o := o) ⟨content, htext⟩)
  rw [htext, List.cons_append, List.foldl_cons, List.foldl_append] at hend
  refine ⟨s', h', ?_⟩
  have hstep : s.step o '"' (content.flatMap escapeChar ++ '"' :: rest) = .ok (s', rest) := by
    rw [step_eq_stepPlain (by decide)]
    unfold stepPlain
    rw [if_neg (by decide), if_neg (by decide), if_neg (by decide), if_neg (by decide), if_neg (by decide),
      if_pos rfl, endWord_of_empty h.word]
    exact readString_escape hend
  rw [literalText, List.append_assoc, List.cons_append, List.singleton_append, scanRest_step hstep]

/-! ## Operators -/

/-- Does the operator, with this character after it, start no comment, digraph or number? -/
def standsAlone (op : Token) (next : Option Char) : Bool :=
  match op.toList with
  | [] => false
  | c :: cs =>
    let following := cs.head?.or next
    !(c == '/' && following == some '/') && !(c == '/' && following == some '*') &&
      !(c == '*' && following == some '/') && (following.bind (digraph? c)).isNone && !Text.isBlank c &&
      !(['\x7b', '\x7d', ';', '"', '\x27'].contains c) && (c != '.' || [none, some ' ', some '.'].contains following)

theorem standsAlone_of_mem {op : Token} (hop : op ∈ Token.operators) (hrest : EndsToken rest) :
    standsAlone op rest.head? = true := by
  have hend : ∀ op ∈ Token.operators, standsAlone op none = true := by decide
  have hspace : ∀ op ∈ Token.operators, standsAlone op (some ' ') = true := by decide
  rcases endsToken_iff.1 hrest with rfl | ⟨more, rfl⟩
  · exact hend op hop
  · exact hspace op hop

/-- An operator that a space follows is the longest operator there. -/
theorem operatorAt?_append {op : Token} (hop : op ∈ Token.operators) (hrest : EndsToken rest) :
    operatorAt? (op.toList ++ rest) = some op := by
  have hself : ∀ op ∈ Token.operators, operatorAt? op.toList = some op := by decide
  rw [operatorAt?_append_of (Lexeme.ne_nil_of_mem_operators hop), hself op hop]
  intro c hc
  rw [hrest c hc]
  decide

theorem isDecimalPoint_empty (h : rest.head? ∈ [none, some ' ', some '.']) : isDecimalPoint "" rest = false := by
  cases rest with
  | nil => rfl
  | cons c rest =>
    simp at h
    rcases h with rfl | rfl <;> simp [isDecimalPoint, startsWithDigit, startsWithExponent]

/-- A character that starts an operator is neither a blank nor a brace, a semicolon or a quote. -/
theorem stepPlain_eq_operator {op : Token} (hpoint : ¬(c = '.' ∧ isDecimalPoint s.word rest = true))
    (hop : operatorAt? (c :: rest) = some op) :
    s.stepPlain o c rest = (s.operator o op >>= fun t => .ok (t, rest.drop (op.length - 1))) := by
  have hall : ∀ op ∈ Token.operators,
      (op.toList.head?.all fun c =>
        !Text.isBlank c && !(['\n', '\x7b', '\x7d', ';', '"', '\x27'].contains c)) = true := by
    decide
  obtain ⟨text, htext, -⟩ := Lexeme.exists_text_operator hop
  have hc := hall op (operatorAt?_eq_some hop).1
  simp only [htext, List.head?_cons, Option.all_some, Bool.and_eq_true, Bool.not_eq_true', List.contains_eq_mem,
    decide_eq_false_iff_not, List.mem_cons, List.not_mem_nil, or_false, not_or] at hc
  obtain ⟨hblank, hnewline, hopen, hclose, hsemicolon, hquote, hcharacter⟩ := hc
  unfold stepPlain
  rw [if_neg hnewline, if_neg (by simp [hblank]), if_neg hopen, if_neg hclose, if_neg hsemicolon, if_neg hquote,
    if_neg hcharacter, if_neg hpoint, hop]
  rfl

theorem step_operator {op : Token} (hop : op ∈ Token.operators) (htext : op.toList = c :: cs) (hword : s.word = "")
    (hrest : EndsToken rest) (h : s.operator o op = .ok t) : s.step o c (cs ++ rest) = .ok (t, rest) := by
  have halone := standsAlone_of_mem hop hrest
  simp only [standsAlone, htext, ← List.head?_append, Bool.and_eq_true, Bool.not_eq_true', Bool.and_eq_false_iff,
    beq_eq_false_iff_ne, Option.isNone_iff_eq_none, Bool.or_eq_true, bne_iff_ne, List.contains_eq_mem,
    decide_eq_true_eq] at halone
  obtain ⟨⟨⟨⟨⟨⟨hline, hblock⟩, hend⟩, hdigraph⟩, -⟩, -⟩, hpoint⟩ := halone
  have hdecimal : ¬(c = '.' ∧ isDecimalPoint s.word (cs ++ rest) = true) := by
    rintro ⟨hc, hdecimal⟩
    rw [hword, isDecimalPoint_empty (hpoint.resolve_left (by simp [hc]))] at hdecimal
    cases hdecimal
  have hop : operatorAt? (c :: (cs ++ rest)) = some op := by
    rw [← List.cons_append, ← htext, operatorAt?_append hop hrest]
  have hlength : op.length - 1 = cs.length := by
    rw [← String.length_toList, htext]
    rfl
  rw [step_eq_stepPlain_of (fun hc => ⟨hline.resolve_left (not_not_intro hc), hblock.resolve_left (not_not_intro hc)⟩)
      (fun hc => hend.resolve_left (not_not_intro hc)) hdigraph,
    stepPlain_eq_operator hdecimal hop, h, hlength, List.drop_left]
  rfl

theorem readsToken_of_operator {op : Token} {n m : Nat} (hop : op ∈ Token.operators)
    (hread : ∀ (s : Scanner) (ts : List Token), Holding s n ts →
      ∃ s', s.operator o op = .ok s' ∧ Holding s' m (ts ++ [op])) : ReadsToken o op.toList op n m := by
  intro s ts rest h hrest
  obtain ⟨c, cs, htext⟩ := List.exists_cons_of_ne_nil (Lexeme.ne_nil_of_mem_operators hop)
  obtain ⟨s', hoperator, h'⟩ := hread s ts h
  refine ⟨s', h', ?_⟩
  rw [htext, List.cons_append, scanRest_step (step_operator hop htext h.word hrest hoperator)]

theorem readsToken_operator {op : Token} (hop : op ∈ Token.operators) (hplain : op ∉ ["++", "--", "(", ")"])
    (n : Nat) : ReadsToken o op.toList op n n := by
  refine readsToken_of_operator hop fun s ts h => ⟨s.addToken op 1, ?_, h.addToken op⟩
  simp only [List.mem_cons, List.not_mem_nil, or_false, not_or] at hplain
  obtain ⟨hplus, hminus, hopen, hclose⟩ := hplain
  simp [Scanner.operator, hplus, hminus, hopen, hclose, endWord_of_empty h.word, h.line, bind, Except.bind, pure,
    Except.pure]

theorem readsToken_open (n : Nat) : ReadsToken o "(".toList "(" n (n + 1) := by
  refine readsToken_of_operator (by decide) fun s ts h => ?_
  obtain ⟨hline, hdepth, hparens, hword, hcurrent, hcurrentLine, hfinished⟩ := h.addToken "("
  refine ⟨{ s.addToken "(" 1 with
    parens := s.parens + 1, parenLine := if s.parens = 0 then 1 else s.parenLine }, ?_,
    hline, hdepth, congrArg (· + 1) h.parens, hword, hcurrent, hcurrentLine, hfinished⟩
  simp [Scanner.operator, endWord_of_empty h.word, h.line, Scanner.addToken, bind, Except.bind, pure, Except.pure]

theorem readsToken_close (n : Nat) : ReadsToken o ")".toList ")" (n + 1) n := by
  refine readsToken_of_operator (by decide) fun s ts h => ?_
  obtain ⟨hline, hdepth, hparens, hword, hcurrent, hcurrentLine, hfinished⟩ := h.addToken ")"
  refine ⟨{ s.addToken ")" 1 with parens := s.parens - 1 }, ?_,
    hline, hdepth, congrArg (· - 1) h.parens, hword, hcurrent, hcurrentLine, hfinished⟩
  simp [Scanner.operator, endWord_of_empty h.word, h.line, h.parens, Scanner.addToken, bind, Except.bind, pure,
    Except.pure]

theorem readsToken_semicolon (n : Nat) : ReadsToken o ";".toList ";" (n + 1) (n + 1) := by
  intro s ts rest h hrest
  have hstep : s.step o ';' rest = .ok (s.addToken ";" 1, rest) := by
    rw [step_eq_stepPlain (by decide)]
    unfold stepPlain
    rw [if_neg (by decide), if_neg (by decide), if_neg (by decide), if_neg (by decide), if_pos rfl]
    simp [Scanner.semicolon, h.parens, endWord_of_empty h.word, h.line, bind, Except.bind, pure, Except.pure]
  refine ⟨s.addToken ";" 1, h.addToken ";", ?_⟩
  rw [show ";".toList ++ rest = ';' :: rest from rfl, scanRest_step hstep]

/-! ## Statements -/

theorem spell_of_head? (h : token.toList.head? ≠ some '"') : token.spell = token := by
  unfold Token.spell
  split
  · rename_i htext
    simp [htext] at h
  · rfl

theorem readsToken_spell (htoken : token.Formed o) (n : Nat) : ReadsToken o token.spell.toList token n n := by
  cases htoken with
  | word hne hchars hsupported =>
    rw [spell_of_head?]
    · exact readsToken_word (.word hne hchars hsupported) hchars n
    · intro hquote
      have hchar := hchars '"' (List.mem_of_mem_head? hquote)
      cases hchar
  | @number whole fraction htext hpoint hfraction =>
    rw [spell_of_head?]
    · exact readsToken_number htext hpoint hfraction n
    · rw [htext]
      cases whole with
      | nil => simp
      | cons c whole =>
        have hdigit := isDigit_of_isDecimalPoint hpoint c (by simp)
        rintro ⟨⟩
        cases hdigit
  | string hstring =>
    obtain ⟨content, htext⟩ := hstring
    have hspell : token.spell = String.ofList (literalText content) := by
      unfold Token.spell
      rw [htext]
      simp
    rw [hspell, String.toList_ofList]
    exact readsToken_string htext n
  | operator hop hplain =>
    have hall : ∀ op ∈ Token.operators, op.toList.head? ≠ some '"' := by decide
    rw [spell_of_head? (hall token hop)]
    exact readsToken_operator hop hplain n

/-- The tokens so far have been read, whatever the text goes on with after a space. -/
def ReadsTokens (o : Options) (n : Nat) (ts : List Token) : Prop :=
  ∀ rest, EndsToken rest → ∃ s, Holding s n ts ∧
    scanRest o {} ((" ".intercalate (ts.map Token.spell)).toList ++ rest) = s.scanRest o rest

theorem ReadsTokens.concat {m : Nat} (h : ReadsTokens o n ts) (henclosed : Enclosed o n ts)
    (htoken : ReadsToken o token.spell.toList token n m) : ReadsTokens o m (ts ++ [token]) := by
  intro rest hrest
  by_cases hts : ts = []
  · subst hts
    have hn : n = 0 := by simpa using henclosed.count_eq.symm
    subst hn
    obtain ⟨s, hs, hscan⟩ := htoken {} [] rest ⟨rfl, rfl, rfl, rfl, rfl, rfl, rfl⟩ hrest
    exact ⟨s, hs, by simpa [String.intercalate_singleton] using hscan⟩
  · obtain ⟨s, hs, hscan⟩ := h (' ' :: (token.spell.toList ++ rest)) (by simp [EndsToken])
    obtain ⟨s', hs', hscan'⟩ := htoken s ts rest hs hrest
    refine ⟨s', hs', ?_⟩
    rw [List.map_append, List.map_singleton, String.intercalate_append_of_ne_nil (by simpa using hts) (by simp)]
    simp only [String.toList_append, String.intercalate_singleton, List.append_assoc]
    rw [show " ".toList ++ (token.spell.toList ++ rest) = ' ' :: (token.spell.toList ++ rest) from rfl, hscan,
      scanRest_step (step_space (endWord_of_empty hs.word)), hscan']

theorem readsTokens_of_enclosed (h : Enclosed o n ts) : ReadsTokens o n ts := by
  induction h with
  | nil => exact fun rest _ => ⟨{}, ⟨rfl, rfl, rfl, rfl, rfl, rfl, rfl⟩, rfl⟩
  | token h ht ih => exact ih.concat h (readsToken_spell ht _)
  | opening h ih => exact ih.concat h (readsToken_open _)
  | closing h ih => exact ih.concat h (readsToken_close _)
  | semicolon h ih => exact ih.concat h (readsToken_semicolon _)

theorem Holding.finish (h : Holding s 0 ts) (hne : ts ≠ []) : s.finish o = .ok [⟨1, 0, ts, false⟩] := by
  simp [Scanner.finish, Scanner.endStatement, endWord_of_empty h.word, h.parens, h.depth, h.current, h.currentLine,
    h.finished, hne, bind, Except.bind, pure, Except.pure]

end Scanner

/-- Enclosed tokens, written with spaces between them, are read as one statement. -/
theorem scan_spelled {o : Options} {ts : List Token} (h : Enclosed o 0 ts) (hne : ts ≠ []) :
    Statement.scan o (" ".intercalate (ts.map Token.spell)) = .ok [⟨1, 0, ts, false⟩] := by
  obtain ⟨s, hs, hscan⟩ := Scanner.readsTokens_of_enclosed h [] (by simp [EndsToken])
  rw [List.append_nil] at hscan
  show Scanner.scanRest o {} _ = _
  rw [hscan]
  simp only [Scanner.scanRest, Scanner.run]
  exact hs.finish hne

/-- Every statement of a text is read again from its tokens with single spaces between them, outside of all
braces; and the literal of any text is read as this text between quotes. -/
theorem scan_respelled (o : Options) :
    (∀ source statements, Statement.scan o source = .ok statements → ∀ st ∈ statements,
      Statement.scan o (" ".intercalate (st.tokens.map Token.spell)) = .ok [⟨1, 0, st.tokens, false⟩]) ∧
    ∀ text : String, Statement.scan o (String.ofList (literalText text.toList)) =
      .ok [⟨1, 0, ["\"" ++ text ++ "\""], false⟩] := by
  constructor
  · intro source statements h st hst
    obtain ⟨hne, henclosed⟩ := enclosed_of_scan h st hst
    exact scan_spelled henclosed hne
  · intro text
    have htext : ("\"" ++ text ++ "\"").toList = '"' :: text.toList ++ ['"'] := by simp
    have hspell : Token.spell ("\"" ++ text ++ "\"") = String.ofList (literalText text.toList) := by
      unfold Token.spell
      rw [htext]
      simp
    have hscan := scan_spelled (Enclosed.nil.token (.string (o := o) ⟨text.toList, htext⟩)) (by simp)
    simpa [hspell, String.intercalate_singleton] using hscan

/-- A digraph, a number with a point, a character literal and a string literal with escapes. -/
theorem scan_respelled_literals :
    let source := "a<:0:>=1.e-5f+'x'*f(\"b\\n\\\"\");"
    let tokens : List Token := ["a[0]", "=", "1.e-5f", "+", "120", "*", "f", "(", "\"b\n\"\"", ")"]
    let spelled := "a[0] = 1.e-5f + 120 * f ( \"b\\n\\\"\" )"
    Statement.scan { digraphs := true } source = .ok [⟨1, 0, tokens, false⟩] ∧
      " ".intercalate (tokens.map Token.spell) = spelled ∧
      Statement.scan { digraphs := true } spelled = .ok [⟨1, 0, tokens, false⟩] := by
  intro source tokens spelled
  have hscan : Statement.scan { digraphs := true } source = .ok [⟨1, 0, tokens, false⟩] := by decide +kernel
  have hspelled : " ".intercalate (tokens.map Token.spell) = spelled := by decide +kernel
  refine ⟨hscan, hspelled, ?_⟩
  rw [← hspelled]
  exact (scan_respelled { digraphs := true }).1 source _ hscan ⟨1, 0, tokens, false⟩ (by simp)

end WordMachine.Cflat
