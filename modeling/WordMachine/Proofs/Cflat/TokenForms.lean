/-
What the tokens of a statement look like. A token is a word, a number with a point, a string literal or an
operator, and the parentheses around the tokens match: a statement ends only where none is open, and a
semicolon is a token only where one is.

The scanner keeps the word that it reads free of blanks, braces, quotes and operators, and the tokens that it
has read in this form (`Forming`).
-/
import WordMachine.Proofs.Cflat.Positions
import WordMachine.Proofs.Text.Numeral

namespace WordMachine.Cflat

/-! ## Words -/

/-- May the character stand in a word? -/
def isWordChar (c : Char) : Bool :=
  !Text.isBlank c && !(['\x7b', '\x7d', ';', '"', '\x27'].contains c) && (operatorAt? [c]).isNone

/-- Every character that an operator starts with is an operator by itself. -/
theorem operatorAt?_eq_none_iff (c : Char) (rest : List Char) :
    operatorAt? (c :: rest) = none ↔ operatorAt? [c] = none := by
  have hfirst : ∀ op ∈ Token.operators, operatorAt? (op.toList.take 1) ≠ none := by decide
  simp only [operatorAt?, List.find?_eq_none, List.isPrefixOf_iff_prefix]
  constructor
  · intro h op hop hfront
    exact h op hop (hfront.trans (List.prefix_append [c] rest))
  · intro h op hop hfront
    obtain ⟨d, text, htext⟩ := List.exists_cons_of_ne_nil (Lexeme.ne_nil_of_mem_operators hop)
    rw [htext, List.cons_prefix_cons] at hfront
    refine hfirst op hop ?_
    rw [htext, hfront.1]
    simpa [operatorAt?, List.find?_eq_none] using h

theorem isWordChar_iff {c : Char} : isWordChar c = true ↔
    Text.isBlank c = false ∧ c ∉ ['\x7b', '\x7d', ';', '"', '\x27'] ∧ ∀ rest, operatorAt? (c :: rest) = none := by
  simp only [isWordChar, Bool.and_eq_true, Bool.not_eq_true', Option.isNone_iff_eq_none, and_assoc,
    operatorAt?_eq_none_iff, forall_const, List.contains_eq_mem, decide_eq_false_iff_not]

theorem isWordChar_of_isDigit {c : Char} (h : c.isDigit = true) : isWordChar c = true := by
  have hrange := Bool.and_eq_true_iff.1 h
  have hlow : 48 ≤ c.toNat := UInt32.le_iff_toNat_le.1 (of_decide_eq_true hrange.1)
  have hhigh : c.toNat ≤ 57 := UInt32.le_iff_toNat_le.1 (of_decide_eq_true hrange.2)
  have hall : ∀ n < 10, isWordChar (Char.ofNat (48 + n)) = true := by decide
  have hchar := hall (c.toNat - 48) (by omega)
  rwa [show 48 + (c.toNat - 48) = c.toNat by omega, Char.ofNat_toNat] at hchar

/-! ## Tokens -/

/-- Is the token a string literal? -/
def Token.IsString (t : Token) : Prop := ∃ content, t.toList = '"' :: content ++ ['"']

/-- A token that is neither a parenthesis nor a semicolon. -/
inductive Token.Formed (o : Options) : Token → Prop where
  | word {t : Token} (hne : t ≠ "") (hchars : ∀ c ∈ t.toList, isWordChar c = true)
    (hsupported : o.lenient = true ∨ t ∉ Token.unsupportedKeywords) : Formed o t
  | number {t : Token} {whole fraction : List Char} (htext : t.toList = whole ++ '.' :: fraction)
    (hpoint : isDecimalPoint (String.ofList whole) fraction = true)
    (hfraction : splitFraction '.' fraction = (fraction, [])) : Formed o t
  | string {t : Token} (hstring : t.IsString) : Formed o t
  | operator {t : Token} (hop : t ∈ Token.operators) (hplain : t ∉ ["++", "--", "(", ")"]) : Formed o t

/-- The tokens of a statement that is being read, where so many parentheses are open after them. -/
inductive Enclosed (o : Options) : Nat → List Token → Prop where
  | nil : Enclosed o 0 []
  | token {n : Nat} {ts : List Token} {t : Token} (h : Enclosed o n ts) (ht : t.Formed o) : Enclosed o n (ts ++ [t])
  | opening {n : Nat} {ts : List Token} (h : Enclosed o n ts) : Enclosed o (n + 1) (ts ++ ["("])
  | closing {n : Nat} {ts : List Token} (h : Enclosed o (n + 1) ts) : Enclosed o n (ts ++ [")"])
  | semicolon {n : Nat} {ts : List Token} (h : Enclosed o (n + 1) ts) : Enclosed o (n + 1) (ts ++ [";"])

namespace Token.Formed

variable {o : Options} {t : Token}

theorem ne_empty (h : t.Formed o) : t ≠ "" := by
  rintro rfl
  cases h with
  | word hne => exact hne rfl
  | number htext => simp at htext
  | string hstring =>
    obtain ⟨content, htext⟩ := hstring
    simp at htext
  | operator hop => exact absurd hop (by decide)

/-- Brackets, semicolons and the operators that are refused are no formed tokens. -/
theorem not_mem (h : t.Formed o) : t ∉ ["(", ")", ";", "\x7b", "\x7d", "++", "--"] := by
  intro hmem
  cases h with
  | word _ hchars =>
    have hall : ∀ t ∈ ["(", ")", ";", "\x7b", "\x7d", "++", "--"], t.toList.all isWordChar = false := by decide
    have hnone := hall t hmem
    rw [List.all_eq_true.2 hchars] at hnone
    cases hnone
  | number htext =>
    have hall : ∀ t ∈ ["(", ")", ";", "\x7b", "\x7d", "++", "--"], '.' ∉ t.toList := by decide
    exact hall t hmem (by simp [htext])
  | string hstring =>
    obtain ⟨content, htext⟩ := hstring
    have hall : ∀ t ∈ ["(", ")", ";", "\x7b", "\x7d", "++", "--"], '"' ∉ t.toList := by decide
    exact hall t hmem (by simp [htext])
  | operator hop hplain =>
    have hall : ∀ t ∈ ["(", ")", ";", "\x7b", "\x7d", "++", "--"],
        t ∈ Token.operators → t ∈ ["++", "--", "(", ")"] := by decide
    exact hplain (hall t hmem hop)

theorem supported (h : t.Formed o) : o.lenient = true ∨ t ∉ Token.unsupportedKeywords := by
  cases h with
  | word _ _ hsupported => exact hsupported
  | number htext =>
    have hall : ∀ t ∈ Token.unsupportedKeywords, '.' ∉ t.toList := by decide
    exact .inr fun hmem => hall t hmem (by simp [htext])
  | string hstring =>
    obtain ⟨content, htext⟩ := hstring
    have hall : ∀ t ∈ Token.unsupportedKeywords, '"' ∉ t.toList := by decide
    exact .inr fun hmem => hall t hmem (by simp [htext])
  | operator hop =>
    have hall : ∀ t ∈ Token.unsupportedKeywords, t ∉ Token.operators := by decide
    exact .inr fun hmem => hall t hmem hop

end Token.Formed

/-! ## Numbers -/

theorem continuesFraction_isBlank {previous c : Char} (h : Text.isBlank c = true) :
    continuesFraction previous c = false := by
  by_contra hc
  rw [Bool.not_eq_false] at hc
  simp only [continuesFraction, Bool.or_eq_true, Bool.and_eq_true, List.contains_eq_mem, decide_eq_true_eq,
    beq_iff_eq] at hc
  have hmarks : ['e', 'E', 'f', 'F', '+', '-'].all (!Text.isBlank ·) = true := by decide
  have hall (hmem : c ∈ ['e', 'E', 'f', 'F', '+', '-']) : Text.isBlank c = false := by
    simpa using List.all_eq_true.1 hmarks c hmem
  rcases hc with (hdigit | hmark) | ⟨hsign, -⟩
  · simp [(isWordChar_iff.1 (isWordChar_of_isDigit hdigit)).1] at h
  · simp [hall (by simp at hmark ⊢; tauto)] at h
  · simp [hall (by simp; tauto)] at h

/-- A fraction is read whole. -/
theorem splitFraction_fraction (previous : Char) (cs : List Char) :
    splitFraction previous (splitFraction previous cs).1 = ((splitFraction previous cs).1, []) := by
  induction cs generalizing previous with
  | nil => rfl
  | cons c cs ih =>
    rw [splitFraction]
    split
    · rename_i hc
      simp [splitFraction, hc, ih c]
    · rfl

theorem isBlank_splitFraction (previous : Char) (cs : List Char) :
    ∀ c ∈ (splitFraction previous cs).1, Text.isBlank c = false := by
  induction cs generalizing previous with
  | nil => simp [splitFraction]
  | cons d cs ih =>
    rw [splitFraction]
    split
    · rename_i hd
      intro c hc
      rcases List.mem_cons.1 hc with rfl | hc
      · by_contra hblank
        rw [Bool.not_eq_false] at hblank
        simp [continuesFraction_isBlank hblank] at hd
      · exact ih d c hc
    · simp

theorem startsWithDigit_fraction {rest : List Char} (previous : Char) (h : startsWithDigit rest = true) :
    startsWithDigit (splitFraction previous rest).1 = true := by
  cases rest with
  | nil => exact h
  | cons d rest =>
    have hd : d.isDigit = true := by simpa [startsWithDigit] using h
    simp [splitFraction, continuesFraction, hd, startsWithDigit]

theorem startsWithExponent_fraction {rest : List Char} (h : startsWithExponent rest = true) :
    startsWithExponent (splitFraction '.' rest).1 = true := by
  cases rest with
  | nil => cases h
  | cons mark rest =>
    simp only [startsWithExponent, Bool.and_eq_true, Bool.or_eq_true, beq_iff_eq] at h
    obtain ⟨hmark, hdigit⟩ := h
    have hcontinues : continuesFraction '.' mark = true := by rcases hmark with rfl | rfl <;> rfl
    simp only [splitFraction, hcontinues, if_true, startsWithExponent, Bool.and_eq_true, Bool.or_eq_true, beq_iff_eq]
    refine ⟨hmark, ?_⟩
    cases rest with
    | nil => simp [startsWithDigit] at hdigit
    | cons sign rest =>
      by_cases hsign : sign = '+' ∨ sign = '-'
      · have hnext : continuesFraction mark sign = true := by
          rcases hmark with rfl | rfl <;> rcases hsign with rfl | rfl <;> rfl
        have hdigit : startsWithDigit rest = true := by simpa [hsign] using hdigit
        simpa [splitFraction, hnext, hsign] using startsWithDigit_fraction sign hdigit
      · have hdigit : startsWithDigit (sign :: rest) = true := by simpa [hsign] using hdigit
        have hd : sign.isDigit = true := by simpa [startsWithDigit] using hdigit
        simp [splitFraction, continuesFraction, hd, hsign, startsWithDigit]

theorem endsNumber_fraction {rest : List Char} (h : endsNumber rest = true) :
    endsNumber (splitFraction '.' rest).1 = true := by
  cases rest with
  | nil => rfl
  | cons c rest =>
    rw [splitFraction]
    split
    · exact h
    · rfl

/-- A point is part of a number by the fraction after it alone. -/
theorem isDecimalPoint_fraction {word : String} {rest : List Char} (h : isDecimalPoint word rest = true) :
    isDecimalPoint word (splitFraction '.' rest).1 = true := by
  simp only [isDecimalPoint, Bool.and_eq_true, Bool.or_eq_true] at h ⊢
  refine ⟨h.1, ?_⟩
  rcases h.2 with (hdigit | hexponent) | ⟨hword, hends⟩
  · exact .inl (.inl (startsWithDigit_fraction '.' hdigit))
  · exact .inl (.inr (startsWithExponent_fraction hexponent))
  · exact .inr ⟨hword, endsNumber_fraction hends⟩

theorem isDigit_of_isDecimalPoint {word : String} {rest : List Char} (h : isDecimalPoint word rest = true) :
    ∀ c ∈ word.toList, c.isDigit = true := by
  simp only [isDecimalPoint, Bool.and_eq_true, List.all_eq_true] at h
  exact h.1

/-! ## Lexemes of words and numbers -/

/-- A letter can stand in a word, and a fraction makes a number of the digits before it. -/
def Lexeme.Suits (word : String) (l : Lexeme) : Prop :=
  match l.kind with
  | .letter c => isWordChar c = true
  | .fraction => ∃ fraction, l.text = '.' :: fraction ∧ isDecimalPoint word fraction = true ∧
    splitFraction '.' fraction = (fraction, [])
  | _ => True

namespace Lexeme

theorem suits_plain (word : String) (c : Char) (rest : List Char) : (plain word c rest).Suits word := by
  unfold plain
  split
  · trivial
  rename_i hblank
  split
  · trivial
  rename_i hopen
  split
  · trivial
  rename_i hclose
  split
  · trivial
  rename_i hsemicolon
  split
  · trivial
  rename_i hquote
  split
  · trivial
  rename_i hcharacter
  split
  · rename_i hpoint
    rw [hpoint.1]
    exact ⟨_, rfl, isDecimalPoint_fraction hpoint.2, splitFraction_fraction '.' rest⟩
  cases hop : operatorAt? (c :: rest) with
  | some op => trivial
  | none =>
    refine isWordChar_iff.2 ⟨Bool.eq_false_iff.2 hblank, ?_, ?_⟩
    · simp [hopen, hclose, hsemicolon, hquote, hcharacter]
    · intro rest'
      rw [operatorAt?_eq_none_iff] at hop ⊢
      exact hop

theorem suits_ofDigraph {c next image : Char} (h : digraph? c next = some image) (word : String) (text : List Char) :
    (ofDigraph image text).Suits word := by
  unfold ofDigraph
  split
  · trivial
  split
  · trivial
  rename_i hopen hclose
  have himage : image ∈ ['[', ']', '#'] := by
    unfold digraph? at h
    repeat' split at h
    all_goals cases h
    all_goals first | contradiction | decide
  have hall : ['[', ']', '#'].all isWordChar = true := by decide
  exact List.all_eq_true.1 hall image himage

theorem suits_first (o : Options) (word : String) (c : Char) (rest : List Char) :
    (first o word c rest).Suits word := by
  unfold first
  split
  · trivial
  split
  · trivial
  cases hdigraph : (if o.digraphs then rest.head?.bind (digraph? c) else none) with
  | none => exact suits_plain word c rest
  | some image =>
    split at hdigraph
    · obtain ⟨next, -, h⟩ := Option.bind_eq_some_iff.1 hdigraph
      exact suits_ofDigraph h word _
    · cases hdigraph

end Lexeme

/-! ## The scanner forms tokens -/

namespace Scanner

variable {o : Options} {s s' t : Scanner}

/-- The word that is read has only characters of words, and the tokens that have been read are formed, between
parentheses that match. -/
structure Forming (o : Options) (s : Scanner) : Prop where
  word : ∀ c ∈ s.word.toList, isWordChar c = true
  current : Enclosed o s.parens s.current
  finished : ∀ st ∈ s.finished, st.tokens ≠ [] ∧ Enclosed o 0 st.tokens

theorem endWord_eq_ok (h : s.endWord o = .ok t) : s.word = "" ∧ t = s ∨
    s.word ≠ "" ∧ (o.lenient = true ∨ s.word ∉ Token.unsupportedKeywords) ∧
      t = { s.addToken s.word s.wordLine with word := "" } := by
  unfold endWord at h
  split at h
  · rename_i hword
    cases h
    exact .inl ⟨String.isEmpty_iff.1 hword, rfl⟩
  rename_i hword
  split at h
  · cases h
  · rename_i hkeyword
    cases h
    refine .inr ⟨fun he => hword (String.isEmpty_iff.2 he), ?_, rfl⟩
    simp only [Bool.and_eq_true, Bool.not_eq_true', List.contains_eq_mem, decide_eq_true_eq, not_and] at hkeyword
    cases hlenient : o.lenient with
    | true => exact .inl rfl
    | false => exact .inr (hkeyword hlenient)

/-- A word that is ended becomes a token. -/
theorem forming_of_endWord (hcurrent : Enclosed o s.parens s.current)
    (hfinished : ∀ st ∈ s.finished, st.tokens ≠ [] ∧ Enclosed o 0 st.tokens)
    (hword : s.word ≠ "" → (o.lenient = true ∨ s.word ∉ Token.unsupportedKeywords) → Token.Formed o s.word)
    (h : s.endWord o = .ok t) : t.Forming o := by
  rcases endWord_eq_ok h with ⟨hempty, rfl⟩ | ⟨hne, hsupported, rfl⟩
  · exact ⟨by simp [hempty], hcurrent, hfinished⟩
  · exact ⟨by simp, hcurrent.token (hword hne hsupported), hfinished⟩

theorem Forming.endWord (h : s.Forming o) (hend : s.endWord o = .ok t) : t.Forming o :=
  forming_of_endWord h.current h.finished (fun hne hsupported => .word hne h.word hsupported) hend

theorem Forming.addChar {c : Char} (h : s.Forming o) (hc : isWordChar c = true) : (s.addChar c).Forming o := by
  refine ⟨?_, h.current, h.finished⟩
  intro d hd
  simp only [Scanner.addChar, String.toList_push, List.mem_append, List.mem_singleton] at hd
  rcases hd with hd | rfl
  · exact h.word d hd
  · exact hc

theorem Forming.addToken {token : Token} (h : s.Forming o) (htoken : token.Formed o) (line : Nat) :
    (s.addToken token line).Forming o :=
  ⟨h.word, h.current.token htoken, h.finished⟩

/-- A statement ends only where no parenthesis is open. -/
theorem Forming.endStatement {opensBlock : Bool} (h : s.Forming o) (hparens : s.parens = 0)
    (hend : s.endStatement o opensBlock = .ok t) : t.Forming o := by
  obtain ⟨s', hword, hend⟩ := bind_eq_ok.1 hend
  have h' := h.endWord hword
  have hclosed : s'.parens = 0 := (holds_endWord hword).parens.trans hparens
  split at hend
  · cases hend
    exact h'
  · rename_i hcurrent
    cases hend
    have htokens := h'.current
    rw [hclosed] at htokens
    refine ⟨h'.word, ?_, ?_⟩
    · show Enclosed o s'.parens []
      rw [hclosed]
      exact .nil
    · intro st hst
      rcases List.mem_append.1 hst with hst | hst
      · exact h'.finished st hst
      · rw [List.mem_singleton.1 hst]
        exact ⟨by simpa using hcurrent, htokens⟩

theorem Forming.openBlock (h : s.Forming o) (hopen : s.openBlock o = .ok t) : t.Forming o := by
  unfold Scanner.openBlock at hopen
  dsimp only at hopen
  split at hopen
  · cases hopen
  obtain ⟨s', hend, hopen⟩ := bind_eq_ok.1 hopen
  cases hopen
  have h' := h.endStatement (by omega) hend
  exact ⟨h'.word, h'.current, h'.finished⟩

theorem Forming.closeBlock (h : s.Forming o) (hclose : s.closeBlock o = .ok t) : t.Forming o := by
  unfold Scanner.closeBlock at hclose
  dsimp only at hclose
  split at hclose
  · cases hclose
  split at hclose
  · cases hclose
  obtain ⟨s', hword, hend⟩ := bind_eq_ok.1 hclose
  obtain ⟨hchars, hcurrent, hfinished⟩ := h.endWord hword
  have hclosed : s'.parens = 0 := by rw [(holds_endWord hword).parens]; omega
  exact Forming.endStatement (s := { s' with depth := s'.depth - 1 }) ⟨hchars, hcurrent, hfinished⟩ hclosed hend

/-- A semicolon is a token between parentheses. -/
theorem Forming.semicolon (h : s.Forming o) (hread : s.semicolon o = .ok t) : t.Forming o := by
  unfold Scanner.semicolon at hread
  split at hread
  · rename_i hparens
    exact h.endStatement hparens hread
  · rename_i hparens
    obtain ⟨s', hword, hread⟩ := bind_eq_ok.1 hread
    cases hread
    have h' := h.endWord hword
    obtain ⟨n, hn⟩ : ∃ n, s'.parens = n + 1 :=
      Nat.exists_eq_succ_of_ne_zero (by rw [(holds_endWord hword).parens]; exact hparens)
    refine ⟨h'.word, ?_, h'.finished⟩
    have hcurrent := h'.current
    show Enclosed o s'.parens (s'.current ++ [";"])
    rw [hn] at hcurrent ⊢
    exact hcurrent.semicolon

theorem Forming.operator {op : Token} (h : s.Forming o) (hop : op ∈ Token.operators)
    (hread : s.operator o op = .ok t) : t.Forming o := by
  unfold Scanner.operator at hread
  dsimp only at hread
  split at hread
  · cases hread
  rename_i hrefused
  split at hread
  · cases hread
  rename_i hunopened
  obtain ⟨s', hword, hread⟩ := bind_eq_ok.1 hread
  have h' := h.endWord hword
  have hparens := (holds_endWord hword).parens
  split at hread
  · rename_i hopen
    cases hread
    subst hopen
    exact ⟨h'.word, h'.current.opening, h'.finished⟩
  rename_i hopen
  split at hread
  · rename_i hclose
    cases hread
    subst hclose
    obtain ⟨n, hn⟩ : ∃ n, s'.parens = n + 1 :=
      Nat.exists_eq_succ_of_ne_zero (by rw [hparens]; exact fun hzero => hunopened ⟨rfl, hzero⟩)
    have hcurrent := h'.current
    rw [hn] at hcurrent
    refine ⟨h'.word, ?_, h'.finished⟩
    show Enclosed o (s'.parens - 1) (s'.current ++ [")"])
    rw [hn]
    exact hcurrent.closing
  · rename_i hclose
    cases hread
    exact h'.addToken (.operator hop (by simp; tauto)) s'.line

/-- A string literal becomes one token between quotes. -/
theorem current_of_readString {cs rest : List Char} (hword : ∃ content, s.word.toList = '"' :: content)
    (h : s.readString o cs = .ok (t, rest)) :
    ∃ token, token.Formed o ∧ t.current = s.current ++ [token] := by
  obtain ⟨content, hcontent⟩ := hword
  fun_induction readString o s cs generalizing content with
  | case1 => cases h
  | case2 => cases h
  | case3 s e cs value _ ih => exact ih h (content ++ [value]) (by simp [Scanner.addChar, hcontent])
  | case4 => cases h
  | case5 s cs hend =>
    cases h
    have htext : (s.word.push '"').toList = '"' :: content ++ ['"'] := by simp [hcontent]
    rcases endWord_eq_ok ‹_› with ⟨hempty, -⟩ | ⟨-, -, rfl⟩
    · simp [Scanner.addChar] at hempty
    · exact ⟨_, .string ⟨content, htext⟩, rfl⟩
  | case6 => cases h
  | case7 s cs _ _ _ ih => exact ih h content hcontent
  | case8 s c cs _ _ _ _ ih => exact ih h (content ++ [c]) (by simp [Scanner.addChar, hcontent])

theorem foldl_addChar_word (cs : List Char) (s : Scanner) :
    (cs.foldl addChar s).word.toList = s.word.toList ++ cs ∧ (cs.foldl addChar s).current = s.current := by
  induction cs generalizing s with
  | nil => simp
  | cons c cs ih =>
    obtain ⟨hword, hcurrent⟩ := ih (s.addChar c)
    refine ⟨?_, hcurrent⟩
    rw [List.foldl_cons, hword]
    simp [Scanner.addChar]

theorem Forming.fraction {text : List Char} (h : s.Forming o) (hpoint : isDecimalPoint s.word text = true)
    (htext : splitFraction '.' text = (text, []))
    (hend : (text.foldl Scanner.addChar (s.addChar '.')).endWord o = .ok t) : t.Forming o := by
  obtain ⟨hword, hcurrent⟩ := foldl_addChar_word text (s.addChar '.')
  have hparens := (foldl_addChar_eq text (s.addChar '.')).2
  have hfinished := (keeps_foldl_addChar (s.addChar '.') text).finished
  refine forming_of_endWord ?_ ?_ ?_ hend
  · rw [hcurrent, hparens]
    exact h.current
  · rw [hfinished]
    exact h.finished
  · intro _ _
    have hnumber : (text.foldl Scanner.addChar (s.addChar '.')).word.toList = s.word.toList ++ '.' :: text := by
      rw [hword]
      simp [Scanner.addChar]
    exact .number hnumber (by simpa using hpoint) htext

theorem formed_decimal (n : Nat) : Token.Formed o (toString n) := by
  have htext := Text.toList_decimal n
  have hchars : ∀ c ∈ (toString n).toList, c.isDigit = true := by
    rw [htext]
    exact fun c hc => Nat.isDigit_of_mem_toDigits (by decide) (by decide) hc
  refine .word ?_ (fun c hc => isWordChar_of_isDigit (hchars c hc)) (.inr ?_)
  · intro hempty
    simp [hempty] at htext
  · intro hkeyword
    have hall : ∀ t ∈ Token.unsupportedKeywords, t.toList.all Char.isDigit = false := by decide
    have hnone := hall _ hkeyword
    rw [List.all_eq_true.2 hchars] at hnone
    cases hnone

theorem Forming.reads {l : Lexeme} (h : s.Forming o) (hl : l.Suits s.word) (hread : s.Reads o l t) : t.Forming o := by
  cases hread with
  | gap text hword =>
    have h' := h.endWord hword
    exact ⟨h'.word, h'.current, h'.finished⟩
  | opening _ hopen => exact h.openBlock hopen
  | closing _ hclose => exact h.closeBlock hclose
  | semicolon hsemicolon => exact h.semicolon hsemicolon
  | @string s' _ text rest hword hstring =>
    have h' := h.endWord hword
    obtain ⟨hgrows, hempty, hparens, -⟩ := readString_grows (grows_addChar s' '"') hstring
    obtain ⟨token, htoken, hcurrent⟩ := current_of_readString
      ⟨[], by simp [Scanner.addChar, (holds_endWord hword).word]⟩ hstring
    refine ⟨by simp [hempty], ?_, ?_⟩
    · rw [hparens, hcurrent]
      exact h'.current.token htoken
    · rw [hgrows.keeps.finished]
      exact h'.finished
  | character text value hword => exact (h.endWord hword).addToken (formed_decimal _) _
  | fraction _ hword =>
    obtain ⟨fraction, htext, hpoint, hfraction⟩ := hl
    cases htext
    exact h.fraction hpoint hfraction hword
  | operator hop hoperator => exact h.operator hop hoperator
  | letter c => exact h.addChar hl

theorem Forming.run {cs : List Char} (h : s.Forming o) (hrun : s.run o cs = .ok t) : t.Forming o := by
  fun_induction Scanner.run o s cs with
  | case1 =>
    cases hrun
    exact h
  | case2 => cases hrun
  | case3 s c rest s' rest' hstep ih =>
    exact ih (h.reads (Lexeme.suits_first o s.word c rest) (reads_of_step hstep).2) hrun

end Scanner

/-- Every statement of a text has tokens, which are formed and enclosed in parentheses that match. -/
theorem enclosed_of_scan {o : Options} {source : String} {statements : List Statement}
    (h : Statement.scan o source = .ok statements) :
    ∀ st ∈ statements, st.tokens ≠ [] ∧ Enclosed o 0 st.tokens := by
  obtain ⟨s, hrun, hfinish⟩ := bind_eq_ok.1 h
  have hforming : s.Forming o := Scanner.Forming.run ⟨by simp, .nil, by simp⟩ hrun
  unfold Scanner.finish at hfinish
  dsimp only at hfinish
  split at hfinish
  · cases hfinish
  rename_i hparens
  obtain ⟨s', hend, hfinish⟩ := bind_eq_ok.1 hfinish
  split at hfinish
  · cases hfinish
  · cases hfinish
    exact (hforming.endStatement (by omega) hend).finished

/-! ## Parentheses and semicolons -/

namespace Enclosed

variable {o : Options} {n : Nat} {ts front back : List Token}

/-- The first tokens of a statement are enclosed as well. -/
theorem of_front (h : Enclosed o n ts) (hfront : front <+: ts) : ∃ m, Enclosed o m front := by
  -- with one token more there is one front more, which is the whole list
  have hconcat {m : Nat} {ts : List Token} {t : Token} (h : Enclosed o m (ts ++ [t]))
      (ih : front <+: ts → ∃ m, Enclosed o m front) (hfront : front <+: ts ++ [t]) : ∃ m, Enclosed o m front := by
    rcases List.prefix_concat_iff.1 hfront with rfl | hfront
    · exact ⟨m, h⟩
    · exact ih hfront
  induction h with
  | nil => exact ⟨0, by rw [List.prefix_nil.1 hfront]; exact .nil⟩
  | token h ht ih => exact hconcat (h.token ht) ih hfront
  | opening h ih => exact hconcat h.opening ih hfront
  | closing h ih => exact hconcat h.closing ih hfront
  | semicolon h ih => exact hconcat h.semicolon ih hfront

theorem count_eq (h : Enclosed o n ts) : ts.count "(" = ts.count ")" + n := by
  induction h with
  | nil => rfl
  | token h ht ih =>
    have hne := ht.not_mem
    simp only [List.mem_cons, not_or] at hne
    simp [hne.1, hne.2.1, ih]
  | opening h ih => simp [ih]; omega
  | closing h ih => simp [ih]; omega
  | semicolon h ih => simp [ih]

theorem of_semicolon (h : Enclosed o n (front ++ [";"])) : 0 < n ∧ Enclosed o n front := by
  generalize hts : front ++ [";"] = ts at h
  cases h with
  | nil => simp at hts
  | token h ht =>
    obtain ⟨-, hlast⟩ := List.append_inj' hts rfl
    cases hlast
    exact absurd (by simp) ht.not_mem
  | opening h => exact absurd (List.append_inj' hts rfl).2 (by decide)
  | closing h => exact absurd (List.append_inj' hts rfl).2 (by decide)
  | semicolon h =>
    obtain ⟨rfl, -⟩ := List.append_inj' hts rfl
    exact ⟨Nat.succ_pos _, h⟩

end Enclosed

namespace Token

variable {o : Options} {t : Token}

/-- Only string literals have blanks in them. -/
theorem Formed.isString_or (h : t.Formed o) : t.IsString ∨ ∀ c ∈ t.toList, Text.isBlank c = false := by
  cases h with
  | word _ hchars => exact .inr fun c hc => (isWordChar_iff.1 (hchars c hc)).1
  | @number whole fraction htext hpoint hfraction =>
    refine .inr fun c hc => ?_
    rw [htext, List.mem_append, List.mem_cons] at hc
    rcases hc with hc | rfl | hc
    · exact (isWordChar_iff.1 (isWordChar_of_isDigit (isDigit_of_isDecimalPoint hpoint c (by simpa using hc)))).1
    · decide
    · exact isBlank_splitFraction '.' fraction c (by simpa [hfraction] using hc)
  | string hstring => exact .inl hstring
  | operator hop =>
    have hall : ∀ op ∈ Token.operators, op.toList.all (!Text.isBlank ·) = true := by decide
    refine .inr fun c hc => ?_
    simpa using List.all_eq_true.1 (hall t hop) c hc

end Token

theorem Enclosed.formed_or {o : Options} {n : Nat} {ts : List Token} (h : Enclosed o n ts) :
    ∀ t ∈ ts, t.Formed o ∨ t ∈ ["(", ")", ";"] := by
  induction h with
  | nil => simp
  | token h ht ih =>
    intro t hmem
    rcases List.mem_append.1 hmem with hmem | hmem
    · exact ih t hmem
    · exact .inl (List.mem_singleton.1 hmem ▸ ht)
  | opening h ih | closing h ih | semicolon h ih =>
    intro t hmem
    rcases List.mem_append.1 hmem with hmem | hmem
    · exact ih t hmem
    · rw [List.mem_singleton.1 hmem]
      exact .inr (by decide)

/-- The tokens of a statement: there is one, none is empty, none but a string literal has a blank in it, and
none is a brace, an operator that is refused or a keyword that is not supported. Their parentheses match, and
a semicolon stands only between them. -/
theorem tokens_of_scan {o : Options} {source : String} {statements : List Statement}
    (h : Statement.scan o source = .ok statements) : ∀ st ∈ statements, st.tokens ≠ [] ∧
      (∀ t ∈ st.tokens, t ≠ "" ∧ (t.IsString ∨ ∀ c ∈ t.toList, Text.isBlank c = false) ∧
        t ∉ ["\x7b", "\x7d", "++", "--"] ∧ (o.lenient = false → t ∉ Token.unsupportedKeywords)) ∧
      (∀ front, front <+: st.tokens → front.count ")" ≤ front.count "(") ∧
      st.tokens.count "(" = st.tokens.count ")" ∧
      ∀ front back, st.tokens = front ++ ";" :: back → front.count ")" < front.count "(" := by
  intro st hst
  obtain ⟨hne, henclosed⟩ := enclosed_of_scan h st hst
  refine ⟨hne, ?_, ?_, henclosed.count_eq, ?_⟩
  · intro t ht
    rcases henclosed.formed_or t ht with hformed | hbracket
    · have hmem := hformed.not_mem
      refine ⟨hformed.ne_empty, hformed.isString_or, by simp at hmem ⊢; tauto, ?_⟩
      intro hstrict
      exact hformed.supported.resolve_left (by simp [hstrict])
    · have hall : ∀ t ∈ ["(", ")", ";"], t ≠ "" ∧ t.toList.all (!Text.isBlank ·) = true ∧
          t ∉ ["\x7b", "\x7d", "++", "--"] ∧ t ∉ Token.unsupportedKeywords := by decide
      obtain ⟨hempty, hblank, hbrace, hkeyword⟩ := hall t hbracket
      exact ⟨hempty, .inr fun c hc => by simpa using List.all_eq_true.1 hblank c hc, hbrace, fun _ => hkeyword⟩
  · intro front hfront
    obtain ⟨m, hm⟩ := henclosed.of_front hfront
    have := hm.count_eq
    omega
  · intro front back htokens
    obtain ⟨m, hm⟩ := henclosed.of_front (show front ++ [";"] <+: st.tokens from ⟨back, by simp [htokens]⟩)
    obtain ⟨hpos, hfront⟩ := hm.of_semicolon
    have := hfront.count_eq
    omega

/-- Semicolons between parentheses, a string literal with blanks, a number and an unended statement. -/
theorem tokens_of_scan_loop :
    let source := "for (i = 0; i < .5e+1; ) \x7b puts(\"a b\"); \x7d x"
    let statements : List Statement :=
      [⟨1, 0, ["for", "(", "i", "=", "0", ";", "i", "<", ".5e+1", ";", ")"], true⟩,
        ⟨1, 1, ["puts", "(", "\"a b\"", ")"], false⟩, ⟨1, 0, ["x"], false⟩]
    Statement.scan {} source = .ok statements ∧
      ∀ st ∈ statements, st.tokens.count "(" = st.tokens.count ")" ∧
        ∀ front back, st.tokens = front ++ ";" :: back → front.count ")" < front.count "(" := by
  intro source statements
  have hscan : Statement.scan {} source = .ok statements := by decide +kernel
  exact ⟨hscan, fun st hst => (tokens_of_scan hscan st hst).2.2.2⟩

end WordMachine.Cflat
