/-
Numbers as tokens. The text of a number without a sign in front is one token, except where the number has no point
and a sign in its exponent: the sign is an operator then, and the text is three tokens.
-/
import WordMachine.Proofs.Cflat.Numbers
import WordMachine.Proofs.Cflat.Respelling

namespace WordMachine.Cflat

open Text (digitValue)

/-! ## Numbers that are words -/

theorem isWordChar_of_digitValue {c : Char} (h : digitValue c < 16) : isWordChar c = true := by
  have hall : ∀ n < 128, digitValue (Char.ofNat n) < 16 → isWordChar (Char.ofNat n) = true := by decide +kernel
  have hc := hall c.toNat (Text.toNat_lt_of_digitValue h)
  rw [Char.ofNat_toNat] at hc
  exact hc h

theorem IsDigits.isWordChar {base : Nat} {ds : List Char} (h : IsDigits base ds) (hbase : base ≤ 16) :
    ∀ c ∈ ds, isWordChar c = true := by
  intro c hc
  rcases h.isDigit c hc with rfl | hlt
  · decide
  · exact isWordChar_of_digitValue (by omega)

/-- The text has no sign in front. -/
def Unsigned (cs : List Char) : Prop := ∀ c ∈ cs.head?, c ≠ '+' ∧ c ≠ '-'

instance (cs : List Char) : Decidable (Unsigned cs) :=
  Option.decidableForallMem (p := fun c => c ≠ '+' ∧ c ≠ '-') cs.head?

theorem Unsigned.eq_nil {sign rest : List Char} (h : Unsigned (sign ++ rest)) (hsign : Decimal.IsSign sign) :
    sign = [] := by
  simp only [Decimal.IsSign, List.mem_cons, List.not_mem_nil, or_false] at hsign
  rcases hsign with rfl | rfl | rfl
  · rfl
  · exact absurd rfl (h '-' rfl).2
  · exact absurd rfl (h '+' rfl).1

/-- An integer without a sign is a word. -/
theorem IsInteger.isWordChar {cs : List Char} (h : IsInteger cs) (hunsigned : Unsigned cs) :
    ∀ c ∈ cs, isWordChar c = true := by
  have hzero : Cflat.isWordChar '0' = true := by decide
  cases h with
  | hexadecimal hmark h =>
    refine List.forall_mem_cons.2 ⟨hzero, List.forall_mem_cons.2 ⟨?_, h.isWordChar (by decide)⟩⟩
    rcases hmark with rfl | rfl <;> decide
  | octal h => exact List.forall_mem_cons.2 ⟨hzero, h.isWordChar (by decide)⟩
  | binary hmark h =>
    refine List.forall_mem_cons.2 ⟨hzero, List.forall_mem_cons.2 ⟨?_, h.isWordChar (by decide)⟩⟩
    rcases hmark with rfl | rfl <;> decide
  | decimal hsign h hsuffix =>
    rw [hunsigned.eq_nil hsign, List.nil_append]
    have hall : ∀ suffix ∈ [[], ['L'], ['l']], suffix.all Cflat.isWordChar = true := by decide
    exact List.forall_mem_append.2 ⟨h.isWordChar (by decide), List.all_eq_true.1 (hall _ hsuffix)⟩

theorem quote_not_mem {cs : List Char} (h : NumberForm.read? cs ≠ none) : '"' ∉ cs := by
  rcases isInteger_or_isReal h with hinteger | ⟨sign, mantissa, exponent, k, suffix, hs, hm, he, hsuffix, rfl⟩
  · exact hinteger.not_mem (by decide) (by decide)
  · have hnumber {cs : List Char} (hcs : ∀ c ∈ cs, Decimal.isNumberChar c = true) : '"' ∉ cs :=
      fun hmem => absurd (hcs _ hmem) (by decide)
    have hall : ∀ suffix ∈ [[], ['f'], ['F']], '"' ∉ suffix := by decide
    simp only [List.mem_append, not_or]
    exact ⟨⟨hnumber (Decimal.isNumberChar_of_isSign hs), hnumber hm.isNumberChar, hnumber he.isNumberChar⟩,
      hall suffix hsuffix⟩

/-- The text of a number is no keyword. -/
theorem formed_of_read? {o : Options} {t : Token} (h : NumberForm.read? t.toList ≠ none)
    (hchars : ∀ c ∈ t.toList, isWordChar c = true) : t.Formed o := by
  have hkeyword : ∀ t ∈ Token.unsupportedKeywords, NumberForm.read? t.toList = none := by decide
  refine .word ?_ hchars (.inr fun hmem => h (hkeyword t hmem))
  rintro rfl
  exact h rfl

theorem formed_of_startsWithDigit {o : Options} {t : Token} (h : startsWithDigit t.toList = true)
    (hchars : ∀ c ∈ t.toList, isWordChar c = true) : t.Formed o := by
  have hkeyword : ∀ t ∈ Token.unsupportedKeywords, startsWithDigit t.toList = false := by decide
  refine .word ?_ hchars (.inr fun hmem => ?_)
  · rintro rfl
    cases h
  · rw [hkeyword t hmem] at h
    cases h

/-! ## Numbers with a point -/

theorem isWordChar_of_digits {cs : List Char} (h : Text.Digits 10 cs) : ∀ c ∈ cs, isWordChar c = true :=
  fun c hc => isWordChar_of_isDigit (h.isDigit c hc)

theorem startsWithDigit_of_digits {cs : List Char} (h : Text.Digits 10 cs) (rest : List Char) :
    startsWithDigit (cs ++ rest) = true := by
  obtain ⟨d, ds, rfl⟩ := List.exists_cons_of_ne_nil h.ne_nil
  exact h.isDigit d (List.mem_cons_self ..)

/-- Digits continue a fraction. -/
theorem splitFraction_digits {ds : List Char} (hds : ∀ c ∈ ds, c.isDigit = true) {rest : List Char}
    (hrest : ∀ previous, splitFraction previous rest = (rest, [])) (previous : Char) :
    splitFraction previous (ds ++ rest) = (ds ++ rest, []) := by
  induction ds generalizing previous with
  | nil => exact hrest previous
  | cons d ds ih =>
    rw [List.forall_mem_cons] at hds
    have hd : continuesFraction previous d = true := by simp [continuesFraction, hds.1]
    rw [List.cons_append, splitFraction, if_pos hd, ih hds.2]

theorem splitFraction_suffix {suffix : List Char} (hsuffix : suffix ∈ [[], ['f'], ['F']]) (previous : Char) :
    splitFraction previous suffix = (suffix, []) := by
  simp only [List.mem_cons, List.not_mem_nil, or_false] at hsuffix
  rcases hsuffix with rfl | rfl | rfl
  · rfl
  · simp [splitFraction, continuesFraction]
  · simp [splitFraction, continuesFraction]

/-- An exponent continues a fraction. -/
theorem splitFraction_exponent {exponent rest : List Char} {k : Int} (h : Decimal.Exponent exponent k)
    (hrest : ∀ previous, splitFraction previous rest = (rest, [])) (previous : Char) :
    splitFraction previous (exponent ++ rest) = (exponent ++ rest, []) := by
  cases h with
  | none => exact hrest previous
  | @mark mark sign ds hmark hsign h =>
    have hmark' : continuesFraction previous mark = true := by
      rcases hmark with rfl | rfl <;> simp [continuesFraction]
    have hdigits := splitFraction_digits h.isDigit hrest
    have hsign' : splitFraction mark (sign ++ (ds ++ rest)) = (sign ++ (ds ++ rest), []) := by
      simp only [Decimal.IsSign, List.mem_cons, List.not_mem_nil, or_false] at hsign
      rcases hsign with rfl | rfl | rfl
      · exact hdigits mark
      · rw [List.singleton_append, splitFraction, if_pos (by rcases hmark with rfl | rfl <;> rfl), hdigits]
      · rw [List.singleton_append, splitFraction, if_pos (by rcases hmark with rfl | rfl <;> rfl), hdigits]
    rw [List.cons_append, splitFraction, if_pos hmark', List.append_assoc, hsign']

theorem startsWithExponent_of_exponent {exponent : List Char} {k : Int} (h : Decimal.Exponent exponent k)
    (hne : exponent ≠ []) (rest : List Char) : startsWithExponent (exponent ++ rest) = true := by
  cases h with
  | none => exact absurd rfl hne
  | @mark mark sign ds hmark hsign h =>
    have hmark : (mark == 'e' || mark == 'E') = true := by rcases hmark with rfl | rfl <;> rfl
    obtain ⟨d, ds, rfl⟩ := List.exists_cons_of_ne_nil h.ne_nil
    have hd := h.isDigit d (List.mem_cons_self ..)
    obtain ⟨hminus, hplus⟩ := Decimal.ne_sign (.inl hd)
    simp only [Decimal.IsSign, List.mem_cons, List.not_mem_nil, or_false] at hsign
    rcases hsign with rfl | rfl | rfl
    · simp [startsWithExponent, hmark, hminus, hplus, startsWithDigit, hd]
    · simp [startsWithExponent, hmark, startsWithDigit, hd]
    · simp [startsWithExponent, hmark, startsWithDigit, hd]

/-- The point of a number is read as such. -/
theorem isDecimalPoint_of_isMantissa {ds es exponent suffix : List Char} {k : Int} (h : Text.Digits 10 (ds ++ es))
    (hexponent : Decimal.Exponent exponent k) (hsuffix : suffix ∈ [[], ['f'], ['F']]) :
    isDecimalPoint (String.ofList ds) (es ++ (exponent ++ suffix)) = true := by
  have hds : ds.all Char.isDigit = true := List.all_eq_true.2 fun c hc => h.isDigit c (List.mem_append_left es hc)
  simp only [isDecimalPoint, String.toList_ofList, hds, Bool.true_and, Bool.or_eq_true, Bool.and_eq_true]
  cases es with
  | cons e es => exact .inl (.inl (by simpa [startsWithDigit] using h.isDigit e (by simp)))
  | nil =>
    rw [List.nil_append]
    by_cases hne : exponent = []
    · refine .inr ⟨?_, ?_⟩
      · simpa using h.ne_nil
      · simp only [List.mem_cons, List.not_mem_nil, or_false] at hsuffix
        rcases hsuffix with rfl | rfl | rfl <;> rw [hne] <;> rfl
    · exact .inl (.inr (startsWithExponent_of_exponent hexponent hne suffix))

/-! ## Signs in exponents -/

/-- The token is digits and an `e`, a sign, and what follows it. -/
structure SplitsAt (t front sign back : Token) : Prop where
  text : t = front ++ sign ++ back
  front : ∃ ds mark, front.toList = ds ++ [mark] ∧ Text.Digits 10 ds ∧ (mark = 'e' ∨ mark = 'E')
  sign : sign = "+" ∨ sign = "-"

/-- Texts with digits in front are the same only if their digits are. -/
theorem digits_unique {ds ds' rest rest' : List Char} (hds : ∀ c ∈ ds, c.isDigit = true)
    (hds' : ∀ c ∈ ds', c.isDigit = true) (hrest : ∀ c ∈ rest.head?, c.isDigit = false)
    (hrest' : ∀ c ∈ rest'.head?, c.isDigit = false) (h : ds ++ rest = ds' ++ rest') : ds = ds' ∧ rest = rest' := by
  obtain ⟨htake, hdrop⟩ := Decimal.span_digits hds hrest
  obtain ⟨htake', hdrop'⟩ := Decimal.span_digits hds' hrest'
  exact ⟨by rw [← htake, h, htake'], by rw [← hdrop, h, hdrop']⟩

namespace SplitsAt

variable {t front sign back front' sign' back' : Token}

/-- The digits, the mark and the rest of the text. -/
theorem exists_text (h : SplitsAt t front sign back) : ∃ ds mark c, Text.Digits 10 ds ∧ (mark = 'e' ∨ mark = 'E') ∧
    (c = '+' ∨ c = '-') ∧ front = String.ofList (ds ++ [mark]) ∧ sign = String.singleton c ∧
      t.toList = ds ++ (mark :: c :: back.toList) := by
  obtain ⟨rfl, ⟨ds, mark, hfront, hds, hmark⟩, hsign⟩ := h
  obtain ⟨c, hc, hsign⟩ : ∃ c, (c = '+' ∨ c = '-') ∧ sign = String.singleton c := by
    rcases hsign with rfl | rfl
    · exact ⟨'+', .inl rfl, rfl⟩
    · exact ⟨'-', .inr rfl, rfl⟩
  refine ⟨ds, mark, c, hds, hmark, hc, ?_, hsign, ?_⟩
  · rw [← hfront, String.ofList_toList]
  · simp [hfront, hsign]

theorem mark_isDigit {mark : Char} (h : mark = 'e' ∨ mark = 'E') (rest : List Char) :
    ∀ c ∈ (mark :: rest).head?, c.isDigit = false := by
  rintro c ⟨⟩
  rcases h with rfl | rfl <;> rfl

theorem unique (h : SplitsAt t front sign back) (h' : SplitsAt t front' sign' back') :
    front' = front ∧ sign' = sign ∧ back' = back := by
  obtain ⟨ds, mark, c, hds, hmark, -, rfl, rfl, ht⟩ := h.exists_text
  obtain ⟨ds', mark', c', hds', hmark', -, rfl, rfl, ht'⟩ := h'.exists_text
  obtain ⟨rfl, hrest⟩ := digits_unique hds.isDigit hds'.isDigit (mark_isDigit hmark _) (mark_isDigit hmark' _)
    (ht.symm.trans ht')
  simp only [List.cons.injEq, String.toList_inj] at hrest
  obtain ⟨rfl, rfl, rfl⟩ := hrest
  exact ⟨rfl, rfl, rfl⟩

/-- A sign is no part of a word. -/
theorem not_isWordChar (h : SplitsAt t front sign back) : ¬∀ c ∈ t.toList, isWordChar c = true := by
  obtain ⟨ds, mark, c, -, -, hc, -, -, ht⟩ := h.exists_text
  intro hall
  have hword := hall c (by simp [ht])
  rcases hc with rfl | rfl <;> cases hword

/-- An `e` is no point. -/
theorem not_point (h : SplitsAt t front sign back) {ds es : List Char} (hds : ∀ c ∈ ds, c.isDigit = true) :
    t.toList ≠ ds ++ '.' :: es := by
  obtain ⟨ds', mark, c, hds', hmark, -, -, -, ht⟩ := h.exists_text
  intro hpoint
  have hrest := (digits_unique hds'.isDigit hds (mark_isDigit hmark _) (by rintro c ⟨⟩; rfl) (ht.symm.trans hpoint)).2
  rw [(List.cons.inj hrest).1] at hmark
  revert hmark
  decide

end SplitsAt

/-- A real number is one token, or its exponent has a sign and what follows it is a word. -/
theorem formed_or_splitsAt {o : Options} {t : Token} (hread : NumberForm.read? t.toList ≠ none) (h : IsReal t.toList)
    (hunsigned : Unsigned t.toList) :
    (t.Formed o ∧ ∀ front sign back, ¬SplitsAt t front sign back) ∨
      ∃ front sign back, SplitsAt t front sign back ∧ startsWithDigit back.toList = true ∧
        ∀ c ∈ back.toList, isWordChar c = true := by
  obtain ⟨sign, mantissa, exponent, k, suffix, hsign, hmantissa, hexponent, hsuffix, ht⟩ := h
  rw [ht, List.append_assoc] at hunsigned
  rw [hunsigned.eq_nil hsign, List.nil_append, List.append_assoc] at ht
  have hsuffix' : ∀ c ∈ suffix, isWordChar c = true := by
    have hall : ∀ suffix ∈ [[], ['f'], ['F']], suffix.all isWordChar = true := by decide
    exact List.all_eq_true.1 (hall suffix hsuffix)
  have hword (hchars : ∀ c ∈ t.toList, isWordChar c = true) :
      t.Formed o ∧ ∀ front sign back, ¬SplitsAt t front sign back :=
    ⟨formed_of_read? hread hchars, fun _ _ _ hsplit => hsplit.not_isWordChar hchars⟩
  cases hmantissa with
  | @point ds es hdigits =>
    have hds : ∀ c ∈ ds, c.isDigit = true := fun c hc => hdigits.isDigit c (List.mem_append_left es hc)
    have hes : ∀ c ∈ es, c.isDigit = true := fun c hc => hdigits.isDigit c (List.mem_append_right ds hc)
    rw [List.append_assoc, List.cons_append] at ht
    refine .inl ⟨.number ht (isDecimalPoint_of_isMantissa hdigits hexponent hsuffix) ?_, ?_⟩
    · exact splitFraction_digits hes (splitFraction_exponent hexponent (splitFraction_suffix hsuffix)) '.'
    · exact fun _ _ _ hsplit => hsplit.not_point hds ht
  | whole hdigits =>
    have hmantissa := isWordChar_of_digits hdigits
    cases hexponent with
    | none =>
      refine .inl (hword ?_)
      rw [ht]
      exact List.forall_mem_append.2 ⟨hmantissa, hsuffix'⟩
    | @mark mark sign ds hmark hsign hds =>
      have hback := List.forall_mem_append.2 ⟨isWordChar_of_digits hds, hsuffix'⟩
      have hsplits (c : Char) (hc : c = '+' ∨ c = '-') (ht : t.toList = mantissa ++ mark :: c :: (ds ++ suffix)) :
          ∃ front sign back, SplitsAt t front sign back ∧ startsWithDigit back.toList = true ∧
            ∀ c ∈ back.toList, isWordChar c = true := by
        refine ⟨String.ofList (mantissa ++ [mark]), String.singleton c, String.ofList (ds ++ suffix), ⟨?_, ?_, ?_⟩,
          ?_, ?_⟩
        · exact String.toList_inj.1 (by simp [ht])
        · exact ⟨mantissa, mark, by simp, hdigits, hmark⟩
        · rcases hc with rfl | rfl
          · exact .inl rfl
          · exact .inr rfl
        · rw [String.toList_ofList]
          exact startsWithDigit_of_digits hds suffix
        · simpa using hback
      -- the sign is the only character of the number that ends a word
      simp only [Decimal.IsSign, List.mem_cons, List.not_mem_nil, or_false] at hsign
      rcases hsign with rfl | rfl | rfl
      · refine .inl (hword ?_)
        have hmark : isWordChar mark = true := by rcases hmark with rfl | rfl <;> decide
        rw [ht, List.nil_append, List.cons_append]
        exact List.forall_mem_append.2 ⟨hmantissa, List.forall_mem_cons.2 ⟨hmark, hback⟩⟩
      · exact .inr (hsplits '-' (.inr rfl) (by simpa using ht))
      · exact .inr (hsplits '+' (.inl rfl) (by simpa using ht))

/-! ## Scanning -/

/-- A token that is no string literal is read as itself. -/
theorem scan_formed {o : Options} {t : Token} (h : t.Formed o) (hquote : t.toList.head? ≠ some '"') :
    Statement.scan o t = .ok [⟨1, 0, [t], false⟩] := by
  have hscan := scan_spelled (Enclosed.nil.token h) (by simp)
  simpa [Scanner.spell_of_head? hquote, String.intercalate_singleton] using hscan

theorem continuesOperator_of_isWordChar {c : Char} (h : isWordChar c = true) : continuesOperator c = false := by
  have hall : ∀ op ∈ Token.operators, op.toList.tail.all (!isWordChar ·) = true := by decide
  refine List.any_eq_false.2 fun op hop hmem => ?_
  simpa [h] using List.all_eq_true.1 (hall op hop) c (List.contains_iff_mem.1 hmem)

/-- A sign after a word ends it. -/
theorem Scanner.step_sign {o : Options} {s s' : Scanner} {c : Char} {rest : List Char} (hc : c = '+' ∨ c = '-')
    (hrest : ∀ d ∈ rest.head?, isWordChar d = true) (h : s.endWord o = .ok s') :
    s.step o c rest = .ok (s'.addToken (String.singleton c) s'.line, rest) := by
  have hop : operatorAt? (c :: rest) = some (String.singleton c) := by
    have hfirst := operatorAt?_append_of (List.cons_ne_nil c []) fun d hd =>
      continuesOperator_of_isWordChar (hrest d hd)
    rw [← List.singleton_append, hfirst]
    rcases hc with rfl | rfl <;> decide
  have hoperator : s.operator o (String.singleton c) = .ok (s'.addToken (String.singleton c) s'.line) := by
    rcases hc with rfl | rfl <;> simp [Scanner.operator, h, bind, Except.bind, pure, Except.pure]
  have hplain : c ∉ ['/', '*', '<', ':', '%'] := by rcases hc with rfl | rfl <;> decide
  have hpoint : c ≠ '.' := by rcases hc with rfl | rfl <;> decide
  rw [step_eq_stepPlain hplain, stepPlain_eq_operator (by simp [hpoint]) hop, hoperator]
  simp [bind, Except.bind]

theorem scan_splitsAt {o : Options} {t front sign back : Token} (h : SplitsAt t front sign back)
    (hdigit : startsWithDigit back.toList = true) (hback : ∀ c ∈ back.toList, isWordChar c = true) :
    Statement.scan o t = .ok [⟨1, 0, [front, sign, back], false⟩] := by
  obtain ⟨ds, mark, c, hds, hmark, hc, rfl, rfl, ht⟩ := h.exists_text
  have hfront : ∀ c ∈ (String.ofList (ds ++ [mark])).toList, isWordChar c = true := by
    rw [String.toList_ofList, List.forall_mem_append]
    refine ⟨isWordChar_of_digits hds, List.forall_mem_singleton.2 ?_⟩
    rcases hmark with rfl | rfl <;> decide
  have hformed : Token.Formed o (String.ofList (ds ++ [mark])) :=
    formed_of_startsWithDigit (by rw [String.toList_ofList]; exact startsWithDigit_of_digits hds [mark]) hfront
  have hstart : Scanner.Holding {} 0 [] := ⟨rfl, rfl, rfl, rfl, rfl, rfl, rfl⟩
  obtain ⟨s, hend, hs⟩ := hstart.endWord hformed
  have hsign := hs.addToken (String.singleton c)
  obtain ⟨s', hs', hscan⟩ := Scanner.readsToken_word (o := o) (formed_of_startsWithDigit hdigit hback) hback 0
    _ _ [] hsign (by simp [EndsToken])
  have hstep := Scanner.step_sign hc (fun d hd => hback d (List.mem_of_mem_head? hd)) hend
  rw [hs.line] at hstep
  have htext : t.toList = (String.ofList (ds ++ [mark])).toList ++ c :: back.toList := by simp [ht]
  show Scanner.scanRest o {} t.toList = _
  rw [htext, Scanner.scanRest_word hfront, Scanner.scanRest_step hstep, ← List.append_nil back.toList, hscan]
  simp only [Scanner.scanRest, Scanner.run]
  exact hs'.finish (by simp)

/-- A text without a sign in front that is read as a number is one token, if and only if it has no sign in an
exponent after digits without a point. With such a sign, it is the three tokens before, at and after the
sign. -/
theorem scan_number_iff (o : Options) {t : Token} (h : NumberForm.read? t.toList ≠ none)
    (hunsigned : Unsigned t.toList) :
    (Statement.scan o t = .ok [⟨1, 0, [t], false⟩] ↔ ¬∃ front sign back, SplitsAt t front sign back) ∧
      ∀ front sign back, SplitsAt t front sign back →
        Statement.scan o t = .ok [⟨1, 0, [front, sign, back], false⟩] := by
  have hforms : (t.Formed o ∧ ∀ front sign back, ¬SplitsAt t front sign back) ∨
      ∃ front sign back, SplitsAt t front sign back ∧ startsWithDigit back.toList = true ∧
        ∀ c ∈ back.toList, isWordChar c = true := by
    rcases isInteger_or_isReal h with hinteger | hreal
    · have hchars := hinteger.isWordChar hunsigned
      exact .inl ⟨formed_of_read? h hchars, fun _ _ _ hsplit => hsplit.not_isWordChar hchars⟩
    · exact formed_or_splitsAt h hreal hunsigned
  rcases hforms with ⟨hformed, hno⟩ | ⟨front, sign, back, hsplit, hdigit, hback⟩
  · have hscan : Statement.scan o t = .ok [⟨1, 0, [t], false⟩] :=
      scan_formed hformed fun hquote => quote_not_mem h (List.mem_of_mem_head? hquote)
    refine ⟨iff_of_true hscan ?_, fun _ _ _ hsplit => absurd hsplit (hno _ _ _)⟩
    rintro ⟨_, _, _, hsplit⟩
    exact hno _ _ _ hsplit
  · have hscan := scan_splitsAt (o := o) hsplit hdigit hback
    refine ⟨iff_of_false ?_ (not_not_intro ⟨_, _, _, hsplit⟩), ?_⟩
    · rw [hscan]
      simp
    · intro front' sign' back' hsplit'
      obtain ⟨rfl, rfl, rfl⟩ := hsplit.unique hsplit'
      exact hscan

/-- A number with all its parts is one token. -/
theorem scan_number_iff_point : Statement.scan {} "12.5e+3f" = .ok [⟨1, 0, ["12.5e+3f"], false⟩] := by
  refine (scan_number_iff {} (by decide +kernel) (by decide)).1.2 ?_
  rintro ⟨front, sign, back, hsplit⟩
  have hdigits : ['1', '2'].all Char.isDigit = true := by decide
  exact hsplit.not_point (List.all_eq_true.1 hdigits) (show _ = ['1', '2'] ++ '.' :: "5e+3f".toList from rfl)

/-- Without its point it is not, though it is read as a number. -/
theorem scan_signed_exponent : NumberForm.read? "1e+5".toList ≠ none ∧ Unsigned "1e+5".toList ∧
    Statement.scan {} "1e+5" = .ok [⟨1, 0, ["1e", "+", "5"], false⟩] :=
  ⟨by decide +kernel, by decide, by decide +kernel⟩

end WordMachine.Cflat
