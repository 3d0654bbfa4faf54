/-
The forms of operands. Each reader reads exactly the texts of its pattern whose number is in range, and no text has two
patterns. So the longest match of a whole word is the word itself with its one form, and a word is an operand exactly
if one of the readers reads all of it.
-/
import WordMachine.Assembly.OperandToken
import WordMachine.Proofs.Text.Decimal
import WordMachine.Proofs.Text.Pattern

namespace WordMachine.Assembly.OperandToken

open Text (Digits Pattern numeralValue)

variable {cs : List Char} {token : OperandToken}

/-! ## Registers and labels -/

theorem matches_register : Form.register.pattern.Matches cs ↔
    ∃ mark digits, cs = mark :: digits ∧ (mark = 'r' ∨ mark = 'R') ∧ Digits 10 digits := by
  simp only [Form.pattern, Pattern.matches_seq_one, Pattern.matches_run, ← Text.digits_iff_isDigit]
  simp

theorem register?_eq_some_iff : register? cs = some token ↔ ∃ mark digits, cs = mark :: digits ∧
    (mark = 'r' ∨ mark = 'R') ∧ Digits 10 digits ∧ numeralValue 10 digits < 2 ^ 32 ∧
      .register (numeralValue 10 digits) = token := by
  cases cs with
  | nil => simp [register?]
  | cons mark digits =>
    simp only [register?, Option.ite_none_right_eq_some, Option.bind_eq_some_iff, List.cons.injEq, Option.some.injEq,
      Text.readNumeral?_eq_some_iff (show 10 ≤ 16 by decide)]
    constructor
    · rintro ⟨hmark, n, ⟨hdigits, rfl⟩, hlt, rfl⟩
      exact ⟨mark, digits, ⟨rfl, rfl⟩, hmark, hdigits, hlt, rfl⟩
    · rintro ⟨_, _, ⟨rfl, rfl⟩, hmark, hdigits, hlt, rfl⟩
      exact ⟨hmark, _, ⟨hdigits, rfl⟩, hlt, rfl⟩

theorem isLabelChar_iff {c : Char} : isLabelChar c = true ↔ c ∉ [' ', '\t', '\n', ',', ';', '@'] := by
  simp [isLabelChar]

theorem matches_label : Form.label.pattern.Matches cs ↔
    ∃ name, cs = '@' :: name ∧ name ≠ [] ∧ ∀ c ∈ name, c ∉ [' ', '\t', '\n', ',', ';', '@'] := by
  simp only [Form.pattern, Pattern.matches_seq_one, Pattern.matches_run, isLabelChar_iff, beq_iff_eq]
  constructor
  · rintro ⟨_, name, rfl, rfl, hname⟩
    exact ⟨name, rfl, hname⟩
  · rintro ⟨name, rfl, hname⟩
    exact ⟨'@', name, rfl, rfl, hname⟩

theorem label?_eq_some_iff : label? cs = some token ↔ ∃ name, cs = '@' :: name ∧ name ≠ [] ∧
    (∀ c ∈ name, c ∉ [' ', '\t', '\n', ',', ';', '@']) ∧ .label (String.ofList name) = token := by
  cases cs with
  | nil => simp [label?]
  | cons mark name =>
    simp only [label?, Option.ite_none_right_eq_some, List.cons.injEq, Option.some.injEq, List.all_eq_true,
      isLabelChar_iff, Bool.not_eq_true', List.isEmpty_eq_false_iff]
    constructor
    · rintro ⟨⟨rfl, hne, hname⟩, rfl⟩
      exact ⟨name, ⟨rfl, rfl⟩, hne, hname, rfl⟩
    · rintro ⟨_, ⟨rfl, rfl⟩, hne, hname, rfl⟩
      exact ⟨⟨rfl, hne, hname⟩, rfl⟩

/-! ## Whole numbers -/

theorem matches_decimal : Form.decimal.pattern.Matches cs ↔
    ∃ sign digits, cs = sign ++ digits ∧ (sign = [] ∨ sign = ['-']) ∧ Digits 10 digits := by
  simp only [Form.pattern, Pattern.Matches, Pattern.matches_run, ← Text.digits_iff_isDigit, beq_iff_eq]
  simp

/-- The decimal numbers that are read: of digits after a minus sign or none, within the range of words. -/
structure IsDecimal (sign ds : List Char) (v : Word) (x : Int) : Prop where
  digits : Digits 10 ds
  value : sign = [] ∧ x = numeralValue 10 ds ∨ sign = ['-'] ∧ x = -(numeralValue 10 ds : Int)
  low : -2 ^ 31 ≤ x
  high : x < 2 ^ 32
  word : (v.toNat : Int) = x % 2 ^ 32

theorem word?_eq_some_iff {n : Nat} {v : Word} : word? n = some v ↔ v.toNat = n := by
  rw [word?, Option.ite_none_right_eq_some, Option.some.injEq]
  constructor
  · rintro ⟨hlt, rfl⟩
    exact UInt32.toNat_ofNat_of_lt hlt
  · rintro rfl
    exact ⟨v.toNat_lt, UInt32.ofNat_toNat⟩

theorem toNat_neg_eq {n : Nat} (h : n ≤ 0x80000000) : ((-n.toUInt32).toNat : Int) = -(n : Int) % 2 ^ 32 := by
  have hn : n.toUInt32.toNat = n := UInt32.toNat_ofNat_of_lt (show n < 2 ^ 32 by omega)
  rw [UInt32.toNat_neg, hn, UInt32.size]
  omega

theorem exists_of_decimal? (h : decimal? cs = some token) :
    ∃ sign digits v x, cs = sign ++ digits ∧ token = .integer v ∧ IsDecimal sign digits v x := by
  rw [decimal?] at h
  by_cases hminus : cs.head? = some '-'
  · rw [if_pos hminus] at h
    obtain ⟨digits, rfl⟩ := List.head?_eq_some_iff.1 hminus
    rw [List.tail_cons] at h
    obtain ⟨n, hn, h⟩ := Option.bind_eq_some_iff.1 h
    obtain ⟨hle, htoken⟩ := Option.ite_none_right_eq_some.1 h
    obtain ⟨hdigits, rfl⟩ := (Text.readNumeral?_eq_some_iff (by decide)).1 hn
    cases htoken
    exact ⟨['-'], digits, _, _, rfl, rfl, hdigits, .inr ⟨rfl, rfl⟩, by omega, by omega, toNat_neg_eq hle⟩
  · rw [if_neg hminus] at h
    obtain ⟨n, hn, h⟩ := Option.bind_eq_some_iff.1 h
    obtain ⟨v, hv, rfl⟩ := Option.map_eq_some_iff.1 h
    obtain ⟨hdigits, rfl⟩ := (Text.readNumeral?_eq_some_iff (by decide)).1 hn
    have hvalue := word?_eq_some_iff.1 hv
    have hlt := v.toNat_lt
    exact ⟨[], cs, v, _, rfl, rfl, hdigits, .inl ⟨rfl, rfl⟩, by omega, by omega, by omega⟩

theorem decimal?_append {sign digits : List Char} {v : Word} {x : Int} (h : IsDecimal sign digits v x) :
    decimal? (sign ++ digits) = some (.integer v) := by
  obtain ⟨hdigits, hsign, hlow, hhigh, hv⟩ := h
  have hread := Text.readNumeral?_eq (by decide) hdigits.ne_nil hdigits.lt
  rw [decimal?]
  rcases hsign with ⟨rfl, rfl⟩ | ⟨rfl, rfl⟩
  · have hminus : digits.head? ≠ some '-' := fun hc => by
      have := hdigits.isDigit '-' (List.mem_of_mem_head? hc)
      revert this
      decide
    have hword : word? (numeralValue 10 digits) = some v := word?_eq_some_iff.2 (by omega)
    rw [List.nil_append, if_neg hminus, hread, Option.bind_some, hword, Option.map_some]
  · have hle : numeralValue 10 digits ≤ 0x80000000 := by omega
    have hword : -(numeralValue 10 digits).toUInt32 = v := UInt32.toNat_inj.1 (by have := toNat_neg_eq hle; omega)
    rw [List.singleton_append, List.head?_cons, if_pos rfl, List.tail_cons, hread, Option.bind_some, if_pos hle, hword]

/-- A number whose base is shown by the mark after it. -/
theorem matches_marked {base : Nat} {marks : List Char} (hbase : base ≤ 16) :
    (Pattern.seq (.run fun c => (Text.digitValue? base c).isSome) (.one marks.contains)).Matches cs ↔
      ∃ digits mark, cs = digits ++ [mark] ∧ Digits base digits ∧ mark ∈ marks := by
  have hdigit (c : Char) : (Text.digitValue? base c).isSome = true ↔ Text.digitValue c < base := by
    simp only [Option.isSome_iff_exists, Text.digitValue?_eq_some_iff hbase]
    exact ⟨fun ⟨d, hd, hlt⟩ => hd ▸ hlt, fun h => ⟨_, rfl, h⟩⟩
  simp only [Pattern.Matches, Pattern.matches_run, hdigit, List.contains_iff_mem]
  constructor
  · rintro ⟨digits, _, rfl, ⟨hne, hlt⟩, mark, rfl, hmark⟩
    exact ⟨digits, mark, rfl, ⟨hne, hlt⟩, hmark⟩
  · rintro ⟨digits, mark, rfl, h, hmark⟩
    exact ⟨digits, [mark], rfl, ⟨h.ne_nil, h.lt⟩, mark, rfl, hmark⟩

theorem exists_of_marked? {base : Nat} {marks : List Char} (hbase : base ≤ 16)
    (h : marked? base marks cs = some token) :
    ∃ digits mark v, cs = digits ++ [mark] ∧ mark ∈ marks ∧ Digits base digits ∧ v.toNat = numeralValue base digits ∧
      token = .integer v := by
  rw [marked?] at h
  cases hlast : cs.getLast? with
  | none =>
    rw [hlast] at h
    cases h
  | some mark =>
    rw [hlast] at h
    dsimp only at h
    obtain ⟨hmark, h⟩ := Option.ite_none_right_eq_some.1 h
    obtain ⟨n, hn, h⟩ := Option.bind_eq_some_iff.1 h
    obtain ⟨v, hv, rfl⟩ := Option.map_eq_some_iff.1 h
    obtain ⟨hdigits, rfl⟩ := (Text.readNumeral?_eq_some_iff hbase).1 hn
    exact ⟨_, mark, v, (List.dropLast_append_getLast? mark hlast).symm, by simpa using hmark, hdigits,
      word?_eq_some_iff.1 hv, rfl⟩

theorem marked?_append {base : Nat} {marks digits : List Char} {mark : Char} {v : Word} (hbase : base ≤ 16)
    (h : Digits base digits) (hmark : mark ∈ marks) (hv : v.toNat = numeralValue base digits) :
    marked? base marks (digits ++ [mark]) = some (.integer v) := by
  rw [marked?, List.getLast?_concat]
  dsimp only
  rw [if_pos (by simpa using hmark), List.dropLast_concat, Text.readNumeral?_eq hbase h.ne_nil h.lt, Option.bind_some,
    word?_eq_some_iff.2 hv, Option.map_some]

/-! ## Fractions -/

theorem head?_ne_plus {whole rest : List Char} (hwhole : ∀ c ∈ whole, c.isDigit = true) :
    (whole ++ '.' :: rest).head? ≠ some '+' := by
  cases whole with
  | nil => simp
  | cons c whole =>
    have hc := (Decimal.ne_sign (.inl (hwhole c (List.mem_cons_self ..)))).2
    simpa using hc

/-- A fraction is a decimal with a point that has no plus sign, and a mark after it or none. -/
theorem matches_float : Form.float.pattern.Matches cs ↔ ∃ number mark d, cs = number ++ mark ∧
    Decimal.Fraction number d ∧ number.head? ≠ some '+' ∧ mark ∈ [[], ['f'], ['F']] := by
  constructor
  · rintro ⟨sign, _, rfl, hsign, whole, _, rfl, hwhole, _, _, rfl, ⟨point, rfl, hpoint⟩, fraction, _, rfl, hfraction,
      exponent, mark, rfl, hexponent, hmark⟩
    obtain rfl := beq_iff_eq.1 hpoint
    obtain ⟨k, hk⟩ := Decimal.matches_exponentPattern.1 hexponent
    have hdigits := Text.digits_iff_isDigit.2 (Pattern.matches_run.1 hfraction)
    have hsign : sign = [] ∨ sign = ['-'] := by
      rcases hsign with rfl | ⟨c, rfl, hc⟩
      · exact .inl rfl
      · exact .inr (by rw [beq_iff_eq.1 hc])
    have hisSign : Decimal.IsSign sign := by rcases hsign with rfl | rfl <;> simp [Decimal.IsSign]
    refine ⟨_, mark, _, ?_, .point hisSign hwhole hdigits hk, ?_, Decimal.matches_suffixPattern.1 hmark⟩
    · simp
    · rcases hsign with rfl | rfl
      · exact head?_ne_plus hwhole
      · simp
  · rintro ⟨_, mark, d, rfl, hfraction, hplus, hmark⟩
    cases hfraction with
    | @point sign whole fraction exponent k hsign hwhole hdigits hk =>
      have hsign : sign = [] ∨ sign = ['-'] := by
        simp only [Decimal.IsSign, List.mem_cons, List.not_mem_nil, or_false] at hsign
        rcases hsign with rfl | rfl | rfl
        · exact .inl rfl
        · exact .inr rfl
        · exact absurd rfl hplus
      have hfraction := Pattern.matches_run.2 (Text.digits_iff_isDigit.1 hdigits)
      refine ⟨sign, whole ++ ('.' :: (fraction ++ (exponent ++ mark))), by simp, ?_, whole, _, rfl, hwhole, ['.'], _,
        rfl, ⟨'.', rfl, rfl⟩, fraction, _, rfl, hfraction, exponent, mark, rfl,
        Decimal.matches_exponentPattern.2 ⟨k, hk⟩, Decimal.matches_suffixPattern.2 hmark⟩
      rcases hsign with rfl | rfl
      · exact .inl rfl
      · exact .inr ⟨'-', rfl, rfl⟩

/-- A number with the mark of a fraction after it or none is read by the number alone. -/
theorem float?_append_eq {number mark : List Char} (hmark : mark ∈ [[], ['f'], ['F']])
    (hlast : mark = [] → number.getLast? ≠ some 'f' ∧ number.getLast? ≠ some 'F') :
    float? (number ++ mark) =
      if (Decimal.splitDigits (if number.head? = some '-' then number.tail else number)).2.1.isEmpty then none
      else (Decimal.read? number).map fun d => .float (BinaryFormat.single.nearest d).toUInt32 := by
  have hnumber : (if (number ++ mark).getLast? = some 'f' ∨ (number ++ mark).getLast? = some 'F'
      then (number ++ mark).dropLast else number ++ mark) = number := by
    simp only [List.mem_cons, List.not_mem_nil, or_false] at hmark
    rcases hmark with rfl | rfl | rfl
    · rw [List.append_nil, if_neg (not_or.2 (hlast rfl))]
    · rw [List.getLast?_concat, if_pos (.inl rfl), List.dropLast_concat]
    · rw [List.getLast?_concat, if_pos (.inr rfl), List.dropLast_concat]
  have hhead : (number ++ mark).head? = some '-' ↔ number.head? = some '-' := by
    cases number with
    | nil =>
      simp only [List.mem_cons, List.not_mem_nil, or_false] at hmark
      rcases hmark with rfl | rfl | rfl <;> decide
    | cons c cs => rfl
  rw [float?, hnumber]
  simp only [hhead]

theorem exists_mark (cs : List Char) : ∃ number mark, cs = number ++ mark ∧ mark ∈ [[], ['f'], ['F']] ∧
    (mark = [] → number.getLast? ≠ some 'f' ∧ number.getLast? ≠ some 'F') := by
  by_cases hsmall : cs.getLast? = some 'f'
  · exact ⟨_, ['f'], (List.dropLast_append_getLast? _ hsmall).symm, by simp, by simp⟩
  by_cases hlarge : cs.getLast? = some 'F'
  · exact ⟨_, ['F'], (List.dropLast_append_getLast? _ hlarge).symm, by simp, by simp⟩
  · exact ⟨cs, [], (List.append_nil cs).symm, by simp, fun _ => ⟨hsmall, hlarge⟩⟩

theorem readSign_of_ne_plus {number : List Char} (h : number.head? ≠ some '+') :
    (Decimal.readSign number).2 = if number.head? = some '-' then number.tail else number := by
  cases number with
  | nil => rfl
  | cons c cs =>
    have hplus : c ≠ '+' := fun hc => h (congrArg some hc)
    rw [Decimal.readSign_cons, if_neg hplus]
    by_cases hminus : c = '-' <;> simp [hminus]

theorem exists_of_float? (h : float? cs = some token) : ∃ number mark d, cs = number ++ mark ∧
    Decimal.Fraction number d ∧ number.head? ≠ some '+' ∧ mark ∈ [[], ['f'], ['F']] ∧
      token = .float (BinaryFormat.single.nearest d).toUInt32 := by
  obtain ⟨number, mark, rfl, hmark, hlast⟩ := exists_mark cs
  rw [float?_append_eq hmark hlast, Option.ite_none_left_eq_some] at h
  obtain ⟨hsplit, h⟩ := h
  obtain ⟨d, hd, rfl⟩ := Option.map_eq_some_iff.1 h
  have hplus : number.head? ≠ some '+' := by
    rintro hplus
    obtain ⟨rest, rfl⟩ := List.head?_eq_some_iff.1 hplus
    exact hsplit rfl
  rw [← readSign_of_ne_plus hplus, List.isEmpty_iff] at hsplit
  exact ⟨number, mark, d, rfl, Decimal.fraction_of_read? hd hsplit, hplus, hmark, rfl⟩

theorem float?_append {number mark : List Char} {d : Decimal} (h : Decimal.Fraction number d)
    (hsign : number.head? ≠ some '+') (hmark : mark ∈ [[], ['f'], ['F']]) :
    float? (number ++ mark) = some (.float (BinaryFormat.single.nearest d).toUInt32) := by
  have hlast {c : Char} (hc : Decimal.isNumberChar c = false) : number.getLast? ≠ some c := fun he => by
    have := Decimal.isNumberChar_of_read? h.read? c (List.mem_of_getLast? he)
    rw [hc] at this
    cases this
  rw [float?_append_eq hmark fun _ => ⟨hlast rfl, hlast rfl⟩, ← readSign_of_ne_plus hsign,
    if_neg (by simpa using h.splitDigits_ne), h.read?, Option.map_some]

/-! ## The form of a text -/

theorem matches_of_read? {form : Form} (h : form.read? cs = some token) : form.pattern.Matches cs := by
  cases form with
  | register =>
    obtain ⟨mark, digits, hcs, hmark, hdigits, -⟩ := register?_eq_some_iff.1 h
    exact matches_register.2 ⟨mark, digits, hcs, hmark, hdigits⟩
  | label =>
    obtain ⟨name, hcs, hne, hname, -⟩ := label?_eq_some_iff.1 h
    exact matches_label.2 ⟨name, hcs, hne, hname⟩
  | decimal =>
    obtain ⟨sign, digits, v, x, hcs, -, hdecimal⟩ := exists_of_decimal? h
    refine matches_decimal.2 ⟨sign, digits, hcs, ?_, hdecimal.digits⟩
    exact hdecimal.value.imp And.left And.left
  | hexadecimal =>
    obtain ⟨digits, mark, v, hcs, hmark, hdigits, -⟩ := exists_of_marked? le_rfl h
    exact (matches_marked le_rfl).2 ⟨digits, mark, hcs, hdigits, hmark⟩
  | binary =>
    obtain ⟨digits, mark, v, hcs, hmark, hdigits, -⟩ := exists_of_marked? (by decide) h
    exact (matches_marked (by decide)).2 ⟨digits, mark, hcs, hdigits, hmark⟩
  | float =>
    obtain ⟨number, mark, d, hcs, hfraction, hplus, hmark, -⟩ := exists_of_float? h
    exact matches_float.2 ⟨number, mark, d, hcs, hfraction, hplus, hmark⟩

/-- The only form that a text can have, by its first character, its point and its last character. -/
def onlyForm (cs : List Char) : Form :=
  if cs.head? = some 'r' ∨ cs.head? = some 'R' then .register
  else if cs.head? = some '@' then .label
  else if '.' ∈ cs then .float
  else if cs.getLast? = some 'h' ∨ cs.getLast? = some 'H' then .hexadecimal
  else if cs.getLast? = some 'b' ∨ cs.getLast? = some 'B' then .binary
  else .decimal

/-- The characters of numbers are neither the marks of registers and labels nor, but for the last case, a point. -/
theorem ne_mark_of_digitValue {c : Char} (h : Text.digitValue c < 16) : c ≠ 'r' ∧ c ≠ 'R' ∧ c ≠ '@' ∧ c ≠ '.' := by
  refine ⟨?_, ?_, ?_, ?_⟩ <;> rintro rfl <;> revert h <;> decide

theorem onlyForm_of_forall_ne (hne : ∀ c ∈ cs, c ≠ 'r' ∧ c ≠ 'R' ∧ c ≠ '@' ∧ c ≠ '.') :
    onlyForm cs = if cs.getLast? = some 'h' ∨ cs.getLast? = some 'H' then .hexadecimal
      else if cs.getLast? = some 'b' ∨ cs.getLast? = some 'B' then .binary else .decimal := by
  have hhead {c : Char} (hc : c = 'r' ∨ c = 'R' ∨ c = '@') : cs.head? ≠ some c := fun h => by
    have := hne c (List.mem_of_mem_head? h)
    rcases hc with rfl | rfl | rfl <;> simp at this
  rw [onlyForm, if_neg (not_or.2 ⟨hhead (by simp), hhead (by simp)⟩), if_neg (hhead (by simp)),
    if_neg fun hmem => (hne '.' hmem).2.2.2 rfl]

theorem onlyForm_eq {form : Form} (h : form.pattern.Matches cs) : onlyForm cs = form := by
  cases form with
  | register =>
    obtain ⟨mark, digits, rfl, hmark, -⟩ := matches_register.1 h
    exact if_pos (by simpa using hmark)
  | label =>
    obtain ⟨name, rfl, -⟩ := matches_label.1 h
    rfl
  | decimal =>
    obtain ⟨sign, digits, rfl, hsign, hdigits⟩ := matches_decimal.1 h
    have hlast {c : Char} (hc : 10 ≤ Text.digitValue c) : (sign ++ digits).getLast? ≠ some c := fun he => by
      rw [List.getLast?_append_of_ne_nil _ hdigits.ne_nil] at he
      exact absurd (hdigits.lt c (List.mem_of_getLast? he)) (Nat.not_lt.2 hc)
    rw [onlyForm_of_forall_ne, if_neg (not_or.2 ⟨hlast (by decide), hlast (by decide)⟩),
      if_neg (not_or.2 ⟨hlast (by decide), hlast (by decide)⟩)]
    refine List.forall_mem_append.2 ⟨?_, fun c hc => ne_mark_of_digitValue ((hdigits.lt c hc).trans (by decide))⟩
    rcases hsign with rfl | rfl
    · exact List.forall_mem_nil _
    · exact List.forall_mem_singleton.2 (by decide)
  | hexadecimal =>
    obtain ⟨digits, mark, rfl, hdigits, hmark⟩ := (matches_marked le_rfl).1 h
    rw [onlyForm_of_forall_ne, List.getLast?_concat, if_pos (by simpa using hmark)]
    refine List.forall_mem_append.2 ⟨fun c hc => ne_mark_of_digitValue (hdigits.lt c hc), ?_⟩
    simp only [List.mem_cons, List.not_mem_nil, or_false] at hmark
    rcases hmark with rfl | rfl <;> exact List.forall_mem_singleton.2 (by decide)
  | binary =>
    obtain ⟨digits, mark, rfl, hdigits, hmark⟩ := (matches_marked (by decide)).1 h
    simp only [List.mem_cons, List.not_mem_nil, or_false] at hmark
    have hmark' : mark ≠ 'h' ∧ mark ≠ 'H' := by rcases hmark with rfl | rfl <;> decide
    rw [onlyForm_of_forall_ne, List.getLast?_concat, if_neg (by simpa using hmark'), if_pos (by simpa using hmark)]
    refine List.forall_mem_append.2
      ⟨fun c hc => ne_mark_of_digitValue ((hdigits.lt c hc).trans (by decide)), ?_⟩
    rcases hmark with rfl | rfl <;> exact List.forall_mem_singleton.2 (by decide)
  | float =>
    obtain ⟨number, mark, d, rfl, hfraction, -, hmark⟩ := matches_float.1 h
    -- a fraction starts with a character of a number
    have hhead {c : Char} (hc : Decimal.isNumberChar c = false) : (number ++ mark).head? ≠ some c := fun he => by
      have hne : number ≠ [] := List.ne_nil_of_mem hfraction.point_mem
      rw [List.head?_append_of_ne_nil _ hne] at he
      exact absurd (Decimal.isNumberChar_of_read? hfraction.read? c (List.mem_of_mem_head? he)) (by simp [hc])
    rw [onlyForm, if_neg (not_or.2 ⟨hhead (by decide), hhead (by decide)⟩), if_neg (hhead (by decide)),
      if_pos (List.mem_append_left _ hfraction.point_mem)]

/-- No text has two forms. -/
theorem form_unique {form form' : Form} (h : form.pattern.Matches cs) (h' : form'.pattern.Matches cs) : form = form' :=
  (onlyForm_eq h).symm.trans (onlyForm_eq h')

/-! ## The longest match -/

theorem Form.mem_all (form : Form) : form ∈ Form.all := by cases form <;> decide

theorem mem_beginnings {form : Form} {rest : List Char} :
    (form, rest) ∈ beginnings cs ↔ ∃ front, cs = front ++ rest ∧ form.pattern.Matches front := by
  simp only [beginnings, List.mem_flatMap, List.mem_map, Prod.mk.injEq, Pattern.mem_rests]
  constructor
  · rintro ⟨_, -, _, hrest, rfl, rfl⟩
    exact hrest
  · exact fun hrest => ⟨form, form.mem_all, rest, hrest, rfl, rfl⟩

/-- The longest match takes a beginning that has its form, and no beginning that has a form is longer. -/
theorem longest?_eq_some {form : Form} {rest : List Char} (h : longest? cs = some (form, rest)) :
    ∃ front, cs = front ++ rest ∧ form.pattern.Matches front ∧ ∀ (form' : Form) (front' rest' : List Char),
      cs = front' ++ rest' → form'.pattern.Matches front' → front'.length ≤ front.length := by
  rw [longest?] at h
  obtain ⟨front, hcs, hfront⟩ := mem_beginnings.1 (List.mem_of_find?_eq_some h)
  refine ⟨front, hcs, hfront, fun form' front' rest' hcs' hfront' => ?_⟩
  have hall := List.find?_some h
  have hle : rest.length ≤ rest'.length :=
    of_decide_eq_true (List.all_eq_true.1 hall _ (mem_beginnings.2 ⟨front', hcs', hfront'⟩))
  have hlength := congrArg List.length (hcs.symm.trans hcs')
  rw [List.length_append, List.length_append] at hlength
  omega

/-- A text that has a form is its own longest match. -/
theorem longest?_of_matches {form : Form} (h : form.pattern.Matches cs) : longest? cs = some (form, []) := by
  have hmem : (form, []) ∈ beginnings cs := mem_beginnings.2 ⟨cs, (List.append_nil cs).symm, h⟩
  cases hlongest : longest? cs with
  | none =>
    have hnot := List.find?_eq_none.1 hlongest _ hmem
    simp at hnot
  | some taken =>
    obtain ⟨form', rest⟩ := taken
    obtain ⟨front, rfl, hfront, hmax⟩ := longest?_eq_some hlongest
    have hle := hmax form (front ++ rest) [] (List.append_nil _).symm h
    obtain rfl : rest = [] := List.eq_nil_of_length_eq_zero (by rw [List.length_append] at hle; omega)
    rw [List.append_nil] at h
    rw [form_unique h hfront]

theorem next?_of_matches {form : Form} (h : form.pattern.Matches cs) : next? cs = some (form.read? cs, []) := by
  have hlongest := longest?_of_matches h
  cases cs with
  | nil => cases hlongest
  | cons c cs =>
    rw [next?, hlongest]
    dsimp only
    rw [List.length_nil, Nat.sub_zero, List.take_length]

/-- A word is an operand exactly if one of the readers reads all of it. -/
theorem classify?_eq_some_iff {word : String} :
    classify? word = some token ↔ ∃ form : Form, form.read? word.toList = some token := by
  rw [classify?]
  constructor
  · intro h
    cases hnext : next? word.toList with
    | none =>
      rw [hnext] at h
      cases h
    | some next =>
      rw [hnext] at h
      obtain ⟨_ | token', rest⟩ := next
      · cases h
      dsimp only at h
      obtain ⟨hend, h⟩ := Option.ite_none_right_eq_some.1 h
      cases h
      -- nothing follows the token, so it is all of the word
      cases rest with
      | cons d rest =>
        rw [next?] at hend
        split at hend <;> cases hend
      | nil =>
        generalize word.toList = cs at hnext
        cases cs with
        | nil => cases hnext
        | cons c cs =>
          rw [next?] at hnext
          cases hlongest : longest? (c :: cs) with
          | none =>
            rw [hlongest] at hnext
            cases hnext
          | some taken =>
            obtain ⟨form, rest⟩ := taken
            rw [hlongest] at hnext
            obtain ⟨hread, rfl⟩ := Prod.mk.inj (Option.some.inj hnext)
            rw [List.length_nil, Nat.sub_zero, List.take_length] at hread
            exact ⟨form, hread⟩
  · rintro ⟨form, hread⟩
    rw [next?_of_matches (matches_of_read? hread), hread]
    rfl

end WordMachine.Assembly.OperandToken
