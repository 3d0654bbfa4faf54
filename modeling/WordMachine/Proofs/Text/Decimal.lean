/-
Texts that write decimal numbers: a sign, digits with at most one point among or beside them, and an exponent,
where the sign and the exponent may be missing. These are the texts that are read as a number, and one with digits
after its point stands for the value of its digits times a power of ten.
-/
import WordMachine.Decimal.Basic
import WordMachine.Proofs.Text.Numeral
import WordMachine.Proofs.Text.Pattern
import Mathlib.Data.List.TakeWhile

namespace WordMachine.Decimal

open Text (Digits Pattern numeralValue)

/-! ## Signs -/

def IsSign (cs : List Char) : Prop := cs ∈ [[], ['-'], ['+']]

/-- A sign is taken off a text that does not itself start with one. -/
theorem readSign_append {sign rest : List Char} (hsign : IsSign sign)
    (hrest : ∀ c ∈ rest.head?, c ≠ '-' ∧ c ≠ '+') : readSign (sign ++ rest) = (decide (sign = ['-']), rest) := by
  simp only [IsSign, List.mem_cons, List.not_mem_nil, or_false] at hsign
  rcases hsign with rfl | rfl | rfl
  · cases rest with
    | nil => rfl
    | cons c cs =>
      obtain ⟨hminus, hplus⟩ := hrest c rfl
      rw [List.nil_append, readSign_cons, if_neg hminus, if_neg hplus]
      rfl
  · rfl
  · rfl

theorem ne_sign {c : Char} (h : c.isDigit = true ∨ c = '.') : c ≠ '-' ∧ c ≠ '+' := by
  constructor
  · rintro rfl
    revert h
    decide
  · rintro rfl
    revert h
    decide

theorem exists_sign (cs : List Char) : ∃ sign, IsSign sign ∧ cs = sign ++ (readSign cs).2 := by
  cases cs with
  | nil => exact ⟨[], by simp [IsSign], rfl⟩
  | cons c cs =>
    rw [readSign_cons]
    split
    · rename_i hc
      exact ⟨['-'], by simp [IsSign], by rw [hc]; rfl⟩
    split
    · rename_i hc
      exact ⟨['+'], by simp [IsSign], by rw [hc]; rfl⟩
    · exact ⟨[], by simp [IsSign], rfl⟩

/-! ## Exponents -/

/-- The exponent of a decimal, with its value: nothing, or a mark and a numeral that may have a sign. -/
inductive Exponent : List Char → Int → Prop
  | none : Exponent [] 0
  | mark {mark : Char} {sign ds : List Char} (hmark : mark = 'e' ∨ mark = 'E') (hsign : IsSign sign)
      (h : Digits 10 ds) :
      Exponent (mark :: (sign ++ ds)) (if sign = ['-'] then -(numeralValue 10 ds : Int) else numeralValue 10 ds)

theorem Exponent.readExponent? {cs : List Char} {k : Int} (h : Exponent cs k) : readExponent? cs = some k := by
  cases h with
  | none => rfl
  | @mark mark sign ds hmark hsign h =>
    have htext : (mark == 'e' || mark == 'E') = true := by rcases hmark with rfl | rfl <;> rfl
    have hsplit : readSign (sign ++ ds) = (decide (sign = ['-']), ds) :=
      readSign_append hsign fun c hc => ne_sign (.inl (h.isDigit c (List.mem_of_mem_head? hc)))
    rw [Decimal.readExponent?, if_pos htext, hsplit]
    dsimp only
    rw [Text.readNumeral?_eq (by decide) h.ne_nil h.lt]
    by_cases hminus : sign = ['-'] <;> simp [hminus]

theorem readExponent?_eq_some_iff {cs : List Char} {k : Int} : readExponent? cs = some k ↔ Exponent cs k := by
  refine ⟨fun h => ?_, Exponent.readExponent?⟩
  -- the form alone is enough: a text of this form is read as its own value
  have hexists : ∃ k', Exponent cs k' := by
    cases cs with
    | nil => exact ⟨_, .none⟩
    | cons mark cs =>
      rw [readExponent?] at h
      obtain ⟨hmark, h⟩ := Option.ite_none_right_eq_some.1 h
      obtain ⟨sign, hsign, hcs⟩ := exists_sign cs
      obtain ⟨k, hk, -⟩ := Option.map_eq_some_iff.1 h
      obtain ⟨n, hn, -⟩ := Option.bind_eq_some_iff.1 hk
      rw [hcs]
      exact ⟨_, .mark (by simpa using hmark) hsign ((Text.readNumeral?_eq_some_iff (by decide)).1 hn).1⟩
  obtain ⟨k', hk'⟩ := hexists
  rwa [Option.some.inj (h.symm.trans hk'.readExponent?)]

/-- An exponent starts with its mark, if it is not empty. -/
theorem Exponent.head_ne {cs : List Char} {k : Int} (h : Exponent cs k) :
    ∀ c ∈ cs.head?, c.isDigit = false ∧ c ≠ '.' := by
  cases h with
  | none => exact fun c hc => by cases hc
  | mark hmark _ _ =>
    rintro c ⟨⟩
    rcases hmark with rfl | rfl <;> decide

/-! ## Digits and a point -/

/-- Digits, with or without a point. -/
inductive IsMantissa : List Char → Prop
  | whole {ds : List Char} (h : Digits 10 ds) : IsMantissa ds
  | point {ds es : List Char} (h : Digits 10 (ds ++ es)) : IsMantissa (ds ++ '.' :: es)

/-- Digits are split off where they end. -/
theorem span_digits {ds rest : List Char} (h : ∀ c ∈ ds, c.isDigit = true)
    (hrest : ∀ c ∈ rest.head?, c.isDigit = false) :
    (ds ++ rest).takeWhile Char.isDigit = ds ∧ (ds ++ rest).dropWhile Char.isDigit = rest := by
  rw [List.takeWhile_append_of_pos h, List.dropWhile_append_of_pos h]
  cases rest with
  | nil => simp
  | cons c cs => simp [hrest c rfl]

theorem splitDigits_point {whole fraction exponent : List Char} {k : Int} (hwhole : ∀ c ∈ whole, c.isDigit = true)
    (hfraction : ∀ c ∈ fraction, c.isDigit = true) (hexponent : Exponent exponent k) :
    splitDigits (whole ++ '.' :: (fraction ++ exponent)) = (whole, fraction, exponent) := by
  have hpoint : ∀ c ∈ ('.' :: (fraction ++ exponent)).head?, c.isDigit = false := by
    rintro c ⟨⟩
    rfl
  obtain ⟨htake, hdrop⟩ := span_digits hwhole hpoint
  obtain ⟨htake', hdrop'⟩ := span_digits hfraction fun c hc => (hexponent.head_ne c hc).1
  rw [splitDigits_of_point hdrop, htake, htake', hdrop']

/-- The exponent starts where the digits end. -/
theorem splitDigits_append {mantissa exponent : List Char} {k : Int} (hm : IsMantissa mantissa)
    (he : Exponent exponent k) :
    ∃ ds es, splitDigits (mantissa ++ exponent) = (ds, es, exponent) ∧ Digits 10 (ds ++ es) := by
  cases hm with
  | whole h =>
    obtain ⟨htake, hdrop⟩ := span_digits h.isDigit fun c hc => (he.head_ne c hc).1
    refine ⟨mantissa, [], ?_, by rwa [List.append_nil]⟩
    rw [splitDigits_of_ne, htake, hdrop]
    rw [hdrop]
    exact fun hpoint => (he.head_ne '.' hpoint).2 rfl
  | @point ds es h =>
    refine ⟨ds, es, ?_, h⟩
    rw [List.append_assoc, List.cons_append]
    exact splitDigits_point (fun c hc => h.isDigit c (List.mem_append_left es hc))
      (fun c hc => h.isDigit c (List.mem_append_right ds hc)) he

theorem IsMantissa.head_isDigit {cs rest : List Char} (h : IsMantissa cs) :
    ∀ c ∈ (cs ++ rest).head?, c.isDigit = true ∨ c = '.' := by
  intro c hc
  cases h with
  | whole h =>
    cases cs with
    | nil => exact absurd rfl h.ne_nil
    | cons d ds => cases hc; exact .inl (h.isDigit c (List.mem_cons_self ..))
  | @point ds es h =>
    cases ds with
    | nil => cases hc; exact .inr rfl
    | cons d ds => cases hc; exact .inl (h.isDigit c (List.mem_cons_self ..))

/-- The digits and the rest of a text make up the text. -/
theorem exists_mantissa {cs whole fraction rest : List Char} (h : splitDigits cs = (whole, fraction, rest))
    (hdigits : Digits 10 (whole ++ fraction)) : ∃ mantissa, IsMantissa mantissa ∧ cs = mantissa ++ rest := by
  have hcs : cs.takeWhile Char.isDigit ++ cs.dropWhile Char.isDigit = cs := List.takeWhile_append_dropWhile ..
  by_cases hpoint : (cs.dropWhile Char.isDigit).head? = some '.'
  · obtain ⟨after, hafter⟩ := List.head?_eq_some_iff.1 hpoint
    rw [splitDigits_of_point hafter] at h
    cases h
    refine ⟨_, .point hdigits, ?_⟩
    rw [List.append_assoc, List.cons_append, List.takeWhile_append_dropWhile, ← hafter, hcs]
  · rw [splitDigits_of_ne hpoint] at h
    cases h
    rw [List.append_nil] at hdigits
    exact ⟨_, .whole hdigits, hcs.symm⟩

/-! ## Numbers -/

/-- A text is read through its digits and its exponent. -/
theorem read?_eq_some_iff {cs whole fraction rest : List Char} {negative : Bool} {unsigned : List Char} {d : Decimal}
    (hsign : readSign cs = (negative, unsigned)) (hsplit : splitDigits unsigned = (whole, fraction, rest)) :
    read? cs = some d ↔ Digits 10 (whole ++ fraction) ∧ ∃ k, Exponent rest k ∧
      ⟨negative, numeralValue 10 (whole ++ fraction), k - fraction.length⟩ = d := by
  unfold read?
  rw [hsign]
  dsimp only
  rw [hsplit]
  dsimp only
  constructor
  · intro h
    cases hdigits : Text.readNumeral? 10 (whole ++ fraction) with
    | none =>
      rw [hdigits] at h
      cases h
    | some digits =>
      cases hexponent : readExponent? rest with
      | none =>
        rw [hdigits, hexponent] at h
        cases h
      | some k =>
        rw [hdigits, hexponent] at h
        obtain ⟨hform, rfl⟩ := (Text.readNumeral?_eq_some_iff (by decide)).1 hdigits
        exact ⟨hform, k, readExponent?_eq_some_iff.1 hexponent, Option.some.inj h⟩
  · rintro ⟨hform, k, hexponent, rfl⟩
    rw [Text.readNumeral?_eq (by decide) hform.ne_nil hform.lt, hexponent.readExponent?]

/-- A text that writes a number is read. -/
theorem exists_read? {sign mantissa exponent : List Char} {k : Int} (hs : IsSign sign) (hm : IsMantissa mantissa)
    (he : Exponent exponent k) : ∃ d, read? (sign ++ (mantissa ++ exponent)) = some d := by
  obtain ⟨ds, es, hsplit, hdigits⟩ := splitDigits_append hm he
  have hhead : ∀ c ∈ (mantissa ++ exponent).head?, c.isDigit = true ∨ c = '.' := hm.head_isDigit
  have hsign := readSign_append hs fun c hc => ne_sign (hhead c hc)
  exact ⟨_, (read?_eq_some_iff hsign hsplit).2 ⟨hdigits, k, he, rfl⟩⟩

/-- Only texts that write a number are read. -/
theorem exists_of_read? {cs : List Char} {d : Decimal} (h : read? cs = some d) :
    ∃ sign mantissa exponent k, IsSign sign ∧ IsMantissa mantissa ∧ Exponent exponent k ∧
      cs = sign ++ (mantissa ++ exponent) := by
  obtain ⟨sign, hsign, hcs⟩ := exists_sign cs
  rcases hsplit : splitDigits (readSign cs).2 with ⟨whole, fraction, rest⟩
  obtain ⟨hdigits, k, hexponent, -⟩ := (read?_eq_some_iff rfl hsplit).1 h
  obtain ⟨mantissa, hmantissa, htext⟩ := exists_mantissa hsplit hdigits
  exact ⟨sign, mantissa, rest, k, hsign, hmantissa, hexponent, by rw [hcs, htext]⟩

/-! ## Fractions -/

/-- A decimal with a point and a digit after it, with its value. -/
inductive Fraction : List Char → Decimal → Prop
  | point {sign whole fraction exponent : List Char} {k : Int} (hsign : IsSign sign)
      (hwhole : ∀ c ∈ whole, c.isDigit = true) (hfraction : Digits 10 fraction) (hexponent : Exponent exponent k) :
      Fraction (sign ++ (whole ++ '.' :: (fraction ++ exponent)))
        ⟨sign = ['-'], numeralValue 10 (whole ++ fraction), k - fraction.length⟩

/-- Digits after a point are split off with the point before them. -/
theorem eq_of_splitDigits {cs whole fraction rest : List Char} (h : splitDigits cs = (whole, fraction, rest))
    (hne : fraction ≠ []) : cs = whole ++ '.' :: (fraction ++ rest) ∧ (∀ c ∈ whole, c.isDigit = true) ∧
      Digits 10 fraction := by
  by_cases hpoint : (cs.dropWhile Char.isDigit).head? = some '.'
  · obtain ⟨after, hafter⟩ := List.head?_eq_some_iff.1 hpoint
    rw [splitDigits_of_point hafter] at h
    cases h
    have hdigits : ∀ c ∈ after.takeWhile Char.isDigit, c.isDigit = true := List.all_eq_true.1 List.all_takeWhile
    refine ⟨?_, List.all_eq_true.1 List.all_takeWhile, Text.digits_iff_isDigit.2 ⟨hne, hdigits⟩⟩
    rw [List.takeWhile_append_dropWhile, ← hafter, List.takeWhile_append_dropWhile]
  · rw [splitDigits_of_ne hpoint] at h
    cases h
    exact absurd rfl hne

theorem readSign_point {sign whole rest : List Char} (hsign : IsSign sign) (hwhole : ∀ c ∈ whole, c.isDigit = true) :
    readSign (sign ++ (whole ++ '.' :: rest)) = (decide (sign = ['-']), whole ++ '.' :: rest) := by
  refine readSign_append hsign fun c hc => ne_sign ?_
  cases whole with
  | nil =>
    cases hc
    exact .inr rfl
  | cons d ds =>
    cases hc
    exact .inl (hwhole c (List.mem_cons_self ..))

theorem Fraction.splitDigits_ne {cs : List Char} {d : Decimal} (h : Fraction cs d) :
    (splitDigits (readSign cs).2).2.1 ≠ [] := by
  cases h with
  | point hsign hwhole hfraction hexponent =>
    rw [readSign_point hsign hwhole, splitDigits_point hwhole hfraction.isDigit hexponent]
    exact hfraction.ne_nil

theorem Fraction.read? {cs : List Char} {d : Decimal} (h : Fraction cs d) : read? cs = some d := by
  cases h with
  | @point sign whole fraction exponent k hsign hwhole hfraction hexponent =>
    have hdigits : Digits 10 (whole ++ fraction) := by
      refine Text.digits_iff_isDigit.2 ⟨fun he => hfraction.ne_nil (List.append_eq_nil_iff.1 he).2, ?_⟩
      exact List.forall_mem_append.2 ⟨hwhole, hfraction.isDigit⟩
    exact (read?_eq_some_iff (readSign_point hsign hwhole)
      (splitDigits_point hwhole hfraction.isDigit hexponent)).2 ⟨hdigits, k, hexponent, rfl⟩

theorem Fraction.point_mem {cs : List Char} {d : Decimal} (h : Fraction cs d) : '.' ∈ cs := by
  cases h with
  | point => simp

/-- A text that is read as a decimal, with digits after its point, is a decimal with a point. -/
theorem fraction_of_read? {cs : List Char} {d : Decimal} (h : read? cs = some d)
    (hne : (splitDigits (readSign cs).2).2.1 ≠ []) : Fraction cs d := by
  obtain ⟨sign, hsign, hcs⟩ := exists_sign cs
  -- the form alone is enough: a text of this form is read as its own value
  have hexists : ∃ d', Fraction cs d' := by
    rcases hsplit : splitDigits (readSign cs).2 with ⟨whole, fraction, rest⟩
    rw [hsplit] at hne
    obtain ⟨htext, hwhole, hfraction⟩ := eq_of_splitDigits hsplit hne
    obtain ⟨-, k, hexponent, -⟩ := (read?_eq_some_iff rfl hsplit).1 h
    rw [hcs, htext]
    exact ⟨_, .point hsign hwhole hfraction hexponent⟩
  obtain ⟨d', hd'⟩ := hexists
  rwa [Option.some.inj (h.symm.trans hd'.read?)]

/-! ## Characters -/

/-- The characters that may stand in a number. -/
def isNumberChar (c : Char) : Bool := c.isDigit || ['-', '+', '.', 'e', 'E'].contains c

theorem isNumberChar_of_isSign {cs : List Char} (h : IsSign cs) : ∀ c ∈ cs, isNumberChar c = true := by
  simp only [IsSign, List.mem_cons, List.not_mem_nil, or_false] at h
  rcases h with rfl | rfl | rfl
  · exact fun c hc => by cases hc
  · exact List.forall_mem_singleton.2 rfl
  · exact List.forall_mem_singleton.2 rfl

theorem isNumberChar_of_digits {cs : List Char} (h : Digits 10 cs) : ∀ c ∈ cs, isNumberChar c = true :=
  fun c hc => by rw [isNumberChar, h.isDigit c hc, Bool.true_or]

theorem IsMantissa.isNumberChar {cs : List Char} (h : IsMantissa cs) : ∀ c ∈ cs, isNumberChar c = true := by
  cases h with
  | whole h => exact isNumberChar_of_digits h
  | @point ds es h =>
    have hdigits := isNumberChar_of_digits h
    rw [List.forall_mem_append] at hdigits ⊢
    exact ⟨hdigits.1, List.forall_mem_cons.2 ⟨rfl, hdigits.2⟩⟩

theorem Exponent.isNumberChar {cs : List Char} {k : Int} (h : Exponent cs k) : ∀ c ∈ cs, isNumberChar c = true := by
  cases h with
  | none => exact fun c hc => by cases hc
  | mark hmark hsign h =>
    rw [List.forall_mem_cons, List.forall_mem_append]
    exact ⟨by rcases hmark with rfl | rfl <;> rfl, isNumberChar_of_isSign hsign, isNumberChar_of_digits h⟩

theorem isNumberChar_of_read? {cs : List Char} {d : Decimal} (h : read? cs = some d) :
    ∀ c ∈ cs, isNumberChar c = true := by
  obtain ⟨sign, mantissa, exponent, k, hsign, hmantissa, hexponent, rfl⟩ := exists_of_read? h
  simp only [List.forall_mem_append]
  exact ⟨isNumberChar_of_isSign hsign, hmantissa.isNumberChar, hexponent.isNumberChar⟩

/-! ## Patterns -/

section

variable {cs : List Char}

theorem matches_signPattern : signPattern.Matches cs ↔ IsSign cs := by
  simp only [signPattern, Pattern.Matches, IsSign, List.contains_iff_mem, List.mem_cons, List.not_mem_nil, or_false]
  constructor
  · rintro (rfl | ⟨c, rfl, rfl | rfl⟩) <;> simp
  · rintro (rfl | rfl | rfl) <;> simp

theorem matches_suffixPattern : suffixPattern.Matches cs ↔ cs ∈ [[], ['f'], ['F']] := by
  simp only [suffixPattern, Pattern.Matches, List.contains_iff_mem, List.mem_cons, List.not_mem_nil, or_false]
  constructor
  · rintro (rfl | ⟨c, rfl, rfl | rfl⟩) <;> simp
  · rintro (rfl | rfl | rfl) <;> simp

theorem matches_exponentPattern : (Pattern.optional exponentPattern).Matches cs ↔ ∃ k, Exponent cs k := by
  have hpattern : exponentPattern.Matches cs ↔ ∃ mark sign digits, cs = mark :: (sign ++ digits) ∧
      (mark = 'e' ∨ mark = 'E') ∧ IsSign sign ∧ Digits 10 digits := by
    simp only [exponentPattern, Pattern.matches_seq_one]
    simp only [Pattern.Matches, matches_signPattern, Pattern.matches_run, ← Text.digits_iff_isDigit]
    constructor
    · rintro ⟨mark, _, rfl, hmark, sign, digits, rfl, hsign, hdigits⟩
      exact ⟨mark, sign, digits, rfl, by simpa using hmark, hsign, hdigits⟩
    · rintro ⟨mark, sign, digits, rfl, hmark, hsign, hdigits⟩
      exact ⟨mark, _, rfl, by simpa using hmark, sign, digits, rfl, hsign, hdigits⟩
  rw [Pattern.Matches, hpattern]
  constructor
  · rintro (rfl | ⟨mark, sign, digits, rfl, hmark, hsign, hdigits⟩)
    · exact ⟨_, .none⟩
    · exact ⟨_, .mark hmark hsign hdigits⟩
  · rintro ⟨k, hk⟩
    cases hk with
    | none => exact .inl rfl
    | mark hmark hsign hdigits => exact .inr ⟨_, _, _, rfl, hmark, hsign, hdigits⟩

theorem matches_mantissaPattern : mantissaPattern.Matches cs ↔ IsMantissa cs := by
  constructor
  · rintro (⟨ds, _, rfl, hds, _, es, rfl, ⟨point, rfl, hpoint⟩, hes⟩ | h | hds)
    · obtain rfl := beq_iff_eq.1 hpoint
      obtain ⟨hne, hds⟩ := Pattern.matches_run.1 hds
      exact .point (Text.digits_iff_isDigit.2
        ⟨List.append_ne_nil_of_left_ne_nil hne es, List.forall_mem_append.2 ⟨hds, hes⟩⟩)
    · obtain ⟨point, es, rfl, hpoint, hes⟩ := Pattern.matches_seq_one.1 h
      obtain rfl := beq_iff_eq.1 hpoint
      exact @IsMantissa.point [] es (Text.digits_iff_isDigit.2 (Pattern.matches_run.1 hes))
    · exact .whole (Text.digits_iff_isDigit.2 (Pattern.matches_run.1 hds))
  · rintro (hds | @⟨ds, es, h⟩)
    · exact .inr (.inr (Pattern.matches_run.2 (Text.digits_iff_isDigit.1 hds)))
    · obtain ⟨hne, hall⟩ := Text.digits_iff_isDigit.1 h
      obtain ⟨hds, hes⟩ := List.forall_mem_append.1 hall
      cases ds with
      | nil => exact .inr (.inl (Pattern.matches_seq_one.2 ⟨'.', es, rfl, rfl, Pattern.matches_run.2 ⟨hne, hes⟩⟩))
      | cons d ds =>
        exact .inl ⟨_, _, rfl, Pattern.matches_run.2 ⟨List.cons_ne_nil d ds, hds⟩, ['.'], es, rfl, ⟨'.', rfl, rfl⟩, hes⟩

end

end WordMachine.Decimal

namespace WordMachine.NumberText

/-- A text with the characters of a number has no name. -/
theorem toLower_ne_name {cs : List Char} (h : ∀ c ∈ cs, Decimal.isNumberChar c = true) {name : String}
    (hname : 'n' ∈ name.toList) : String.ofList (cs.map Char.toLower) ≠ name := by
  rintro rfl
  rw [String.toList_ofList, List.mem_map] at hname
  obtain ⟨c, hc, hlower⟩ := hname
  have hchar := h c hc
  simp only [Decimal.isNumberChar, Bool.or_eq_true, List.contains_iff_mem, List.mem_cons, List.not_mem_nil,
    or_false] at hchar
  rcases hchar with hdigit | rfl | rfl | rfl | rfl | rfl
  · rw [← Text.isDigit_toLower, hlower] at hdigit
    cases hdigit
  all_goals exact absurd hlower (by decide)

/-- A decimal is read as the number it is. -/
theorem read_of_read? {cs : List Char} {d : Decimal} (h : Decimal.read? cs = some d) : read cs = .ok (.finite d) := by
  have hchars : ∀ c ∈ (Decimal.readSign cs).2, Decimal.isNumberChar c = true := by
    obtain ⟨sign, -, hcs⟩ := Decimal.exists_sign cs
    intro c hc
    refine Decimal.isNumberChar_of_read? h c ?_
    rw [hcs]
    exact List.mem_append_right sign hc
  have hne : cs.isEmpty = false := by
    cases cs with
    | nil => cases h
    | cons c cs => rfl
  have hname {name : String} (hn : 'n' ∈ name.toList) :
      (String.ofList ((Decimal.readSign cs).2.map Char.toLower) == name) = false :=
    beq_false_of_ne (toLower_ne_name hchars hn)
  rw [read]
  dsimp only
  rw [hne, hname (by decide), hname (by decide), hname (by decide), h]
  rfl

end WordMachine.NumberText
