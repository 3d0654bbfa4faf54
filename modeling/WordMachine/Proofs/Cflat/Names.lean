/-
Names among the tokens that stand alone. A name starts with a letter or an underscore, which starts neither a
string nor a number with a base of its own nor a real number. A decimal numeral may have underscores anywhere
among its digits, in front of them too: so names that are made of underscores and digits are taken for
numbers, and these are all the names that are not read as variables.
-/
import WordMachine.Cflat.Literal
import Mathlib.Data.List.Basic

namespace WordMachine.Cflat

/-! ## Letters -/

namespace Token

theorem isDigit_of_isLetter {c : Char} (h : isLetter c = true) : c.isDigit = false := by
  rcases Bool.or_eq_true_iff.1 h with hletter | hunderscore
  · refine Bool.eq_false_iff.2 fun hdigit => ?_
    have hle : c.toNat ≤ 57 := UInt32.le_iff_toNat_le.1 (of_decide_eq_true (Bool.and_eq_true_iff.1 hdigit).2)
    have hge : 65 ≤ c.toNat := by
      rcases Bool.or_eq_true_iff.1 hletter with hupper | hlower
      · exact UInt32.le_iff_toNat_le.1 (of_decide_eq_true hupper).1
      · have hge : 97 ≤ c.toNat := UInt32.le_iff_toNat_le.1 (of_decide_eq_true (Bool.and_eq_true_iff.1 hlower).1)
        omega
    omega
  · obtain rfl := beq_iff_eq.1 hunderscore
    rfl

theorem ne_of_isLetter {c x : Char} (h : isLetter c = true) (hx : isLetter x = false) : c ≠ x := by
  rintro rfl
  rw [h] at hx
  cases hx

/-- The text of a name starts with a letter. -/
theorem exists_letter_of_isIdentifier {t : Token} (h : t.isIdentifier = true) :
    ∃ c cs, t.toList = c :: cs ∧ isLetter c = true := by
  unfold isIdentifier at h
  cases ht : t.toList with
  | nil =>
    rw [ht] at h
    cases h
  | cons c cs =>
    rw [ht] at h
    exact ⟨c, cs, rfl, (Bool.and_eq_true_iff.1 h).1⟩

end Token

/-! ## Forms that start otherwise -/

section

variable {c : Char} (hc : Token.isLetter c = true) (cs : List Char)

include hc

theorem withBase?_of_isLetter : NumberForm.withBase? (c :: cs) = none := by
  unfold NumberForm.withBase?
  split
  · rename_i heq
    exact absurd (List.cons.inj heq).1 (Token.ne_of_isLetter hc (by decide))
  · rfl

/-- Neither a sign nor a digit nor a point starts a text with a letter in front. -/
theorem real?_of_isLetter : NumberForm.real? (c :: cs) = none := by
  have hminus := Token.ne_of_isLetter hc (x := '-') (by decide)
  have hplus := Token.ne_of_isLetter hc (x := '+') (by decide)
  have hpoint := Token.ne_of_isLetter hc (x := '.') (by decide)
  have hdigit := Token.isDigit_of_isLetter hc
  have hrests : realPattern.rests (c :: cs) = [] := by
    simp [realPattern, Decimal.signPattern, Decimal.mantissaPattern, Text.Pattern.run, Text.Pattern.rests, hminus,
      hplus, hpoint, hdigit]
  rw [NumberForm.real?, Text.Pattern.covers, hrests]
  rfl

theorem dropSign_of_isLetter : dropSign (c :: cs) = c :: cs := by
  unfold dropSign
  split
  · rename_i heq
    exact absurd (List.cons.inj heq).1 (Token.ne_of_isLetter hc (by decide))
  · rename_i heq
    exact absurd (List.cons.inj heq).1 (Token.ne_of_isLetter hc (by decide))
  · rfl

/-- A text with a letter in front is read as a number if its characters but for an `L` at the end are decimal
digits. -/
theorem read?_of_isLetter : NumberForm.read? (c :: cs) =
    if allOf isDecimalDigit (dropLong (c :: cs)) then some (.integer 10 false (dropLong (c :: cs))) else none := by
  have hminus : ((c :: cs).head? == some '-') = false :=
    beq_false_of_ne fun h => Token.ne_of_isLetter hc (by decide) (Option.some.inj h)
  have hdecimal : NumberForm.decimal? (c :: cs) =
      if allOf isDecimalDigit (dropLong (c :: cs)) then some (.integer 10 false (dropLong (c :: cs))) else none := by
    unfold NumberForm.decimal?
    dsimp only
    rw [dropSign_of_isLetter hc, hminus]
  rw [NumberForm.read?, withBase?_of_isLetter hc, real?_of_isLetter hc, hdecimal]
  split <;> rfl

end

/-! ## Numerals with an underscore in front -/

/-- The text is an underscore with digits and more underscores after it, and perhaps an `L` at the end. -/
structure Underscored (cs digits : List Char) : Prop where
  decimal : ∀ c ∈ digits, isDecimalDigit c = true
  text : cs = '_' :: digits ∨ cs = '_' :: (digits ++ ['L']) ∨ cs = '_' :: (digits ++ ['l'])

theorem Underscored.dropLong_eq {cs digits : List Char} (h : Underscored cs digits) : dropLong cs = '_' :: digits := by
  have hchars : ∀ c ∈ '_' :: digits, isDecimalDigit c = true := List.forall_mem_cons.2 ⟨rfl, h.decimal⟩
  unfold dropLong
  rcases h.text with rfl | rfl | rfl
  · rw [if_neg]
    rintro (hlast | hlast)
    · exact absurd (hchars _ (List.mem_of_getLast? hlast)) (by decide)
    · exact absurd (hchars _ (List.mem_of_getLast? hlast)) (by decide)
  · rw [← List.cons_append, List.getLast?_concat, if_pos (.inl rfl), List.dropLast_concat]
  · rw [← List.cons_append, List.getLast?_concat, if_pos (.inr rfl), List.dropLast_concat]

theorem Underscored.allOf_eq {cs digits : List Char} (h : Underscored cs digits) :
    allOf isDecimalDigit (dropLong cs) = true := by
  rw [h.dropLong_eq, allOf, Bool.and_eq_true, List.all_eq_true]
  exact ⟨rfl, List.forall_mem_cons.2 ⟨rfl, h.decimal⟩⟩

/-- A letter among the decimal digits is an underscore. -/
theorem underscored_of_allOf {c : Char} {cs : List Char} (hc : Token.isLetter c = true)
    (h : allOf isDecimalDigit (dropLong (c :: cs)) = true) : ∃ digits, Underscored (c :: cs) digits := by
  obtain ⟨hne, hall⟩ := Bool.and_eq_true_iff.1 h
  rw [List.all_eq_true] at hall
  have hfirst (hc' : isDecimalDigit c = true) : c = '_' := by
    rcases Bool.or_eq_true_iff.1 hc' with hdigit | hunderscore
    · rw [Token.isDigit_of_isLetter hc] at hdigit
      cases hdigit
    · exact beq_iff_eq.1 hunderscore
  unfold dropLong at hne hall
  split at hall
  · rename_i hlast
    rw [if_pos hlast] at hne
    rcases List.eq_nil_or_concat cs with rfl | ⟨digits, last, rfl⟩
    · cases hne
    · rw [List.concat_eq_append] at hall hlast ⊢
      rw [← List.cons_append, List.dropLast_concat] at hall
      rw [← List.cons_append, List.getLast?_concat] at hlast
      obtain rfl := hfirst (hall c (List.mem_cons_self ..))
      refine ⟨digits, fun d hd => hall d (List.mem_cons_of_mem _ hd), .inr ?_⟩
      rcases hlast with hlast | hlast
      · exact .inl (by rw [Option.some.inj hlast])
      · exact .inr (by rw [Option.some.inj hlast])
  · obtain rfl := hfirst (hall c (List.mem_cons_self ..))
    exact ⟨cs, fun d hd => hall d (List.mem_cons_of_mem _ hd), .inl rfl⟩

/-! ## Names -/

theorem stringBody?_of_isLetter {t : Token} {c : Char} {cs : List Char} (ht : t.toList = c :: cs)
    (hc : Token.isLetter c = true) : stringBody? t = none := by
  unfold stringBody?
  rw [ht]
  split
  · rename_i heq
    exact absurd (List.cons.inj heq).1 (Token.ne_of_isLetter hc (by decide))
  · rfl

/-- A name that is no number is a variable, and a name that is one has the number's value. -/
theorem read_of_isIdentifier {t : Token} (h : t.isIdentifier = true) (htrue : t ≠ "true") (hfalse : t ≠ "false") :
    Leaf.read t = (NumberForm.read? t.toList).elim (.ok (.variable t)) fun form => (form.literal t).map .literal := by
  obtain ⟨c, cs, ht, hc⟩ := Token.exists_letter_of_isIdentifier h
  rw [Leaf.read, stringBody?_of_isLetter ht hc, if_neg htrue, if_neg hfalse]
  cases NumberForm.read? t.toList with
  | none => exact if_pos h
  | some form =>
    dsimp only [Option.elim_some]
    cases form.literal t <;> rfl

/-- A name is read as the variable of this name if and only if it is no numeral with an underscore in front;
such a numeral is read as the number of its digits, and refused as too large if it has none. -/
theorem read_identifier_iff {t : Token} (h : t.isIdentifier = true) (htrue : t ≠ "true") (hfalse : t ≠ "false") :
    (Leaf.read t = .ok (.variable t) ↔ ¬∃ digits, Underscored t.toList digits) ∧
      ∀ digits, Underscored t.toList digits → Leaf.read t =
        (NumberForm.integerValue? 10 false digits).elim (.error (.overflow t)) fun n => .ok (.literal (.int n)) := by
  obtain ⟨c, cs, ht, hc⟩ := Token.exists_letter_of_isIdentifier h
  have hread := read_of_isIdentifier h htrue hfalse
  rw [ht, read?_of_isLetter hc] at hread
  have hnumber : ∀ digits, Underscored t.toList digits → Leaf.read t =
      (NumberForm.integerValue? 10 false digits).elim (.error (.overflow t)) fun n => .ok (.literal (.int n)) := by
    intro digits hdigits
    rw [ht] at hdigits
    rw [if_pos hdigits.allOf_eq, hdigits.dropLong_eq, Option.elim_some, NumberForm.literal] at hread
    -- the underscore in front counts no more than those among the digits
    have hvalue : NumberForm.integerValue? 10 false ('_' :: digits) = NumberForm.integerValue? 10 false digits := rfl
    rw [hread, hvalue]
    cases NumberForm.integerValue? 10 false digits <;> rfl
  refine ⟨⟨?_, fun hno => ?_⟩, hnumber⟩
  · rintro hvariable ⟨digits, hdigits⟩
    rw [hnumber digits hdigits] at hvariable
    cases hvalue : NumberForm.integerValue? 10 false digits with
    | none =>
      rw [hvalue] at hvariable
      cases hvariable
    | some value =>
      rw [hvalue] at hvariable
      cases hvariable
  · rw [hread, if_neg]
    · rfl
    · intro hall
      exact hno (ht ▸ underscored_of_allOf hc hall)

/-- A name with a digit at its end is a variable; one without letters has a value. -/
theorem read_identifier_iff_counter :
    Leaf.read "counter_2" = .ok (.variable "counter_2") ∧ Leaf.read "_1_0L" = .ok (.literal (.int 10)) := by
  constructor
  · refine (read_identifier_iff (by decide) (by decide) (by decide)).1.2 ?_
    rintro ⟨digits, -, h⟩
    rcases h with h | h | h <;> cases (List.cons.inj h).1
  · have hdigits : Underscored "_1_0L".toList ['1', '_', '0'] := ⟨List.all_eq_true.1 rfl, .inr (.inl rfl)⟩
    rw [(read_identifier_iff (by decide) (by decide) (by decide)).2 _ hdigits]
    rfl

/-- An underscore alone is a name, but it is refused as a number that is too large. -/
theorem read_underscore : Token.isIdentifier "_" = true ∧ Leaf.read "_" = .error (.overflow "_") := by
  decide

end WordMachine.Cflat
