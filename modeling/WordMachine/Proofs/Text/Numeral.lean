/-
Numerals: a text is read in a base exactly if it consists of digits of the base, as the sum of their values times the
powers of the base, and the digits that a number is written with have the number as their value.
-/
import WordMachine.Proofs.Text.LetterCase
import WordMachine.Text.Numeral
import Mathlib.Data.Nat.Digits.Defs
import Mathlib.Tactic.IntervalCases
import Mathlib.Tactic.Ring

namespace WordMachine.Text

variable {base : Nat}

/-! ## Values of digits -/

/-- The value of a digit: its place among the digits, whatever the case of a letter. -/
def digitValue (c : Char) : Nat := "0123456789abcdef".toList.idxOf c.toLower

/-- The number that digits write, the first of them counting most. -/
def numeralValue (base : Nat) (digits : List Char) : Nat := Nat.ofDigits base (digits.map digitValue).reverse

theorem toLower_mem_of_digitValue {c : Char} (h : digitValue c < 16) : c.toLower ∈ "0123456789abcdef".toList :=
  List.idxOf_lt_length_iff.1 h

theorem toNat_lt_of_digitValue {c : Char} (h : digitValue c < 16) : c.toNat < 128 := by
  have hall : "0123456789abcdef".toList.all (·.toNat < 128) = true := by decide
  have hlower : c.toLower.toNat < 128 := of_decide_eq_true (List.all_eq_true.1 hall _ (toLower_mem_of_digitValue h))
  rcases toLower_cases c with hc | ⟨n, hn, hc, -⟩
  · rwa [hc] at hlower
  · rw [hc]
    interval_cases n <;> decide

/-- A digit of a base has the same value in every smaller base that has it. -/
theorem digitValue?_of_lt {base' value : Nat} {c : Char} (hvalue : value < base)
    (h : digitValue? base' c = some value) : digitValue? base c = some value := by
  have hpick (n : Nat) (h : (if n < base' then some n else none) = some value) :
      (if n < base then some n else none) = some value := by
    rw [Option.ite_none_right_eq_some] at h
    rw [Option.some.inj h.2, if_pos hvalue]
  unfold digitValue? at h ⊢
  dsimp only at h ⊢
  by_cases hdigit : ('0' ≤ c && c ≤ '9') = true
  · rw [if_pos hdigit] at h ⊢
    exact hpick _ h
  rw [if_neg hdigit] at h ⊢
  by_cases hsmall : ('a' ≤ c && c ≤ 'z') = true
  · rw [if_pos hsmall] at h ⊢
    exact hpick _ h
  rw [if_neg hsmall] at h ⊢
  by_cases hlarge : ('A' ≤ c && c ≤ 'Z') = true
  · rw [if_pos hlarge] at h ⊢
    exact hpick _ h
  · rw [if_neg hlarge, if_neg (lt_irrefl base')] at h
    cases h

theorem digitValue?_eq {c : Char} (hbase : base ≤ 16) (h : digitValue c < base) :
    digitValue? base c = some (digitValue c) := by
  have hall : "0123456789abcdef".toList.all
      (fun d => digitValue? 16 d == some ("0123456789abcdef".toList.idxOf d)) = true := by decide
  have hc : digitValue? 16 c = some (digitValue c) := by
    rw [← digitValue?_toLower]
    exact beq_iff_eq.1 (List.all_eq_true.1 hall _ (toLower_mem_of_digitValue (by omega)))
  exact digitValue?_of_lt h hc

theorem readDigitsFrom_eq {cs : List Char} (hbase : base ≤ 16) (h : ∀ c ∈ cs, digitValue c < base) (start : Nat) :
    readDigitsFrom base start cs = some (numeralValue base cs + base ^ cs.length * start) := by
  induction cs generalizing start with
  | nil => simp [readDigitsFrom, numeralValue]
  | cons c cs ih =>
    rw [List.forall_mem_cons] at h
    rw [readDigitsFrom, digitValue?_eq hbase h.1]
    dsimp only
    rw [ih h.2]
    simp only [numeralValue, List.map_cons, List.reverse_cons, Nat.ofDigits_append, Nat.ofDigits_singleton,
      List.length_reverse, List.length_map, List.length_cons]
    congr 1
    ring

/-- Digits of a base are read as the number that they write. -/
theorem readNumeral?_eq {cs : List Char} (hbase : base ≤ 16) (hne : cs ≠ []) (h : ∀ c ∈ cs, digitValue c < base) :
    readNumeral? base cs = some (numeralValue base cs) := by
  rw [readNumeral?, if_neg (by simpa using hne), readDigitsFrom_eq hbase h, Nat.mul_zero, Nat.add_zero]

/-! ## What is read -/

/-- One or more digits of a base. -/
structure Digits (base : Nat) (cs : List Char) : Prop where
  ne_nil : cs ≠ []
  lt : ∀ c ∈ cs, digitValue c < base

theorem lt_of_digitValue? {c : Char} {d : Nat} (h : digitValue? base c = some d) : d < base := by
  unfold digitValue? at h
  obtain ⟨hlt, hd⟩ := Option.ite_none_right_eq_some.1 h
  rw [← Option.some.inj hd]
  exact hlt

theorem toNat_lt_of_digitValue? {c : Char} {d : Nat} (h : digitValue? base c = some d) : c.toNat < 128 := by
  have hle {bound : Char} (hc : c ≤ bound) : c.toNat ≤ bound.toNat := UInt32.le_iff_toNat_le.1 (Char.le_def.1 hc)
  unfold digitValue? at h
  obtain ⟨hvalue, -⟩ := Option.ite_none_right_eq_some.1 h
  by_cases hdigit : ('0' ≤ c && c ≤ '9') = true
  · exact (hle (of_decide_eq_true (Bool.and_eq_true_iff.1 hdigit).2)).trans_lt (by decide)
  rw [if_neg hdigit] at hvalue
  by_cases hsmall : ('a' ≤ c && c ≤ 'z') = true
  · exact (hle (of_decide_eq_true (Bool.and_eq_true_iff.1 hsmall).2)).trans_lt (by decide)
  rw [if_neg hsmall] at hvalue
  by_cases hlarge : ('A' ≤ c && c ≤ 'Z') = true
  · exact (hle (of_decide_eq_true (Bool.and_eq_true_iff.1 hlarge).2)).trans_lt (by decide)
  rw [if_neg hlarge] at hvalue
  exact absurd hvalue (lt_irrefl base)

theorem digitValue_eq_of_digitValue? {c : Char} {d : Nat} (h : digitValue? 16 c = some d) : digitValue c = d := by
  have hall : (List.range 128).all (fun n => (digitValue? 16 (Char.ofNat n)).all
      (digitValue (Char.ofNat n) == ·)) = true := by decide +kernel
  have hc := List.all_eq_true.1 hall _ (List.mem_range.2 (toNat_lt_of_digitValue? h))
  rw [Char.ofNat_toNat, h] at hc
  exact beq_iff_eq.1 hc

theorem digitValue?_eq_some_iff (hbase : base ≤ 16) {c : Char} {d : Nat} :
    digitValue? base c = some d ↔ digitValue c = d ∧ d < base := by
  constructor
  · intro h
    have hlt := lt_of_digitValue? h
    exact ⟨digitValue_eq_of_digitValue? (digitValue?_of_lt (hlt.trans_le hbase) h), hlt⟩
  · rintro ⟨rfl, hlt⟩
    exact digitValue?_eq hbase hlt

theorem digitValue_lt_of_readDigitsFrom (hbase : base ≤ 16) {cs : List Char} {start n : Nat}
    (h : readDigitsFrom base start cs = some n) : ∀ c ∈ cs, digitValue c < base := by
  induction cs generalizing start with
  | nil => exact fun c hc => by cases hc
  | cons c cs ih =>
    rw [readDigitsFrom] at h
    cases hd : digitValue? base c with
    | none =>
      rw [hd] at h
      cases h
    | some d =>
      rw [hd] at h
      obtain ⟨rfl, hlt⟩ := (digitValue?_eq_some_iff hbase).1 hd
      exact List.forall_mem_cons.2 ⟨hlt, ih h⟩

/-- A numeral is read exactly if it consists of digits, as their value. -/
theorem readNumeral?_eq_some_iff (hbase : base ≤ 16) {cs : List Char} {n : Nat} :
    readNumeral? base cs = some n ↔ Digits base cs ∧ numeralValue base cs = n := by
  constructor
  · intro h
    have hne : cs ≠ [] := fun he => by
      rw [he] at h
      cases h
    have hread := h
    rw [readNumeral?, if_neg (by simpa using hne)] at hread
    have hlt := digitValue_lt_of_readDigitsFrom hbase hread
    rw [readNumeral?_eq hbase hne hlt] at h
    exact ⟨⟨hne, hlt⟩, Option.some.inj h⟩
  · rintro ⟨hdigits, rfl⟩
    exact readNumeral?_eq hbase hdigits.ne_nil hdigits.lt

theorem isDigit_iff {c : Char} : c.isDigit = true ↔ digitValue c < 10 := by
  have hall : (List.range 128).all
      (fun n => (Char.ofNat n).isDigit == decide (digitValue (Char.ofNat n) < 10)) = true := by decide +kernel
  have heq (hc : c.toNat < 128) : c.isDigit = decide (digitValue c < 10) := by
    have := List.all_eq_true.1 hall _ (List.mem_range.2 hc)
    rw [Char.ofNat_toNat] at this
    exact beq_iff_eq.1 this
  constructor
  · intro h
    have hle : c.toNat ≤ 57 := UInt32.le_iff_toNat_le.1 (of_decide_eq_true (Bool.and_eq_true_iff.1 h).2)
    exact of_decide_eq_true ((heq (by omega)).symm.trans h)
  · intro h
    rw [heq (toNat_lt_of_digitValue (by omega)), decide_eq_true h]

theorem digits_iff_isDigit {cs : List Char} : Digits 10 cs ↔ cs ≠ [] ∧ ∀ c ∈ cs, c.isDigit = true := by
  simp only [isDigit_iff]
  exact ⟨fun h => ⟨h.ne_nil, h.lt⟩, fun h => ⟨h.1, h.2⟩⟩

theorem Digits.isDigit {cs : List Char} (h : Digits 10 cs) : ∀ c ∈ cs, c.isDigit = true := (digits_iff_isDigit.1 h).2

/-! ## The numerals of a number -/

theorem numeralValue_append (xs ys : List Char) :
    numeralValue base (xs ++ ys) = numeralValue base xs * base ^ ys.length + numeralValue base ys := by
  rw [numeralValue, List.map_append, List.reverse_append, Nat.ofDigits_append, List.length_reverse, List.length_map,
    Nat.add_comm, Nat.mul_comm]
  rfl

theorem numeralValue_singleton (c : Char) : numeralValue base [c] = digitValue c := Nat.ofDigits_singleton ..

theorem numeralValue_zeros (k : Nat) : numeralValue base (List.replicate k '0') = 0 := by
  induction k with
  | zero => rfl
  | succ k ih =>
    rw [List.replicate_succ', numeralValue_append, ih, Nat.zero_mul, Nat.zero_add, numeralValue_singleton]
    decide

theorem Digits.zeros_append (hbase : 0 < base) {cs : List Char} (h : Digits base cs) (k : Nat) :
    Digits base (List.replicate k '0' ++ cs) := by
  have hzero : digitValue '0' = 0 := by decide
  refine ⟨fun he => h.ne_nil (List.append_eq_nil_iff.1 he).2, List.forall_mem_append.2 ⟨fun c hc => ?_, h.lt⟩⟩
  rw [(List.mem_replicate.1 hc).2, hzero]
  exact hbase

theorem digitValue_digitChar {n : Nat} (h : n < 16) : digitValue n.digitChar = n := by
  interval_cases n <;> decide

/-- The digits that a number is written with have it as their value. -/
theorem digits_toDigits (hone : 1 < base) (hbase : base ≤ 16) (n : Nat) :
    Digits base (Nat.toDigits base n) ∧ numeralValue base (Nat.toDigits base n) = n := by
  induction n using Nat.strong_induction_on with
  | _ n ih =>
    by_cases h : n < base
    · have hdigit := digitValue_digitChar (h.trans_le hbase)
      rw [Nat.toDigits_of_lt_base h, numeralValue_singleton, hdigit]
      exact ⟨⟨by simp, List.forall_mem_singleton.2 (by rwa [hdigit])⟩, rfl⟩
    · have hmod : n % base < base := Nat.mod_lt n (by omega)
      have hdigit := digitValue_digitChar (hmod.trans_le hbase)
      obtain ⟨hdigits, hvalue⟩ := ih (n / base) (Nat.div_lt_self (by omega) hone)
      rw [Nat.toDigits_of_base_le hone (Nat.not_lt.1 h), numeralValue_append, numeralValue_singleton, hvalue, hdigit]
      refine ⟨⟨by simp, List.forall_mem_append.2 ⟨hdigits.lt, List.forall_mem_singleton.2 (by rwa [hdigit])⟩⟩, ?_⟩
      rw [List.length_singleton, Nat.pow_one, Nat.div_add_mod']

/-- The digits of a number after some zeros. -/
def zerosAndDigits (base zeros n : Nat) : List Char := List.replicate zeros '0' ++ Nat.toDigits base n

theorem digits_zerosAndDigits (hone : 1 < base) (hbase : base ≤ 16) (zeros n : Nat) :
    Digits base (zerosAndDigits base zeros n) ∧ numeralValue base (zerosAndDigits base zeros n) = n := by
  obtain ⟨hdigits, hvalue⟩ := digits_toDigits hone hbase n
  refine ⟨hdigits.zeros_append (by omega) zeros, ?_⟩
  rw [zerosAndDigits, numeralValue_append, numeralValue_zeros, hvalue, Nat.zero_mul, Nat.zero_add]

theorem digitValue_toUpper {c : Char} (h : digitValue c < 16) : digitValue c.toUpper = digitValue c := by
  have hall : (List.range 128).all
      (fun n => digitValue (Char.ofNat n).toUpper == digitValue (Char.ofNat n)) = true := by decide +kernel
  have hc := List.all_eq_true.1 hall _ (List.mem_range.2 (toNat_lt_of_digitValue h))
  rw [Char.ofNat_toNat] at hc
  exact beq_iff_eq.1 hc

/-- Capital letters are the same digits. -/
theorem Digits.map_toUpper (hbase : base ≤ 16) {cs : List Char} (h : Digits base cs) :
    Digits base (cs.map Char.toUpper) ∧ numeralValue base (cs.map Char.toUpper) = numeralValue base cs := by
  have hsame : ∀ c ∈ cs, digitValue c.toUpper = digitValue c := fun c hc =>
    digitValue_toUpper ((h.lt c hc).trans_le hbase)
  refine ⟨⟨by simpa using h.ne_nil, List.forall_mem_map.2 fun c hc => ?_⟩, ?_⟩
  · rw [hsame c hc]
    exact h.lt c hc
  · have hvalues : (cs.map Char.toUpper).map digitValue = cs.map digitValue := by
      rw [List.map_map]
      exact List.map_congr_left hsame
    rw [numeralValue, hvalues]
    rfl

theorem toList_decimal (n : Nat) : (toString n).toList = Nat.toDigits 10 n := String.toList_ofList

/-- A hexadecimal number is written by digits that have it as their value. -/
theorem digits_hex (n : Nat) : Digits 16 (hex n).toList ∧ numeralValue 16 (hex n).toList = n := by
  obtain ⟨hdigits, hvalue⟩ := digits_toDigits (by decide : 1 < 16) le_rfl n
  obtain ⟨hupper, hupper'⟩ := hdigits.map_toUpper le_rfl
  rw [hex, String.toList_ofList]
  exact ⟨hupper, hupper'.trans hvalue⟩

theorem isAlphanum_of_digitValue {c : Char} (h : digitValue c < 16) : c.isAlphanum = true := by
  have hall : (List.range 128).all
      (fun n => decide (digitValue (Char.ofNat n) < 16 → (Char.ofNat n).isAlphanum = true)) = true := by decide +kernel
  have hc := of_decide_eq_true (List.all_eq_true.1 hall _ (List.mem_range.2 (toNat_lt_of_digitValue h)))
  rw [Char.ofNat_toNat] at hc
  exact hc h

theorem isAlphanum_of_mem_hex {n : Nat} : ∀ c ∈ (hex n).toList, c.isAlphanum = true :=
  fun c hc => isAlphanum_of_digitValue ((digits_hex n).1.lt c hc)

end WordMachine.Text
