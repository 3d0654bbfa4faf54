/-
Rounding to the nearest binary floating-point number, a tie going to the even pattern. The bit patterns of a format
are numbered in the order of their values; the pattern of infinity counts as the power of two after the largest
number, which is how the rule for overflow is usually put. The bits that a decimal is given are those of the
nearest number, and there is only one such pattern.
-/
import WordMachine.Decimal.Nearest
import Mathlib.Algebra.Order.Field.Power
import Mathlib.Data.Nat.Cast.Order.Field
import Mathlib.Data.Rat.Cast.Order
import Mathlib.Tactic.FieldSimp
import Mathlib.Tactic.Linarith
import Mathlib.Tactic.NormNum
import Mathlib.Tactic.Positivity
import Mathlib.Tactic.Ring

namespace WordMachine

/-- The number without its sign. -/
def Decimal.magnitude (d : Decimal) : ℚ := d.digits * (10 : ℚ) ^ d.exponent

namespace BinaryFormat

variable {f : BinaryFormat}

/-! ## Values -/

/-- The value of a bit pattern without a sign: below the first power of two the fraction counts by itself, above it
after a leading one. -/
def valueOf (f : BinaryFormat) (bits : Nat) : ℚ :=
  if bits < 2 ^ f.fractionBits then bits * (2 : ℚ) ^ f.leastUnit
  else ((2 ^ f.fractionBits + bits % 2 ^ f.fractionBits : Nat) : ℚ) *
    (2 : ℚ) ^ (f.leastUnit + (bits / 2 ^ f.fractionBits - 1 : Nat))

/-- The significand stands in the low bits, and what is left of the exponent above it; a significand of the next
power of two carries into the exponent. -/
theorem valueOf_add {k s : Nat} (hs : s ≤ 2 * 2 ^ f.fractionBits) (hk : k = 0 ∨ 2 ^ f.fractionBits ≤ s) :
    f.valueOf (k * 2 ^ f.fractionBits + s) = s * (2 : ℚ) ^ (f.leastUnit + k) := by
  have hpos : 0 < 2 ^ f.fractionBits := Nat.two_pow_pos _
  unfold valueOf
  generalize 2 ^ f.fractionBits = b at hs hk hpos
  by_cases hlow : s < b
  · obtain rfl : k = 0 := by omega
    simp [hlow]
  have hge : ¬k * b + s < b := by
    have := Nat.zero_le (k * b)
    omega
  rw [if_neg hge]
  by_cases hcarry : s = 2 * b
  · subst hcarry
    have hdiv : (k * b + 2 * b) / b = k + 2 := by
      rw [← Nat.add_mul, Nat.mul_div_cancel _ hpos]
    have hmod : (k * b + 2 * b) % b = 0 := by
      rw [← Nat.add_mul, Nat.mul_mod_left]
    rw [hdiv, hmod, show k + 2 - 1 = k + 1 by omega, Nat.cast_add k 1, ← add_assoc, zpow_add₀ two_ne_zero _ (1 : Nat)]
    push_cast
    ring
  · obtain ⟨t, rfl⟩ : ∃ t, s = b + t := ⟨s - b, by omega⟩
    have ht : t < b := by omega
    have hsplit : k * b + (b + t) = t + b * (k + 1) := by ring
    rw [hsplit, Nat.add_mul_div_left _ _ hpos, Nat.add_mul_mod_self_left, Nat.div_eq_of_lt ht, Nat.mod_eq_of_lt ht]
    simp

/-- Every pattern has a significand that may still grow by one. -/
theorem exists_significand (f : BinaryFormat) (bits : Nat) :
    ∃ k s, bits = k * 2 ^ f.fractionBits + s ∧ s + 1 ≤ 2 * 2 ^ f.fractionBits ∧ (k = 0 ∨ 2 ^ f.fractionBits ≤ s) := by
  have hpos : 0 < 2 ^ f.fractionBits := Nat.two_pow_pos _
  generalize 2 ^ f.fractionBits = b at hpos
  by_cases hlow : bits < b
  · exact ⟨0, bits, by simp, by omega, .inl rfl⟩
  · have hdiv : 1 ≤ bits / b := (Nat.one_le_div_iff hpos).2 (Nat.not_lt.1 hlow)
    have hmod := Nat.mod_lt bits hpos
    refine ⟨bits / b - 1, b + bits % b, ?_, by omega, .inr (Nat.le_add_right _ _)⟩
    calc bits = b * (bits / b) + bits % b := (Nat.div_add_mod bits b).symm
      _ = b * (bits / b - 1 + 1) + bits % b := by rw [Nat.sub_add_cancel hdiv]
      _ = (bits / b - 1) * b + (b + bits % b) := by ring

theorem valueOf_lt_succ (bits : Nat) : f.valueOf bits < f.valueOf (bits + 1) := by
  obtain ⟨k, s, rfl, hs, hk⟩ := f.exists_significand bits
  have hk' : k = 0 ∨ 2 ^ f.fractionBits ≤ s + 1 := hk.imp id Nat.le_succ_of_le
  rw [Nat.add_assoc, valueOf_add hs hk', valueOf_add (Nat.le_of_succ_le hs) hk]
  have hunit : (0 : ℚ) < (2 : ℚ) ^ (f.leastUnit + k) := by positivity
  push_cast
  linarith

theorem valueOf_strictMono (f : BinaryFormat) : StrictMono f.valueOf := strictMono_nat_of_lt_succ valueOf_lt_succ

/-! ## The nearest pattern -/

/-- The pattern of the number nearest to `x`; of two that are as near, the even one. -/
structure IsNearest (f : BinaryFormat) (x : ℚ) (bits : Nat) : Prop where
  le_infinity : bits ≤ f.infinity
  closest : ∀ other ≤ f.infinity, |f.valueOf bits - x| ≤ |f.valueOf other - x|
  even : ∀ other ≤ f.infinity, other ≠ bits → |f.valueOf other - x| = |f.valueOf bits - x| → bits % 2 = 0

/-- A number between two neighbours is nearest to one of them. -/
theorem isNearest_of_between {x : ℚ} {low bits : Nat} (hlow : low < f.infinity) (hle : f.valueOf low ≤ x)
    (hlt : x < f.valueOf (low + 1))
    (hbits : bits = low ∧ x - f.valueOf low ≤ f.valueOf (low + 1) - x ∧
        (x - f.valueOf low = f.valueOf (low + 1) - x → low % 2 = 0) ∨
      bits = low + 1 ∧ f.valueOf (low + 1) - x ≤ x - f.valueOf low ∧
        (x - f.valueOf low = f.valueOf (low + 1) - x → (low + 1) % 2 = 0)) : f.IsNearest x bits := by
  have hmono := f.valueOf_strictMono
  -- the distance of any other number is that of the neighbour on its side, and more
  have hbelow : ∀ other ≤ low, |f.valueOf other - x| = x - f.valueOf other := fun other h => by
    have := hmono.monotone h
    rw [abs_of_nonpos (by linarith), neg_sub]
  have habove : ∀ other, low + 1 ≤ other → |f.valueOf other - x| = f.valueOf other - x := fun other h => by
    have := hmono.monotone h
    exact abs_of_nonneg (by linarith)
  rcases hbits with ⟨rfl, hdist, htie⟩ | ⟨rfl, hdist, htie⟩
  · refine ⟨hlow.le, fun other _ => ?_, fun other _ hne heq => htie ?_⟩ <;>
      rw [hbelow bits le_rfl] at * <;> rcases Nat.lt_or_ge bits other with h | h
    · rw [habove other h]
      linarith [hmono.monotone (Nat.succ_le_of_lt h)]
    · rw [hbelow other h]
      linarith [hmono.monotone h]
    · rw [habove other h] at heq
      linarith [hmono.monotone (Nat.succ_le_of_lt h)]
    · rw [hbelow other h] at heq
      linarith [hmono (lt_of_le_of_ne h hne)]
  · refine ⟨hlow, fun other _ => ?_, fun other _ hne heq => htie ?_⟩ <;>
      rw [habove (low + 1) le_rfl] at * <;> rcases Nat.lt_or_ge low other with h | h
    · rw [habove other h]
      linarith [hmono.monotone (Nat.succ_le_of_lt h)]
    · rw [hbelow other h]
      linarith [hmono.monotone h]
    · rw [habove other h] at heq
      linarith [hmono (lt_of_le_of_ne (Nat.succ_le_of_lt h) (Ne.symm hne))]
    · rw [hbelow other h] at heq
      linarith [hmono.monotone h]

/-- A number past the largest overflows. -/
theorem isNearest_infinity {x : ℚ} (h : f.valueOf f.infinity ≤ x) : f.IsNearest x f.infinity := by
  have hdist : ∀ other ≤ f.infinity, |f.valueOf other - x| = x - f.valueOf other := fun other ho => by
    have := f.valueOf_strictMono.monotone ho
    rw [abs_of_nonpos (by linarith), neg_sub]
  refine ⟨le_rfl, fun other ho => ?_, fun other ho hne heq => ?_⟩
  · rw [hdist other ho, hdist _ le_rfl]
    linarith [f.valueOf_strictMono.monotone ho]
  · rw [hdist other ho, hdist _ le_rfl] at heq
    linarith [f.valueOf_strictMono (lt_of_le_of_ne ho hne)]

/-- Two nearest patterns are both even, and the pattern between them would be nearer. -/
theorem IsNearest.not_lt {x : ℚ} {a b : Nat} (ha : f.IsNearest x a) (hb : f.IsNearest x b) : ¬a < b := by
  intro hlt
  have heq : |f.valueOf a - x| = |f.valueOf b - x| :=
    le_antisymm (ha.closest b hb.le_infinity) (hb.closest a ha.le_infinity)
  have heven := ha.even b hb.le_infinity hlt.ne' heq.symm
  have heven' := hb.even a ha.le_infinity hlt.ne heq
  have hmiddle := ha.closest (a + 1) (by have := hb.le_infinity; omega)
  have hleft := f.valueOf_strictMono (Nat.lt_succ_self a)
  have hright : f.valueOf (a + 1) < f.valueOf b := f.valueOf_strictMono (by omega)
  rcases abs_eq_abs.1 heq with h | h
  · linarith
  · rw [abs_of_nonpos (by linarith)] at hmiddle
    rcases abs_cases (f.valueOf (a + 1) - x) with ⟨h', -⟩ | ⟨h', -⟩ <;> linarith

theorem IsNearest.unique {x : ℚ} {a b : Nat} (ha : f.IsNearest x a) (hb : f.IsNearest x b) : a = b :=
  Nat.le_antisymm (Nat.not_lt.1 (hb.not_lt ha)) (Nat.not_lt.1 (ha.not_lt hb))

/-! ## Rounding a quotient -/

theorem shiftLeft_div_shiftLeft (num den : Nat) (e : Int) :
    ((num <<< (-e).toNat : Nat) : ℚ) / (den <<< e.toNat : Nat) = num / den / (2 : ℚ) ^ e := by
  rw [Nat.shiftLeft_eq, Nat.shiftLeft_eq]
  push_cast
  rcases le_total 0 e with he | he
  · obtain ⟨n, rfl⟩ := Int.eq_ofNat_of_zero_le he
    simp [div_div]
  · obtain ⟨n, hn⟩ := Int.eq_ofNat_of_zero_le (Int.neg_nonneg.2 he)
    obtain rfl : e = -(n : Int) := by omega
    simp [mul_div_right_comm]

theorem powTwoLe_iff {e : Int} {num den : Nat} (hden : 0 < den) :
    powTwoLe e num den = true ↔ (2 : ℚ) ^ e ≤ num / den := by
  have hshift : 0 < ((den <<< e.toNat : Nat) : ℚ) := by
    rw [Nat.shiftLeft_eq]
    positivity
  have hunit : (0 : ℚ) < (2 : ℚ) ^ e := by positivity
  rw [powTwoLe, decide_eq_true_iff, ← one_le_div hunit, ← shiftLeft_div_shiftLeft, one_le_div hshift, Nat.cast_le]

theorem log2_bounds {n : Nat} (h : 0 < n) :
    (2 : ℚ) ^ (Nat.log2 n : Int) ≤ n ∧ (n : ℚ) < (2 : ℚ) ^ ((Nat.log2 n : Int) + 1) := by
  have hself := Nat.log2_self_le h.ne'
  have hlt := Nat.lt_log2_self (n := n)
  refine ⟨?_, ?_⟩
  · rw [zpow_natCast]
    exact_mod_cast hself
  · rw [← Nat.cast_succ, zpow_natCast]
    exact_mod_cast hlt

theorem floorLog2_bounds {num den : Nat} (hnum : 0 < num) (hden : 0 < den) :
    (2 : ℚ) ^ floorLog2 num den ≤ num / den ∧ (num / den : ℚ) < (2 : ℚ) ^ (floorLog2 num den + 1) := by
  obtain ⟨hnum₁, hnum₂⟩ := log2_bounds hnum
  obtain ⟨hden₁, hden₂⟩ := log2_bounds hden
  have hden₀ : (0 : ℚ) < den := by exact_mod_cast hden
  -- the difference of the logarithms is the exponent sought or the one above it
  have hupper : (num / den : ℚ) < (2 : ℚ) ^ ((Nat.log2 num : Int) - Nat.log2 den + 1) := by
    rw [div_lt_iff₀ hden₀]
    calc (num : ℚ) < (2 : ℚ) ^ ((Nat.log2 num : Int) + 1) := hnum₂
      _ = (2 : ℚ) ^ ((Nat.log2 num : Int) - Nat.log2 den + 1) * (2 : ℚ) ^ (Nat.log2 den : Int) := by
        rw [← zpow_add₀ two_ne_zero]; congr 1; ring
      _ ≤ _ := by gcongr
  have hlower : (2 : ℚ) ^ ((Nat.log2 num : Int) - Nat.log2 den - 1) ≤ num / den := by
    rw [le_div_iff₀ hden₀]
    calc (2 : ℚ) ^ ((Nat.log2 num : Int) - Nat.log2 den - 1) * den
        ≤ (2 : ℚ) ^ ((Nat.log2 num : Int) - Nat.log2 den - 1) * (2 : ℚ) ^ ((Nat.log2 den : Int) + 1) := by gcongr
      _ = (2 : ℚ) ^ (Nat.log2 num : Int) := by rw [← zpow_add₀ two_ne_zero]; congr 1; ring
      _ ≤ num := hnum₁
  unfold floorLog2
  dsimp only
  by_cases h : powTwoLe ((Nat.log2 num : Int) - Nat.log2 den) num den = true
  · rw [if_pos h]
    exact ⟨(powTwoLe_iff hden).1 h, hupper⟩
  · rw [if_neg h, Int.sub_add_cancel]
    exact ⟨hlower, not_le.1 fun hle => h ((powTwoLe_iff hden).2 hle)⟩

/-- Twice a quotient is to the middle between its floor and the next number as twice the remainder to the divisor. -/
theorem two_mul_div_sub (num : Nat) {den : Nat} (hden : 0 < den) :
    2 * (num / den : ℚ) - (2 * (num / den : Nat) + 1) = (2 * (num % den : Nat) - den) / den := by
  have hden₀ : (den : ℚ) ≠ 0 := by exact_mod_cast hden.ne'
  have hdiv : (num : ℚ) = den * (num / den : Nat) + (num % den : Nat) := by
    exact_mod_cast (Nat.div_add_mod num den).symm
  field_simp
  linarith

/-- A whole number nearest to `y`, given its floor; a half goes to the even neighbour. -/
def RoundsTo (y : ℚ) (floor rounded : Nat) : Prop :=
  rounded = floor ∧ 2 * y ≤ 2 * floor + 1 ∧ (2 * y = 2 * floor + 1 → floor % 2 = 0) ∨
    rounded = floor + 1 ∧ 2 * (floor : ℚ) + 1 ≤ 2 * y ∧ (2 * y = 2 * floor + 1 → floor % 2 = 1)

theorem roundsTo_roundDiv (num : Nat) {den : Nat} (hden : 0 < den) :
    RoundsTo (num / den) (num / den) (roundDiv num den) := by
  have hden₀ : (0 : ℚ) < den := by exact_mod_cast hden
  have hmiddle := two_mul_div_sub num hden
  have htie : 2 * (num / den : ℚ) = 2 * (num / den : Nat) + 1 → 2 * (num % den) = den := fun h => by
    rw [h, sub_self, eq_comm, div_eq_zero_iff, or_iff_left hden₀.ne', sub_eq_zero] at hmiddle
    exact_mod_cast hmiddle
  have hround : roundDiv num den =
      if den < 2 * (num % den) ∨ 2 * (num % den) = den ∧ num / den % 2 = 1 then num / den + 1 else num / den := by
    simp [roundDiv]
  rw [hround]
  by_cases hup : den < 2 * (num % den) ∨ 2 * (num % den) = den ∧ num / den % 2 = 1
  · rw [if_pos hup]
    have hle : den ≤ 2 * (num % den) := by omega
    have hnonneg : (0 : ℚ) ≤ 2 * (num % den : Nat) - den := sub_nonneg.2 (by exact_mod_cast hle)
    exact .inr ⟨rfl, sub_nonneg.1 (hmiddle ▸ div_nonneg hnonneg hden₀.le), fun h => by have := htie h; omega⟩
  · rw [if_neg hup]
    have hle : 2 * (num % den) ≤ den := by omega
    have hnonpos : (2 * (num % den : Nat) - den : ℚ) ≤ 0 := sub_nonpos.2 (by exact_mod_cast hle)
    exact .inl ⟨rfl, sub_nonpos.1 (hmiddle ▸ div_nonpos_of_nonpos_of_nonneg hnonpos hden₀.le),
      fun h => by have := htie h; omega⟩

/-- The unit that a quotient is rounded to leaves at most one bit more than the fraction has, and exactly one unless
the quotient is among the smallest numbers. -/
theorem unit_bounds (f : BinaryFormat) {num den : Nat} (hnum : 0 < num) (hden : 0 < den) {unit : Int}
    (hunit : unit = max (floorLog2 num den - f.fractionBits) f.leastUnit) :
    (num / den / (2 : ℚ) ^ unit : ℚ) < 2 * 2 ^ f.fractionBits ∧
      (unit = f.leastUnit ∨ (2 ^ f.fractionBits : ℚ) ≤ num / den / (2 : ℚ) ^ unit) := by
  obtain ⟨hlower, hupper⟩ := floorLog2_bounds hnum hden
  have hpos : (0 : ℚ) < (2 : ℚ) ^ unit := by positivity
  refine ⟨?_, ?_⟩
  · rw [div_lt_iff₀ hpos]
    refine hupper.trans_le ?_
    calc (2 : ℚ) ^ (floorLog2 num den + 1) ≤ (2 : ℚ) ^ (1 + (f.fractionBits : Int) + unit) :=
          zpow_le_zpow_right₀ one_le_two (by omega)
      _ = 2 * 2 ^ f.fractionBits * (2 : ℚ) ^ unit := by
        rw [zpow_add₀ two_ne_zero, zpow_add₀ two_ne_zero, zpow_one, zpow_natCast]
  · refine or_iff_not_imp_left.2 fun hne => ?_
    rw [le_div_iff₀ hpos]
    refine le_trans ?_ hlower
    rw [← zpow_natCast, ← zpow_add₀ two_ne_zero]
    exact zpow_le_zpow_right₀ one_le_two (by omega)

/-- A number of units, rounded to a whole number of them, is put together to the nearest pattern. -/
theorem isNearest_of_roundsTo (hf : 0 < f.fractionBits) {k floor rounded : Nat} {y : ℚ}
    (hround : RoundsTo y floor rounded) (hle : (floor : ℚ) ≤ y) (hlt : y < floor + 1)
    (hhigh : y < 2 * 2 ^ f.fractionBits) (hnormal : k = 0 ∨ (2 ^ f.fractionBits : ℚ) ≤ y) :
    f.IsNearest (y * (2 : ℚ) ^ (f.leastUnit + k)) (min f.infinity (k * 2 ^ f.fractionBits + rounded)) := by
  have hunit : (0 : ℚ) < (2 : ℚ) ^ (f.leastUnit + k) := by positivity
  have hfloor : floor < 2 * 2 ^ f.fractionBits := by exact_mod_cast hle.trans_lt hhigh
  have hk : k = 0 ∨ 2 ^ f.fractionBits ≤ floor := hnormal.imp id fun h =>
    Nat.lt_succ_iff.1 (by exact_mod_cast h.trans_lt hlt)
  have hk' : k = 0 ∨ 2 ^ f.fractionBits ≤ floor + 1 := hk.imp id Nat.le_succ_of_le
  have hvalue := valueOf_add hfloor.le hk
  have hvalue' : f.valueOf (k * 2 ^ f.fractionBits + floor + 1) = (floor + 1) * (2 : ℚ) ^ (f.leastUnit + k) := by
    rw [Nat.add_assoc, valueOf_add hfloor hk', Nat.cast_succ]
  have hparity : (k * 2 ^ f.fractionBits + floor) % 2 = floor % 2 := by
    obtain ⟨n, hn⟩ := Nat.exists_eq_succ_of_ne_zero hf.ne'
    rw [hn, Nat.pow_succ, ← Nat.mul_assoc]
    omega
  rcases Nat.lt_or_ge (k * 2 ^ f.fractionBits + floor) f.infinity with hinf | hinf
  · refine isNearest_of_between hinf ?_ ?_ ?_
    · rw [hvalue]
      gcongr
    · rw [hvalue']
      gcongr
    · rw [hvalue, hvalue', ← sub_mul, ← sub_mul, mul_le_mul_iff_left₀ hunit, mul_le_mul_iff_left₀ hunit,
        mul_left_inj' hunit.ne']
      rcases hround with ⟨rfl, hdist, htie⟩ | ⟨rfl, hdist, htie⟩
      · refine .inl ⟨by omega, by linarith, fun h => ?_⟩
        rw [hparity]
        exact htie (by linarith)
      · refine .inr ⟨by omega, by linarith, fun h => ?_⟩
        have := htie (by linarith)
        omega
  · -- the floor itself is past the largest number
    have hover : f.infinity ≤ k * 2 ^ f.fractionBits + rounded := by
      rcases hround with ⟨h, -⟩ | ⟨h, -⟩ <;> omega
    rw [min_eq_left hover]
    refine isNearest_infinity ((f.valueOf_strictMono.monotone hinf).trans ?_)
    rw [hvalue]
    gcongr

theorem isNearest_nearestRatio (hf : 0 < f.fractionBits) {num den : Nat} (hnum : 0 < num) (hden : 0 < den) :
    f.IsNearest (num / den) (f.nearestRatio num den) := by
  obtain ⟨unit, hunit⟩ : ∃ unit, unit = max (floorLog2 num den - f.fractionBits) f.leastUnit := ⟨_, rfl⟩
  obtain ⟨k, hk⟩ : ∃ k : Nat, unit = f.leastUnit + k := ⟨(unit - f.leastUnit).toNat, by omega⟩
  obtain ⟨hhigh, hnormal⟩ := f.unit_bounds hnum hden hunit
  have hden' : 0 < den <<< unit.toNat := by
    rw [Nat.shiftLeft_eq]
    positivity
  have hround := roundsTo_roundDiv (num <<< (-unit).toNat) hden'
  have hlt : ((num <<< (-unit).toNat : Nat) : ℚ) / (den <<< unit.toNat : Nat) <
      (num <<< (-unit).toNat / den <<< unit.toNat : Nat) + 1 := by
    rw [div_lt_iff₀ (by exact_mod_cast hden')]
    exact_mod_cast Nat.lt_mul_of_div_lt (Nat.lt_succ_self _) hden'
  have hle : ((num <<< (-unit).toNat / den <<< unit.toNat : Nat) : ℚ) ≤
      (num <<< (-unit).toNat : Nat) / (den <<< unit.toNat : Nat) := Nat.cast_div_le
  rw [shiftLeft_div_shiftLeft] at hround hlt hle
  have hzero : unit = f.leastUnit → k = 0 := fun h => by omega
  have hnearest := isNearest_of_roundsTo hf hround hle hlt hhigh (hnormal.imp hzero id)
  rw [← hk, div_mul_cancel₀ _ (by positivity)] at hnearest
  rw [nearestRatio, ← hunit, Nat.shiftLeft_eq, show (unit - f.leastUnit).toNat = k by omega]
  exact hnearest

/-! ## Rounding a decimal -/

/-- A number of at most half the smallest one underflows. -/
theorem isNearest_zero {x : ℚ} (hnonneg : 0 ≤ x) (h : 2 * x ≤ f.valueOf 1) : f.IsNearest x 0 := by
  have hzero : f.valueOf 0 = 0 := by simp [valueOf]
  refine ⟨Nat.zero_le _, fun other _ => ?_, fun _ _ _ _ => rfl⟩
  rw [hzero, zero_sub, abs_neg, abs_of_nonneg hnonneg]
  rcases Nat.eq_zero_or_pos other with rfl | hpos
  · rw [hzero, zero_sub, abs_neg]
    exact le_abs_self x
  · have hle := f.valueOf_strictMono.monotone (Nat.succ_le_of_lt hpos)
    exact le_trans (by linarith) (le_abs_self _)

/-- A format with a fraction whose numbers lie where decimals are rounded. -/
structure InRange (f : BinaryFormat) : Prop where
  fractionBits_pos : 0 < f.fractionBits
  small : 2 * (10 : ℚ) ^ (-400 : Int) ≤ f.valueOf 1
  large : f.valueOf f.infinity ≤ (10 : ℚ) ^ (400 : Int)

theorem toDigits_bounds {n : Nat} (h : 0 < n) :
    (10 : ℚ) ^ ((Nat.toDigits 10 n).length - 1 : Int) ≤ n ∧
      (n : ℚ) < (10 : ℚ) ^ ((Nat.toDigits 10 n).length : Int) := by
  have hpos : 0 < (Nat.toDigits 10 n).length := Nat.length_toDigits_pos
  have hupper := (Nat.length_toDigits_le_iff (by decide) hpos).1 (le_refl (Nat.toDigits 10 n).length)
  obtain ⟨k, hk⟩ := Nat.exists_eq_add_one_of_ne_zero hpos.ne'
  have hlower : 10 ^ k ≤ n := by
    rcases Nat.eq_zero_or_pos k with rfl | hk₀
    · exact h
    · exact Nat.not_lt.1 fun hlt => by have := (Nat.length_toDigits_le_iff (by decide) hk₀).2 hlt; omega
  refine ⟨?_, ?_⟩
  · rw [hk, Nat.cast_succ, add_sub_cancel_right, zpow_natCast]
    exact_mod_cast hlower
  · rw [zpow_natCast]
    exact_mod_cast hupper

theorem mul_pow_div_pow (digits : Nat) (exponent : Int) :
    ((digits * Nat.pow 10 exponent.toNat : Nat) : ℚ) / (Nat.pow 10 (-exponent).toNat : Nat) =
      digits * (10 : ℚ) ^ exponent := by
  rw [Nat.pow_eq, Nat.pow_eq]
  push_cast
  rcases le_total 0 exponent with he | he
  · obtain ⟨n, rfl⟩ := Int.eq_ofNat_of_zero_le he
    simp
  · obtain ⟨n, hn⟩ := Int.eq_ofNat_of_zero_le (Int.neg_nonneg.2 he)
    obtain rfl : exponent = -(n : Int) := by omega
    simp [div_eq_mul_inv]

theorem isNearest_nearestMagnitude (hf : f.InRange) (digits : Nat) (exponent : Int) :
    f.IsNearest (digits * (10 : ℚ) ^ exponent) (f.nearestMagnitude digits exponent) := by
  have hpower : (0 : ℚ) < (10 : ℚ) ^ exponent := by positivity
  unfold nearestMagnitude
  by_cases hzero : digits = 0
  · subst hzero
    rw [if_pos rfl]
    have hone := (f.valueOf_strictMono (Nat.zero_lt_one)).le
    exact isNearest_zero (by simp) (by simpa [valueOf] using hone)
  rw [if_neg hzero]
  dsimp only
  obtain ⟨hlower, hupper⟩ := toDigits_bounds (Nat.pos_of_ne_zero hzero)
  by_cases hsmall : ((Nat.toDigits 10 digits).length + exponent : Int) < -400
  · rw [if_pos hsmall]
    refine isNearest_zero (by positivity) (le_trans ?_ hf.small)
    have hbound : (digits : ℚ) * (10 : ℚ) ^ exponent ≤ (10 : ℚ) ^ (-400 : Int) := by
      calc (digits : ℚ) * (10 : ℚ) ^ exponent
          ≤ (10 : ℚ) ^ ((Nat.toDigits 10 digits).length : Int) * (10 : ℚ) ^ exponent := by gcongr
        _ = (10 : ℚ) ^ ((Nat.toDigits 10 digits).length + exponent : Int) := (zpow_add₀ (by norm_num) _ _).symm
        _ ≤ _ := zpow_le_zpow_right₀ (by norm_num) hsmall.le
    linarith
  rw [if_neg hsmall]
  by_cases hlarge : 400 < ((Nat.toDigits 10 digits).length + exponent : Int)
  · rw [if_pos hlarge]
    refine isNearest_infinity (hf.large.trans ?_)
    calc (10 : ℚ) ^ (400 : Int) ≤ (10 : ℚ) ^ ((Nat.toDigits 10 digits).length - 1 + exponent : Int) :=
          zpow_le_zpow_right₀ (by norm_num) (by omega)
      _ = (10 : ℚ) ^ ((Nat.toDigits 10 digits).length - 1 : Int) * (10 : ℚ) ^ exponent := zpow_add₀ (by norm_num) _ _
      _ ≤ _ := by gcongr
  · rw [if_neg hlarge, ← mul_pow_div_pow]
    exact isNearest_nearestRatio hf.fractionBits_pos (Nat.mul_pos (Nat.pos_of_ne_zero hzero) (Nat.pow_pos (by decide)))
      (Nat.pow_pos (by decide))

theorem single_inRange : single.InRange where
  fractionBits_pos := by decide
  small := by
    have hone : single.valueOf 1 = (2 : ℚ) ^ (-149 : Int) := by
      rw [valueOf, if_pos (by decide), Nat.cast_one, one_mul]
      rfl
    calc 2 * (10 : ℚ) ^ (-400 : Int) ≤ 2 * (10 : ℚ) ^ (-50 : Int) := by
          gcongr <;> norm_num
      _ ≤ single.valueOf 1 := by rw [hone]; norm_num
  large := by
    have hinfinity : single.infinity = 254 * 2 ^ single.fractionBits + 2 ^ single.fractionBits := by decide
    have hvalue : single.valueOf single.infinity = (2 ^ 23 : Nat) * (2 : ℚ) ^ (105 : Int) := by
      rw [hinfinity, valueOf_add (by omega) (.inr le_rfl)]
      rfl
    calc single.valueOf single.infinity ≤ (10 : ℚ) ^ (50 : Int) := by rw [hvalue]; norm_num
      _ ≤ (10 : ℚ) ^ (400 : Int) := by gcongr <;> norm_num

/-- The bits of a decimal are those with its sign that are nearest to it in single precision. -/
theorem nearest_single_eq_iff {d : Decimal} {bits : UInt32} :
    (single.nearest d).toUInt32 = bits ↔
      ∃ m, single.IsNearest d.magnitude m ∧ bits.toNat = (if d.negative then 2 ^ 31 else 0) + m := by
  have hnearest : single.IsNearest d.magnitude _ := isNearest_nearestMagnitude single_inRange d.digits d.exponent
  have hle : single.nearestMagnitude d.digits d.exponent ≤ 0x7F800000 := hnearest.le_infinity
  have hsign : single.signBit d.negative = if d.negative then 2 ^ 31 else 0 := rfl
  have hbits : (single.nearest d).toUInt32.toNat =
      (if d.negative then 2 ^ 31 else 0) + single.nearestMagnitude d.digits d.exponent := by
    rw [nearest, hsign, Nat.toUInt32_eq, UInt32.toNat_ofNat', Nat.mod_eq_of_lt]
    cases d.negative <;> simp only [Bool.false_eq_true, if_false, if_true] <;> omega
  constructor
  · rintro rfl
    exact ⟨_, hnearest, hbits⟩
  · rintro ⟨m, hm, h⟩
    rw [hm.unique hnearest] at h
    exact UInt32.toNat_inj.1 (hbits.trans h.symm)

end BinaryFormat

end WordMachine
