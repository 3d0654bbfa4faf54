/-
The binary floating-point number nearest to a decimal, as a bit pattern. The quotient is formed in
exact whole-number arithmetic and rounded once, a half going to the even neighbour, so the result is
correctly rounded for every decimal.
-/
import WordMachine.Decimal.Basic

namespace WordMachine

/-- A binary floating-point format: a sign bit, `exponentBits` bits of exponent and `fractionBits`
bits of fraction, with subnormal numbers and an infinity. -/
structure BinaryFormat where
  exponentBits : Nat
  fractionBits : Nat
  deriving Repr, DecidableEq

namespace BinaryFormat

/-- The 32-bit format. -/
def single : BinaryFormat := ⟨8, 23⟩

/-- The 64-bit format. -/
def double : BinaryFormat := ⟨11, 52⟩

/-- The power of two that the last fraction bit of the smallest numbers stands for. -/
def leastUnit (f : BinaryFormat) : Int :=
  2 - (1 <<< (f.exponentBits - 1) : Nat) - (f.fractionBits : Int)

/-- The bits of positive infinity. -/
def infinity (f : BinaryFormat) : Nat := (1 <<< f.exponentBits - 1) <<< f.fractionBits

/-- The bits of the positive value that is no number. -/
def undefined (f : BinaryFormat) : Nat := f.infinity + 1 <<< (f.fractionBits - 1)

/-- The sign bit. -/
def signBit (f : BinaryFormat) (negative : Bool) : Nat :=
  if negative then 1 <<< (f.exponentBits + f.fractionBits) else 0

/-- The whole number nearest to `num / den`, a half going to the even neighbour. -/
def roundDiv (num den : Nat) : Nat :=
  let q := num / den
  let r := num % den
  if den < 2 * r || (2 * r == den && q % 2 == 1) then q + 1 else q

/-- Is `2 ^ e ≤ num / den`? -/
def powTwoLe (e : Int) (num den : Nat) : Bool :=
  den <<< e.toNat ≤ num <<< (-e).toNat

/-- The exponent of the power of two at or just below `num / den`. -/
def floorLog2 (num den : Nat) : Int :=
  let e : Int := (Nat.log2 num : Int) - (Nat.log2 den : Int)
  if powTwoLe e num den then e else e - 1

/-- The bits of the number nearest to `num / den`, both positive. A significand that rounds up to the
next power of two carries into the exponent, and past the largest exponent into infinity. -/
def nearestRatio (f : BinaryFormat) (num den : Nat) : Nat :=
  let unit := max (floorLog2 num den - f.fractionBits) f.leastUnit
  let significand := roundDiv (num <<< (-unit).toNat) (den <<< unit.toNat)
  min f.infinity ((unit - f.leastUnit).toNat <<< f.fractionBits + significand)

/-- The bits of the positive number nearest to `digits · 10 ^ exponent`. Every number of both formats
lies between `10 ^ -400` and `10 ^ 400`, so that a decimal beyond these needs no quotient. -/
def nearestMagnitude (f : BinaryFormat) (digits : Nat) (exponent : Int) : Nat :=
  if digits = 0 then 0
  else
    let magnitude : Int := (Nat.toDigits 10 digits).length + exponent
    if magnitude < -400 then 0
    else if 400 < magnitude then f.infinity
    else f.nearestRatio (digits * Nat.pow 10 exponent.toNat) (Nat.pow 10 (-exponent).toNat)

/-- The bits of the number nearest to a decimal. -/
def nearest (f : BinaryFormat) (d : Decimal) : Nat :=
  f.signBit d.negative + f.nearestMagnitude d.digits d.exponent

/-- The bits of the number nearest to what a text says. -/
def ofNumberText (f : BinaryFormat) : NumberText → Nat
  | .finite value => f.nearest value
  | .infinite negative => f.signBit negative + f.infinity
  | .undefined negative => f.signBit negative + f.undefined

end BinaryFormat

end WordMachine
