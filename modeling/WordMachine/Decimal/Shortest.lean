/-
The shortest decimal that reads back as a given 64-bit floating-point number, and its text.

The reals that round to a number `m · 2 ^ q` form an interval around it. Counting digits upwards
from one, the first decimal grid with a point in the interval gives the digits; of two points the
nearer is taken, and the upper one of two that are equally near.
-/
import WordMachine.Decimal.Nearest

namespace WordMachine

/-- A 64-bit floating-point number, by its bits. -/
structure Double where
  bits : UInt64
  deriving Repr, DecidableEq

namespace Double

/-- The number nearest to what a text says. -/
def ofNumberText (number : NumberText) : Double := ⟨(BinaryFormat.double.ofNumberText number).toUInt64⟩

/-! ## Fields -/

def negative (x : Double) : Bool := x.bits >>> 63 == 1

def biasedExponent (x : Double) : Nat := ((x.bits >>> 52) &&& 0x7FF).toNat

def fraction (x : Double) : Nat := (x.bits &&& 0xFFFFFFFFFFFFF).toNat

/-- The whole number `m` of a finite magnitude `m · 2 ^ q`. -/
def significand (x : Double) : Nat :=
  if x.biasedExponent = 0 then x.fraction else x.fraction + 0x10000000000000

/-- The power `q` of a finite magnitude `m · 2 ^ q`. -/
def power (x : Double) : Int :=
  if x.biasedExponent = 0 then -1074 else (x.biasedExponent : Int) - 1075

/-! ## The interval of reals that round to a number -/

/-- A magnitude and the ends of the interval of reals that round to it, over one denominator. The
ends themselves belong to the interval when `closed` is set. -/
structure Interval where
  value : Nat
  lower : Nat
  upper : Nat
  den : Nat
  closed : Bool

/-- The interval of a positive finite magnitude. The number below a power of two is nearer than the
one above it. -/
def interval (x : Double) : Interval :=
  let m := x.significand
  let below := if x.fraction = 0 && 1 < x.biasedExponent then 1 else 2
  let scale := 1 <<< (x.power - 2).toNat
  { value := 4 * m * scale
    lower := (4 * m - below) * scale
    upper := (4 * m + 2) * scale
    den := 1 <<< (2 - x.power).toNat
    closed := m % 2 == 0 }

namespace Interval

/-- Does the decimal `c · 10 ^ k` lie in the interval? -/
def holds (i : Interval) (c : Nat) (k : Int) : Bool :=
  let point := c * Nat.pow 10 k.toNat * i.den
  let ten := Nat.pow 10 (-k).toNat
  if i.closed then i.lower * ten ≤ point && point ≤ i.upper * ten
  else i.lower * ten < point && point < i.upper * ten

/-- The power of ten at or just below the value. -/
def floorLog10 (i : Interval) : Int :=
  let e : Int := (Nat.toDigits 10 i.value).length - (Nat.toDigits 10 i.den).length
  if i.den * Nat.pow 10 e.toNat ≤ i.value * Nat.pow 10 (-e).toNat then e else e - 1

/-- The point of the grid `10 ^ k` that lies in the interval nearest to the value, if one of the
value's two neighbours does. -/
def onGrid? (i : Interval) (k : Int) : Option Nat :=
  let num := i.value * Nat.pow 10 (-k).toNat
  let den := i.den * Nat.pow 10 k.toNat
  let c := num / den
  match i.holds c k, i.holds (c + 1) k with
  | true, false => some c
  | false, true => some (c + 1)
  | true, true => if 2 * (num % den) < den then some c else some (c + 1)
  | false, false => none

end Interval

/-- The coarsest of the grids with `digits`, `digits + 1`, … significant digits that has a point in
the interval; at most `more` further digits are tried. -/
def shortestFrom (i : Interval) (digits : Nat) : (more : Nat) → Decimal
  | 0 => ⟨false, i.value / i.den, 0⟩
  | more + 1 =>
    let k := i.floorLog10 - digits + 1
    match i.onGrid? k with
    | some c => ⟨false, c, k⟩
    | none => shortestFrom i (digits + 1) more

/-- The shortest decimal that rounds to a positive finite magnitude: seventeen digits always do. -/
def shortest (x : Double) : Decimal := shortestFrom x.interval 1 17

/-! ## Text -/

/-- A positive decimal by its digits without trailing zeros, and the place of the point: the value
is `0.digits · 10 ^ point`. -/
def pointed (d : Decimal) : List Char × Int :=
  let all := Nat.toDigits 10 d.digits
  ((all.reverse.dropWhile (· == '0')).reverse, all.length + d.exponent)

/-- The digits with a point among them, and at least one digit on either side of it. -/
def positional (digits : List Char) (point : Int) : List Char :=
  let whole := digits.take point.toNat ++ List.replicate (point.toNat - digits.length) '0'
  let fraction := List.replicate (-point).toNat '0' ++ digits.drop point.toNat
  (if whole.isEmpty then ['0'] else whole) ++ ['.'] ++ (if fraction.isEmpty then ['0'] else fraction)

/-- One digit before the point, no point if no digit follows it, and the power of ten. -/
def scientific (digits : List Char) (point : Int) : List Char :=
  let fraction := digits.drop 1
  digits.take 1 ++ (if fraction.isEmpty then [] else '.' :: fraction) ++
    'e' :: (toString (point - 1)).toList

/-- The text of a magnitude: positional from `10 ^ -4` up to `10 ^ 16`, scientific outside. -/
def magnitudeText (x : Double) : List Char :=
  if x.biasedExponent = 0x7FF then
    if x.fraction = 0 then ['i', 'n', 'f'] else ['N', 'a', 'N']
  else if x.significand = 0 then ['0', '.', '0']
  else
    let (digits, point) := pointed x.shortest
    if -4 < point && point ≤ 16 then positional digits point else scientific digits point

/-- The shortest text that reads back as the number. -/
def text (x : Double) : String :=
  let undefined := x.biasedExponent = 0x7FF && x.fraction ≠ 0
  String.ofList (if x.negative && !undefined then '-' :: x.magnitudeText else x.magnitudeText)

end Double

end WordMachine
