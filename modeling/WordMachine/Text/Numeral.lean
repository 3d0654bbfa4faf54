/-
Numerals: reading digits in a base, hexadecimal text in capital letters, and padding to a column.
-/
namespace WordMachine.Text

/-! ## Reading -/

/-- The value of a digit of base `base`, letters standing for ten and above. -/
def digitValue? (base : Nat) (c : Char) : Option Nat :=
  let value :=
    if '0' ≤ c && c ≤ '9' then c.toNat - 48
    else if 'a' ≤ c && c ≤ 'z' then c.toNat - 87
    else if 'A' ≤ c && c ≤ 'Z' then c.toNat - 55
    else base
  if value < base then some value else none

/-- The number that `digits` continue, when `start` was read before them. -/
def readDigitsFrom (base start : Nat) : List Char → Option Nat
  | [] => some start
  | c :: cs =>
    match digitValue? base c with
    | some d => readDigitsFrom base (start * base + d) cs
    | none => none

/-- The number written by one or more digits of base `base`. -/
def readNumeral? (base : Nat) (digits : List Char) : Option Nat :=
  if digits.isEmpty then none else readDigitsFrom base 0 digits

/-! ## Writing -/

/-- Hexadecimal digits, without leading zeros. -/
def hex (n : Nat) : String :=
  String.ofList ((Nat.toDigits 16 n).map Char.toUpper)

/-- The text with fill characters put before it up to `width` characters. -/
def padLeft (width : Nat) (s : String) (fill : Char) : String :=
  String.ofList (List.replicate (width - s.length) fill) ++ s

/-- The text with blanks put after it up to `width` characters. -/
def padRight (width : Nat) (s : String) : String :=
  s ++ String.ofList (List.replicate (width - s.length) ' ')

/-- Eight hexadecimal digits, as words and addresses are shown. -/
def hex8 (n : Nat) : String := padLeft 8 (hex n) '0'

end WordMachine.Text
