/-
Decimal numbers with a sign and a power of ten, and the texts that write them:
`-12.5e3` has the digits 125, the power 2 and a minus sign.
-/
import WordMachine.Text.Numeral
import WordMachine.Text.Pattern

namespace WordMachine

/-- The number `± digits · 10 ^ exponent`. -/
structure Decimal where
  negative : Bool
  digits : Nat
  exponent : Int
  deriving Repr, DecidableEq

namespace Decimal

/-! ## Reading -/

/-- A sign, if the text starts with one (is it a minus?), and the text after it. -/
def readSign : List Char → Bool × List Char
  | '-' :: cs => (true, cs)
  | '+' :: cs => (false, cs)
  | cs => (false, cs)

/-- The exponent written by the rest of a number: nothing, or a mark `e` and a signed numeral. -/
def readExponent? : List Char → Option Int
  | [] => some 0
  | mark :: cs =>
    if mark == 'e' || mark == 'E' then
      let (negative, digits) := readSign cs
      (Text.readNumeral? 10 digits).map fun n => if negative then -(n : Int) else n
    else none

/-- The whole digits before a point (or before the exponent, if there is no point), the digits after
the point, and the rest. -/
def splitDigits (cs : List Char) : List Char × List Char × List Char :=
  let whole := cs.takeWhile Char.isDigit
  match cs.dropWhile Char.isDigit with
  | '.' :: rest => (whole, rest.takeWhile Char.isDigit, rest.dropWhile Char.isDigit)
  | rest => (whole, [], rest)

/-- Reads a number: an optional sign, digits with at most one point among or beside them, and an
optional exponent. -/
def read? (cs : List Char) : Option Decimal :=
  let (negative, unsigned) := readSign cs
  let (whole, fraction, rest) := splitDigits unsigned
  match Text.readNumeral? 10 (whole ++ fraction), readExponent? rest with
  | some digits, some exponent => some ⟨negative, digits, exponent - fraction.length⟩
  | _, _ => none

/-! ## Patterns of the parts -/

def signPattern : Text.Pattern := .optional (.one ['-', '+'].contains)

/-- Digits, with at most one point among or beside them. -/
def mantissaPattern : Text.Pattern :=
  .either (.seq (.run Char.isDigit) (.seq (.one (· == '.')) (.many Char.isDigit)))
    (.either (.seq (.one (· == '.')) (.run Char.isDigit)) (.run Char.isDigit))

/-- An `e`, an optional sign and digits. -/
def exponentPattern : Text.Pattern :=
  .seq (.one ['e', 'E'].contains) (.seq signPattern (.run Char.isDigit))

/-- An `f` after a number, or nothing. -/
def suffixPattern : Text.Pattern := .optional (.one ['f', 'F'].contains)

end Decimal

/-! ## Numbers with a name -/

/-- A number as a text may give it: a decimal, an infinity, or the value that is no number. -/
inductive NumberText where
  | finite (value : Decimal)
  | infinite (negative : Bool)
  | undefined (negative : Bool)
  deriving Repr, DecidableEq

/-- Why a text is not a number. -/
inductive NumberText.Fault where
  | empty
  | malformed
  deriving Repr, DecidableEq

def NumberText.Fault.message : NumberText.Fault → String
  | .empty => "cannot parse float from empty string"
  | .malformed => "invalid float literal"

/-- Reads a decimal or, in any case, one of the names `inf`, `infinity` and `nan` with an optional
sign. -/
def NumberText.read (cs : List Char) : Except NumberText.Fault NumberText :=
  let (negative, name) := Decimal.readSign cs
  let name := String.ofList (name.map Char.toLower)
  if cs.isEmpty then .error .empty
  else if name == "inf" || name == "infinity" then .ok (.infinite negative)
  else if name == "nan" then .ok (.undefined negative)
  else
    match Decimal.read? cs with
    | some value => .ok (.finite value)
    | none => .error .malformed

end WordMachine
