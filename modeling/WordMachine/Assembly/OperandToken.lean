/-
The kinds of operand words: registers, label references, integers in three bases, and decimal
fractions.

Each kind has a pattern and a reader for the texts of the pattern, which may still refuse a number that
is out of range. The longest beginning of a word that has a pattern is its first token, and the word is
an operand if nothing follows that token.
-/
import WordMachine.Decimal.Nearest
import WordMachine.Text.Pattern
import WordMachine.Word

namespace WordMachine.Assembly

/-- What an operand word stands for. -/
inductive OperandToken where
  /-- A register by its written number: `r1` is 1. -/
  | register (number : Nat)
  /-- A label by its name as written. -/
  | label (name : String)
  | integer (value : Word)
  /-- A fraction, by the bits of the nearest single-precision number. -/
  | float (bits : Word)
  deriving Repr, DecidableEq

namespace OperandToken

/-- A number that fits in a word. -/
def word? (n : Nat) : Option Word := if n < UInt32.size then some n.toUInt32 else none

/-- Reads an `r` and a decimal number. -/
def register? : List Char → Option OperandToken
  | mark :: digits =>
    if mark = 'r' ∨ mark = 'R' then
      (Text.readNumeral? 10 digits).bind fun n =>
        if n < UInt32.size then some (.register n) else none
    else none
  | [] => none

/-- May the character stand in a label reference, after its `@`? -/
def isLabelChar (c : Char) : Bool := !([' ', '\t', '\n', ',', ';', '@'].contains c)

/-- Reads an `@` and a name. -/
def label? : List Char → Option OperandToken
  | mark :: name =>
    if mark = '@' ∧ !name.isEmpty ∧ name.all isLabelChar then some (.label (String.ofList name))
    else none
  | [] => none

/-- A decimal number, which may be negative down to `-2 ^ 31`. -/
def decimal? (cs : List Char) : Option OperandToken :=
  if cs.head? = some '-' then
    (Text.readNumeral? 10 cs.tail).bind fun n =>
      if n ≤ 0x80000000 then some (.integer (-n.toUInt32)) else none
  else (Text.readNumeral? 10 cs).bind fun n => (word? n).map .integer

/-- A number whose base is shown by the letter after it. -/
def marked? (base : Nat) (marks : List Char) (cs : List Char) : Option OperandToken :=
  match cs.getLast? with
  | some mark =>
    if marks.contains mark then
      (Text.readNumeral? base cs.dropLast).bind fun n => (word? n).map .integer
    else none
  | none => none

/-- A decimal number with a point and a digit after it, an optional exponent and an optional `f`. -/
def float? (cs : List Char) : Option OperandToken :=
  let number := if cs.getLast? = some 'f' ∨ cs.getLast? = some 'F' then cs.dropLast else cs
  let unsigned := if cs.head? = some '-' then number.tail else number
  if (Decimal.splitDigits unsigned).2.1.isEmpty then none
  else (Decimal.read? number).map fun d => .float (BinaryFormat.single.nearest d).toUInt32

/-! ## Tokens -/

/-- The forms of operands. -/
inductive Form where
  | register
  | label
  | decimal
  | hexadecimal
  | binary
  | float
  deriving Repr, DecidableEq

namespace Form

def all : List Form := [.register, .label, .decimal, .hexadecimal, .binary, .float]

/-- How the texts of a form are written. -/
def pattern : Form → Text.Pattern
  | .register => .seq (.one ['r', 'R'].contains) (.run Char.isDigit)
  | .label => .seq (.one (· == '@')) (.run isLabelChar)
  | .decimal => .seq (.optional (.one (· == '-'))) (.run Char.isDigit)
  | .hexadecimal => .seq (.run fun c => (Text.digitValue? 16 c).isSome) (.one ['h', 'H'].contains)
  | .binary => .seq (.run fun c => (Text.digitValue? 2 c).isSome) (.one ['b', 'B'].contains)
  | .float =>
    .seq (.optional (.one (· == '-'))) <| .seq (.many Char.isDigit) <| .seq (.one (· == '.')) <|
      .seq (.run Char.isDigit) <| .seq (.optional Decimal.exponentPattern) Decimal.suffixPattern

/-- What a text of a form stands for, if its number is in range. -/
def read? : Form → List Char → Option OperandToken
  | .register => register?
  | .label => label?
  | .decimal => decimal?
  | .hexadecimal => marked? 16 ['h', 'H']
  | .binary => marked? 2 ['b', 'B']
  | .float => float?

end Form

/-- The beginnings of a text that have a form, by the form and what is left of the text. -/
def beginnings (cs : List Char) : List (Form × List Char) :=
  Form.all.flatMap fun form => (form.pattern.rests cs).map (form, ·)

/-- The longest beginning of a text that has a form, and of two forms for it the first. -/
def longest? (cs : List Char) : Option (Form × List Char) :=
  let found := beginnings cs
  found.find? fun taken => found.all fun other => taken.2.length ≤ other.2.length

/-- The first token of a text and what is left after it, or `none` for a text without characters. There
is no token, but only its place, where no beginning has a form or the number is out of range. -/
def next? : List Char → Option (Option OperandToken × List Char)
  | [] => none
  | c :: cs =>
    match longest? (c :: cs) with
    | some (form, rest) => some (form.read? ((c :: cs).take ((c :: cs).length - rest.length)), rest)
    | none => some (none, cs)

/-- What a word stands for, if it is a single token. -/
def classify? (word : String) : Option OperandToken :=
  match next? word.toList with
  | some (some token, rest) => if (next? rest).isNone then some token else none
  | _ => none

end OperandToken

end WordMachine.Assembly
