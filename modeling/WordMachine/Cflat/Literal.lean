/-
Literals: the values that a single token can write, and the classes of tokens that write them.
-/
import WordMachine.Cflat.Error
import WordMachine.Cflat.Token
import WordMachine.Decimal.Shortest
import WordMachine.Text.Pattern
import WordMachine.Text.Quoted

namespace WordMachine.Cflat

/-- The value of a literal. -/
inductive Literal where
  | bool (value : Bool)
  | int (value : Int32)
  | double (value : Double)
  | text (value : String)
  deriving Repr, DecidableEq

def Literal.render : Literal → String
  | .bool value => if value then "true" else "false"
  | .int value => toString value.toInt
  | .double value => value.text
  | .text value => Text.quoted value

/-! ## Classes of tokens -/

/-- Are these one or more characters of a class? -/
def allOf (isMember : Char → Bool) (cs : List Char) : Bool := !cs.isEmpty && cs.all isMember

def isHexDigit (c : Char) : Bool :=
  c.isDigit || ('a' ≤ c && c ≤ 'f') || ('A' ≤ c && c ≤ 'F') || c == '_'

def isDecimalDigit (c : Char) : Bool := c.isDigit || c == '_'

def isOctalDigit (c : Char) : Bool := ('0' ≤ c && c ≤ '7') || c == '_'

def isBinaryDigit (c : Char) : Bool := c == '0' || c == '1' || c == '_'

/-- The characters after a sign, if there is one. -/
def dropSign : List Char → List Char
  | '-' :: cs => cs
  | '+' :: cs => cs
  | cs => cs

/-- The characters before an `L`, if they end with one. -/
def dropLong (cs : List Char) : List Char :=
  if cs.getLast? = some 'L' ∨ cs.getLast? = some 'l' then cs.dropLast else cs

/-- The characters before an `f`, if they end with one. -/
def dropFloat (cs : List Char) : List Char :=
  if cs.getLast? = some 'f' ∨ cs.getLast? = some 'F' then cs.dropLast else cs

/-- How a real number is written. -/
def realPattern : Text.Pattern :=
  .seq Decimal.signPattern <| .seq Decimal.mantissaPattern <|
    .seq (.optional Decimal.exponentPattern) Decimal.suffixPattern

/-- A token as the number it may write. -/
inductive NumberForm where
  /-- Digits of a base, with underscores among them. -/
  | integer (base : Nat) (negative : Bool) (digits : List Char)
  /-- A real number by its text, without the `f`. -/
  | real (text : List Char)
  deriving Repr, DecidableEq

namespace NumberForm

/-- Reads the digits of a number with a base of its own: `0x` and hexadecimal digits, `0` and octal
ones, or `0b` and binary ones. -/
def withBase? : List Char → Option NumberForm
  | '0' :: mark :: cs =>
    if (mark == 'x' || mark == 'X') && allOf isHexDigit cs then some (.integer 16 false cs)
    else if allOf isOctalDigit (mark :: cs) then some (.integer 8 false (mark :: cs))
    else if (mark == 'b' || mark == 'B') && allOf isBinaryDigit cs then some (.integer 2 false cs)
    else none
  | _ => none

/-- Reads a decimal integer: an optional sign, digits, and an optional `L`. -/
def decimal? (cs : List Char) : Option NumberForm :=
  let digits := dropLong (dropSign cs)
  if allOf isDecimalDigit digits then some (.integer 10 (cs.head? == some '-') digits) else none

/-- Reads a number with a point or an exponent, and an optional `f`. -/
def real? (cs : List Char) : Option NumberForm :=
  if realPattern.covers cs then some (.real (dropFloat cs)) else none

/-- Reads a token as a number. -/
def read? (cs : List Char) : Option NumberForm :=
  withBase? cs <|> decimal? cs <|> real? cs

/-- The value of an integer, which has to fit in 64 bits. Its low 32 bits are kept. -/
def integerValue? (base : Nat) (negative : Bool) (digits : List Char) : Option Int32 :=
  match Text.readNumeral? base (digits.filter (· ≠ '_')) with
  | none => none
  | some n =>
    if n < UInt64.size then
      let low := n.toUInt32
      some (if negative then -low else low).toInt32
    else none

/-- The value of the number that a token is read as. -/
def literal (token : Token) : NumberForm → Except Fault Literal
  | .integer base negative digits =>
    match integerValue? base negative digits with
    | some value => .ok (.int value)
    | none => .error (.overflow token)
  | .real text =>
    match NumberText.read text with
    | .ok number => .ok (.double (Double.ofNumberText number))
    | .error cause => .error (.internal (.realNotRead token cause))

end NumberForm

/-- The text between the quotes of a string literal. -/
def stringBody? (token : Token) : Option String :=
  match token.toList with
  | '"' :: rest => if rest.getLast? = some '"' then some (String.ofList rest.dropLast) else none
  | _ => none

/-- What a token on its own stands for. -/
inductive Leaf where
  | literal (value : Literal)
  | variable (name : Token)
  deriving Repr, DecidableEq

/-- Reads a token as a literal or the name of a variable. -/
def Leaf.read (token : Token) : Except Fault Leaf :=
  match stringBody? token with
  | some body => .ok (.literal (.text body))
  | none =>
    if token = "true" then .ok (.literal (.bool true))
    else if token = "false" then .ok (.literal (.bool false))
    else
      match NumberForm.read? token.toList with
      | some form =>
        match form.literal token with
        | .ok value => .ok (.literal value)
        | .error fault => .error fault
      | none =>
        if Token.isIdentifier token then .ok (.variable token)
        else .error (.malformed (.notALeaf token))

end WordMachine.Cflat
