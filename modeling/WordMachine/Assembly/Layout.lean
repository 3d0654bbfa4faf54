/-
Where everything goes. Each statement takes a number of bytes that does not depend on labels; adding
these up from the load address on gives the address of every label.

The size of a value is counted in 32 bits: it is the number of its bytes modulo `2 ^ 32`. Only a source
of `2 ^ 30` bytes or more can hold a value for which this makes a difference.

Data and subroutines are stepped over by a jump, which takes a word before the first of them in a
row.
-/
import WordMachine.Assembly.Encoding

namespace WordMachine.Assembly

/-! ## Sizes -/

/-- The least multiple of four that is not below `n`. -/
def roundUp (n : Nat) : Nat := (n + 3) / 4 * 4

/-- The least multiple of four that is not below `n`, modulo `2 ^ 32`. -/
def roundUpSize (n : Word) : Word := (if n % 4 = 0 then n / 4 else n / 4 + 1) * 4

def ByteItem.size : ByteItem → Word
  | .literal _ => 1
  | .address _ => 4

/-- The number of bytes of a value, with the zeros that fill up the last word, modulo `2 ^ 32`. -/
def Payload.size : Payload → Word
  | .text content => roundUpSize (content.length.toUInt32 + 1)
  | .word _ => 4
  | .bytes items => roundUpSize (items.foldr (fun i n => i.size + n) 0)

/-! ## Addresses -/

/-- The number of words reserved for a stack. -/
def stackWords (statements : List Statement) : Word :=
  match statements with
  | ⟨_, .stack words⟩ :: _ => words
  | _ => 0

/-- The address of the first byte after the stack. -/
def loadAddress (statements : List Statement) (origin : Address) : Except Error Address :=
  let words := stackWords statements
  if 4 * words.toNat + origin.toNat < UInt32.size then .ok (4 * words + origin)
  else
    .error ⟨(statements.head?.map (·.line)).getD 1, .stackMisuse (.doesNotFit words origin)⟩

/-- The address `bytes` bytes on. -/
def advance (address : Address) (bytes : Nat) : Except Fault Address :=
  if address.toNat + bytes < UInt32.size then .ok (address + bytes.toUInt32)
  else .error (.internal .pastAddressSpace)

/-- Does a jump have to be put before a statement of this section? `pending` says that a jump is
waiting for its target, so that the statements before are stepped over already. -/
def needsJump (current : Section) (pending : Bool) : Bool := current != .code && !pending

/-- Is a jump waiting for its target after a statement of this section? -/
def leavesPending (current : Section) : Bool := current != .code

/-! ## The layout of a program -/

/-- The addresses of a program. -/
structure Layout where
  labels : LabelTable
  /-- The address after the last word. -/
  stop : Address
  deriving Repr, DecidableEq

/-- What is known after the statements laid out so far. -/
structure Cursor where
  /-- The address of the next byte. -/
  address : Address
  current : Section := .code
  /-- Is a jump waiting for its target? -/
  pending : Bool := false
  labels : LabelTable := []
  deriving Repr, DecidableEq

namespace Cursor

/-- Makes room for the jump that a statement needs before it. -/
def makeJump (c : Cursor) : Except Fault Cursor := do
  let address ← if needsJump c.current c.pending then advance c.address 4 else .ok c.address
  return { c with address, pending := leavesPending c.current }

/-- Lays out a statement. -/
def place (c : Cursor) : StatementKind → Except Fault Cursor
  | .header kind => .ok { c with current := kind }
  | .stack _ => c.makeJump
  | .label name => do
    let c ← c.makeJump
    return { c with labels := ← c.labels.define name c.address }
  | .data name payload => do
    let c ← c.makeJump
    let labels ← c.labels.define name c.address
    return { c with labels, address := ← advance c.address payload.size.toNat }
  | .instruction line => do
    let c ← c.makeJump
    let words ← line.wordCount
    return { c with address := ← advance c.address (4 * words) }

/-- Lays out the statements from a cursor on, and the word that ends the program. `line` is the line of
the statement before. -/
def placeAll (c : Cursor) (line : Nat) : List Statement → Except Error Layout
  | [] => do
    let stop ← atLine line (advance c.address 4)
    return ⟨c.labels, stop⟩
  | s :: rest => do
    let c ← atLine s.line (c.place s.kind)
    c.placeAll s.line rest

end Cursor

/-- The layout of a program from its load address on. -/
def Layout.ofStatements (load : Address) (statements : List Statement) : Except Error Layout :=
  Cursor.placeAll { address := load } 1 statements

end WordMachine.Assembly
