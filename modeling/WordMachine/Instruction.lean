/-
Instructions in symbolic form: a mnemonic, a condition and operands; their text, and the way from and
to machine words.
-/
import WordMachine.Mnemonic

namespace WordMachine

/-- An operand of an instruction. -/
inductive Operand where
  /-- A register, counted from 0. -/
  | register (index : UInt8)
  | immediate (value : Word)
  /-- The upper half of a full word, carried by the second word of its load. -/
  | highHalf (value : UInt16)
  deriving Repr, DecidableEq

namespace Operand

/-- Registers are written `r1` to `r8`. A hexadecimal number starts with a digit, so that it is not
taken for a word. -/
def render : Operand → String
  | .register index => "r" ++ toString (index.toNat + 1)
  | .immediate value => "0" ++ Text.hex value.toNat ++ "h"
  | .highHalf value => "0" ++ Text.hex value.toNat ++ "h"

def isHighHalf : Operand → Bool
  | .highHalf _ => true
  | _ => false

/-- The bits that an operand contributes as operand number `position`. -/
def bits (position : Nat) : Operand → Word
  | .register index => OperandKind.pack .register position index.toUInt32
  | .immediate value => value
  | .highHalf value => Word.highHalfMarker ||| value.toUInt32

/-- The operand of the given kind at `position` of a word. -/
def ofWord (w : Word) (position : Nat) (kind : OperandKind) : Operand :=
  let value := kind.extract position w
  match kind with
  | .register => .register value.toUInt8
  | .fullWord => if w.isHighHalf then .highHalf value.toUInt16 else .immediate value
  | _ => .immediate value

end Operand

/-- An instruction. The mnemonic is the one without a condition suffix; a jump's condition is part of
its mnemonic, and `condition` is then `always`. -/
structure Instruction where
  mnemonic : String
  condition : Condition
  operands : List Operand
  deriving Repr, DecidableEq

namespace Instruction

/-! ## Text -/

/-- The mnemonic with its suffix, and the operands set apart by commas. The second word of a load of
a full word is marked as such. -/
def render (i : Instruction) : String :=
  let operands := ", ".intercalate (i.operands.map Operand.render)
  i.mnemonic ++ i.condition.suffix ++ (if i.operands.isEmpty then "" else " " ++ operands) ++
    (if i.operands.any Operand.isHighHalf then " # high half" else "")

/-! ## Words -/

/-- The bits of operands, the first of them being operand `position`, added to a word. -/
def addOperands (w : Word) (position : Nat) : List Operand → Word
  | [] => w
  | operand :: rest => addOperands (w ||| operand.bits position) (position + 1) rest

/-- The word of an instruction. -/
def encode (i : Instruction) : Except UnknownMnemonic Word :=
  match Mnemonic.pattern i.mnemonic with
  | .ok base => .ok (addOperands (base ||| i.condition.bits) 0 i.operands)
  | .error e => .error e

/-- The operands of a word, the first of them being operand `position`. -/
def operandsFrom (w : Word) (position : Nat) : Signature → List Operand
  | [] => []
  | kind :: rest => Operand.ofWord w position kind :: operandsFrom w (position + 1) rest

/-- The condition of a word of class `c`, and the pattern that is left when condition and operands are
taken away. -/
def split? (c : OpcodeClass) (w : Word) : Option (Condition × Word) :=
  if c.isJump then some (.always, w &&& ~~~c.signature.mask)
  else
    (Condition.ofWord? w).map fun condition =>
      let base := w &&& ~~~(c.signature.mask ||| Word.conditionMask)
      (condition, if w.isHighHalf then base &&& ~~~Word.highHalfMarker else base)

/-- The instruction of a word, if it is one. -/
def ofWord? (w : Word) : Option Instruction := do
  let c ← OpcodeClass.ofWord? w
  let (condition, base) ← split? c w
  let mnemonic ← Mnemonic.ofPattern? base
  return ⟨mnemonic, condition, operandsFrom w 0 c.signature⟩

/-- The instruction of a word, or the error that it is none. -/
def disassemble (w : Word) : Except UnknownOpcode Instruction :=
  match ofWord? w with
  | some i => .ok i
  | none => .error ⟨w⟩

end Instruction

end WordMachine
