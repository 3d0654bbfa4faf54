/-
Signatures: the kinds of operands an instruction takes, in order, and the bits of a word that they
occupy.
-/
import WordMachine.Word

namespace WordMachine

/-- What one operand is. -/
inductive OperandKind where
  | register
  /-- An immediate of 8 bits. -/
  | byte
  /-- An immediate of 16 bits. -/
  | halfWord
  /-- An immediate of 32 bits, carried by two instruction words. -/
  | fullWord
  /-- An address or offset of 22 bits. -/
  | address
  deriving Repr, DecidableEq

namespace OperandKind

/-- The letter for a kind in a written signature. -/
def letter : OperandKind → Char
  | .register => 'r'
  | .byte => 'b'
  | .halfWord => 'w'
  | .fullWord => 'f'
  | .address => 'a'

/-- The bits that an operand of this kind occupies as operand number `position`. -/
def fieldMask (kind : OperandKind) (position : Nat) : Word :=
  match kind with
  | .register => 7 <<< Word.registerShift position
  | .byte => Word.byteMask
  | .halfWord | .fullWord => Word.halfWordMask
  | .address => Word.addressMask

/-- A value put into the field of operand `position`; its excess high bits are dropped. -/
def pack (kind : OperandKind) (position : Nat) (value : Word) : Word :=
  match kind with
  | .register => (value &&& 7) <<< Word.registerShift position
  | _ => value &&& kind.fieldMask position

/-- The value in the field of operand `position` of a word. -/
def extract (kind : OperandKind) (position : Nat) (w : Word) : Word :=
  match kind with
  | .register => Word.registerField position w
  | _ => w &&& kind.fieldMask position

end OperandKind

/-- The operand kinds of an instruction, in order. -/
abbrev Signature := List OperandKind

namespace Signature

/-- One letter per operand. -/
def letters (s : Signature) : String := String.ofList (s.map OperandKind.letter)

/-- The number of words that an instruction of this signature takes. -/
def wordCount (s : Signature) : Nat := if s.contains .fullWord then 2 else 1

/-- The bits that the operands occupy together, the first of them being operand `position`. -/
def maskFrom (position : Nat) : Signature → Word
  | [] => 0
  | kind :: rest => kind.fieldMask position ||| maskFrom (position + 1) rest

/-- The bits that the operands occupy together. -/
def mask (s : Signature) : Word := maskFrom 0 s

end Signature

end WordMachine
