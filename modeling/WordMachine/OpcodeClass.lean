/-
Opcode classes: what a word's class field and secondary selectors say about the instruction, and with
it the signature. A word whose selectors no instruction uses has no class.
-/
import WordMachine.Condition
import WordMachine.Signature

namespace WordMachine

/-- The operations of class 0, by their operands. -/
inductive MathGroup where
  | halt
  | arithmetic
  | unaryMath
  | random
  | registerPair
  | registerSingle
  | subroutine
  | memoryAccess
  | memoryCopy
  deriving Repr, DecidableEq

namespace MathGroup

/-- The group of an operation of class 0. -/
def ofMathOp? (op : Nat) : Option MathGroup :=
  if op = 0 then some .halt
  else if 1 ≤ op ∧ op ≤ 12 then some .arithmetic
  else if op = 24 ∨ op = 25 then some .random
  else if 16 ≤ op ∧ op ≤ 31 then some .unaryMath
  else if op = 32 ∨ op = 33 ∨ op = 36 then some .registerPair
  else if op = 34 ∨ op = 35 ∨ op = 37 ∨ op = 38 then some .registerSingle
  else if op = 62 ∨ op = 63 then some .subroutine
  else if 64 ≤ op ∧ op ≤ 69 then some .memoryAccess
  else if op = 72 then some .memoryCopy
  else none

def name : MathGroup → String
  | .halt => "Halt"
  | .arithmetic => "Arithmetic"
  | .unaryMath => "UnaryMath"
  | .random => "Random"
  | .registerPair => "RegisterPair"
  | .registerSingle => "RegisterSingle"
  | .subroutine => "Subroutine"
  | .memoryAccess => "MemoryAccess"
  | .memoryCopy => "MemoryCopy"

end MathGroup

/-- The width of the value in an immediate load or store. -/
inductive ImmediateWidth where
  | byte
  | halfWord
  | word
  deriving Repr, DecidableEq

def ImmediateWidth.name : ImmediateWidth → String
  | .byte => "Byte"
  | .halfWord => "HalfWord"
  | .word => "Word"

/-- What a peripheral instruction asks for. -/
inductive PeripheralOp where
  | call
  | memorySize
  /-- The memory size of device `0FFh`. -/
  | uptime
  | interrupt
  deriving Repr, DecidableEq

def PeripheralOp.name : PeripheralOp → String
  | .call => "Call"
  | .memorySize => "MemorySize"
  | .uptime => "Uptime"
  | .interrupt => "Interrupt"

/-- The classes of instructions. -/
inductive OpcodeClass where
  | math (group : MathGroup)
  | compare
  | immediate (width : ImmediateWidth)
  | loadIndirect
  | storeIndirect
  | push
  | pop
  | pushImmediate
  | popImmediate
  | jump (condition : JumpCondition)
  | peripheral (op : PeripheralOp)
  deriving Repr, DecidableEq

/-- A word that is no instruction. -/
structure UnknownOpcode where
  word : Word
  deriving Repr, DecidableEq

def UnknownOpcode.message (e : UnknownOpcode) : String :=
  "0x" ++ e.word.hex ++ " does not decode to a known opcode"

namespace OpcodeClass

/-- Class 1. The upper three bits of the mode are a register of the comparisons. -/
def ofImmediateMode? (mode : Nat) : Option OpcodeClass :=
  if mode % 4 = 0 then some .compare
  else if mode = 1 then some (.immediate .byte)
  else if mode = 2 then some (.immediate .halfWord)
  else if mode = 3 then some (.immediate .word)
  else none

/-- Class 15, by its selector and the byte operand. -/
def ofPeripheral? (selector byte : Nat) : Option OpcodeClass :=
  if selector = 0 then some (.peripheral .call)
  else if selector = 1 then some (.peripheral (if byte = 0xFF then .uptime else .memorySize))
  else if selector = 0x3FFF then some (.peripheral .interrupt)
  else none

/-- The class of a word. -/
def ofWord? (w : Word) : Option OpcodeClass :=
  match w.classField.toNat with
  | 0 => (MathGroup.ofMathOp? w.mathOp.toNat).map .math
  | 1 => ofImmediateMode? ((w >>> 17) &&& 31).toNat
  | 2 => some .loadIndirect
  | 3 => some .storeIndirect
  | 4 => some .push
  | 5 => some .pop
  | 6 => some .pushImmediate
  | 7 => some .popImmediate
  | 8 => (JumpCondition.ofWord? w).map .jump
  | 15 => ofPeripheral? ((w >>> 8) &&& 0x3FFF).toNat w.byteField.toNat
  | _ => none

/-- The class of a word, or the error that it has none. -/
def decode (w : Word) : Except UnknownOpcode OpcodeClass :=
  match ofWord? w with
  | some c => .ok c
  | none => .error ⟨w⟩

/-- The operands that the instructions of a class take. -/
def signature : OpcodeClass → Signature
  | .math .halt | .math .subroutine => []
  | .math .arithmetic | .math .memoryAccess => [.register, .register, .register]
  | .math .unaryMath | .math .registerPair => [.register, .register]
  | .math .random | .math .registerSingle => [.register]
  | .math .memoryCopy => [.register, .register, .register, .register, .register]
  | .compare => [.register, .register]
  | .immediate .byte => [.register, .byte]
  | .immediate .halfWord => [.register, .halfWord]
  | .immediate .word => [.register, .fullWord]
  | .loadIndirect | .storeIndirect => [.register, .address]
  | .push | .pop => [.register]
  | .pushImmediate | .jump _ => [.address]
  | .popImmediate => []
  | .peripheral .call | .peripheral .memorySize => [.register, .byte]
  | .peripheral .uptime => [.register]
  | .peripheral .interrupt => [.byte]

/-- Is the condition field part of the opcode? -/
def isJump : OpcodeClass → Bool
  | .jump _ => true
  | _ => false

/-- The name of a class, with its group in parentheses. -/
def name : OpcodeClass → String
  | .math group => "Math(" ++ group.name ++ ")"
  | .compare => "Compare"
  | .immediate width => "Immediate(" ++ width.name ++ ")"
  | .loadIndirect => "LoadIndirect"
  | .storeIndirect => "StoreIndirect"
  | .push => "Push"
  | .pop => "Pop"
  | .pushImmediate => "PushImmediate"
  | .popImmediate => "PopImmediate"
  | .jump condition => "Jump(" ++ condition.name ++ ")"
  | .peripheral op => "Peripheral(" ++ op.name ++ ")"

end OpcodeClass

/-- Is the word the second one of a load of a full word? -/
def Word.isHighHalf (w : Word) : Bool :=
  OpcodeClass.ofWord? w == some (.immediate .word) && (w &&& Word.highHalfMarker) != 0

end WordMachine
