/-
Machine words: 32 bits, stored in memory with the lowest byte first, and the fields that an
instruction divides a word into.

A condition takes the top three bits and the opcode class the four below. Up to five register fields
of three bits follow, the first one highest. Immediates lie in the low bits and may overlap register
fields, which is why no instruction has both an address and a second register.
-/
import WordMachine.Text.Numeral

namespace WordMachine

/-- A word of the machine. -/
abbrev Word := UInt32

/-- An address of the machine's memory, counted in bytes. -/
abbrev Address := UInt32

namespace Word

/-! ## Fields -/

def conditionMask : Word := 0xE0000000

def classMask : Word := 0x1E000000

def byteMask : Word := 0xFF

def halfWordMask : Word := 0xFFFF

def addressMask : Word := 0x3FFFFF

/-- Set in the second word of a load of a full word. -/
def highHalfMarker : Word := 0x10000

/-- The condition, a number below 8. -/
def conditionField (w : Word) : Word := w >>> 29

/-- The opcode class, a number below 16. -/
def classField (w : Word) : Word := (w &&& classMask) >>> 25

/-- The operation of class 0, a number below 128. -/
def mathOp (w : Word) : Word := w &&& 0x7F

def byteField (w : Word) : Word := w &&& byteMask

def halfWordField (w : Word) : Word := w &&& halfWordMask

def addressField (w : Word) : Word := w &&& addressMask

/-- How far left of bit 0 the register field of operand `position` starts, for positions up to 7. -/
def registerShift (position : Nat) : Word := (22 - 3 * position).toUInt32

/-- The register index in the field of operand `position`. -/
def registerField (position : Nat) (w : Word) : Word := (w >>> registerShift position) &&& 7

/-! ## Bytes -/

/-- The four bytes of a word, the lowest first. -/
def toBytes (w : Word) : List UInt8 :=
  [w.toUInt8, (w >>> 8).toUInt8, (w >>> 16).toUInt8, (w >>> 24).toUInt8]

/-- The word with the given bytes, the lowest first. -/
def ofBytes (b₀ b₁ b₂ b₃ : UInt8) : Word :=
  b₀.toUInt32 ||| (b₁.toUInt32 <<< 8) ||| (b₂.toUInt32 <<< 16) ||| (b₃.toUInt32 <<< 24)

/-! ## Text -/

/-- Eight hexadecimal digits. -/
def hex (w : Word) : String := Text.hex8 w.toNat

/-- A word announced as an instruction. -/
def describe (w : Word) : String := "Instruction(0x" ++ hex w ++ ")"

end Word

end WordMachine
