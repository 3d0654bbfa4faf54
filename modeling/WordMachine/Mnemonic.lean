/-
Mnemonics and their base patterns: every primitive with every condition suffix, and the jumps.
Mnemonics are looked up in upper case.
-/
import WordMachine.OpcodeClass
import WordMachine.Text.Case

namespace WordMachine

/-- A name that is no instruction's. -/
structure UnknownMnemonic where
  name : String
  deriving Repr, DecidableEq

def UnknownMnemonic.message (e : UnknownMnemonic) : String :=
  "unknown mnemonic '" ++ e.name ++ "'"

namespace Mnemonic

/-- The unconditional instructions other than jumps. Where two share a pattern, the first is the
name that the pattern reads back as. -/
def primitives : List (String × Word) :=
  [("HALT", 0),
   -- arithmetic
   ("ADD", 1), ("SUB", 2), ("MUL", 3), ("DIV", 4), ("POW", 5), ("MOD", 6), ("SHL", 7), ("SHR", 8),
   ("USHR", 9), ("AND", 10), ("OR", 11), ("XOR", 12),
   -- functions of one number
   ("ABS", 16), ("SIN", 17), ("COS", 18), ("TAN", 19), ("FLOOR", 20), ("CEIL", 21), ("ROUND", 22),
   ("LOG", 23), ("RNDI", 24), ("RND", 25), ("SGN", 26), ("SQRT", 27), ("CBRT", 28), ("INV", 29),
   ("RAD", 30), ("NOT", 31),
   -- registers
   ("MOV", 32), ("XCHG", 33), ("INC", 34), ("DEC", 35), ("MALLOC", 36), ("FTOI", 37), ("ITOF", 38),
   ("GOSUB", 62), ("RETURN", 63),
   -- memory
   ("LOADBYTE", 64), ("STOREBYTE", 65), ("LOADHWORD", 66), ("STOREHWORD", 67), ("LOADWORD", 68),
   ("STOREWORD", 69), ("MEMCPY", 72),
   -- comparison
   ("CMP", 0x02000000), ("CMPII", 0x02000000), ("CMPIF", 0x02000001), ("CMPFI", 0x02000002),
   ("CMPFF", 0x02000003),
   -- immediates
   ("LOADBYTEI", 0x02020000), ("STOREBYTEI", 0x02030000), ("LOADHWORDI", 0x02040000),
   ("STOREHWORDI", 0x02050000), ("LOADWORDI", 0x02060000),
   ("LOADWORDIMEM", 0x04000000), ("STOREWORDIMEM", 0x06000000),
   -- stack
   ("PUSH", 0x08000000), ("POP", 0x0A000000), ("PUSHWORDI", 0x0C000000), ("POPWORDI", 0x0E000000),
   -- peripherals
   ("CALL", 0x1E000000), ("MEMSIZE", 0x1E000100), ("UPTIME", 0x1E0001FF), ("INT", 0x1FFFFF00)]

/-- The jumps. -/
def jumps : List (String × Word) := JumpCondition.all.map fun j => (j.mnemonic, j.bits)

/-- Every mnemonic with its pattern: the jumps, and the primitives under every condition. -/
def table : List (String × Word) :=
  jumps ++ Condition.all.flatMap fun c => primitives.map fun p => (p.1 ++ c.suffix, p.2 ||| c.bits)

/-- The pattern of a mnemonic, which may carry a condition suffix. -/
def pattern? (name : String) : Option Word := table.lookup (Text.upper name)

/-- The pattern of a mnemonic, or the error that there is none. -/
def pattern (name : String) : Except UnknownMnemonic Word :=
  match pattern? name with
  | some w => .ok w
  | none => .error ⟨name⟩

/-- The mnemonic of an unconditional pattern or of a jump's. -/
def ofPattern? (w : Word) : Option String :=
  ((jumps ++ primitives).find? fun p => p.2 == w).map (·.1)

/-- Every mnemonic with its pattern, in the order of the names. -/
def sorted : List (String × Word) :=
  table.mergeSort fun a b => decide (a.1 ≤ b.1)

end Mnemonic

end WordMachine
