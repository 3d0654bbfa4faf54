/-
Conditions on which an instruction is executed: those that any instruction may have, spelled as a
suffix of its mnemonic, and those of the jumps, which are part of the mnemonic.
-/
import WordMachine.Word

namespace WordMachine

/-- When an instruction other than a jump is executed. -/
inductive Condition where
  | always
  | zero
  | notZero
  | greater
  | lessOrEqual
  deriving Repr, DecidableEq

namespace Condition

def all : List Condition := [.always, .zero, .notZero, .greater, .lessOrEqual]

/-- The suffix of a mnemonic. -/
def suffix : Condition → String
  | .always => ""
  | .zero => "Z"
  | .notZero => "NZ"
  | .greater => "GT"
  | .lessOrEqual => "LS"

/-- The value of the condition field. -/
def code : Condition → Word
  | .always => 0
  | .zero => 1
  | .notZero => 2
  | .greater => 3
  | .lessOrEqual => 4

/-- The condition field, in its place in a word. -/
def bits (c : Condition) : Word := c.code <<< 29

/-- The condition of a word, unless its field holds one of the values 5 to 7, which only jumps
use. -/
def ofWord? (w : Word) : Option Condition :=
  all.find? fun c => c.bits == (w &&& Word.conditionMask)

/-- The name of a condition. -/
def name : Condition → String
  | .always => "Always"
  | .zero => "Zero"
  | .notZero => "NotZero"
  | .greater => "Greater"
  | .lessOrEqual => "LessOrEqual"

end Condition

/-- When a jump is taken. -/
inductive JumpCondition where
  | always
  | zero
  | notZero
  | greater
  | lessOrEqual
  | forward
  | backward
  deriving Repr, DecidableEq

namespace JumpCondition

def all : List JumpCondition :=
  [.always, .zero, .notZero, .greater, .lessOrEqual, .forward, .backward]

def mnemonic : JumpCondition → String
  | .always => "JMP"
  | .zero => "JZ"
  | .notZero => "JNZ"
  | .greater => "JGT"
  | .lessOrEqual => "JLS"
  | .forward => "JFW"
  | .backward => "JBW"

/-- The value of the condition field. -/
def code : JumpCondition → Word
  | .always => 0
  | .zero => 1
  | .notZero => 2
  | .greater => 3
  | .lessOrEqual => 4
  | .forward => 5
  | .backward => 6

/-- The jump's pattern: its condition and the class of all jumps. -/
def bits (j : JumpCondition) : Word := (j.code <<< 29) ||| 0x10000000

/-- The condition of a word of the jump class. -/
def ofWord? (w : Word) : Option JumpCondition :=
  all.find? fun j => (j.bits &&& Word.conditionMask) == (w &&& Word.conditionMask)

/-- The name of a jump condition. -/
def name : JumpCondition → String
  | .always => "Always"
  | .zero => "Zero"
  | .notZero => "NotZero"
  | .greater => "Greater"
  | .lessOrEqual => "LessOrEqual"
  | .forward => "Forward"
  | .backward => "Backward"

end JumpCondition

end WordMachine
