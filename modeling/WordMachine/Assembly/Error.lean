/-
What can be wrong with an assembly program. An error is a line and a cause; its text is made from
these in one place.
-/
import WordMachine.Decimal.Basic
import WordMachine.Word

namespace WordMachine.Assembly

/-- Why the reservation of a stack is refused. -/
inductive StackFault where
  | operandCount
  | repeated
  | notFirst
  | doesNotFit (words : Word) (origin : Address)
  deriving Repr, DecidableEq

/-- Why an operand is refused. -/
inductive OperandFault where
  | stackSize
  | integerExpected
  | notANumber (fault : NumberText.Fault)
  | registerExpected
  | floatMisplaced
  | registerMisplaced
  | notAnOperand
  deriving Repr, DecidableEq

/-- A state that no program should lead to, an address space that is too small apart. -/
inductive InternalFault where
  | pastAddressSpace
  | labelMoved (name : String) (old new : Address)
  | labelNotSeen (name : String)
  | endMoved (old new : Address)
  /-- An image with more bytes than its file can tell. -/
  | imageTooLarge (length : Nat)
  deriving Repr, DecidableEq

/-- The cause of an error. -/
inductive Fault where
  | unknownMnemonic (mnemonic : String)
  | operandCount (mnemonic : String) (expected given : Nat)
  | malformedString
  | missingTerminator
  | illegalByte (literal : String)
  | labelConflict (name : String) (old new : Address)
  | undefinedLabel (name : String)
  | stackMisuse (fault : StackFault)
  | invalidOperand (operand : String) (fault : OperandFault)
  | invalidStatement (text : String)
  | unsupportedType (name : String)
  | internal (fault : InternalFault)
  deriving Repr, DecidableEq

/-- An error and the line of the statement it was found in. -/
structure Error where
  line : Nat
  fault : Fault
  deriving Repr, DecidableEq

/-! ## Texts -/

/-- An address in hexadecimal, without leading zeros. -/
def addressText (a : Address) : String := "0x" ++ Text.hex a.toNat

def StackFault.message : StackFault → String
  | .operandCount => ".STACK takes exactly one operand, the number of words to reserve"
  | .repeated => ".STACK is declared more than once"
  | .notFirst => ".STACK must be the first statement of the program"
  | .doesNotFit words origin =>
    "a stack of " ++ toString words.toNat ++ " words at " ++ addressText origin ++
      " does not fit in the address space"

def OperandFault.message : OperandFault → String
  | .stackSize => "the stack size must be a number of words"
  | .integerExpected => "expected an integer"
  | .notANumber fault => fault.message
  | .registerExpected => "expected a register, r1 to r8"
  | .floatMisplaced =>
    "a floating-point value needs a full-word operand (such as that of LOADWORDI)"
  | .registerMisplaced => "expected a number or a label, not a register"
  | .notAnOperand => "expected a register, number or label"

/-- A text about a line. -/
def onLine (line : Nat) (text : String) : String := "line " ++ toString line ++ ": " ++ text

def InternalFault.message (line : Nat) : InternalFault → String
  | .pastAddressSpace => onLine line "program extends past the end of the address space"
  | .labelMoved name old new =>
    onLine line ("label '" ++ name ++ "' was at " ++ addressText old ++ " in pass 1 but is at " ++
      addressText new ++ " in pass 2")
  | .labelNotSeen name => onLine line ("label '" ++ name ++ "' was not seen in pass 1")
  | .endMoved old new =>
    "pass 1 expected the program to end at " ++ addressText old ++ " but pass 2 ended at " ++
      addressText new
  | .imageTooLarge length =>
    "image of " ++ toString length ++ " bytes is too large for the image file format"

def Fault.message (line : Nat) : Fault → String
  | .unknownMnemonic mnemonic => onLine line ("unknown mnemonic '" ++ mnemonic ++ "'")
  | .operandCount mnemonic expected given =>
    onLine line (mnemonic ++ " takes " ++ toString expected ++ " operand(s) but " ++
      toString given ++ " were given")
  | .malformedString =>
    onLine line
      "malformed string declaration; the text must be surrounded by a pair of double quotes"
  | .missingTerminator => onLine line "statement is not terminated by ';'"
  | .illegalByte literal => onLine line ("illegal byte literal '" ++ literal ++ "'")
  | .labelConflict name old new =>
    onLine line ("label '" ++ name ++ "' is already defined as " ++ addressText old ++
      " and cannot be redefined as " ++ addressText new)
  | .undefinedLabel name => onLine line ("label '" ++ name ++ "' is not defined")
  | .stackMisuse fault => onLine line fault.message
  | .invalidOperand operand fault =>
    onLine line ("invalid operand '" ++ operand ++ "': " ++ fault.message)
  | .invalidStatement text => onLine line ("invalid statement '" ++ text ++ "'")
  | .unsupportedType name =>
    onLine line ("unsupported data type '" ++ name ++ "' (or perhaps a missing semicolon?)")
  | .internal fault => "internal error in the assembler: " ++ fault.message line

def Error.message (e : Error) : String := e.fault.message e.line

/-- A fault on a line. -/
def atLine {α : Type} (line : Nat) : Except Fault α → Except Error α
  | .ok a => .ok a
  | .error fault => .error ⟨line, fault⟩

end WordMachine.Assembly
