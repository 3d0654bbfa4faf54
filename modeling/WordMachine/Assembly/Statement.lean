/-
The statements of an assembly program, and how they are read. What a line may be depends on the
section it stands in; addresses play no part yet.
-/
import WordMachine.Assembly.Label
import WordMachine.Assembly.Line
import WordMachine.Assembly.OperandToken

namespace WordMachine.Assembly

/-- The sections of a program. -/
inductive Section where
  | code
  | data
  /-- Subroutines. Execution does not fall through into them. -/
  | subroutine
  deriving Repr, DecidableEq

/-- A part of a list of bytes. -/
inductive ByteItem where
  | literal (value : UInt8)
  /-- The four bytes of a label's address. -/
  | address (label : LabelName)
  deriving Repr, DecidableEq

/-- The value of a data declaration. -/
inductive Payload where
  /-- A text, without the zero byte after it. -/
  | text (content : List UInt8)
  | word (value : Word)
  | bytes (items : List ByteItem)
  deriving Repr, DecidableEq

/-- An instruction as written. -/
structure InstructionLine where
  mnemonic : String
  operands : List String
  deriving Repr, DecidableEq

inductive StatementKind where
  /-- The start of a section. -/
  | header (kind : Section)
  /-- The reservation of words for a stack before the program. -/
  | stack (words : Word)
  | label (name : LabelName)
  | data (name : LabelName) (payload : Payload)
  | instruction (line : InstructionLine)
  deriving Repr, DecidableEq

/-- A statement and the line it starts on. -/
structure Statement where
  line : Nat
  kind : StatementKind
  deriving Repr, DecidableEq

/-! ## Section headers -/

/-- Reads the operands of a stack reservation. -/
def readStack (operands : List String) : Except Fault StatementKind :=
  match operands with
  | [count] =>
    match OperandToken.classify? count with
    | some (.integer n) => .ok (.stack n)
    | _ => .error (.invalidOperand count .stackSize)
  | _ => .error (.stackMisuse .operandCount)

/-- Reads the start of a section or the reservation of a stack. -/
def readHeader (source : SourceLine) (word : String) (operands : List String) :
    Except Fault StatementKind :=
  let name := Text.upper word
  let start (kind : Section) : Except Fault StatementKind :=
    if operands.isEmpty then .ok (.header kind) else .error (.invalidStatement source.text)
  if name = ".CODE" then start .code
  else if name = ".DATA" then start .data
  else if name = ".FUNC" then start .subroutine
  else if name = ".STACK" then readStack operands
  else .error (.invalidStatement source.text)

/-! ## Data -/

/-- The text between the first and the last double quote, if these are two. -/
def quotedPart? (cs : List Char) : Option (List Char) :=
  match cs.dropWhile (· ≠ '"') with
  | _ :: rest =>
    if rest.contains '"' then some (rest.reverse.dropWhile (· ≠ '"')).tail.reverse else none
  | [] => none

/-- Reads a part of a list of bytes. -/
def readByteItem (word : String) : Except Fault ByteItem :=
  match OperandToken.classify? word with
  | some (.integer n) => if n < 256 then .ok (.literal n.toUInt8) else .error (.illegalByte word)
  | some (.label name) => .ok (.address (.ofText name))
  | _ => .error (.illegalByte word)

/-- Reads an integer as a word. -/
def readInteger (word : String) : Except Fault Word :=
  match OperandToken.classify? word with
  | some (.integer n) => .ok n
  | _ => .error (.invalidOperand word .integerExpected)

/-- The text without any `f` at its end. -/
def dropFloatMarks (cs : List Char) : List Char :=
  (cs.reverse.dropWhile fun c => c == 'f' || c == 'F').reverse

/-- Reads a number as the bits of the nearest single-precision number. -/
def readFloat (word : String) : Except Fault Word :=
  match NumberText.read (dropFloatMarks word.toList) with
  | .ok number => .ok (BinaryFormat.single.ofNumberText number).toUInt32
  | .error fault => .error (.invalidOperand word (.notANumber fault))

/-- Reads at most one word, or takes zero for none. -/
def readSingle (source : SourceLine) (read : String → Except Fault Word) (words : List String) :
    Except Fault Payload :=
  match words with
  | [] => .ok (.word 0)
  | [word] => (read word).map .word
  | _ => .error (.invalidStatement source.text)

/-- Reads the value of a data declaration of the given type. -/
def readPayload (source : SourceLine) (type : String) (words : List String) :
    Except Fault Payload :=
  let name := Text.upper type
  if name = "STRING" then
    match quotedPart? source.text.toList with
    | some text => .ok (.text (String.ofList text).toUTF8.toList)
    | none => .error .malformedString
  else if name = "INT" then readSingle source readInteger words
  else if name = "FLOAT" then readSingle source readFloat words
  else if name = "BYTES" then (words.mapM readByteItem).map .bytes
  else .error (.unsupportedType type)

/-- Reads a data declaration: a type, a name and a value. -/
def readData (source : SourceLine) (type : String) (rest : List String) :
    Except Fault StatementKind :=
  match rest with
  | name :: words =>
    if name.startsWith "\"" then .error (.invalidStatement source.text)
    else (readPayload source type words).map (.data (.ofText name))
  | [] => .error (.invalidStatement source.text)

/-! ## Code -/

/-- Reads a label or an instruction. -/
def readCode (source : SourceLine) (word : String) (operands : List String) :
    Except Fault StatementKind :=
  match word.toList with
  | ':' :: name =>
    if name.isEmpty ∨ !operands.isEmpty then .error (.invalidStatement source.text)
    else .ok (.label (.ofText (String.ofList name)))
  | _ => .ok (.instruction ⟨word, operands⟩)

/-! ## Programs -/

/-- Reads a statement in a section; one without words is none. -/
def readLine (current : Section) (source : SourceLine) : Except Fault (Option StatementKind) :=
  match source.words with
  | [] => .ok none
  | word :: rest =>
    if source.text.startsWith "@" then .error (.invalidStatement source.text)
    else if word.startsWith "." then (readHeader source word rest).map some
    else if current = .data then (readData source word rest).map some
    else (readCode source word rest).map some

/-- What a program may hold after the statements read so far. -/
structure Position where
  current : Section := .code
  /-- Has a statement been read? -/
  started : Bool := false
  /-- Has a stack been reserved? -/
  stacked : Bool := false
  deriving Repr, DecidableEq

/-- Checks a statement against those before it. -/
def Position.next (p : Position) : StatementKind → Except Fault Position
  | .header kind => .ok { p with current := kind, started := true }
  | .stack _ =>
    if p.stacked then .error (.stackMisuse .repeated)
    else if p.started then .error (.stackMisuse .notFirst)
    else .ok { p with started := true, stacked := true }
  | _ => .ok { p with started := true }

/-- Reads the statements from a position on. -/
def readFrom (p : Position) : List SourceLine → Except Error (List Statement)
  | [] => .ok []
  | source :: rest => do
    match ← atLine source.line (readLine p.current source) with
    | none => readFrom p rest
    | some kind =>
      let p ← atLine source.line (p.next kind)
      return ⟨source.line, kind⟩ :: (← readFrom p rest)

/-- Reads the statements of a program. -/
def readProgram (lines : List SourceLine) : Except Error (List Statement) := readFrom {} lines

end WordMachine.Assembly
