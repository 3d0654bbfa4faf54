/-
The machine words of an instruction line. The number of words depends on the mnemonic alone, so that
addresses can be found before labels are known.
-/
import WordMachine.Assembly.Statement
import WordMachine.Mnemonic

namespace WordMachine.Assembly

/-- Is this `NOP`, another name for `MOV r1, r1`? -/
def isNop (mnemonic : String) : Bool :=
  mnemonic.toList.map Char.toUpper == ['N', 'O', 'P']

/-- The word of `MOV r1, r1`. -/
def nopWord : Word := 0x20

/-- The pattern and the signature of a mnemonic. -/
def lookupMnemonic (mnemonic : String) : Except Fault (Word × Signature) :=
  match Mnemonic.pattern? mnemonic with
  | none => .error (.unknownMnemonic mnemonic)
  | some pattern =>
    match OpcodeClass.ofWord? pattern with
    | none => .error (.unknownMnemonic mnemonic)
    | some c => .ok (pattern, c.signature)

/-- The number of words of an instruction. -/
def InstructionLine.wordCount (i : InstructionLine) : Except Fault Nat :=
  if isNop i.mnemonic then .ok 1
  else (lookupMnemonic i.mnemonic).map fun entry => entry.2.wordCount

/-- The value of an operand of the given kind. A label stands for its address in words. -/
def resolveOperand (labels : LabelTable) (kind : OperandKind) (word : String) :
    Except Fault Word :=
  let refuse (fault : OperandFault) : Except Fault Word := .error (.invalidOperand word fault)
  match kind, OperandToken.classify? word with
  | .register, some (.register n) =>
    if 1 ≤ n ∧ n ≤ 8 then .ok (n - 1).toUInt32 else refuse .registerExpected
  | .register, _ => refuse .registerExpected
  | _, some (.label name) => (labels.addressOf (.ofText name)).map fun (a : Address) => a >>> 2
  | _, some (.integer n) => .ok n
  | .fullWord, some (.float bits) => .ok bits
  | _, some (.float _) => refuse .floatMisplaced
  | _, some (.register _) => refuse .registerMisplaced
  | _, none => refuse .notAnOperand

/-- The operands of an instruction put into its words. -/
structure Packed where
  /-- The pattern with the operands in their fields. -/
  word : Word
  /-- The operand that takes a full word, if there is one. -/
  full : Option Word := none
  deriving Repr, DecidableEq

/-- Adds operands, the first of them being operand `position`. -/
def Packed.addOperands (labels : LabelTable) (p : Packed) (position : Nat) :
    Signature → List String → Except Fault Packed
  | kind :: kinds, operand :: operands => do
    let value ← resolveOperand labels kind operand
    let p : Packed :=
      if kind = .fullWord then { p with full := some value }
      else { p with word := p.word ||| kind.pack position value }
    p.addOperands labels (position + 1) kinds operands
  | _, _ => .ok p

/-- The words of packed operands: a full word is carried in two halves. -/
def Packed.words (p : Packed) : List Word :=
  match p.full with
  | none => [p.word]
  | some value =>
    [p.word ||| (value &&& Word.halfWordMask), p.word ||| Word.highHalfMarker ||| (value >>> 16)]

/-- The words of an instruction. -/
def InstructionLine.encode (i : InstructionLine) (labels : LabelTable) :
    Except Fault (List Word) := do
  if isNop i.mnemonic then
    if i.operands.isEmpty then return [nopWord]
    else throw (.operandCount i.mnemonic 0 i.operands.length)
  else
    let (pattern, signature) ← lookupMnemonic i.mnemonic
    if signature.length ≠ i.operands.length then
      throw (.operandCount i.mnemonic signature.length i.operands.length)
    let packed ← Packed.addOperands labels { word := pattern } 0 signature i.operands
    return packed.words

end WordMachine.Assembly
