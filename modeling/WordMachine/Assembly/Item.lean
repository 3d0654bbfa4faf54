/-
What a program becomes: a list of items, each at its address, whose bytes in a row are the program.

The items are made in one walk over the statements, with every label's address known from the layout.
The walk also returns the address where execution goes on after data or subroutines; a jump that
steps over them takes its target from the rest of the walk.
-/
import WordMachine.Assembly.Layout

namespace WordMachine.Assembly

/-- A part of a program, at its address. -/
inductive Item where
  /-- A jump over data or subroutines. -/
  | skip (address target : Address)
  | label (line : Nat) (address : Address) (name : LabelName)
  | data (line : Nat) (address : Address) (name : LabelName) (bytes : List UInt8)
  | instruction (line : Nat) (address : Address) (words : List Word)
  /-- The end of the program. -/
  | halt (address : Address)
  deriving Repr, DecidableEq

namespace Item

def address : Item → Address
  | .skip address _ | .label _ address _ | .data _ address _ _ | .instruction _ address _ | .halt address =>
    address

/-- The number of bytes that an item takes, modulo `2 ^ 32`. -/
def size : Item → Word
  | .skip .. | .halt _ => 4
  | .label .. => 0
  | .data _ _ _ bytes => bytes.length.toUInt32
  | .instruction _ _ words => (4 * words.length).toUInt32

end Item

/-- The word of a jump to an address. -/
def jumpTo (target : Address) : Word :=
  JumpCondition.always.bits ||| OperandKind.pack .address 0 (target >>> 2)

/-- The bytes of an item. -/
def Item.bytes : Item → List UInt8
  | .skip _ target => (jumpTo target).toBytes
  | .label .. => []
  | .data _ _ _ bytes => bytes
  | .instruction _ _ words => words.flatMap Word.toBytes
  | .halt _ => (0 : Word).toBytes

/-! ## Bytes of data -/

/-- The bytes with zeros up to a multiple of four. -/
def padToWord (bytes : List UInt8) : List UInt8 :=
  bytes ++ List.replicate (roundUp bytes.length - bytes.length) 0

def ByteItem.bytes (labels : LabelTable) : ByteItem → Except Fault (List UInt8)
  | .literal value => .ok [value]
  | .address label => (labels.addressOf label).map Word.toBytes

/-- The bytes of a value. -/
def Payload.encode (labels : LabelTable) : Payload → Except Fault (List UInt8)
  | .text content => .ok (padToWord (content ++ [0]))
  | .word value => .ok value.toBytes
  | .bytes items => (items.mapM (ByteItem.bytes labels)).map fun parts => padToWord parts.flatten

/-! ## Items of a program -/

/-- The items of a statement other than a header, and the address after it. -/
def itemsOf (labels : LabelTable) (address : Address) (s : Statement) :
    Except Fault (List Item × Address) :=
  match s.kind with
  | .header _ | .stack _ => .ok ([], address)
  | .label name => do
    labels.confirm name address
    return ([.label s.line address name], address)
  | .data name payload => do
    labels.confirm name address
    let bytes ← payload.encode labels
    return ([.data s.line address name bytes], address + bytes.length.toUInt32)
  | .instruction line => do
    let words ← line.encode labels
    return ([.instruction s.line address words], address + (4 * words.length).toUInt32)

/-- The items of a part of a program. -/
structure Rest where
  items : List Item
  /-- Where execution goes on after data or subroutines before this part. -/
  resume : Address

/-- The items of the statements from an address on, and of the word that ends the program. `pending`
says that a jump before them is waiting for its target. -/
def emitFrom (layout : Layout) (address : Address) (current : Section) (pending : Bool) :
    List Statement → Except Error Rest
  | [] =>
    if address + 4 = layout.stop then .ok ⟨[.halt address], address⟩
    else .error ⟨1, .internal (.endMoved layout.stop (address + 4))⟩
  | s :: rest =>
    match s.kind with
    | .header kind => emitFrom layout address kind pending rest
    | _ => do
      let jump := needsJump current pending
      let start := if jump then address + 4 else address
      let (items, next) ← atLine s.line (itemsOf layout.labels start s)
      let after ← emitFrom layout next current (leavesPending current) rest
      let resume := if current = .code then address else after.resume
      return ⟨(if jump then [.skip address resume] else []) ++ items ++ after.items, resume⟩

/-- The items of a program. -/
def emit (layout : Layout) (load : Address) (statements : List Statement) :
    Except Error (List Item) := do
  return (← emitFrom layout load .code false statements).items

end WordMachine.Assembly
