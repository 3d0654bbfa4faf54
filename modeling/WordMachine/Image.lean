/-
Program images: the bytes of a program, where they are loaded, and the stack reserved before them;
the file format of images, and the instructions in them.

A file starts with four letters, followed by the size of the stack in words, the origin and the
number of bytes, each in four bytes with the lowest first; the bytes of the program follow.
-/
import WordMachine.Instruction

namespace WordMachine

/-- A program that is ready to be loaded. `stackWords` words are reserved at `origin`, and the bytes
come after them. -/
structure Image where
  origin : Address
  stackWords : Word
  bytes : List UInt8
  deriving Repr, DecidableEq

/-- Why the content of a file is no image. -/
inductive ImageFault where
  | tooShort (length : Nat)
  | wrongStart
  | truncated (promised present : Nat)
  | excess (length : Nat)
  deriving Repr, DecidableEq

def ImageFault.message : ImageFault → String
  | .tooShort length =>
    "the file is only " ++ toString length ++ " bytes long, too short for the 16-byte header"
  | .wrongStart => "the file does not begin with TBIM"
  | .truncated promised present =>
    "the header promises " ++ toString promised ++ " bytes of program but only " ++
      toString present ++ " are present"
  | .excess length =>
    "there are " ++ toString length ++ " bytes of unexpected data after the program"

namespace Image

/-- The address of the first byte. -/
def loadAddress (i : Image) : Address := i.origin + 4 * i.stackWords

/-! ## Files -/

/-- The letters that an image file starts with. -/
def magic : List UInt8 := "TBIM".toUTF8.toList

/-- The content of an image file. -/
def encode (i : Image) : List UInt8 :=
  magic ++ i.stackWords.toBytes ++ Word.toBytes i.origin ++
    Word.toBytes i.bytes.length.toUInt32 ++ i.bytes

/-- Reads the content of an image file. -/
def decode (content : List UInt8) : Except ImageFault Image :=
  match content with
  | m₀ :: m₁ :: m₂ :: m₃ :: s₀ :: s₁ :: s₂ :: s₃ :: o₀ :: o₁ :: o₂ :: o₃ ::
      l₀ :: l₁ :: l₂ :: l₃ :: bytes =>
    let length := (Word.ofBytes l₀ l₁ l₂ l₃).toNat
    if [m₀, m₁, m₂, m₃] ≠ magic then .error .wrongStart
    else if bytes.length < length then .error (.truncated length bytes.length)
    else if length < bytes.length then .error (.excess (bytes.length - length))
    else .ok ⟨Word.ofBytes o₀ o₁ o₂ o₃, Word.ofBytes s₀ s₁ s₂ s₃, bytes⟩
  | _ => .error (.tooShort content.length)

/-! ## Words -/

/-- The whole words in a row of bytes. -/
def wordsOf : List UInt8 → List Word
  | b₀ :: b₁ :: b₂ :: b₃ :: rest => Word.ofBytes b₀ b₁ b₂ b₃ :: wordsOf rest
  | _ => []

/-- The word at an address, if there are four bytes of the image from there on. -/
def wordAt? (i : Image) (address : Nat) : Option Word :=
  if i.loadAddress.toNat ≤ address then (wordsOf (i.bytes.drop (address - i.loadAddress.toNat))).head?
  else none

/-- A word with its address and the instruction it stands for, in columns. -/
def wordLine (address : Address) (w : Word) : String :=
  let symbolic := (Instruction.ofWord? w).elim "??" Instruction.render
  Word.hex address ++ "  " ++ w.hex ++ "  " ++ Text.padRight 28 symbolic

/-- One line for each of the words from an address on. -/
def linesFrom (address : Address) : List Word → String
  | [] => ""
  | w :: rest => wordLine address w ++ "\n" ++ linesFrom (address + 4) rest

/-- The words of an image as instructions, one a line. -/
def disassembly (i : Image) : String := linesFrom i.loadAddress (wordsOf i.bytes)

end Image

end WordMachine
