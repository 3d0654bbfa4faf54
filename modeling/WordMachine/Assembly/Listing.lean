/-
Listings: the items of a program one after the other, with their addresses, words and source lines,
and the labels at the end.

An item has its address and its size only; its words are looked up in the image when they are shown, so
that a jump shows the target it has there.
-/
import WordMachine.Assembly.Item
import WordMachine.Image

namespace WordMachine.Assembly

/-! ## Lines -/

/-- A line of a listing. -/
inductive ListingLine where
  /-- The words that are reserved for a stack. -/
  | stack (origin : Address) (words : Word)
  | label (line : Nat) (address : Address) (name : LabelName)
  /-- The name of a value, and how many bytes it has. -/
  | data (line : Nat) (address : Address) (name : LabelName) (size : Word)
  /-- A word of a value. -/
  | dataWord (address : Address) (w : Word)
  /-- A word of an instruction, with a remark or without one. -/
  | instructionWord (address : Address) (w : Word) (remark : Option String)
  deriving Repr, DecidableEq

def lineRemark (line : Nat) : String := "line " ++ toString line

def ListingLine.text : ListingLine → String
  | .stack origin words => Word.hex origin ++ "  (" ++ toString words.toNat ++ " words of stack)\n"
  | .label line address name =>
    Word.hex address ++ "  :" ++ name.text ++ "; " ++ lineRemark line ++ "\n"
  | .data line address name size =>
    Word.hex address ++ "  " ++ name.text ++ ": " ++ toString size.toNat ++ " bytes of data, " ++
      lineRemark line ++ "\n"
  | .dataWord address w => Word.hex address ++ "  " ++ w.hex ++ "\n"
  | .instructionWord address w remark =>
    Image.wordLine address w ++ remark.elim "" ("  ; " ++ ·) ++ "\n"

/-! ## Words of an item -/

/-- The addresses of `n` words from an address on. -/
def addressesFrom (address : Address) : Nat → List Address
  | 0 => []
  | n + 1 => address :: addressesFrom (address + 4) n

/-- The addresses of the words of an item, as many as cover its bytes. -/
def Item.addresses (item : Item) : List Address :=
  addressesFrom item.address ((item.size.toNat + 3) / 4)

/-- The lines of the words that an image has at some addresses. -/
def linesAt (image : Image) (line : Address → Word → ListingLine) (addresses : List Address) :
    List ListingLine :=
  addresses.filterMap fun a => (image.wordAt? a.toNat).map (line a)

/-- The lines of the instruction words at some addresses, that at the first with a remark. -/
def instructionLines (image : Image) (remark : String) : List Address → List ListingLine
  | [] => []
  | a :: rest =>
    linesAt image (.instructionWord · · (some remark)) [a] ++
      linesAt image (.instructionWord · · none) rest

/-- The lines of an item. -/
def Item.lines (image : Image) (item : Item) : List ListingLine :=
  match item with
  | .skip .. => instructionLines image "skip data" item.addresses
  | .label line address name => [.label line address name]
  | .data line address name _ =>
    .data line address name item.size :: linesAt image .dataWord item.addresses
  | .instruction line _ _ => instructionLines image (lineRemark line) item.addresses
  | .halt _ => instructionLines image "end of program" item.addresses

/-! ## Listings -/

/-- The lines of a program: its stack and its items. -/
def listingLines (image : Image) (items : List Item) : List ListingLine :=
  (if image.stackWords = 0 then [] else [.stack image.origin image.stackWords]) ++
    items.flatMap (Item.lines image)

/-- The listing of a program: its lines and its labels. -/
def listing (image : Image) (items : List Item) (labels : LabelTable) : String :=
  String.join ((listingLines image items).map ListingLine.text) ++
    (if labels.isEmpty then "" else "\nLabels:\n" ++ labels.render)

end WordMachine.Assembly
