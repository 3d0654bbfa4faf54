/-
Assembling files: source text is read from one file and the image written to another.
-/
import WordMachine.Assembly.Program
import WordMachine.Directory

namespace WordMachine.Assembly

/-- Why a file could not be assembled or an image not be read. -/
inductive FileError where
  | program (error : Error)
  | input (name : String) (fault : FileFault)
  | output (name : String) (fault : FileFault)
  | badImage (name : String) (fault : ImageFault)
  deriving Repr, DecidableEq

def FileError.message : FileError → String
  | .program error => error.message
  | .input name fault => "I/O error reading input file " ++ name ++ ": " ++ fault.message
  | .output name fault => "I/O error writing output file " ++ name ++ ": " ++ fault.message
  | .badImage name fault => name ++ " is not a valid program image: " ++ fault.message

/-- Assembles the text in a file. -/
def assembleInput (d : Directory) (input : String) (origin : Address) :
    Except FileError Program :=
  match d.readText input with
  | .error fault => .error (.input input fault)
  | .ok source =>
    match assemble origin source with
    | .error e => .error (.program e)
    | .ok program => .ok program

/-- The content of the file that an image is written to. The number of bytes has to fit in the
header. -/
def fileOf (image : Image) : Except FileError (List UInt8) :=
  if image.bytes.length < UInt32.size then .ok image.encode
  else .error (.program ⟨1, .internal (.imageTooLarge image.bytes.length)⟩)

/-- Writes an image to a file, which is opened first. The directory after it comes with the result, whether it
failed or not. -/
def storeImage (d : Directory) (output : String) (image : Image) : Except FileError Unit × Directory :=
  match d.openEmpty output with
  | .error fault => (.error (.output output fault), d)
  | .ok opened =>
    match fileOf image with
    | .error e => (.error e, opened)
    | .ok content => (.ok (), opened.put output content)

/-- An image from the content of the file of the given name. -/
def imageOf (name : String) (content : List UInt8) : Except FileError Image :=
  match Image.decode content with
  | .error fault => .error (.badImage name fault)
  | .ok image => .ok image

/-- Reads an image from a file. -/
def loadImage (d : Directory) (name : String) : Except FileError Image :=
  match d.read name with
  | .error fault => .error (.input name fault)
  | .ok content => imageOf name content

end WordMachine.Assembly
