/-
A directory of files, as far as the commands need one: files are read whole and written whole, and a
file can be written only into a folder that is there. Two names with the same steps name one file.

Links, `..` and rights are left out, and so is a file that stands where a folder is named.
-/
namespace WordMachine

/-- The files that a command can reach, by name. -/
structure Directory where
  files : List (String × List UInt8)
  /-- The folders below the directory that files can be written into. -/
  folders : List String := []
  deriving Repr, DecidableEq

/-- Why a file cannot be read or written. -/
inductive FileFault where
  | missing
  | isFolder
  | notText
  deriving Repr, DecidableEq

def FileFault.message : FileFault → String
  | .missing => "No such file or directory (os error 2)"
  | .isFolder => "Is a directory (os error 21)"
  | .notText => "stream did not contain valid UTF-8"

namespace Directory

/-! ## Names -/

/-- The steps of a name, each into a folder but for the last. A `.` and a slash more make no step, and a
slash at the start leads to the root. -/
def steps (name : String) : List (List Char) :=
  let runs := name.toList.splitBy fun c d => (c == '/') == (d == '/')
  (if name.toList.head? = some '/' then [['/']] else []) ++
    runs.filter fun run => run.head? ≠ some '/' ∧ run ≠ ['.']

/-- Is there a folder of these steps? -/
def hasFolder (d : Directory) (path : List (List Char)) : Bool :=
  path.isEmpty || path == [['/']] || d.folders.any fun folder => path.isPrefixOf (steps folder)

/-- Does the name mean a folder, by what is there or by a slash at its end? -/
def namesFolder (d : Directory) (name : String) : Bool :=
  !name.isEmpty && (d.hasFolder (steps name) || name.toList.getLast? == some '/')

/-! ## Reading -/

/-- The content of a file. -/
def read? (d : Directory) (name : String) : Option (List UInt8) :=
  (d.files.find? fun file => steps file.1 = steps name).map (·.2)

/-- The content of a file, which has to be there. -/
def read (d : Directory) (name : String) : Except FileFault (List UInt8) :=
  if d.namesFolder name then .error .isFolder
  else
    match d.read? name with
    | some content => .ok content
    | none => .error .missing

/-- The text in a file. -/
def readText (d : Directory) (name : String) : Except FileFault String := do
  match String.fromUTF8? ⟨(← d.read name).toArray⟩ with
  | some text => return text
  | none => throw .notText

/-! ## Writing -/

/-- Why no file of this name can be written, if none can. -/
def writeFault? (d : Directory) (name : String) : Option FileFault :=
  if name.isEmpty then some .missing
  else if d.namesFolder name then some .isFolder
  else if d.hasFolder (steps name).dropLast then none
  else some .missing

/-- The directory with a file of the given content, in place of the one that had the name. -/
def put (d : Directory) (name : String) (content : List UInt8) : Directory :=
  { d with files := (name, content) :: d.files.filter fun file => steps file.1 ≠ steps name }

/-- Opens a file to write it. What was in the file is lost by this. -/
def openEmpty (d : Directory) (name : String) : Except FileFault Directory :=
  match d.writeFault? name with
  | some fault => .error fault
  | none => .ok (d.put name [])

end Directory

end WordMachine
