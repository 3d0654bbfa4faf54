/-
Labels: names for addresses. Names are compared in lower case, and a table keeps them in order.
-/
import WordMachine.Assembly.Error
import WordMachine.Text.Case

namespace WordMachine.Assembly

/-- The name of a label, in lower case. -/
structure LabelName where
  text : String
  deriving Repr, DecidableEq

/-- The name that a text writes, in any case. -/
def LabelName.ofText (s : String) : LabelName := ⟨Text.lower s⟩

/-- The addresses of labels, in the order of the names. -/
abbrev LabelTable := List (LabelName × Address)

namespace LabelTable

/-- The address of a label. -/
def get? (table : LabelTable) (name : LabelName) : Option Address := table.lookup name

/-- The table with a label more, which stands before the first greater name. -/
def insert (name : LabelName) (address : Address) : LabelTable → LabelTable
  | [] => [(name, address)]
  | entry :: rest =>
    if name.text < entry.1.text then (name, address) :: entry :: rest
    else entry :: insert name address rest

/-- The table with a label at an address. A label may be defined again at the address it has. -/
def define (table : LabelTable) (name : LabelName) (address : Address) :
    Except Fault LabelTable :=
  match table.get? name with
  | none => .ok (insert name address table)
  | some old =>
    if old = address then .ok table else .error (.labelConflict name.text old address)

/-- The address of a label that has to be defined. -/
def addressOf (table : LabelTable) (name : LabelName) : Except Fault Address :=
  match table.get? name with
  | some address => .ok address
  | none => .error (.undefinedLabel name.text)

/-- Checks that a label has the given address. -/
def confirm (table : LabelTable) (name : LabelName) (address : Address) : Except Fault Unit :=
  match table.get? name with
  | none => .error (.internal (.labelNotSeen name.text))
  | some old =>
    if old = address then .ok () else .error (.internal (.labelMoved name.text old address))

/-- One label a line, after its address. -/
def render (table : LabelTable) : String :=
  String.join (table.map fun (name, address) => Word.hex address ++ " " ++ name.text ++ "\n")

end LabelTable

end WordMachine.Assembly
