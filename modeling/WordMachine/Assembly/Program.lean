/-
Assembling a source text: its statements are read, laid out and turned into items, whose bytes are
the image.
-/
import WordMachine.Assembly.Listing

namespace WordMachine.Assembly

/-- What a source text is assembled to. -/
structure Program where
  image : Image
  labels : LabelTable
  items : List Item
  deriving Repr, DecidableEq

/-- The listing of a program. -/
def Program.listing (p : Program) : String := Assembly.listing p.image p.items p.labels

/-- Assembles a source text for loading at `origin`. -/
def assemble (origin : Address) (source : String) : Except Error Program := do
  let statements ← readProgram (← splitSource source)
  let load ← loadAddress statements origin
  let layout ← Layout.ofStatements load statements
  let items ← emit layout load statements
  return ⟨⟨origin, stackWords statements, items.flatMap Item.bytes⟩, layout.labels, items⟩

end WordMachine.Assembly
