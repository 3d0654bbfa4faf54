/-
Macros: names that stand for a text wherever they occur as a whole word. The table keeps the order in
which names were first defined, and a line is expanded by one macro after the other in that order.
-/
import WordMachine.Text.WordChar

namespace WordMachine.Cflat

/-- A name and the text it stands for. -/
structure Macro where
  name : List Char
  replacement : List Char
  deriving Repr, DecidableEq

/-- The names for which no pattern can be built to find them by, with the reason. What is built is up
to a library with limits of its own, which are not described here. -/
abbrev PatternLimits := List Char → Option String

/-- A pattern can be built for every name. -/
def PatternLimits.none : PatternLimits := fun _ => .none

/-! ## Words in a text -/

/-- Does a word start or end between two neighbours? The text's ends count as no word character. -/
def isBoundary (before after : Option Char) : Bool :=
  before.any Text.isWordChar != after.any Text.isWordChar

/-- Does the text start with `name`, with a word boundary on either side of it? `before` is the
character in front of the text. -/
def startsWithWord (name : List Char) (before : Option Char) (text : List Char) : Bool :=
  name.isPrefixOf text && isBoundary before text.head? &&
    isBoundary name.getLast? (text.drop name.length).head?

/-- Replaces every occurrence of `name` between word boundaries, the leftmost first. `before` is the
character in front of the text. -/
def replaceWord (name replacement : List Char) (before : Option Char) : List Char → List Char
  | [] => []
  | c :: rest =>
    if startsWithWord name before (c :: rest) then
      replacement ++ replaceWord name replacement name.getLast? (rest.drop (name.length - 1))
    else c :: replaceWord name replacement (some c) rest
termination_by text => text.length

/-! ## Tables -/

/-- The macros that are defined, each name once. -/
abbrev MacroTable := List Macro

namespace MacroTable

/-- Defines a name; a name that is defined already keeps its place. -/
def define (table : MacroTable) (m : Macro) : MacroTable :=
  if table.any (·.name = m.name) then table.map fun old => if old.name = m.name then m else old
  else table ++ [m]

def undefine (table : MacroTable) (name : List Char) : MacroTable :=
  table.filter (·.name ≠ name)

/-- The text with every macro replaced, one after the other. -/
def expand (table : MacroTable) (text : List Char) : List Char :=
  table.foldl (fun text m => replaceWord m.name m.replacement none text) text

end MacroTable

end WordMachine.Cflat
