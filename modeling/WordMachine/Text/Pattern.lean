/-
Patterns of texts: characters of classes one after the other, of which some may be repeated, and parts
that may be missing or have a choice. A pattern is matched against the beginning of a text in all the
ways there are.
-/
namespace WordMachine.Text

/-- A pattern of texts. -/
inductive Pattern where
  /-- A character of a class. -/
  | one (isMember : Char → Bool)
  /-- Any number of characters of a class. -/
  | many (isMember : Char → Bool)
  /-- A text of the first pattern and one of the second after it. -/
  | seq (first second : Pattern)
  /-- A text of one of the patterns. -/
  | either (first second : Pattern)
  /-- A text of the pattern, or nothing. -/
  | optional (inner : Pattern)

namespace Pattern

/-- One or more characters of a class. -/
def run (isMember : Char → Bool) : Pattern := .seq (.one isMember) (.many isMember)

/-- What may be left of a text after any number of characters of a class, the shortest first. -/
def afterMany (isMember : Char → Bool) : List Char → List (List Char)
  | [] => [[]]
  | c :: cs => if isMember c then afterMany isMember cs ++ [c :: cs] else [c :: cs]

/-- What is left of a text after each of its beginnings that have the pattern. -/
def rests : Pattern → List Char → List (List Char)
  | .one _, [] => []
  | .one isMember, c :: cs => if isMember c then [cs] else []
  | .many isMember, cs => afterMany isMember cs
  | .seq first second, cs => (first.rests cs).flatMap second.rests
  | .either first second, cs => first.rests cs ++ second.rests cs
  | .optional inner, cs => inner.rests cs ++ [cs]

/-- Has the whole text the pattern? -/
def covers (p : Pattern) (cs : List Char) : Bool := (p.rests cs).any List.isEmpty

end Pattern

end WordMachine.Text
