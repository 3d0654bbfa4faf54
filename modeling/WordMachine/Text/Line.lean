/-
Lines of a text. A line ends at a line feed, or at a carriage return and a line feed; what follows the
last line feed is a line if it is not empty.
-/
namespace WordMachine.Text

/-- The texts before each line feed, and the text after the last one. -/
def splitFeeds : List Char → List (List Char) × List Char
  | [] => ([], [])
  | c :: cs =>
    match splitFeeds cs with
    | (lines, rest) =>
      if c = '\n' then ([] :: lines, rest)
      else
        match lines with
        | [] => ([], c :: rest)
        | line :: lines => ((c :: line) :: lines, rest)

/-- A line without the carriage return at its end. -/
def dropReturn (line : List Char) : List Char :=
  if line.getLast? = some '\r' then line.dropLast else line

/-- The lines of a text. -/
def lines (cs : List Char) : List (List Char) :=
  let (ended, rest) := splitFeeds cs
  ended.map dropReturn ++ (if rest.isEmpty then [] else [rest])

end WordMachine.Text
