/-
Dividing assembly source into statements, and statements into words.

A statement ends with `;`, and `#` starts a comment that runs to the end of the line. Neither means
anything in a string literal, which ends only where a double quote is followed by `;` at once; this
also ends the statement.

Lines are counted without a bound, so a source of `2 ^ 32` newlines, at which a counter of 32 bits
overflows, is outside of what is described here.
-/
import WordMachine.Assembly.Error
import WordMachine.Text.Blank

namespace WordMachine.Assembly

/-- A statement as written, without the blanks before it. -/
structure SourceLine where
  /-- The line of the first character. -/
  line : Nat
  text : String
  deriving Repr, DecidableEq

/-! ## Statements -/

/-- What the next character is part of. -/
inductive Mode where
  | normal
  | literal
  /-- A string literal, right after a double quote in it. -/
  | quote
  | comment
  deriving Repr, DecidableEq

/-- What is known after a part of the text. -/
structure Splitter where
  mode : Mode := .normal
  /-- The line of the next character. -/
  line : Nat := 1
  /-- The text of the statement that is being read. -/
  text : String := ""
  /-- The line of the first character of `text`. -/
  start : Nat := 1
  finished : List SourceLine := []
  deriving Repr, DecidableEq

namespace Splitter

/-- Adds a character to the statement. Spaces before the first other character are dropped. -/
def push (s : Splitter) (c : Char) : Splitter :=
  if s.text.isEmpty then
    if c = ' ' then s else { s with text := s.text.push c, start := s.line }
  else { s with text := s.text.push c }

/-- Ends the statement, if there is one. -/
def endStatement (s : Splitter) : Splitter :=
  if s.text.isEmpty then s
  else { s with text := "", finished := s.finished ++ [⟨s.start, s.text⟩] }

/-- Reads a character, its effect on the line number apart. -/
def read (s : Splitter) (c : Char) : Splitter :=
  match s.mode with
  | .normal =>
    if c = ';' then s.endStatement
    else if c = '#' then { s with mode := .comment }
    else if c = '"' then { s.push c with mode := .literal }
    else if c ≠ ' ' ∧ Text.isBlank c then s
    else s.push c
  | .literal => { s.push c with mode := if c = '"' then .quote else .literal }
  | .quote =>
    if c = ';' then { s.endStatement with mode := .normal }
    else { s.push c with mode := if c = '"' then .quote else .literal }
  | .comment => if c = '\n' then { s with mode := .normal } else s

/-- Reads a character. -/
def step (s : Splitter) (c : Char) : Splitter :=
  if c = '\n' then { s.read c with line := s.line + 1 } else s.read c

/-- Ends the text, where no statement may be left. -/
def finish (s : Splitter) : Except Error (List SourceLine) :=
  if s.text.isEmpty then .ok s.finished
  else if s.mode = .literal ∨ s.mode = .quote then .error ⟨s.start, .malformedString⟩
  else .error ⟨s.start, .missingTerminator⟩

end Splitter

/-- The statements of a source text. -/
def splitSource (source : String) : Except Error (List SourceLine) :=
  (source.toList.foldl Splitter.step {}).finish

/-! ## Words -/

/-- Words are set apart by spaces, tabs and commas. -/
def isSeparator (c : Char) : Bool := c == ' ' || c == '\t' || c == ','

/-- The words of a text. -/
def splitWords : List Char → List (List Char)
  | [] => []
  | c :: cs =>
    if isSeparator c then splitWords cs
    else
      match cs with
      | [] => [[c]]
      | next :: _ =>
        if isSeparator next then [c] :: splitWords cs
        else
          match splitWords cs with
          | word :: words => (c :: word) :: words
          | [] => [[c]]

/-- The words of a statement. -/
def SourceLine.words (l : SourceLine) : List String :=
  (splitWords l.text.toList).map String.ofList

end WordMachine.Assembly
