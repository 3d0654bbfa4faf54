/-
Source text before it is divided into statements: trigraphs are replaced, directives are obeyed, and
every other line is expanded by the macros defined above it. A directive leaves an empty line, so
that line numbers stay as they were.
-/
import WordMachine.Text.Blank
import WordMachine.Text.Case
import WordMachine.Text.Line
import WordMachine.Cflat.Error
import WordMachine.Cflat.Macro
import WordMachine.Cflat.Options
import WordMachine.Cflat.Trigraph

namespace WordMachine.Cflat

/-! ## Directives -/

/-- A line that changes the macros. -/
inductive Directive where
  | define (definition : Macro)
  | undefine (name : List Char)
  deriving Repr, DecidableEq

namespace Directive

/-- The fields of a directive are set apart by spaces and tabs. -/
def isSeparator (c : Char) : Bool := c == ' ' || c == '\t'

/-- The text up to the first separator, and the text after the separators there. -/
def splitField (cs : List Char) : List Char × List Char :=
  (cs.takeWhile (!isSeparator ·), (cs.dropWhile (!isSeparator ·)).dropWhile isSeparator)

/-- Reads the text after the `#` of a directive line. -/
def read (cs : List Char) : Except Fault Directive :=
  let (command, rest) := splitField (Text.trim cs)
  let (name, replacement) := splitField rest
  let command := Text.lower (String.ofList command)
  if command = "define" then
    if name.isEmpty then .error (.malformed .macroNameMissing)
    else .ok (.define ⟨name, Text.trim replacement⟩)
  else if command = "undef" then
    if name.isEmpty then .error (.malformed .macroNameMissing) else .ok (.undefine name)
  else if command = "include" then .error (.unimplemented "#include")
  else .error (.unknownDirective command)

/-- Why a directive is not obeyed, if the pattern of a name that it defines cannot be built. -/
def fault? (limits : PatternLimits) : Directive → Option Fault
  | .define definition => (limits definition.name).map fun cause =>
    .internal (.patternNotBuilt (String.ofList definition.name) cause)
  | .undefine _ => none

/-- The macros after a directive. -/
def apply (table : MacroTable) : Directive → MacroTable
  | .define definition => table.define definition
  | .undefine name => table.undefine name

/-- The text after the `#`, if the line is a directive: its first character that is not blank is
`#`. -/
def body? (line : List Char) : Option (List Char) :=
  match Text.trimStart line with
  | '#' :: rest => some rest
  | _ => none

end Directive

/-! ## Lines -/

/-- What the first of the lines becomes under the macros `table`, and the macros after it. -/
def expandLine (table : MacroTable) (line : List Char) (limits : PatternLimits := .none) :
    Except Fault (List Char × MacroTable) :=
  match Directive.body? line with
  | none => .ok (table.expand line, table)
  | some body =>
    match Directive.read body with
    | .error fault => .error fault
    | .ok directive =>
      match directive.fault? limits with
      | some fault => .error fault
      | none => .ok ([], directive.apply table)

/-- What the lines from line `number` on become, where `table` holds the macros defined above. -/
def expandLines (number : Nat) (table : MacroTable) (lines : List (List Char))
    (limits : PatternLimits := .none) : Except Error (List (List Char)) :=
  match lines with
  | [] => .ok []
  | line :: lines =>
    match expandLine table line limits with
    | .error fault => .error ⟨number, fault⟩
    | .ok (expanded, table) =>
      match expandLines (number + 1) table lines limits with
      | .error e => .error e
      | .ok rest => .ok (expanded :: rest)

/-- Replaces trigraphs, if the options ask for it, and obeys the directives of a source text. Every
line of the result ends with a line feed. -/
def expandSource (o : Options) (source : String) (limits : PatternLimits := .none) :
    Except Error String :=
  let text := if o.trigraphs then replaceTrigraphs source.toList else source.toList
  match expandLines 1 [] (Text.lines text) limits with
  | .error e => .error e
  | .ok lines => .ok (String.ofList (lines.flatMap (· ++ ['\n'])))

end WordMachine.Cflat
