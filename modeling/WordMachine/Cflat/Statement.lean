/-
Statements as runs of tokens, each with the line and the nesting depth it was found at.
-/
import WordMachine.Cflat.Token
import WordMachine.Text.Numeral

namespace WordMachine.Cflat

/-- One statement of a program, or the part of one before a brace. -/
structure Statement where
  /-- The line of the first token. -/
  line : Nat
  /-- The number of braces around the statement; braces that it opens itself do not count. -/
  depth : Nat
  tokens : List Token
  /-- Did an opening brace end the statement? -/
  opensBlock : Bool
  deriving Repr, DecidableEq

/-- The line and the depth in columns, the tokens with spaces between them, and the opening brace. -/
def Statement.render (s : Statement) : String :=
  Text.padLeft 4 (toString s.line) ' ' ++ " " ++ Text.padLeft 2 (toString s.depth) ' ' ++ " " ++
    " ".intercalate s.tokens ++ (if s.opensBlock then " \x7b" else "")

end WordMachine.Cflat
