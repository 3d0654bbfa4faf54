/-
Reading source text piece by piece.

Comments are dropped, a character literal becomes the number of its character, and a string literal
keeps its quotes, with its escapes decoded. A word is what stands between blanks, operators and
quotes. `Scanner` is what is known after the text read so far, and `Scanner.step` reads a piece of one
or more characters. Lines are counted without a bound, so a source of `2 ^ 32` newlines, at which a
counter of 32 bits overflows, is outside of what is described here.
-/
import WordMachine.Cflat.Error
import WordMachine.Cflat.Options
import WordMachine.Cflat.Statement
import WordMachine.Text.Blank

namespace WordMachine.Cflat

/-! ## Pieces of text -/

/-- The character that an escape sequence stands for, by the character after the backslash. -/
def escaped? (c : Char) : Option Char :=
  if c = 'a' then some '\x07'
  else if c = 'b' then some '\x08'
  else if c = 'f' then some '\x0c'
  else if c = 'n' then some '\n'
  else if c = 'r' then some '\r'
  else if c = 't' then some '\t'
  else if c = 'v' then some '\x0b'
  else if c = '0' then some '\x00'
  else if c = '\\' ∨ c = '\x27' ∨ c = '"' ∨ c = '?' then some c
  else none

/-- The character that a digraph stands for. -/
def digraph? (c next : Char) : Option Char :=
  if c = '<' ∧ next = ':' then some '['
  else if c = ':' ∧ next = '>' then some ']'
  else if c = '<' ∧ next = '%' then some '\x7b'
  else if c = '%' ∧ next = '>' then some '\x7d'
  else if c = '%' ∧ next = ':' then some '#'
  else none

/-- The longest operator that the text starts with. -/
def operatorAt? (text : List Char) : Option Token :=
  Token.operators.find? fun op => op.toList.isPrefixOf text

/-- Does the text start with a digit? -/
def startsWithDigit (text : List Char) : Bool := text.head?.any Char.isDigit

/-- Does the text start with an exponent: `e`, an optional sign and a digit? -/
def startsWithExponent : List Char → Bool
  | mark :: rest =>
    (mark == 'e' || mark == 'E') &&
      startsWithDigit (if rest.head? == some '+' || rest.head? == some '-' then rest.drop 1 else rest)
  | [] => false

/-- May a number end with a point, when this text follows the point? -/
def endsNumber : List Char → Bool
  | [] => true
  | c :: _ => Text.isBlank c || ['f', 'F', ',', ')', ';'].contains c

/-- Is a point between `word` and `rest` part of a number? -/
def isDecimalPoint (word : String) (rest : List Char) : Bool :=
  word.toList.all Char.isDigit &&
    (startsWithDigit rest || startsWithExponent rest || (!word.isEmpty && endsNumber rest))

/-- May `c` continue the fraction or exponent of a number, after the character `previous`? -/
def continuesFraction (previous c : Char) : Bool :=
  c.isDigit || ['e', 'E', 'f', 'F'].contains c ||
    ((c == '+' || c == '-') && (previous == 'e' || previous == 'E'))

/-- The characters that continue a number after the character `previous`, and the text after
them. -/
def splitFraction (previous : Char) : List Char → List Char × List Char
  | [] => ([], [])
  | c :: rest =>
    if continuesFraction previous c then
      let (fraction, after) := splitFraction c rest
      (c :: fraction, after)
    else ([], c :: rest)

/-- Skips to the end of a comment that started before the text. `line` is the line of the text's first
character. -/
def skipComment (line : Nat) : List Char → Except Error (Nat × List Char)
  | [] => .error (.malformed line .commentNotTerminated)
  | c :: rest =>
    if c = '*' ∧ rest.head? = some '/' then .ok (line, rest.drop 1)
    else skipComment (if c = '\n' then line + 1 else line) rest

/-- Reads a character literal after its opening quote: the character and the text after the closing
quote. -/
def readCharacter : List Char → Except SyntaxFault (Char × List Char)
  | '\\' :: e :: rest =>
    match escaped? e with
    | none => .error (.unknownEscape e)
    | some value => if rest.head? = some '\x27' then .ok (value, rest.drop 1) else .error .characterLiteral
  | c :: rest =>
    if c ≠ '\x27' ∧ rest.head? = some '\x27' then .ok (c, rest.drop 1) else .error .characterLiteral
  | [] => .error .characterLiteral

/-! ## The scanner -/

/-- What is known after a part of the text. -/
structure Scanner where
  /-- The line of the next character. -/
  line : Nat := 1
  /-- The number of open braces. -/
  depth : Nat := 0
  /-- The number of open parentheses. -/
  parens : Nat := 0
  /-- The line of the outermost open parenthesis. -/
  parenLine : Nat := 1
  /-- The part of a token that has been read. -/
  word : String := ""
  /-- The line on which `word` started. -/
  wordLine : Nat := 1
  /-- The tokens of the statement that is being read. -/
  current : List Token := []
  /-- The line of the first token of `current`. -/
  currentLine : Nat := 1
  /-- The statements that have been read. -/
  finished : List Statement := []
  deriving Repr, DecidableEq

namespace Scanner

/-- Adds a token to the statement. -/
def addToken (s : Scanner) (token : Token) (line : Nat) : Scanner :=
  { s with
    current := s.current ++ [token]
    currentLine := if s.current.isEmpty then line else s.currentLine }

/-- Adds a character to the word. -/
def addChar (s : Scanner) (c : Char) : Scanner :=
  { s with
    word := s.word.push c
    wordLine := if s.word.isEmpty then s.line else s.wordLine }

/-- Ends the word, if there is one. -/
def endWord (o : Options) (s : Scanner) : Except Error Scanner :=
  if s.word.isEmpty then .ok s
  else if !o.lenient && Token.unsupportedKeywords.contains s.word then
    .error ⟨s.wordLine, .illegalToken s.word .unsupportedKeyword⟩
  else .ok { s.addToken s.word s.wordLine with word := "" }

/-- Ends the statement, if it has a token. -/
def endStatement (o : Options) (s : Scanner) (opensBlock : Bool) : Except Error Scanner := do
  let s ← s.endWord o
  if s.current.isEmpty then return s
  else return { s with
    current := []
    finished := s.finished ++ [⟨s.currentLine, s.depth, s.current, opensBlock⟩] }

/-- Reads an opening brace. -/
def openBlock (o : Options) (s : Scanner) : Except Error Scanner := do
  if 0 < s.parens then throw (.malformed s.parenLine (.unbalanced '('))
  let s ← s.endStatement o true
  return { s with depth := s.depth + 1 }

/-- Reads a closing brace. -/
def closeBlock (o : Options) (s : Scanner) : Except Error Scanner := do
  if 0 < s.parens then throw (.malformed s.parenLine (.unbalanced '('))
  if s.depth = 0 then throw (.malformed s.line (.unbalanced '\x7d'))
  let s ← s.endWord o
  { s with depth := s.depth - 1 }.endStatement o false

/-- Reads a semicolon. -/
def semicolon (o : Options) (s : Scanner) : Except Error Scanner := do
  if s.parens = 0 then s.endStatement o false
  else
    let s ← s.endWord o
    return s.addToken ";" s.line

/-- Reads the rest of a string literal, whose opening quote is in `word` already. A line feed in it
only advances the line. -/
def readString (o : Options) (s : Scanner) : List Char → Except Error (Scanner × List Char)
  | [] => .error (.malformed s.wordLine .stringNotTerminated)
  | ['\\'] => .error (.malformed s.wordLine .stringNotTerminated)
  | '\\' :: e :: rest =>
    match escaped? e with
    | some value => readString o (s.addChar value) rest
    | none => .error (.malformed s.line (.unknownEscape e))
  | c :: rest =>
    if c = '"' then
      match (s.addChar '"').endWord o with
      | .ok s => .ok (s, rest)
      | .error e => .error e
    else if c = '\n' then readString o { s with line := s.line + 1 } rest
    else readString o (s.addChar c) rest

/-- Reads an operator. -/
def operator (o : Options) (s : Scanner) (op : Token) : Except Error Scanner := do
  if op = "++" ∨ op = "--" then throw ⟨s.line, .illegalToken op .unsupportedOperator⟩
  if op = ")" ∧ s.parens = 0 then throw (.malformed s.line (.unbalanced ')'))
  let s ← s.endWord o
  let s := s.addToken op s.line
  if op = "(" then
    return { s with
      parens := s.parens + 1
      parenLine := if s.parens = 0 then s.line else s.parenLine }
  else if op = ")" then return { s with parens := s.parens - 1 }
  else return s

/-- Reads a piece of text that starts with `c`, a digraph or comment apart. -/
def stepPlain (o : Options) (s : Scanner) (c : Char) (rest : List Char) :
    Except Error (Scanner × List Char) := do
  if c = '\n' then
    let s ← s.endWord o
    return ({ s with line := s.line + 1 }, rest)
  else if Text.isBlank c then return (← s.endWord o, rest)
  else if c = '\x7b' then return (← s.openBlock o, rest)
  else if c = '\x7d' then return (← s.closeBlock o, rest)
  else if c = ';' then return (← s.semicolon o, rest)
  else if c = '"' then
    let s ← s.endWord o
    (s.addChar '"').readString o rest
  else if c = '\x27' then
    match readCharacter rest with
    | .error fault => throw (.malformed s.line fault)
    | .ok (value, rest) =>
      let s ← s.endWord o
      return (s.addToken (toString value.toNat) s.line, rest)
  else if c = '.' ∧ isDecimalPoint s.word rest then
    let fraction := splitFraction '.' rest
    return (← (fraction.1.foldl addChar (s.addChar '.')).endWord o, fraction.2)
  else
    match operatorAt? (c :: rest) with
    | some op => return (← s.operator o op, rest.drop (op.length - 1))
    | none => return (s.addChar c, rest)

/-- Reads a piece of text that starts with `c`. -/
def step (o : Options) (s : Scanner) (c : Char) (rest : List Char) :
    Except Error (Scanner × List Char) := do
  if c = '/' ∧ rest.head? = some '/' then
    return (← s.endWord o, rest.dropWhile (· ≠ '\n'))
  else if c = '/' ∧ rest.head? = some '*' then
    let s ← s.endWord o
    let (line, after) ← skipComment s.line (rest.drop 1)
    return ({ s with line }, after)
  else if c = '*' ∧ rest.head? = some '/' then throw (.malformed s.line .strayCommentEnd)
  else
    match (if o.digraphs then rest.head?.bind (digraph? c) else none) with
    | none => s.stepPlain o c rest
    | some image =>
      if image = '\x7b' then return (← s.openBlock o, rest.drop 1)
      else if image = '\x7d' then return (← s.closeBlock o, rest.drop 1)
      else return (s.addChar image, rest.drop 1)

end Scanner

end WordMachine.Cflat
