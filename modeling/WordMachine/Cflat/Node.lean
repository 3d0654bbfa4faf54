/-
Syntax trees. A node says what it is, on which line it stands, which nodes it is applied to, and
which statements are in its block.
-/
import WordMachine.Cflat.Literal

namespace WordMachine.Cflat

/-- The types of values. -/
inductive ValueType where
  | int
  | float
  | nothing
  /-- Text, such as a string literal or a name. -/
  | text
  deriving Repr, DecidableEq

def ValueType.name : ValueType → String
  | .int => "Int"
  | .float => "Float"
  | .nothing => "Nothing"
  | .text => "Database"

/-- The type of a literal. -/
def Literal.type : Literal → ValueType
  | .bool _ | .int _ => .int
  | .double _ => .float
  | .text _ => .text

/-- What a node is. -/
inductive Head where
  | function (name : Token) (returns : ValueType)
  | parameter (name : Token) (type : ValueType) (pointerDepth : Nat)
  /-- A construct without a spelling in the source. -/
  | construct (name : Token)
  /-- The declaration of a variable. -/
  | declare (pointerDepth : Nat)
  /-- The declaration of a variable with a value. -/
  | initialise (pointerDepth : Nat)
  /-- A call, an operator or a keyword. -/
  | call (name : Token)
  | literal (value : Literal)
  /-- A variable that is assigned to. -/
  | write (name : Token)
  | read (name : Token)
  deriving Repr, DecidableEq

namespace Head

/-- The kinds of nodes that a printed tree tells apart. -/
def kind : Head → String
  | .function .. => "FunctionDef"
  | .parameter .. => "FunctionArgumentDef"
  | .construct _ | .declare _ => "InternalCall"
  | .call _ | .initialise _ => "FunctionCall"
  | .literal _ => "LiteralLeaf"
  | .write _ => "VariableWrite"
  | .read _ => "VariableRead"

def name? : Head → Option Token
  | .function name _ | .parameter name .. | .construct name | .call name | .write name | .read name =>
    some name
  | .declare _ => some "#_declarevar"
  | .initialise _ => some "#_assignvar"
  | .literal _ => none

def literal? : Head → Option Literal
  | .literal value => some value
  | _ => none

def type? : Head → Option ValueType
  | .function _ returns => some returns
  | .parameter _ type _ => some type
  | .declare _ | .initialise _ => some .nothing
  | .literal value => some value.type
  | _ => none

/-- The depth that is kept for so many stars: their number, as far as it fits in 32 bits. -/
def depthOfStars (stars : Nat) : Nat := if stars < UInt32.size then stars else UInt32.size - 1

/-- The depth of the pointer in a declaration. -/
def pointerDepth : Head → Nat
  | .parameter _ _ depth | .declare depth | .initialise depth => depth
  | _ => 0

/-- The same kind of node under another name. -/
def rename (h : Head) (name : Token) : Head :=
  match h with
  | .function _ returns => .function name returns
  | .parameter _ type depth => .parameter name type depth
  | .construct _ => .construct name
  | .call _ => .call name
  | .write _ => .write name
  | .read _ => .read name
  | h => h

/-- Source text that is kept as it was written. -/
def raw (text : String) : Head := .literal (.text text)

def ofLeaf : Leaf → Head
  | .literal value => .literal value
  | .variable name => .read name

end Head

/-- A node of a syntax tree. -/
inductive Node where
  | mk (head : Head) (line : Nat) (arguments statements : List Node)
  deriving Repr

namespace Node

def head : Node → Head
  | .mk head .. => head

def line : Node → Nat
  | .mk _ line .. => line

def arguments : Node → List Node
  | .mk _ _ arguments _ => arguments

def statements : Node → List Node
  | .mk _ _ _ statements => statements

/-- A node without arguments and statements. -/
def leaf (head : Head) (line : Nat) : Node := .mk head line [] []

/-- A node with arguments. -/
def apply (head : Head) (line : Nat) (arguments : List Node) : Node := .mk head line arguments []

/-- The node with other statements in its block. -/
def withStatements (n : Node) (statements : List Node) : Node :=
  .mk n.head n.line n.arguments statements

/-! ## Text -/

mutual

/-- The node as an expression on one line: operators and calls before their arguments. -/
def expression : Node → String
  | .mk (.literal value) _ _ _ => value.render
  | .mk (.read name) _ _ _ => name
  | .mk (.write name) _ _ _ => name
  | .mk head _ arguments _ =>
    head.name?.getD "?" ++ "(" ++ ", ".intercalate (expressions arguments) ++ ")"

def expressions : List Node → List String
  | [] => []
  | n :: ns => expression n :: expressions ns

end

/-- The first line of a node's text: what the node is, and on which line it stands. -/
def headline (head : Head) (line : Nat) : String :=
  head.kind ++ (head.name?.elim "" (" " ++ ·)) ++
    (head.literal?.elim "" fun value => " " ++ value.render) ++
    (head.type?.elim "" fun type => " -> " ++ type.name) ++
    (if head.pointerDepth = 0 then ""
      else " " ++ String.ofList (List.replicate head.pointerDepth '*')) ++
    " (line " ++ toString line ++ ")\n"

mutual

/-- The tree, one node a line: arguments are marked with `=`, and arguments and statements are
indented below their node. -/
def renderAt (indent : Nat) (mark : String) : Node → String
  | .mk head line arguments statements =>
    String.ofList (List.replicate indent ' ') ++ mark ++ headline head line ++
      renderAll (indent + 2) "= " arguments ++ renderAll (indent + 2) "" statements

def renderAll (indent : Nat) (mark : String) : List Node → String
  | [] => ""
  | n :: ns => renderAt indent mark n ++ renderAll indent mark ns

end

/-- The tree, one node a line. -/
def render (n : Node) : String := renderAt 0 "" n

end Node

end WordMachine.Cflat
