/-
Tokens of C-flat: the words with a meaning of their own, and the operators with their binding
strength.
-/
namespace WordMachine.Cflat

/-- A token, as written. -/
abbrev Token := String

namespace Token

/-! ## Words -/

/-- Keywords of full C that C-flat gives no meaning to. -/
def unsupportedKeywords : List Token :=
  ["auto", "register", "signed", "unsigned", "volatile", "static", "extern", "long", "short",
   "double", "bool"]

/-- Words that introduce a block, or stand alone. -/
def blockKeywords : List Token :=
  ["do", "else", "enum", "for", "if", "struct", "switch", "union", "while", "forever", "repeat"]

/-- Words that may come before the name in the declaration of a variable. -/
def declarationWords : List Token :=
  ["auto", "extern", "const", "register", "struct", "char", "short", "int", "long", "float",
   "double", "bool", "var", "val"]

/-- Words that may come before the return type of a function. -/
def functionAnnotations : List Token :=
  ["auto", "extern", "const", "register", "static", "inline"]

/-- Words that may name the return type of a function. -/
def functionTypes : List Token :=
  ["void", "char", "short", "int", "long", "float", "double", "bool"]

def isLetter (c : Char) : Bool := c.isAlpha || c == '_'

/-- A name starts with a letter or underscore, and has digits besides them. -/
def isIdentifier (t : Token) : Bool :=
  match t.toList with
  | [] => false
  | c :: cs => isLetter c && cs.all fun c => isLetter c || c.isDigit

/-! ## Operators -/

/-- The operators, no operator after a shorter one that it starts with. -/
def operators : List Token :=
  ["...", "<<=", ">>=", ">>>",
   "++", "--", "&&", "||", "<<", ">>", "->", "<=", ">=", "==", "!=", "+=", "-=", "*=", "/=", "%=",
   "&=", "^=", "|=",
   "(", ")", "<", ">", "^", "|", "?", ":", "=", ",", ".", "+", "-", "!", "~", "*", "&", "/", "%"]

/-- The names of `+`, `-`, `&` and `*` with one operand. -/
def unaryPlus : Token := "#_unaryplus"

def unaryMinus : Token := "#_unaryminus"

def addressOf : Token := "#_addressof"

def dereference : Token := "#_ptrderef"

/-- The operators by binding strength, the weakest first. -/
def levels : List (List Token) :=
  [[","],
   ["=", "+=", "-=", "*=", "/=", "%=", "<<=", ">>=", "&=", "^=", "|="],
   ["?", ":"],
   ["||"],
   ["&&"],
   ["|"],
   ["^"],
   ["&"],
   ["==", "!="],
   ["<", "<=", ">", ">="],
   ["<<", ">>", ">>>"],
   ["+", "-"],
   ["*", "/", "%"],
   [unaryPlus, unaryMinus, addressOf, dereference, "!", "~", "sizeof"],
   ["++", "--", ".", "->"]]

/-- The binding strength of an operator. -/
def level? (t : Token) : Option Nat := levels.findIdx? (·.contains t)

def isOperator (t : Token) : Bool := operators.contains t || (level? t).isSome

/-- Assignments, conditionals and operators with one operand group from the right. -/
def groupsRight (level : Nat) : Bool := level == 1 || level == 2 || level == 13

/-- Does the operator take one operand? -/
def isUnary (t : Token) : Bool := level? t == some 13

def isAssignment (t : Token) : Bool := level? t == some 1

/-- The name that an operator takes when it has no left operand. -/
def unaryForm? (t : Token) : Option Token :=
  if t = "+" then some unaryPlus
  else if t = "-" then some unaryMinus
  else if t = "&" then some addressOf
  else if t = "*" then some dereference
  else none

/-- Can the token name a function? -/
def isCallee (t : Token) : Bool := isIdentifier t && !isOperator t

end Token

end WordMachine.Cflat
