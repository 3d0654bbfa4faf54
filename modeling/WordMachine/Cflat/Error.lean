/-
What can be wrong with a C-flat program. An error is a line and a cause; its text is made from these
in one place.
-/
import WordMachine.Decimal.Basic

namespace WordMachine.Cflat

/-- A fault in the structure of a program. -/
inductive SyntaxFault where
  -- directives
  | macroNameMissing
  -- literals and comments
  | characterLiteral
  | unknownEscape (c : Char)
  | stringNotTerminated
  | commentNotTerminated
  | strayCommentEnd
  -- brackets
  | unbalanced (bracket : Char)
  | argumentsNotClosed (callee : String)
  -- loops, functions and calls
  | forWithoutClauses
  | forClauseCount
  | typeNotUsable (word : String)
  | parameterCommaMisplaced
  | parameterNameMissing (function : String)
  | argumentCommaMisplaced (callee : String)
  -- other statements
  | operandsAfter (keyword : String)
  | labelExpected (keyword : String)
  | variableNameExpected (type found : String)
  | variableNameMissing (type : String)
  | tokensAfterDeclaration (name : String)
  | keywordMisused (keyword : String)
  | elseWithoutIf
  -- expressions
  | operandMissing (op : String)
  | notALeaf (token : String)
  deriving Repr, DecidableEq

/-- Why a token is refused. -/
inductive TokenFault where
  | unsupportedKeyword
  | unsupportedOperator
  | notInExpressions
  | notInParameters (function : String)
  deriving Repr, DecidableEq

/-- A state that no program text should lead to. -/
inductive InternalFault where
  | emptyStatement
  | severalValues
  | patternNotBuilt (name : String) (cause : String)
  | realNotRead (token : String) (cause : NumberText.Fault)
  deriving Repr, DecidableEq

/-- The cause of an error. -/
inductive Fault where
  | malformed (fault : SyntaxFault)
  | illegalToken (token : String) (fault : TokenFault)
  /-- An integer literal that does not fit in 64 bits. -/
  | overflow (literal : String)
  | unknownDirective (name : String)
  | unimplemented (feature : String)
  | internal (fault : InternalFault)
  deriving Repr, DecidableEq

/-- An error and the line on which it was found. -/
structure Error where
  line : Nat
  fault : Fault
  deriving Repr, DecidableEq

/-! ## Texts -/

def SyntaxFault.message : SyntaxFault → String
  | .macroNameMissing => "macro name is missing"
  | .characterLiteral => "a character literal must hold exactly one character"
  | .unknownEscape c => "unknown escape sequence \\" ++ c.toString
  | .stringNotTerminated => "string literal is not terminated"
  | .commentNotTerminated => "comment is not terminated"
  | .strayCommentEnd => "'*/' appears outside a comment"
  | .unbalanced bracket => "unbalanced '" ++ bracket.toString ++ "'"
  | .argumentsNotClosed callee => "the argument list of " ++ callee ++ " is not closed"
  | .forWithoutClauses => "for must be followed by a parenthesised list of three clauses"
  | .forClauseCount => "for loop needs exactly three clauses"
  | .typeNotUsable word => "type '" ++ word ++ "' cannot be used here"
  | .parameterCommaMisplaced => "misplaced comma in argument list"
  | .parameterNameMissing function => "an argument of " ++ function ++ " has no name"
  | .argumentCommaMisplaced callee => "misplaced comma in the arguments of " ++ callee
  | .operandsAfter keyword => keyword ++ " takes no operands"
  | .labelExpected keyword => keyword ++ " must be followed by a single label"
  | .variableNameExpected type found =>
    "expected a variable name after " ++ type ++ ", found '" ++ found ++ "'"
  | .variableNameMissing type => "declaration of " ++ type ++ " has no variable name"
  | .tokensAfterDeclaration name => "unexpected tokens after the declaration of " ++ name
  | .keywordMisused keyword =>
    "'" ++ keyword ++ "' cannot be used like this; put its body in braces"
  | .elseWithoutIf => "else without a preceding if"
  | .operandMissing op => "operator '" ++ op ++ "' is missing an operand"
  | .notALeaf token => "'" ++ token ++ "' is neither a literal nor a name"

def TokenFault.message : TokenFault → String
  | .unsupportedKeyword => "this keyword is not supported"
  | .unsupportedOperator => "increment and decrement operators are not supported"
  | .notInExpressions => "this operator cannot appear in an expression"
  | .notInParameters function => "unexpected in the argument list of " ++ function

def InternalFault.message : InternalFault → String
  | .emptyStatement => "cannot build a tree from an empty statement"
  | .severalValues => "expression did not reduce to a single value"
  | .patternNotBuilt name cause => "cannot build a pattern for macro " ++ name ++ ": " ++ cause
  | .realNotRead token cause =>
    "floating-point literal '" ++ token ++ "' could not be read: " ++ cause.message

def Fault.message : Fault → String
  | .malformed fault => "syntax error: " ++ fault.message
  | .illegalToken token fault => "illegal token '" ++ token ++ "': " ++ fault.message
  | .overflow literal => "literal '" ++ literal ++ "' is too large for type int"
  | .unknownDirective name => "unknown preprocessor directive '#" ++ name ++ "'"
  | .unimplemented feature => feature ++ " is not implemented"
  | .internal fault => "internal error: " ++ fault.message

def Error.message (e : Error) : String :=
  "line " ++ toString e.line ++ ": " ++ e.fault.message

/-- The cause of a syntax error on a line. -/
def Error.malformed (line : Nat) (fault : SyntaxFault) : Error := ⟨line, .malformed fault⟩

end WordMachine.Cflat
