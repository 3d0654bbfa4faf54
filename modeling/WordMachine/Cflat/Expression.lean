/-
Infix expressions. Operators and operands are read from right to left onto two stacks; an operator on
the stack is applied as soon as one arrives that binds less tightly to its right.
-/
import WordMachine.Cflat.Node

namespace WordMachine.Cflat

/-- A part of an expression: a token, or a call whose tree is known. -/
inductive Piece where
  | token (t : Token)
  | call (tree : Node)

/-- Has an operator that comes right after this piece no left operand? -/
def Piece.leavesOperandMissing : Piece → Bool
  | .token t => t != ")" && t.isOperator
  | .call _ => false

/-- The pieces of an expression, each with the mark whether it has no left operand; `first` is the
mark of the first piece. -/
def markPieces (first : Bool) : List Piece → List (Piece × Bool)
  | [] => []
  | p :: ps => (p, first) :: markPieces p.leavesOperandMissing ps

/-! ## Stacks -/

/-- The operators that wait for their left operand and the operands that wait for an operator, the
leftmost first. A closing parenthesis waits among the operators. -/
structure Stacks where
  operators : List Token
  operands : List Node

namespace Stacks

/-- A variable that is assigned to. -/
def markWritten : Node → Node
  | .mk (.read name) line arguments statements => .mk (.write name) line arguments statements
  | n => n

/-- The operands after an operator is applied to the leftmost of them. -/
def applyOperator (line : Nat) (op : Token) (operands : List Node) : Except Fault (List Node) :=
  if op.isUnary then
    match operands with
    | operand :: rest => .ok (.apply (.call op) line [operand] :: rest)
    | [] => .error (.malformed (.operandMissing op))
  else
    match operands with
    | left :: right :: rest =>
      let left := if op.isAssignment then markWritten left else left
      .ok (.apply (.call op) line [left, right] :: rest)
    | _ => .error (.malformed (.operandMissing op))

/-- Applies the operators that bind more tightly than an operator of strength `level` that comes to
the left of them. -/
def reduce (line level : Nat) : List Token → List Node → Except Fault Stacks
  | [], operands => .ok ⟨[], operands⟩
  | op :: operators, operands =>
    match op.level? with
    | none => .ok ⟨op :: operators, operands⟩
    | some top =>
      if level < top ∨ (top = level ∧ Token.groupsRight level) then
        match applyOperator line op operands with
        | .ok operands => reduce line level operators operands
        | .error e => .error e
      else .ok ⟨op :: operators, operands⟩

/-- Applies the operators up to the closing parenthesis that an opening one belongs to. -/
def openParen (line : Nat) : List Token → List Node → Except Fault Stacks
  | [], _ => .error (.malformed (.unbalanced '('))
  | op :: operators, operands =>
    if op = ")" then .ok ⟨operators, operands⟩
    else
      match applyOperator line op operands with
      | .ok operands => openParen line operators operands
      | .error e => .error e

/-- Applies all operators. -/
def finish (line : Nat) : List Token → List Node → Except Fault (List Node)
  | [], operands => .ok operands
  | op :: operators, operands =>
    if op = ")" then .error (.malformed (.unbalanced ')'))
    else
      match applyOperator line op operands with
      | .ok operands => finish line operators operands
      | .error e => .error e

/-- Reads a token; `first` says that it has no left operand. -/
def pushToken (line : Nat) (t : Token) (first : Bool) (s : Stacks) : Except Fault Stacks :=
  if t = ")" then .ok { s with operators := t :: s.operators }
  else if t = "(" then openParen line s.operators s.operands
  else if t.isOperator then
    let op := if first then t.unaryForm?.getD t else t
    match op.level? with
    | none => .error (.illegalToken op .notInExpressions)
    | some level =>
      match reduce line level s.operators s.operands with
      | .ok s => .ok { s with operators := op :: s.operators }
      | .error e => .error e
  else
    match Leaf.read t with
    | .ok leaf => .ok { s with operands := .leaf (.ofLeaf leaf) line :: s.operands }
    | .error e => .error e

/-- Reads a piece. -/
def push (line : Nat) (s : Stacks) : Piece × Bool → Except Fault Stacks
  | (.call tree, _) => .ok { s with operands := tree :: s.operands }
  | (.token t, first) => s.pushToken line t first

/-- Reads pieces from right to left. -/
def pushAll (line : Nat) : List (Piece × Bool) → Except Fault Stacks
  | [] => .ok ⟨[], []⟩
  | p :: ps =>
    match pushAll line ps with
    | .ok s => s.push line p
    | .error e => .error e

end Stacks

/-- The tree of an expression. -/
def resolve (line : Nat) (pieces : List Piece) : Except Fault Node :=
  match Stacks.pushAll line (markPieces true pieces) with
  | .error e => .error e
  | .ok s =>
    match Stacks.finish line s.operators s.operands with
    | .ok [tree] => .ok tree
    | .ok _ => .error (.internal .severalValues)
    | .error e => .error e

end WordMachine.Cflat
