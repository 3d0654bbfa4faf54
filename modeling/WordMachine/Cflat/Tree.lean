/-
The tree of a statement, and the tree of a program.

A statement's tree is built from its form and the trees of its parts. In a program, a statement that
opens a block owns the statements after it that lie deeper, and an `if` with an `else` after it
becomes one node with both branches.
-/
import WordMachine.Cflat.Expression
import WordMachine.Cflat.Form
import WordMachine.Cflat.Source
import WordMachine.Cflat.Statement.Scan

namespace WordMachine.Cflat

/-! ## Statements -/

/-- The tree of a name with its parentheses, given the trees of the parts. A clause may be empty, an
argument may not. -/
def Invocation.build (line : Nat) (i : Invocation)
    (tree : (p : List Token) → p ∈ i.parts → Except Error Node) : Except Error Node :=
  match i with
  | .loop clauses => do
    let arguments ← clauses.attach.mapM fun ⟨p, hp⟩ =>
      if p.isEmpty then return .leaf (.construct "#_nop") line else tree p hp
    return .apply (.call "for") line arguments
  | .call callee arguments => do
    let arguments ← arguments.attach.mapM fun ⟨p, hp⟩ =>
      if p.isEmpty then throw (.malformed line (.argumentCommaMisplaced callee)) else tree p hp
    return .apply (.call callee) line arguments
  | .refused fault => .error (.malformed line fault)

/-- A part of an expression, given the trees of its own parts. -/
def Item.build (line : Nat) (i : Item)
    (tree : (p : List Token) → p ∈ i.parts → Except Error Node) : Except Error Piece :=
  match i with
  | .token t => .ok (.token t)
  | .invoke invocation => (invocation.build line tree).map .call

/-- A fault on a line. -/
def atLine {α : Type} (line : Nat) : Except Fault α → Except Error α
  | .ok a => .ok a
  | .error fault => .error ⟨line, fault⟩

/-- The tree of a statement of the given form, given the trees of its parts. -/
def Form.build (line : Nat) (f : Form)
    (tree : (p : List Token) → p ∈ f.parts → Except Error Node) : Except Error Node :=
  match f with
  | .refused fault => .error ⟨line, fault⟩
  | .simple head arguments => .ok (.apply head line (arguments.map fun h => .leaf h line))
  | .invoke invocation => invocation.build line tree
  | .result value => do
    let value ← tree value (List.mem_singleton_self _)
    return .apply (.call "return") line [value]
  | .initialise depth name type value => do
    let value ← tree value (List.mem_singleton_self _)
    return .apply (.initialise depth) line [.leaf (.raw name) line, .leaf (.raw type) line, value]
  | .expression items => do
    let pieces ← items.attach.mapM fun ⟨i, hi⟩ =>
      i.build line fun p hp => tree p (List.mem_flatMap.2 ⟨i, hi, hp⟩)
    atLine line (resolve line pieces)

/-- The tree of a statement. -/
def Node.ofTokens (line : Nat) (tokens : List Token) : Except Error Node :=
  (Form.ofTokens tokens).build line fun p _ => Node.ofTokens line p
termination_by tokens.length
decreasing_by exact Form.length_lt_of_mem_parts ‹_›

/-! ## Blocks -/

/-- Nodes with the statements they were made from: each statement that opens a block takes the
statements after it that lie deeper. What is left are the outermost nodes, with their depths. -/
def nest : List (Statement × Node) → List (Nat × Node)
  | [] => []
  | (s, node) :: rest =>
    let after := nest rest
    if s.opensBlock then
      (s.depth, node.withStatements ((after.takeWhile (s.depth < ·.1)).map (·.2))) ::
        after.dropWhile (s.depth < ·.1)
    else (s.depth, node) :: after

/-! ## Branches -/

/-- An `if` and the `else` after it as one node, when both blocks are known. -/
def joinBranches (head : Head) (line : Nat) (arguments body : List Node) (otherLine : Nat)
    (other : List Node) : Node :=
  .mk (head.rename "ifelse") line arguments
    [.mk (.construct "#_then") line [] body, .mk (.construct "#_else") otherLine [] other]

/-- Refuses an `else` that no `if` stands before. -/
def refuseElse (head : Head) (line : Nat) : Except Error Unit :=
  if head.name? = some "else" then .error (.malformed line .elseWithoutIf) else .ok ()

/-- Joins each `if` with the `else` right after it, in every block. -/
def mergeBranches : List Node → Except Error (List Node)
  | [] => .ok []
  | [.mk head line arguments body] => do
    refuseElse head line
    return [.mk head line arguments (← mergeBranches body)]
  | .mk head line arguments body :: .mk nextHead nextLine nextArguments nextBody :: rest => do
    refuseElse head line
    let body ← mergeBranches body
    if head.name? = some "if" ∧ nextHead.name? = some "else" then
      let other ← mergeBranches nextBody
      return joinBranches head line arguments body nextLine other :: (← mergeBranches rest)
    else
      return .mk head line arguments body ::
        (← mergeBranches (.mk nextHead nextLine nextArguments nextBody :: rest))

/-! ## Programs -/

/-- The name of the function that a whole program is. -/
def rootName : Token := "cflat_node_root"

/-- The trees of statements, beside the statements. -/
def buildAll (statements : List Statement) : Except Error (List (Statement × Node)) :=
  statements.mapM fun s => do return (s, ← Node.ofTokens s.line s.tokens)

/-- The tree of a program, given its statements. -/
def Node.ofStatements (statements : List Statement) : Except Error Node := do
  let nodes ← buildAll statements
  let body ← mergeBranches ((nest nodes).map (·.2))
  return .mk (.function rootName .nothing) 1 [] body

/-- The statements of a source text, after its directives have been obeyed. -/
def scanSource (o : Options) (source : String) (limits : PatternLimits := .none) :
    Except Error (List Statement) := do
  Statement.scan o (← expandSource o source limits)

/-- The tree of a source text. -/
def parseSource (o : Options) (source : String) (limits : PatternLimits := .none) :
    Except Error Node := do
  Node.ofStatements (← scanSource o source limits)

end WordMachine.Cflat
