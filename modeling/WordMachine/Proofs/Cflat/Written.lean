/-
Expressions and how they are written. An expression is made of leaves, calls and operators with one or
two operands; its written form has parentheses besides, wherever an operand binds less tightly than
its operator asks for, and anywhere else.
-/
import WordMachine.Cflat.Expression

namespace WordMachine.Cflat

/-! ## Parts of expressions -/

namespace Token

/-- Words that start a statement of their own or belong to a declaration. -/
def reserved : List Token :=
  blockKeywords ++ ["return", "break", "continue", "goto", "comefrom"] ++ declarationWords ++ functionTypes ++
    functionAnnotations

/-- Is this an operator between two operands? -/
def isBinary (t : Token) : Bool := t.level?.any (· ≤ 12) || t == "." || t == "->"

/-- The binding strength that the left operand of an operator of strength `level` needs at least. -/
def leftLevel (level : Nat) : Nat := if groupsRight level then level + 1 else level

/-- The binding strength that the right operand needs at least. -/
def rightLevel (level : Nat) : Nat := if groupsRight level then level else level + 1

theorem le_leftLevel (level : Nat) : level ≤ leftLevel level := by unfold leftLevel; split <;> omega

theorem leftLevel_le (level : Nat) : leftLevel level ≤ level + 1 := by unfold leftLevel; split <;> omega

theorem le_rightLevel (level : Nat) : level ≤ rightLevel level := by unfold rightLevel; split <;> omega

theorem rightLevel_le (level : Nat) : rightLevel level ≤ level + 1 := by unfold rightLevel; split <;> omega

end Token

/-- A token that stands for itself in an expression. -/
structure LeafToken where
  token : Token
  leaf : Leaf
  read_eq : Leaf.read token = .ok leaf
  isOperator_eq : token.isOperator = false
  not_reserved : token ∉ Token.reserved

/-- The name of a function that is called. -/
structure Callee where
  name : Token
  isCallee_eq : name.isCallee = true
  not_reserved : name ∉ Token.reserved

/-- The operators before one operand. -/
inductive UnaryOperator where
  | plus
  | minus
  | address
  | dereference
  | negation
  | complement
  | size
  deriving Repr, DecidableEq

/-- The operators between two operands, conditionals among them. -/
structure BinaryOperator where
  token : Token
  isBinary_eq : token.isBinary = true

namespace UnaryOperator

def token : UnaryOperator → Token
  | .plus => "+"
  | .minus => "-"
  | .address => "&"
  | .dereference => "*"
  | .negation => "!"
  | .complement => "~"
  | .size => "sizeof"

/-- The name of the operator in a tree. -/
def name : UnaryOperator → Token
  | .plus => "#_unaryplus"
  | .minus => "#_unaryminus"
  | .address => "#_addressof"
  | .dereference => "#_ptrderef"
  | op => op.token

end UnaryOperator

namespace BinaryOperator

/-- The binding strength. -/
def level (op : BinaryOperator) : Nat := op.token.level?.getD 0

theorem isBinary_cases (op : BinaryOperator) :
    (∃ l ≤ 12, op.token.level? = some l) ∨ op.token.level? = some 14 := by
  have h := op.isBinary_eq
  simp only [Token.isBinary, Bool.or_eq_true, beq_iff_eq] at h
  rcases h with (h | h) | h
  · obtain ⟨l, hl, h⟩ := (Option.any_eq_true _ _).1 h
    exact .inl ⟨l, of_decide_eq_true h, hl⟩
  · rw [h]; exact .inr rfl
  · rw [h]; exact .inr rfl

theorem level?_token (op : BinaryOperator) : op.token.level? = some op.level := by
  unfold level
  rcases op.isBinary_cases with ⟨l, -, h⟩ | h <;> rw [h] <;> rfl

theorem level_ne (op : BinaryOperator) : op.level ≠ 13 := by
  unfold level
  rcases op.isBinary_cases with ⟨l, hl, h⟩ | h
  · rw [h, Option.getD_some]; omega
  · rw [h, Option.getD_some]; omega

end BinaryOperator

/-! ## Expressions -/

inductive Expr where
  | leaf (x : LeafToken)
  | call (f : Callee) (arguments : List Expr)
  | unary (op : UnaryOperator) (operand : Expr)
  | binary (op : BinaryOperator) (left right : Expr)

namespace Expr

/-- The name of the variable that the expression is. -/
def variableName? : Expr → Option Token
  | .leaf x =>
    match x.leaf with
    | .variable name => some name
    | .literal _ => none
  | _ => none

mutual

/-- The tree of an expression. A variable on the left of an assignment is written to. -/
def toNode (line : Nat) : Expr → Node
  | .leaf x => .leaf (.ofLeaf x.leaf) line
  | .call f arguments => .apply (.call f.name) line (toNodes line arguments)
  | .unary op operand => .apply (.call op.name) line [toNode line operand]
  | .binary op left right =>
    let target? := if op.level = 1 then left.variableName? else none
    .apply (.call op.token) line
      [target?.elim (toNode line left) fun name => .leaf (.write name) line, toNode line right]

def toNodes (line : Nat) : List Expr → List Node
  | [] => []
  | e :: es => toNode line e :: toNodes line es

end

end Expr

/-! ## Written forms -/

/-- An expression with the parentheses that it is written with. -/
inductive Written where
  | leaf (x : LeafToken)
  | call (f : Callee) (arguments : List Written)
  | paren (inner : Written)
  | unary (op : UnaryOperator) (operand : Written)
  | binary (op : BinaryOperator) (left right : Written)

namespace Written

mutual

/-- The expression without its parentheses. -/
def tree : Written → Expr
  | .leaf x => .leaf x
  | .call f arguments => .call f (trees arguments)
  | .paren inner => inner.tree
  | .unary op operand => .unary op operand.tree
  | .binary op left right => .binary op left.tree right.tree

def trees : List Written → List Expr
  | [] => []
  | w :: ws => w.tree :: trees ws

end

mutual

/-- The tokens of a written form. -/
def tokens : Written → List Token
  | .leaf x => [x.token]
  | .call f arguments => f.name :: "(" :: ([","].intercalate (argumentTokens arguments) ++ [")"])
  | .paren inner => "(" :: (inner.tokens ++ [")"])
  | .unary op operand => op.token :: operand.tokens
  | .binary op left right => left.tokens ++ op.token :: right.tokens

/-- The tokens of each argument. -/
def argumentTokens : List Written → List (List Token)
  | [] => []
  | w :: ws => w.tokens :: argumentTokens ws

end

mutual

/-- Are there parentheses wherever they are needed, if the expression has to bind at least as tightly
as `level`? An argument of a call has to bind more tightly than a comma. -/
def fits (level : Nat) : Written → Bool
  | .leaf _ => true
  | .call _ arguments => argumentsFit arguments
  | .paren inner => inner.fits 0
  | .unary _ operand => level ≤ 13 && operand.fits 13
  | .binary op left right =>
    level ≤ op.level && left.fits (Token.leftLevel op.level) && right.fits (Token.rightLevel op.level)

def argumentsFit : List Written → Bool
  | [] => true
  | w :: ws => w.fits 1 && argumentsFit ws

end

theorem fits_unary {level : Nat} {op : UnaryOperator} {operand : Written} :
    (Written.unary op operand).fits level = true ↔ level ≤ 13 ∧ operand.fits 13 = true := by
  rw [fits, Bool.and_eq_true, decide_eq_true_eq]

theorem fits_binary {level : Nat} {op : BinaryOperator} {left right : Written} :
    (Written.binary op left right).fits level = true ↔
      level ≤ op.level ∧ left.fits (Token.leftLevel op.level) = true ∧
        right.fits (Token.rightLevel op.level) = true := by
  rw [fits, Bool.and_eq_true, Bool.and_eq_true, decide_eq_true_eq, and_assoc]

theorem argumentsFit_cons {w : Written} {ws : List Written} :
    argumentsFit (w :: ws) = true ↔ w.fits 1 = true ∧ argumentsFit ws = true := by
  rw [argumentsFit, Bool.and_eq_true]

end Written

/-! ## Written with the fewest parentheses -/

namespace Expr

mutual

/-- The expression written with parentheses only where they are needed. -/
def written (level : Nat) : Expr → Written
  | .leaf x => .leaf x
  | .call f arguments => .call f (writtenArguments arguments)
  | .unary op operand =>
    let w := .unary op (operand.written 13)
    if level ≤ 13 then w else .paren w
  | .binary op left right =>
    let w := .binary op (left.written (Token.leftLevel op.level)) (right.written (Token.rightLevel op.level))
    if level ≤ op.level then w else .paren w

def writtenArguments : List Expr → List Written
  | [] => []
  | e :: es => e.written 1 :: writtenArguments es

end

mutual

theorem tree_written : ∀ (e : Expr) (level : Nat), (e.written level).tree = e
  | .leaf x, level => rfl
  | .call f arguments, level => by
    simp only [written, Written.tree, trees_writtenArguments arguments]
  | .unary op operand, level => by
    rw [written]
    split <;> simp only [Written.tree, tree_written operand]
  | .binary op left right, level => by
    rw [written]
    split <;> simp only [Written.tree, tree_written left, tree_written right]

theorem trees_writtenArguments : ∀ es : List Expr, Written.trees (writtenArguments es) = es
  | [] => rfl
  | e :: es => by rw [writtenArguments, Written.trees, tree_written e, trees_writtenArguments es]

end

mutual

theorem fits_written : ∀ (e : Expr) (level : Nat), (e.written level).fits level = true
  | .leaf x, level => rfl
  | .call f arguments, level => fits_writtenArguments arguments
  | .unary op operand, level => by
    have ho := fits_written operand 13
    rw [written]
    split
    · rename_i h
      exact Written.fits_unary.2 ⟨h, ho⟩
    · show (Written.unary op _).fits 0 = true
      exact Written.fits_unary.2 ⟨Nat.zero_le 13, ho⟩
  | .binary op left right, level => by
    have hl := fits_written left (Token.leftLevel op.level)
    have hr := fits_written right (Token.rightLevel op.level)
    rw [written]
    split
    · rename_i h
      exact Written.fits_binary.2 ⟨h, hl, hr⟩
    · show (Written.binary op _ _).fits 0 = true
      exact Written.fits_binary.2 ⟨Nat.zero_le op.level, hl, hr⟩

theorem fits_writtenArguments : ∀ es : List Expr, Written.argumentsFit (writtenArguments es) = true
  | [] => rfl
  | e :: es => Written.argumentsFit_cons.2 ⟨fits_written e 1, fits_writtenArguments es⟩

end

end Expr

end WordMachine.Cflat
