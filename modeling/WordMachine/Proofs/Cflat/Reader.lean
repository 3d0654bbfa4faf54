/-
Statements by places. A reader that looks tokens up by their places, takes slices and reads slices as statements of
their own could stray in two ways: by asking for a place that the list does not have, and by reading something that is
not a shorter slice of what it was given, so that it might never end. This reader checks both.
-/
import WordMachine.Proofs.Cflat.Slices
import Mathlib.Data.List.Infix

namespace WordMachine.Cflat

/-! ## Readings -/

/-- A reading ends with a result or an error, unless it strays. -/
abbrev Reading (α : Type) : Type := ExceptT Error Option α

namespace Reading

variable {α β : Type}

/-- The reading does not stray, and ends with this outcome. -/
def Gives (x : Reading α) (outcome : Except Error α) : Prop := x.run = some outcome

theorem gives_pure (a : α) : Gives (pure a) (.ok a) := rfl

theorem gives_throw (e : Error) : Gives (throw e : Reading α) (.error e) := rfl

theorem gives_ofExcept (outcome : Except Error α) : Gives (ofExcept outcome) outcome := by
  cases outcome <;> rfl

theorem Gives.bind {x : Reading α} {f : α → Reading β} {outcome : Except Error α} {g : α → Except Error β}
    (hx : Gives x outcome) (hf : ∀ a, Gives (f a) (g a)) : Gives (x >>= f) (outcome >>= g) := by
  unfold Gives at hx ⊢
  rw [ExceptT.run_bind, hx]
  cases outcome with
  | error e => rfl
  | ok a => exact hf a

theorem Gives.map {x : Reading α} {outcome : Except Error α} (hx : Gives x outcome) (f : α → β) :
    Gives (f <$> x) (outcome.map f) := by
  unfold Gives at hx ⊢
  rw [ExceptT.run_map, hx]
  rfl

/-- An access that the check allows. -/
theorem gives_lift {access : Option α} {a : α} {f : α → Reading β} {outcome : Except Error β} (h : access = some a)
    (hf : Gives (f a) outcome) : Gives (liftM access >>= f) outcome := by
  subst h
  exact hf

theorem gives_mapM {f : α → Reading β} {g : α → Except Error β} {xs : List α} (h : ∀ x ∈ xs, Gives (f x) (g x)) :
    Gives (xs.mapM f) (xs.mapM g) := by
  induction xs with
  | nil => exact gives_pure []
  | cons x xs ih =>
    rw [List.mapM_cons, List.mapM_cons]
    refine Gives.bind (h x (List.mem_cons_self ..)) fun y => ?_
    exact Gives.bind (ih fun x hx => h x (List.mem_cons_of_mem _ hx)) fun ys => gives_pure _

end Reading

open Reading

/-! ## The reader -/

namespace ByPlaces

/-- What is read first decides. -/
def firstOf (x : Reading (Option Node)) (y : Reading Node) : Reading Node := do
  match ← x with
  | some n => return n
  | none => y

/-- A parameter of a function. -/
def parameter (line : Nat) (function : Token) : List Token → Reading Head
  | [] => throw (.malformed line .parameterCommaMisplaced)
  | word :: rest => do
    let type ← ofExcept (atLine line (Form.usableType word))
    let stars := (rest.takeWhile (· = "*")).length
    match ← slice? rest stars rest.length with
    | [] => throw (.malformed line (.parameterNameMissing function))
    | name :: more =>
      if more.isEmpty ∧ Token.isIdentifier name then return .parameter name type (Head.depthOfStars stars)
      else throw ⟨line, .illegalToken name (.notInParameters function)⟩

/-- A function of the given return type and name. -/
def function (line : Nat) (returns name : Token) (inner : List Token) : Reading Node := do
  let type ← ofExcept (atLine line (Form.usableType returns))
  if inner.isEmpty ∨ inner = ["void"] then return .apply (.function name type) line []
  else
    let parameters ← (← split? "," inner).mapM (parameter line name)
    return .apply (.function name type) line (parameters.map fun h => .leaf h line)

/-- A function whose parameters are opened at `start`, if its words are those of a function. -/
def functionAt? (line : Nat) (tokens : List Token) (start : Nat) : Reading (Option Node) := do
  if ← closesAtEnd? tokens start then
    let before ← slice? tokens 0 start
    let annotations ← slice? before 0 (← minus? start 2)
    let signature ← slice? before (← minus? start 2) before.length
    let returns ← tokenAt? signature 0
    let name ← tokenAt? signature 1
    if annotations.all Token.functionAnnotations.contains ∧ Token.functionTypes.contains returns ∧
        Token.isCallee name then
      some <$> function line returns name (← slice? tokens (start + 1) (← minus? tokens.length 1))
    else return none
  else return none

/-- A function, if the first parenthesis comes after two to four words. -/
def function? (line : Nat) (tokens : List Token) : Reading (Option Node) :=
  match tokens.findIdx? (· = "(") with
  | none => return none
  | some start => if 2 ≤ start ∧ start ≤ 4 then functionAt? line tokens start else return none

/-- The tokens of a single keyword. -/
def keyword? (line : Nat) (tokens : List Token) : Reading (Option Node) :=
  match tokens.find? Token.blockKeywords.contains with
  | none => return none
  | some keyword =>
    if tokens.length = 1 then return some (.apply (.call keyword) line [])
    else throw (.malformed line (.keywordMisused keyword))

/-- The tree of pieces that are marked. -/
def resolveMarked (line : Nat) (marked : List (Piece × Bool)) : Except Fault Node :=
  match Stacks.pushAll line marked with
  | .error e => .error e
  | .ok s =>
    match Stacks.finish line s.operators s.operands with
    | .ok [tree] => .ok tree
    | .ok _ => .error (.internal .severalValues)
    | .error e => .error e

/-- For each piece, whether it has no left operand. -/
def marks? (pieces : List Piece) : Option (List Bool) :=
  (List.range pieces.length).mapM fun k =>
    if k = 0 then return true else do return (← pieces[← minus? k 1]?).leavesOperandMissing

section

/-! `nested` reads a part of the statement as a statement of its own. -/

variable (line : Nat) (nested : List Token → Reading Node)

/-- The loop that starts with `for`. -/
def loop (tokens : List Token) : Reading Node := do
  if ← closesAtEnd? tokens 1 then
    let inner ← slice? tokens 2 (← minus? tokens.length 1)
    let clauses ← clausesBetween? inner
    if clauses.length = 3 then
      let arguments ← clauses.mapM fun p =>
        if p.isEmpty then return .leaf (.construct "#_nop") line else nested p
      return .apply (.call "for") line arguments
    else throw (.malformed line .forClauseCount)
  else throw (.malformed line .forWithoutClauses)

/-- The call that the tokens are. -/
def call (tokens : List Token) : Reading Node := do
  let callee ← tokenAt? tokens 0
  let inner ← slice? tokens 2 (← minus? tokens.length 1)
  if inner.isEmpty then return .apply (.call callee) line []
  else
    let arguments ← (← split? "," inner).mapM fun p =>
      if p.isEmpty then throw (.malformed line (.argumentCommaMisplaced callee)) else nested p
    return .apply (.call callee) line arguments

def call? (tokens : List Token) : Reading (Option Node) := do
  if tokens.length < 3 then return none
  else
    let callee ← tokenAt? tokens 0
    if callee.isCallee then
      if ← closesAtEnd? tokens 1 then some <$> call line nested tokens else return none
    else return none

/-- A transfer of control. -/
def transfer? (tokens : List Token) : Reading (Option Node) := do
  let keyword ← tokenAt? tokens 0
  let rest ← slice? tokens 1 tokens.length
  if keyword = "return" then
    if rest.isEmpty then return some (.apply (.call keyword) line [])
    else return some (.apply (.call keyword) line [← nested rest])
  else if keyword = "break" ∨ keyword = "continue" then
    if rest.isEmpty then return some (.apply (.call keyword) line [])
    else throw (.malformed line (.operandsAfter keyword))
  else if keyword = "goto" ∨ keyword = "comefrom" then
    match rest with
    | [label] =>
      if label.isIdentifier then return some (.apply (.call keyword) line [.leaf (.raw label) line])
      else throw (.malformed line (.labelExpected keyword))
    | _ => throw (.malformed line (.labelExpected keyword))
  else return none

/-- A variable of the given type: stars from `place` on, a name and perhaps a value. -/
def declarator (tokens : List Token) (type : String) (place : Nat) : Reading Node := do
  let stars := ((← slice? tokens place tokens.length).takeWhile (· = "*")).length
  match tokens[place + stars]? with
  | none => throw (.malformed line (.variableNameMissing type))
  | some name =>
    if !Token.isIdentifier name then throw (.malformed line (.variableNameExpected type name))
    else
      match ← slice? tokens (place + stars + 1) tokens.length with
      | [] =>
        return .apply (.declare (Head.depthOfStars stars)) line [.leaf (.raw name) line, .leaf (.raw type) line]
      | sign :: value =>
        if sign = "=" ∧ !value.isEmpty then
          let value ← nested value
          return .apply (.initialise (Head.depthOfStars stars)) line
            [.leaf (.raw name) line, .leaf (.raw type) line, value]
        else throw (.malformed line (.tokensAfterDeclaration name))

/-- A declaration, if the tokens start with words for one and have more than these. -/
def declaration? (tokens : List Token) : Reading (Option Node) := do
  let words := ((tokens.take 4).takeWhile Token.declarationWords.contains).length
  if words = 0 ∨ words = tokens.length then return none
  else
    let type ← tokenAt? tokens (← minus? words 1)
    if type = "struct" then
      let tag ← tokenAt? tokens words
      some <$> declarator line nested tokens ("struct " ++ tag) (words + 1)
    else some <$> declarator line nested tokens type words

/-- The pieces of an expression from a place on: every name with a group after it is read as a statement. -/
def pieces (tokens : List Token) (place : Nat) : Reading (List Piece) :=
  if _hplace : place < tokens.length then do
    let t ← tokenAt? tokens place
    if t.isCallee ∧ tokens[place + 1]? = some "(" then
      match _hclose : matching? tokens (place + 1) with
      | none => throw (.malformed line (.argumentsNotClosed t))
      | some close =>
        let tree ← nested (← slice? tokens place (close + 1))
        return .call tree :: (← pieces tokens (close + 1))
    else return .token t :: (← pieces tokens (place + 1))
  else return []
termination_by tokens.length - place
decreasing_by
  · have := le_of_closing? _hclose
    omega
  · omega

/-- An expression of several tokens. -/
def expression (tokens : List Token) : Reading Node := do
  let pieces ← pieces line nested tokens 0
  let marks ← marks? pieces
  ofExcept (atLine line (resolveMarked line (pieces.zip marks)))

/-- An expression, which may be a single token. -/
def expressionOf : List Token → Reading Node
  | [token] => do return .leaf (.ofLeaf (← ofExcept (atLine line (Leaf.read token)))) line
  | tokens => expression line nested tokens

/-- The tree of a statement. -/
def statement : List Token → Reading Node
  | [] => throw ⟨line, .internal .emptyStatement⟩
  | first :: rest =>
    if first = "for" then loop line nested (first :: rest)
    else
      firstOf (function? line (first :: rest)) <|
      firstOf (call? line nested (first :: rest)) <|
      firstOf (transfer? line nested (first :: rest)) <|
      firstOf (declaration? line nested (first :: rest)) <|
      firstOf (keyword? line (first :: rest)) <|
      expressionOf line nested (first :: rest)

end

/-- The tree of a statement. A nested reading has to be of a shorter slice. -/
def read (line : Nat) (tokens : List Token) : Reading Node :=
  statement line
    (fun p => if _h : p <:+: tokens ∧ p.length < tokens.length then read line p else ExceptT.mk none) tokens
termination_by tokens.length

end ByPlaces

end WordMachine.Cflat
