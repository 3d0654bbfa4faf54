/-
The forms of statements. A list of tokens is recognised as one of a few forms by its words and
parentheses alone; the parts of it that are statements or expressions of their own stay lists of
tokens, each shorter than the whole (`Form.length_lt_of_mem_parts`).
-/
import WordMachine.Cflat.Invocation
import WordMachine.Cflat.Node

namespace WordMachine.Cflat

/-! ## Statements -/

/-- A statement by its form. -/
inductive Form where
  | refused (fault : Fault)
  /-- A node whose arguments are leaves. -/
  | simple (head : Head) (arguments : List Head)
  | invoke (invocation : Invocation)
  /-- A return with a value. -/
  | result (value : List Token)
  /-- The declaration of a variable with a value. -/
  | initialise (pointerDepth : Nat) (name : Token) (type : String) (value : List Token)
  | expression (items : List Item)

namespace Form

/-- The lists of tokens that are statements or expressions of their own. -/
def parts : Form → List (List Token)
  | .refused _ | .simple .. => []
  | .invoke invocation => invocation.parts
  | .result value => [value]
  | .initialise _ _ _ value => [value]
  | .expression items => items.flatMap Item.parts

/-- The loop that starts with `for`, by the tokens after this word. -/
def loop (rest : List Token) : Form :=
  match (if rest.head? = some "(" then wholeGroup? rest.tail else none) with
  | some inner => .invoke (.read "for" inner)
  | none => .refused (.malformed .forWithoutClauses)

/-! ### Functions -/

/-- The type that a word names for a value that is passed or returned. -/
def usableType (word : Token) : Except Fault ValueType :=
  if word = "void" then .ok .nothing
  else if word = "int" then .ok .int
  else if word = "float" then .ok .float
  else .error (.malformed (.typeNotUsable word))

/-- A parameter of a function: a type, stars and a name. -/
def parameter (function : Token) : List Token → Except Fault Head
  | [] => .error (.malformed .parameterCommaMisplaced)
  | word :: rest => do
    let type ← usableType word
    match rest.dropWhile (· = "*") with
    | [] => throw (.malformed (.parameterNameMissing function))
    | name :: more =>
      if more.isEmpty ∧ Token.isIdentifier name then
        return .parameter name type (Head.depthOfStars (rest.takeWhile (· = "*")).length)
      else throw (.illegalToken name (.notInParameters function))

/-- The parameters of a function. -/
def parameters (function : Token) (inner : List Token) : Except Fault (List Head) :=
  if inner.isEmpty ∨ inner = ["void"] then .ok []
  else (Cflat.parts "," inner).mapM (parameter function)

/-- A function of the given return type and name. -/
def function (returns name : Token) (inner : List Token) : Form :=
  match (do return (← usableType returns, ← parameters name inner)) with
  | .ok (type, parameters) => .simple (.function name type) parameters
  | .error fault => .refused fault

/-- Reads at most two annotations, a return type, a name and a group in parentheses. -/
def function? (tokens : List Token) : Option Form :=
  let before := tokens.takeWhile (· ≠ "(")
  match before.reverse, wholeGroup? (tokens.dropWhile (· ≠ "(")).tail with
  | name :: returns :: annotations, some inner =>
    if annotations.length ≤ 2 ∧ annotations.all Token.functionAnnotations.contains ∧
        Token.functionTypes.contains returns ∧ Token.isCallee name then
      some (function returns name inner)
    else none
  | _, _ => none

/-- Reads a name and a group in parentheses. -/
def call? (tokens : List Token) : Option Form :=
  match tokens with
  | callee :: rest =>
    if callee.isCallee ∧ rest.head? = some "(" then
      (wholeGroup? rest.tail).map fun inner => .invoke (.read callee inner)
    else none
  | [] => none

/-! ### Other statements -/

/-- Reads a transfer of control, by its keyword and the tokens after it. -/
def transfer? (keyword : Token) (rest : List Token) : Option Form :=
  if keyword = "return" then
    some (if rest.isEmpty then .simple (.call keyword) [] else .result rest)
  else if keyword = "break" ∨ keyword = "continue" then
    some (if rest.isEmpty then .simple (.call keyword) []
      else .refused (.malformed (.operandsAfter keyword)))
  else if keyword = "goto" ∨ keyword = "comefrom" then
    match rest with
    | [label] =>
      some (if label.isIdentifier then .simple (.call keyword) [.raw label]
        else .refused (.malformed (.labelExpected keyword)))
    | _ => some (.refused (.malformed (.labelExpected keyword)))
  else none

/-- A declaration of the given type, by the tokens after the type: stars, a name and perhaps a
value. -/
def declaration (type : String) (rest : List Token) : Form :=
  let depth := Head.depthOfStars (rest.takeWhile (· = "*")).length
  match rest.dropWhile (· = "*") with
  | [] => .refused (.malformed (.variableNameMissing type))
  | name :: more =>
    if !Token.isIdentifier name then .refused (.malformed (.variableNameExpected type name))
    else
      match more with
      | [] => .simple (.declare depth) [.raw name, .raw type]
      | sign :: value =>
        if sign = "=" ∧ !value.isEmpty then .initialise depth name type value
        else .refused (.malformed (.tokensAfterDeclaration name))

/-- Reads one to four declaration words, the last of them the type, and a variable. After `struct`
the type has a word more. -/
def declaration? (tokens : List Token) : Option Form :=
  let words := (tokens.take 4).takeWhile Token.declarationWords.contains
  match words.getLast?, tokens.drop words.length with
  | some type, next :: rest =>
    some (if type = "struct" then declaration ("struct " ++ next) rest
      else declaration type (next :: rest))
  | _, _ => none

/-- Reads a statement that has a word for a block in it: such a word stands alone. -/
def keyword? (tokens : List Token) : Option Form :=
  (tokens.find? Token.blockKeywords.contains).map fun keyword =>
    if tokens.length = 1 then .simple (.call keyword) []
    else .refused (.malformed (.keywordMisused keyword))

/-- An expression, which may be a single token. -/
def expressionOf : List Token → Form
  | [token] =>
    match Leaf.read token with
    | .ok leaf => .simple (.ofLeaf leaf) []
    | .error fault => .refused fault
  | tokens => .expression (Item.scan tokens)

/-- The form of a statement. -/
def ofTokens : List Token → Form
  | [] => .refused (.internal .emptyStatement)
  | first :: rest =>
    let tokens := first :: rest
    if first = "for" then loop rest
    else
      (function? tokens <|> call? tokens <|> transfer? first rest <|> declaration? tokens <|>
        keyword? tokens).getD (expressionOf tokens)

/-! ### Parts are shorter than the whole -/

theorem length_lt_of_mem_loop {rest p : List Token} (hp : p ∈ (loop rest).parts) :
    p.length < rest.length := by
  unfold loop at hp
  split at hp
  · rename_i inner h
    split at h
    · have := length_wholeGroup? h
      have := Invocation.length_of_mem_read hp
      simp only [List.length_tail] at *
      omega
    · cases h
  · cases hp

theorem parts_function (returns name : Token) (inner : List Token) :
    (function returns name inner).parts = [] := by
  unfold function
  split <;> rfl

theorem length_lt_of_mem_declaration {type : String} {rest p : List Token}
    (hp : p ∈ (declaration type rest).parts) : p.length < rest.length := by
  unfold declaration at hp
  have hd := (List.dropWhile_sublist (l := rest) (· = "*")).length_le
  dsimp only at hp
  split at hp
  · cases hp
  · rename_i name more hm
    rw [hm] at hd
    repeat' split at hp
    all_goals simp [parts] at hp
    subst hp
    simp only [List.length_cons] at hd
    omega

theorem length_lt_of_mem_expressionOf {tokens p : List Token}
    (hp : p ∈ (expressionOf tokens).parts) : p.length < tokens.length := by
  unfold expressionOf at hp
  split at hp
  · split at hp <;> cases hp
  · obtain ⟨item, hi, hp⟩ := List.mem_flatMap.1 hp
    exact Item.length_lt_of_mem_scan hi hp

theorem parts_of_function? {tokens : List Token} {form : Form} (h : function? tokens = some form) :
    form.parts = [] := by
  unfold function? at h
  dsimp only at h
  split at h
  · split at h
    · cases h; exact parts_function _ _ _
    · cases h
  · cases h

theorem length_lt_of_call? {tokens p : List Token} {form : Form} (h : call? tokens = some form)
    (hp : p ∈ form.parts) : p.length < tokens.length := by
  unfold call? at h
  split at h
  · split at h
    · obtain ⟨inner, hi, he⟩ := Option.map_eq_some_iff.1 h
      cases he
      have := length_wholeGroup? hi
      have := Invocation.length_of_mem_read hp
      simp only [List.length_tail, List.length_cons] at *
      omega
    · cases h
  · cases h

theorem length_of_transfer? {keyword : Token} {rest p : List Token} {form : Form}
    (h : transfer? keyword rest = some form) (hp : p ∈ form.parts) : p.length ≤ rest.length := by
  unfold transfer? at h
  repeat' split at h
  all_goals cases h
  all_goals simp [parts] at hp
  all_goals simp [hp]

theorem length_lt_of_declaration? {tokens p : List Token} {form : Form}
    (h : declaration? tokens = some form) (hp : p ∈ form.parts) : p.length < tokens.length := by
  unfold declaration? at h
  dsimp only at h
  split at h
  · rename_i next rest _ hd
    have hl := congrArg List.length hd
    simp only [List.length_drop, List.length_cons] at hl
    cases h
    split at hp
    · have := length_lt_of_mem_declaration hp
      omega
    · have := length_lt_of_mem_declaration hp
      simp only [List.length_cons] at this
      omega
  · cases h

theorem parts_of_keyword? {tokens : List Token} {form : Form} (h : keyword? tokens = some form) :
    form.parts = [] := by
  obtain ⟨_, _, he⟩ := Option.map_eq_some_iff.1 h
  subst he
  split <;> rfl

/-- What a statement is made of is shorter than the statement. -/
theorem length_lt_of_mem_parts {tokens p : List Token} (hp : p ∈ (ofTokens tokens).parts) :
    p.length < tokens.length := by
  unfold ofTokens at hp
  split at hp
  · cases hp
  · rename_i first rest
    dsimp only at hp
    split at hp
    · exact Nat.lt_succ_of_lt (length_lt_of_mem_loop hp)
    · rcases hf : function? (first :: rest) with _ | form
      · rcases hc : call? (first :: rest) with _ | form
        · rcases ht : transfer? first rest with _ | form
          · rcases hd : declaration? (first :: rest) with _ | form
            · rcases hk : keyword? (first :: rest) with _ | form
              · simp only [hf, hc, ht, hd, hk] at hp
                exact length_lt_of_mem_expressionOf hp
              · simp only [hf, hc, ht, hd, hk] at hp
                have hp : p ∈ form.parts := hp
                rw [parts_of_keyword? hk] at hp
                cases hp
            · simp only [hf, hc, ht, hd] at hp
              exact length_lt_of_declaration? hd hp
          · simp only [hf, hc, ht] at hp
            exact Nat.lt_succ_of_le (length_of_transfer? ht hp)
        · simp only [hf, hc] at hp
          exact length_lt_of_call? hc hp
      · simp only [hf] at hp
        have hp : p ∈ form.parts := hp
        rw [parts_of_function? hf] at hp
        cases hp

end Form

end WordMachine.Cflat
