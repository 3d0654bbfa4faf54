/-
The shape of the tree of a statement. Every node in it stands on the line of the statement and has no
statements of its own; leaves have no arguments, and an operator has as many as it takes. A variable is marked
as written exactly where it is the left operand of an assignment, and parameters belong to functions only.
-/
import WordMachine.Proofs.Cflat.Refusals
import WordMachine.Proofs.Cflat.SingleStatement

namespace WordMachine.Cflat

/-! ## Nodes of a tree -/

/-- The node is the tree or is in one of its arguments. -/
inductive Node.Within : Node → Node → Prop
  | self (n : Node) : Within n n
  | argument {m x n : Node} (hx : x ∈ n.arguments) (h : Within m x) : Within m n

/-- The node is a call of this name. -/
def Node.Calls (n : Node) (name : Token) : Prop := n.head.kind = "FunctionCall" ∧ n.head.name? = some name

/-- What holds of a node in the tree of a statement on a line. -/
structure Node.Proper (line : Nat) (n : Node) : Prop where
  statements_eq : n.statements = []
  line_eq : n.line = line
  literal : n.head.kind = "LiteralLeaf" → n.head.literal?.isSome ∧ n.head.name? = none ∧ n.arguments = []
  named : n.head.kind = "VariableRead" ∨ n.head.kind = "VariableWrite" →
    n.head.name?.isSome ∧ n.arguments = []
  operator : ∀ op, n.Calls op → op.isOperator = true → n.arguments.length = if op.isUnary then 1 else 2
  assigned : ∀ op, n.Calls op → op.isAssignment = true →
    ∀ x, n.arguments.head? = some x → x.head.kind ≠ "VariableRead"
  written : ∀ i x, n.arguments[i]? = some x → x.head.kind = "VariableWrite" →
    i = 0 ∧ ∃ op, n.Calls op ∧ op.isAssignment = true
  parameter : ∀ x ∈ n.arguments, x.head.kind = "FunctionArgumentDef" → n.head.kind = "FunctionDef"

/-- What holds of the tree of a statement on a line. -/
structure Node.WellFormed (line : Nat) (n : Node) : Prop where
  proper : ∀ m : Node, m.Within n → m.Proper line
  not_written : n.head.kind ≠ "VariableWrite"
  not_parameter : n.head.kind ≠ "FunctionArgumentDef"

namespace Head

variable {h : Head}

theorem of_kind_literal (hk : h.kind = "LiteralLeaf") : h.literal?.isSome ∧ h.name? = none := by
  cases h with
  | literal value => exact ⟨rfl, rfl⟩
  | _ => simp [kind] at hk

theorem of_kind_variable (hk : h.kind = "VariableRead" ∨ h.kind = "VariableWrite") : h.name?.isSome := by
  cases h with
  | write name => rfl
  | read name => rfl
  | _ => simp [kind] at hk

end Head

namespace Node

variable {line : Nat}

theorem proper_within_apply {head : Head} {arguments : List Node} (h : (apply head line arguments).Proper line)
    (harguments : ∀ x ∈ arguments, ∀ m : Node, m.Within x → m.Proper line) :
    ∀ m : Node, m.Within (apply head line arguments) → m.Proper line := by
  intro m hm
  cases hm with
  | self => exact h
  | argument hx hm => exact harguments _ hx m hm

/-! ## Leaves -/

theorem proper_leaf {head : Head} (hcall : head.kind ≠ "FunctionCall") : (leaf head line).Proper line where
  statements_eq := rfl
  line_eq := rfl
  literal hk := ⟨(Head.of_kind_literal hk).1, (Head.of_kind_literal hk).2, rfl⟩
  named hk := ⟨Head.of_kind_variable hk, rfl⟩
  operator _ h := absurd h.1 hcall
  assigned _ h := absurd h.1 hcall
  written _ _ h := by cases h
  parameter _ h := by cases h

theorem proper_within_leaf {head : Head} (hcall : head.kind ≠ "FunctionCall") :
    ∀ m : Node, m.Within (leaf head line) → m.Proper line :=
  proper_within_apply (proper_leaf hcall) fun _ hx => by cases hx

theorem wellFormed_ofLeaf (l : Leaf) : (leaf (.ofLeaf l) line).WellFormed line := by
  have hkind : (Head.ofLeaf l).kind = "LiteralLeaf" ∨ (Head.ofLeaf l).kind = "VariableRead" := by
    cases l with
    | literal value => exact .inl rfl
    | _ => exact .inr rfl
  have hne : ∀ kind, kind ≠ "LiteralLeaf" → kind ≠ "VariableRead" → (Head.ofLeaf l).kind ≠ kind := by
    rintro _ hliteral hread rfl
    exact hkind.elim hliteral hread
  exact ⟨proper_within_leaf (hne _ (by decide) (by decide)), hne _ (by decide) (by decide),
    hne _ (by decide) (by decide)⟩

/-- Source text that is kept as it was written is a literal. -/
theorem wellFormed_raw (text : String) : (leaf (.raw text) line).WellFormed line :=
  wellFormed_ofLeaf (.literal (.text text))

/-! ## Calls -/

theorem isOperator_of_isAssignment {op : Token} (h : op.isAssignment = true) : op.isOperator = true :=
  isOperator_of_level? (beq_iff_eq.1 h)

/-- A call of a name that is no operator, or a construct, of well-formed arguments. -/
theorem wellFormed_apply {head : Head} {arguments : List Node}
    (hkind : head.kind = "FunctionCall" ∨ head.kind = "InternalCall")
    (hname : ∀ name, head.name? = some name → name.isOperator = false)
    (harguments : ∀ x ∈ arguments, x.WellFormed line) : (apply head line arguments).WellFormed line := by
  have hne : ∀ kind, kind ≠ "FunctionCall" → kind ≠ "InternalCall" → head.kind ≠ kind := by
    rintro _ hcall hconstruct rfl
    exact hkind.elim hcall hconstruct
  have hoperator : ∀ op : Token, (apply head line arguments).Calls op → op.isOperator ≠ true :=
    fun op hcalls => Bool.eq_false_iff.1 (hname op hcalls.2)
  refine ⟨proper_within_apply ?_ fun x hx => (harguments x hx).proper, hne _ (by decide) (by decide),
    hne _ (by decide) (by decide)⟩
  exact
    { statements_eq := rfl
      line_eq := rfl
      literal := fun h => absurd h (hne _ (by decide) (by decide))
      named := fun h => h.elim (fun h => absurd h (hne _ (by decide) (by decide)))
        fun h => absurd h (hne _ (by decide) (by decide))
      operator := fun op hcalls hop => absurd hop (hoperator op hcalls)
      assigned := fun op hcalls hop => absurd (isOperator_of_isAssignment hop) (hoperator op hcalls)
      written := fun i x hx hwritten => absurd hwritten (harguments x (List.mem_of_getElem? hx)).not_written
      parameter := fun x hx hparameter => absurd hparameter (harguments x hx).not_parameter }

/-- A function and its parameters. -/
theorem wellFormed_function {name : Token} {returns : ValueType} {parameters : List Head}
    (h : ∀ p ∈ parameters, p.kind = "FunctionArgumentDef") :
    (apply (.function name returns) line (parameters.map (leaf · line))).WellFormed line := by
  have harguments : ∀ x ∈ parameters.map (leaf · line), ∃ p ∈ parameters, leaf p line = x :=
    fun x hx => List.mem_map.1 hx
  refine ⟨proper_within_apply ?_ fun x hx => ?_, by simp [apply, head, Head.kind], by simp [apply, head, Head.kind]⟩
  · exact
      { statements_eq := rfl
        line_eq := rfl
        literal := fun hk => by simp [apply, head, Head.kind] at hk
        named := fun hk => by simp [apply, head, Head.kind] at hk
        operator := fun op hcalls => by simp [Calls, apply, head, Head.kind] at hcalls
        assigned := fun op hcalls => by simp [Calls, apply, head, Head.kind] at hcalls
        written := fun i x hx hwritten => by
          obtain ⟨p, hp, rfl⟩ := harguments x (List.mem_of_getElem? hx)
          have hkind : p.kind = "VariableWrite" := hwritten
          rw [h p hp] at hkind
          exact absurd hkind (by decide)
        parameter := fun _ _ _ => rfl }
  · obtain ⟨p, hp, rfl⟩ := harguments x hx
    exact proper_within_leaf (by rw [h p hp]; decide)

/-! ## Operators -/

/-- A call whose arguments are those that its name takes. -/
theorem proper_call {op : Token} {arguments : List Node}
    (harity : op.isOperator = true → arguments.length = if op.isUnary then 1 else 2)
    (hassigned : op.isAssignment = true → ∀ x, arguments.head? = some x → x.head.kind ≠ "VariableRead")
    (hwritten : ∀ (i : Nat) (x : Node), arguments[i]? = some x → x.head.kind = "VariableWrite" →
      i = 0 ∧ op.isAssignment = true)
    (hparameter : ∀ x ∈ arguments, x.head.kind ≠ "FunctionArgumentDef") :
    (apply (.call op) line arguments).Proper line where
  statements_eq := rfl
  line_eq := rfl
  literal hk := by simp [apply, head, Head.kind] at hk
  named hk := by simp [apply, head, Head.kind] at hk
  operator := by rintro _ ⟨-, ⟨⟩⟩; exact harity
  assigned := by rintro _ ⟨-, ⟨⟩⟩; exact hassigned
  written i x hx hk := ⟨(hwritten i x hx hk).1, op, ⟨rfl, rfl⟩, (hwritten i x hx hk).2⟩
  parameter x hx hk := absurd hk (hparameter x hx)

/-- The left operand of an assignment is no variable that is read. -/
theorem kind_markWritten_ne (n : Node) : (Stacks.markWritten n).head.kind ≠ "VariableRead" := by
  rcases n with ⟨head, line, arguments, statements⟩
  cases head <;> simp [Stacks.markWritten, Node.head, Head.kind]

theorem parameter_of_markWritten {n : Node} (h : (Stacks.markWritten n).head.kind = "FunctionArgumentDef") :
    n.head.kind = "FunctionArgumentDef" := by
  rcases n with ⟨head, line, arguments, statements⟩
  cases head with
  | read name => simp [Stacks.markWritten, Node.head, Head.kind] at h
  | _ => exact h

/-- Marking a variable as written leaves a proper node. -/
theorem proper_within_markWritten {n : Node} (h : ∀ m : Node, m.Within n → m.Proper line) :
    ∀ m : Node, m.Within (Stacks.markWritten n) → m.Proper line := by
  obtain ⟨head, nodeLine, arguments, statements⟩ := n
  cases head with
  | read name =>
    have hn := h _ (.self _)
    obtain rfl : nodeLine = line := hn.line_eq
    obtain rfl : statements = [] := hn.statements_eq
    obtain rfl : arguments = [] := (hn.named (.inl rfl)).2
    exact proper_within_leaf (by simp [Head.kind])
  | _ => exact h

/-- An operator other than an assignment takes its operands as they are. -/
theorem wellFormed_operator {op : Token} {operands : List Node}
    (harity : operands.length = if op.isUnary then 1 else 2) (hop : op.isAssignment = false)
    (h : ∀ x ∈ operands, x.WellFormed line) : (apply (.call op) line operands).WellFormed line := by
  refine ⟨proper_within_apply (proper_call (fun _ => harity) (fun ha => ?_) (fun i x hx hk => ?_)
    fun x hx => (h x hx).not_parameter) fun x hx => (h x hx).proper, by simp [apply, head, Head.kind],
    by simp [apply, head, Head.kind]⟩
  · rw [hop] at ha
    cases ha
  · exact absurd hk (h x (List.mem_of_getElem? hx)).not_written

/-- An assignment marks a variable to the left of it. -/
theorem wellFormed_assignment {op : Token} {left right : Node} (hunary : op.isUnary = false)
    (hop : op.isAssignment = true) (hleft : left.WellFormed line) (hright : right.WellFormed line) :
    (apply (.call op) line [Stacks.markWritten left, right]).WellFormed line := by
  refine ⟨proper_within_apply (proper_call (fun _ => by rw [hunary]; rfl) (fun _ x hx => ?_)
    (fun i x hx hk => ⟨?_, hop⟩) ?_) ?_, by simp [apply, head, Head.kind], by simp [apply, head, Head.kind]⟩
  · cases hx
    exact kind_markWritten_ne left
  · cases i with
    | zero => rfl
    | succ i =>
      rw [List.getElem?_cons_succ] at hx
      obtain rfl := List.mem_singleton.1 (List.mem_of_getElem? hx)
      exact absurd hk hright.not_written
  · rw [List.forall_mem_cons, List.forall_mem_singleton]
    exact ⟨fun hk => hleft.not_parameter (parameter_of_markWritten hk), hright.not_parameter⟩
  · rw [List.forall_mem_cons, List.forall_mem_singleton]
    exact ⟨proper_within_markWritten hleft.proper, hright.proper⟩

theorem isAssignment_of_isUnary {op : Token} (h : op.isUnary = true) : op.isAssignment = false := by
  rw [Token.isUnary, beq_iff_eq] at h
  rw [Token.isAssignment, h]
  rfl

theorem keptByOperators_wellFormed : Stacks.KeptByOperators line (WellFormed line) where
  leaf _ l _ := wellFormed_ofLeaf l
  unary op hop operand h := by
    refine wellFormed_operator (by rw [hop]; rfl) (isAssignment_of_isUnary hop) ?_
    rw [List.forall_mem_singleton]
    exact h
  binary op hop _ left right hleft hright := by
    cases ha : op.isAssignment with
    | true => exact wellFormed_assignment hop ha hleft hright
    | false =>
      refine wellFormed_operator (by rw [hop]; rfl) ha ?_
      rw [List.forall_mem_cons, List.forall_mem_singleton]
      exact ⟨hleft, hright⟩

end Node

/-! ## Statements -/

theorem SimpleNode.wellFormed {line : Nat} {head : Head} {arguments : List Head} (h : SimpleNode head arguments) :
    (Node.apply head line (arguments.map (.leaf · line))).WellFormed line := by
  cases h with
  | leaf l => exact Node.wellFormed_ofLeaf l
  | keyword word labels hword =>
    refine Node.wellFormed_apply (.inl rfl) (fun name hname => ?_) fun x hx => ?_
    · cases hname
      exact hword
    · rw [List.map_map] at hx
      obtain ⟨label, -, rfl⟩ := List.mem_map.1 hx
      exact Node.wellFormed_raw label
  | declaration depth name type =>
    refine Node.wellFormed_apply (.inr rfl) (fun name hname => ?_) ?_
    · cases hname
      decide
    · rw [List.map_cons, List.map_singleton, List.forall_mem_cons, List.forall_mem_singleton]
      exact ⟨Node.wellFormed_raw name, Node.wellFormed_raw type⟩
  | function name returns parameters hparameters => exact Node.wellFormed_function hparameters

/-- A name with its parentheses has the trees of its parts for arguments. -/
theorem Invocation.wellFormed_of_build {line : Nat} {i : Invocation} {n : Node}
    {tree : (p : List Token) → p ∈ i.parts → Except Error Node} (hi : i.Sound)
    (htree : ∀ p hp n, tree p hp = .ok n → n.WellFormed line) (h : i.build line tree = .ok n) :
    n.WellFormed line := by
  cases i with
  | loop clauses =>
    obtain ⟨nodes, hnodes, h⟩ := bind_eq_ok.1 h
    cases h
    refine Node.wellFormed_apply (.inl rfl) (fun name hname => ?_) fun x hx => ?_
    · cases hname
      decide
    · obtain ⟨⟨p, hp⟩, -, hclause⟩ := mem_of_mapM_eq_ok hnodes hx
      dsimp only at hclause
      split at hclause
      · cases hclause
        refine Node.wellFormed_apply (.inr rfl) (fun name hname => ?_) fun _ hx => by cases hx
        cases hname
        decide
      · exact htree p hp x hclause
  | call callee arguments =>
    obtain ⟨nodes, hnodes, h⟩ := bind_eq_ok.1 h
    cases h
    refine Node.wellFormed_apply (.inl rfl) (fun name hname => ?_) fun x hx => ?_
    · cases hname
      exact hi
    · obtain ⟨⟨p, hp⟩, -, hargument⟩ := mem_of_mapM_eq_ok hnodes hx
      dsimp only at hargument
      split at hargument
      · cases hargument
      · exact htree p hp x hargument
  | refused fault => cases h

theorem Form.wellFormed_of_build {line : Nat} {f : Form} {n : Node}
    {tree : (p : List Token) → p ∈ f.parts → Except Error Node} (hf : f.Sound)
    (htree : ∀ p hp n, tree p hp = .ok n → n.WellFormed line) (h : f.build line tree = .ok n) :
    n.WellFormed line := by
  cases f with
  | refused fault => cases h
  | simple head arguments => cases h; exact SimpleNode.wellFormed hf
  | invoke invocation => exact Invocation.wellFormed_of_build hf htree h
  | result value =>
    obtain ⟨node, hnode, h⟩ := bind_eq_ok.1 h
    cases h
    refine Node.wellFormed_apply (.inl rfl) (fun name hname => ?_) ?_
    · cases hname
      decide
    · rw [List.forall_mem_singleton]
      exact htree value _ node hnode
  | initialise depth name type value =>
    obtain ⟨node, hnode, h⟩ := bind_eq_ok.1 h
    cases h
    refine Node.wellFormed_apply (.inl rfl) (fun name hname => ?_) ?_
    · cases hname
      decide
    · rw [List.forall_mem_cons, List.forall_mem_cons, List.forall_mem_singleton]
      exact ⟨Node.wellFormed_raw name, Node.wellFormed_raw type, htree value _ node hnode⟩
  | expression items =>
    obtain ⟨pieces, hpieces, h⟩ := bind_eq_ok.1 h
    refine property_of_resolve Node.keptByOperators_wellFormed (fun tree' htree' => ?_) (atLine_eq_ok.1 h)
    obtain ⟨⟨item, hi⟩, -, hitem⟩ := mem_of_mapM_eq_ok hpieces htree'
    cases item with
    | token t => cases hitem
    | invoke invocation =>
      obtain ⟨node, hnode, hcall⟩ := map_eq_ok.1 hitem
      cases hcall
      exact Invocation.wellFormed_of_build (hf _ hi) (fun p hp => htree p _) hnode

theorem wellFormed_of_ofTokens {line : Nat} : ∀ {tokens : List Token} {n : Node},
    Node.ofTokens line tokens = .ok n → n.WellFormed line
  | [], _, h => by rw [Node.ofTokens] at h; cases h
  | first :: rest, _, h => by
    rw [Node.ofTokens] at h
    exact Form.wellFormed_of_build (Form.sound_ofTokens first rest)
      (fun p hp n hn => wellFormed_of_ofTokens hn) h
termination_by tokens => tokens.length
decreasing_by exact Form.length_lt_of_mem_parts hp

theorem line_of_ofTokens {line : Nat} {tokens : List Token} {e : Error} (h : Node.ofTokens line tokens = .error e) :
    e.line = line := by
  cases tokens with
  | nil => rw [Node.ofTokens] at h; cases h; rfl
  | cons first rest => exact (refuses_of_ofTokens (List.cons_ne_nil first rest) h).line_eq

/-- The tree of a statement is well formed and stands on the line of the statement, and so does the error of
one that has no tree. -/
theorem ofTokens_wellFormed (line : Nat) (tokens : List Token) :
    (∀ n, Node.ofTokens line tokens = .ok n → n.WellFormed line) ∧
      ∀ e, Node.ofTokens line tokens = .error e → e.line = line :=
  ⟨fun _ => wellFormed_of_ofTokens, fun _ => line_of_ofTokens⟩

/-- Two assignments in a row, the second of a negated value; and two names without an operator between them. -/
theorem ofTokens_wellFormed_assignments :
    let tree : Node := .apply (.call "=") 3 [.leaf (.write "a") 3, .apply (.call "+=") 3 [.leaf (.write "b") 3,
      .apply (.call Token.unaryMinus) 3 [.leaf (.read "c") 3]]]
    (Node.ofTokens 3 ["a", "=", "b", "+=", "-", "c"] = .ok tree ∧ tree.WellFormed 3) ∧
      ∃ e, Node.ofTokens 3 ["a", "b"] = .error e ∧ e.line = 3 := by
  intro tree
  have htree : Node.ofTokens 3 ["a", "=", "b", "+=", "-", "c"] = .ok tree := by
    rw [ofTokens_of_not_open (by decide) (by decide) (by decide)]
    rfl
  have herror : Node.ofTokens 3 ["a", "b"] = .error ⟨3, .internal .severalValues⟩ := by
    rw [ofTokens_of_not_open (by decide) (by decide) (by decide)]
    rfl
  exact ⟨⟨htree, (ofTokens_wellFormed 3 _).1 tree htree⟩, _, herror, (ofTokens_wellFormed 3 _).2 _ herror⟩

end WordMachine.Cflat
