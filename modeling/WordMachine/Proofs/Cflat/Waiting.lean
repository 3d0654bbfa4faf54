/-
Reading a written expression from right to left onto the two stacks leaves operators that wait and
operands for them, which together make up its tree. All of these operators bind at least as tightly as
the expression, so that an operator to the left of it, which binds less tightly, has them all applied.
-/
import WordMachine.Proofs.Cflat.Written
import WordMachine.Proofs.Result

namespace WordMachine.Cflat

/-! ## Tokens of operators -/

theorem isOperator_of_level? {t : Token} {level : Nat} (h : t.level? = some level) : t.isOperator = true := by
  rw [Token.isOperator, h, Option.isSome_some, Bool.or_true]

theorem ne_close_of_level? {t : Token} {level : Nat} (h : t.level? = some level) : t ≠ ")" := by
  rintro rfl; cases h

theorem ne_open_of_level? {t : Token} {level : Nat} (h : t.level? = some level) : t ≠ "(" := by
  rintro rfl; cases h

theorem UnaryOperator.level?_name (op : UnaryOperator) : op.name.level? = some 13 := by cases op <;> rfl

theorem UnaryOperator.isOperator_token (op : UnaryOperator) :
    op.token.isOperator = true ∧ op.token ≠ "(" ∧ op.token ≠ ")" := by
  cases op <;> decide

theorem UnaryOperator.unaryForm?_token (op : UnaryOperator) : op.token.unaryForm?.getD op.token = op.name := by
  cases op <;> rfl

namespace Stacks

/-! ## Operators that wait -/

/-- The operands after several operators are applied in turn. -/
def applyAll (line : Nat) : List Token → List Node → Except Fault (List Node)
  | [], operands => .ok operands
  | op :: operators, operands => applyOperator line op operands >>= applyAll line operators

theorem applyAll_append (line : Nat) : ∀ (fs gs : List Token) (operands : List Node),
    applyAll line (fs ++ gs) operands = applyAll line fs operands >>= applyAll line gs
  | [], gs, operands => rfl
  | f :: fs, gs, operands => by
    rw [List.cons_append, applyAll, applyAll]
    cases applyOperator line f operands with
    | error e => rfl
    | ok operands => exact applyAll_append line fs gs operands

/-- The operators bind at least as tightly as `level`, and with their operands they make up a tree. -/
structure Waiting (line level : Nat) (fs : List Token) (ws : List Node) (tree : Node) : Prop where
  level? : ∀ f ∈ fs, ∃ l, f.level? = some l ∧ level ≤ l
  applyAll_eq : ∀ operands, applyAll line fs (ws ++ operands) = .ok (tree :: operands)

/-- An operator that binds at least as tightly as `level`, coming to the left of the operators, leaves
them waiting. -/
def Stops (level : Nat) : List Token → Prop
  | [] => True
  | op :: _ => ∀ top, op.level? = some top → ∀ l ≥ level, ¬(l < top ∨ (top = l ∧ Token.groupsRight l))

theorem Stops.mono {level level' : Nat} {operators : List Token} (h : Stops level operators)
    (hl : level ≤ level') : Stops level' operators := by
  cases operators with
  | nil => trivial
  | cons op _ => exact fun top ht l hl' => h top ht l (Nat.le_trans hl hl')

theorem stops_close (level : Nat) (operators : List Token) : Stops level (")" :: operators) :=
  fun top ht => by cases ht

/-- A binary operator waits while its left operand is read. -/
theorem stops_binary (op : BinaryOperator) (operators : List Token) :
    Stops (Token.leftLevel op.level) (op.token :: operators) := by
  intro top ht l hl
  rw [op.level?_token] at ht
  cases ht
  have := Token.le_leftLevel op.level
  rintro (h | ⟨rfl, hr⟩)
  · omega
  · rw [Token.leftLevel, if_pos hr] at hl
    omega

theorem reduce_of_stops {line level l : Nat} {operators : List Token} (h : Stops level operators) (hl : level ≤ l)
    (operands : List Node) : reduce line l operators operands = .ok ⟨operators, operands⟩ := by
  cases operators with
  | nil => rfl
  | cons op operators =>
    rw [reduce]
    cases ht : op.level? with
    | none => rfl
    | some top => exact if_neg (h top ht l hl)

theorem reduce_append {line l : Nat} (operators : List Token) : ∀ {fs : List Token} {operands : List Node},
    (∀ f ∈ fs, ∃ top, f.level? = some top ∧ (l < top ∨ (top = l ∧ Token.groupsRight l))) →
    reduce line l (fs ++ operators) operands = applyAll line fs operands >>= reduce line l operators
  | [], operands, _ => rfl
  | f :: fs, operands, h => by
    obtain ⟨top, ht, hl⟩ := h f (List.mem_cons_self ..)
    rw [List.cons_append, reduce, ht, applyAll]
    dsimp only
    rw [if_pos hl]
    cases applyOperator line f operands with
    | error e => rfl
    | ok operands => exact reduce_append operators fun f hf => h f (List.mem_cons_of_mem _ hf)

theorem openParen_append {line : Nat} (operators : List Token) : ∀ {fs : List Token} {operands : List Node},
    (∀ f ∈ fs, f ≠ ")") → openParen line (fs ++ ")" :: operators) operands =
      (applyAll line fs operands).map fun operands => ⟨operators, operands⟩
  | [], operands, _ => rfl
  | f :: fs, operands, h => by
    rw [List.cons_append, openParen, if_neg (h f (List.mem_cons_self ..)), applyAll]
    cases applyOperator line f operands with
    | error e => rfl
    | ok operands => exact openParen_append operators fun f hf => h f (List.mem_cons_of_mem _ hf)

theorem finish_of_ne {line : Nat} : ∀ {fs : List Token} {operands : List Node}, (∀ f ∈ fs, f ≠ ")") →
    finish line fs operands = applyAll line fs operands
  | [], operands, _ => rfl
  | f :: fs, operands, h => by
    rw [finish, if_neg (h f (List.mem_cons_self ..)), applyAll]
    cases applyOperator line f operands with
    | error e => rfl
    | ok operands => exact finish_of_ne fun f hf => h f (List.mem_cons_of_mem _ hf)

namespace Waiting

variable {line level : Nat} {fs : List Token} {ws : List Node} {tree : Node}

/-- An operator that comes to the left of an expression that binds more tightly has it made up. -/
theorem reduce_eq (h : Waiting line level fs ws tree) {l : Nat}
    (hl : ∀ top ≥ level, l < top ∨ (top = l ∧ Token.groupsRight l)) {operators : List Token} {stop : Nat}
    (hs : Stops stop operators) (hstop : stop ≤ l) (operands : List Node) :
    reduce line l (fs ++ operators) (ws ++ operands) = .ok ⟨operators, tree :: operands⟩ := by
  rw [reduce_append operators fun f hf => ?_, h.applyAll_eq]
  · exact reduce_of_stops hs hstop _
  · obtain ⟨top, ht, hle⟩ := h.level? f hf
    exact ⟨top, ht, hl top hle⟩

theorem openParen_eq (h : Waiting line level fs ws tree) (operators : List Token) (operands : List Node) :
    openParen line (fs ++ ")" :: operators) (ws ++ operands) = .ok ⟨operators, tree :: operands⟩ := by
  rw [openParen_append operators fun f hf => ?_, h.applyAll_eq]
  · rfl
  · obtain ⟨l, hl, -⟩ := h.level? f hf
    exact ne_close_of_level? hl

theorem finish_eq (h : Waiting line level fs ws tree) : finish line fs ws = .ok [tree] := by
  have happly := h.applyAll_eq []
  rw [List.append_nil] at happly
  rw [finish_of_ne fun f hf => ?_, happly]
  obtain ⟨l, hl, -⟩ := h.level? f hf
  exact ne_close_of_level? hl

theorem operand (tree : Node) : Waiting line level [] [tree] tree := ⟨fun _ h => (by cases h), fun _ => rfl⟩

end Waiting

/-! ## Reading pieces -/

/-- Reads pieces from right to left onto stacks that hold what comes after them. -/
def pushOnto (line : Nat) : List (Piece × Bool) → Stacks → Except Fault Stacks
  | [], s => .ok s
  | p :: ps, s => pushOnto line ps s >>= fun s => s.push line p

theorem pushAll_eq (line : Nat) : ∀ ps : List (Piece × Bool), pushAll line ps = pushOnto line ps ⟨[], []⟩
  | [] => rfl
  | p :: ps => by
    rw [pushAll, pushOnto, ← pushAll_eq line ps]
    cases pushAll line ps <;> rfl

theorem pushOnto_append (line : Nat) (qs : List (Piece × Bool)) (s : Stacks) : ∀ ps : List (Piece × Bool),
    pushOnto line (ps ++ qs) s = pushOnto line qs s >>= pushOnto line ps
  | [] => by
    cases h : pushOnto line qs s <;> simp only [List.nil_append, h] <;> rfl
  | p :: ps => by
    rw [List.cons_append, pushOnto, pushOnto_append line qs s ps]
    cases pushOnto line qs s <;> rfl

end Stacks

/-! ## The pieces of a written expression -/

/-- Has an operator that comes right after these pieces no left operand? -/
def operandMissingAfter (first : Bool) : List Piece → Bool
  | [] => first
  | p :: ps => operandMissingAfter p.leavesOperandMissing ps

theorem markPieces_append : ∀ (first : Bool) (ps qs : List Piece),
    markPieces first (ps ++ qs) = markPieces first ps ++ markPieces (operandMissingAfter first ps) qs
  | first, [], qs => rfl
  | first, p :: ps, qs => by
    rw [List.cons_append, markPieces, markPieces_append, markPieces, operandMissingAfter, List.cons_append]

theorem operandMissingAfter_append : ∀ (first : Bool) (ps qs : List Piece),
    operandMissingAfter first (ps ++ qs) = operandMissingAfter (operandMissingAfter first ps) qs
  | _, [], _ => rfl
  | _, p :: ps, qs => operandMissingAfter_append p.leavesOperandMissing ps qs

theorem leavesOperandMissing_of_operator {t : Token} (ho : t.isOperator = true) (hc : t ≠ ")") :
    (Piece.token t).leavesOperandMissing = true := by
  rw [Piece.leavesOperandMissing, ho, bne_iff_ne.2 hc, Bool.true_and]

namespace Written

/-- The tokens of a written form, with calls in one piece. -/
def pieces (line : Nat) : Written → List Piece
  | .leaf x => [.token x.token]
  | .call f arguments => [.call ((Written.call f arguments).tree.toNode line)]
  | .paren inner => .token "(" :: (inner.pieces line ++ [.token ")"])
  | .unary op operand => .token op.token :: operand.pieces line
  | .binary op left right => left.pieces line ++ .token op.token :: right.pieces line

/-- What comes after a written expression has a left operand. -/
theorem operandMissingAfter_pieces (line : Nat) : ∀ (w : Written) (first : Bool),
    operandMissingAfter first (w.pieces line) = false
  | .leaf x, first => by
    show (x.token != ")" && x.token.isOperator) = false
    rw [x.isOperator_eq, Bool.and_false]
  | .call f arguments, first => rfl
  | .paren inner, first => by
    rw [pieces, operandMissingAfter, operandMissingAfter_append]
    rfl
  | .unary op operand, first => operandMissingAfter_pieces line operand _
  | .binary op left right, first => by
    rw [pieces, operandMissingAfter_append]
    exact operandMissingAfter_pieces line right _

end Written

/-- Only a variable is changed when it is written to. -/
theorem markWritten_toNode (line : Nat) (e : Expr) : Stacks.markWritten (e.toNode line) =
    e.variableName?.elim (e.toNode line) fun name => .leaf (.write name) line := by
  cases e with
  | leaf x =>
    obtain ⟨t, leaf, hr, ho, hn⟩ := x
    cases leaf <;> rfl
  | _ => rfl

namespace Stacks

/-! ## Reading a written expression -/

variable {line : Nat} {operators : List Token} {operands : List Node}

theorem pushToken_leaf (x : LeafToken) (first : Bool) (s : Stacks) :
    s.pushToken line x.token first = .ok { s with operands := .leaf (.ofLeaf x.leaf) line :: s.operands } := by
  have ho := x.isOperator_eq
  have hopen : x.token ≠ "(" := by intro h; rw [h] at ho; cases ho
  have hclose : x.token ≠ ")" := by intro h; rw [h] at ho; cases ho
  rw [pushToken, if_neg hclose, if_neg hopen, ho, if_neg Bool.false_ne_true, x.read_eq]

theorem pushToken_unary (op : UnaryOperator) {fs : List Token} {ws : List Node} {tree : Node} {level : Nat}
    (h : Waiting line 13 fs ws tree) (hs : Stops level operators) (hl : level ≤ 13) :
    pushToken line op.token true ⟨fs ++ operators, ws ++ operands⟩ =
      .ok ⟨op.name :: operators, tree :: operands⟩ := by
  obtain ⟨ho, hopen, hclose⟩ := op.isOperator_token
  have hr : reduce line 13 (fs ++ operators) (ws ++ operands) = .ok ⟨operators, tree :: operands⟩ :=
    h.reduce_eq (fun top ht => (Nat.lt_or_eq_of_le ht).imp_right fun h => ⟨h.symm, rfl⟩) hs hl operands
  rw [pushToken, if_neg hclose, if_neg hopen, if_pos ho]
  simp only [if_true, op.unaryForm?_token, op.level?_name, hr]

theorem pushToken_binary (op : BinaryOperator) {fs : List Token} {ws : List Node} {tree : Node} {level : Nat}
    (h : Waiting line (Token.rightLevel op.level) fs ws tree) (hs : Stops level operators) (hl : level ≤ op.level) :
    pushToken line op.token false ⟨fs ++ operators, ws ++ operands⟩ =
      .ok ⟨op.token :: operators, tree :: operands⟩ := by
  have hlevel := op.level?_token
  have hr : reduce line op.level (fs ++ operators) (ws ++ operands) = .ok ⟨operators, tree :: operands⟩ := by
    refine h.reduce_eq (fun top ht => ?_) hs hl operands
    unfold Token.rightLevel at ht
    split at ht
    · rename_i hg
      exact (Nat.lt_or_eq_of_le ht).imp_right fun h => ⟨h.symm, hg⟩
    · exact .inl ht
  rw [pushToken, if_neg (ne_close_of_level? hlevel), if_neg (ne_open_of_level? hlevel),
    if_pos (isOperator_of_level? hlevel)]
  simp only [Bool.false_eq_true, if_false, hlevel, hr]

theorem applyOperator_unary (op : UnaryOperator) (e : Expr) :
    applyOperator line op.name (e.toNode line :: operands) = .ok ((Expr.unary op e).toNode line :: operands) := by
  have hu : op.name.isUnary = true := by rw [Token.isUnary, op.level?_name]; rfl
  rw [applyOperator, if_pos hu]
  rfl

theorem applyOperator_binary (op : BinaryOperator) (l r : Expr) :
    applyOperator line op.token (l.toNode line :: r.toNode line :: operands) =
      .ok ((Expr.binary op l r).toNode line :: operands) := by
  have hu : op.token.isUnary = false := by
    rw [Token.isUnary, op.level?_token]
    exact beq_false_of_ne fun h => op.level_ne (Option.some.inj h)
  have ha : op.token.isAssignment = (op.level == 1) := by rw [Token.isAssignment, op.level?_token]; rfl
  rw [applyOperator, hu, if_neg Bool.false_ne_true]
  dsimp only
  rw [ha, markWritten_toNode, Expr.toNode]
  by_cases h : op.level = 1
  · simp [h]
  · simp [h]

/-- Reading a written expression that fits leaves its operators waiting, on top of what was there. -/
theorem pushOnto_pieces (line : Nat) : ∀ (w : Written) {level : Nat} (operators : List Token)
    (operands : List Node), w.fits level = true → Stops level operators →
    ∃ fs ws, pushOnto line (markPieces true (w.pieces line)) ⟨operators, operands⟩ =
      .ok ⟨fs ++ operators, ws ++ operands⟩ ∧ Waiting line level fs ws (w.tree.toNode line)
  | .leaf x, level, operators, operands, _, _ =>
    ⟨[], [_], pushToken_leaf x true ⟨operators, operands⟩, .operand _⟩
  | .call f arguments, level, operators, operands, _, _ => ⟨[], [_], rfl, .operand _⟩
  | .paren inner, level, operators, operands, hf, _ => by
    -- the closing parenthesis is read first and keeps what is inside apart
    obtain ⟨fs, ws, hi, hw⟩ := pushOnto_pieces line inner _ operands hf (stops_close 0 operators)
    refine ⟨[], [_], ?_, .operand _⟩
    have hmark : markPieces true ((Written.paren inner).pieces line) =
        (.token "(", true) :: (markPieces true (inner.pieces line) ++ [(.token ")", false)]) := by
      rw [Written.pieces, markPieces, markPieces_append, leavesOperandMissing_of_operator (by decide) (by decide),
        Written.operandMissingAfter_pieces]
      rfl
    rw [hmark, pushOnto, pushOnto_append]
    change (pushOnto line (markPieces true (inner.pieces line)) ⟨")" :: operators, operands⟩ >>= fun s =>
      s.push line (.token "(", true)) = _
    rw [hi]
    exact hw.openParen_eq operators operands
  | .unary op operand, level, operators, operands, hf, hs => by
    obtain ⟨hl, hf⟩ := Written.fits_unary.1 hf
    obtain ⟨fs, ws, hi, hw⟩ := pushOnto_pieces line operand _ operands hf (hs.mono hl)
    refine ⟨[op.name], [operand.tree.toNode line], ?_, ⟨fun f hf => ?_, fun operands => ?_⟩⟩
    · obtain ⟨ho, -, hc⟩ := op.isOperator_token
      rw [Written.pieces, markPieces, leavesOperandMissing_of_operator ho hc, pushOnto, hi]
      exact pushToken_unary op hw hs hl
    · rw [List.mem_singleton.1 hf]
      exact ⟨13, op.level?_name, hl⟩
    · change (applyOperator line op.name (operand.tree.toNode line :: operands) >>= applyAll line []) = _
      rw [applyOperator_unary]
      rfl
  | .binary op left right, level, operators, operands, hf, hs => by
    obtain ⟨hl, hfl, hfr⟩ := Written.fits_binary.1 hf
    -- the right operand is read first; the operator has it made up and waits while the left one is read
    obtain ⟨fs, ws, hr, hwr⟩ := pushOnto_pieces line right _ operands hfr
      (hs.mono (Nat.le_trans hl (Token.le_rightLevel op.level)))
    obtain ⟨gs, vs, hleft, hwl⟩ := pushOnto_pieces line left _ (right.tree.toNode line :: operands) hfl
      (stops_binary op operators)
    refine ⟨gs ++ [op.token], vs ++ [right.tree.toNode line], ?_, ⟨fun f hf => ?_, fun operands => ?_⟩⟩
    · have ho := op.level?_token
      rw [Written.pieces, markPieces_append, Written.operandMissingAfter_pieces, markPieces,
        leavesOperandMissing_of_operator (isOperator_of_level? ho) (ne_close_of_level? ho), pushOnto_append,
        pushOnto, hr]
      change (pushToken line op.token false ⟨fs ++ operators, ws ++ operands⟩ >>=
        pushOnto line (markPieces true (left.pieces line))) = _
      rw [pushToken_binary op hwr hs hl, List.append_assoc, List.append_assoc]
      exact hleft
    · rcases List.mem_append.1 hf with hf | hf
      · obtain ⟨l, hl', hle⟩ := hwl.level? f hf
        exact ⟨l, hl', Nat.le_trans hl (Nat.le_trans (Token.le_leftLevel op.level) hle)⟩
      · rw [List.mem_singleton.1 hf]
        exact ⟨op.level, op.level?_token, hl⟩
    · rw [applyAll_append, List.append_assoc, hwl.applyAll_eq]
      change (applyOperator line op.token (left.tree.toNode line :: right.tree.toNode line :: operands) >>=
        applyAll line []) = _
      rw [applyOperator_binary]
      rfl

end Stacks

/-- The pieces of a written expression are resolved to its tree. -/
theorem resolve_pieces (line : Nat) {w : Written} (h : w.fits 0 = true) :
    resolve line (w.pieces line) = .ok (w.tree.toNode line) := by
  obtain ⟨fs, ws, hp, hw⟩ := Stacks.pushOnto_pieces line w [] [] h trivial
  rw [List.append_nil, List.append_nil] at hp
  rw [resolve, Stacks.pushAll_eq, hp]
  dsimp only
  rw [hw.finish_eq]

end WordMachine.Cflat
