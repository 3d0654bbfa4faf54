/-
The stacks while well-placed tokens are read, from right to left. What waits on them are closing
parentheses, and operators with their right operands, each operator no weaker than the one after it; in
front of these stands, where an operand may begin, an expression that has been read in full or an operator
and the expression after it. So whatever has operators applied, a weaker operator, an opening parenthesis or
the end, turns what was read into renderings.
-/
import WordMachine.Proofs.Cflat.Rendering

namespace WordMachine.Cflat

theorem level?_le {t : Token} {l : Nat} (h : t.level? = some l) : l ≤ 14 := by
  obtain ⟨hlt, -⟩ := List.findIdx?_eq_some_iff_getElem.1 h
  exact Nat.le_of_lt_succ hlt

namespace Place

variable {p q : Place} {t : Token}

/-- What may stand where an operand is awaited, outside of calls. -/
theorem cases_of_not_isGiven (hp : p.isGiven = false) (harguments : p ≠ .arguments) (h : p.next t = some q) :
    t = "(" ∧ q = .operand ∨ (p ≠ .member ∧ t.prefixName.level? = some 13 ∧ q = .operand) ∨
      (t.isOperator = false ∧ q = if t.isCallee then .name else .given) := by
  rw [nextOperand_of_not_isGiven hp, nextOperand] at h
  split at h
  · exact .inl ⟨‹_›, (Option.some.inj h).symm⟩
  · split at h
    · cases h
    · split at h
      · split at h
        · rename_i hunary
          exact .inr (.inl ⟨hunary.1, hunary.2, (Option.some.inj h).symm⟩)
        · cases h
      · rename_i ho
        refine .inr (.inr ⟨Bool.eq_false_iff.2 ho, ?_⟩)
        split at h <;> simp_all

theorem eq_given (h : p.isGiven = true) (hname : p ≠ .name) : p = .given := by
  cases p with
  | given => rfl
  | name => exact absurd rfl hname
  | operand | member | arguments => cases h

/-- What may come after an operand. -/
theorem cases_of_given (h : Place.given.next t = some q) :
    t = ")" ∧ q = .given ∨ ∃ l, t.level? = some l ∧ l ≠ 13 ∧ q = if l = 14 then .member else .operand := by
  rw [next, nextOperator] at h
  split at h
  · cases h
  · split at h
    · exact .inl ⟨‹_›, (Option.some.inj h).symm⟩
    · split at h
      · rename_i l hl
        split at h
        · cases h
        · exact .inr ⟨l, hl, ‹_›, (Option.some.inj h).symm⟩
      · cases h

end Place

namespace Stacks

variable {line : Nat}

/-! ## What waits -/

/-- An expression of strength `level` may be the left operand of the operator that waits first. -/
def Joins (level : Nat) : List Token → Prop
  | [] => True
  | op :: _ => ∀ l, op.level? = some l → Token.leftLevel l ≤ level

theorem joins_top (operators : List Token) : Joins 15 operators := by
  cases operators with
  | nil => trivial
  | cons op _ =>
    intro l hl
    have := level?_le hl
    have := Token.leftLevel_le l
    omega

/-- Operators with their right operands, and closing parentheses, wait for what stands to the left of the
tokens. -/
inductive Pending (line : Nat) : List Token → List Node → List Token → Prop
  | nil : Pending line [] [] []
  | close {operators : List Token} {operands : List Node} {ts : List Token} (h : Pending line operators operands ts) :
      Pending line (")" :: operators) operands (")" :: ts)
  | binary {t : Token} {l : Nat} {operators right ts : List Token} {operands : List Node} {y : Node}
      (ht : t.level? = some l) (hl : l ≠ 13) (hright : Rendering line (Token.rightLevel l) right y)
      (hjoins : Joins l operators) (h : Pending line operators operands ts) :
      Pending line (t :: operators) (y :: operands) (t :: (right ++ ts))

/-- An operator that waits takes the expression to the left of it. -/
theorem applyOperator_rendering {l level : Nat} {t : Token} {xs right : List Token} {x y : Node}
    (ht : t.level? = some l) (hl : l ≠ 13) (hx : Rendering line level xs x) (hlevel : Token.leftLevel l ≤ level)
    (hright : Rendering line (Token.rightLevel l) right y) (operands : List Node) :
    ∃ z, applyOperator line t (x :: y :: operands) = .ok (z :: operands) ∧ Rendering line l (xs ++ t :: right) z := by
  have hunary : t.isUnary = false := by
    rw [Token.isUnary, ht]
    exact beq_false_of_ne fun h => hl (Option.some.inj h)
  refine ⟨_, ?_, .binary ht hl (Nat.le_refl l) (hx.mono hlevel) hright⟩
  rw [applyOperator, hunary, if_neg Bool.false_ne_true]

/-- An expression is on top of the stacks, strong enough to be the right operand of an operator of strength
`l`; what waits after it asks for no more than this operator gives. -/
inductive Ready (line l : Nat) : Stacks → List Token → Prop
  | intro {operators xs ts : List Token} {operands : List Node} {x : Node}
      (hx : Rendering line (Token.rightLevel l) xs x) (hjoins : Joins l operators)
      (h : Pending line operators operands ts) : Ready line l ⟨operators, x :: operands⟩ (xs ++ ts)

/-- A weaker operator to the left has the expression made up that it asks for. -/
theorem reduce_of_pending {l : Nat} {s : Stacks} {operators ts : List Token} {operands : List Node}
    (h : Pending line operators operands ts) : ∀ {level : Nat} {xs : List Token} {x : Node},
    Rendering line level xs x → Joins level operators → Token.rightLevel l ≤ level →
    reduce line l operators (x :: operands) = .ok s → Ready line l s (xs ++ ts) := by
  induction h with
  | nil =>
    intro level xs x hx _ hlevel hr
    cases hr
    exact .intro (hx.mono hlevel) trivial .nil
  | close h _ =>
    intro level xs x hx _ hlevel hr
    cases hr
    exact .intro (hx.mono hlevel) (fun _ hl => by cases hl) (.close h)
  | @binary t l' operators right ts operands y ht hl hright hjoins h ih =>
    intro level xs x hx hfirst hlevel hr
    rw [reduce, ht] at hr
    dsimp only at hr
    split at hr
    · rename_i hstronger
      obtain ⟨z, happly, hz⟩ := applyOperator_rendering ht hl hx (hfirst l' ht) hright operands
      rw [happly] at hr
      have hle : Token.rightLevel l ≤ l' := by
        unfold Token.rightLevel
        split
        · omega
        · rename_i hg
          rcases hstronger with hlt | ⟨-, hg'⟩
          · exact hlt
          · exact absurd hg' hg
      simpa using ih hz hjoins hle hr
    · rename_i hweaker
      cases hr
      refine .intro (hx.mono hlevel) (fun l'' hl'' => ?_) (.binary ht hl hright hjoins h)
      rw [ht] at hl''
      cases hl''
      rw [not_or, not_and] at hweaker
      unfold Token.leftLevel
      split
      · rename_i hg
        by_contra hlt
        have heq : l' = l := by omega
        exact hweaker.2 heq (heq ▸ hg)
      · omega

/-- An opening parenthesis has the expression made up that stands before its closing one. -/
theorem openParen_of_pending {s : Stacks} {operators ts : List Token} {operands : List Node}
    (h : Pending line operators operands ts) : ∀ {level : Nat} {xs : List Token} {x : Node},
    Rendering line level xs x → Joins level operators → openParen line operators (x :: operands) = .ok s →
    ∃ xs' x' operands' ts', s.operands = x' :: operands' ∧ xs ++ ts = xs' ++ ")" :: ts' ∧
      Rendering line 0 xs' x' ∧ Pending line s.operators operands' ts' := by
  induction h with
  | nil =>
    intro level xs x _ _ hr
    cases hr
  | @close operators operands ts h _ =>
    intro level xs x hx _ hr
    cases hr
    exact ⟨xs, x, operands, ts, rfl, rfl, hx.mono (Nat.zero_le level), h⟩
  | @binary t l' operators right ts operands y ht hl hright hjoins h ih =>
    intro level xs x hx hfirst hr
    obtain ⟨z, happly, hz⟩ := applyOperator_rendering ht hl hx (hfirst l' ht) hright operands
    rw [openParen, if_neg (ne_close_of_level? ht), happly] at hr
    simpa using ih hz hjoins hr

/-- At the end, all tokens make up one expression. -/
theorem finish_of_pending {trees : List Node} {operators ts : List Token} {operands : List Node}
    (h : Pending line operators operands ts) : ∀ {level : Nat} {xs : List Token} {x : Node},
    Rendering line level xs x → Joins level operators → finish line operators (x :: operands) = .ok trees →
    ∃ tree, trees = [tree] ∧ Rendering line 0 (xs ++ ts) tree := by
  induction h with
  | nil =>
    intro level xs x hx _ hr
    cases hr
    exact ⟨x, rfl, by simpa using hx.mono (Nat.zero_le level)⟩
  | close _ _ =>
    intro level xs x _ _ hr
    cases hr
  | @binary t l' operators right ts operands y ht hl hright hjoins h ih =>
    intro level xs x hx hfirst hr
    obtain ⟨z, happly, hz⟩ := applyOperator_rendering ht hl hx (hfirst l' ht) hright operands
    rw [finish, if_neg (ne_close_of_level? ht), happly] at hr
    simpa using ih hz hjoins hr

/-! ## Where an operand begins -/

/-- An operand without an operator before it has been read. -/
inductive HoldsMember (line : Nat) : Stacks → List Token → Prop
  | intro {operators xs ts : List Token} {operands : List Node} {x : Node} (hx : ∀ level, Rendering line level xs x)
      (h : Pending line operators operands ts) : HoldsMember line ⟨operators, x :: operands⟩ (xs ++ ts)

/-- An operand has been read, of which the operator before it may still wait. -/
inductive HoldsOperand (line : Nat) : Stacks → List Token → Prop
  | member {s : Stacks} {ts : List Token} (h : HoldsMember line s ts) : HoldsOperand line s ts
  | unary {t : Token} {operators xs ts : List Token} {operands : List Node} {x : Node}
      (ht : t.prefixName.level? = some 13) (hx : Rendering line 13 xs x) (hjoins : Joins 13 operators)
      (h : Pending line operators operands ts) :
      HoldsOperand line ⟨t.prefixName :: operators, x :: operands⟩ (t :: (xs ++ ts))

theorem applyOperator_of_level? {op : Token} (h : op.level? = some 13) (x : Node) (operands : List Node) :
    applyOperator line op (x :: operands) = .ok (.apply (.call op) line [x] :: operands) := by
  have hunary : op.isUnary = true := by
    rw [Token.isUnary, h]
    rfl
  rw [applyOperator, hunary, if_pos rfl]

theorem HoldsMember.reduce {l : Nat} {s s' : Stacks} {ts : List Token} (h : HoldsMember line s ts) (hl : l ≤ 14)
    (hr : Stacks.reduce line l s.operators s.operands = .ok s') : Ready line l s' ts := by
  obtain ⟨hx, h⟩ := h
  have := Token.rightLevel_le l
  exact reduce_of_pending h (hx 15) (joins_top _) (by omega) hr

theorem HoldsOperand.reduce {l : Nat} {s s' : Stacks} {ts : List Token} (h : HoldsOperand line s ts) (hl : l ≤ 13)
    (hr : Stacks.reduce line l s.operators s.operands = .ok s') : Ready line l s' ts := by
  cases h with
  | member h => exact h.reduce (by omega) hr
  | @unary t operators xs ts operands x ht hx hjoins h =>
    have hstronger : l < 13 ∨ (13 = l ∧ Token.groupsRight l) := by
      rcases Nat.lt_or_eq_of_le hl with h | rfl
      · exact .inl h
      · exact .inr ⟨rfl, by decide⟩
    have hright : Token.rightLevel l ≤ 13 := by
      rcases Nat.lt_or_eq_of_le hl with h | rfl
      · have := Token.rightLevel_le l
        omega
      · decide
    rw [Stacks.reduce, ht] at hr
    dsimp only at hr
    rw [if_pos hstronger, applyOperator_of_level? ht] at hr
    exact reduce_of_pending h (.unary ht (Nat.le_refl 13) hx) hjoins hright hr

theorem HoldsOperand.openParen {s s' : Stacks} {ts : List Token} (h : HoldsOperand line s ts)
    (hr : Stacks.openParen line s.operators s.operands = .ok s') :
    ∃ xs x operands ts', s'.operands = x :: operands ∧ ts = xs ++ ")" :: ts' ∧ Rendering line 0 xs x ∧
      Pending line s'.operators operands ts' := by
  cases h with
  | member h =>
    obtain ⟨hx, h⟩ := h
    exact openParen_of_pending h (hx 15) (joins_top _) hr
  | unary ht hx hjoins h =>
    rw [Stacks.openParen, if_neg (ne_close_of_level? ht), applyOperator_of_level? ht] at hr
    exact openParen_of_pending h (.unary ht (Nat.le_refl 13) hx) hjoins hr

theorem HoldsOperand.finish {s : Stacks} {trees : List Node} {ts : List Token} (h : HoldsOperand line s ts)
    (hr : Stacks.finish line s.operators s.operands = .ok trees) :
    ∃ tree, trees = [tree] ∧ Rendering line 0 ts tree := by
  cases h with
  | member h =>
    obtain ⟨hx, h⟩ := h
    exact finish_of_pending h (hx 15) (joins_top _) hr
  | unary ht hx hjoins h =>
    rw [Stacks.finish, if_neg (ne_close_of_level? ht), applyOperator_of_level? ht] at hr
    exact finish_of_pending h (.unary ht (Nat.le_refl 13) hx) hjoins hr

/-! ## Reading a token -/

section

variable {s s' : Stacks} {t : Token} {ts : List Token} {l : Nat} {first : Bool}

/-- An operator is read: whatever it binds less tightly than is applied, and it waits. -/
theorem reduce_of_pushToken (op : Token) (ht : t.isOperator = true) (hopen : t ≠ "(") (hclose : t ≠ ")")
    (hop : (if first then t.prefixName else t) = op) (hl : op.level? = some l)
    (h : pushToken line t first s = .ok s') :
    ∃ r, reduce line l s.operators s.operands = .ok r ∧ s' = { r with operators := op :: r.operators } := by
  rw [pushToken, if_neg hclose, if_neg hopen, if_pos ht] at h
  have hform : (if first then t.unaryForm?.getD t else t) = op := hop
  simp only [hform, hl] at h
  split at h
  · rename_i r hr
    cases h
    exact ⟨r, hr, rfl⟩
  · cases h

theorem HoldsMember.of_leaf (ht : t.isOperator = false) (h : Pending line s.operators s.operands ts)
    (hpush : pushToken line t first s = .ok s') : HoldsMember line s' (t :: ts) := by
  rw [pushToken, if_neg (ne_of_not_isOperator ht (by decide)), if_neg (ne_of_not_isOperator ht (by decide)), ht,
    if_neg Bool.false_ne_true] at hpush
  split at hpush
  · rename_i leaf hleaf
    cases hpush
    exact .intro (fun _ => .leaf hleaf ht) h
  · cases hpush

theorem HoldsMember.of_open (h : HoldsOperand line s ts) (hpush : pushToken line "(" first s = .ok s') :
    HoldsMember line s' ("(" :: ts) := by
  rw [pushToken, if_neg (by decide), if_pos rfl] at hpush
  obtain ⟨xs, x, operands, ts', hs', rfl, hx, h⟩ := h.openParen hpush
  obtain ⟨operators, operands'⟩ := s'
  cases hs'
  have := HoldsMember.intro (fun _ => .paren hx) h
  simpa using this

theorem HoldsOperand.of_unary (ht : t.prefixName.level? = some 13) (h : HoldsOperand line s ts)
    (hpush : pushToken line t true s = .ok s') : HoldsOperand line s' (t :: ts) := by
  obtain ⟨ho, hopen, hclose⟩ := of_level?_prefixName ht
  obtain ⟨r, hr, rfl⟩ := reduce_of_pushToken t.prefixName ho hopen hclose rfl ht hpush
  obtain ⟨hx, hjoins, hpending⟩ := h.reduce (Nat.le_refl 13) hr
  exact .unary ht hx hjoins hpending

theorem Pending.of_operator (ht : t.level? = some l) (hl : l ≠ 13)
    (h : HoldsMember line s ts ∨ l ≠ 14 ∧ HoldsOperand line s ts) (hpush : pushToken line t false s = .ok s') :
    Pending line s'.operators s'.operands (t :: ts) := by
  obtain ⟨r, hr, rfl⟩ := reduce_of_pushToken t (isOperator_of_level? ht) (ne_open_of_level? ht) (ne_close_of_level? ht)
    rfl ht hpush
  have hle := level?_le ht
  have hready : Ready line l r ts := by
    rcases h with h | ⟨hne, h⟩
    · exact h.reduce hle hr
    · exact h.reduce (by omega) hr
  obtain ⟨hx, hjoins, hpending⟩ := hready
  exact .binary ht hl hx hjoins hpending

end

/-- What the stacks hold for the tokens from a place on. -/
def Holds (line : Nat) (p : Place) (s : Stacks) (ts : List Token) : Prop :=
  match p with
  | .operand | .arguments => HoldsOperand line s ts
  | .member => HoldsMember line s ts
  | .name | .given => Pending line s.operators s.operands ts

/-- Wherever an operand is awaited, an operand without an operator before it is held. -/
theorem Holds.of_member {p : Place} {s : Stacks} {ts : List Token} (hp : p.isGiven = false)
    (h : HoldsMember line s ts) : Holds line p s ts := by
  cases p with
  | operand | arguments => exact HoldsOperand.member h
  | member => exact h
  | name | given => cases hp

/-- Reading a token keeps what the stacks hold, outside of calls. -/
theorem Holds.push {p q : Place} {t : Token} {s s' : Stacks} {ts : List Token} (hname : p ≠ .name)
    (harguments : p ≠ .arguments) (hnext : p.next t = some q) (h : Holds line q s ts)
    (hpush : pushToken line t (!p.isGiven) s = .ok s') : Holds line p s' (t :: ts) := by
  cases hp : p.isGiven with
  | false =>
    rw [hp] at hpush
    rcases Place.cases_of_not_isGiven hp harguments hnext with ⟨rfl, rfl⟩ | ⟨hmember, ht, rfl⟩ | ⟨ht, rfl⟩
    · exact .of_member hp (.of_open h hpush)
    · obtain rfl : p = .operand := by cases p <;> first | rfl | contradiction
      exact HoldsOperand.of_unary ht h hpush
    · refine .of_member hp (.of_leaf ht ?_ hpush)
      split at h <;> exact h
  | true =>
    obtain rfl := Place.eq_given hp hname
    rcases Place.cases_of_given hnext with ⟨rfl, rfl⟩ | ⟨l, hl, hne, rfl⟩
    · rw [pushToken, if_pos rfl] at hpush
      cases hpush
      exact Pending.close h
    · refine Pending.of_operator hl hne ?_ hpush
      split at h
      · exact .inl h
      · rename_i hmember
        exact .inr ⟨hmember, h⟩

end Stacks

end WordMachine.Cflat
