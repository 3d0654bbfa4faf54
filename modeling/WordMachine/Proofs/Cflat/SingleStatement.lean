/-
The node of a single statement. An expression has every property that its leaves and calls have and that
operators keep; no node of a single statement has statements in a block, since only the nesting of statements
gives it some.
-/
import WordMachine.Proofs.Cflat.Acceptance

namespace WordMachine.Cflat

/-! ## Properties that operators keep -/

namespace Stacks

/-- A property of trees that leaves have and operators keep. -/
structure KeptByOperators (line : Nat) (P : Node → Prop) : Prop where
  leaf : ∀ t leaf, Leaf.read t = .ok leaf → P (.leaf (.ofLeaf leaf) line)
  unary : ∀ op : Token, op.isUnary = true → ∀ operand, P operand → P (.apply (.call op) line [operand])
  binary : ∀ op : Token, op.isUnary = false → op.level?.isSome = true → ∀ left right, P left → P right →
    P (.apply (.call op) line [if op.isAssignment then markWritten left else left, right])

/-- The operands have a property, and what waits among the operators binds its operands or is a closing
parenthesis. -/
structure Carries (P : Node → Prop) (s : Stacks) : Prop where
  operands : ∀ n ∈ s.operands, P n
  operators : ∀ op ∈ s.operators, op ≠ ")" → op.level?.isSome = true

theorem Carries.tail {P : Node → Prop} {op : Token} {operators : List Token} {operands operands' : List Node}
    (h : Carries P ⟨op :: operators, operands⟩) (h' : ∀ n ∈ operands', P n) : Carries P ⟨operators, operands'⟩ :=
  ⟨h', (List.forall_mem_cons.1 h.operators).2⟩

namespace KeptByOperators

variable {line : Nat} {P : Node → Prop} (hP : KeptByOperators line P)

include hP

theorem applyOperator {op : Token} {operands operands' : List Node} (hlevel : op.level?.isSome = true)
    (h : ∀ n ∈ operands, P n) (ha : applyOperator line op operands = .ok operands') : ∀ n ∈ operands', P n := by
  unfold Stacks.applyOperator at ha
  split at ha
  · rename_i hop
    split at ha
    · cases ha
      rw [List.forall_mem_cons] at h
      exact List.forall_mem_cons.2 ⟨hP.unary op hop _ h.1, h.2⟩
    · cases ha
  · rename_i hop
    split at ha
    · cases ha
      rw [List.forall_mem_cons, List.forall_mem_cons] at h
      exact List.forall_mem_cons.2 ⟨hP.binary op (Bool.eq_false_iff.2 hop) hlevel _ _ h.1 h.2.1, h.2.2⟩
    · cases ha

theorem reduce {level : Nat} : ∀ {operators : List Token} {operands : List Node} {s : Stacks},
    Carries P ⟨operators, operands⟩ → reduce line level operators operands = .ok s → s.Carries P
  | [], _, _, h, hr => by cases hr; exact h
  | op :: operators, operands, s, h, hr => by
    rw [Stacks.reduce] at hr
    split at hr
    · cases hr; exact h
    · rename_i hlevel
      split at hr
      · split at hr
        · exact reduce (h.tail (hP.applyOperator (by rw [hlevel]; rfl) h.operands ‹_›)) hr
        · cases hr
      · cases hr; exact h

theorem openParen : ∀ {operators : List Token} {operands : List Node} {s : Stacks},
    Carries P ⟨operators, operands⟩ → openParen line operators operands = .ok s → s.Carries P
  | [], _, _, _, hr => by cases hr
  | op :: operators, operands, s, h, hr => by
    rw [Stacks.openParen] at hr
    split at hr
    · cases hr; exact h.tail h.operands
    · rename_i hclose
      split at hr
      · exact openParen (h.tail (hP.applyOperator (h.operators op (List.mem_cons_self ..) hclose) h.operands ‹_›)) hr
      · cases hr

theorem finish : ∀ {operators : List Token} {operands operands' : List Node},
    Carries P ⟨operators, operands⟩ → finish line operators operands = .ok operands' → ∀ n ∈ operands', P n
  | [], _, _, h, hr => by cases hr; exact h.operands
  | op :: operators, operands, operands', h, hr => by
    rw [Stacks.finish] at hr
    split at hr
    · cases hr
    · rename_i hclose
      split at hr
      · exact finish (h.tail (hP.applyOperator (h.operators op (List.mem_cons_self ..) hclose) h.operands ‹_›)) hr
      · cases hr

theorem push {s s' : Stacks} {p : Piece × Bool} (h : s.Carries P) (hp : ∀ n, p.1 = .call n → P n)
    (hr : s.push line p = .ok s') : s'.Carries P := by
  obtain ⟨p, first⟩ := p
  cases p with
  | call tree =>
    cases hr
    exact ⟨List.forall_mem_cons.2 ⟨hp tree rfl, h.operands⟩, h.operators⟩
  | token t =>
    rw [Stacks.push, pushToken] at hr
    split at hr
    · rename_i ht
      cases hr
      exact ⟨h.operands, List.forall_mem_cons.2 ⟨fun hne => absurd ht hne, h.operators⟩⟩
    split at hr
    · exact hP.openParen h hr
    split at hr
    · dsimp only at hr
      split at hr
      · cases hr
      · rename_i hlevel
        split at hr
        · rename_i hreduce
          have hs := hP.reduce h hreduce
          cases hr
          exact ⟨hs.operands, List.forall_mem_cons.2 ⟨fun _ => by rw [hlevel]; rfl, hs.operators⟩⟩
        · cases hr
    · split at hr
      · rename_i hread
        cases hr
        exact ⟨List.forall_mem_cons.2 ⟨hP.leaf t _ hread, h.operands⟩, h.operators⟩
      · cases hr

theorem pushAll : ∀ {ps : List (Piece × Bool)} {s : Stacks}, (∀ p ∈ ps, ∀ n, p.1 = .call n → P n) →
    pushAll line ps = .ok s → s.Carries P
  | [], _, _, hr => by cases hr; exact ⟨by simp, by simp⟩
  | p :: ps, s, h, hr => by
    rw [List.forall_mem_cons] at h
    rw [Stacks.pushAll] at hr
    split at hr
    · exact hP.push (pushAll h.2 ‹_›) h.1 hr
    · cases hr

end KeptByOperators

end Stacks

theorem mem_of_mem_markPieces : ∀ {ps : List Piece} {first : Bool} {p : Piece × Bool},
    p ∈ markPieces first ps → p.1 ∈ ps
  | [], _, _, h => by cases h
  | q :: ps, first, p, h => by
    rcases List.mem_cons.1 h with rfl | h
    · exact List.mem_cons_self ..
    · exact List.mem_cons_of_mem _ (mem_of_mem_markPieces h)

/-- An expression has a property that its calls and leaves have and that operators keep. -/
theorem property_of_resolve {line : Nat} {P : Node → Prop} (hP : Stacks.KeptByOperators line P) {ps : List Piece}
    {n : Node} (h : ∀ tree, .call tree ∈ ps → P tree) (hr : resolve line ps = .ok n) : P n := by
  unfold resolve at hr
  split at hr
  · cases hr
  · rename_i s hs
    have hcarries := hP.pushAll (fun p hp tree htree => h tree (htree ▸ mem_of_mem_markPieces hp)) hs
    split at hr
    · cases hr
      exact hP.finish hcarries ‹_› n (List.mem_singleton_self n)
    · cases hr
    · cases hr

/-! ## Statements in a block -/

theorem statements_of_build {line : Nat} {i : Invocation} {tree : (p : List Token) → p ∈ i.parts → Except Error Node}
    {n : Node} (h : i.build line tree = .ok n) : n.statements = [] := by
  cases i with
  | loop clauses =>
    obtain ⟨arguments, -, h⟩ := bind_eq_ok.1 h
    cases h
    rfl
  | call callee arguments =>
    obtain ⟨arguments, -, h⟩ := bind_eq_ok.1 h
    cases h
    rfl
  | refused fault => cases h

/-- The node of a single statement has no statements. -/
theorem statements_ofTokens {line : Nat} {tokens : List Token} {n : Node} (h : Node.ofTokens line tokens = .ok n) :
    n.statements = [] := by
  rw [Node.ofTokens] at h
  cases hform : Form.ofTokens tokens with
  | refused fault => rw [hform] at h; cases h
  | simple head arguments => rw [hform] at h; cases h; rfl
  | invoke invocation => rw [hform] at h; exact statements_of_build h
  | result value =>
    rw [hform] at h
    obtain ⟨value, -, h⟩ := bind_eq_ok.1 h
    cases h
    rfl
  | initialise depth name type value =>
    rw [hform] at h
    obtain ⟨value, -, h⟩ := bind_eq_ok.1 h
    cases h
    rfl
  | expression items =>
    rw [hform, build_expression] at h
    obtain ⟨pieces, hpieces, h⟩ := bind_eq_ok.1 h
    have hkept : Stacks.KeptByOperators line fun n => n.statements = [] :=
      ⟨fun _ _ _ => rfl, fun _ _ _ _ => rfl, fun _ _ _ _ _ _ _ => rfl⟩
    refine property_of_resolve hkept (fun tree htree => ?_) (atLine_eq_ok.1 h)
    obtain ⟨item, -, hitem⟩ := mem_of_mapM_eq_ok hpieces htree
    cases item with
    | token t => cases hitem
    | invoke i =>
      obtain ⟨n, hn, hcall⟩ := map_eq_ok.1 hitem
      cases hcall
      exact statements_of_build hn

end WordMachine.Cflat
