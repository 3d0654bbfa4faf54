/-
Conditional expressions. `?` and `:` are two operators between operands, of one binding strength and grouping
from the right, and nothing but this strength says which `:` belongs to a `?`. So `a ? b : c` is the conditional
of its three operands if `b` binds more tightly than they do; a weaker operator of `b` takes what stands to the
left and to the right of it for its own operands.
-/
import WordMachine.Proofs.Cflat.Acceptance

namespace WordMachine.Cflat

/-! ## Operators outside of parentheses -/

/-- No operator weaker than `level` stands outside of parentheses. The comma is at level 0, assignments are at
level 1 and `?` and `:` at level 2. -/
def NoneWeaker (level : Nat) (ts : List Token) : Prop :=
  ∀ (op : Token) (l : Nat), op.level? = some l → l < level → hasTop op ts = false

theorem UnaryOperator.le_level (op : UnaryOperator) : ∀ l, op.token.level? = some l → 7 ≤ l := by
  cases op <;> (rintro _ ⟨⟩; decide)

namespace Written

/-- Outside of its parentheses, an expression that fits has no operator that is weaker than asked for. Signs of
operators with one operand are those of other operators, which are all stronger than conditionals. -/
theorem balanced_strong : ∀ {w : Written} {level : Nat}, level ≤ 3 → w.fits level = true →
    Balanced (fun t => ∀ l, t.level? = some l → level ≤ l) w.tokens
  | .leaf x, level, _, _ => by
    refine .token (x.ne_of_isOperator (by decide)) (x.ne_of_isOperator (by decide)) (fun l hl => ?_) .nil
    have ho := x.isOperator_eq
    rw [isOperator_of_level? hl] at ho
    cases ho
  | .call f arguments, level, _, h => by
    have hgroup : Balanced (fun _ => True) ([","].intercalate (argumentTokens arguments)) :=
      balanced_intercalate fun ts hts => (arguments_balanced h ts hts).mono fun _ _ => trivial
    refine .token (f.ne_of_isOperator (by decide)) (f.ne_of_isOperator (by decide)) (fun l hl => ?_)
      (.group hgroup .nil)
    have ho := f.isOperator_eq
    rw [isOperator_of_level? hl] at ho
    cases ho
  | .paren inner, level, _, h => by
    rw [fits] at h
    exact .group ((balanced h).mono fun _ _ => trivial) .nil
  | .unary op operand, level, hlevel, h => by
    obtain ⟨-, hopen, hclose⟩ := op.isOperator_token
    have hoperand := fits_mono (Nat.le_trans hlevel (by decide)) (fits_unary.1 h).2
    refine .token hopen hclose (fun l hl => ?_) (balanced_strong hlevel hoperand)
    have := op.le_level l hl
    omega
  | .binary op left right, level, hlevel, h => by
    obtain ⟨hle, hleft, hright⟩ := fits_binary.1 h
    have ho := op.level?_token
    have hleft := balanced_strong hlevel (fits_mono (Nat.le_trans hle (Token.le_leftLevel op.level)) hleft)
    have hright := balanced_strong hlevel (fits_mono (Nat.le_trans hle (Token.le_rightLevel op.level)) hright)
    refine hleft.append (.token (ne_open_of_level? ho) (ne_close_of_level? ho) (fun l hl => ?_) hright)
    rw [ho] at hl
    cases hl
    exact hle

/-- Whether an expression fits can be told from the operators outside of its parentheses. -/
theorem fits_iff_noneWeaker {w : Written} {level : Nat} (hlevel : level ≤ 3) (h : w.fits 0 = true) :
    w.fits level = true ↔ NoneWeaker level w.tokens := by
  constructor
  · intro hfits op l hl hlt
    have hne (t : Token) (ht : ∀ l', t.level? = some l' → level ≤ l') : t ≠ op := fun he => by
      have := ht l (he ▸ hl)
      omega
    have hsplit := (balanced_strong hlevel hfits).splitTop_append hne []
    rw [List.append_nil] at hsplit
    rw [hasTop, hsplit]
    rfl
  · intro hnone
    cases w with
    | leaf x => rfl
    | call f arguments => exact h
    | paren inner => exact h
    | unary op operand => exact fits_unary.2 ⟨Nat.le_trans hlevel (by decide), (fits_unary.1 h).2⟩
    | binary op left right =>
      obtain ⟨-, hleft, hright⟩ := fits_binary.1 h
      refine fits_binary.2 ⟨?_, hleft, hright⟩
      by_contra hlt
      have ho := op.level?_token
      have htop := hnone op.token op.level ho (by omega)
      rw [hasTop, Bool.not_eq_false', List.isEmpty_iff] at htop
      exact (balanced hleft).splitTop_ne_nil (ne_open_of_level? ho) (ne_close_of_level? ho) right.tokens htop

/-! ## What the operators of a conditional take -/

def question : BinaryOperator := ⟨"?", by decide⟩

def colon : BinaryOperator := ⟨":", by decide⟩

/-- The expression that is read from the tokens `a ? w`: a weaker operator of `w` takes what `?` makes of its
left operand. -/
def underQuestion (a : Written) : Written → Written
  | .binary op left right =>
    if op.level < 2 then .binary op (underQuestion a left) right else .binary question a (.binary op left right)
  | w => .binary question a w

/-- The expression that is read from the tokens `w : c`: an operator of `w` that is weaker, or as strong, takes
what `:` makes of its right operand. -/
def underColon (c : Written) : Written → Written
  | .binary op left right =>
    if op.level ≤ 2 then .binary op left (underColon c right) else .binary colon (.binary op left right) c
  | w => .binary colon w c

theorem tokens_underQuestion (a : Written) : ∀ w : Written, (underQuestion a w).tokens = a.tokens ++ "?" :: w.tokens
  | .leaf _ | .call .. | .paren _ | .unary .. => rfl
  | .binary op left right => by
    rw [underQuestion]
    split
    · rw [tokens, tokens_underQuestion a left, tokens, List.append_assoc, List.cons_append]
    · rfl

theorem tokens_underColon (c : Written) : ∀ w : Written, (underColon c w).tokens = w.tokens ++ ":" :: c.tokens
  | .leaf _ | .call .. | .paren _ | .unary .. => rfl
  | .binary op left right => by
    rw [underColon]
    split
    · rw [tokens, tokens_underColon c right, tokens, List.append_assoc, List.cons_append]
    · rfl

theorem underColon_of_fits {c w : Written} (h : w.fits 3 = true) : underColon c w = .binary colon w c := by
  cases w with
  | binary op left right =>
    have hle := (fits_binary.1 h).1
    exact if_neg (by omega)
  | _ => rfl

theorem fits_underQuestion {a : Written} (ha : a.fits 3 = true) : ∀ {w : Written} {level : Nat}, level ≤ 2 →
    w.fits level = true → (underQuestion a w).fits level = true
  | .leaf _, _, hlevel, h | .call .., _, hlevel, h | .paren _, _, hlevel, h => fits_binary.2 ⟨hlevel, ha, h⟩
  | .unary op operand, _, hlevel, h =>
    fits_binary.2 ⟨hlevel, ha, fits_unary.2 ⟨by decide, (fits_unary.1 h).2⟩⟩
  | .binary op left right, level, hlevel, h => by
    obtain ⟨hle, hleft, hright⟩ := fits_binary.1 h
    rw [underQuestion]
    split
    · rename_i hweak
      have hleftLevel : Token.leftLevel op.level ≤ 2 := by
        unfold Token.leftLevel
        split <;> omega
      exact fits_binary.2 ⟨hle, fits_underQuestion ha hleftLevel hleft, hright⟩
    · rename_i hstrong
      exact fits_binary.2 ⟨hlevel, ha, fits_binary.2 ⟨Nat.not_lt.1 hstrong, hleft, hright⟩⟩

theorem fits_underColon {c : Written} (hc : c.fits 2 = true) : ∀ {w : Written} {level : Nat}, level ≤ 2 →
    w.fits level = true → (underColon c w).fits level = true
  | .leaf _, _, hlevel, h | .call .., _, hlevel, h | .paren _, _, hlevel, h => fits_binary.2 ⟨hlevel, h, hc⟩
  | .unary op operand, _, hlevel, h =>
    fits_binary.2 ⟨hlevel, fits_unary.2 ⟨by decide, (fits_unary.1 h).2⟩, hc⟩
  | .binary op left right, level, hlevel, h => by
    obtain ⟨hle, hleft, hright⟩ := fits_binary.1 h
    rw [underColon]
    split
    · rename_i hweak
      -- at the strength of conditionals operators group from the right
      have hrightLevel : Token.rightLevel op.level ≤ 2 := by
        unfold Token.rightLevel
        split
        · exact hweak
        · rename_i hgroups
          have hne : op.level ≠ 2 := fun heq => hgroups (by rw [heq]; rfl)
          omega
      exact fits_binary.2 ⟨hle, hleft, fits_underColon hc hrightLevel hright⟩
    · rename_i hstrong
      exact fits_binary.2 ⟨hlevel, fits_binary.2 ⟨Nat.not_le.1 hstrong, hleft, hright⟩, hc⟩

end Written

/-! ## Conditionals -/

/-- The tree of a conditional. -/
def conditionalNode (line : Nat) (x y z : Node) : Node :=
  .apply (.call "?") line [x, .apply (.call ":") line [y, z]]

open Written

variable (line : Nat) {a b c : Written}

/-- The tokens of a conditional are read as an expression, whatever its second operand is. -/
theorem ofTokens_underQuestion (ha : a.fits 3 = true) (hb : b.fits 0 = true) (hc : c.fits 2 = true) :
    Node.ofTokens line (a.tokens ++ "?" :: (b.tokens ++ ":" :: c.tokens)) =
      .ok ((underQuestion a (underColon c b)).tree.toNode line) := by
  have hfits := fits_underQuestion ha (Nat.zero_le 2) (fits_underColon hc (Nat.zero_le 2) hb)
  rw [← tokens_underColon, ← tokens_underQuestion]
  exact ofTokens_of_pieces hfits (forall₂_pieces line hfits)

/-- Only assignments write to their left operand. -/
theorem toNode_binary {op : BinaryOperator} (h : op.level ≠ 1) (left right : Expr) :
    (Expr.binary op left right).toNode line = .apply (.call op.token) line [left.toNode line, right.toNode line] := by
  rw [Expr.toNode, if_neg h]
  rfl

theorem Node.ne_apply_self (head : Head) (line : Nat) (x y : Node) : x ≠ .apply head line [x, y] := by
  intro h
  have hsize := congrArg sizeOf h
  rw [apply, Node.mk.sizeOf_spec, List.cons.sizeOf_spec] at hsize
  omega

/-- The tree is that of the conditional of the three operands exactly if the second one binds more tightly. -/
theorem toNode_eq_conditionalNode_iff (hb : b.fits 0 = true) :
    (underQuestion a (underColon c b)).tree.toNode line =
        conditionalNode line (a.tree.toNode line) (b.tree.toNode line) (c.tree.toNode line) ↔
      b.fits 3 = true := by
  constructor
  · intro heq
    cases b with
    | leaf x => rfl
    | call f arguments => exact hb
    | paren inner => exact hb
    | unary op operand => exact fits_unary.2 ⟨by decide, (fits_unary.1 hb).2⟩
    | binary op left right =>
      obtain ⟨-, hleft, hright⟩ := fits_binary.1 hb
      refine fits_binary.2 ⟨?_, hleft, hright⟩
      by_contra hweak
      rw [underColon, if_pos (by omega), underQuestion] at heq
      split at heq
      · -- the weaker operator is at the root of the tree
        have hroot : op.token = "?" := by
          rw [tree, Expr.toNode] at heq
          exact Head.call.inj (Node.mk.inj heq).1
        have hlevel := op.level?_token
        rw [hroot] at hlevel
        have : 2 = op.level := Option.some.inj hlevel
        omega
      · -- the operator has its own left operand, and not itself
        rw [tree, tree, toNode_binary line (by decide), toNode_binary line (by omega), tree,
          toNode_binary line (by omega)] at heq
        have harguments := (List.cons.inj (Node.mk.inj heq).2.2.1).2
        have hcolon := Node.mk.inj (List.cons.inj harguments).1
        exact Node.ne_apply_self _ _ _ _ (List.cons.inj hcolon.2.2.1).1
  · intro hfits
    have hquestion : underQuestion a (.binary colon b c) = .binary question a (.binary colon b c) :=
      if_neg (by decide)
    rw [underColon_of_fits hfits, hquestion, tree, tree, toNode_binary line (by decide), toNode_binary line (by decide)]
    rfl

/-- `a ? b : c` is read as the conditional of its three operands if and only if the second one has no assignment,
comma or conditional outside of parentheses. The first has none of them, and the third may be a conditional. -/
theorem ofTokens_conditional (ha : a.fits 0 = true) (hatop : NoneWeaker 3 a.tokens) (hb : b.fits 0 = true)
    (hc : c.fits 0 = true) (hctop : NoneWeaker 2 c.tokens) :
    ∃ x y z tree, Node.ofTokens line a.tokens = .ok x ∧ Node.ofTokens line b.tokens = .ok y ∧
      Node.ofTokens line c.tokens = .ok z ∧
      Node.ofTokens line (a.tokens ++ "?" :: (b.tokens ++ ":" :: c.tokens)) = .ok tree ∧
      (tree = conditionalNode line x y z ↔ NoneWeaker 3 b.tokens) := by
  have hread {w : Written} (h : w.fits 0 = true) : Node.ofTokens line w.tokens = .ok (w.tree.toNode line) :=
    ofTokens_of_pieces h (forall₂_pieces line h)
  have ha' := (fits_iff_noneWeaker (by decide) ha).2 hatop
  have hc' := (fits_iff_noneWeaker (by decide) hc).2 hctop
  refine ⟨_, _, _, _, hread ha, hread hb, hread hc, ofTokens_underQuestion line ha' hb hc', ?_⟩
  rw [toNode_eq_conditionalNode_iff line hb, fits_iff_noneWeaker (by decide) hb]

/-- An assignment in parentheses, and a conditional for the third operand. -/
theorem ofTokens_conditional_nested :
    Node.ofTokens 2 ["a", "?", "(", "a", "=", "b", ")", ":", "b", "?", "a", ":", "b"] =
      .ok (conditionalNode 2 (.leaf (.read "a") 2)
        (.apply (.call "=") 2 [.leaf (.write "a") 2, .leaf (.read "b") 2])
        (conditionalNode 2 (.leaf (.read "b") 2) (.leaf (.read "a") 2) (.leaf (.read "b") 2))) := by
  let a : Written := .leaf ⟨"a", .variable "a", rfl, by decide, by decide⟩
  let b : Written := .leaf ⟨"b", .variable "b", rfl, by decide, by decide⟩
  let second : Written := .paren (.binary ⟨"=", by decide⟩ a b)
  let third : Written := .binary question b (.binary colon a b)
  have ha : a.fits 0 = true := by decide
  have hsecond : second.fits 0 = true := by decide
  have hthird : third.fits 0 = true := by decide
  obtain ⟨x, y, z, tree, hx, hy, hz, htree, hiff⟩ := ofTokens_conditional 2 (a := a) (b := second) (c := third) ha
    ((fits_iff_noneWeaker (by decide) ha).1 (by decide)) hsecond hthird
    ((fits_iff_noneWeaker (by decide) hthird).1 (by decide))
  obtain rfl := hiff.2 ((fits_iff_noneWeaker (by decide) hsecond).1 (by decide))
  -- the operands as they are read on their own
  rw [ofTokens_of_pieces ha (forall₂_pieces 2 ha)] at hx
  rw [ofTokens_of_pieces hsecond (forall₂_pieces 2 hsecond)] at hy
  rw [ofTokens_of_pieces hthird (forall₂_pieces 2 hthird)] at hz
  obtain rfl := Except.ok.inj hx
  obtain rfl := Except.ok.inj hy
  obtain rfl := Except.ok.inj hz
  exact htree

/-- A conditional between `?` and `:` takes the third operand into its own, and an assignment there is made to
the first two. -/
theorem ofTokens_conditional_within :
    (∃ tree, Node.ofTokens 1 ["a", "?", "b", "?", "c", ":", "d", ":", "e"] = .ok tree ∧
      tree ≠ conditionalNode 1 (.leaf (.read "a") 1)
        (conditionalNode 1 (.leaf (.read "b") 1) (.leaf (.read "c") 1) (.leaf (.read "d") 1)) (.leaf (.read "e") 1)) ∧
      ∃ tree, Node.ofTokens 1 ["a", "?", "b", "=", "c", ":", "d"] = .ok tree ∧
        tree ≠ conditionalNode 1 (.leaf (.read "a") 1)
          (.apply (.call "=") 1 [.leaf (.write "b") 1, .leaf (.read "c") 1]) (.leaf (.read "d") 1) := by
  constructor
  · refine ⟨.apply (.call "?") 1 [.leaf (.read "a") 1, conditionalNode 1 (.leaf (.read "b") 1) (.leaf (.read "c") 1)
      (.apply (.call ":") 1 [.leaf (.read "d") 1, .leaf (.read "e") 1])], ?_, ?_⟩
    · rw [ofTokens_of_not_open (by decide) (by decide) (by decide)]
      rfl
    · intro h
      have harguments := (List.cons.inj (Node.mk.inj h).2.2.1).2
      exact absurd (Head.call.inj (Node.mk.inj (List.cons.inj harguments).1).1) (by decide)
  · refine ⟨.apply (.call "=") 1 [.apply (.call "?") 1 [.leaf (.read "a") 1, .leaf (.read "b") 1],
      .apply (.call ":") 1 [.leaf (.read "c") 1, .leaf (.read "d") 1]], ?_, ?_⟩
    · rw [ofTokens_of_not_open (by decide) (by decide) (by decide)]
      rfl
    · intro h
      exact absurd (Head.call.inj (Node.mk.inj h).1) (by decide)

end WordMachine.Cflat
