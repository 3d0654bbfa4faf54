/-
Infix renderings of trees. An operator with two operands stands between them, one with a single operand
before it, and parentheses enclose a whole expression; an operand that binds less tightly than its
operator asks for stands in parentheses. In such a rendering every token is where one of its kind may be,
which is told from the token before it (`wellPlaced`).
-/
import WordMachine.Proofs.Cflat.Scanning

namespace WordMachine.Cflat

/-- The name under which a token is applied to the one operand after it. -/
def Token.prefixName (t : Token) : Token := t.unaryForm?.getD t

/-! ## Renderings -/

/-- The tokens are written for the tree, which binds at least as tightly as `level`. -/
inductive Rendering (line : Nat) : Nat → List Token → Node → Prop
  | leaf {level : Nat} {t : Token} {leaf : Leaf} (hread : Leaf.read t = .ok leaf) (ht : t.isOperator = false) :
      Rendering line level [t] (.leaf (.ofLeaf leaf) line)
  /-- A call, with the tokens and the tree of each argument. -/
  | call {level : Nat} {callee : Token} {arguments : List (List Token × Node)} (hcallee : callee.isCallee = true)
      (harguments : ∀ a ∈ arguments, Rendering line 1 a.1 a.2) :
      Rendering line level (callee :: "(" :: ([","].intercalate (arguments.map (·.1)) ++ [")"]))
        (.apply (.call callee) line (arguments.map (·.2)))
  | paren {level : Nat} {ts : List Token} {tree : Node} (h : Rendering line 0 ts tree) :
      Rendering line level ("(" :: (ts ++ [")"])) tree
  | unary {level : Nat} {t : Token} {ts : List Token} {tree : Node} (ht : t.prefixName.level? = some 13)
      (hlevel : level ≤ 13) (h : Rendering line 13 ts tree) :
      Rendering line level (t :: ts) (.apply (.call t.prefixName) line [tree])
  | binary {level l : Nat} {t : Token} {left right : List Token} {x y : Node} (ht : t.level? = some l) (hl : l ≠ 13)
      (hlevel : level ≤ l) (hleft : Rendering line (Token.leftLevel l) left x)
      (hright : Rendering line (Token.rightLevel l) right y) :
      Rendering line level (left ++ t :: right)
        (.apply (.call t) line [if t.isAssignment then Stacks.markWritten x else x, y])

namespace Rendering

variable {line level : Nat} {ts : List Token} {tree : Node}

theorem mono {level' : Nat} (h : Rendering line level ts tree) (hle : level' ≤ level) :
    Rendering line level' ts tree := by
  cases h with
  | leaf hread ht => exact .leaf hread ht
  | call hcallee harguments => exact .call hcallee harguments
  | paren h => exact .paren h
  | unary ht hlevel h => exact .unary ht (Nat.le_trans hle hlevel) h
  | binary ht hl hlevel hleft hright => exact .binary ht hl (Nat.le_trans hle hlevel) hleft hright

end Rendering

/-! ## Single tokens -/

theorem ne_of_not_isOperator {t u : Token} (h : t.isOperator = false) (hu : u.isOperator = true) : t ≠ u := by
  rintro rfl
  simp [h] at hu

theorem isOperator_of_isCallee {t : Token} (h : t.isCallee = true) : t.isOperator = false := by
  rw [Token.isCallee, Bool.and_eq_true, Bool.not_eq_true'] at h
  exact h.2

/-- A token with one operand after it is an operator, and no parenthesis. -/
theorem of_level?_prefixName {t : Token} (h : t.prefixName.level? = some 13) :
    t.isOperator = true ∧ t ≠ "(" ∧ t ≠ ")" := by
  have hsigns : ∀ u ∈ (["+", "-", "&", "*"] : List Token), u.isOperator = true ∧ u ≠ "(" ∧ u ≠ ")" := by decide
  by_cases hsign : t ∈ (["+", "-", "&", "*"] : List Token)
  · exact hsigns t hsign
  · have hname : t.prefixName = t := by
      simp only [List.mem_cons, List.not_mem_nil, or_false, not_or] at hsign
      simp [Token.prefixName, Token.unaryForm?, hsign]
    rw [hname] at h
    exact ⟨isOperator_of_level? h, ne_open_of_level? h, ne_close_of_level? h⟩

/-! ## Parentheses -/

/-- The parentheses of a rendering match. -/
theorem Rendering.balanced {line level : Nat} {ts : List Token} {tree : Node} (h : Rendering line level ts tree) :
    Balanced (fun _ => True) ts := by
  induction h with
  | leaf _ ht =>
    exact .token (ne_of_not_isOperator ht (by decide)) (ne_of_not_isOperator ht (by decide)) trivial .nil
  | call hcallee _ ih =>
    have ht := isOperator_of_isCallee hcallee
    refine .token (ne_of_not_isOperator ht (by decide)) (ne_of_not_isOperator ht (by decide)) trivial
      (.group (Written.balanced_intercalate fun ts hts => ?_) .nil)
    obtain ⟨a, ha, rfl⟩ := List.mem_map.1 hts
    exact ih a ha
  | paren _ ih => exact .group ih .nil
  | unary ht _ _ ih =>
    obtain ⟨-, hopen, hclose⟩ := of_level?_prefixName ht
    exact .token hopen hclose trivial ih
  | binary ht _ _ _ _ ihleft ihright =>
    exact ihleft.append (.token (ne_open_of_level? ht) (ne_close_of_level? ht) trivial ihright)

/-! ## Places of tokens -/

/-- What may come next in an expression. -/
inductive Place where
  /-- An operand, or an operator before one. -/
  | operand
  /-- An operand without an operator before it. -/
  | member
  /-- The parentheses of a call, or what comes after an operand. -/
  | name
  /-- The first argument of a call, or the end of its parentheses. -/
  | arguments
  /-- An operator after an operand, or the end of parentheses. -/
  | given
  deriving Repr, DecidableEq

namespace Place

/-- The place after a token where an operand is awaited. -/
def nextOperand (p : Place) (t : Token) : Option Place :=
  if t = "(" then some .operand
  else if t = ")" then if p = .arguments then some .given else none
  else if t.isOperator then if p ≠ .member ∧ t.prefixName.level? = some 13 then some .operand else none
  else if t.isCallee then some .name
  else some .given

/-- The place after a token that comes after an operand. -/
def nextOperator (p : Place) (t : Token) : Option Place :=
  if t = "(" then if p = .name then some .arguments else none
  else if t = ")" then some .given
  else
    match t.level? with
    | some l => if l = 13 then none else some (if l = 14 then .member else .operand)
    | none => none

/-- The place after a token, unless the token may not stand here. -/
def next (p : Place) (t : Token) : Option Place :=
  match p with
  | .operand | .member | .arguments => p.nextOperand t
  | .name | .given => p.nextOperator t

/-- The place after several tokens. -/
def after (p : Place) : List Token → Option Place
  | [] => some p
  | t :: ts => (p.next t).bind (·.after ts)

/-- Has an operand been read? -/
def isGiven (p : Place) : Bool := p = .given ∨ p = .name

theorem after_append (ys : List Token) : ∀ (p : Place) (xs : List Token),
    p.after (xs ++ ys) = (p.after xs).bind (·.after ys)
  | p, [] => rfl
  | p, x :: xs => by
    rw [List.cons_append, after, after]
    cases p.next x with
    | none => rfl
    | some q => exact after_append ys q xs

end Place

/-- Does every token of an expression stand where it may, and does an operand end it? -/
def wellPlaced (ts : List Token) : Bool := (Place.after .operand ts).any Place.isGiven

namespace Place

variable {p q : Place} {t : Token}

/-! ### Tokens in renderings -/

theorem nextOperator_of_isGiven (h : p.isGiven = true) (t : Token) : p.next t = p.nextOperator t := by
  cases p <;> first | rfl | exact absurd h (by decide)

theorem next_operator {l : Nat} (h : p.isGiven = true) (ht : t.level? = some l) (hl : l ≠ 13) :
    p.next t = some (if l = 14 then .member else .operand) := by
  rw [nextOperator_of_isGiven h, nextOperator, if_neg (ne_open_of_level? ht), if_neg (ne_close_of_level? ht), ht]
  exact if_neg hl

theorem next_close (h : p.isGiven = true) : p.next ")" = some .given := by
  rw [nextOperator_of_isGiven h]
  rfl

theorem nextOperand_of_not_isGiven (h : p.isGiven = false) (t : Token) : p.next t = p.nextOperand t := by
  cases p <;> first | rfl | exact absurd h (by decide)

theorem next_open (h : p.isGiven = false) : p.next "(" = some .operand := by
  rw [nextOperand_of_not_isGiven h]
  rfl

theorem next_unary (h : p.isGiven = false) (hmember : p ≠ .member) (ht : t.prefixName.level? = some 13) :
    p.next t = some .operand := by
  obtain ⟨ho, hopen, hclose⟩ := of_level?_prefixName ht
  rw [nextOperand_of_not_isGiven h, nextOperand, if_neg hopen, if_neg hclose, if_pos ho, if_pos ⟨hmember, ht⟩]

theorem next_leaf (h : p.isGiven = false) (ht : t.isOperator = false) :
    p.next t = some (if t.isCallee then .name else .given) := by
  rw [nextOperand_of_not_isGiven h, nextOperand, if_neg (ne_of_not_isOperator ht (by decide)),
    if_neg (ne_of_not_isOperator ht (by decide)), ht]
  simp only [Bool.false_eq_true, if_false]
  split <;> rfl

/-- Lists set apart by commas are well placed if each of them is. -/
theorem after_intercalate : ∀ tss : List (List Token), tss ≠ [] →
    (∀ ts ∈ tss, ∀ p : Place, p.isGiven = false → p ≠ .member → ∃ q, p.after ts = some q ∧ q.isGiven = true) →
    ∀ p : Place, p.isGiven = false → p ≠ .member → ∃ q, p.after ([","].intercalate tss) = some q ∧ q.isGiven = true
  | [ts], _, h, p, hp, hmember => by
    rw [List.intercalate_singleton]
    exact h ts (by simp) p hp hmember
  | ts :: us :: tss, _, h, p, hp, hmember => by
    obtain ⟨q, hq, hgiven⟩ := h ts (by simp) p hp hmember
    obtain ⟨q', hq', hgiven'⟩ := after_intercalate (us :: tss) (by simp)
      (fun vs hvs => h vs (List.mem_cons_of_mem _ hvs)) .operand rfl (by simp)
    refine ⟨q', ?_, hgiven'⟩
    rw [List.intercalate_cons_cons, List.append_assoc, after_append, hq, Option.bind_some, List.singleton_append,
      Place.after, next_operator (l := 0) hgiven rfl (by decide)]
    exact hq'

end Place

open Place in
/-- In a rendering every token is well placed. Where no operator may come before an operand, the rendering
has to bind more tightly than one. -/
theorem Rendering.after {line level : Nat} {ts : List Token} {tree : Node} (h : Rendering line level ts tree) :
    ∀ {p : Place}, p.isGiven = false → (p = .member → 13 < level) → ∃ q, p.after ts = some q ∧ q.isGiven = true := by
  induction h with
  | leaf hread ht =>
    intro p hp _
    refine ⟨_, by rw [Place.after, next_leaf hp ht]; rfl, ?_⟩
    split <;> rfl
  | @call _ callee arguments hcallee _ ih =>
    intro p hp _
    have hname : p.next callee = some .name := by
      rw [next_leaf hp (isOperator_of_isCallee hcallee), if_pos hcallee]
    have hopen : next .name "(" = some .arguments := rfl
    refine ⟨.given, ?_, rfl⟩
    rw [Place.after, hname, Option.bind_some, Place.after, hopen, Option.bind_some, after_append]
    cases arguments with
    | nil => rfl
    | cons a as =>
      obtain ⟨q, hq, hgiven⟩ := after_intercalate ((a :: as).map (·.1)) (by simp) (by
        intro ts hts p hp hmember
        obtain ⟨a, ha, rfl⟩ := List.mem_map.1 hts
        exact ih a ha hp fun h => absurd h hmember) .arguments rfl (by simp)
      rw [hq, Option.bind_some, Place.after, next_close hgiven]
      rfl
  | paren _ ih =>
    intro p hp _
    obtain ⟨q, hq, hgiven⟩ := ih (p := .operand) rfl (by simp)
    refine ⟨.given, ?_, rfl⟩
    rw [Place.after, next_open hp, Option.bind_some, after_append, hq, Option.bind_some, Place.after, next_close hgiven]
    rfl
  | unary ht hlevel _ ih =>
    intro p hp hmember
    obtain ⟨q, hq, hgiven⟩ := ih (p := .operand) rfl (by simp)
    refine ⟨q, ?_, hgiven⟩
    rw [Place.after, next_unary hp (fun h => by have := hmember h; omega) ht, Option.bind_some, hq]
  | @binary level l t left right x y ht hl hlevel _ _ ihleft ihright =>
    intro p hp hmember
    obtain ⟨q, hq, hgiven⟩ := ihleft hp (fun h => by have := hmember h; have := Token.le_leftLevel l; omega)
    obtain ⟨q', hq', hgiven'⟩ := ihright (p := if l = 14 then .member else .operand) (by split <;> rfl) (by
      intro h
      have : l = 14 := by
        by_contra hne
        rw [if_neg hne] at h
        cases h
      have := Token.le_rightLevel l
      omega)
    refine ⟨q', ?_, hgiven'⟩
    rw [after_append, hq, Option.bind_some, Place.after, next_operator hgiven ht hl, Option.bind_some, hq']

theorem Rendering.wellPlaced {line level : Nat} {ts : List Token} {tree : Node} (h : Rendering line level ts tree) :
    wellPlaced ts = true := by
  obtain ⟨q, hq, hgiven⟩ := h.after (p := .operand) rfl (by simp)
  rw [Cflat.wellPlaced, hq]
  exact hgiven

end WordMachine.Cflat
