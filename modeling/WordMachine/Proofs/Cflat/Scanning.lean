/-
The tokens of a written expression: their parentheses match, none of them is reserved, and dividing
them into items finds the calls of the expression with the tokens of their arguments.
-/
import WordMachine.Cflat.Form
import WordMachine.Proofs.Cflat.Balance
import WordMachine.Proofs.Cflat.Waiting

namespace WordMachine.Cflat

/-! ## Single tokens -/

theorem LeafToken.ne_of_isOperator (x : LeafToken) {t : Token} (h : t.isOperator = true) : x.token ≠ t := by
  intro hx
  have ho := x.isOperator_eq
  rw [hx, h] at ho
  cases ho

theorem Callee.isOperator_eq (f : Callee) : f.name.isOperator = false := by
  have h := f.isCallee_eq
  rw [Token.isCallee, Bool.and_eq_true, Bool.not_eq_true'] at h
  exact h.2

theorem Callee.ne_of_isOperator (f : Callee) {t : Token} (h : t.isOperator = true) : f.name ≠ t := by
  intro hf
  have ho := f.isOperator_eq
  rw [hf, h] at ho
  cases ho

theorem isCallee_of_isOperator {t : Token} (h : t.isOperator = true) : t.isCallee = false := by
  rw [Token.isCallee, h, Bool.not_true, Bool.and_false]

theorem BinaryOperator.isOperator_token (op : BinaryOperator) : op.token.isOperator = true :=
  isOperator_of_level? op.level?_token

/-- No operator is a reserved word. -/
theorem not_reserved_of_isOperator {t : Token} (h : t.isOperator = true) : t ∉ Token.reserved := by
  intro ht
  have hall : ∀ t ∈ Token.reserved, t.isOperator = false := by decide
  rw [hall t ht] at h
  cases h

namespace Written

/-! ## All tokens -/

theorem tokens_ne_nil (w : Written) : w.tokens ≠ [] := by
  cases w <;> simp [tokens]

theorem fits_mono {level level' : Nat} (hl : level' ≤ level) : ∀ {w : Written}, w.fits level = true →
    w.fits level' = true
  | .leaf x, _ => rfl
  | .call f arguments, h => h
  | .paren inner, h => h
  | .unary op operand, h => by
    obtain ⟨hle, h⟩ := fits_unary.1 h
    exact fits_unary.2 ⟨Nat.le_trans hl hle, h⟩
  | .binary op left right, h => by
    obtain ⟨hle, h⟩ := fits_binary.1 h
    exact fits_binary.2 ⟨Nat.le_trans hl hle, h⟩

theorem mem_intercalate {separator t : Token} : ∀ {tss : List (List Token)},
    t ∈ [separator].intercalate tss → t = separator ∨ ∃ ts ∈ tss, t ∈ ts
  | [], h => by cases h
  | [ts], h => by
    simp only [List.intercalate, List.intersperse_singleton, List.flatten_singleton] at h
    exact .inr ⟨ts, List.mem_cons_self .., h⟩
  | ts :: us :: tss, h => by
    simp only [List.intercalate, List.intersperse_cons_cons, List.flatten_cons, List.mem_append,
      List.mem_singleton] at h
    rcases h with h | h | h
    · exact .inr ⟨ts, List.mem_cons_self .., h⟩
    · exact .inl h
    · have h : t ∈ [separator].intercalate (us :: tss) := h
      rcases mem_intercalate h with h | ⟨vs, hv, h⟩
      · exact .inl h
      · exact .inr ⟨vs, List.mem_cons_of_mem _ hv, h⟩

mutual

/-- None of the tokens is reserved. -/
theorem not_reserved : ∀ (w : Written), ∀ t ∈ w.tokens, t ∉ Token.reserved
  | .leaf x, t, h => by rw [List.mem_singleton.1 h]; exact x.not_reserved
  | .call f arguments, t, h => by
    rw [tokens, List.mem_cons, List.mem_cons, List.mem_append, List.mem_singleton] at h
    rcases h with rfl | rfl | h | rfl
    · exact f.not_reserved
    · decide
    · rcases mem_intercalate h with rfl | ⟨ts, hts, h⟩
      · decide
      · exact arguments_not_reserved arguments ts hts t h
    · decide
  | .paren inner, t, h => by
    rw [tokens, List.mem_cons, List.mem_append, List.mem_singleton] at h
    rcases h with rfl | h | rfl
    · decide
    · exact not_reserved inner t h
    · decide
  | .unary op operand, t, h => by
    rw [tokens, List.mem_cons] at h
    rcases h with rfl | h
    · exact not_reserved_of_isOperator op.isOperator_token.1
    · exact not_reserved operand t h
  | .binary op left right, t, h => by
    rw [tokens, List.mem_append, List.mem_cons] at h
    rcases h with h | rfl | h
    · exact not_reserved left t h
    · exact not_reserved_of_isOperator op.isOperator_token
    · exact not_reserved right t h

theorem arguments_not_reserved : ∀ (ws : List Written), ∀ ts ∈ argumentTokens ws, ∀ t ∈ ts,
    t ∉ Token.reserved
  | [], ts, h => by cases h
  | w :: ws, ts, h => by
    rcases List.mem_cons.1 h with rfl | h
    · exact not_reserved w
    · exact arguments_not_reserved ws ts h

end

/-! ## Parentheses -/

theorem balanced_intercalate : ∀ {tss : List (List Token)}, (∀ ts ∈ tss, Balanced (fun _ => True) ts) →
    Balanced (fun _ => True) ([","].intercalate tss)
  | [], _ => .nil
  | [ts], h => by simpa [List.intercalate] using h ts (List.mem_cons_self ..)
  | ts :: us :: tss, h => by
    have ih := balanced_intercalate fun vs hv => h vs (List.mem_cons_of_mem _ hv)
    have hcomma : Balanced (fun _ => True) ("," :: [","].intercalate (us :: tss)) :=
      .token (by decide) (by decide) trivial ih
    simpa [List.intercalate] using (h ts (List.mem_cons_self ..)).append hcomma

mutual

/-- The parentheses of an expression that fits match. A comma stands outside of them only if the
expression may be a list with commas. -/
theorem balanced : ∀ {w : Written} {level : Nat}, w.fits level = true →
    Balanced (fun t => 1 ≤ level → t ≠ ",") w.tokens
  | .leaf x, level, _ =>
    .token (x.ne_of_isOperator (by decide)) (x.ne_of_isOperator (by decide))
      (fun _ => x.ne_of_isOperator (by decide)) .nil
  | .call f arguments, level, h =>
    .token (f.ne_of_isOperator (by decide)) (f.ne_of_isOperator (by decide))
      (fun _ => f.ne_of_isOperator (by decide))
      (.group (balanced_intercalate fun ts hts => (arguments_balanced h ts hts).mono fun _ _ => trivial) .nil)
  | .paren inner, level, h => by
    rw [fits] at h
    exact .group ((balanced h).mono fun _ _ => trivial) .nil
  | .unary op operand, level, h => by
    obtain ⟨-, ho, hc⟩ := op.isOperator_token
    refine .token ho hc (fun _ => ?_) ((balanced (fits_unary.1 h).2).mono fun t ht _ => ht (by omega))
    cases op <;> decide
  | .binary op left right, level, h => by
    obtain ⟨hl, hleft, hright⟩ := fits_binary.1 h
    have := Token.le_leftLevel op.level
    have := Token.le_rightLevel op.level
    have ho := op.level?_token
    rw [tokens]
    refine ((balanced hleft).mono fun t ht h => ht (by omega)).append
      (.token (ne_open_of_level? ho) (ne_close_of_level? ho) (fun h hcomma => ?_)
        ((balanced hright).mono fun t ht h => ht (by omega)))
    rw [hcomma] at ho
    have : 0 = op.level := Option.some.inj ho
    omega

theorem arguments_balanced : ∀ {ws : List Written}, argumentsFit ws = true →
    ∀ ts ∈ argumentTokens ws, Balanced (· ≠ ",") ts
  | [], _, ts, hts => by cases hts
  | w :: ws, h, ts, hts => by
    obtain ⟨hw, hws⟩ := argumentsFit_cons.1 h
    rcases List.mem_cons.1 hts with rfl | hts
    · exact (balanced hw).mono fun t ht => ht (Nat.le_refl 1)
    · exact arguments_balanced hws ts hts

end

/-- The parentheses after a name end after the arguments. -/
theorem closeGroup?_arguments {ws : List Written} (h : argumentsFit ws = true) (rest : List Token) :
    closeGroup? 0 ([","].intercalate (argumentTokens ws) ++ ")" :: rest) =
      some ([","].intercalate (argumentTokens ws), rest) := by
  have hb := balanced_intercalate fun ts hts => (arguments_balanced h ts hts).mono fun _ _ => trivial
  exact hb.closeGroup?_close rest

/-! ## Items -/

/-- The items of a written expression. -/
def items : Written → List Item
  | .leaf x => [.token x.token]
  | .call f arguments => [.invoke (.call f.name (argumentTokens arguments))]
  | .paren inner => .token "(" :: (inner.items ++ [.token ")"])
  | .unary op operand => .token op.token :: operand.items
  | .binary op left right => left.items ++ .token op.token :: right.items

/-- The name and the parentheses of a call are read as the call. -/
theorem read_call (f : Callee) {arguments : List Written} (h : argumentsFit arguments = true) :
    Invocation.read f.name ([","].intercalate (argumentTokens arguments)) =
      .call f.name (argumentTokens arguments) := by
  have hfor : f.name ≠ "for" := fun hf => f.not_reserved (by rw [hf]; decide)
  rw [Invocation.read, if_neg hfor]
  cases arguments with
  | nil => rfl
  | cons w ws =>
    rw [argumentTokens]
    have hparts := parts_intercalate (by decide) (by decide) (arguments_balanced h)
    have hne : ([","].intercalate (w.tokens :: argumentTokens ws)).isEmpty = false := by
      cases hi : [","].intercalate (w.tokens :: argumentTokens ws) with
      | nil =>
        rw [hi] at hparts
        exact absurd (List.cons.inj hparts).1.symm w.tokens_ne_nil
      | cons => rfl
    rw [hne, if_neg Bool.false_ne_true]
    exact congrArg _ hparts

theorem scan_operator {t : Token} (h : t.isOperator = true) (ts : List Token) :
    Item.scan (t :: ts) = .token t :: Item.scan ts := by
  rw [Item.scan, if_neg fun hc => ?_]
  rw [isCallee_of_isOperator h] at hc
  cases hc.1

/-- Dividing the tokens of an expression into items finds the items of the expression, unless an
opening parenthesis comes after it. -/
theorem scan_tokens : ∀ {w : Written} {level : Nat} {rest : List Token}, w.fits level = true →
    rest.head? ≠ some "(" → Item.scan (w.tokens ++ rest) = w.items ++ Item.scan rest
  | .leaf x, level, rest, _, hr => by
    rw [tokens, List.singleton_append, Item.scan, if_neg fun h => hr h.2]
    rfl
  | .call f arguments, level, rest, h, _ => by
    have hclose := closeGroup?_arguments h rest
    have htail : ([","].intercalate (argumentTokens arguments) ++ [")"]) ++ rest =
        [","].intercalate (argumentTokens arguments) ++ ")" :: rest := by simp
    rw [tokens, List.cons_append, List.cons_append, htail, Item.scan, if_pos ⟨f.isCallee_eq, rfl⟩]
    split
    · rename_i inner rest' hc
      rw [List.tail_cons, hclose] at hc
      cases hc
      rw [read_call f h]
      rfl
    · rename_i hc
      rw [List.tail_cons, hclose] at hc
      cases hc
  | .paren inner, level, rest, h, _ => by
    rw [fits] at h
    have hclose : ([")"] ++ rest).head? ≠ some "(" := fun h => absurd (Option.some.inj h) (by decide)
    rw [tokens, List.cons_append, List.append_assoc, scan_operator (by decide), scan_tokens h hclose,
      List.singleton_append, scan_operator (by decide), items]
    simp
  | .unary op operand, level, rest, h, hr => by
    rw [tokens, List.cons_append, scan_operator op.isOperator_token.1, scan_tokens (fits_unary.1 h).2 hr]
    rfl
  | .binary op left right, level, rest, h, hr => by
    obtain ⟨-, hleft, hright⟩ := fits_binary.1 h
    have hop : (op.token :: right.tokens ++ rest).head? ≠ some "(" := fun h =>
      ne_open_of_level? op.level?_token (Option.some.inj h)
    rw [tokens, List.append_assoc, scan_tokens hleft hop, List.cons_append, scan_operator op.isOperator_token,
      scan_tokens hright hr, items, List.append_assoc]
    rfl

end Written

end WordMachine.Cflat
