/-
A written expression is read back as its tree. Its tokens hold no word of another statement, so they
are a call, a leaf or an infix expression, whose items become pieces once the arguments of its calls
are read in the same way.
-/
import WordMachine.Cflat.Tree
import WordMachine.Proofs.Cflat.Scanning

namespace WordMachine.Cflat

/-! ## The form of an expression -/

section

variable {tokens : List Token} (h : ∀ t ∈ tokens, t ∉ Token.reserved)

include h

theorem function?_eq_none : Form.function? tokens = none := by
  unfold Form.function?
  dsimp only
  split
  · rename_i name returns annotations inner hb _
    have hmem : returns ∈ tokens := by
      have : returns ∈ (tokens.takeWhile (· ≠ "(")).reverse := by rw [hb]; simp
      exact (List.takeWhile_sublist _).subset (List.mem_reverse.1 this)
    rw [if_neg]
    rintro ⟨-, -, hr, -⟩
    refine h returns hmem ?_
    simp only [Token.reserved, List.mem_append]
    exact .inl (.inr (List.contains_iff_mem.1 hr))
  · rfl

theorem declaration?_eq_none : Form.declaration? tokens = none := by
  have hwords : (tokens.take 4).takeWhile Token.declarationWords.contains = [] := by
    cases tokens with
    | nil => rfl
    | cons t ts =>
      have ht : Token.declarationWords.contains t = false := by
        refine Bool.eq_false_iff.2 fun hc => h t (List.mem_cons_self ..) ?_
        simp only [Token.reserved, List.mem_append]
        exact .inl (.inl (.inr (List.contains_iff_mem.1 hc)))
      rw [List.take_succ_cons, List.takeWhile_cons, ht]
      rfl
  unfold Form.declaration?
  rw [hwords]
  rfl

theorem keyword?_eq_none : Form.keyword? tokens = none := by
  rw [Form.keyword?, Option.map_eq_none_iff, List.find?_eq_none]
  intro t ht hc
  refine h t ht ?_
  simp only [Token.reserved, List.mem_append]
  exact .inl (.inl (.inl (.inl (List.contains_iff_mem.1 hc))))

end

theorem transfer?_eq_none {keyword : Token} (h : keyword ∉ Token.reserved) (rest : List Token) :
    Form.transfer? keyword rest = none := by
  have hne : ∀ t ∈ Token.reserved, keyword ≠ t := fun t ht he => h (he ▸ ht)
  unfold Form.transfer?
  rw [if_neg (hne _ (by decide)), if_neg, if_neg]
  · rintro (h | h)
    · exact hne _ (by decide) h
    · exact hne _ (by decide) h
  · rintro (h | h)
    · exact hne _ (by decide) h
    · exact hne _ (by decide) h

/-- Without reserved words, a statement is a call or an expression. -/
theorem ofTokens_of_not_reserved {tokens : List Token} (hne : tokens ≠ [])
    (h : ∀ t ∈ tokens, t ∉ Token.reserved) :
    Form.ofTokens tokens = (Form.call? tokens).getD (Form.expressionOf tokens) := by
  cases tokens with
  | nil => exact absurd rfl hne
  | cons first rest =>
    have hfirst := h first (List.mem_cons_self ..)
    have hfor : first ≠ "for" := fun hf => hfirst (by rw [hf]; decide)
    rw [Form.ofTokens, if_neg hfor, function?_eq_none h, transfer?_eq_none hfirst, declaration?_eq_none h,
      keyword?_eq_none h]
    cases Form.call? (first :: rest) <;> rfl

/-- A statement that is a call has this call for its only item. -/
theorem scan_of_call? {tokens : List Token} {form : Form} (h : Form.call? tokens = some form) :
    ∃ i, form = .invoke i ∧ Item.scan tokens = [.invoke i] := by
  unfold Form.call? at h
  split at h
  · rename_i callee rest
    split at h
    · rename_i hc
      obtain ⟨inner, hi, rfl⟩ := Option.map_eq_some_iff.1 h
      refine ⟨_, rfl, ?_⟩
      rw [Item.scan, if_pos hc]
      unfold wholeGroup? at hi
      split at hi
      · rename_i hclose
        cases hi
        split
        · rename_i hclose'
          rw [hclose] at hclose'
          cases hclose'
          rw [Item.scan]
        · rename_i hclose'
          rw [hclose] at hclose'
          cases hclose'
      · cases hi
    · cases h
  · cases h

/-! ## Items and pieces -/

/-- The piece that an item becomes, with the trees of its own parts. -/
def Item.piece (line : Nat) (i : Item) : Except Error Piece := i.build line fun p _ => Node.ofTokens line p

/-- The tree of an infix expression is resolved from the pieces of its items. -/
theorem build_expression (line : Nat) (items : List Item) :
    (Form.expression items).build line (fun p _ => Node.ofTokens line p) =
      items.mapM (Item.piece line) >>= fun pieces => atLine line (resolve line pieces) := by
  rw [Form.build, List.mapM_subtype (g := Item.piece line) fun _ _ => rfl, List.unattach_attach]

/-- An argument that has a tree is not empty. -/
theorem isEmpty_of_ofTokens {line : Nat} {ts : List Token} {n : Node} (h : Node.ofTokens line ts = .ok n) :
    ts.isEmpty = false := by
  cases ts with
  | nil => rw [Node.ofTokens] at h; cases h
  | cons => rfl

/-- The tree of a call is made from the trees of its arguments. -/
theorem Invocation.build_call_eq (line : Nat) (callee : Token) (arguments : List (List Token)) :
    (Invocation.call callee arguments).build line (fun p _ => Node.ofTokens line p) = (do
      let arguments ← arguments.mapM fun p =>
        if p.isEmpty then throw (.malformed line (.argumentCommaMisplaced callee)) else Node.ofTokens line p
      return .apply (.call callee) line arguments) := by
  rw [Invocation.build, List.mapM_subtype (g := fun p => if p.isEmpty then
    throw (Error.malformed line (.argumentCommaMisplaced callee)) else Node.ofTokens line p) fun _ _ => rfl,
    List.unattach_attach]

/-- The tree of a loop is made from the trees of its clauses. -/
theorem Invocation.build_loop_eq (line : Nat) (clauses : List (List Token)) :
    (Invocation.loop clauses).build line (fun p _ => Node.ofTokens line p) = (do
      let arguments ← clauses.mapM fun p =>
        if p.isEmpty then return .leaf (.construct "#_nop") line else Node.ofTokens line p
      return .apply (.call "for") line arguments) := by
  rw [Invocation.build, List.mapM_subtype (g := fun p => if p.isEmpty then
    return .leaf (.construct "#_nop") line else Node.ofTokens line p) fun _ _ => rfl, List.unattach_attach]

theorem build_call {line : Nat} {callee : Token} {arguments : List (List Token)} {nodes : List Node}
    (h : List.Forall₂ (fun ts n => Node.ofTokens line ts = .ok n) arguments nodes) :
    (Invocation.call callee arguments).build line (fun p _ => Node.ofTokens line p) =
      .ok (.apply (.call callee) line nodes) := by
  rw [Invocation.build_call_eq]
  refine bind_eq_ok.2 ⟨nodes, mapM_eq_ok.2 (h.imp fun ts n hn => ?_), rfl⟩
  rw [isEmpty_of_ofTokens hn, if_neg Bool.false_ne_true, hn]

namespace Written

theorem scan_all {w : Written} {level : Nat} (hf : w.fits level = true) : Item.scan w.tokens = w.items := by
  have h : Item.scan (w.tokens ++ []) = w.items ++ Item.scan [] := scan_tokens hf fun h => by cases h
  rwa [List.append_nil, Item.scan, List.append_nil] at h

/-- An expression of several items that become its pieces is read as its tree. -/
theorem ofTokens_of_infix {line level : Nat} {w : Written} (hf : w.fits level = true)
    (hp : List.Forall₂ (fun i p => Item.piece line i = .ok p) w.items (w.pieces line))
    (hlen : 2 ≤ w.tokens.length) (hne : ∀ i, w.items ≠ [.invoke i]) :
    Node.ofTokens line w.tokens = .ok (w.tree.toNode line) := by
  have hcall : Form.call? w.tokens = none := by
    cases hc : Form.call? w.tokens with
    | none => rfl
    | some form =>
      obtain ⟨i, -, hi⟩ := scan_of_call? hc
      rw [scan_all hf] at hi
      exact absurd hi (hne i)
  have hform : Form.ofTokens w.tokens = .expression w.items := by
    rw [ofTokens_of_not_reserved w.tokens_ne_nil w.not_reserved, hcall, Option.getD_none, ← scan_all hf]
    unfold Form.expressionOf
    split
    · rename_i token ht
      rw [ht] at hlen
      exact absurd hlen (Nat.not_succ_le_self 1)
    · rfl
  rw [Node.ofTokens, hform, build_expression, mapM_eq_ok.2 hp]
  change atLine line (resolve line (w.pieces line)) = _
  rw [resolve_pieces line (fits_mono (Nat.zero_le level) hf)]
  rfl

theorem items_ne_nil (w : Written) : w.items ≠ [] := by
  cases w <;> simp [items]

/-- An expression whose items become its pieces is read as its tree. -/
theorem ofTokens_of_pieces {line level : Nat} : ∀ {w : Written}, w.fits level = true →
    List.Forall₂ (fun i p => Item.piece line i = .ok p) w.items (w.pieces line) →
    Node.ofTokens line w.tokens = .ok (w.tree.toNode line)
  | .leaf x, _, _ => by
    have hcall : Form.call? [x.token] = none := if_neg fun h => by cases h.2
    have hform : Form.ofTokens [x.token] = .simple (.ofLeaf x.leaf) [] := by
      rw [ofTokens_of_not_reserved (List.cons_ne_nil _ _) (not_reserved (.leaf x)), hcall, Option.getD_none,
        Form.expressionOf, x.read_eq]
    rw [tokens, Node.ofTokens, hform]
    rfl
  | .call f arguments, hf, hp => by
    have hform : Form.ofTokens (Written.call f arguments).tokens =
        .invoke (.call f.name (argumentTokens arguments)) := by
      have hclose := closeGroup?_arguments hf []
      have hcall : Form.call? (Written.call f arguments).tokens =
          some (.invoke (.call f.name (argumentTokens arguments))) := by
        rw [tokens, Form.call?, if_pos ⟨f.isCallee_eq, rfl⟩, List.tail_cons, wholeGroup?, hclose]
        exact congrArg (some ∘ Form.invoke) (read_call f hf)
      rw [ofTokens_of_not_reserved (tokens_ne_nil _) (not_reserved _), hcall, Option.getD_some]
    rw [Node.ofTokens, hform, Form.build]
    -- the call is also the only piece
    obtain ⟨n, hn, he⟩ := map_eq_ok.1 (List.forall₂_cons.1 hp).1
    cases he
    exact hn
  | .paren inner, hf, hp => by
    refine ofTokens_of_infix hf hp ?_ fun i h => ?_
    · rw [tokens, List.length_cons, List.length_append, List.length_singleton]
      omega
    · cases h
  | .unary op operand, hf, hp => by
    refine ofTokens_of_infix hf hp ?_ fun i h => ?_
    · have := List.length_pos_iff.2 operand.tokens_ne_nil
      rw [tokens, List.length_cons]
      omega
    · cases h
  | .binary op left right, hf, hp => by
    refine ofTokens_of_infix hf hp ?_ fun i h => ?_
    · have := List.length_pos_iff.2 left.tokens_ne_nil
      rw [tokens, List.length_append, List.length_cons]
      omega
    · have hlen := congrArg List.length h
      have := List.length_pos_iff.2 left.items_ne_nil
      rw [items, List.length_append, List.length_cons, List.length_singleton] at hlen
      omega

mutual

/-- The items of an expression become its pieces. -/
theorem forall₂_pieces (line : Nat) : ∀ {w : Written} {level : Nat}, w.fits level = true →
    List.Forall₂ (fun i p => Item.piece line i = .ok p) w.items (w.pieces line)
  | .leaf x, _, _ => .cons rfl .nil
  | .call f arguments, _, h => .cons (map_eq_ok.2 ⟨_, build_call (forall₂_arguments line h), rfl⟩) .nil
  | .paren inner, _, h => by
    rw [fits] at h
    exact .cons rfl (List.rel_append (forall₂_pieces line h) (.cons rfl .nil))
  | .unary op operand, _, h => .cons rfl (forall₂_pieces line (fits_unary.1 h).2)
  | .binary op left right, _, h => by
    obtain ⟨-, hleft, hright⟩ := fits_binary.1 h
    exact List.rel_append (forall₂_pieces line hleft) (.cons rfl (forall₂_pieces line hright))

/-- The arguments of a call are read as their trees. -/
theorem forall₂_arguments (line : Nat) : ∀ {ws : List Written}, argumentsFit ws = true →
    List.Forall₂ (fun ts n => Node.ofTokens line ts = .ok n) (argumentTokens ws) (Expr.toNodes line (trees ws))
  | [], _ => .nil
  | w :: ws, h => by
    obtain ⟨hw, hws⟩ := argumentsFit_cons.1 h
    exact .cons (ofTokens_of_pieces hw (forall₂_pieces line hw)) (forall₂_arguments line hws)

end

end Written

/-- Every expression can be written with parentheses where they are needed, and however many more it
is written with, its tokens are read back as its tree. -/
theorem ofTokens_written (line : Nat) (e : Expr) :
    ((e.written 0).tree = e ∧ (e.written 0).fits 0 = true) ∧
      ∀ w : Written, w.tree = e → w.fits 0 = true → Node.ofTokens line w.tokens = .ok (e.toNode line) := by
  refine ⟨⟨e.tree_written 0, e.fits_written 0⟩, ?_⟩
  rintro w rfl hf
  exact Written.ofTokens_of_pieces hf (Written.forall₂_pieces line hf)

/-- An assignment from a call, with more parentheses than it needs. -/
theorem ofTokens_written_assignment :
    let a : LeafToken := ⟨"a", .variable "a", rfl, by decide, by decide⟩
    let b : LeafToken := ⟨"b", .variable "b", rfl, by decide, by decide⟩
    let w : Written := .binary ⟨"=", by decide⟩ (.paren (.leaf a)) (.call ⟨"f", by decide, by decide⟩
      [.unary .minus (.paren (.leaf b)), .paren (.binary ⟨",", by decide⟩ (.leaf a) (.leaf b))])
    w.fits 0 = true ∧ Node.ofTokens 7 ["(", "a", ")", "=", "f", "(", "-", "(", "b", ")", ",", "(", "a", ",", "b",
      ")", ")"] = .ok (.apply (.call "=") 7 [.leaf (.write "a") 7, .apply (.call "f") 7
        [.apply (.call "#_unaryminus") 7 [.leaf (.read "b") 7],
          .apply (.call ",") 7 [.leaf (.read "a") 7, .leaf (.read "b") 7]]]) := by
  intro a b w
  have hf : w.fits 0 = true := by decide
  exact ⟨hf, (ofTokens_written 7 w.tree).2 w rfl hf⟩

end WordMachine.Cflat
