/-
Which accepted expressions are renderings of their trees. The two stacks only count operands, so tokens in
another order are accepted too: `a b +` is read as a sum. An accepted expression is a rendering of its tree
if and only if every token is well placed.
-/
import WordMachine.Proofs.Cflat.Resolving
import WordMachine.Proofs.Cflat.RoundTrip

namespace WordMachine.Cflat

/-! ## Arguments -/

theorem eq_comma_of_level? {t : Token} (h : t.level? = some 0) : t = "," := by
  obtain ⟨_, hmem, -⟩ := List.findIdx?_eq_some_iff_getElem.1 h
  simpa [Token.levels] using hmem

/-- An expression with no comma outside of parentheses may be an argument. -/
theorem Rendering.argument {line : Nat} {ts : List Token} {tree : Node} (h : Rendering line 0 ts tree)
    (hcomma : (splitTop "," 0 ts).2 = []) : Rendering line 1 ts tree := by
  cases h with
  | leaf hread ht => exact .leaf hread ht
  | call hcallee harguments => exact .call hcallee harguments
  | paren h => exact .paren h
  | unary ht hlevel h => exact .unary ht (by omega) h
  | @binary _ l t left right x y ht hl hlevel hleft hright =>
    refine .binary ht hl ?_ hleft hright
    by_contra hzero
    obtain rfl : l = 0 := by omega
    obtain rfl := eq_comma_of_level? ht
    exact hleft.balanced.splitTop_ne_nil (by decide) (by decide) right hcomma

/-! ## Places in calls -/

theorem wellPlaced_iff {ts : List Token} :
    wellPlaced ts = true ↔ ∃ q, Place.after .operand ts = some q ∧ q.isGiven = true := by
  rw [wellPlaced]
  cases Place.after .operand ts <;> simp

namespace Place

variable {p q : Place} {t : Token} {ts : List Token}

/-- The arguments of a call come after its name and an opening parenthesis only. -/
theorem of_next_arguments (h : p.next t = some .arguments) : p = .name ∧ t = "(" := by
  cases hp : p.isGiven with
  | false =>
    rw [nextOperand_of_not_isGiven hp, nextOperand] at h
    repeat' split at h
    all_goals cases h
  | true =>
    rw [nextOperator_of_isGiven hp, nextOperator] at h
    repeat' split at h
    · exact ⟨‹_›, ‹_›⟩
    all_goals cases h

theorem isCallee_of_next_name (h : p.next t = some .name) : t.isCallee = true := by
  cases hp : p.isGiven with
  | false =>
    rw [nextOperand_of_not_isGiven hp, nextOperand] at h
    repeat' split at h
    all_goals first | assumption | cases h
  | true =>
    rw [nextOperator_of_isGiven hp, nextOperator] at h
    repeat' split at h
    all_goals cases h

theorem getLast?_of_after_arguments (hne : ts ≠ []) (h : p.after ts = some .arguments) : ts.getLast? = some "(" := by
  obtain ⟨init, last, rfl⟩ := (List.eq_nil_or_concat ts).resolve_left hne
  rw [List.concat_eq_append, after_append] at h
  obtain ⟨r, -, h⟩ := Option.bind_eq_some_iff.1 h
  obtain ⟨r', hnext, h⟩ := Option.bind_eq_some_iff.1 h
  cases h
  rw [List.concat_eq_append, List.getLast?_concat, (of_next_arguments hnext).2]

/-- Where no group is closed at once, the first argument is an operand like any other. -/
theorem after_arguments (hne : ts ≠ []) (hclose : ts.head? ≠ some ")") :
    Place.arguments.after ts = Place.operand.after ts := by
  cases ts with
  | nil => exact absurd rfl hne
  | cons t ts =>
    have ht : t ≠ ")" := fun h => hclose (congrArg some h)
    have hnext : Place.arguments.next t = Place.operand.next t := by
      simp [next, nextOperand, ht]
    rw [after, after, hnext]

/-- In front of anything but a parenthesis, a name is an operand like any other. -/
theorem after_name (hopen : ts.head? ≠ some "(") (h : Place.name.after ts = some q) (hq : q.isGiven = true) :
    ∃ q', Place.given.after ts = some q' ∧ q'.isGiven = true := by
  cases ts with
  | nil => exact ⟨.given, rfl, rfl⟩
  | cons t ts =>
    have ht : t ≠ "(" := fun h => hopen (congrArg some h)
    have hnext : Place.given.next t = Place.name.next t := by
      simp only [next, nextOperator, if_neg ht]
    exact ⟨q, by rw [after, hnext]; exact h, hq⟩

/-- A comma comes after an operand, and an operand after it. -/
theorem next_comma (h : p.next "," = some q) : p.isGiven = true ∧ q = .operand := by
  cases p <;> revert h <;> revert q <;> decide

/-- A closing parenthesis comes after an operand, or right after the name and the parenthesis of a call. -/
theorem next_close_cases (h : p.next ")" = some q) : (p.isGiven = true ∨ p = .arguments) ∧ q = .given := by
  cases p <;> revert h <;> revert q <;> decide

/-- The closing parenthesis of a call comes after its arguments, which are well placed if there are any. -/
theorem after_call {inner rest : List Token} (hlast : inner.getLast? ≠ some "(") (hfirst : inner.head? ≠ some ")")
    (h : Place.arguments.after (inner ++ ")" :: rest) = some q) :
    Place.given.after rest = some q ∧ (inner ≠ [] → wellPlaced inner = true) := by
  by_cases hne : inner = []
  · subst hne
    exact ⟨h, fun h => absurd rfl h⟩
  · rw [after_append] at h
    obtain ⟨r, hr, h⟩ := Option.bind_eq_some_iff.1 h
    obtain ⟨r', hnext, h⟩ := Option.bind_eq_some_iff.1 h
    obtain ⟨hgiven, rfl⟩ := next_close_cases hnext
    have harguments : r ≠ .arguments := fun ha => hlast (getLast?_of_after_arguments hne (ha ▸ hr))
    exact ⟨h, fun _ => wellPlaced_iff.2 ⟨r, after_arguments hne hfirst ▸ hr, hgiven.resolve_right harguments⟩⟩

end Place

/-- The parts of a well-placed expression between commas are well placed. -/
theorem wellPlaced_separated {first : List Token} {others : List (List Token)}
    (h : wellPlaced (first ++ separated "," others) = true) : ∀ part ∈ first :: others, wellPlaced part = true := by
  induction others generalizing first with
  | nil => simpa [separated] using h
  | cons next others ih =>
    have hsep : separated "," (next :: others) = "," :: (next ++ separated "," others) := rfl
    obtain ⟨q, hq, hgiven⟩ := wellPlaced_iff.1 h
    rw [hsep, Place.after_append] at hq
    obtain ⟨r, hr, hq⟩ := Option.bind_eq_some_iff.1 hq
    obtain ⟨r', hcomma, hq⟩ := Option.bind_eq_some_iff.1 hq
    obtain ⟨hr', rfl⟩ := Place.next_comma hcomma
    intro part hpart
    rcases List.mem_cons.1 hpart with rfl | hpart
    · exact wellPlaced_iff.2 ⟨r, hr, hr'⟩
    · exact ih (wellPlaced_iff.2 ⟨q, hq, hgiven⟩) part hpart

/-! ## Calls -/

variable {line : Nat}

/-- A call that is accepted has a tree for each of its arguments. -/
theorem forall₂_of_build_call {callee : Token} {arguments : List (List Token)} {tree : Node}
    (h : (Invocation.call callee arguments).build line (fun p _ => Node.ofTokens line p) = .ok tree) :
    ∃ nodes, List.Forall₂ (fun ts n => Node.ofTokens line ts = .ok n) arguments nodes ∧
      tree = .apply (.call callee) line nodes := by
  rw [Invocation.build_call_eq] at h
  obtain ⟨nodes, hnodes, h⟩ := bind_eq_ok.1 h
  cases h
  refine ⟨nodes, (mapM_eq_ok.1 hnodes).imp fun ts n hn => ?_, rfl⟩
  split at hn
  · cases hn
  · exact hn

/-- Every shorter expression that is accepted and well placed is a rendering of its tree. -/
def RendersBelow (line bound : Nat) : Prop :=
  ∀ (ts : List Token) (tree : Node), ts.length < bound → (∀ t ∈ ts, t ∉ Token.reserved) →
    Node.ofTokens line ts = .ok tree → wellPlaced ts = true → Rendering line 0 ts tree

/-- A call whose arguments are well placed is a rendering of its tree. -/
theorem rendering_call {callee : Token} {inner : List Token} {tree : Node} {bound : Nat}
    (hbelow : RendersBelow line bound) (hlength : inner.length < bound) (hcallee : callee.isCallee = true)
    (hfor : callee ≠ "for") (hreserved : ∀ t ∈ inner, t ∉ Token.reserved)
    (hplaced : inner ≠ [] → wellPlaced inner = true)
    (h : Item.piece line (.invoke (.read callee inner)) = .ok (.call tree)) (level : Nat) :
    Rendering line level (callee :: "(" :: (inner ++ [")"])) tree := by
  obtain ⟨tree', hbuild, htree⟩ := map_eq_ok.1 h
  cases htree
  rw [Invocation.read, if_neg hfor] at hbuild
  obtain ⟨nodes, hnodes, rfl⟩ := forall₂_of_build_call hbuild
  by_cases hne : inner = []
  · subst hne
    cases hnodes
    exact @Rendering.call line level callee [] hcallee fun _ h => by cases h
  · have hempty : inner.isEmpty = false := by
      rw [Bool.eq_false_iff]
      exact fun h => hne (List.isEmpty_iff.1 h)
    rw [hempty, if_neg Bool.false_ne_true] at hnodes
    obtain ⟨hlength', hnodes⟩ := List.forall₂_iff_zip.1 hnodes
    have harguments : ∀ a ∈ (parts "," inner).zip nodes, Rendering line 1 a.1 a.2 := by
      rintro ⟨part, node⟩ ha
      have hpart := (List.of_mem_zip ha).1
      have hrendering := hbelow part node (Nat.lt_of_le_of_lt (length_of_mem_parts hpart) hlength)
        (fun t ht => hreserved t (mem_of_mem_part hpart ht)) (hnodes ha)
        (wellPlaced_separated (by rw [splitTop_join]; exact hplaced hne) part hpart)
      exact hrendering.argument (splitTop_of_mem_parts hpart)
    have hcall := @Rendering.call line level callee _ hcallee harguments
    rwa [List.map_fst_zip (Nat.le_of_eq hlength'), List.map_snd_zip (Nat.le_of_eq hlength'.symm),
      intercalate_parts] at hcall

/-! ## Expressions -/

/-- An operator after a token has no left operand exactly where an operand is awaited. -/
theorem leavesOperandMissing_of_next {p q : Place} {t : Token} (hname : p ≠ .name) (harguments : p ≠ .arguments)
    (h : p.next t = some q) : (Piece.token t).leavesOperandMissing = !q.isGiven := by
  cases hp : p.isGiven with
  | false =>
    rcases Place.cases_of_not_isGiven hp harguments h with ⟨rfl, rfl⟩ | ⟨-, ht, rfl⟩ | ⟨ht, rfl⟩
    · decide
    · obtain ⟨ho, -, hclose⟩ := of_level?_prefixName ht
      exact leavesOperandMissing_of_operator ho hclose
    · rw [Piece.leavesOperandMissing, ht, Bool.and_false]
      split <;> rfl
  | true =>
    obtain rfl := Place.eq_given hp hname
    rcases Place.cases_of_given h with ⟨rfl, rfl⟩ | ⟨l, hl, -, rfl⟩
    · decide
    · rw [leavesOperandMissing_of_operator (isOperator_of_level? hl) (ne_close_of_level? hl)]
      split <;> rfl

theorem pushAll_cons {p : Piece × Bool} {ps : List (Piece × Bool)} {s : Stacks}
    (h : Stacks.pushAll line (p :: ps) = .ok s) :
    ∃ r, Stacks.pushAll line ps = .ok r ∧ r.push line p = .ok s := by
  rw [Stacks.pushAll] at h
  split at h
  · exact ⟨_, ‹_›, h⟩
  · cases h

/-- The name of a call stands where an operand is awaited. -/
theorem next_callee {p q : Place} {t : Token} (harguments : p ≠ .arguments) (hname : p ≠ .name)
    (hcallee : t.isCallee = true) (h : p.next t = some q) : p.isGiven = false ∧ q = .name := by
  have ht := isOperator_of_isCallee hcallee
  cases hp : p.isGiven with
  | false =>
    rw [Place.next_leaf hp ht, if_pos hcallee] at h
    exact ⟨rfl, (Option.some.inj h).symm⟩
  | true =>
    obtain rfl := Place.eq_given hp hname
    rcases Place.cases_of_given h with ⟨rfl, rfl⟩ | ⟨l, hl, -, rfl⟩
    · cases ht
    · rw [isOperator_of_level? hl] at ht
      cases ht

/-- Reading the pieces of well-placed tokens leaves renderings on the stacks. -/
theorem holds_of_pushAll {bound : Nat} (hbelow : RendersBelow line bound) (ts : List Token) :
    ts.length ≤ bound → (∀ t ∈ ts, t ∉ Token.reserved) → ∀ {p q : Place} {pieces : List Piece} {s : Stacks},
    p ≠ .name → p ≠ .arguments → p.after ts = some q → q.isGiven = true →
    List.Forall₂ (fun i piece => Item.piece line i = .ok piece) (Item.scan ts) pieces →
    Stacks.pushAll line (markPieces (!p.isGiven) pieces) = .ok s → s.Holds line p ts := by
  fun_induction Item.scan ts with
  | case1 =>
    intro _ _ p q pieces s hname _ hafter hq hpieces hpush
    cases hafter
    cases hpieces
    cases hpush
    obtain rfl := Place.eq_given hq hname
    exact Stacks.Pending.nil
  | case2 t ts hcall inner rest hclose ih =>
    intro hlength hreserved p q pieces s hname harguments hafter hq hpieces hpush
    obtain ⟨hcallee, hopen⟩ := hcall
    obtain ⟨hts, hlast, -, hfirst⟩ := closeGroup?_eq_some hclose
    obtain ⟨inner', rfl⟩ : ∃ us, ts = "(" :: us := List.head?_eq_some_iff.1 hopen
    rw [List.tail_cons] at hts
    subst hts
    -- the name, the parenthesis, the arguments and what comes after them
    obtain ⟨r, hnext, hafter⟩ := Option.bind_eq_some_iff.1 hafter
    obtain ⟨hp, rfl⟩ := next_callee harguments hname hcallee hnext
    obtain ⟨r, hnext, hafter⟩ := Option.bind_eq_some_iff.1 hafter
    cases hnext
    obtain ⟨hrest, hplaced⟩ := Place.after_call hlast (hfirst rfl) hafter
    obtain ⟨piece, pieces, hpiece, hrestPieces, rfl⟩ := List.forall₂_cons_left_iff.1 hpieces
    obtain ⟨tree, -, rfl⟩ := map_eq_ok.1 hpiece
    obtain ⟨r, hpushed, hpush⟩ := pushAll_cons hpush
    cases hpush
    simp only [List.length_cons, List.length_append] at hlength
    have hpending := ih (by omega) (fun t ht => hreserved t (by simp [ht])) Place.noConfusion Place.noConfusion hrest hq
      hrestPieces hpushed
    have hrendering := rendering_call hbelow (by omega) hcallee (fun h => hreserved t (by simp) (by rw [h]; decide))
      (fun t ht => hreserved t (by simp [ht])) hplaced hpiece
    have hholds := Stacks.HoldsMember.intro hrendering hpending
    simp only [List.cons_append, List.append_assoc, List.nil_append] at hholds
    exact .of_member hp hholds
  | case3 t ts hcall hclose =>
    intro _ _ p q pieces s _ _ _ _ hpieces _
    cases hpieces with
    | cons h _ => cases h
  | case4 t ts hcall ih =>
    intro hlength hreserved p q pieces s hname harguments hafter hq hpieces hpush
    obtain ⟨r, hnext, hafter⟩ := Option.bind_eq_some_iff.1 hafter
    obtain ⟨piece, pieces, hpiece, hrestPieces, rfl⟩ := List.forall₂_cons_left_iff.1 hpieces
    cases hpiece
    obtain ⟨s', hpushed, hpush⟩ := pushAll_cons hpush
    rw [leavesOperandMissing_of_next hname harguments hnext] at hpushed
    have hts := fun u hu => hreserved u (List.mem_cons_of_mem t hu)
    refine Stacks.Holds.push hname harguments hnext ?_ hpush
    by_cases hr : r = .name
    · subst hr
      have hopen : ts.head? ≠ some "(" := fun hopen => hcall ⟨Place.isCallee_of_next_name hnext, hopen⟩
      obtain ⟨q', hafter, hq⟩ := Place.after_name hopen hafter hq
      exact ih (Nat.le_of_succ_le hlength) hts (p := .given) Place.noConfusion Place.noConfusion hafter hq hrestPieces
        hpushed
    · have hr' : r ≠ .arguments := fun h => hname (Place.of_next_arguments (h ▸ hnext)).1
      exact ih (Nat.le_of_succ_le hlength) hts hr hr' hafter hq hrestPieces hpushed

theorem atLine_eq_ok {α : Type} {x : Except Fault α} {a : α} : atLine line x = .ok a ↔ x = .ok a := by
  cases x <;> simp [atLine]

theorem expressionOf_of_length {ts : List Token} (h : 2 ≤ ts.length) :
    Form.expressionOf ts = .expression (Item.scan ts) := by
  unfold Form.expressionOf
  split
  · exact absurd h (by simp)
  · rfl

/-- The tree of several tokens is resolved from the pieces of their items. -/
theorem resolve_of_ofTokens {ts : List Token} {tree : Node} (hlength : 2 ≤ ts.length)
    (hreserved : ∀ t ∈ ts, t ∉ Token.reserved) (h : Node.ofTokens line ts = .ok tree) :
    ∃ pieces, List.Forall₂ (fun i piece => Item.piece line i = .ok piece) (Item.scan ts) pieces ∧
      resolve line pieces = .ok tree := by
  have hne : ts ≠ [] := List.ne_nil_of_length_pos (by omega)
  rw [Node.ofTokens, ofTokens_of_not_reserved hne hreserved] at h
  cases hcall : Form.call? ts with
  | some form =>
    obtain ⟨i, rfl, hscan⟩ := scan_of_call? hcall
    rw [hcall] at h
    rw [hscan]
    exact ⟨[.call tree], .cons (map_eq_ok.2 ⟨tree, h, rfl⟩) .nil, rfl⟩
  | none =>
    rw [hcall, Option.getD_none, expressionOf_of_length hlength, build_expression] at h
    obtain ⟨pieces, hpieces, h⟩ := bind_eq_ok.1 h
    exact ⟨pieces, mapM_eq_ok.1 hpieces, atLine_eq_ok.1 h⟩

/-- A single token that is accepted is read as a leaf. -/
theorem read_of_ofTokens {t : Token} {tree : Node} (ht : t ∉ Token.reserved) (h : Node.ofTokens line [t] = .ok tree) :
    ∃ leaf, Leaf.read t = .ok leaf ∧ tree = .leaf (.ofLeaf leaf) line := by
  have hcall : Form.call? [t] = none := if_neg fun h => by cases h.2
  rw [Node.ofTokens, ofTokens_of_not_reserved (List.cons_ne_nil _ _) (by simpa using ht), hcall, Option.getD_none,
    Form.expressionOf] at h
  cases hleaf : Leaf.read t with
  | error fault =>
    rw [hleaf] at h
    cases h
  | ok leaf =>
    rw [hleaf] at h
    cases h
    exact ⟨leaf, rfl, rfl⟩

/-- A token alone is well placed if it is an operand. -/
theorem isOperator_of_wellPlaced {t : Token} (h : wellPlaced [t] = true) : t.isOperator = false := by
  obtain ⟨q, hq, hgiven⟩ := wellPlaced_iff.1 h
  obtain ⟨r, hnext, hr⟩ := Option.bind_eq_some_iff.1 hq
  cases hr
  rcases Place.cases_of_not_isGiven rfl Place.noConfusion hnext with ⟨-, rfl⟩ | ⟨-, -, rfl⟩ | ⟨ht, -⟩
  · cases hgiven
  · cases hgiven
  · exact ht

/-- Accepted expressions of any length are renderings where they are well placed. -/
theorem rendersBelow (bound : Nat) : RendersBelow line bound := by
  induction bound with
  | zero => exact fun ts _ h => absurd h (Nat.not_lt_zero _)
  | succ bound ih =>
    intro ts tree hlength hreserved h hplaced
    match ts with
    | [] =>
      rw [Node.ofTokens] at h
      cases h
    | [t] =>
      obtain ⟨leaf, hleaf, rfl⟩ := read_of_ofTokens (hreserved t (by simp)) h
      exact .leaf hleaf (isOperator_of_wellPlaced hplaced)
    | t :: u :: us =>
      obtain ⟨pieces, hpieces, hresolve⟩ := resolve_of_ofTokens (by simp) hreserved h
      obtain ⟨q, hafter, hq⟩ := wellPlaced_iff.1 hplaced
      unfold resolve at hresolve
      split at hresolve
      · cases hresolve
      · rename_i s hpush
        have hholds := holds_of_pushAll ih (t :: u :: us) (Nat.le_of_lt_succ hlength) hreserved (p := .operand)
          Place.noConfusion Place.noConfusion hafter hq hpieces hpush
        split at hresolve
        · rename_i hfinish
          cases hresolve
          obtain ⟨tree', htree, hrendering⟩ := Stacks.HoldsOperand.finish hholds hfinish
          cases htree
          exact hrendering
        · cases hresolve
        · cases hresolve

/-- An expression that is accepted is a rendering of its tree if and only if each of its tokens is well
placed. -/
theorem rendering_iff_wellPlaced {line : Nat} {ts : List Token} {tree : Node}
    (hreserved : ∀ t ∈ ts, t ∉ Token.reserved) (h : Node.ofTokens line ts = .ok tree) :
    Rendering line 0 ts tree ↔ wellPlaced ts = true :=
  ⟨Rendering.wellPlaced, rendersBelow _ ts tree (Nat.lt_succ_self _) hreserved h⟩

theorem rendering_iff_wellPlaced_call :
    let ts : List Token := ["a", "=", "-", "f", "(", "b", ",", "c", "+", "a", ")"]
    let tree : Node := .apply (.call "=") 3 [.leaf (.write "a") 3, .apply (.call "#_unaryminus") 3
      [.apply (.call "f") 3 [.leaf (.read "b") 3, .apply (.call "+") 3 [.leaf (.read "c") 3, .leaf (.read "a") 3]]]]
    (∀ t ∈ ts, t ∉ Token.reserved) ∧ Node.ofTokens 3 ts = .ok tree ∧ Rendering 3 0 ts tree := by
  intro ts tree
  let a : LeafToken := ⟨"a", .variable "a", rfl, by decide, by decide⟩
  let b : LeafToken := ⟨"b", .variable "b", rfl, by decide, by decide⟩
  let c : LeafToken := ⟨"c", .variable "c", rfl, by decide, by decide⟩
  let w : Written := .binary ⟨"=", by decide⟩ (.leaf a) (.unary .minus (.call ⟨"f", by decide, by decide⟩
    [.leaf b, .binary ⟨"+", by decide⟩ (.leaf c) (.leaf a)]))
  have hreserved : ∀ t ∈ ts, t ∉ Token.reserved := w.not_reserved
  have hfits : w.fits 0 = true := by decide
  have h : Node.ofTokens 3 ts = .ok tree := Written.ofTokens_of_pieces hfits (Written.forall₂_pieces 3 hfits)
  exact ⟨hreserved, h, (rendering_iff_wellPlaced hreserved h).2 (by decide)⟩

/-- Tokens without an opening parenthesis are resolved as they stand. -/
theorem ofTokens_of_not_open {ts : List Token} (hlength : 2 ≤ ts.length) (hreserved : ∀ t ∈ ts, t ∉ Token.reserved)
    (hopen : "(" ∉ ts) : Node.ofTokens line ts = atLine line (resolve line (ts.map .token)) := by
  have hscan : ∀ {us : List Token}, "(" ∉ us → Item.scan us = us.map .token := by
    intro us hus
    induction us with
    | nil => rw [Item.scan, List.map_nil]
    | cons u us ih =>
      rw [List.mem_cons, not_or] at hus
      rw [Item.scan, if_neg fun h => hus.2 (List.mem_of_head? h.2), ih hus.2, List.map_cons]
  have hcall : Form.call? ts = none := by
    cases hc : Form.call? ts with
    | none => rfl
    | some form =>
      obtain ⟨i, -, hi⟩ := scan_of_call? hc
      rw [hscan hopen] at hi
      cases ts <;> cases hi
  have hpieces : (ts.map Item.token).mapM (Item.piece line) = .ok (ts.map .token) := by
    rw [mapM_eq_ok, List.forall₂_map_left_iff, List.forall₂_map_right_iff]
    exact List.forall₂_same.2 fun _ _ => rfl
  rw [Node.ofTokens, ofTokens_of_not_reserved (List.ne_nil_of_length_pos (by omega)) hreserved, hcall, Option.getD_none,
    expressionOf_of_length hlength, build_expression, hscan hopen, hpieces]
  rfl

/-- An operator after both of its operands is accepted, though no tree is rendered in this way. -/
theorem ofTokens_postfix :
    Node.ofTokens 1 ["a", "b", "+"] = .ok (.apply (.call "+") 1 [.leaf (.read "a") 1, .leaf (.read "b") 1]) ∧
      ∀ tree, ¬Rendering 1 0 ["a", "b", "+"] tree := by
  refine ⟨?_, fun tree h => ?_⟩
  · rw [ofTokens_of_not_open (by decide) (by decide) (by decide)]
    rfl
  · have := h.wellPlaced
    revert this
    decide

end WordMachine.Cflat
