/-
Transfers of control: `break` and `continue` stand alone, `goto` and `comefrom` take a label, and `return` takes at
most one value. A keyword with a group in parentheses after it, to the end of the statement, is read as a call
though, and has whatever arguments the group gives it.
-/
import WordMachine.Proofs.Cflat.Acceptance
import WordMachine.Proofs.Cflat.Shapes

namespace WordMachine.Cflat

/-! ## Operands -/

/-- The arguments are operands that the keyword takes. -/
inductive TakesOperands (line : Nat) : Token → List Node → Prop where
  | nothing {keyword : Token} (hk : keyword = "break" ∨ keyword = "continue") : TakesOperands line keyword []
  /-- A label, which is kept as it was written. -/
  | label {keyword label : Token} (hk : keyword = "goto" ∨ keyword = "comefrom")
      (hlabel : label.isIdentifier = true) : TakesOperands line keyword [.leaf (.raw label) line]
  | value {keyword : Token} {arguments : List Node} (hk : keyword = "return") (h : arguments.length ≤ 1) :
      TakesOperands line keyword arguments

/-- The tokens of a group in parentheses give operands that the keyword takes. -/
inductive GroupsOperands (line : Nat) : Token → List Token → Prop where
  | nothing {keyword : Token} (hk : keyword = "break" ∨ keyword = "continue") : GroupsOperands line keyword []
  /-- A string literal that holds a name, perhaps in more parentheses. -/
  | label {keyword label : Token} {inner : List Token} (hk : keyword = "goto" ∨ keyword = "comefrom")
      (hlabel : label.isIdentifier = true) (hcomma : hasTop "," inner = false)
      (htree : Node.ofTokens line inner = .ok (.leaf (.raw label) line)) : GroupsOperands line keyword inner
  | value {keyword : Token} {inner : List Token} (hk : keyword = "return") (hcomma : hasTop "," inner = false) :
      GroupsOperands line keyword inner

/-! ## Keywords before their operands -/

/-- A transfer of control that is not written as a call has operands that its keyword takes. -/
theorem takesOperands_of_transfer? {line : Nat} {keyword : Token} {rest : List Token} {form : Form} {n : Node}
    {tree : (p : List Token) → p ∈ form.parts → Except Error Node} (h : Form.transfer? keyword rest = some form)
    (hn : form.build line tree = .ok n) : n.head = .call keyword ∧ TakesOperands line keyword n.arguments := by
  unfold Form.transfer? at h
  split at h
  · rename_i hk
    split at h
    · cases h
      cases hn
      exact ⟨rfl, .value hk (Nat.zero_le 1)⟩
    · cases h
      obtain ⟨value, -, hn⟩ := bind_eq_ok.1 hn
      cases hn
      exact ⟨by rw [hk]; rfl, .value hk (Nat.le_refl 1)⟩
  split at h
  · rename_i hk
    split at h <;> cases h
    · cases hn
      exact ⟨rfl, .nothing hk⟩
    · cases hn
  split at h
  · rename_i hk
    split at h
    · rename_i label
      split at h <;> cases h
      · rename_i hlabel
        cases hn
        exact ⟨rfl, .label hk hlabel⟩
      · cases hn
    · cases h
      cases hn
  · cases h

/-! ## Keywords with a group -/

theorem parts_of_hasTop {separator : Token} {ts : List Token} (h : hasTop separator ts = false) :
    parts separator ts = [ts] := by
  have hothers : (splitTop separator 0 ts).2 = [] := by simpa [hasTop] using h
  have hjoin := splitTop_join separator 0 ts
  rw [hothers] at hjoin
  rw [parts, hothers, ← List.append_nil (splitTop separator 0 ts).1]
  exact congrArg (fun first => [first]) hjoin

theorem length_parts_le_one {separator : Token} {ts : List Token} :
    (parts separator ts).length ≤ 1 ↔ hasTop separator ts = false := by
  rw [parts, hasTop, List.length_cons, Bool.not_eq_false', List.isEmpty_iff, ← List.length_eq_zero_iff]
  omega

/-- The arguments of a call are the trees of the parts between the commas. -/
theorem arguments_of_call {line : Nat} {callee : Token} {inner : List Token} {n : Node} (hfor : callee ≠ "for")
    (h : (Invocation.read callee inner).build line (fun p _ => Node.ofTokens line p) = .ok n) :
    n.head = .call callee ∧ List.Forall₂ (fun ts m => Node.ofTokens line ts = .ok m)
      (if inner.isEmpty then [] else parts "," inner) n.arguments := by
  rw [Invocation.read, if_neg hfor] at h
  obtain ⟨nodes, hnodes, rfl⟩ := forall₂_of_build_call h
  exact ⟨rfl, hnodes⟩

section

variable {line : Nat} {keyword : Token} {inner : List Token} {arguments : List Node}
  (h : List.Forall₂ (fun ts m => Node.ofTokens line ts = .ok m)
    (if inner.isEmpty then [] else parts "," inner) arguments)

include h

theorem takesOperands_of_groups (hinner : GroupsOperands line keyword inner) :
    TakesOperands line keyword arguments := by
  cases hinner with
  | nothing hk =>
    cases h
    exact .nothing hk
  | label hk hlabel hcomma htree =>
    rw [isEmpty_of_ofTokens htree, parts_of_hasTop hcomma] at h
    obtain ⟨m, ms, hm, hms, rfl⟩ := List.forall₂_cons_left_iff.1 h
    cases hms
    rw [htree] at hm
    cases hm
    exact .label hk hlabel
  | value hk hcomma =>
    refine .value hk ?_
    rw [← h.length_eq]
    split
    · exact Nat.zero_le 1
    · exact length_parts_le_one.2 hcomma

theorem groups_of_takesOperands (harguments : TakesOperands line keyword arguments) :
    GroupsOperands line keyword inner := by
  cases harguments with
  | nothing hk =>
    rw [List.forall₂_nil_right_iff] at h
    split at h
    · rename_i hempty
      obtain rfl := List.isEmpty_iff.1 hempty
      exact .nothing hk
    · cases h
  | label hk hlabel =>
    obtain ⟨part, others, htree, hothers, hparts⟩ := List.forall₂_cons_right_iff.1 h
    cases hothers
    split at hparts
    · cases hparts
    · have hcomma : hasTop "," inner = false := length_parts_le_one.1 (by rw [hparts]; exact Nat.le_refl 1)
      rw [parts_of_hasTop hcomma] at hparts
      cases hparts
      exact .label hk hlabel hcomma htree
  | value hk hlength =>
    rw [← h.length_eq] at hlength
    split at hlength
    · rename_i hempty
      obtain rfl := List.isEmpty_iff.1 hempty
      exact .value hk rfl
    · exact .value hk (length_parts_le_one.1 hlength)

end

/-! ## Statements -/

/-- A statement that starts with a word that transfers control is a call or such a transfer. -/
theorem ofTokens_of_transferWords {keyword : Token} (hk : keyword ∈ Token.transferWords) (rest : List Token) :
    ∃ form, Form.transfer? keyword rest = some form ∧
      Form.ofTokens (keyword :: rest) = (Form.call? (keyword :: rest)).getD form := by
  have hwords : ∀ k ∈ Token.transferWords, k ≠ "for" ∧ k ∉ Token.functionAnnotations ++ Token.functionTypes := by decide
  obtain ⟨hfor, hfunction⟩ := hwords keyword hk
  obtain ⟨form, hform⟩ := Option.isSome_iff_exists.1 ((@Form.isSome_transfer?_iff keyword rest).2 hk)
  refine ⟨form, hform, ?_⟩
  rw [Form.ofTokens, if_neg hfor, Form.function?_eq_none_of_first hfunction, hform]
  cases Form.call? (keyword :: rest) <;> rfl

/-- A statement that starts with a word that transfers control is a node of that name. Its arguments are operands
that the word takes exactly if the word is not followed by a group in parentheses to the end of the statement, or
that group gives such operands. -/
theorem ofTokens_transfer_iff {line : Nat} {keyword : Token} {rest : List Token} {n : Node}
    (hk : keyword ∈ Token.transferWords) (h : Node.ofTokens line (keyword :: rest) = .ok n) :
    n.head = .call keyword ∧ (TakesOperands line keyword n.arguments ↔
      ∀ inner, rest = "(" :: (inner ++ [")"]) → wholeGroup? (inner ++ [")"]) = some inner →
        GroupsOperands line keyword inner) := by
  obtain ⟨form, hform, hofTokens⟩ := ofTokens_of_transferWords hk rest
  rw [Node.ofTokens, hofTokens] at h
  cases hcall : Form.call? (keyword :: rest) with
  | none =>
    rw [hcall] at h
    obtain ⟨hhead, htakes⟩ := takesOperands_of_transfer? hform h
    refine ⟨hhead, fun _ inner hrest hgroup => ?_, fun _ => htakes⟩
    have hcallee : ∀ k ∈ Token.transferWords, k.isCallee = true := by decide
    rw [Form.call?_eq_some_iff.2 ⟨keyword, inner, by rw [hrest], hcallee keyword hk, hgroup, rfl⟩] at hcall
    cases hcall
  | some call =>
    rw [hcall] at h
    obtain ⟨callee, inner, htokens, -, hgroup, rfl⟩ := Form.call?_eq_some_iff.1 hcall
    cases htokens
    have hfor : keyword ≠ "for" := by rintro rfl; revert hk; decide
    obtain ⟨hhead, harguments⟩ := arguments_of_call hfor h
    refine ⟨hhead, fun htakes inner' hrest _ => ?_, fun hinner => ?_⟩
    · simp only [List.cons.injEq, List.append_cancel_right_eq, true_and] at hrest
      subst hrest
      exact groups_of_takesOperands harguments htakes
    · exact takesOperands_of_groups harguments (hinner inner rfl hgroup)

/-- A label after its keyword, and a value in parentheses. -/
theorem ofTokens_transfer_iff_label :
    let label : Node := .leaf (.raw "end") 4
    let value : Node := .leaf (.read "x") 4
    (Node.ofTokens 4 ["goto", "end"] = .ok (.apply (.call "goto") 4 [label]) ∧ TakesOperands 4 "goto" [label]) ∧
      Node.ofTokens 4 ["return", "(", "x", ")"] = .ok (.apply (.call "return") 4 [value]) ∧
        TakesOperands 4 "return" [value] := by
  intro label value
  have hgoto : Node.ofTokens 4 ["goto", "end"] = .ok (.apply (.call "goto") 4 [label]) := by
    rw [Node.ofTokens]
    rfl
  have hvalue : Node.ofTokens 4 ["x"] = .ok value := by
    rw [Node.ofTokens]
    rfl
  have hreturn : Node.ofTokens 4 ["return", "(", "x", ")"] = .ok (.apply (.call "return") 4 [value]) := by
    have hform : Form.ofTokens ["return", "(", "x", ")"] = .invoke (.call "return" [["x"]]) := rfl
    rw [Node.ofTokens, hform]
    exact build_call (.cons hvalue .nil)
  refine ⟨⟨hgoto, (ofTokens_transfer_iff (by decide) hgoto).2.2 fun inner hrest => ?_⟩, hreturn,
    (ofTokens_transfer_iff (by decide) hreturn).2.2 fun inner hrest hgroup => ?_⟩
  · exact absurd (List.cons.inj hrest).1 (by decide)
  · rw [← (List.cons.inj hrest).2] at hgroup
    cases hgroup
    exact .value rfl rfl

/-- A `break` with a value in parentheses is accepted, though it takes no operands. -/
theorem ofTokens_break_group :
    Node.ofTokens 1 ["break", "(", "2", ")"] = .ok (.apply (.call "break") 1 [.leaf (.literal (.int 2)) 1]) ∧
      ¬TakesOperands 1 "break" [.leaf (.literal (.int 2)) 1] := by
  have hform : Form.ofTokens ["break", "(", "2", ")"] = .invoke (.call "break" [["2"]]) := rfl
  have hvalue : Node.ofTokens 1 ["2"] = .ok (.leaf (.literal (.int 2)) 1) := by
    rw [Node.ofTokens]
    rfl
  refine ⟨?_, fun h => ?_⟩
  · rw [Node.ofTokens, hform]
    exact build_call (.cons hvalue .nil)
  · cases h with
    | value hk => exact absurd hk (by decide)

end WordMachine.Cflat
