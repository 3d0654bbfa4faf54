/-
Loops by their three clauses. Clauses whose parentheses match may be set apart by semicolons or by commas: semicolons
divide a loop everywhere outside of parentheses, commas only at the first and the last one, so that the clause in the
middle may have commas of its own. Either way the clauses are read as statements of their own, and an empty one stands
for doing nothing.
-/
import WordMachine.Proofs.Cflat.Acceptance
import WordMachine.Proofs.Cflat.Shapes

namespace WordMachine.Cflat

/-- A loop with the given separator between its clauses. -/
def loopTokens (separator : Token) (c₁ c₂ c₃ : List Token) : List Token :=
  "for" :: "(" :: (c₁ ++ separator :: (c₂ ++ separator :: c₃) ++ [")"])

/-- The tree of a clause, which may be empty. -/
def clauseTree (line : Nat) (clause : List Token) : Except Error Node :=
  if clause.isEmpty then .ok (.leaf (.construct "#_nop") line) else Node.ofTokens line clause

/-- The tree of a loop, if all of its clauses have one. -/
def loopTree (line : Nat) (c₁ c₂ c₃ : List Token) : Except Error Node := do
  let first ← clauseTree line c₁
  let second ← clauseTree line c₂
  let third ← clauseTree line c₃
  return .apply (.call "for") line [first, second, third]

/-! ## Clauses -/

theorem separated_parts (separator : Token) (ts : List Token) :
    separated separator (parts separator ts) = separator :: ts := by
  have hjoin := splitTop_join separator 0 ts
  rw [parts, separated, List.flatMap_cons, List.cons_append]
  exact congrArg (separator :: ·) hjoin

theorem hasTop_eq_false {separator : Token} {ts : List Token} (h : Balanced (· ≠ separator) ts) :
    hasTop separator ts = false := by
  have hparts := h.parts_eq
  rw [parts, List.cons.injEq] at hparts
  rw [hasTop, hparts.2]
  rfl

section

variable {c₁ c₂ c₃ : List Token} (h₁ : Balanced (· ≠ ";") c₁) (h₂ : Balanced (· ≠ ";") c₂) (h₃ : Balanced (· ≠ ";") c₃)

include h₁ h₂ h₃

theorem clauses?_semicolons : Invocation.clauses? (c₁ ++ ";" :: (c₂ ++ ";" :: c₃)) = some [c₁, c₂, c₃] := by
  have hparts : parts ";" (c₁ ++ ";" :: (c₂ ++ ";" :: c₃)) = [c₁, c₂, c₃] := by
    rw [h₁.parts_append (by decide) (by decide), h₂.parts_append (by decide) (by decide), h₁.parts_eq, h₂.parts_eq,
      h₃.parts_eq]
    rfl
  have htop : hasTop ";" (c₁ ++ ";" :: (c₂ ++ ";" :: c₃)) = true := by
    rw [parts, List.cons.injEq] at hparts
    rw [hasTop, hparts.2]
    rfl
  rw [Invocation.clauses?, htop, if_pos rfl, hparts]
  rfl

/-- The first comma ends the first clause and the last comma starts the last, whatever is between them. -/
theorem clauses?_outer_commas (hfirst : Balanced (· ≠ ",") c₁) (hlast : Balanced (· ≠ ",") c₃) :
    Invocation.clauses? (c₁ ++ "," :: (c₂ ++ "," :: c₃)) = some [c₁, c₂, c₃] := by
  have htop : hasTop ";" (c₁ ++ "," :: (c₂ ++ "," :: c₃)) = false := by
    refine hasTop_eq_false (h₁.append (.token ?_ ?_ ?_ (h₂.append (.token ?_ ?_ ?_ h₃)))) <;> decide
  have hparts : parts "," (c₁ ++ "," :: (c₂ ++ "," :: c₃)) = c₁ :: (parts "," c₂ ++ [c₃]) := by
    rw [h₁.parts_append (by decide) (by decide), h₂.parts_append (by decide) (by decide), hfirst.parts_eq,
      hlast.parts_eq]
    rfl
  rw [parts, List.cons.injEq] at hparts
  rw [Invocation.clauses?, htop, if_neg Bool.false_ne_true, hparts.1, hparts.2]
  dsimp only
  rw [List.getLast?_concat, List.dropLast_concat, separated_parts, List.tail_cons]
  exact if_neg (by simp [parts])

end

/-! ## Loops -/

/-- A loop that is divided into three clauses is read by them. -/
theorem ofTokens_loop {inner c₁ c₂ c₃ : List Token} (line : Nat) (hinner : Balanced (fun _ => True) inner)
    (hclauses : Invocation.clauses? inner = some [c₁, c₂, c₃]) :
    Node.ofTokens line ("for" :: "(" :: (inner ++ [")"])) = loopTree line c₁ c₂ c₃ := by
  have hgroup : wholeGroup? (inner ++ [")"]) = some inner := wholeGroup?_eq_some.2 (hinner.closeGroup?_close [])
  have hform : Form.ofTokens ("for" :: "(" :: (inner ++ [")"])) = .invoke (.loop [c₁, c₂, c₃]) := by
    rw [Form.ofTokens, if_pos rfl, Form.loop, List.head?_cons, if_pos rfl, List.tail_cons, hgroup]
    dsimp only
    rw [Invocation.read, if_pos rfl, hclauses]
  rw [Node.ofTokens, hform, Form.build]
  refine (Invocation.build_loop_eq line [c₁, c₂, c₃]).trans ?_
  simp only [List.mapM_cons, List.mapM_nil, bind_assoc, pure_bind]
  rfl

/-- A loop with semicolons between clauses whose parentheses match, and that have no semicolon outside of them, has
the trees of the clauses for its three arguments, and fails if one of them does. It may be written with commas
instead, if the first and the last clause have no comma outside of their parentheses. -/
theorem ofTokens_for_clauses {c₁ c₂ c₃ : List Token} (line : Nat) (h₁ : Balanced (· ≠ ";") c₁)
    (h₂ : Balanced (· ≠ ";") c₂) (h₃ : Balanced (· ≠ ";") c₃) :
    Node.ofTokens line (loopTokens ";" c₁ c₂ c₃) = loopTree line c₁ c₂ c₃ ∧
      (Balanced (· ≠ ",") c₁ → Balanced (· ≠ ",") c₃ →
        Node.ofTokens line (loopTokens "," c₁ c₂ c₃) = Node.ofTokens line (loopTokens ";" c₁ c₂ c₃)) := by
  have hinner {separator : Token} (hopen : separator ≠ "(") (hclose : separator ≠ ")") :
      Balanced (fun _ => True) (c₁ ++ separator :: (c₂ ++ separator :: c₃)) := by
    have hmatch {c : List Token} (h : Balanced (· ≠ ";") c) : Balanced (fun _ => True) c := h.mono fun _ _ => trivial
    exact (hmatch h₁).append <| .token hopen hclose trivial <| (hmatch h₂).append <| .token hopen hclose trivial <|
      hmatch h₃
  have hsemicolons := ofTokens_loop line (hinner (by decide) (by decide)) (clauses?_semicolons h₁ h₂ h₃)
  refine ⟨hsemicolons, fun hfirst hlast => ?_⟩
  exact (ofTokens_loop line (hinner (by decide) (by decide)) (clauses?_outer_commas h₁ h₂ h₃ hfirst hlast)).trans
    hsemicolons.symm

/-- An empty clause, one with a comma of its own, and one with a comma in parentheses. -/
theorem ofTokens_for_clauses_commas :
    let c₂ : List Token := ["a", ",", "b"]
    let c₃ : List Token := ["g", "(", "a", ",", "b", ")"]
    Balanced (· ≠ ";") c₂ ∧ Balanced (fun t => t ≠ ";" ∧ t ≠ ",") c₃ ∧
      Node.ofTokens 1 (loopTokens "," [] c₂ c₃) = .ok (.apply (.call "for") 1 [.leaf (.construct "#_nop") 1,
        .apply (.call ",") 1 [.leaf (.read "a") 1, .leaf (.read "b") 1],
        .apply (.call "g") 1 [.leaf (.read "a") 1, .leaf (.read "b") 1]]) := by
  intro c₂ c₃
  have h₂ : Balanced (· ≠ ";") c₂ := .token (by decide) (by decide) (by decide) (.token (by decide) (by decide)
    (by decide) (.token (by decide) (by decide) (by decide) .nil))
  have harguments : Balanced (fun _ => True) ["a", ",", "b"] := h₂.mono fun _ _ => trivial
  have h₃ : Balanced (fun t => t ≠ ";" ∧ t ≠ ",") c₃ :=
    .token (by decide) (by decide) (by decide) (.group harguments .nil)
  have ha : Node.ofTokens 1 ["a"] = .ok (.leaf (.read "a") 1) := by
    rw [Node.ofTokens]
    rfl
  have hb : Node.ofTokens 1 ["b"] = .ok (.leaf (.read "b") 1) := by
    rw [Node.ofTokens]
    rfl
  have hpair : Node.ofTokens 1 c₂ = .ok (.apply (.call ",") 1 [.leaf (.read "a") 1, .leaf (.read "b") 1]) := by
    rw [ofTokens_of_not_open (by decide) (by decide) (by decide)]
    rfl
  have hcall : Node.ofTokens 1 c₃ = .ok (.apply (.call "g") 1 [.leaf (.read "a") 1, .leaf (.read "b") 1]) := by
    have hform : Form.ofTokens c₃ = .invoke (.call "g" [["a"], ["b"]]) := rfl
    rw [Node.ofTokens, hform]
    exact build_call (.cons ha (.cons hb .nil))
  obtain ⟨hsemicolons, hcommas⟩ := ofTokens_for_clauses 1 .nil h₂ (h₃.mono fun _ h => h.1)
  refine ⟨h₂, h₃, (hcommas .nil (h₃.mono fun _ h => h.2)).trans (hsemicolons.trans ?_)⟩
  simp only [loopTree, clauseTree, hpair, hcall]
  rfl

end WordMachine.Cflat
