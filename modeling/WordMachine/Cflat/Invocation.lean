/-
Names with parentheses after them, and the expressions that hold them. What stands in the parentheses
stays a list of tokens, shorter than the list it was found in.
-/
import WordMachine.Cflat.Error
import WordMachine.Cflat.Group

namespace WordMachine.Cflat

/-! ## Calls and loops -/

/-- A name applied to a group in parentheses. -/
inductive Invocation where
  /-- A loop with three clauses. -/
  | loop (clauses : List (List Token))
  | call (callee : Token) (arguments : List (List Token))
  | refused (fault : SyntaxFault)

namespace Invocation

/-- The lists of tokens that are statements or expressions of their own. -/
def parts : Invocation → List (List Token)
  | .loop clauses => clauses
  | .call _ arguments => arguments
  | .refused _ => []

/-- The clauses of a loop, by the tokens in its parentheses. They are set apart by semicolons or, if
there is none, by the first and the last comma. -/
def clauses? (inner : List Token) : Option (List (List Token)) :=
  if hasTop ";" inner then
    let clauses := Cflat.parts ";" inner
    if clauses.length = 3 then some clauses else none
  else
    let rest := (splitTop "," 0 inner).2
    match rest.getLast? with
    | none => none
    | some last =>
      if rest.length < 2 then none
      else some [(splitTop "," 0 inner).1, (separated "," rest.dropLast).tail, last]

/-- A name applied to the tokens in parentheses after it. -/
def read (callee : Token) (inner : List Token) : Invocation :=
  if callee = "for" then
    match clauses? inner with
    | some clauses => .loop clauses
    | none => .refused .forClauseCount
  else .call callee (if inner.isEmpty then [] else Cflat.parts "," inner)

theorem length_of_mem_clauses? {inner p : List Token} {clauses : List (List Token)}
    (h : clauses? inner = some clauses) (hp : p ∈ clauses) :
    p.length ≤ inner.length := by
  unfold clauses? at h
  split at h
  · dsimp only at h
    split at h
    · cases h; exact length_of_mem_parts hp
    · cases h
  · dsimp only at h
    split at h
    · cases h
    · rename_i last hlast
      split at h
      · cases h
      · have hjoin := congrArg List.length (splitTop_join "," 0 inner)
        cases h
        simp only [List.mem_cons, List.not_mem_nil, or_false] at hp
        rcases hp with rfl | rfl | rfl
        · exact length_splitTop "," 0 inner _ (List.mem_cons_self ..)
        · obtain ⟨ys, hys⟩ := List.getLast?_eq_some_iff.1 hlast
          rw [hys] at hjoin ⊢
          rw [List.dropLast_concat]
          simp only [separated, List.flatMap_append, List.length_append, List.length_tail] at hjoin ⊢
          omega
        · exact length_splitTop "," 0 inner _
            (List.mem_cons_of_mem _ (List.mem_of_getLast? hlast))

theorem length_of_mem_read {callee : Token} {inner p : List Token}
    (hp : p ∈ (read callee inner).parts) : p.length ≤ inner.length := by
  unfold read at hp
  repeat' split at hp
  · exact length_of_mem_clauses? ‹_› hp
  · cases hp
  · cases hp
  · exact length_of_mem_parts hp

end Invocation

/-! ## Expressions -/

/-- A part of an expression: a token, or a name with the parentheses after it. -/
inductive Item where
  | token (t : Token)
  | invoke (invocation : Invocation)

namespace Item

def parts : Item → List (List Token)
  | .token _ => []
  | .invoke invocation => invocation.parts

/-- The parts of an expression. A group that is not closed ends it. -/
def scan : List Token → List Item
  | [] => []
  | t :: ts =>
    if t.isCallee ∧ ts.head? = some "(" then
      match _h : closeGroup? 0 ts.tail with
      | some (inner, rest) => .invoke (.read t inner) :: scan rest
      | none => [.invoke (.refused (.argumentsNotClosed t))]
    else .token t :: scan ts
termination_by ts => ts.length
decreasing_by
  · have := length_closeGroup? _h
    simp at this ⊢
    omega
  · simp

theorem length_lt_of_mem_scan {tokens p : List Token} {item : Item}
    (hi : item ∈ scan tokens) (hp : p ∈ item.parts) : p.length < tokens.length := by
  fun_induction scan tokens with
  | case1 => cases hi
  | case2 t ts _ inner rest h ih =>
    have hl := length_closeGroup? h
    simp only [List.length_tail] at hl
    rcases List.mem_cons.1 hi with rfl | hi
    · have := Invocation.length_of_mem_read hp
      simp only [List.length_cons]
      omega
    · have := ih hi
      simp only [List.length_cons]
      omega
  | case3 t ts _ h =>
    rcases List.mem_cons.1 hi with rfl | hi
    · cases hp
    · cases hi
  | case4 t ts _ ih =>
    rcases List.mem_cons.1 hi with rfl | hi
    · cases hp
    · exact Nat.lt_succ_of_lt (ih hi)

end Item

end WordMachine.Cflat
