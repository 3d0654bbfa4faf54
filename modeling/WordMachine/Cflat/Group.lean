/-
Groups of tokens in parentheses: where a group ends, and the parts that a separator divides a list
into outside of any group.
-/
import WordMachine.Cflat.Token

namespace WordMachine.Cflat

/-- The tokens up to the closing parenthesis of a group that is open, and the tokens after it.
`depth` groups are open inside that group. -/
def closeGroup? (depth : Nat) : List Token → Option (List Token × List Token)
  | [] => none
  | t :: ts =>
    if t = "(" then (closeGroup? (depth + 1) ts).map fun p => (t :: p.1, p.2)
    else if t = ")" then
      match depth with
      | 0 => some ([], ts)
      | depth + 1 => (closeGroup? depth ts).map fun p => (t :: p.1, p.2)
    else (closeGroup? depth ts).map fun p => (t :: p.1, p.2)

/-- The tokens of a group that is open, if the list's last token closes it. -/
def wholeGroup? (ts : List Token) : Option (List Token) :=
  match closeGroup? 0 ts with
  | some (inner, []) => some inner
  | _ => none

/-- The depth of nesting after a token. A closing parenthesis without an opening one changes
nothing. -/
def nextDepth (depth : Nat) (t : Token) : Nat :=
  if t = "(" then depth + 1 else if t = ")" then depth - 1 else depth

/-- The parts of a list between the separators outside parentheses: the first part, and the others.
`depth` groups are open before the list. -/
def splitTop (separator : Token) (depth : Nat) : List Token → List Token × List (List Token)
  | [] => ([], [])
  | t :: ts =>
    let rest := splitTop separator (nextDepth depth t) ts
    if t = separator ∧ depth = 0 ∧ t ≠ "(" ∧ t ≠ ")" then ([], rest.1 :: rest.2)
    else (t :: rest.1, rest.2)

/-- The parts of a list between the separators outside parentheses. -/
def parts (separator : Token) (ts : List Token) : List (List Token) :=
  (splitTop separator 0 ts).1 :: (splitTop separator 0 ts).2

/-- The tokens of several lists, with the separator before each of them. -/
def separated (separator : Token) (parts : List (List Token)) : List Token :=
  parts.flatMap (separator :: ·)

/-- Does the separator stand in the list outside parentheses? -/
def hasTop (separator : Token) (ts : List Token) : Bool := !(splitTop separator 0 ts).2.isEmpty

/-! ## Lengths -/

theorem length_closeGroup? {depth : Nat} {ts inner rest : List Token}
    (h : closeGroup? depth ts = some (inner, rest)) :
    inner.length + rest.length + 1 = ts.length := by
  induction ts generalizing depth inner rest with
  | nil => cases h
  | cons t ts ih =>
    have step {d : Nat} (h : (closeGroup? d ts).map (fun p => (t :: p.1, p.2)) = some (inner, rest)) :
        inner.length + rest.length + 1 = (t :: ts).length := by
      obtain ⟨p, hp, he⟩ := Option.map_eq_some_iff.1 h
      cases he
      simp only [List.length_cons]
      have := ih hp
      omega
    unfold closeGroup? at h
    split at h
    · exact step h
    · split at h
      · split at h
        · cases h; simp
        · exact step h
      · exact step h

theorem length_wholeGroup? {ts inner : List Token} (h : wholeGroup? ts = some inner) :
    inner.length < ts.length := by
  unfold wholeGroup? at h
  split at h
  · cases h; have := length_closeGroup? ‹_›; omega
  · cases h

/-- Each part is no longer than the list. -/
theorem length_splitTop (separator : Token) (depth : Nat) (ts : List Token) :
    ∀ p ∈ (splitTop separator depth ts).1 :: (splitTop separator depth ts).2,
      p.length ≤ ts.length := by
  induction ts generalizing depth with
  | nil => simp [splitTop]
  | cons t ts ih =>
    intro p hp
    have ih := ih (nextDepth depth t)
    simp only [splitTop] at hp
    split at hp
    · rcases List.mem_cons.1 hp with rfl | hp
      · simp
      · exact Nat.le_succ_of_le (ih p hp)
    · rcases List.mem_cons.1 hp with rfl | hp
      · exact Nat.succ_le_succ (ih _ (List.mem_cons_self ..))
      · exact Nat.le_succ_of_le (ih p (List.mem_cons_of_mem _ hp))

/-- The parts with the separators before them are the list. -/
theorem splitTop_join (separator : Token) (depth : Nat) (ts : List Token) :
    (splitTop separator depth ts).1 ++ separated separator (splitTop separator depth ts).2 = ts := by
  induction ts generalizing depth with
  | nil => rfl
  | cons t ts ih =>
    have ih := ih (nextDepth depth t)
    simp only [splitTop]
    split
    · rename_i h
      simpa [separated, h.1] using ih
    · simpa [separated] using ih

theorem length_of_mem_parts {separator : Token} {ts p : List Token} (h : p ∈ parts separator ts) :
    p.length ≤ ts.length :=
  length_splitTop separator 0 ts p h

end WordMachine.Cflat
