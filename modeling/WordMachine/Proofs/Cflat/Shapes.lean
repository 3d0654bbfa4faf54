/-
The tokens of a statement by its form: a function is annotations, a type, a name and a group in parentheses, a call
is a name and a group, and a declaration starts with words that may come before the name of a variable. What is
recognised as one of these has exactly such tokens.
-/
import WordMachine.Proofs.Cflat.Balance
import WordMachine.Proofs.Cflat.Forms

namespace WordMachine.Cflat

/-! ## Groups -/

theorem wholeGroup?_eq_some {ts inner : List Token} :
    wholeGroup? ts = some inner ↔ closeGroup? 0 ts = some (inner, []) := by
  unfold wholeGroup?
  split
  · rename_i h
    rw [h]
    simp
  · rename_i h
    exact ⟨fun hnone => by (cases hnone), fun hclose => absurd hclose (h inner)⟩

theorem eq_of_wholeGroup? {ts inner : List Token} (h : wholeGroup? ts = some inner) : ts = inner ++ [")"] :=
  (closeGroup?_eq_some (wholeGroup?_eq_some.1 h)).1

theorem eq_open_of_dropWhile {tokens : List Token} {t : Token} {ts : List Token}
    (h : tokens.dropWhile (· ≠ "(") = t :: ts) : t = "(" := by
  have ht := List.head?_dropWhile_not (· ≠ "(") tokens
  rw [h] at ht
  simpa using ht

/-- The words that transfer control. -/
def Token.transferWords : List Token := ["return", "break", "continue", "goto", "comefrom"]

namespace Form

/-! ## Functions and calls -/

/-- A function is written as annotations, a type, a name and its parameters in parentheses. -/
theorem exists_of_function? {tokens : List Token} {form : Form} (h : function? tokens = some form) :
    ∃ annotations returns name inner, tokens = annotations ++ [returns, name] ++ "(" :: (inner ++ [")"]) ∧
      (∀ t ∈ annotations, t ∈ Token.functionAnnotations) ∧ returns ∈ Token.functionTypes ∧
      Token.isCallee name = true ∧ form = function returns name inner := by
  unfold function? at h
  dsimp only at h
  split at h
  · rename_i name returns annotations inner hbefore hgroup
    split at h
    · rename_i hwords
      obtain ⟨-, hannotations, hreturns, hname⟩ := hwords
      cases h
      refine ⟨annotations.reverse, returns, name, inner, ?_, ?_, List.contains_iff_mem.1 hreturns, hname, rfl⟩
      · have hopen : tokens.dropWhile (· ≠ "(") = "(" :: (inner ++ [")"]) := by
          have htail := eq_of_wholeGroup? hgroup
          cases hd : tokens.dropWhile (· ≠ "(") with
          | nil =>
            rw [hd] at htail
            exact absurd htail.symm (by simp)
          | cons t ts =>
            rw [hd, List.tail_cons] at htail
            rw [eq_open_of_dropWhile hd, htail]
        rw [List.reverse_eq_iff, List.reverse_cons, List.reverse_cons] at hbefore
        rw [← List.takeWhile_append_dropWhile (p := (· ≠ "(")) (l := tokens), hopen, hbefore]
        simp
      · intro t ht
        exact List.contains_iff_mem.1 (List.all_eq_true.1 hannotations t (List.mem_reverse.1 ht))
    · cases h
  · cases h

/-- Where a function is recognised, the first word is an annotation or a type. -/
theorem function?_eq_none_of_first {first : Token} {rest : List Token}
    (h : first ∉ Token.functionAnnotations ++ Token.functionTypes) : function? (first :: rest) = none := by
  rw [List.mem_append, not_or] at h
  cases hf : function? (first :: rest) with
  | none => rfl
  | some form =>
    obtain ⟨annotations, returns, name, inner, htokens, hannotations, hreturns, -, -⟩ := exists_of_function? hf
    cases annotations with
    | nil =>
      cases htokens
      exact absurd hreturns h.2
    | cons a annotations =>
      cases htokens
      exact absurd (hannotations first (List.mem_cons_self ..)) h.1

/-- A call is written as a name and its arguments in parentheses. -/
theorem call?_eq_some_iff {tokens : List Token} {form : Form} : call? tokens = some form ↔
    ∃ callee inner, tokens = callee :: "(" :: (inner ++ [")"]) ∧ Token.isCallee callee = true ∧
      wholeGroup? (inner ++ [")"]) = some inner ∧ form = .invoke (.read callee inner) := by
  constructor
  · intro h
    unfold call? at h
    split at h
    · rename_i callee rest
      split at h
      · rename_i hcallee
        obtain ⟨inner, hgroup, rfl⟩ := Option.map_eq_some_iff.1 h
        obtain ⟨rest, rfl⟩ := List.head?_eq_some_iff.1 hcallee.2
        rw [List.tail_cons] at hgroup
        obtain rfl := eq_of_wholeGroup? hgroup
        exact ⟨callee, inner, rfl, hcallee.1, hgroup, rfl⟩
      · cases h
    · cases h
  · rintro ⟨callee, inner, rfl, hcallee, hgroup, rfl⟩
    rw [call?, if_pos ⟨hcallee, rfl⟩, List.tail_cons, hgroup]
    rfl

/-! ## Transfers of control -/

theorem isSome_transfer?_iff {keyword : Token} {rest : List Token} :
    (transfer? keyword rest).isSome = true ↔ keyword ∈ Token.transferWords := by
  simp only [Token.transferWords, List.mem_cons, List.not_mem_nil, or_false]
  unfold transfer?
  split
  · rename_i hk
    exact ⟨fun _ => .inl hk, fun _ => rfl⟩
  split
  · rename_i hk
    exact ⟨fun _ => .inr (hk.elim .inl fun hk => .inr (.inl hk)), fun _ => rfl⟩
  split
  · rename_i hk
    split <;> exact ⟨fun _ => .inr (.inr (.inr hk)), fun _ => rfl⟩
  · simp_all

/-! ## Declarations -/

/-- The first of at most `bound` items that have a property, where as many are taken as can be. -/
theorem takeWhile_take {α : Type} {p : α → Bool} {bound : Nat} {words rest : List α} {next : α}
    (hwords : ∀ w ∈ words, p w = true) (hlength : words.length ≤ bound)
    (hnext : p next = true → words.length = bound) :
    ((words ++ next :: rest).take bound).takeWhile p = words := by
  rw [List.take_append, List.take_of_length_le hlength, List.takeWhile_append_of_pos hwords]
  cases hleft : bound - words.length with
  | zero => simp
  | succ k =>
    have hp : p next = false := Bool.eq_false_iff.2 fun hp => by have := hnext hp; omega
    rw [List.take_succ_cons, List.takeWhile_cons, hp]
    simp

theorem length_of_takeWhile_take {α : Type} {p : α → Bool} {bound : Nat} {words rest : List α} {next : α}
    (h : ((words ++ next :: rest).take bound).takeWhile p = words) (hnext : p next = true) : words.length = bound := by
  have hwords : ∀ w ∈ words, p w = true := by
    rw [← h]
    exact List.all_eq_true.1 List.all_takeWhile
  have hlength : words.length ≤ bound := by
    rw [← h]
    exact Nat.le_trans (List.takeWhile_prefix _).length_le (List.length_take_le bound _)
  by_contra hne
  obtain ⟨k, hk⟩ : ∃ k, bound - words.length = k + 1 := ⟨bound - words.length - 1, by omega⟩
  rw [List.take_append, List.take_of_length_le hlength, List.takeWhile_append_of_pos hwords, hk, List.take_succ_cons,
    List.takeWhile_cons, if_pos hnext] at h
  exact absurd h (by simp)

/-- A declaration starts with one to four words, the last of which is the type; as many words are taken as can be. -/
theorem declaration?_eq_some_iff {tokens : List Token} {form : Form} : declaration? tokens = some form ↔
    ∃ words type next rest, tokens = (words ++ [type]) ++ next :: rest ∧ words.length ≤ 3 ∧
      (∀ t ∈ words ++ [type], t ∈ Token.declarationWords) ∧ (next ∈ Token.declarationWords → words.length = 3) ∧
      form = if type = "struct" then declaration ("struct " ++ next) rest else declaration type (next :: rest) := by
  constructor
  · intro h
    unfold declaration? at h
    dsimp only at h
    split at h
    · rename_i type next rest hlast hrest
      cases h
      obtain ⟨words, hwords⟩ := List.getLast?_eq_some_iff.1 hlast
      have hprefix : words ++ [type] <+: tokens := hwords ▸ (List.takeWhile_prefix _).trans (List.take_prefix 4 tokens)
      obtain ⟨after, rfl⟩ := hprefix
      rw [hwords, List.drop_left] at hrest
      subst hrest
      have hlength : (words ++ [type]).length ≤ 4 := by
        rw [← hwords]
        exact Nat.le_trans (List.takeWhile_prefix _).length_le (List.length_take_le 4 _)
      rw [List.length_append, List.length_singleton] at hlength
      refine ⟨words, type, next, rest, rfl, by omega, fun t ht => ?_, fun hnext => ?_, rfl⟩
      · rw [← hwords] at ht
        exact List.contains_iff_mem.1 (List.all_eq_true.1 List.all_takeWhile t ht)
      · have hbound := length_of_takeWhile_take hwords (List.contains_iff_mem.2 hnext)
        rw [List.length_append, List.length_singleton] at hbound
        omega
    · cases h
  · rintro ⟨words, type, next, rest, rfl, hlength, hwords, hnext, rfl⟩
    have htake :
        (((words ++ [type]) ++ next :: rest).take 4).takeWhile Token.declarationWords.contains = words ++ [type] :=
      takeWhile_take (fun w hw => List.contains_iff_mem.2 (hwords w hw)) (by simp; omega)
        fun h => by simp [hnext (List.contains_iff_mem.1 h)]
    unfold declaration?
    dsimp only
    rw [htake, List.getLast?_concat, List.drop_left]

end Form

end WordMachine.Cflat
