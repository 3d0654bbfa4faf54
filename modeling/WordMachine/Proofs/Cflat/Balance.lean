/-
Lists of tokens whose parentheses match. The end of a group is found after any such list, and a list
is divided into parts only at separators outside of its parentheses.
-/
import WordMachine.Cflat.Group

namespace WordMachine.Cflat

/-! ## One token -/

theorem closeGroup?_open (depth : Nat) (ts : List Token) :
    closeGroup? depth ("(" :: ts) = (closeGroup? (depth + 1) ts).map fun q => ("(" :: q.1, q.2) := by
  rw [closeGroup?.eq_def]; rfl

theorem closeGroup?_close_zero (ts : List Token) : closeGroup? 0 (")" :: ts) = some ([], ts) := by
  rw [closeGroup?.eq_def]; rfl

theorem closeGroup?_close_succ (depth : Nat) (ts : List Token) :
    closeGroup? (depth + 1) (")" :: ts) = (closeGroup? depth ts).map fun q => (")" :: q.1, q.2) := by
  rw [closeGroup?.eq_def]; rfl

theorem closeGroup?_token {t : Token} (ho : t ≠ "(") (hc : t ≠ ")") (depth : Nat) (ts : List Token) :
    closeGroup? depth (t :: ts) = (closeGroup? depth ts).map fun q => (t :: q.1, q.2) := by
  rw [closeGroup?.eq_def]
  dsimp only
  rw [if_neg ho, if_neg hc]

theorem splitTop_open (separator : Token) (depth : Nat) (ts : List Token) :
    splitTop separator depth ("(" :: ts) =
      ("(" :: (splitTop separator (depth + 1) ts).1, (splitTop separator (depth + 1) ts).2) := by
  rw [splitTop, if_neg (by simp)]; rfl

theorem splitTop_close (separator : Token) (depth : Nat) (ts : List Token) :
    splitTop separator (depth + 1) (")" :: ts) =
      (")" :: (splitTop separator depth ts).1, (splitTop separator depth ts).2) := by
  rw [splitTop, if_neg (by simp)]; rfl

theorem splitTop_token {separator t : Token} (ho : t ≠ "(") (hc : t ≠ ")") {depth : Nat} {ts : List Token}
    (h : t ≠ separator ∨ 0 < depth) :
    splitTop separator depth (t :: ts) =
      (t :: (splitTop separator depth ts).1, (splitTop separator depth ts).2) := by
  rw [splitTop, nextDepth, if_neg ho, if_neg hc, if_neg]
  rintro ⟨hs, hd, -⟩
  rcases h with h | h
  · exact h hs
  · omega

theorem splitTop_separator {separator : Token} (ho : separator ≠ "(") (hc : separator ≠ ")") (ts : List Token) :
    splitTop separator 0 (separator :: ts) = ([], parts separator ts) := by
  rw [splitTop, nextDepth, if_neg ho, if_neg hc, if_pos ⟨rfl, rfl, ho, hc⟩]
  rfl

/-- The parentheses of the list match, and `p` holds of the tokens outside of them. -/
inductive Balanced : (Token → Prop) → List Token → Prop
  | nil {p : Token → Prop} : Balanced p []
  | token {p : Token → Prop} {t : Token} {ts : List Token} (ho : t ≠ "(") (hc : t ≠ ")") (hp : p t)
      (h : Balanced p ts) : Balanced p (t :: ts)
  | group {p : Token → Prop} {inner ts : List Token} (hi : Balanced (fun _ => True) inner)
      (h : Balanced p ts) : Balanced p ("(" :: (inner ++ ")" :: ts))

namespace Balanced

variable {p : Token → Prop} {ts ts' : List Token}

theorem append (h : Balanced p ts) (h' : Balanced p ts') : Balanced p (ts ++ ts') := by
  induction h with
  | nil => exact h'
  | token ho hc hp _ ih => exact .token ho hc hp (ih h')
  | @group _ inner ts hi _ _ ih =>
    have := Balanced.group hi (ih h')
    rwa [List.cons_append, List.append_assoc, List.cons_append]

theorem mono {q : Token → Prop} (h : Balanced p ts) (hpq : ∀ t, p t → q t) : Balanced q ts := by
  induction h with
  | nil => exact .nil
  | token ho hc hp _ ih => exact .token ho hc (hpq _ hp) (ih hpq)
  | group hi _ _ ih => exact .group hi (ih hpq)

/-! ## The end of a group -/

theorem closeGroup?_append (h : Balanced p ts) : ∀ (depth : Nat) (rest : List Token),
    closeGroup? depth (ts ++ rest) = (closeGroup? depth rest).map fun q => (ts ++ q.1, q.2) := by
  induction h with
  | nil => intro depth rest; simp
  | token ho hc _ _ ih =>
    intro depth rest
    rw [List.cons_append, closeGroup?_token ho hc, ih, Option.map_map]
    rfl
  | group _ _ ihi ih =>
    intro depth rest
    rw [List.cons_append, List.append_assoc, List.cons_append, closeGroup?_open, ihi, closeGroup?_close_succ, ih,
      Option.map_map, Option.map_map, Option.map_map]
    congr 1
    funext q
    simp

/-- A group ends after a balanced list. -/
theorem closeGroup?_close (h : Balanced p ts) (rest : List Token) :
    closeGroup? 0 (ts ++ ")" :: rest) = some (ts, rest) := by
  rw [h.closeGroup?_append, closeGroup?_close_zero, Option.map_some, List.append_nil]

/-! ## Parts -/

variable {separator : Token}

/-- Inside of parentheses nothing is divided. -/
theorem splitTop_inside (h : Balanced p ts) : ∀ (depth : Nat) (rest : List Token),
    splitTop separator (depth + 1) (ts ++ rest) =
      (ts ++ (splitTop separator (depth + 1) rest).1, (splitTop separator (depth + 1) rest).2) := by
  induction h with
  | nil => intro depth rest; rfl
  | token ho hc _ _ ih =>
    intro depth rest
    rw [List.cons_append, splitTop_token ho hc (.inr (Nat.succ_pos depth)), ih]
    rfl
  | group _ _ ihi ih =>
    intro depth rest
    rw [List.cons_append, List.append_assoc, List.cons_append, splitTop_open, ihi, splitTop_close, ih]
    simp

/-- A list without the separator outside of its parentheses stays in one part. -/
theorem splitTop_append (h : Balanced p ts) (hp : ∀ t, p t → t ≠ separator) : ∀ rest : List Token,
    splitTop separator 0 (ts ++ rest) =
      (ts ++ (splitTop separator 0 rest).1, (splitTop separator 0 rest).2) := by
  induction h with
  | nil => intro rest; rfl
  | token ho hc ht _ ih =>
    intro rest
    rw [List.cons_append, splitTop_token ho hc (.inl (hp _ ht)), ih hp]
    rfl
  | group hi _ _ ih =>
    intro rest
    rw [List.cons_append, List.append_assoc, List.cons_append, splitTop_open, hi.splitTop_inside, splitTop_close,
      ih hp]
    simp

end Balanced

/-- A list without the separator outside of its parentheses is its only part. -/
theorem Balanced.parts_eq {separator : Token} {ts : List Token} (h : Balanced (· ≠ separator) ts) :
    parts separator ts = [ts] := by
  have hts := h.splitTop_append (fun _ h => h) []
  rw [List.append_nil] at hts
  rw [parts, hts]
  simp [splitTop]

/-- A separator after matching parentheses divides the list. -/
theorem Balanced.parts_append {p : Token → Prop} {separator : Token} {ts : List Token} (h : Balanced p ts)
    (hopen : separator ≠ "(") (hclose : separator ≠ ")") (rest : List Token) :
    parts separator (ts ++ separator :: rest) = parts separator ts ++ parts separator rest := by
  suffices hsplit : splitTop separator 0 (ts ++ separator :: rest) =
      ((splitTop separator 0 ts).1, (splitTop separator 0 ts).2 ++ parts separator rest) by
    rw [parts, hsplit]
    rfl
  induction h with
  | nil => exact splitTop_separator hopen hclose rest
  | @token _ t ts ho hc _ _ ih =>
    rw [List.cons_append]
    by_cases ht : t = separator
    · rw [ht, splitTop_separator hopen hclose, splitTop_separator hopen hclose, parts, ih]
      rfl
    · rw [splitTop_token ho hc (.inl ht), splitTop_token ho hc (.inl ht), ih]
  | group hi _ _ ih =>
    rw [List.cons_append, List.append_assoc, List.cons_append, splitTop_open, splitTop_open, hi.splitTop_inside,
      hi.splitTop_inside, splitTop_close, splitTop_close, ih]

/-- Lists set apart by a separator are the parts again. -/
theorem parts_intercalate {separator : Token} (ho : separator ≠ "(") (hc : separator ≠ ")") :
    ∀ {ts : List Token} {tss : List (List Token)}, (∀ us ∈ ts :: tss, Balanced (· ≠ separator) us) →
    parts separator ([separator].intercalate (ts :: tss)) = ts :: tss
  | ts, [], h => by
    rw [List.intercalate_singleton]
    exact (h ts (List.mem_cons_self ..)).parts_eq
  | ts, us :: tss, h => by
    have ih := parts_intercalate ho hc fun vs hvs => h vs (List.mem_cons_of_mem _ hvs)
    have hts := h ts (List.mem_cons_self ..)
    rw [List.intercalate_cons_cons, List.append_assoc, List.singleton_append, hts.parts_append ho hc, hts.parts_eq, ih]
    rfl

/-! ## Groups and parts that were found -/

/-- A group ends at a closing parenthesis. What stands before it starts with no closing parenthesis of the
same group and does not end in an opening one. -/
theorem closeGroup?_eq_some {depth : Nat} {ts inner rest : List Token} (h : closeGroup? depth ts = some (inner, rest)) :
    ts = inner ++ ")" :: rest ∧ inner.getLast? ≠ some "(" ∧ (inner = [] → depth = 0) ∧
      (depth = 0 → inner.head? ≠ some ")") := by
  induction ts generalizing depth inner with
  | nil => cases h
  | cons t ts ih =>
    have step {d : Nat} (h : (closeGroup? d ts).map (fun p => (t :: p.1, p.2)) = some (inner, rest))
        (hd : t = "(" → d ≠ 0) (hc : t = ")" → depth ≠ 0) : t :: ts = inner ++ ")" :: rest ∧
        inner.getLast? ≠ some "(" ∧ (inner = [] → depth = 0) ∧ (depth = 0 → inner.head? ≠ some ")") := by
      obtain ⟨⟨inner', rest'⟩, hp, he⟩ := Option.map_eq_some_iff.1 h
      cases he
      obtain ⟨rfl, hlast, hnil, -⟩ := ih hp
      refine ⟨rfl, ?_, fun h => (by cases h), fun hz h => hc (Option.some.inj h) hz⟩
      cases inner' with
      | nil => exact fun h => hd (Option.some.inj h) (hnil rfl)
      | cons u us => rwa [List.getLast?_cons_cons]
    unfold closeGroup? at h
    split at h
    · subst t
      exact step h (fun _ => Nat.succ_ne_zero depth) fun h => absurd h (by decide)
    · rename_i hopen
      split at h
      · subst t
        split at h
        · cases h
          simp
        · exact step h (fun h => absurd h hopen) fun _ => Nat.succ_ne_zero _
      · rename_i hclose
        exact step h (fun h => absurd h hopen) fun h => absurd h hclose

/-- A part is not divided any further. -/
theorem splitTop_parts (separator : Token) (depth : Nat) (ts : List Token) :
    (splitTop separator depth (splitTop separator depth ts).1).2 = [] ∧
      ∀ part ∈ (splitTop separator depth ts).2, (splitTop separator 0 part).2 = [] := by
  induction ts generalizing depth with
  | nil => exact ⟨rfl, fun _ h => by cases h⟩
  | cons t ts ih =>
    obtain ⟨hfirst, hrest⟩ := ih (nextDepth depth t)
    simp only [splitTop]
    split
    · rename_i h
      obtain ⟨-, rfl, hopen, hclose⟩ := h
      have hdepth : nextDepth 0 t = 0 := by rw [nextDepth, if_neg hopen, if_neg hclose]
      rw [hdepth] at hfirst hrest ⊢
      refine ⟨rfl, fun part hpart => ?_⟩
      rcases List.mem_cons.1 hpart with rfl | hpart
      · exact hfirst
      · exact hrest part hpart
    · rename_i h
      refine ⟨?_, hrest⟩
      rw [splitTop, if_neg h]
      exact hfirst

theorem splitTop_of_mem_parts {separator : Token} {ts part : List Token} (h : part ∈ parts separator ts) :
    (splitTop separator 0 part).2 = [] := by
  obtain ⟨hfirst, hothers⟩ := splitTop_parts separator 0 ts
  rcases List.mem_cons.1 h with rfl | h
  · exact hfirst
  · exact hothers part h

theorem mem_of_mem_part {separator t : Token} {ts part : List Token} (h : part ∈ parts separator ts) (ht : t ∈ part) :
    t ∈ ts := by
  rw [← splitTop_join separator 0 ts, List.mem_append]
  rcases List.mem_cons.1 h with rfl | h
  · exact .inl ht
  · exact .inr (List.mem_flatMap.2 ⟨part, h, List.mem_cons_of_mem _ ht⟩)

theorem intercalate_eq_separated (separator : Token) (first : List Token) : ∀ others : List (List Token),
    [separator].intercalate (first :: others) = first ++ separated separator others
  | [] => by simp [separated]
  | part :: others => by
    rw [List.intercalate_cons_cons, intercalate_eq_separated separator part others]
    simp [separated]

/-- The separator joins the parts to the list again. -/
theorem intercalate_parts (separator : Token) (ts : List Token) :
    [separator].intercalate (parts separator ts) = ts :=
  (intercalate_eq_separated separator _ _).trans (splitTop_join separator 0 ts)

theorem Balanced.splitTop_ne_nil {p : Token → Prop} {separator : Token} {ts : List Token} (h : Balanced p ts)
    (hopen : separator ≠ "(") (hclose : separator ≠ ")") (rest : List Token) :
    (splitTop separator 0 (ts ++ separator :: rest)).2 ≠ [] := by
  have hparts := h.parts_append hopen hclose rest
  rw [parts, parts, List.cons_append, List.cons.injEq] at hparts
  rw [hparts.2]
  exact List.append_ne_nil_of_right_ne_nil _ (List.cons_ne_nil _ _)

end WordMachine.Cflat
