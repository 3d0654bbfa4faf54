/-
Lists that are read item by item, where each reading may fail, and two computations compared by their outcome.
Proofs about the passes of the assembler, the scanner and the tree builder take computations apart with these
laws and those of a sequence of two, and open no monad.
-/
import WordMachine.Assembly.Error
import WordMachine.Result
import Mathlib.Data.List.Forall2

namespace WordMachine

variable {ε α β : Type}

/-! ## Lists -/

/-- Reading a list item by item succeeds with the results of the items. -/
theorem mapM_eq_ok {f : α → Except ε β} : ∀ {xs : List α} {ys : List β},
    xs.mapM f = .ok ys ↔ List.Forall₂ (fun x y => f x = .ok y) xs ys
  | [], ys => by
    rw [List.mapM_nil, List.forall₂_nil_left_iff]
    exact ⟨fun h => by cases h; rfl, fun h => by cases h; rfl⟩
  | x :: xs, ys => by
    rw [List.mapM_cons, bind_eq_ok]
    constructor
    · rintro ⟨y, hy, h⟩
      obtain ⟨ys', hys, h⟩ := bind_eq_ok.1 h
      cases h
      exact .cons hy (mapM_eq_ok.1 hys)
    · rintro (_ | ⟨hy, hys⟩)
      exact ⟨_, hy, bind_eq_ok.2 ⟨_, mapM_eq_ok.2 hys, rfl⟩⟩

/-- A result of reading a list item by item is the result of an item. -/
theorem mem_of_mapM_eq_ok {f : α → Except ε β} {xs : List α} {ys : List β} {y : β} (h : xs.mapM f = .ok ys)
    (hy : y ∈ ys) : ∃ x ∈ xs, f x = .ok y := by
  replace h := mapM_eq_ok.1 h
  induction h with
  | nil => cases hy
  | @cons x _ xs _ hx _ ih =>
    rcases List.mem_cons.1 hy with rfl | hy
    · exact ⟨x, List.mem_cons_self .., hx⟩
    · obtain ⟨x', hx', hy⟩ := ih hy
      exact ⟨x', List.mem_cons_of_mem _ hx', hy⟩

/-- If a list is read item by item, each of the items is. -/
theorem exists_of_mapM_eq_ok {f : α → Except ε β} {xs : List α} {ys : List β} {x : α} (h : xs.mapM f = .ok ys)
    (hx : x ∈ xs) : ∃ y, f x = .ok y := by
  replace h := mapM_eq_ok.1 h
  induction h with
  | nil => cases hx
  | @cons _ y xs _ hy _ ih =>
    rcases List.mem_cons.1 hx with rfl | hx
    · exact ⟨y, hy⟩
    · exact ih hx

/-- An error in reading a list item by item is the error of an item. -/
theorem mem_of_mapM_eq_error {f : α → Except ε β} {e : ε} : ∀ {xs : List α},
    xs.mapM f = .error e → ∃ x ∈ xs, f x = .error e
  | [], h => nomatch h
  | x :: xs, h => by
    rw [List.mapM_cons] at h
    rcases bind_eq_error.1 h with h | ⟨y, -, h⟩
    · exact ⟨x, List.mem_cons_self .., h⟩
    · rcases bind_eq_error.1 h with h | ⟨ys, -, h⟩
      · obtain ⟨x', hx, h⟩ := mem_of_mapM_eq_error h
        exact ⟨x', List.mem_cons_of_mem _ hx, h⟩
      · cases h

/-! ## Outcomes -/

/-- Both computations succeed with values in `R`, or both fail with errors in `E`. -/
inductive SameOutcome (E : ε → ε → Prop) (R : α → α → Prop) : Except ε α → Except ε α → Prop where
  | ok {a b : α} (h : R a b) : SameOutcome E R (.ok a) (.ok b)
  | error {e e' : ε} (h : E e e') : SameOutcome E R (.error e) (.error e')

namespace SameOutcome

variable {E : ε → ε → Prop} {R : α → α → Prop} {S : β → β → Prop}

theorem of_eq {x : Except ε α} (hE : ∀ e, E e e) : SameOutcome E (· = ·) x x := by
  cases x with
  | ok a => exact .ok rfl
  | error e => exact .error (hE e)

theorem exists_ok {x y : Except ε α} {a : α} (h : SameOutcome E R x y) (hx : x = .ok a) : ∃ b, y = .ok b ∧ R a b := by
  subst hx
  cases h with
  | ok h => exact ⟨_, rfl, h⟩

theorem exists_error {x y : Except ε α} {e : ε} (h : SameOutcome E R x y) (hx : x = .error e) :
    ∃ e', y = .error e' ∧ E e e' := by
  subst hx
  cases h with
  | error h => exact ⟨_, rfl, h⟩

theorem bind {x y : Except ε α} {f g : α → Except ε β} (h : SameOutcome E R x y)
    (hf : ∀ a b, R a b → SameOutcome E S (f a) (g b)) : SameOutcome E S (x >>= f) (y >>= g) := by
  cases h with
  | ok h => exact hf _ _ h
  | error h => exact .error h

theorem imp {S : α → α → Prop} {x y : Except ε α} (h : SameOutcome E R x y) (hR : ∀ a b, R a b → S a b) :
    SameOutcome E S x y := by
  cases h with
  | ok h => exact .ok (hR _ _ h)
  | error h => exact .error h

theorem map {x y : Except ε α} {f g : α → β} (h : SameOutcome E R x y) (hf : ∀ a b, R a b → S (f a) (g b)) :
    SameOutcome E S (x.map f) (y.map g) := by
  cases h with
  | ok h => exact .ok (hf _ _ h)
  | error h => exact .error h

theorem mapM {γ : Type} {P : γ → γ → Prop} {f : γ → Except ε α} {xs ys : List γ} (h : List.Forall₂ P xs ys)
    (hf : ∀ x y, P x y → SameOutcome E R (f x) (f y)) :
    SameOutcome E (List.Forall₂ R) (xs.mapM f) (ys.mapM f) := by
  induction h with
  | nil => exact .ok .nil
  | cons hxy _ ih =>
    rw [List.mapM_cons, List.mapM_cons]
    refine (hf _ _ hxy).bind fun a b hab => ih.bind fun as bs habs => ?_
    exact .ok (.cons hab habs)

end SameOutcome

namespace Assembly

theorem atLine_eq_ok {line : Nat} {x : Except Fault α} {a : α} : atLine line x = .ok a ↔ x = .ok a := by
  cases x <;> simp [atLine]

/-- An error on a line is a fault on that line. -/
theorem atLine_eq_error {line : Nat} {x : Except Fault α} {e : Error} :
    atLine line x = .error e ↔ e.line = line ∧ x = .error e.fault := by
  cases x with
  | ok a => simp [atLine]
  | error fault =>
    cases e with
    | mk l f => simp [atLine, eq_comm]

end Assembly

end WordMachine
