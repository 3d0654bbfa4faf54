/-
The texts of a pattern. Matching a pattern against the beginning of a text leaves exactly what may follow a text of the
pattern.
-/
import WordMachine.Text.Pattern
import Mathlib.Data.List.Basic

namespace WordMachine.Text.Pattern

/-- The text has the pattern. -/
def Matches : Pattern → List Char → Prop
  | .one isMember, cs => ∃ c, cs = [c] ∧ isMember c = true
  | .many isMember, cs => ∀ c ∈ cs, isMember c = true
  | .seq first second, cs => ∃ xs ys, cs = xs ++ ys ∧ first.Matches xs ∧ second.Matches ys
  | .either first second, cs => first.Matches cs ∨ second.Matches cs
  | .optional inner, cs => cs = [] ∨ inner.Matches cs

variable {isMember : Char → Bool} {p : Pattern} {cs rest : List Char}

theorem mem_afterMany :
    rest ∈ afterMany isMember cs ↔ ∃ front, cs = front ++ rest ∧ ∀ c ∈ front, isMember c = true := by
  induction cs with
  | nil =>
    rw [afterMany, List.mem_singleton]
    constructor
    · rintro rfl
      exact ⟨[], rfl, List.forall_mem_nil _⟩
    · rintro ⟨front, hcs, -⟩
      exact (List.append_eq_nil_iff.1 hcs.symm).2
  | cons c cs ih =>
    -- either nothing is taken, or the first character and what is taken from the rest
    have hsplit : (∃ front, c :: cs = front ++ rest ∧ ∀ d ∈ front, isMember d = true) ↔
        rest = c :: cs ∨ isMember c = true ∧ ∃ front, cs = front ++ rest ∧ ∀ d ∈ front, isMember d = true := by
      constructor
      · rintro ⟨front, hcs, hfront⟩
        cases front with
        | nil => exact .inl hcs.symm
        | cons d front =>
          rw [List.cons_append, List.cons.injEq] at hcs
          obtain ⟨rfl, rfl⟩ := hcs
          exact .inr ⟨hfront c (List.mem_cons_self ..), front, rfl, fun d hd => hfront d (List.mem_cons_of_mem _ hd)⟩
      · rintro (rfl | ⟨hc, front, rfl, hfront⟩)
        · exact ⟨[], rfl, List.forall_mem_nil _⟩
        · exact ⟨c :: front, rfl, List.forall_mem_cons.2 ⟨hc, hfront⟩⟩
    rw [hsplit, afterMany]
    by_cases hc : isMember c = true
    · rw [if_pos hc, List.mem_append, List.mem_singleton, ih, or_comm, and_iff_right hc]
    · rw [if_neg hc, List.mem_singleton]
      exact ⟨.inl, fun h => h.resolve_right fun hmember => hc hmember.1⟩

/-- What is left after the beginnings of a text that have the pattern. -/
theorem mem_rests : rest ∈ p.rests cs ↔ ∃ front, cs = front ++ rest ∧ p.Matches front := by
  induction p generalizing cs rest with
  | one isMember =>
    cases cs with
    | nil =>
      simp only [rests, List.not_mem_nil, Matches, false_iff]
      rintro ⟨front, hcs, c, rfl, -⟩
      cases hcs
    | cons d cs =>
      simp only [rests, List.mem_ite_nil_right, List.mem_singleton, Matches]
      constructor
      · rintro ⟨hd, rfl⟩
        exact ⟨[d], rfl, d, rfl, hd⟩
      · rintro ⟨front, hcs, c, rfl, hc⟩
        cases hcs
        exact ⟨hc, rfl⟩
  | many isMember => exact mem_afterMany
  | seq first second ihfirst ihsecond =>
    simp only [rests, List.mem_flatMap, ihfirst, ihsecond, Matches]
    constructor
    · rintro ⟨middle, ⟨xs, rfl, hxs⟩, ys, rfl, hys⟩
      exact ⟨xs ++ ys, (List.append_assoc ..).symm, xs, ys, rfl, hxs, hys⟩
    · rintro ⟨front, rfl, xs, ys, rfl, hxs, hys⟩
      exact ⟨ys ++ rest, ⟨xs, List.append_assoc .., hxs⟩, ys, rfl, hys⟩
  | either first second ihfirst ihsecond =>
    simp only [rests, List.mem_append, ihfirst, ihsecond, Matches, and_or_left, exists_or]
  | optional inner ih =>
    simp only [rests, List.mem_append, List.mem_singleton, ih, Matches]
    constructor
    · rintro (⟨front, rfl, hfront⟩ | rfl)
      · exact ⟨front, rfl, .inr hfront⟩
      · exact ⟨[], rfl, .inl rfl⟩
    · rintro ⟨front, rfl, rfl | hfront⟩
      · exact .inr rfl
      · exact .inl ⟨front, rfl, hfront⟩

theorem covers_iff : p.covers cs = true ↔ p.Matches cs := by
  simp [covers, mem_rests]

theorem matches_seq_one :
    (seq (one isMember) p).Matches cs ↔ ∃ c ds, cs = c :: ds ∧ isMember c = true ∧ p.Matches ds := by
  constructor
  · rintro ⟨xs, ds, rfl, ⟨c, rfl, hc⟩, hds⟩
    exact ⟨c, ds, rfl, hc, hds⟩
  · rintro ⟨c, ds, rfl, hc, hds⟩
    exact ⟨[c], ds, rfl, ⟨c, rfl, hc⟩, hds⟩

theorem matches_run : (run isMember).Matches cs ↔ cs ≠ [] ∧ ∀ c ∈ cs, isMember c = true := by
  rw [run, matches_seq_one]
  constructor
  · rintro ⟨c, ds, rfl, hc, hds⟩
    exact ⟨List.cons_ne_nil c ds, List.forall_mem_cons.2 ⟨hc, hds⟩⟩
  · rintro ⟨hne, hcs⟩
    obtain ⟨c, ds, rfl⟩ := List.exists_cons_of_ne_nil hne
    obtain ⟨hc, hds⟩ := List.forall_mem_cons.1 hcs
    exact ⟨c, ds, rfl, hc, hds⟩

end WordMachine.Text.Pattern
