/-
The names of instructions. A name is a primitive's followed by the suffix of a condition, or a jump's,
and it can be taken apart in one way only: so every name has the pattern of its primitive with the
bits of its condition. A pattern reads back as the first name that has it.
-/
import WordMachine.Instruction
import Mathlib.Data.List.Nodup

namespace WordMachine

theorem Condition.mem_all (c : Condition) : c ∈ all := by cases c <;> decide

theorem JumpCondition.mem_all (j : JumpCondition) : j ∈ all := by cases j <;> decide

namespace Mnemonic

/-! ## The table -/

theorem primitives_nodup : (primitives.map (·.1)).Nodup := by decide +kernel

/-- The names of primitives are in capital letters, and no `J` starts them. -/
theorem primitives_letters : ∀ r ∈ primitives,
    r.1.toList.all (fun c => Text.upperChar c = [c]) = true ∧ r.1.toList ≠ [] ∧ r.1.toList.head? ≠ some 'J' := by
  -- `all` and no quantifier over characters, which might be decided for every character there is
  decide +kernel

/-- No primitive ends like a condition, and none is another one with an `N` after it. -/
theorem primitives_end : ∀ r ∈ primitives,
    (∀ c ∈ Condition.all, c.suffix.toList <:+ r.1.toList → c = .always) ∧
      (r.1.toList.getLast? = some 'N' → ∀ r' ∈ primitives, r'.1.toList ≠ r.1.toList.dropLast) := by
  decide +kernel

theorem upperChar_suffix (c : Condition) : ∀ x ∈ c.suffix.toList, Text.upperChar x = [x] := by
  have h : c.suffix.toList.all (fun x => Text.upperChar x = [x]) = true := by cases c <;> rfl
  exact fun x hx => of_decide_eq_true (List.all_eq_true.1 h x hx)

theorem upper_jump (j : JumpCondition) : Text.upper j.mnemonic = j.mnemonic := by cases j <;> rfl

theorem head?_jump (j : JumpCondition) : j.mnemonic.toList.head? = some 'J' := by cases j <;> rfl

/-! ## Names are unambiguous -/

variable {r r' : String × Word} {c c' : Condition}

/-- A name with a condition and a name without one differ. -/
theorem eq_always (hr : r ∈ primitives) (h : r.1.toList = r'.1.toList ++ c.suffix.toList) : c = .always :=
  (primitives_end r hr).1 c c.mem_all ⟨r'.1.toList, h.symm⟩

theorem ne_append_n (hr : r ∈ primitives) (hr' : r' ∈ primitives) : r.1.toList ≠ r'.1.toList ++ ['N'] := by
  intro h
  refine (primitives_end r hr).2 (by rw [h, List.getLast?_concat]) r' hr' ?_
  rw [h, List.dropLast_concat]

/-- The last letters of two conditions differ, but for those of `Z` and `NZ`. -/
theorem last_letter : ∀ c c' : Condition, c ≠ c' → c ≠ .always → c' ≠ .always →
    c.suffix.toList.getLast? = c'.suffix.toList.getLast? →
    c = .zero ∧ c' = .notZero ∨ c = .notZero ∧ c' = .zero := by
  intro c c'
  cases c <;> cases c' <;> decide

theorem isSome_last (hc : c ≠ .always) : c.suffix.toList.getLast?.isSome = true := by
  cases c with
  | always => exact absurd rfl hc
  | _ => rfl

/-- A name is taken apart in one way only. -/
theorem eq_of_name_eq (hr : r ∈ primitives) (hr' : r' ∈ primitives)
    (h : r.1 ++ c.suffix = r'.1 ++ c'.suffix) : r = r' ∧ c = c' := by
  have hl : r.1.toList ++ c.suffix.toList = r'.1.toList ++ c'.suffix.toList := by
    rw [← String.toList_append, h, String.toList_append]
  by_cases hc : c = c'
  · subst hc
    exact ⟨List.inj_on_of_nodup_map primitives_nodup hr hr' (String.toList_inj.1 (List.append_cancel_right hl)), rfl⟩
  · exfalso
    have hn : c ≠ .always := by
      rintro rfl
      exact hc (eq_always hr ((List.append_nil _).symm.trans hl)).symm
    have hn' : c' ≠ .always := by
      rintro rfl
      exact hc (eq_always hr' ((List.append_nil _).symm.trans hl.symm))
    have hlast := congrArg List.getLast? hl
    rw [List.getLast?_append, List.getLast?_append, Option.or_of_isSome (isSome_last hn),
      Option.or_of_isSome (isSome_last hn')] at hlast
    rcases last_letter c c' hc hn hn' hlast with ⟨rfl, rfl⟩ | ⟨rfl, rfl⟩
    · have hz : r.1.toList ++ ['Z'] = (r'.1.toList ++ ['N']) ++ ['Z'] := by simpa [Condition.suffix] using hl
      exact ne_append_n hr hr' (List.append_cancel_right hz)
    · have hz : (r.1.toList ++ ['N']) ++ ['Z'] = r'.1.toList ++ ['Z'] := by simpa [Condition.suffix] using hl
      exact ne_append_n hr' hr (List.append_cancel_right hz).symm

/-! ## Patterns of names -/

/-- The names with their patterns. -/
inductive Entry : String → Word → Prop
  | jump (j : JumpCondition) : Entry j.mnemonic j.bits
  | primitive {r : String × Word} (hr : r ∈ primitives) (c : Condition) : Entry (r.1 ++ c.suffix) (r.2 ||| c.bits)

theorem mem_table {name : String} {w : Word} : (name, w) ∈ table ↔ Entry name w := by
  simp only [table, jumps, List.mem_append, List.mem_map, List.mem_flatMap, Prod.mk.injEq]
  constructor
  · rintro (⟨j, -, rfl, rfl⟩ | ⟨c, -, r, hr, rfl, rfl⟩)
    · exact .jump j
    · exact .primitive hr c
  · rintro (j | ⟨hr, c⟩)
    · exact .inl ⟨j, j.mem_all, rfl, rfl⟩
    · exact .inr ⟨c, c.mem_all, _, hr, rfl, rfl⟩

/-- No primitive under any condition has the name of a jump. -/
theorem jump_ne_primitive (j : JumpCondition) (hr : r ∈ primitives) : j.mnemonic ≠ r.1 ++ c.suffix := by
  intro h
  obtain ⟨-, hnil, hj⟩ := primitives_letters r hr
  have hhead := head?_jump j
  rw [h, String.toList_append, List.head?_append_of_ne_nil _ hnil] at hhead
  exact hj hhead

theorem Entry.unique {name : String} {w w' : Word} (h : Entry name w) (h' : Entry name w') : w = w' := by
  generalize hn : name = name' at h'
  cases h with
  | jump j =>
    cases h' with
    | jump j' =>
      have : j = j' := by revert hn; cases j <;> cases j' <;> decide +kernel
      rw [this]
    | primitive hr c => exact absurd hn (jump_ne_primitive j hr)
  | primitive hr c =>
    cases h' with
    | jump j' => exact absurd hn.symm (jump_ne_primitive j' hr)
    | primitive hr' c' =>
      obtain ⟨rfl, rfl⟩ := eq_of_name_eq hr hr' hn
      rfl

theorem entry_of_lookup {name : String} {w : Word} (h : table.lookup name = some w) : Entry name w := by
  obtain ⟨before, after, htable, -⟩ := List.lookup_eq_some_iff.1 h
  refine mem_table.1 ?_
  rw [htable]
  simp

theorem lookup_table {name : String} {w : Word} : table.lookup name = some w ↔ Entry name w := by
  refine ⟨entry_of_lookup, fun h => ?_⟩
  have hsome : (table.lookup name).isSome := List.lookup_isSome_iff.2 ⟨_, mem_table.2 h, beq_self_eq_true _⟩
  obtain ⟨w', hw'⟩ := Option.isSome_iff_exists.1 hsome
  rw [hw', h.unique (entry_of_lookup hw')]

/-- Names are written in capital letters. -/
theorem Entry.upper {name : String} {w : Word} (h : Entry name w) : Text.upper name = name := by
  cases h with
  | jump j => exact upper_jump j
  | @primitive r hr c =>
    have hchars : ∀ x ∈ r.1.toList ++ c.suffix.toList, Text.upperChar x = [x] := by
      intro x hx
      rcases List.mem_append.1 hx with hx | hx
      · exact of_decide_eq_true (List.all_eq_true.1 (primitives_letters r hr).1 x hx)
      · exact upperChar_suffix c x hx
    rw [Text.upper, String.toList_append, List.flatMap_congr hchars, List.flatMap_singleton', ← String.toList_append,
      String.ofList_toList]

theorem pattern?_eq_some {name : String} {w : Word} : pattern? name = some w ↔ Entry (Text.upper name) w :=
  lookup_table

theorem Entry.pattern? {name : String} {w : Word} (h : Entry name w) : Mnemonic.pattern? name = some w := by
  rw [pattern?_eq_some, h.upper]
  exact h

end Mnemonic
end WordMachine
