/-
Laws of the label table: what a definition adds, that it keeps every address there is, and that the
names stay in strict order, so that a name has one entry and looking it up finds that entry.
-/
import WordMachine.Proofs.Result
import WordMachine.Assembly.Label
import Mathlib.Data.String.Basic

namespace WordMachine.Assembly.LabelTable

/-- The names are in strict order. -/
def Ordered (table : LabelTable) : Prop := table.Pairwise fun a b => a.1.text < b.1.text

theorem ordered_nil : Ordered [] := List.Pairwise.nil

theorem LabelName.ext {a b : LabelName} (h : a.text = b.text) : a = b := by
  cases a; cases b; simpa using h

theorem get?_cons (entry : LabelName × Address) (table : LabelTable) (name : LabelName) :
    LabelTable.get? (entry :: table) name = if name = entry.1 then some entry.2 else table.get? name := by
  obtain ⟨n, a⟩ := entry
  unfold LabelTable.get?
  rw [List.lookup_cons]
  by_cases h : name = n
  · simp [h]
  · rw [beq_eq_false_iff_ne.2 h, if_neg h]

/-! ## Looking up and inserting -/

/-- A new entry is found under its name, and every other name is found as before. -/
theorem get?_insert {table : LabelTable} {name : LabelName} {a : Address} (h : table.get? name = none)
    (n : LabelName) : (insert name a table).get? n = if n = name then some a else table.get? n := by
  induction table with
  | nil => rw [insert, get?_cons]
  | cons entry rest ih =>
    rw [get?_cons] at h
    have hne : name ≠ entry.1 := fun he => by simp [he] at h
    rw [if_neg hne] at h
    unfold insert
    split
    · rw [get?_cons]
    · rw [get?_cons, get?_cons, ih h]
      by_cases hn : n = entry.1
      · simp [hn, Ne.symm hne]
      · simp [hn]

theorem mem_insert {table : LabelTable} {name : LabelName} {a : Address} {entry : LabelName × Address} :
    entry ∈ insert name a table ↔ entry = (name, a) ∨ entry ∈ table := by
  induction table with
  | nil => simp [insert]
  | cons e rest ih =>
    unfold insert
    split
    · simp
    · rw [List.mem_cons, ih, List.mem_cons]
      tauto

theorem mem_of_get? {table : LabelTable} {name : LabelName} {a : Address} (h : table.get? name = some a) :
    (name, a) ∈ table := by
  induction table with
  | nil => cases h
  | cons entry rest ih =>
    rw [get?_cons] at h
    split at h
    · rename_i he
      cases h; subst he
      exact List.mem_cons_self ..
    · exact List.mem_cons_of_mem _ (ih h)

theorem ordered_insert {table : LabelTable} {name : LabelName} {a : Address} (ho : table.Ordered)
    (h : table.get? name = none) : Ordered (insert name a table) := by
  induction table with
  | nil => exact List.pairwise_singleton ..
  | cons entry rest ih =>
    obtain ⟨hlt, ho⟩ := List.pairwise_cons.1 ho
    rw [get?_cons] at h
    have hne : name ≠ entry.1 := fun he => by simp [he] at h
    rw [if_neg hne] at h
    unfold insert
    split
    · rename_i hl
      refine List.pairwise_cons.2 ⟨?_, List.pairwise_cons.2 ⟨hlt, ho⟩⟩
      intro e he
      rcases List.mem_cons.1 he with rfl | he
      · exact hl
      · exact lt_trans hl (hlt e he)
    · rename_i hl
      have hgt : entry.1.text < name.text :=
        lt_of_le_of_ne (not_lt.1 hl) fun he => hne (LabelName.ext he.symm)
      refine List.pairwise_cons.2 ⟨?_, ih ho h⟩
      intro e he
      rcases mem_insert.1 he with rfl | he
      · exact hgt
      · exact hlt e he

/-- In an ordered table an entry is what looking up its name gives. -/
theorem mem_iff_get? {table : LabelTable} (ho : table.Ordered) {name : LabelName} {a : Address} :
    (name, a) ∈ table ↔ table.get? name = some a := by
  refine ⟨fun h => ?_, mem_of_get?⟩
  induction table with
  | nil => cases h
  | cons entry rest ih =>
    obtain ⟨hlt, ho⟩ := List.pairwise_cons.1 ho
    rw [get?_cons]
    rcases List.mem_cons.1 h with rfl | h
    · simp
    · have hne : name ≠ entry.1 := by
        rintro rfl
        exact lt_irrefl _ (hlt (entry.1, a) h)
      rw [if_neg hne]
      exact ih ho h

/-! ## Definitions -/

/-- After a definition the name has the given address, and every other name the one it had. -/
theorem get?_define {table table' : LabelTable} {name : LabelName} {a : Address}
    (h : table.define name a = .ok table') (n : LabelName) :
    table'.get? n = if n = name then some a else table.get? n := by
  unfold define at h
  split at h
  · rename_i hn
    cases h
    exact get?_insert hn n
  · rename_i old hn
    split at h
    · rename_i ho
      cases h; subst ho
      by_cases he : n = name
      · simp [he, hn]
      · simp [he]
    · cases h

/-- A definition keeps every address that the table has. -/
theorem get?_define_of_get? {table table' : LabelTable} {name n : LabelName} {a b : Address}
    (h : table.define name a = .ok table') (hn : table.get? n = some b) : table'.get? n = some b := by
  rw [get?_define h]
  unfold define at h
  by_cases he : n = name
  · subst he
    rw [hn] at h
    dsimp only at h
    split at h
    · rename_i ho; simp [ho]
    · cases h
  · rw [if_neg he, hn]

theorem ordered_define {table table' : LabelTable} {name : LabelName} {a : Address}
    (ho : table.Ordered) (h : table.define name a = .ok table') : table'.Ordered := by
  unfold define at h
  split at h
  · rename_i hn
    cases h
    exact ordered_insert ho hn
  · split at h
    · cases h; exact ho
    · cases h

theorem confirm_eq_ok {table : LabelTable} {name : LabelName} {a : Address}
    (h : table.get? name = some a) : table.confirm name a = .ok () := by
  unfold confirm
  rw [h]
  simp

theorem get?_of_confirm {table : LabelTable} {name : LabelName} {a : Address}
    (h : table.confirm name a = .ok ()) : table.get? name = some a := by
  unfold confirm at h
  split at h
  · cases h
  · rename_i old hold
    split at h
    · rename_i heq
      rw [hold, heq]
    · cases h

end WordMachine.Assembly.LabelTable
