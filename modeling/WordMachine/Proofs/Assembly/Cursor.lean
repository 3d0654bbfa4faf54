/-
The first walk over the statements. `Cursor.Step` says all that laying out one statement does: where
its bytes start, after the jump before it, how many there are, and which name is defined there. What
holds of a whole walk is derived from this.
-/
import WordMachine.Proofs.Assembly.Contribution
import WordMachine.Proofs.Assembly.LabelTable

namespace WordMachine.Assembly

/-! ## Addresses -/

theorem toNat_add_of_lt {a : Address} {n : Nat} (h : a.toNat + n < 2 ^ 32) :
    (a + n.toUInt32).toNat = a.toNat + n := by
  rw [UInt32.toNat_add]
  simp only [Nat.toUInt32, UInt32.toNat_ofNat']
  omega

theorem advance_eq_ok {a b : Address} {n : Nat} :
    advance a n = .ok b ↔ a.toNat + n < 2 ^ 32 ∧ b = a + n.toUInt32 := by
  unfold advance
  split
  · rename_i h
    constructor
    · intro hb; cases hb; exact ⟨h, rfl⟩
    · rintro ⟨-, rfl⟩; rfl
  · rename_i h
    constructor
    · intro hb; cases hb
    · rintro ⟨hlt, -⟩; exact absurd hlt h

theorem toNat_of_advance {a b : Address} {n : Nat} (h : advance a n = .ok b) :
    b.toNat = a.toNat + n := by
  obtain ⟨hlt, rfl⟩ := advance_eq_ok.1 h
  exact toNat_add_of_lt hlt

/-- The room that is made for a jump. -/
def jumpSize (current : Section) (pending : Bool) : Nat := if needsJump current pending then 4 else 0

/-- The address of a statement, after the jump that it may need. -/
def startOf (address : Address) (current : Section) (pending : Bool) : Address :=
  if needsJump current pending then address + 4 else address

theorem jumpSize_code (pending : Bool) : jumpSize .code pending = 0 := by
  simp [jumpSize, needsJump]

theorem startOf_eq (address : Address) (current : Section) (pending : Bool) :
    startOf address current pending = address + (jumpSize current pending).toUInt32 := by
  unfold startOf jumpSize
  split
  · rfl
  · exact (UInt32.add_zero address).symm

theorem startOf_code (address : Address) (pending : Bool) : startOf address .code pending = address := by
  simp [startOf, needsJump]

/-! ## One statement -/

namespace Cursor

/-- Laying out a statement other than a header takes the cursor `c` to `c'`; the statement has `n`
bytes from `start` on. -/
structure Step (c : Cursor) (kind : StatementKind) (c' : Cursor) (start : Address) (n : Nat) : Prop where
  start_eq : start = startOf c.address c.current c.pending
  toNat_start : start.toNat = c.address.toNat + jumpSize c.current c.pending
  size_eq : kind.size = .ok n
  address_eq : c'.address = start + n.toUInt32
  toNat_address : c'.address.toNat = start.toNat + n
  current_eq : c'.current = c.current
  pending_eq : c'.pending = leavesPending c.current
  labels_iff : ∀ name a, c'.labels.get? name = some a ↔
    c.labels.get? name = some a ∨ kind.name? = some name ∧ a = start
  ordered : c.labels.Ordered → c'.labels.Ordered

theorem makeJump_eq_ok {c c' : Cursor} (h : c.makeJump = .ok c') :
    c' = { c with address := startOf c.address c.current c.pending, pending := leavesPending c.current } ∧
      c'.address.toNat = c.address.toNat + jumpSize c.current c.pending := by
  unfold makeJump at h
  dsimp only at h
  unfold startOf jumpSize
  by_cases hj : needsJump c.current c.pending
  · simp only [hj, if_true] at h ⊢
    obtain ⟨address, ha, h⟩ := bind_eq_ok.1 h
    cases h
    have ht := toNat_of_advance ha
    obtain ⟨-, rfl⟩ := advance_eq_ok.1 ha
    exact ⟨rfl, ht⟩
  · simp only [hj] at h ⊢
    cases h
    exact ⟨rfl, rfl⟩

theorem labels_of_define {table table' : LabelTable} {name : LabelName} {start : Address}
    (h : table.define name start = .ok table') (n : LabelName) (a : Address) :
    table'.get? n = some a ↔ table.get? n = some a ∨ some name = some n ∧ a = start := by
  constructor
  · intro hn
    rw [LabelTable.get?_define h] at hn
    split at hn
    · rename_i he
      cases hn
      exact .inr ⟨by rw [he], rfl⟩
    · exact .inl hn
  · rintro (hn | ⟨hn, rfl⟩)
    · exact LabelTable.get?_define_of_get? h hn
    · cases hn
      simp [LabelTable.get?_define h]

/-- Room is made for a jump first; what the statement does after it makes up the step. -/
theorem Step.of_makeJump {c c₁ c' : Cursor} {kind : StatementKind} {n : Nat} (h : c.makeJump = .ok c₁)
    (hsize : kind.size = .ok n) (haddress : c'.address = c₁.address + n.toUInt32)
    (hnat : c'.address.toNat = c₁.address.toNat + n) (hcurrent : c'.current = c₁.current)
    (hpending : c'.pending = c₁.pending)
    (hlabels : ∀ name a, c'.labels.get? name = some a ↔
      c₁.labels.get? name = some a ∨ kind.name? = some name ∧ a = c₁.address)
    (hordered : c₁.labels.Ordered → c'.labels.Ordered) : Step c kind c' c₁.address n := by
  obtain ⟨hc, hstart⟩ := makeJump_eq_ok h
  have hl : c₁.labels = c.labels := by rw [hc]
  refine ⟨by rw [hc], hstart, hsize, haddress, hnat, by rw [hcurrent, hc], by rw [hpending, hc], ?_, ?_⟩
  · rw [← hl]; exact hlabels
  · rw [← hl]; exact hordered

/-- What laying out a statement other than a header does. -/
theorem step_of_place {c c' : Cursor} {kind : StatementKind} (h : c.place kind = .ok c')
    (hk : ∀ next, kind ≠ .header next) : ∃ start n, Step c kind c' start n := by
  cases kind with
  | header next => exact absurd rfl (hk next)
  | stack words =>
    exact ⟨_, 0, .of_makeJump h rfl (by simp) rfl rfl rfl (by simp [StatementKind.name?]) id⟩
  | label name =>
    obtain ⟨c₁, h₁, h⟩ := bind_eq_ok.1 h
    obtain ⟨labels, hd, h⟩ := bind_eq_ok.1 h
    cases h
    exact ⟨_, 0, .of_makeJump h₁ rfl (by simp) rfl rfl rfl (labels_of_define hd)
      fun ho => LabelTable.ordered_define ho hd⟩
  | data name payload =>
    obtain ⟨c₁, h₁, h⟩ := bind_eq_ok.1 h
    obtain ⟨labels, hd, h⟩ := bind_eq_ok.1 h
    obtain ⟨address, ha, h⟩ := bind_eq_ok.1 h
    cases h
    exact ⟨_, payload.size.toNat, .of_makeJump h₁ rfl (advance_eq_ok.1 ha).2 (toNat_of_advance ha) rfl rfl
      (labels_of_define hd) fun ho => LabelTable.ordered_define ho hd⟩
  | instruction line =>
    obtain ⟨c₁, h₁, h⟩ := bind_eq_ok.1 h
    obtain ⟨words, hw, h⟩ := bind_eq_ok.1 h
    obtain ⟨address, ha, h⟩ := bind_eq_ok.1 h
    cases h
    exact ⟨_, 4 * words, .of_makeJump h₁ (map_eq_ok.2 ⟨words, hw, rfl⟩) (advance_eq_ok.1 ha).2
      (toNat_of_advance ha) rfl rfl (by simp [StatementKind.name?]) id⟩

section

variable {c c' : Cursor} {kind : StatementKind} {start : Address} {n : Nat} {labels : LabelTable} {bytes : List UInt8}
  (h : Step c kind c' start n) (hb : kind.contribution labels = some bytes)

include h hb

/-- The address after a statement is that after the bytes that it contributes. -/
theorem Step.address_contribution : c'.address = start + bytes.length.toUInt32 := by
  rw [h.address_eq, StatementKind.toUInt32_length_contribution h.size_eq hb]

theorem Step.length_contribution (hlt : bytes.length < 2 ^ 32) : bytes.length = n := by
  have := StatementKind.length_contribution h.size_eq hb
  omega

end

/-! ## All statements -/

theorem placeAll_cons {c : Cursor} {line : Nat} {s : Statement} {rest : List Statement} {layout : Layout}
    (h : c.placeAll line (s :: rest) = .ok layout) :
    ∃ c', c.place s.kind = .ok c' ∧ c'.placeAll s.line rest = .ok layout := by
  rw [placeAll] at h
  obtain ⟨c', hc, h⟩ := bind_eq_ok.1 h
  exact ⟨c', atLine_eq_ok.1 hc, h⟩

theorem placeAll_nil {c : Cursor} {line : Nat} {layout : Layout} (h : c.placeAll line [] = .ok layout) :
    layout.labels = c.labels ∧ layout.stop = c.address + 4 ∧ layout.stop.toNat = c.address.toNat + 4 := by
  rw [placeAll] at h
  obtain ⟨stop, hs, h⟩ := bind_eq_ok.1 h
  cases h
  have ha := atLine_eq_ok.1 hs
  exact ⟨rfl, (advance_eq_ok.1 ha).2, toNat_of_advance ha⟩

theorem get?_of_place {c c' : Cursor} {kind : StatementKind} (h : c.place kind = .ok c')
    {name : LabelName} {a : Address} (hn : c.labels.get? name = some a) : c'.labels.get? name = some a := by
  rcases kind.header_cases with hk | ⟨next, hk⟩
  · obtain ⟨start, n, hs⟩ := step_of_place h hk
    exact (hs.labels_iff name a).2 (.inl hn)
  · subst hk
    cases h; exact hn

/-- The layout keeps the address of every label defined on the way. -/
theorem get?_of_placeAll {name : LabelName} {a : Address} : ∀ {statements : List Statement} {c : Cursor}
    {line : Nat} {layout : Layout}, c.placeAll line statements = .ok layout →
    c.labels.get? name = some a → layout.labels.get? name = some a
  | [], c, line, layout, h, hn => by rw [(placeAll_nil h).1]; exact hn
  | s :: rest, c, line, layout, h, hn => by
    obtain ⟨c', hp, h⟩ := placeAll_cons h
    exact get?_of_placeAll h (get?_of_place hp hn)

end Cursor

end WordMachine.Assembly
