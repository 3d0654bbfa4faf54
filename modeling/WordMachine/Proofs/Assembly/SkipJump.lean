/-
The jumps over data and subroutines. The statements of a program stand in a row, with room for a jump
where the code is left; each jump holds the address where the code goes on, and the bytes of all else
do not depend on the jumps.
-/
import WordMachine.Proofs.Assembly.Buffer
import WordMachine.Proofs.Assembly.Sections
import WordMachine.Proofs.Words

namespace WordMachine.Assembly

/-! ## The word of a jump -/

theorem jumpTo_eq (target : Address) : jumpTo target = (0x10000000 : Word) ||| (target >>> 2 &&& 0x3FFFFF) := rfl

/-- The field of a jump to a whole word below `2 ^ 24` is the address of this word, counted in words. -/
theorem addressField_jumpTo {target : Nat} (hd : 4 ∣ target) (hlt : target < 2 ^ 24) :
    4 * (Word.addressField (jumpTo target.toUInt32)).toNat = target := by
  have hfield : (Word.addressField (jumpTo target.toUInt32)).toNat = target / 4 := by
    rw [jumpTo_eq, Word.addressField, Word.addressMask]
    have hnat : target.toUInt32.toNat = target := by
      rw [Nat.toUInt32, UInt32.toNat_ofNat']; omega
    rw [UInt32.toNat_and, UInt32.toNat_or, UInt32.toNat_and, UInt32.toNat_shiftRight, hnat]
    simp only [UInt32.reduceToNat]
    rw [show (4194303 : Nat) = 2 ^ 22 - 1 from rfl, Nat.and_two_pow_sub_one_eq_mod,
      Nat.and_two_pow_sub_one_eq_mod, Nat.or_mod_two_pow, Nat.shiftRight_eq_div_pow]
    simp only [Nat.reducePow, Nat.reduceMod, Nat.zero_or]
    omega
  rw [hfield]
  omega

/-! ## Statements in a row -/

/-- The address of the jump before a statement that has one. -/
def Placed.slot (q : Placed) : Nat := q.address - 4

/-- The addresses of the jumps. -/
def slots (placed : List Placed) : List Nat := (placed.filter Placed.jumped).map Placed.slot

theorem mem_slots {placed : List Placed} {a : Nat} :
    a ∈ slots placed ↔ ∃ q ∈ placed, q.jumped ∧ q.slot = a := by
  simp [slots, and_assoc]

theorem getElem?_append_congr {front front' back back' : List UInt8} {i : Nat}
    (hl : front.length = front'.length) (hf : i < front.length → front[i]? = front'[i]?)
    (hb : front.length ≤ i → back[i - front.length]? = back'[i - front.length]?) :
    (front ++ back)[i]? = (front' ++ back')[i]? := by
  rcases Nat.lt_or_ge i front.length with hlt | hge
  · rw [List.getElem?_append_left hlt, List.getElem?_append_left (by omega), hf hlt]
  · rw [List.getElem?_append_right hge, List.getElem?_append_right (by omega), hb hge, hl]

namespace InRow

variable {address stop : Nat} {pending : Bool}

/-- The bytes of the first statements come before the bytes of the others, which start where these
stand. -/
theorem split (jump : List Placed → Word) : ∀ {before rest : List Placed} {address : Nat} {pending : Bool},
    InRow address pending stop (before ++ rest) → ∃ front address' pending', InRow address' pending' stop rest ∧
      bytesWith jump (before ++ rest) = front ++ bytesWith jump rest ∧ address + front.length = address'
  | [], _, address, pending, h => ⟨[], address, pending, h, rfl, rfl⟩
  | q :: before, rest, address, pending, ⟨hj, ha, hl⟩ => by
    obtain ⟨front, address', pending', hr, hb, rfl⟩ := split jump hl
    refine ⟨(if q.jumped then (jump (before ++ rest)).toBytes else []) ++ q.bytes ++ front, _, pending', hr, ?_, ?_⟩
    · rw [List.cons_append, bytesWith, hb, List.append_assoc _ front]
    · rw [List.length_append, List.length_append, length_jump hj, ha]
      omega

/-- Bytes outside of the jumps do not depend on what the jumps hold. -/
theorem getElem?_bytesWith (jump jump' : List Placed → Word) : ∀ {placed : List Placed} {address : Nat}
    {pending : Bool}, InRow address pending stop placed → ∀ i,
    (∀ a ∈ slots placed, address + i < a ∨ a + 4 ≤ address + i) →
    (bytesWith jump placed)[i]? = (bytesWith jump' placed)[i]?
  | [], _, _, _, _, _ => rfl
  | q :: later, address, pending, ⟨hj, ha, hl⟩, i, hi => by
    have ih := getElem?_bytesWith jump jump' hl
    have hlater : ∀ a ∈ slots later, a ∈ slots (q :: later) := fun a hm => by
      obtain ⟨q', hq', h⟩ := mem_slots.1 hm
      exact mem_slots.2 ⟨q', List.mem_cons_of_mem _ hq', h⟩
    rw [bytesWith, bytesWith, List.append_assoc, List.append_assoc]
    refine getElem?_append_congr (by split <;> rfl) (fun hlt => ?_) fun hge =>
      getElem?_append_congr rfl (fun _ => rfl) fun hge' => ih _ fun a hm => ?_
    -- the index is not among the four bytes of the jump
    · by_cases hq : q.jumped
      · have hslot := hi q.slot (mem_slots.2 ⟨q, List.mem_cons_self .., hq, rfl⟩)
        rw [length_jump hj, jumpSize_of_jumped hj, if_pos hq] at hlt
        rw [Placed.slot, ha, jumpSize_of_jumped hj, if_pos hq] at hslot
        omega
      · rw [if_neg hq, if_neg hq]
    · have := hi a (hlater a hm)
      rw [length_jump hj] at hge hge' ⊢
      omega

/-- The jump before a statement stands in the bytes at its place. -/
theorem exists_jump (jump : List Placed → Word) {before later : List Placed} {q : Placed}
    (h : InRow address pending stop (before ++ q :: later)) (hq : q.jumped) :
    ∃ front after, bytesWith jump (before ++ q :: later) = front ++ ((jump later).toBytes ++ after) ∧
      address + front.length = q.slot := by
  obtain ⟨front, _, pending', ⟨hj, ha, -⟩, hb, rfl⟩ := h.split jump
  rw [jumpSize_of_jumped hj, if_pos hq] at ha
  refine ⟨front, q.bytes ++ bytesWith jump later, ?_, ?_⟩
  · rw [hb, bytesWith, if_pos hq, List.append_assoc _ q.bytes]
  · rw [Placed.slot, ha]; omega

end InRow

end WordMachine.Assembly
