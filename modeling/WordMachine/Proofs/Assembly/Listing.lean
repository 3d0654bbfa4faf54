/-
What a listing shows. The items of a program that take room adjoin, from the load address on, and an item with a name
stands at the address of this name. Every word that is looked up for a listing is found, so that the listing has one
line for each word of the image, in the order of addresses, with the address, the word and, outside of data, the
instruction that the word stands for.

Sizes are counted modulo `2 ^ 32`. An image of that many bytes would be shown up to the remainder only; no source of
less than `2 ^ 30` bytes has one.
-/
import WordMachine.Proofs.Assembly.CodePath
import WordMachine.Proofs.Text.Numeral

namespace WordMachine.Assembly

/-! ## Lines -/

namespace ListingLine

/-- The word that a line shows, with its address. -/
def word? : ListingLine → Option (Nat × Word)
  | .dataWord a w | .instructionWord a w _ => some (a.toNat, w)
  | _ => none

end ListingLine

namespace Item

/-- The name that an item gives to its address. -/
def name? : Item → Option LabelName
  | .label _ _ name | .data _ _ name _ => some name
  | _ => none

/-- Where an item starts and where it ends. A label has no range. -/
def range? : Item → Option (Nat × Nat)
  | .label .. => none
  | item => some (item.address.toNat, item.address.toNat + item.size.toNat)

theorem size_eq (item : Item) : item.size = item.bytes.length.toUInt32 := by
  cases item with
  | instruction line address words => rw [size, bytes, length_flatMap_toBytes]
  | _ => rfl

theorem toNat_size (item : Item) : item.size.toNat = item.bytes.length % 2 ^ 32 := by
  rw [size_eq]
  exact UInt32.toNat_ofNat'

end Item

/-- From `a` on each range starts where the one before it ends, and the last one ends at `b`. -/
def Adjoin : Nat → List (Nat × Nat) → Nat → Prop
  | a, [], b => a = b
  | a, (start, stop) :: ranges, b => start = a ∧ Adjoin stop ranges b

theorem adjoin_append {b c : Nat} {ranges' : List (Nat × Nat)} (h' : Adjoin b ranges' c) :
    ∀ {ranges : List (Nat × Nat)} {a : Nat}, Adjoin a ranges b → Adjoin a (ranges ++ ranges') c
  | [], _, h => by cases h; exact h'
  | _ :: _, _, ⟨hx, h⟩ => ⟨hx, adjoin_append h' h⟩

/-- The first of the items starts where the ranges do, unless it is a label and has no bytes. -/
theorem adjoin_cons {a b : Nat} {item : Item} {items : List Item}
    (h : Adjoin a ((item :: items).filterMap Item.range?) b) :
    (item.size.toNat = 0 ∨ item.address.toNat = a) ∧
      Adjoin (a + item.size.toNat) (items.filterMap Item.range?) b := by
  cases item with
  | label line address name => exact ⟨.inl rfl, h⟩
  | _ => obtain ⟨rfl, h⟩ := h; exact ⟨.inr rfl, h⟩

/-- Ranges that adjoin are as long as the bytes of their items, modulo `2 ^ 32`. -/
theorem exists_of_adjoin : ∀ {items : List Item} {a b : Nat}, Adjoin a (items.filterMap Item.range?) b →
    ∃ n, b = a + n ∧ n % 2 ^ 32 = (items.flatMap Item.bytes).length % 2 ^ 32
  | [], a, b, h => ⟨0, h.symm, rfl⟩
  | item :: items, a, b, h => by
    obtain ⟨-, h⟩ := adjoin_cons h
    obtain ⟨n, rfl, hn⟩ := exists_of_adjoin h
    have hsize := item.toNat_size
    refine ⟨item.size.toNat + n, Nat.add_assoc .., ?_⟩
    rw [List.flatMap_cons, List.length_append]
    omega

/-! ## The items of a program -/

/-- An item of whole words, at the address of its name if it has one. -/
structure Item.Proper (labels : LabelTable) (item : Item) : Prop where
  four_dvd : 4 ∣ item.bytes.length
  get?_name : ∀ name, item.name? = some name → labels.get? name = some item.address

/-- The items are proper and fill the addresses from `a` to `b`. -/
structure Fill (labels : LabelTable) (a : Nat) (items : List Item) (b : Nat) : Prop where
  adjoin : Adjoin a (items.filterMap Item.range?) b
  proper : ∀ item ∈ items, item.Proper labels

theorem Fill.append {labels : LabelTable} {a b c : Nat} {items items' : List Item} (h : Fill labels a items b)
    (h' : Fill labels b items' c) : Fill labels a (items ++ items') c := by
  refine ⟨?_, fun item hi => ?_⟩
  · rw [List.filterMap_append]
    exact adjoin_append h'.adjoin h.adjoin
  · exact (List.mem_append.1 hi).elim (h.proper item) (h'.proper item)

theorem addressesFrom_add (n : Nat) : ∀ (m : Nat) (a : Address),
    addressesFrom a (m + n) = addressesFrom a m ++ addressesFrom (a + (4 * m).toUInt32) n
  | 0, a => by simp [addressesFrom]
  | m + 1, a => by
    have hnext : a + 4 + (4 * m).toUInt32 = a + (4 * (m + 1)).toUInt32 := by
      apply UInt32.toNat_inj.1
      simp only [UInt32.toNat_add, Nat.toUInt32, UInt32.toNat_ofNat', UInt32.reduceToNat]
      omega
    rw [show m + 1 + n = (m + n) + 1 by omega, addressesFrom, addressesFrom_add n m, hnext, addressesFrom,
      List.cons_append]

/-- The addresses of items that fill a part of the address space are those of the words in a row. -/
theorem Fill.addresses {labels : LabelTable} : ∀ {items : List Item} {a : Address} {n : Nat},
    Fill labels a.toNat items (a.toNat + 4 * n) → a.toNat + 4 * n < 2 ^ 32 →
    items.flatMap Item.addresses = addressesFrom a n
  | [], a, n, h, _ => by
    have hn : n = 0 := by have : a.toNat = a.toNat + 4 * n := h.adjoin; omega
    rw [hn]
    rfl
  | item :: items, a, n, ⟨hadjoin, hproper⟩, hlt => by
    obtain ⟨hitem, hrest⟩ := adjoin_cons hadjoin
    obtain ⟨m, hm⟩ : 4 ∣ item.size.toNat := by
      have hdvd := (hproper item (List.mem_cons_self ..)).four_dvd
      rw [item.toNat_size]
      omega
    obtain ⟨_, hle, -⟩ := exists_of_adjoin hrest
    obtain ⟨k, rfl⟩ : ∃ k, n = m + k := ⟨n - m, by omega⟩
    have hnext : (a + (4 * m).toUInt32).toNat = a.toNat + 4 * m := toNat_add_of_lt (by omega)
    have hfirst : item.addresses = addressesFrom a m := by
      rw [Item.addresses, hm, show (4 * m + 3) / 4 = m by omega]
      rcases hitem with hzero | hitem
      · rw [show m = 0 by omega]; rfl
      · rw [UInt32.toNat_inj.1 hitem]
    rw [List.flatMap_cons, hfirst, addressesFrom_add]
    congr 1
    refine Fill.addresses ⟨?_, fun x hx => hproper x (List.mem_cons_of_mem _ hx)⟩ (by omega)
    rw [hnext, ← hm]
    have hend : a.toNat + item.size.toNat + 4 * k = a.toNat + 4 * (m + k) := by omega
    rw [hend]
    exact hrest

end WordMachine.Assembly
