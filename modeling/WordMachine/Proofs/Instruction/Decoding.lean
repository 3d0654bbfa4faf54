/-
Reading instructions. A word is an instruction if what remains of it when the open bits are taken away is
the pattern of a name; the instruction then has this name, and the operands are read from their fields.
A comparison reads back under the first of its two names.
-/
import WordMachine.Proofs.Instruction.Class
import WordMachine.Proofs.Instruction.Name

namespace WordMachine

/-! ## Conditions -/

theorem Condition.ofWord?_eq_some {w : Word} {c : Condition} :
    ofWord? w = some c ↔ w &&& Word.conditionMask = c.bits := by
  have hinj : ∀ a b : Condition, a.bits = b.bits → a = b := by
    intro a b
    cases a <;> cases b <;> decide
  constructor
  · intro h
    have hbits := List.find?_some h
    exact (beq_iff_eq.1 hbits).symm
  · intro h
    obtain ⟨b, hb⟩ : ∃ b, ofWord? w = some b := by
      rw [← Option.isSome_iff_exists, ofWord?, List.find?_isSome]
      exact ⟨c, c.mem_all, beq_iff_eq.2 h.symm⟩
    have hbits := List.find?_some hb
    rw [hb, hinj b c ((beq_iff_eq.1 hbits).trans h)]

/-- The jumps are the words of class 8. -/
theorem OpcodeClass.isJump_iff {w : Word} {c : OpcodeClass} (h : ofWord? w = some c) :
    c.isJump = true ↔ w.classField.toNat = 8 := by
  unfold ofWord? at h
  split at h
  case h_1 hn =>
    obtain ⟨group, -, rfl⟩ := Option.map_eq_some_iff.1 h
    simp [isJump, hn]
  case h_2 hn =>
    unfold ofImmediateMode? at h
    repeat' split at h
    all_goals cases h <;> simp [isJump, hn]
  case h_9 hn =>
    obtain ⟨condition, -, rfl⟩ := Option.map_eq_some_iff.1 h
    simp [isJump, hn]
  case h_10 hn =>
    unfold ofPeripheral? at h
    repeat' split at h
    all_goals cases h <;> simp [isJump, hn]
  all_goals cases h
  all_goals simp_all [isJump]

/-! ## Names of patterns -/

namespace Mnemonic

/-- The name that a primitive reads back as. -/
def readAs (name : String) : String := if name = "CMPII" then "CMP" else name

theorem ofPattern?_primitive : ∀ r ∈ primitives, ofPattern? r.2 = some (readAs r.1) := by decide +kernel

theorem ofPattern?_jump (j : JumpCondition) : ofPattern? j.bits = some j.mnemonic := by cases j <;> decide +kernel

theorem readAs_mem : ∀ r ∈ primitives, (readAs r.1, r.2) ∈ primitives := by decide +kernel

/-- Primitives leave the condition open and are no jumps. -/
theorem primitives_bits : ∀ r ∈ primitives,
    r.2 &&& Word.conditionMask = 0 ∧ r.2.classField.toNat ≠ 8 := by decide +kernel

theorem classField_jump (j : JumpCondition) : j.bits.classField.toNat = 8 := by cases j <;> decide

theorem mem_of_ofPattern? {w : Word} {name : String} (h : ofPattern? w = some name) :
    (∃ j : JumpCondition, name = j.mnemonic ∧ w = j.bits) ∨ (name, w) ∈ primitives := by
  obtain ⟨r, hr, rfl⟩ := Option.map_eq_some_iff.1 h
  have hw := List.find?_some hr
  rw [beq_iff_eq] at hw
  rcases List.mem_append.1 (List.mem_of_find?_eq_some hr) with hj | hp
  · obtain ⟨j, -, rfl⟩ := List.mem_map.1 hj
    exact .inl ⟨j, rfl, hw.symm⟩
  · exact .inr (hw ▸ hp)

/-- The pattern of a primitive leaves open what its class leaves open. -/
theorem primitives_open : ∀ r ∈ primitives, ∀ c ∈ Condition.all,
    ∀ k ∈ OpcodeClass.ofWord? (r.2 ||| c.bits), (r.2 ||| c.bits) &&& k.freeMask = 0 := by decide +kernel

theorem Entry.and_freeMask {name : String} {pattern : Word} {k : OpcodeClass} (h : Entry name pattern)
    (hk : OpcodeClass.ofWord? pattern = some k) : pattern &&& k.freeMask = 0 := by
  cases h with
  | jump j =>
    have : k = .jump j := by
      cases j <;> exact Option.some.inj (hk.symm.trans (by decide))
    subst this
    cases j <;> decide
  | primitive hr c => exact primitives_open _ hr c c.mem_all k hk

/-- The mnemonics under a condition with their patterns; a jump's condition is part of its mnemonic. -/
inductive PatternOf : String → Condition → Word → Prop
  | jump (j : JumpCondition) : PatternOf j.mnemonic .always j.bits
  | primitive {r : String × Word} (hr : r ∈ primitives) (c : Condition) : PatternOf r.1 c (r.2 ||| c.bits)

theorem PatternOf.entry {mnemonic : String} {c : Condition} {w : Word} (h : PatternOf mnemonic c w) :
    Entry (mnemonic ++ c.suffix) w := by
  cases h with
  | jump j =>
    have hempty : j.mnemonic ++ Condition.suffix .always = j.mnemonic := String.append_empty
    rw [hempty]
    exact .jump j
  | primitive hr c => exact .primitive hr c

end Mnemonic

/-- The operand of the given kind for the value of its field. -/
def Operand.ofField (high : Bool) : OperandKind → Word → Operand
  | .register, value => .register value.toUInt8
  | .fullWord, value => if high then .highHalf value.toUInt16 else .immediate value
  | _, value => .immediate value

namespace Instruction

open Mnemonic (Entry PatternOf)

variable {w : Word} {k : OpcodeClass}

/-! ## Condition and pattern -/

theorem bits_and_conditionMask (c : Condition) : c.bits &&& Word.conditionMask = c.bits := by cases c <;> decide

theorem classField_bits (c : Condition) (v : Word) : (v ||| c.bits).classField = v.classField := by
  have hc : c.bits &&& Word.classMask = 0 := by cases c <;> decide
  rw [Word.classField, Word.or_and, hc, UInt32.or_zero, Word.classField]

/-- Taking the operands of a word away, then its condition, leaves what `split?` leaves: where the class
is not that of the loads of full words, the open bits are those of the operands, and where it is, the
mark of the second word is taken away if it is there. -/
theorem split?_eq (hk : OpcodeClass.ofWord? w = some k) :
    split? k w =
      if k.isJump then some (.always, w &&& ~~~k.freeMask)
      else (Condition.ofWord? w).map fun c => (c, w &&& ~~~k.freeMask &&& ~~~Word.conditionMask) := by
  by_cases hword : k = .immediate .word
  · subst hword
    have hhigh : w.isHighHalf = ((w &&& Word.highHalfMarker) != 0) := by
      rw [Word.isHighHalf, hk]
      simp
    rw [split?, if_neg (by decide), if_neg (by decide), hhigh]
    congr 1
    funext c
    rw [OpcodeClass.freeMask, Word.not_or, Word.not_or]
    by_cases hmark : w &&& Word.highHalfMarker = 0
    · have hw := Word.and_not_of_and_eq_zero hmark
      simp only [hmark, bne_self_eq_false, Bool.false_eq_true, if_false]
      rw [← UInt32.and_assoc, ← UInt32.and_assoc, UInt32.and_assoc w _ (~~~Word.highHalfMarker),
        UInt32.and_comm _ (~~~Word.highHalfMarker), ← UInt32.and_assoc, hw]
    · simp only [bne_iff_ne, ne_eq, hmark, not_false_eq_true, if_true]
      congr 1
      ac_rfl
  · have hlow : w.isHighHalf = false := by
      rw [Word.isHighHalf, hk]
      simp [hword]
    rw [split?, OpcodeClass.freeMask_eq hword, hlow, Word.not_or, ← UInt32.and_assoc]
    rfl

/-- The word without its open bits has the condition that it has. -/
theorem pattern_and_conditionMask (k : OpcodeClass) (w : Word) :
    w &&& ~~~k.freeMask &&& Word.conditionMask = w &&& Word.conditionMask := by
  refine Word.and_congr (m := k.freeMask) ?_ k.apart_signature.2.2.2
  rw [UInt32.and_assoc, UInt32.and_self]

theorem classField_pattern (k : OpcodeClass) (w : Word) : (w &&& ~~~k.freeMask).classField = w.classField := by
  refine Word.classField_congr (m := k.freeMask) ?_ k.apart_signature.2.2.1
  rw [UInt32.and_assoc, UInt32.and_self]

/-! ## Names of instructions -/

/-- An instruction has the name of its word's pattern. -/
theorem pattern_of_ofWord? {i : Instruction} (h : ofWord? w = some i) :
    ∃ k, OpcodeClass.ofWord? w = some k ∧ i.operands = operandsFrom w 0 k.signature ∧
      PatternOf i.mnemonic i.condition (w &&& ~~~k.freeMask) := by
  simp only [ofWord?, Option.bind_eq_bind, Option.bind_eq_some_iff, Option.pure_def, Option.some.injEq] at h
  obtain ⟨k, hk, ⟨c, base⟩, hsplit, mnemonic, hname, rfl⟩ := h
  refine ⟨k, hk, rfl, ?_⟩
  have hpattern : _ ∨ (mnemonic, base) ∈ _ := Mnemonic.mem_of_ofPattern? hname
  rw [split?_eq hk] at hsplit
  split at hsplit
  · cases hsplit
    rcases hpattern with ⟨j, rfl, hj⟩ | hr
    · rw [hj]
      exact .jump j
    · have hbits := PatternOf.primitive hr .always
      rwa [show Condition.bits .always = 0 by decide, UInt32.or_zero] at hbits
  · rename_i hjump
    obtain ⟨c, hc, heq⟩ := Option.map_eq_some_iff.1 hsplit
    cases heq
    rw [Condition.ofWord?_eq_some, ← pattern_and_conditionMask k] at hc
    rcases hpattern with ⟨j, rfl, hj⟩ | hr
    · -- a pattern of class 8 would be that of a jump
      refine absurd ((OpcodeClass.isJump_iff hk).2 ?_) hjump
      rw [← classField_pattern k, ← Word.and_or_and_not (w &&& ~~~k.freeMask) Word.conditionMask, hc, hj,
        classField_bits, Mnemonic.classField_jump]
    · rw [← Word.and_or_and_not (w &&& ~~~k.freeMask) Word.conditionMask, hc]
      exact .primitive hr c

/-- A word with the pattern of a jump is that jump. -/
theorem ofWord?_of_jump {j : JumpCondition} (hk : OpcodeClass.ofWord? w = some k)
    (hw : w &&& ~~~k.freeMask = j.bits) : ofWord? w = some ⟨j.mnemonic, .always, operandsFrom w 0 k.signature⟩ := by
  have hclass : w.classField.toNat = 8 := by rw [← classField_pattern k, hw, Mnemonic.classField_jump]
  have hsplit := split?_eq hk
  rw [if_pos ((OpcodeClass.isJump_iff hk).2 hclass), hw] at hsplit
  simp [ofWord?, hk, hsplit, Mnemonic.ofPattern?_jump]

/-- A word with the pattern of a primitive under a condition is that primitive. -/
theorem ofWord?_of_primitive {r : String × Word} {c : Condition} (hr : r ∈ Mnemonic.primitives)
    (hk : OpcodeClass.ofWord? w = some k) (hw : w &&& ~~~k.freeMask = r.2 ||| c.bits) :
    ofWord? w = some ⟨Mnemonic.readAs r.1, c, operandsFrom w 0 k.signature⟩ := by
  obtain ⟨hopen, hclass⟩ := Mnemonic.primitives_bits r hr
  have hbits := bits_and_conditionMask c
  have hjump : ¬k.isJump = true := by
    rwa [OpcodeClass.isJump_iff hk, ← classField_pattern k, hw, classField_bits]
  have hcond : Condition.ofWord? w = some c := by
    rw [Condition.ofWord?_eq_some, ← pattern_and_conditionMask k, hw, Word.or_and_within hopen hbits]
  have hsplit := split?_eq hk
  rw [if_neg hjump, hcond, hw, Word.or_and_not hopen hbits] at hsplit
  simp [ofWord?, hk, hsplit, Mnemonic.ofPattern?_primitive r hr]

/-- A name is spelled by a mnemonic and a condition, or it is the second name of a comparison. -/
def Spells (mnemonic : String) (condition : Condition) (name : String) : Prop :=
  name = mnemonic ++ condition.suffix ∨ mnemonic = "CMP" ∧ name = "CMPII" ++ condition.suffix

theorem spells_readAs (name : String) (c : Condition) : Spells (Mnemonic.readAs name) c (name ++ c.suffix) := by
  unfold Mnemonic.readAs
  split
  · rename_i h
    exact .inr ⟨rfl, by rw [h]⟩
  · exact .inl rfl

/-- All words with the pattern of a name are instructions of the same name. -/
theorem ofWord?_of_entry {name : String} {pattern : Word} (h : Entry name pattern) :
    ∃ mnemonic condition, Spells mnemonic condition name ∧ PatternOf mnemonic condition pattern ∧
      ∀ {w : Word} {k : OpcodeClass}, OpcodeClass.ofWord? w = some k → w &&& ~~~k.freeMask = pattern →
        ofWord? w = some ⟨mnemonic, condition, operandsFrom w 0 k.signature⟩ := by
  cases h with
  | jump j => exact ⟨j.mnemonic, .always, .inl String.append_empty.symm, .jump j, ofWord?_of_jump⟩
  | @primitive r hr c =>
    exact ⟨Mnemonic.readAs r.1, c, spells_readAs r.1 c, .primitive (Mnemonic.readAs_mem r hr) c,
      ofWord?_of_primitive hr⟩

/-! ## Operands -/

theorem operandsFrom_eq (w : Word) : ∀ (position : Nat) (kinds : Signature),
    operandsFrom w position kinds =
      List.zipWith (Operand.ofField w.isHighHalf) kinds (kinds.extractFrom position w)
  | _, [] => rfl
  | position, kind :: kinds => by
    rw [operandsFrom, operandsFrom_eq w, Signature.extractFrom, List.zipWith_cons_cons]
    cases kind <;> rfl

end Instruction

end WordMachine
