/-
The class of a word is read from bits that hold no operand, so that it does not depend on operands: the
same instruction with other operands is of the same class. Only the memory size of device `0FFh` is a
class of its own.
-/
import WordMachine.OpcodeClass
import WordMachine.Proofs.Instruction.Fields

namespace WordMachine

namespace Word

variable {w w' m : Word}

/-- A field of a word, shifted down, is not changed by bits outside of it. -/
theorem shiftRight_congr {f s : Word} (h : w &&& ~~~m = w' &&& ~~~m) (hf : f <<< s >>> s = f)
    (hm : m &&& f <<< s = 0) : w >>> s &&& f = w' >>> s &&& f := by
  have hshift : ∀ v : Word, v >>> s &&& f = (v &&& f <<< s) >>> s := fun v => by rw [UInt32.shiftRight_and, hf]
  rw [hshift, hshift, and_congr h hm]

theorem classField_congr (h : w &&& ~~~m = w' &&& ~~~m) (hm : m &&& classMask = 0) :
    w.classField = w'.classField := by
  rw [classField, classField, and_congr h hm]

/-- The lowest two bits of a mode. -/
theorem toNat_and_mod_four (v : Word) : (v &&& 31).toNat % 4 = (v &&& 3).toNat := by
  have h31 : v.toNat &&& 31 = v.toNat % 2 ^ 5 := Nat.and_two_pow_sub_one_eq_mod v.toNat 5
  have h3 : v.toNat &&& 3 = v.toNat % 2 ^ 2 := Nat.and_two_pow_sub_one_eq_mod v.toNat 2
  rw [UInt32.toNat_and, UInt32.toNat_and]
  simp only [UInt32.reduceToNat]
  rw [h31, h3]
  omega

end Word

namespace OpcodeClass

/-- The bits that a class leaves open: those of the operands, and the mark of the second word of a load
of a full word. -/
def freeMask : OpcodeClass → Word
  | .immediate .word => (immediate .word).signature.mask ||| Word.highHalfMarker
  | c => c.signature.mask

theorem freeMask_eq {c : OpcodeClass} (h : c ≠ immediate .word) : c.freeMask = c.signature.mask := by
  unfold freeMask
  split
  · exact absurd rfl h
  · rfl

/-- The operands of an instruction lie apart from each other, and what is open lies apart from the class
and from the condition. -/
theorem apart_signature (c : OpcodeClass) :
    c.signature.apartFrom 0 = true ∧ c.signature.mask &&& c.freeMask = c.signature.mask ∧
      c.freeMask &&& Word.classMask = 0 ∧ c.freeMask &&& Word.conditionMask = 0 := by
  cases c with
  | math group => cases group <;> decide
  | immediate width => cases width <;> decide
  | peripheral op => cases op <;> decide
  | jump condition => cases condition <;> decide
  | _ => decide

section

variable {w w' : Word} {c : OpcodeClass} (hw : w &&& ~~~c.freeMask = w' &&& ~~~c.freeMask)

include hw

theorem ofMathOp?_congr (h : (MathGroup.ofMathOp? w.mathOp.toNat).map math = some c) :
    (MathGroup.ofMathOp? w'.mathOp.toNat).map math = some c := by
  obtain ⟨group, hg, rfl⟩ := Option.map_eq_some_iff.1 h
  have hm : (math group).freeMask &&& 0x7F = 0 := by cases group <;> decide
  have hop : w.mathOp = w'.mathOp := Word.and_congr hw hm
  rw [← hop, hg]
  rfl

/-- The upper bits of the mode are an operand of the comparisons, and of no other instruction. -/
theorem ofImmediateMode?_congr (h : ofImmediateMode? ((w >>> 17) &&& 31).toNat = some c) :
    ofImmediateMode? ((w' >>> 17) &&& 31).toNat = some c := by
  have hmode (hm : c.freeMask &&& (31 : Word) <<< 17 = 0) :
      ofImmediateMode? ((w' >>> 17) &&& 31).toNat = some c := by
    rwa [← Word.shiftRight_congr hw (by decide) hm]
  unfold ofImmediateMode? at h
  split at h
  · rename_i hzero
    cases h
    have hlow : w >>> 17 &&& (3 : Word) = w' >>> 17 &&& (3 : Word) :=
      Word.shiftRight_congr hw (by decide) (by decide)
    rw [Word.toNat_and_mod_four, hlow, ← Word.toNat_and_mod_four] at hzero
    rw [ofImmediateMode?, if_pos hzero]
  · split at h
    · cases h; exact hmode (by decide)
    · split at h
      · cases h; exact hmode (by decide)
      · split at h
        · cases h; exact hmode (by decide)
        · cases h

theorem jump_congr (h : (JumpCondition.ofWord? w).map jump = some c) :
    (JumpCondition.ofWord? w').map jump = some c := by
  rwa [JumpCondition.ofWord?, ← Word.and_congr hw c.apart_signature.2.2.2]

/-- The device of a memory size is an operand, unless it is `0FFh`. -/
theorem ofPeripheral?_congr (hbyte : c = peripheral .memorySize → w'.byteField ≠ 0xFF)
    (h : ofPeripheral? ((w >>> 8) &&& 0x3FFF).toNat w.byteField.toNat = some c) :
    ofPeripheral? ((w' >>> 8) &&& 0x3FFF).toNat w'.byteField.toNat = some c := by
  have hselector (hm : c.freeMask &&& (0x3FFF : Word) <<< 8 = 0) :
      w >>> 8 &&& (0x3FFF : Word) = w' >>> 8 &&& (0x3FFF : Word) := Word.shiftRight_congr hw (by decide) hm
  unfold ofPeripheral? at h
  split at h
  · rename_i hcall
    cases h
    rw [hselector (by decide)] at hcall
    rw [ofPeripheral?, if_pos hcall]
  · split at h
    · rename_i hsize
      by_cases hff : w.byteField.toNat = 0xFF
      · rw [if_pos hff] at h
        cases h
        -- the byte of the uptime is no operand
        have hb : w.byteField = w'.byteField := Word.and_congr hw (by decide)
        rw [hb] at hff
        rw [← hselector (by decide), hsize, hff]
        rfl
      · rw [if_neg hff] at h
        cases h
        have hff' : w'.byteField.toNat ≠ 0xFF := fun hb => hbyte rfl (UInt32.toNat_inj.1 hb)
        rw [← hselector (by decide), hsize, ofPeripheral?, if_neg (by decide), if_pos rfl, if_neg hff']
    · split at h
      · rename_i hint
        cases h
        rw [← hselector (by decide), hint]
        rfl
      · cases h

end

/-- The class of a word does not depend on its operands, unless they make a memory size the uptime. -/
theorem ofWord?_congr {w w' : Word} {c : OpcodeClass} (h : ofWord? w = some c)
    (hw : w &&& ~~~c.freeMask = w' &&& ~~~c.freeMask)
    (hbyte : c = peripheral .memorySize → w'.byteField ≠ 0xFF) : ofWord? w' = some c := by
  have hclass := Word.classField_congr hw c.apart_signature.2.2.1
  unfold ofWord? at h ⊢
  rw [← hclass]
  generalize w.classField.toNat = n at h ⊢
  split at h
  · exact ofMathOp?_congr hw h
  · exact ofImmediateMode?_congr hw h
  · exact h
  · exact h
  · exact h
  · exact h
  · exact h
  · exact h
  · exact jump_congr hw h
  · exact ofPeripheral?_congr hw hbyte h
  · cases h

theorem peripheral_of_ofWord? {w : Word} {op : PeripheralOp} (h : ofWord? w = some (peripheral op)) :
    w.classField.toNat = 15 ∧
      ofPeripheral? ((w >>> 8) &&& 0x3FFF).toNat w.byteField.toNat = some (peripheral op) := by
  unfold ofWord? at h
  split at h
  case h_2 =>
    unfold ofImmediateMode? at h
    repeat' split at h
    all_goals cases h
  case h_10 hclass => exact ⟨hclass, h⟩
  all_goals simp at h

/-- The memory size of device `0FFh` is the uptime. -/
theorem uptime_of_memorySize {w w' : Word} (h : ofWord? w = some (peripheral .memorySize))
    (hw : w &&& ~~~(peripheral .memorySize).freeMask = w' &&& ~~~(peripheral .memorySize).freeMask)
    (hbyte : w'.byteField = 0xFF) : ofWord? w' = some (peripheral .uptime) := by
  obtain ⟨hclass, h⟩ := peripheral_of_ofWord? h
  have hselector : w >>> 8 &&& (0x3FFF : Word) = w' >>> 8 &&& (0x3FFF : Word) :=
    Word.shiftRight_congr hw (by decide) (by decide)
  have hsize : (w >>> 8 &&& (0x3FFF : Word)).toNat = 1 := by
    unfold ofPeripheral? at h
    split at h
    · cases h
    · split at h
      · assumption
      · split at h <;> cases h
  rw [Word.classField_congr hw (by decide)] at hclass
  rw [hselector] at hsize
  rw [ofWord?, hclass]
  show ofPeripheral? _ _ = _
  rw [hsize, hbyte]
  rfl

end OpcodeClass

end WordMachine
