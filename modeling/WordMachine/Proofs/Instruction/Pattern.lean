/-
Words made of a pattern, operands in their fields and perhaps the mark of an upper half. What was put into such
a word is read from it again, and the word is of the class of its pattern; only a memory size whose device is
`0FFh` is the uptime instead.
-/
import WordMachine.Proofs.Instruction.Decoding
import Mathlib.Data.Nat.Bitwise

namespace WordMachine.Instruction

open Mnemonic (Entry PatternOf)

theorem disassemble_eq_ok {w : Word} {i : Instruction} :
    Instruction.disassemble w = .ok i ↔ Instruction.ofWord? w = some i := by
  unfold Instruction.disassemble
  cases Instruction.ofWord? w <;> simp

/-! ## Patterns and fields -/

section

variable {name : String} {pattern w extra : Word} {k : OpcodeClass} {values : List Word}
  (hentry : Entry name pattern) (hk : OpcodeClass.ofWord? pattern = some k)

include hentry hk

/-- Values and open bits added to a pattern are what is read from the fields, and the pattern is what
remains without them. -/
theorem and_of_pack (hw : w = pattern ||| (extra ||| k.signature.packFrom 0 values))
    (hextra : extra &&& k.freeMask = extra) (hfields : extra &&& k.signature.mask = 0) :
    w &&& ~~~k.freeMask = pattern ∧ w &&& k.signature.mask = k.signature.packFrom 0 values := by
  have hopen := hentry.and_freeMask hk
  have hmask := k.apart_signature.2.1
  have hpack : k.signature.packFrom 0 values &&& k.signature.mask = _ := Signature.packFrom_and_maskFrom 0 _ _
  have hpack' : k.signature.packFrom 0 values &&& k.freeMask = k.signature.packFrom 0 values := by
    rw [← hpack, UInt32.and_assoc, hmask]
  have hfield : pattern &&& k.signature.mask = 0 := by
    rw [← hmask, UInt32.and_comm k.signature.mask, ← UInt32.and_assoc, hopen, UInt32.zero_and]
  subst hw
  constructor
  · exact Word.or_and_not hopen (by rw [Word.or_and, hextra, hpack'])
  · rw [Word.or_and, Word.or_and, hfield, hfields, hpack, UInt32.zero_or, UInt32.zero_or]

theorem class_of_pattern (hw : w &&& ~~~k.freeMask = pattern)
    (hdevice : k = .peripheral .memorySize → w.byteField ≠ 0xFF) : OpcodeClass.ofWord? w = some k := by
  refine OpcodeClass.ofWord?_congr hk ?_ hdevice
  rw [hw, Word.and_not_of_and_eq_zero (hentry.and_freeMask hk)]

end

theorem operandsFrom_of_pack {kinds : Signature} {values : List Word} {w : Word} (ha : kinds.apartFrom 0 = true)
    (hl : kinds.length = values.length) (hw : w &&& kinds.mask = kinds.packFrom 0 values) :
    Instruction.operandsFrom w 0 kinds =
      List.zipWith (Operand.ofField w.isHighHalf) kinds
        (List.zipWith (fun (kind : OperandKind) value => value &&& kind.valueMask) kinds values) := by
  rw [Instruction.operandsFrom_eq, Signature.extractFrom_of_and_eq ha hl hw]

theorem isHighHalf_of_class {w : Word} (h : OpcodeClass.ofWord? w = some (.immediate .word)) :
    w.isHighHalf = ((w &&& Word.highHalfMarker) != 0) := by
  rw [Word.isHighHalf, h]
  simp

/-- Taking the open bits of a word away does not change its class. -/
theorem class_of_open {w : Word} {k : OpcodeClass} (hk : OpcodeClass.ofWord? w = some k) :
    OpcodeClass.ofWord? (w &&& ~~~k.freeMask) = some k := by
  refine OpcodeClass.ofWord?_congr hk ?_ ?_
  · rw [UInt32.and_assoc, UInt32.and_self]
  · rintro rfl
    have hbyte : ~~~(OpcodeClass.peripheral .memorySize).freeMask &&& Word.byteMask = 0 := by decide
    rw [Word.byteField, UInt32.and_assoc, hbyte, UInt32.and_zero]
    decide

/-! ## The memory size -/

theorem primitives_memorySize : ∀ r ∈ Mnemonic.primitives, ∀ c ∈ Condition.all,
    OpcodeClass.ofWord? (r.2 ||| c.bits) = some (.peripheral .memorySize) → r = ("MEMSIZE", 0x1E000100) := by
  decide +kernel

theorem memorySize_mem : ("MEMSIZE", 0x1E000100) ∈ Mnemonic.primitives := by decide +kernel

theorem uptime_mem : ("UPTIME", 0x1E0001FF) ∈ Mnemonic.primitives := by decide +kernel

theorem class_of_memorySize (c : Condition) :
    OpcodeClass.ofWord? (0x1E000100 ||| c.bits) = some (.peripheral .memorySize) := by
  cases c <;> decide

/-- The words of the memory size have one name, the conditions apart. -/
theorem name_of_memorySize {name : String} {pattern : Word} (hentry : Entry name pattern)
    (hk : OpcodeClass.ofWord? pattern = some (.peripheral .memorySize)) :
    ∃ c : Condition, name = "MEMSIZE" ++ c.suffix ∧ pattern = 0x1E000100 ||| c.bits := by
  cases hentry with
  | jump j => cases j <;> exact absurd hk (by decide)
  | primitive hr c =>
    obtain rfl := primitives_memorySize _ hr c c.mem_all hk
    exact ⟨c, rfl, rfl⟩

/-- A word with the name of the memory size has its class. -/
theorem memorySize_of_name {pattern : Word} {k : OpcodeClass} {c : Condition}
    (hentry : Entry ("MEMSIZE" ++ c.suffix) pattern) (hk : OpcodeClass.ofWord? pattern = some k) :
    k = .peripheral .memorySize := by
  rw [hentry.unique (.primitive memorySize_mem c), class_of_memorySize] at hk
  exact (Option.some.inj hk).symm

/-- A word of the memory size with device `0FFh` is the uptime. -/
theorem ofWord?_of_uptime {w : Word} {c : Condition}
    (hpattern : w &&& ~~~(OpcodeClass.peripheral .memorySize).freeMask = 0x1E000100 ||| c.bits)
    (hbyte : w.byteField = 0xFF) : ofWord? w = some ⟨"UPTIME", c, operandsFrom w 0 [.register]⟩ := by
  have hopen : (0x1E000100 ||| c.bits) &&& (OpcodeClass.peripheral .memorySize).freeMask = 0 := by
    cases c <;> decide
  have hclass : OpcodeClass.ofWord? w = some (.peripheral .uptime) := by
    refine OpcodeClass.uptime_of_memorySize (class_of_memorySize c) ?_ hbyte
    rw [hpattern, Word.and_not_of_and_eq_zero hopen]
  -- the byte is open in a memory size and belongs to the pattern of the uptime
  have hmask : ~~~(OpcodeClass.peripheral .uptime).freeMask &&& ~~~Word.byteMask =
      ~~~(OpcodeClass.peripheral .memorySize).freeMask := by decide
  have hapart : ~~~(OpcodeClass.peripheral .uptime).freeMask &&& Word.byteMask = Word.byteMask := by decide
  have huptime : w &&& ~~~(OpcodeClass.peripheral .uptime).freeMask = 0x1E0001FF ||| c.bits :=
    calc w &&& ~~~(OpcodeClass.peripheral .uptime).freeMask
        = w &&& ~~~(OpcodeClass.peripheral .memorySize).freeMask ||| w.byteField := by
          rw [← Word.and_or_and_not (w &&& ~~~_) Word.byteMask, UInt32.and_assoc, UInt32.and_assoc, hmask, hapart]
          rfl
      _ = 0x1E0001FF ||| c.bits := by
          rw [hpattern, hbyte]
          cases c <;> decide
  exact ofWord?_of_primitive uptime_mem hclass huptime

/-! ## Loads of full words -/

theorem fullWord_mem {k : OpcodeClass} (h : OperandKind.fullWord ∈ k.signature) :
    k = .immediate .word := by
  cases k with
  | math group => cases group <;> simp [OpcodeClass.signature] at h
  | immediate width => cases width <;> simp [OpcodeClass.signature] at h ⊢
  | peripheral op => cases op <;> simp [OpcodeClass.signature] at h
  | _ => simp [OpcodeClass.signature] at h

/-- Only `LOADWORDI` takes a full word. -/
theorem primitives_fullWord : ∀ r ∈ Mnemonic.primitives, ∀ c ∈ Condition.all,
    OpcodeClass.ofWord? (r.2 ||| c.bits) = some (.immediate .word) → r.1 = "LOADWORDI" := by
  decide +kernel

theorem mnemonic_of_fullWord {mnemonic : String} {c : Condition} {pattern : Word} (h : PatternOf mnemonic c pattern)
    (hk : OpcodeClass.ofWord? pattern = some (.immediate .word)) : mnemonic = "LOADWORDI" := by
  cases h with
  | jump j => cases j <;> exact absurd hk (by decide)
  | primitive hr c => exact primitives_fullWord _ hr c c.mem_all hk

theorem loadWord_mem : ("LOADWORDI", 0x02060000) ∈ Mnemonic.primitives := by decide +kernel

theorem class_of_loadWord (c : Condition) : OpcodeClass.ofWord? (0x02060000 ||| c.bits) = some (.immediate .word) := by
  cases c <;> decide

/-- The mark is one bit. -/
theorem and_highHalfMarker {w : Word} (h : w &&& Word.highHalfMarker ≠ 0) :
    w &&& Word.highHalfMarker = Word.highHalfMarker := by
  have hbit : w.toNat &&& 2 ^ 16 = (w.toNat.testBit 16).toNat * 2 ^ 16 := Nat.and_two_pow ..
  have hw : (w &&& Word.highHalfMarker).toNat = w.toNat &&& 2 ^ 16 := UInt32.toNat_and ..
  apply UInt32.toNat_inj.1
  cases hb : w.toNat.testBit 16 with
  | true => rw [hw, hbit, hb]; rfl
  | false =>
    refine absurd (UInt32.toNat_inj.1 ?_) h
    rw [hw, hbit, hb]
    rfl

end WordMachine.Instruction
