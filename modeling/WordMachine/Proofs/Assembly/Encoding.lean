/-
The words of an instruction line: the pattern of its name with the values of its operands in their
fields. Read back, the words are the instruction that was written, with every immediate reduced to the
bits of its field.
-/
import WordMachine.Assembly.Encoding
import WordMachine.Proofs.Instruction.Pattern
import WordMachine.Proofs.Result
import Mathlib.Data.Nat.Bitwise

namespace WordMachine.Assembly

open Mnemonic (Entry)
open Instruction (and_of_pack class_of_pattern operandsFrom_of_pack isHighHalf_of_class memorySize_mem
  name_of_memorySize memorySize_of_name fullWord_mem disassemble_eq_ok)

/-! ## Values of operands -/

/-- The operands of the given kinds have these values. -/
def Resolves (labels : LabelTable) : Signature → List String → List Word → Prop
  | [], [], [] => True
  | kind :: kinds, operand :: operands, value :: values =>
    resolveOperand labels kind operand = .ok value ∧ Resolves labels kinds operands values
  | _, _, _ => False

section

variable {labels : LabelTable} {kind : OperandKind} {kinds : Signature} {operands : List String}
  {values : List Word}

theorem resolves_cons {operand : String} :
    Resolves labels (kind :: kinds) (operand :: operands) values ↔
      ∃ value values', values = value :: values' ∧ resolveOperand labels kind operand = .ok value ∧
        Resolves labels kinds operands values' := by
  cases values <;> simp [Resolves]

theorem Resolves.length_eq : ∀ {kinds : Signature} {operands : List String} {values : List Word},
    Resolves labels kinds operands values → kinds.length = operands.length ∧ kinds.length = values.length
  | [], [], [], _ => ⟨rfl, rfl⟩
  | _ :: _, _ :: _, _ :: _, h => by
    obtain ⟨ho, hv⟩ := h.2.length_eq
    simp [← ho, ← hv]

/-- Registers are counted from 0 to 7. -/
theorem resolveOperand_register {operand : String} {value : Word}
    (h : resolveOperand labels .register operand = .ok value) : value &&& 7 = value := by
  cases hc : OperandToken.classify? operand with
  | none => simp [resolveOperand, hc] at h
  | some token =>
    cases token with
    | register n =>
      simp only [resolveOperand, hc] at h
      split at h
      · rename_i hn
        cases h
        have : n = 1 ∨ n = 2 ∨ n = 3 ∨ n = 4 ∨ n = 5 ∨ n = 6 ∨ n = 7 ∨ n = 8 := by omega
        rcases this with rfl | rfl | rfl | rfl | rfl | rfl | rfl | rfl <;> decide
      · cases h
    | _ => simp [resolveOperand, hc] at h

/-! ## Words -/

/-- The values put into their fields. -/
theorem addOperands_eq_ok : ∀ {kinds : Signature} {operands : List String} (position : Nat) {p q : Packed},
    kinds.length = operands.length → OperandKind.fullWord ∉ kinds →
    (p.addOperands labels position kinds operands = .ok q ↔
      ∃ values, Resolves labels kinds operands values ∧
        q = { p with word := p.word ||| kinds.packFrom position values })
  | [], [], position, p, q, _, _ => by
    simp only [Packed.addOperands]
    constructor
    · rintro ⟨⟩
      exact ⟨[], trivial, by simp [Signature.packFrom]⟩
    · rintro ⟨values, -, rfl⟩
      simp [Signature.packFrom]
  | kind :: kinds, operand :: operands, position, p, q, hl, hf => by
    rw [List.mem_cons, not_or] at hf
    have ih (p : Packed) := addOperands_eq_ok (position + 1) (p := p) (q := q) (Nat.succ.inj hl) hf.2
    simp only [Packed.addOperands, bind_eq_ok, if_neg (Ne.symm hf.1), ih]
    constructor
    · rintro ⟨value, hv, values, hvs, rfl⟩
      exact ⟨value :: values, ⟨hv, hvs⟩, by simp [Signature.packFrom, UInt32.or_assoc]⟩
    · rintro ⟨values, hvs, rfl⟩
      obtain ⟨value, values, rfl, hv, hvs⟩ := resolves_cons.1 hvs
      exact ⟨value, hv, values, hvs, by simp [Signature.packFrom, UInt32.or_assoc]⟩

/-- The words of an instruction with these values. -/
def valueWords (pattern : Word) : Signature → List Word → List Word
  | [.register, .fullWord], [register, value] =>
    [pattern ||| Signature.packFrom 0 [.register, .fullWord] [register, value],
      pattern ||| Word.highHalfMarker ||| Signature.packFrom 0 [.register, .fullWord] [register, value >>> 16]]
  | kinds, values => [pattern ||| kinds.packFrom 0 values]

theorem valueWords_of_not_mem {pattern : Word} (h : OperandKind.fullWord ∉ kinds) :
    valueWords pattern kinds values = [pattern ||| kinds.packFrom 0 values] := by
  unfold valueWords
  split
  · simp at h
  · rfl

theorem shiftRight_and_halfWordMask (value : Word) : value >>> 16 &&& Word.halfWordMask = value >>> 16 := by
  have hmask : (value >>> 16).toNat &&& 65535 = (value >>> 16).toNat % 2 ^ 16 :=
    Nat.and_two_pow_sub_one_eq_mod _ 16
  have hlt := UInt32.toNat_lt value
  apply UInt32.toNat_inj.1
  rw [UInt32.toNat_and, show Word.halfWordMask.toNat = 65535 from rfl, hmask, UInt32.toNat_shiftRight]
  simp only [UInt32.reduceToNat, Nat.reduceMod, Nat.shiftRight_eq_div_pow]
  omega

/-- A full word is put into two words, which share the register. -/
theorem addOperands_full {pattern : Word} {operands : List String} {words : List Word} (hl : operands.length = 2) :
    (∃ p, Packed.addOperands labels { word := pattern } 0 [.register, .fullWord] operands = .ok p ∧ p.words = words) ↔
      ∃ values, Resolves labels [.register, .fullWord] operands values ∧
        words = valueWords pattern [.register, .fullWord] values := by
  obtain ⟨first, second, rfl⟩ := List.length_eq_two.1 hl
  have hwords (register value : Word) :
      Packed.words { word := pattern ||| OperandKind.pack .register 0 register, full := some value } =
        valueWords pattern [.register, .fullWord] [register, value] := by
    simp [Packed.words, valueWords, Signature.packFrom, OperandKind.pack, OperandKind.fieldMask,
      shiftRight_and_halfWordMask, UInt32.or_assoc, UInt32.or_comm (_ <<< _) Word.highHalfMarker]
  simp only [Packed.addOperands, bind_eq_ok]
  constructor
  · rintro ⟨p, ⟨register, hr, value, hv, hp⟩, rfl⟩
    cases hp
    exact ⟨[register, value], ⟨hr, hv, trivial⟩, hwords register value⟩
  · rintro ⟨values, hvs, rfl⟩
    obtain ⟨register, values, rfl, hr, hvs⟩ := resolves_cons.1 hvs
    obtain ⟨value, values, rfl, hv, hvs⟩ := resolves_cons.1 hvs
    cases values with
    | nil => exact ⟨_, ⟨register, hr, value, hv, rfl⟩, hwords register value⟩
    | cons => exact hvs.elim

end

theorem lookupMnemonic_eq_ok {mnemonic : String} {pattern : Word} {kinds : Signature} :
    lookupMnemonic mnemonic = .ok (pattern, kinds) ↔
      Mnemonic.pattern? mnemonic = some pattern ∧ ∃ k, OpcodeClass.ofWord? pattern = some k ∧ kinds = k.signature := by
  constructor
  · intro h
    unfold lookupMnemonic at h
    split at h
    · cases h
    · rename_i hp
      split at h
      · cases h
      · rename_i k hk
        cases h
        exact ⟨hp, k, hk, rfl⟩
  · rintro ⟨hp, k, hk, rfl⟩
    simp [lookupMnemonic, hp, hk]

/-- The words of an instruction are those of its pattern with the values of its operands. -/
theorem encode_eq_ok {mnemonic : String} {operands : List String} {labels : LabelTable} {words : List Word}
    (hnop : isNop mnemonic = false) :
    InstructionLine.encode ⟨mnemonic, operands⟩ labels = .ok words ↔
      ∃ pattern k values, Mnemonic.pattern? mnemonic = some pattern ∧ OpcodeClass.ofWord? pattern = some k ∧
        Resolves labels k.signature operands values ∧ words = valueWords pattern k.signature values := by
  have hpack {pattern : Word} (k : OpcodeClass) (hl : k.signature.length = operands.length) :
      (∃ p, Packed.addOperands labels { word := pattern } 0 k.signature operands = .ok p ∧ p.words = words) ↔
        ∃ values, Resolves labels k.signature operands values ∧ words = valueWords pattern k.signature values := by
    by_cases hfull : OperandKind.fullWord ∈ k.signature
    · obtain rfl := fullWord_mem hfull
      exact addOperands_full hl.symm
    · simp only [addOperands_eq_ok 0 hl hfull, valueWords_of_not_mem hfull]
      constructor
      · rintro ⟨p, ⟨values, hvs, rfl⟩, rfl⟩
        exact ⟨values, hvs, rfl⟩
      · rintro ⟨values, hvs, rfl⟩
        exact ⟨_, ⟨values, hvs, rfl⟩, rfl⟩
  simp only [InstructionLine.encode, hnop, Bool.false_eq_true, if_false]
  constructor
  · intro h
    obtain ⟨⟨pattern, kinds⟩, hlookup, h⟩ := bind_eq_ok.1 h
    obtain ⟨hp, k, hk, rfl⟩ := lookupMnemonic_eq_ok.1 hlookup
    by_cases hl : k.signature.length = operands.length
    · rw [if_neg (not_not.2 hl)] at h
      obtain ⟨p, hadd, h⟩ := bind_eq_ok.1 h
      cases h
      obtain ⟨values, hvs, hw⟩ := (hpack k hl).1 ⟨p, hadd, rfl⟩
      exact ⟨pattern, k, values, hp, hk, hvs, hw⟩
    · rw [if_pos hl] at h
      cases h
  · rintro ⟨pattern, k, values, hp, hk, hvs, hw⟩
    have hl := hvs.length_eq.1
    obtain ⟨p, hadd, rfl⟩ := (hpack k hl).2 ⟨values, hvs, hw⟩
    refine bind_eq_ok.2 ⟨(pattern, k.signature), lookupMnemonic_eq_ok.2 ⟨hp, k, hk, rfl⟩, ?_⟩
    rw [if_neg (not_not.2 hl)]
    exact bind_eq_ok.2 ⟨p, hadd, rfl⟩

/-! ## Reading back -/

/-- The operand that a value of the given kind reads back as: a register by its index, an immediate
reduced to the bits of its field. -/
def readOperand : OperandKind → Word → Operand
  | .register, value => .register value.toUInt8
  | .byte, value => .immediate (value % 0x100)
  | .halfWord, value | .fullWord, value => .immediate (value % 0x10000)
  | .address, value => .immediate (value % 0x400000)

/-- The instructions that the words of a line read back as, from its name and the values of its operands. -/
inductive ReadsBack (mnemonic : String) (condition : Condition) : Signature → List Word → List Instruction → Prop
  | single {kinds : Signature} {values : List Word} (hfull : OperandKind.fullWord ∉ kinds)
      (hdevice : mnemonic = "MEMSIZE" → ∀ device ∈ values.getLast?, device % 0x100 ≠ 0xFF) :
      ReadsBack mnemonic condition kinds values [⟨mnemonic, condition, List.zipWith readOperand kinds values⟩]
  /-- A full word is read back in two halves. -/
  | halves {register value low : Word} {high : UInt16} (hlow : low < 0x10000)
      (hvalue : high.toNat * 0x10000 + low.toNat = value.toNat) :
      ReadsBack mnemonic condition [.register, .fullWord] [register, value]
        [⟨mnemonic, condition, [.register register.toUInt8, .immediate low]⟩,
          ⟨mnemonic, condition, [.register register.toUInt8, .highHalf high]⟩]
  /-- The memory size of device `0FFh` is the uptime. -/
  | uptime {register device : Word} (hname : mnemonic = "MEMSIZE") (hdevice : device % 0x100 = 0xFF) :
      ReadsBack mnemonic condition [.register, .byte] [register, device]
        [⟨"UPTIME", condition, [.register register.toUInt8]⟩]

theorem and_eq_mod {mask bound : Word} {n : Nat} (hm : mask.toNat = 2 ^ n - 1) (hb : bound.toNat = 2 ^ n)
    (value : Word) : value &&& mask = value % bound := by
  apply UInt32.toNat_inj.1
  rw [UInt32.toNat_and, hm, Nat.and_two_pow_sub_one_eq_mod, UInt32.toNat_mod, hb]

theorem and_halfWordMask (w : Word) : w &&& Word.halfWordMask = w % 0x10000 := and_eq_mod (n := 16) rfl rfl w

/-- What the fields hold is read as the operands of the line. -/
theorem zipWith_ofField {labels : LabelTable} (high : Bool) : ∀ {kinds : Signature} {operands : List String}
    {values : List Word}, Resolves labels kinds operands values → OperandKind.fullWord ∉ kinds →
    List.zipWith (Operand.ofField high) kinds
        (List.zipWith (fun (kind : OperandKind) value => value &&& kind.valueMask) kinds values) =
      List.zipWith readOperand kinds values
  | [], [], [], _, _ => rfl
  | kind :: kinds, operand :: operands, value :: values, h, hfull => by
    rw [List.mem_cons, not_or] at hfull
    have hfield : Operand.ofField high kind (value &&& kind.valueMask) = readOperand kind value := by
      cases kind with
      | register =>
        simp only [Operand.ofField, readOperand, OperandKind.valueMask]
        rw [resolveOperand_register h.1]
      | byte => exact congrArg Operand.immediate (and_eq_mod (n := 8) rfl rfl value)
      | halfWord => exact congrArg Operand.immediate (and_halfWordMask value)
      | address => exact congrArg Operand.immediate (and_eq_mod (n := 22) rfl rfl value)
      | fullWord => exact absurd rfl hfull.1
    rw [List.zipWith_cons_cons, List.zipWith_cons_cons, List.zipWith_cons_cons, hfield,
      zipWith_ofField high h.2 hfull.2]

theorem byteField_of_pack {w register device : Word}
    (hw : w &&& Signature.mask [.register, .byte] = Signature.packFrom 0 [.register, .byte] [register, device]) :
    w.byteField = device % 0x100 := by
  have h := Signature.extractFrom_of_and_eq (by decide) (by rfl) hw
  exact (List.cons.inj (List.cons.inj h).2).1.trans (and_eq_mod (n := 8) rfl rfl device)

/-! ### Words of a line -/

/-- The words with these values read back as an instruction of the given name. -/
def ReadBackAs (name : String) (pattern : Word) (kinds : Signature) (values : List Word) : Prop :=
  ∃ mnemonic condition instructions, Instruction.Spells mnemonic condition name ∧
    Mnemonic.PatternOf mnemonic condition pattern ∧ ReadsBack mnemonic condition kinds values instructions ∧
    (valueWords pattern kinds values).map Instruction.ofWord? = instructions.map some

section

variable {labels : LabelTable} {name : String} {pattern : Word} {k : OpcodeClass} {operands : List String}
  {values : List Word}

/-- One word reads back as the instruction that was written. -/
theorem readBackAs_single (hentry : Entry name pattern) (hk : OpcodeClass.ofWord? pattern = some k)
    (hvs : Resolves labels k.signature operands values) (hfull : OperandKind.fullWord ∉ k.signature)
    (hdevice : k = .peripheral .memorySize → ∀ device ∈ values.getLast?, device % 0x100 ≠ 0xFF) :
    ReadBackAs name pattern k.signature values := by
  obtain ⟨mnemonic, condition, hspells, hpatternOf, hreads⟩ := Instruction.ofWord?_of_entry hentry
  generalize hw : pattern ||| k.signature.packFrom 0 values = w
  have hsum : w = pattern ||| (0 ||| k.signature.packFrom 0 values) := by rw [UInt32.zero_or, hw]
  obtain ⟨hpattern, hfields⟩ := and_of_pack hentry hk hsum UInt32.zero_and UInt32.zero_and
  have hoperands := operandsFrom_of_pack k.apart_signature.1 hvs.length_eq.2 hfields
  have hbyte : k = .peripheral .memorySize → w.byteField ≠ 0xFF := by
    rintro rfl
    obtain ⟨register, device, rfl⟩ := List.length_eq_two.1 hvs.length_eq.2.symm
    rw [byteField_of_pack hfields]
    exact hdevice rfl device rfl
  refine ⟨mnemonic, condition, _, hspells, hpatternOf, .single hfull ?_, ?_⟩
  · rintro rfl
    exact hdevice (memorySize_of_name hpatternOf.entry hk)
  · rw [valueWords_of_not_mem hfull, hw, List.map_singleton, List.map_singleton,
      hreads (class_of_pattern hentry hk hpattern hbyte) hpattern, hoperands, zipWith_ofField _ hvs hfull]

/-- The mark of the upper half is apart from the name and the fields of a load of a full word. -/
theorem mark_of_pack (hentry : Entry name pattern) (hk : OpcodeClass.ofWord? pattern = some (.immediate .word))
    (extra : Word) (values : List Word) :
    (pattern ||| (extra ||| Signature.packFrom 0 [.register, .fullWord] values)) &&& Word.highHalfMarker =
      extra &&& Word.highHalfMarker := by
  have hopen : pattern &&& Word.highHalfMarker = 0 := by
    have h := congrArg (· &&& Word.highHalfMarker) (hentry.and_freeMask hk)
    rwa [UInt32.and_assoc, UInt32.zero_and] at h
  have hpack := Word.and_eq_zero (f := Word.highHalfMarker)
    (Signature.packFrom_and_maskFrom 0 [.register, .fullWord] values) (by decide)
  rw [Word.or_and, Word.or_and, hopen, hpack, UInt32.zero_or, UInt32.or_zero]

/-- A load of a full word reads back as two. -/
theorem readBackAs_halves (hentry : Entry name pattern) (hk : OpcodeClass.ofWord? pattern = some (.immediate .word))
    (hvs : Resolves labels [.register, .fullWord] operands values) :
    ReadBackAs name pattern [.register, .fullWord] values := by
  obtain ⟨mnemonic, condition, hspells, hpatternOf, hreads⟩ := Instruction.ofWord?_of_entry hentry
  obtain ⟨register, value, rfl⟩ := List.length_eq_two.1 hvs.length_eq.2.symm
  obtain ⟨first, second, rfl⟩ := List.length_eq_two.1 hvs.length_eq.1.symm
  have hregister := resolveOperand_register hvs.1
  -- either word: what is read depends on the mark only
  have hword (extra half : Word) (hextra : extra = 0 ∨ extra = Word.highHalfMarker) :
      Instruction.ofWord? (pattern ||| (extra ||| Signature.packFrom 0 [.register, .fullWord] [register, half])) =
        some ⟨mnemonic, condition, [.register register.toUInt8,
          Operand.ofField (extra != 0) .fullWord (half &&& Word.halfWordMask)]⟩ := by
    generalize hw : pattern ||| (extra ||| Signature.packFrom 0 [.register, .fullWord] [register, half]) = w
    obtain ⟨hpattern, hfields⟩ := and_of_pack hentry hk hw.symm (by rcases hextra with rfl | rfl <;> decide)
      (by rcases hextra with rfl | rfl <;> decide)
    have hclass := class_of_pattern hentry hk hpattern (by simp)
    have hmark : w &&& Word.highHalfMarker = extra := by
      rw [← hw, mark_of_pack hentry hk]
      rcases hextra with rfl | rfl <;> decide
    rw [hreads hclass hpattern, operandsFrom_of_pack (by decide) (by rfl) hfields, isHighHalf_of_class hclass, hmark]
    show some (Instruction.mk _ _ [.register (register &&& 7).toUInt8,
      Operand.ofField _ .fullWord (half &&& Word.halfWordMask)]) = _
    rw [hregister]
  have hlow := hword 0 value (.inl rfl)
  have hhigh := hword Word.highHalfMarker (value >>> 16) (.inr rfl)
  rw [UInt32.zero_or, and_halfWordMask] at hlow
  rw [shiftRight_and_halfWordMask, ← UInt32.or_assoc] at hhigh
  refine ⟨mnemonic, condition, [⟨mnemonic, condition, [.register register.toUInt8, .immediate (value % 0x10000)]⟩,
    ⟨mnemonic, condition, [.register register.toUInt8, .highHalf (value >>> 16).toUInt16]⟩], hspells, hpatternOf,
    .halves ?_ ?_, ?_⟩
  · rw [UInt32.lt_iff_toNat_lt, UInt32.toNat_mod]
    exact Nat.mod_lt _ (by decide)
  · have hlt := UInt32.toNat_lt value
    rw [UInt32.toNat_toUInt16, UInt32.toNat_shiftRight, UInt32.toNat_mod, Nat.shiftRight_eq_div_pow]
    simp only [UInt32.reduceToNat, Nat.reduceMod]
    omega
  · rw [valueWords, List.map_cons, List.map_singleton, hlow, hhigh]
    rfl

/-- The memory size of device `0FFh` reads back as the uptime. -/
theorem readBackAs_uptime (hentry : Entry name pattern)
    (hk : OpcodeClass.ofWord? pattern = some (.peripheral .memorySize))
    {register device : Word} (hvs : Resolves labels [.register, .byte] operands [register, device])
    (hdevice : device % 0x100 = 0xFF) : ReadBackAs name pattern [.register, .byte] [register, device] := by
  obtain ⟨c, rfl, rfl⟩ := name_of_memorySize hentry hk
  obtain ⟨first, second, rfl⟩ := List.length_eq_two.1 hvs.length_eq.1.symm
  generalize hw : (0x1E000100 ||| c.bits) ||| Signature.packFrom 0 [.register, .byte] [register, device] = w
  have hsum : w = 0x1E000100 ||| c.bits ||| (0 ||| Signature.packFrom 0 [.register, .byte] [register, device]) := by
    rw [UInt32.zero_or, hw]
  obtain ⟨hpattern, hfields⟩ := and_of_pack hentry hk hsum UInt32.zero_and UInt32.zero_and
  have hregister : Word.registerField 0 w = register :=
    (List.cons.inj (Signature.extractFrom_of_and_eq (by decide) (by rfl) hfields)).1.trans
      (resolveOperand_register hvs.1)
  refine ⟨"MEMSIZE", c, _, .inl rfl, .primitive memorySize_mem c, .uptime rfl hdevice, ?_⟩
  rw [valueWords_of_not_mem (by decide), hw, List.map_singleton,
    Instruction.ofWord?_of_uptime hpattern ((byteField_of_pack hfields).trans hdevice)]
  simp [Instruction.operandsFrom, Operand.ofWord, OperandKind.extract, hregister]

/-- The words of a line read back as the line, whatever the values of its operands are. -/
theorem readBackAs_of_resolves (hentry : Entry name pattern) (hk : OpcodeClass.ofWord? pattern = some k)
    (hvs : Resolves labels k.signature operands values) : ReadBackAs name pattern k.signature values := by
  by_cases hfull : OperandKind.fullWord ∈ k.signature
  · obtain rfl := fullWord_mem hfull
    exact readBackAs_halves hentry hk hvs
  · by_cases hsize : k = .peripheral .memorySize
    · subst hsize
      obtain ⟨register, device, rfl⟩ := List.length_eq_two.1 hvs.length_eq.2.symm
      by_cases hdevice : device % 0x100 = 0xFF
      · exact readBackAs_uptime hentry hk hvs hdevice
      · refine readBackAs_single hentry hk hvs hfull fun _ => ?_
        rintro _ ⟨⟩
        exact hdevice
    · exact readBackAs_single hentry hk hvs hfull fun h => absurd h hsize

end

theorem map_disassemble {words : List Word} {instructions : List Instruction}
    (h : words.map Instruction.ofWord? = instructions.map some) :
    words.map Instruction.disassemble = instructions.map .ok := by
  rw [← List.forall₂_eq_eq_eq, List.forall₂_map_left_iff, List.forall₂_map_right_iff] at h ⊢
  exact h.imp fun _ _ => disassemble_eq_ok.2

/-- Whatever line is encoded, its words are instructions. They have the name of the line, or the first name
of the same pattern, and the operands of the line with the values they stand for. `NOP` is a move of a
register to itself. -/
theorem disassemble_encode {line : InstructionLine} {labels : LabelTable} {words : List Word}
    (h : line.encode labels = .ok words) :
    isNop line.mnemonic = true ∧
        words.map Instruction.disassemble = [.ok ⟨"MOV", .always, [.register 0, .register 0]⟩] ∨
      ∃ mnemonic condition kinds values instructions,
        Instruction.Spells mnemonic condition (Text.upper line.mnemonic) ∧
        Mnemonic.pattern? (mnemonic ++ condition.suffix) = Mnemonic.pattern? line.mnemonic ∧
        (lookupMnemonic line.mnemonic).map (·.2) = .ok kinds ∧
        Resolves labels kinds line.operands values ∧
        ReadsBack mnemonic condition kinds values instructions ∧
        words.map Instruction.disassemble = instructions.map .ok := by
  cases hnop : isNop line.mnemonic with
  | true =>
    refine .inl ⟨rfl, ?_⟩
    simp only [InstructionLine.encode, hnop, if_true] at h
    split at h
    · cases h
      decide +kernel
    · cases h
  | false =>
    obtain ⟨pattern, k, values, hp, hk, hvs, rfl⟩ := (encode_eq_ok hnop).1 h
    obtain ⟨mnemonic, condition, instructions, hspells, hpatternOf, hreads, hwords⟩ :=
      readBackAs_of_resolves (Mnemonic.pattern?_eq_some.1 hp) hk hvs
    refine .inr ⟨mnemonic, condition, k.signature, values, instructions, hspells, ?_, ?_, hvs, hreads,
      map_disassemble hwords⟩
    · rw [hpatternOf.entry.pattern?, hp]
    · rw [lookupMnemonic_eq_ok.2 ⟨hp, k, hk, rfl⟩]
      rfl

/-- A full word from a label, under a condition and in mixed case. -/
theorem disassemble_encode_label :
    InstructionLine.encode ⟨"LoadWordInz", ["R8", "@Loop"]⟩ [(⟨"loop"⟩, 0x12345678)] = .ok [0x43C6159E, 0x43C7048D] ∧
      ∃ mnemonic condition kinds values instructions,
        Instruction.Spells mnemonic condition (Text.upper "LoadWordInz") ∧
        Mnemonic.pattern? (mnemonic ++ condition.suffix) = Mnemonic.pattern? "LoadWordInz" ∧
        (lookupMnemonic "LoadWordInz").map (·.2) = .ok kinds ∧
        Resolves [(⟨"loop"⟩, 0x12345678)] kinds ["R8", "@Loop"] values ∧
        ReadsBack mnemonic condition kinds values instructions ∧
        ([0x43C6159E, 0x43C7048D] : List Word).map Instruction.disassemble = instructions.map .ok := by
  have h : InstructionLine.encode ⟨"LoadWordInz", ["R8", "@Loop"]⟩ [(⟨"loop"⟩, 0x12345678)] =
      .ok [0x43C6159E, 0x43C7048D] := by decide +kernel
  exact ⟨h, (disassemble_encode h).resolve_left fun hnop => absurd hnop.1 (by decide +kernel)⟩

end WordMachine.Assembly
