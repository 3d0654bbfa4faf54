/-
Instructions that were read from words are encoded to the same words, so that no bit of a word is lost in its
instruction. A word is an instruction if and only if it is composed of the pattern of a name and values in the
fields of its operands, where a load of a full word may have the mark of the upper half besides: a word with
any other bit set is none.
-/
import WordMachine.Proofs.Instruction.Pattern

namespace WordMachine.Instruction

open Mnemonic (Entry PatternOf)

variable {w : Word} {k : OpcodeClass}

/-! ## Operands -/

/-- A register index fits into a byte. -/
theorem toUInt32_registerField (w : Word) (position : Nat) :
    (w.registerField position).toUInt8.toUInt32 = w.registerField position := by
  have hle : (w.registerField position).toNat ≤ 7 := by
    rw [Word.registerField, UInt32.toNat_and]
    exact Nat.and_le_right
  apply UInt32.toNat_inj.1
  rw [UInt8.toNat_toUInt32, UInt32.toNat_toUInt8]
  omega

/-- An operand contributes the bits of its field. -/
theorem bits_ofWord {kind : OperandKind} (h : kind ≠ .fullWord) (w : Word) (position : Nat) :
    (Operand.ofWord w position kind).bits position = w &&& kind.fieldMask position := by
  cases kind with
  | register =>
    rw [← OperandKind.pack_extract]
    exact congrArg (OperandKind.pack .register position) (toUInt32_registerField w position)
  | fullWord => exact absurd rfl h
  | _ => rfl

/-- Half of a full word contributes its bits and the mark, if there is one. -/
theorem bits_fullWord (hk : OpcodeClass.ofWord? w = some (.immediate .word)) (position : Nat) :
    (Operand.ofWord w position .fullWord).bits position =
      w &&& Word.highHalfMarker ||| w &&& Word.halfWordMask := by
  have hhalf : (w &&& Word.halfWordMask).toUInt16.toUInt32 = w &&& Word.halfWordMask := by
    have hle : (w &&& Word.halfWordMask).toNat ≤ 0xFFFF := by
      rw [UInt32.toNat_and]
      exact Nat.and_le_right
    apply UInt32.toNat_inj.1
    rw [UInt16.toNat_toUInt32, UInt32.toNat_toUInt16]
    omega
  unfold Operand.ofWord
  dsimp only
  rw [isHighHalf_of_class hk]
  by_cases hmark : w &&& Word.highHalfMarker = 0
  · rw [hmark, if_neg (by decide), UInt32.zero_or]
    rfl
  · rw [if_pos (bne_iff_ne.2 hmark), and_highHalfMarker hmark]
    exact congrArg (Word.highHalfMarker ||| ·) hhalf

theorem addOperands_operandsFrom (w : Word) : ∀ {kinds : Signature} (x : Word) (position : Nat),
    OperandKind.fullWord ∉ kinds →
    addOperands x position (operandsFrom w position kinds) = x ||| w &&& kinds.maskFrom position
  | [], x, _, _ => by
    rw [Signature.maskFrom, UInt32.and_zero, UInt32.or_zero]
    rfl
  | kind :: kinds, x, position, h => by
    rw [List.mem_cons, not_or] at h
    rw [operandsFrom, addOperands, bits_ofWord (Ne.symm h.1), addOperands_operandsFrom w _ _ h.2, Signature.maskFrom,
      Word.and_or, UInt32.or_assoc]

/-- The operands of a word contribute the bits that its class leaves open. -/
theorem addOperands_signature (hk : OpcodeClass.ofWord? w = some k) (x : Word) :
    addOperands x 0 (operandsFrom w 0 k.signature) = x ||| w &&& k.freeMask := by
  by_cases hfull : OperandKind.fullWord ∈ k.signature
  · obtain rfl := fullWord_mem hfull
    have hmask : (OpcodeClass.immediate .word).freeMask =
        OperandKind.fieldMask .register 0 ||| (Word.highHalfMarker ||| Word.halfWordMask) := by decide
    show addOperands x 0 [Operand.ofWord w 0 .register, Operand.ofWord w 1 .fullWord] = _
    rw [addOperands, addOperands, addOperands, bits_ofWord (by decide), bits_fullWord hk, hmask, Word.and_or,
      Word.and_or, UInt32.or_assoc]
  · have hword : k ≠ .immediate .word := by
      rintro rfl
      exact hfull (by decide)
    rw [addOperands_operandsFrom w x 0 hfull, OpcodeClass.freeMask_eq hword]
    rfl

/-! ## Encoding -/

/-- A mnemonic has the pattern that it has under a condition, but for the condition. -/
theorem pattern_of_patternOf {mnemonic : String} {c : Condition} {pattern : Word} (h : PatternOf mnemonic c pattern) :
    ∃ base, Mnemonic.pattern mnemonic = .ok base ∧ base ||| c.bits = pattern := by
  have halways : Condition.bits .always = 0 := by decide
  have hsome {base : Word} (hbase : Mnemonic.pattern? mnemonic = some base) : Mnemonic.pattern mnemonic = .ok base := by
    rw [Mnemonic.pattern, hbase]
  cases h with
  | jump j => exact ⟨j.bits, hsome (Entry.jump j).pattern?, by rw [halways, UInt32.or_zero]⟩
  | @primitive r hr c =>
    have hentry := (PatternOf.primitive hr .always).entry
    have hname : r.1 ++ Condition.suffix .always = r.1 := String.append_empty
    rw [halways, UInt32.or_zero, hname] at hentry
    exact ⟨r.2, hsome hentry.pattern?, rfl⟩

/-- An instruction that was read from a word is encoded to this word. -/
theorem encode_of_ofWord? {i : Instruction} (h : ofWord? w = some i) : i.encode = .ok w := by
  obtain ⟨k, hk, hoperands, hpattern⟩ := pattern_of_ofWord? h
  obtain ⟨base, hbase, hcondition⟩ := pattern_of_patternOf hpattern
  have hword : addOperands (base ||| i.condition.bits) 0 i.operands = w := by
    rw [hoperands, addOperands_signature hk, hcondition, Word.and_or_and_not]
  rw [encode, hbase]
  exact congrArg Except.ok hword

/-! ## Composed words -/

/-- The values fit into the fields of the operands. -/
def Fitting (kinds : Signature) (values : List Word) : Prop :=
  List.Forall₂ (fun kind value => value &&& kind.valueMask = value) kinds values

/-- The words that are made of the pattern of a name, with or without a condition, and operand values in the
fields of its signature. -/
inductive Composed : Word → Prop
  | operands {name : String} {pattern : Word} {k : OpcodeClass} {values : List Word}
      (hname : (name, pattern) ∈ Mnemonic.table) (hk : OpcodeClass.ofWord? pattern = some k)
      (hvalues : Fitting k.signature values) : Composed (pattern ||| k.signature.packFrom 0 values)
  /-- The second word of a load of a full word has a mark besides. -/
  | highHalf {c : Condition} {pattern : Word} {k : OpcodeClass} {values : List Word}
      (hname : ("LOADWORDI" ++ c.suffix, pattern) ∈ Mnemonic.table) (hk : OpcodeClass.ofWord? pattern = some k)
      (hvalues : Fitting k.signature values) :
      Composed (pattern ||| (Word.highHalfMarker ||| k.signature.packFrom 0 values))

theorem fitting_extractFrom (w : Word) : ∀ (position : Nat) (kinds : Signature),
    Fitting kinds (kinds.extractFrom position w)
  | _, [] => .nil
  | position, kind :: kinds => by
    refine .cons ?_ (fitting_extractFrom w (position + 1) kinds)
    rw [← OperandKind.extract_pack kind position, OperandKind.pack_extract, OperandKind.extract_and_fieldMask]

/-- What a word has besides its pattern are its operands and, in a load of a full word, the mark. -/
theorem composed_of_ofWord? {i : Instruction} (h : ofWord? w = some i) : Composed w := by
  obtain ⟨k, hk, -, hpattern⟩ := pattern_of_ofWord? h
  have hclass := class_of_open hk
  have hname := Mnemonic.mem_table.2 hpattern.entry
  have hvalues := fitting_extractFrom w 0 k.signature
  have hpack : k.signature.packFrom 0 (k.signature.extractFrom 0 w) = w &&& k.signature.mask :=
    Signature.packFrom_extractFrom w 0 k.signature
  have hwhole := Word.and_or_and_not w k.freeMask
  by_cases hword : k = .immediate .word
  · subst hword
    rw [OpcodeClass.freeMask, Word.and_or, ← hpack, UInt32.or_comm (Signature.packFrom _ _ _)] at hwhole
    rw [← hwhole]
    by_cases hmark : w &&& Word.highHalfMarker = 0
    · rw [hmark, UInt32.zero_or]
      exact .operands hname hclass hvalues
    · rw [and_highHalfMarker hmark]
      rw [mnemonic_of_fullWord hpattern hclass] at hname
      exact .highHalf hname hclass hvalues
  · rw [OpcodeClass.freeMask_eq hword, ← hpack] at hwhole
    have hcomposed := Composed.operands hname hclass hvalues
    rw [OpcodeClass.freeMask_eq hword, hwhole] at hcomposed
    exact hcomposed

/-- The bits that are added to the pattern of a name lie in what its class leaves open, so that the word is of
this class, or it is the uptime. -/
theorem exists_ofWord? {name : String} {pattern extra : Word} (values : List Word) (hentry : Entry name pattern)
    (hk : OpcodeClass.ofWord? pattern = some k) (hextra : extra &&& k.freeMask = extra)
    (hfields : extra &&& k.signature.mask = 0) :
    ∃ i, ofWord? (pattern ||| (extra ||| k.signature.packFrom 0 values)) = some i := by
  generalize hw : pattern ||| (extra ||| k.signature.packFrom 0 values) = w
  obtain ⟨hpattern, -⟩ := and_of_pack hentry hk hw.symm hextra hfields
  by_cases hdevice : k = .peripheral .memorySize ∧ w.byteField = 0xFF
  · obtain ⟨rfl, hbyte⟩ := hdevice
    obtain ⟨c, -, rfl⟩ := name_of_memorySize hentry hk
    exact ⟨_, ofWord?_of_uptime hpattern hbyte⟩
  · obtain ⟨mnemonic, condition, -, -, hreads⟩ := ofWord?_of_entry hentry
    have hclass := class_of_pattern hentry hk hpattern fun hsize hbyte => hdevice ⟨hsize, hbyte⟩
    exact ⟨_, hreads hclass hpattern⟩

theorem exists_of_composed (h : Composed w) : ∃ i, ofWord? w = some i := by
  cases h with
  | @operands name pattern k values hname hk hvalues =>
    have hread := exists_ofWord? values (Mnemonic.mem_table.1 hname) hk UInt32.zero_and UInt32.zero_and
    rwa [UInt32.zero_or] at hread
  | @highHalf c pattern k values hname hk hvalues =>
    have hentry := Mnemonic.mem_table.1 hname
    obtain rfl : k = .immediate .word := by
      rw [hentry.unique (.primitive loadWord_mem c), class_of_loadWord] at hk
      exact (Option.some.inj hk).symm
    exact exists_ofWord? values hentry hk (by decide) (by decide)

/-- Encoding undoes disassembling, so that no two words are disassembled to one instruction; and a word can be
disassembled if and only if it is composed of a pattern and operands. -/
theorem disassemble_exact (w : Word) :
    (∀ i, disassemble w = .ok i → i.encode = .ok w ∧ ∀ w', disassemble w' = .ok i → w' = w) ∧
      ((∃ i, disassemble w = .ok i) ↔ Composed w) := by
  simp only [disassemble_eq_ok]
  refine ⟨fun i hi => ⟨encode_of_ofWord? hi, fun w' hi' => ?_⟩, ?_, exists_of_composed⟩
  · have hencode := (encode_of_ofWord? hi').symm.trans (encode_of_ofWord? hi)
    exact Except.ok.inj hencode
  · rintro ⟨i, hi⟩
    exact composed_of_ofWord? hi

/-- The second word of a load under a condition; and a comparison with a bit set that belongs to no field. -/
theorem disassemble_exact_load :
    disassemble 0x43C7048D = .ok ⟨"LOADWORDI", .notZero, [.register 7, .highHalf 0x048D]⟩ ∧
      Instruction.encode ⟨"LOADWORDI", .notZero, [.register 7, .highHalf 0x048D]⟩ = .ok 0x43C7048D ∧
      Composed 0x43C7048D ∧ ¬Composed 0x02000080 := by
  have hload : disassemble 0x43C7048D = .ok ⟨"LOADWORDI", .notZero, [.register 7, .highHalf 0x048D]⟩ := by
    decide +kernel
  have hnone : disassemble 0x02000080 = .error ⟨0x02000080⟩ := by decide +kernel
  refine ⟨hload, ((disassemble_exact _).1 _ hload).1, (disassemble_exact _).2.1 ⟨_, hload⟩, fun hcomposed => ?_⟩
  obtain ⟨i, hi⟩ := (disassemble_exact _).2.2 hcomposed
  rw [hnone] at hi
  cases hi

end WordMachine.Instruction
