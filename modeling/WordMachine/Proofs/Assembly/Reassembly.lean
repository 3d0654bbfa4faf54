/-
Disassembled words assemble to themselves. The text of an instruction is a plain line whose operands have
the values that were read from the word, and these values in their fields are the word again. The two words
of a load of a full word come from one line with the whole value.
-/
import WordMachine.Proofs.Assembly.OperandWords
import WordMachine.Proofs.Assembly.StraightLine
import Mathlib.Data.Nat.Bitwise

namespace WordMachine.Assembly

open Mnemonic (PatternOf)
open Instruction (class_of_open mnemonic_of_fullWord fullWord_mem isHighHalf_of_class loadWord_mem class_of_loadWord
  and_highHalfMarker disassemble_eq_ok)

/-! ## Texts of operands -/

/-- A number in the form that operands are written in. -/
theorem classify?_hex (v : Word) :
    OperandToken.classify? ("0" ++ Text.hex v.toNat ++ "h") = some (.integer v) := by
  have hchars : ("0" ++ Text.hex v.toNat ++ "h").toList =
      (Text.zerosAndDigits 16 1 v.toNat).map Char.toUpper ++ ['h'] := by
    have hzero : Char.toUpper '0' = '0' := rfl
    simp [Text.zerosAndDigits, Text.hex, hzero]
  have hmem : (Text.zerosAndDigits 16 1 v.toNat).map Char.toUpper ++ ['h'] ∈ OperandToken.spellings v 1 := by
    simp [OperandToken.spellings]
  refine OperandToken.classify?_of_denotes ?_
  rw [hchars]
  exact OperandToken.denotes_of_mem_spellings hmem

theorem resolveOperand_hex {labels : LabelTable} {kind : OperandKind} (hkind : kind ≠ .register) (value : Word) :
    resolveOperand labels kind ("0" ++ Text.hex value.toNat ++ "h") = .ok value := by
  have hclass := classify?_hex value
  cases kind with
  | register => exact absurd rfl hkind
  | _ => simp [resolveOperand, hclass]

theorem classify?_register : ∀ n < 8,
    OperandToken.classify? ("r" ++ toString (n + 1)) = some (.register (n + 1)) ∧
      ("r" ++ toString (n + 1)).toList ≠ [] ∧ ("r" ++ toString (n + 1)).toList.all Char.isAlphanum = true := by
  decide +kernel

theorem toNat_register {value : Word} (h : value &&& 7 = value) :
    value.toNat < 8 ∧ value.toUInt8.toNat = value.toNat := by
  have hlt : value.toNat < 8 := by
    rw [← h, UInt32.toNat_and]
    exact Nat.lt_succ_of_le Nat.and_le_right
  rw [UInt32.toNat_toUInt8]
  omega

/-- A register is written by its number, and read by its index. -/
theorem resolveOperand_register_text (labels : LabelTable) {value : Word} (h : value &&& 7 = value) :
    resolveOperand labels .register ("r" ++ toString (value.toUInt8.toNat + 1)) = .ok value ∧
      PlainWord ("r" ++ toString (value.toUInt8.toNat + 1)) := by
  obtain ⟨hlt, hindex⟩ := toNat_register h
  obtain ⟨hclass, hne, halphanum⟩ := classify?_register value.toNat hlt
  rw [hindex]
  refine ⟨?_, hne, List.all_eq_true.1 halphanum⟩
  simp only [resolveOperand, hclass]
  rw [if_pos (by omega), Nat.add_sub_cancel, toUInt32_toNat]

theorem plainWord_hex (n : Nat) : PlainWord ("0" ++ Text.hex n ++ "h") := by
  have hchars : ("0" ++ Text.hex n ++ "h").toList = '0' :: (Text.hex n).toList ++ ['h'] := by simp
  constructor
  · simp [hchars]
  · rw [hchars]
    intro c hc
    simp only [List.cons_append, List.mem_cons, List.mem_append, List.not_mem_nil, or_false] at hc
    rcases hc with rfl | hc | rfl
    · rfl
    · exact Text.isAlphanum_of_mem_hex c hc
    · rfl

/-- The text of an operand has the value that was read from its field. -/
theorem resolveOperand_render (labels : LabelTable) {kind : OperandKind} (hkind : kind ≠ .fullWord) (w : Word)
    (position : Nat) :
    resolveOperand labels kind (Operand.ofWord w position kind).render = .ok (kind.extract position w) ∧
      PlainWord (Operand.ofWord w position kind).render := by
  cases kind with
  | register =>
    refine resolveOperand_register_text labels ?_
    show _ &&& 7 &&& 7 = _
    rw [UInt32.and_assoc, UInt32.and_self]
    rfl
  | fullWord => exact absurd rfl hkind
  | _ => exact ⟨resolveOperand_hex (by simp) _, plainWord_hex _⟩

theorem resolves_render (labels : LabelTable) (w : Word) : ∀ {kinds : Signature} (position : Nat),
    OperandKind.fullWord ∉ kinds →
    Resolves labels kinds ((Instruction.operandsFrom w position kinds).map Operand.render)
        (kinds.extractFrom position w) ∧
      ∀ o ∈ (Instruction.operandsFrom w position kinds).map Operand.render, PlainWord o
  | [], _, _ => ⟨trivial, by simp [Instruction.operandsFrom]⟩
  | kind :: kinds, position, h => by
    rw [List.mem_cons, not_or] at h
    obtain ⟨hvalue, hplain⟩ := resolveOperand_render labels (Ne.symm h.1) w position
    obtain ⟨hvalues, hplains⟩ := resolves_render labels w (position + 1) h.2
    refine ⟨⟨hvalue, hvalues⟩, ?_⟩
    rw [Instruction.operandsFrom, List.map_cons]
    exact List.forall_mem_cons.2 ⟨hplain, hplains⟩

/-! ## Names -/

theorem primitives_plain : ∀ r ∈ Mnemonic.primitives,
    ¬r.1.toList.map Char.toUpper <+: ['N', 'O', 'P'] ∧ r.1.toList ≠ [] ∧ r.1.toList.all Char.isAlphanum = true := by
  decide +kernel

/-- No instruction has the name `NOP`, and all names are plain. -/
theorem plainWord_of_pattern {mnemonic : String} {c : Condition} {w : Word} (h : PatternOf mnemonic c w) :
    isNop (mnemonic ++ c.suffix) = false ∧ PlainWord (mnemonic ++ c.suffix) := by
  have hplain : ¬mnemonic.toList.map Char.toUpper <+: ['N', 'O', 'P'] ∧ mnemonic.toList ≠ [] ∧
      mnemonic.toList.all Char.isAlphanum = true := by
    cases h with
    | jump j => cases j <;> decide +kernel
    | primitive hr c => exact primitives_plain _ hr
  have hsuffix : c.suffix.toList.all Char.isAlphanum = true := by cases c <;> decide +kernel
  refine ⟨?_, ?_, ?_⟩
  · rw [isNop, beq_eq_false_iff_ne, String.toList_append, List.map_append]
    exact fun hnop => hplain.1 ⟨_, hnop⟩
  · simp [hplain.2.1]
  · rw [String.toList_append]
    exact List.forall_mem_append.2 ⟨List.all_eq_true.1 hplain.2.2, List.all_eq_true.1 hsuffix⟩

/-! ## Words -/

theorem any_isHighHalf (w : Word) : ∀ {kinds : Signature} (position : Nat), OperandKind.fullWord ∉ kinds →
    (Instruction.operandsFrom w position kinds).any Operand.isHighHalf = false
  | [], _, _ => rfl
  | kind :: kinds, position, h => by
    rw [List.mem_cons, not_or] at h
    rw [Instruction.operandsFrom, List.any_cons, any_isHighHalf w (position + 1) h.2]
    cases kind with
    | fullWord => exact absurd rfl h.1
    | _ => rfl

/-- The line of an instruction. -/
def lineOf (i : Instruction) : InstructionLine := ⟨i.mnemonic ++ i.condition.suffix, i.operands.map Operand.render⟩

/-- The line that a word other than a part of a load of a full word is disassembled to has that word. -/
theorem encode_lineOf {w : Word} {i : Instruction} (h : Instruction.ofWord? w = some i)
    (hne : i.mnemonic ≠ "LOADWORDI") :
    i.render = (lineOf i).text ∧ PlainLine (lineOf i) ∧ (lineOf i).encode [] = .ok [w] := by
  obtain ⟨k, hk, hoperands, hpattern⟩ := Instruction.pattern_of_ofWord? h
  have hclass := class_of_open hk
  have hword : k ≠ .immediate .word := by
    rintro rfl
    exact hne (mnemonic_of_fullWord hpattern hclass)
  have hfull : OperandKind.fullWord ∉ k.signature := fun hmem => hword (fullWord_mem hmem)
  obtain ⟨hvalues, hplains⟩ := resolves_render [] w 0 hfull
  obtain ⟨hnop, hname⟩ := plainWord_of_pattern hpattern
  have hhigh : i.operands.any Operand.isHighHalf = false := by
    rw [hoperands]
    exact any_isHighHalf w 0 hfull
  rw [← hoperands] at hvalues hplains
  have hwords : [w] = valueWords (w &&& ~~~k.freeMask) k.signature (k.signature.extractFrom 0 w) := by
    rw [valueWords_of_not_mem hfull, Signature.packFrom_extractFrom, OpcodeClass.freeMask_eq hword]
    exact congrArg (fun x => [x]) (Word.and_or_and_not w k.signature.mask).symm
  have hencode : (lineOf i).encode [] = .ok [w] := by
    rw [lineOf, encode_eq_ok hnop]
    exact ⟨_, k, _, hpattern.entry.pattern?, hclass, hvalues, hwords⟩
  refine ⟨?_, ⟨hname, hplains⟩, hencode⟩
  rw [Instruction.render, hhigh]
  simp [lineOf, InstructionLine.text, instructionText]

/-! ## Loads of full words -/

theorem pattern_of_loadWord {c : Condition} {pattern : Word} (h : PatternOf "LOADWORDI" c pattern) :
    pattern = 0x02060000 ||| c.bits :=
  h.entry.unique (.primitive loadWord_mem c)

/-- A part of a load of a full word is made of its pattern, the mark, the register and half of the value. -/
theorem parts_of_loadWord {w : Word} {c : Condition} {operands : List Operand}
    (h : Instruction.ofWord? w = some ⟨"LOADWORDI", c, operands⟩) :
    operands = [.register (w.registerField 0).toUInt8,
        if w &&& Word.highHalfMarker = 0 then .immediate (w &&& Word.halfWordMask)
        else .highHalf (w &&& Word.halfWordMask).toUInt16] ∧
      w = (0x02060000 ||| c.bits) ||| ((w &&& Word.highHalfMarker) |||
        Signature.packFrom 0 [.register, .fullWord] [w.registerField 0, w &&& Word.halfWordMask]) := by
  obtain ⟨k, hk, hoperands, hpattern⟩ := Instruction.pattern_of_ofWord? h
  have hpattern := pattern_of_loadWord hpattern
  have hclass := class_of_open hk
  rw [hpattern, class_of_loadWord] at hclass
  cases hclass
  constructor
  · simp only at hoperands
    rw [hoperands]
    simp [OpcodeClass.signature, Instruction.operandsFrom, Operand.ofWord, OperandKind.extract, isHighHalf_of_class hk,
      OperandKind.fieldMask]
  · have hfields : w &&& (OpcodeClass.immediate .word).freeMask = w &&& Word.highHalfMarker |||
        Signature.packFrom 0 [.register, .fullWord] [w.registerField 0, w &&& Word.halfWordMask] := by
      have hextract := Signature.packFrom_extractFrom w 0 [.register, .fullWord]
      rw [OpcodeClass.freeMask, Word.and_or, UInt32.or_comm]
      exact congrArg _ hextract.symm
    rw [← hfields, ← hpattern, Word.and_or_and_not]

/-- The part with the lower half has no mark. -/
theorem low_of_loadWord {w l : Word} {c : Condition} {register : UInt8}
    (h : Instruction.ofWord? w = some ⟨"LOADWORDI", c, [.register register, .immediate l]⟩) :
    register = (w.registerField 0).toUInt8 ∧ l = w &&& Word.halfWordMask ∧
      w = (0x02060000 ||| c.bits) |||
        Signature.packFrom 0 [.register, .fullWord] [w.registerField 0, w &&& Word.halfWordMask] := by
  obtain ⟨hoperands, hparts⟩ := parts_of_loadWord h
  have hmark : w &&& Word.highHalfMarker = 0 := by
    by_contra hmark
    simp [hmark] at hoperands
  simp only [hmark, if_true, List.cons.injEq, Operand.register.injEq, Operand.immediate.injEq, and_true] at hoperands
  rw [hmark, UInt32.zero_or] at hparts
  exact ⟨hoperands.1, hoperands.2, hparts⟩

/-- The part with the upper half has the mark. -/
theorem high_of_loadWord {w : Word} {c : Condition} {register : UInt8} {h : UInt16}
    (hw : Instruction.ofWord? w = some ⟨"LOADWORDI", c, [.register register, .highHalf h]⟩) :
    register = (w.registerField 0).toUInt8 ∧ h = (w &&& Word.halfWordMask).toUInt16 ∧
      w = (0x02060000 ||| c.bits) ||| (Word.highHalfMarker |||
        Signature.packFrom 0 [.register, .fullWord] [w.registerField 0, w &&& Word.halfWordMask]) := by
  obtain ⟨hoperands, hparts⟩ := parts_of_loadWord hw
  have hmark : w &&& Word.highHalfMarker = Word.highHalfMarker := by
    refine and_highHalfMarker fun hmark => ?_
    simp [hmark] at hoperands
  rw [hmark, if_neg (by decide)] at hoperands
  simp only [List.cons.injEq, Operand.register.injEq, Operand.highHalf.injEq, and_true] at hoperands
  rw [hmark] at hparts
  exact ⟨hoperands.1, hoperands.2, hparts⟩

/-- Two halves are the halves of a word. -/
theorem exists_halves (low high : Word) : ∃ value : Word,
    value.toNat = (high &&& Word.halfWordMask).toUInt16.toNat * 0x10000 + (low &&& Word.halfWordMask).toNat ∧
      value &&& Word.halfWordMask = low &&& Word.halfWordMask ∧ value >>> 16 = high &&& Word.halfWordMask := by
  have hvalue : (Nat.toUInt32 (high.toNat % 0x10000 * 0x10000 + low.toNat % 0x10000)).toNat =
      high.toNat % 0x10000 * 0x10000 + low.toNat % 0x10000 := by
    rw [Nat.toUInt32, UInt32.toNat_ofNat']
    omega
  refine ⟨_, hvalue.trans ?_, ?_, ?_⟩
  · simp [and_halfWordMask]
  · apply UInt32.toNat_inj.1
    rw [and_halfWordMask, and_halfWordMask, UInt32.toNat_mod, UInt32.toNat_mod, hvalue]
    simp only [UInt32.reduceToNat]
    omega
  · apply UInt32.toNat_inj.1
    rw [UInt32.toNat_shiftRight, hvalue, and_halfWordMask, UInt32.toNat_mod, Nat.shiftRight_eq_div_pow]
    simp only [UInt32.reduceToNat, Nat.reduceMod]
    omega

/-- Only the lower half of a value is put into a word. -/
theorem packFrom_fullWord {value value' : Word} (register : Word)
    (h : value &&& Word.halfWordMask = value' &&& Word.halfWordMask) :
    Signature.packFrom 0 [.register, .fullWord] [register, value] =
      Signature.packFrom 0 [.register, .fullWord] [register, value'] := by
  simp only [Signature.packFrom, OperandKind.pack, OperandKind.fieldMask, h]

theorem registerField_and (w : Word) (position : Nat) : w.registerField position &&& 7 = w.registerField position := by
  rw [Word.registerField, UInt32.and_assoc, UInt32.and_self]

theorem registerField_eq {w w' : Word} (h : (w.registerField 0).toUInt8 = (w'.registerField 0).toUInt8) :
    w.registerField 0 = w'.registerField 0 := by
  apply UInt32.toNat_inj.1
  rw [← (toNat_register (registerField_and w 0)).2, ← (toNat_register (registerField_and w' 0)).2, h]

/-- The line with the whole value has the two words of a load. -/
theorem encode_loadWord {low high : Word} {c : Condition} {register : UInt8} {l : Word} {h : UInt16}
    (hlow : Instruction.ofWord? low = some ⟨"LOADWORDI", c, [.register register, .immediate l]⟩)
    (hhigh : Instruction.ofWord? high = some ⟨"LOADWORDI", c, [.register register, .highHalf h]⟩) :
    PlainLine ⟨"LOADWORDI" ++ c.suffix,
      ["r" ++ toString (register.toNat + 1), "0" ++ Text.hex (h.toNat * 0x10000 + l.toNat) ++ "h"]⟩ ∧
    InstructionLine.encode ⟨"LOADWORDI" ++ c.suffix,
      ["r" ++ toString (register.toNat + 1), "0" ++ Text.hex (h.toNat * 0x10000 + l.toNat) ++ "h"]⟩ [] =
        .ok [low, high] := by
  obtain ⟨hregister, rfl, hlowParts⟩ := low_of_loadWord hlow
  obtain ⟨hregister', rfl, hhighParts⟩ := high_of_loadWord hhigh
  have hsame : high.registerField 0 = low.registerField 0 := registerField_eq (hregister'.symm.trans hregister)
  obtain ⟨value, hvalue, hvalueLow, hvalueHigh⟩ := exists_halves low high
  rw [← hvalue, hregister]
  have hpattern : PatternOf "LOADWORDI" c (0x02060000 ||| c.bits) := .primitive loadWord_mem c
  obtain ⟨hnop, hname⟩ := plainWord_of_pattern hpattern
  obtain ⟨hresolved, hplain⟩ := resolveOperand_register_text [] (registerField_and low 0)
  constructor
  · refine ⟨hname, ?_⟩
    simp only [List.mem_cons, List.not_mem_nil, or_false, forall_eq_or_imp, forall_eq]
    exact ⟨hplain, plainWord_hex _⟩
  · -- the encoder puts the value itself into the first word and the value moved down into the second
    have hhalf : low &&& Word.halfWordMask &&& Word.halfWordMask = value &&& Word.halfWordMask := by
      rw [UInt32.and_assoc, UInt32.and_self, hvalueLow]
    rw [packFrom_fullWord _ hhalf] at hlowParts
    rw [hsame, ← hvalueHigh, ← UInt32.or_assoc] at hhighParts
    have hwords : [low, high] =
        valueWords (0x02060000 ||| c.bits) [.register, .fullWord] [low.registerField 0, value] :=
      congrArg₂ (fun a b => [a, b]) hlowParts hhighParts
    rw [encode_eq_ok hnop]
    exact ⟨_, .immediate .word, [low.registerField 0, value], hpattern.entry.pattern?, class_of_loadWord c,
      ⟨hresolved, resolveOperand_hex (by simp) value, trivial⟩, hwords⟩

/-! ## Disassembled words -/

theorem encodes_disassembly {words : List Word} {instructions : List Instruction}
    (h : List.Forall₂ (fun w i => Instruction.disassemble w = .ok i ∧ i.mnemonic ≠ "LOADWORDI") words instructions) :
    (∀ i ∈ instructions, i.render = (lineOf i).text ∧ PlainLine (lineOf i)) ∧
      Encodes (instructions.map lineOf) (words.map fun w => [w]) := by
  induction h with
  | nil => exact ⟨by simp, .nil⟩
  | cons hi _ ih =>
    obtain ⟨htext, hplain, hencode⟩ := encode_lineOf (disassemble_eq_ok.1 hi.1) hi.2
    exact ⟨List.forall_mem_cons.2 ⟨⟨htext, hplain⟩, ih.1⟩, .cons hencode ih.2⟩

theorem assemblesTo_disassembly {words : List Word} {instructions : List Instruction}
    (h : List.Forall₂ (fun w i => Instruction.disassemble w = .ok i ∧ i.mnemonic ≠ "LOADWORDI") words instructions) :
    AssemblesTo (String.join (instructions.map fun i => i.render ++ ";\n")) words := by
  obtain ⟨hlines, hencodes⟩ := encodes_disassembly h
  have hplain : ∀ l ∈ instructions.map lineOf, PlainLine l := by
    intro l hl
    obtain ⟨i, hi, rfl⟩ := List.mem_map.1 hl
    exact (hlines i hi).2
  have hsource : String.join (instructions.map fun i => i.render ++ ";\n") =
      String.join (((instructions.map lineOf).map InstructionLine.text).map (· ++ ";\n")) := by
    rw [List.map_map, List.map_map]
    exact congrArg String.join (List.map_congr_left fun i hi => congrArg (· ++ ";\n") (hlines i hi).1)
  have hwords : (words.map fun w => [w]).flatten = words := List.flatMap_singleton' words
  rw [hsource, ← hwords]
  refine assemblesTo_of_lines (splitSource_lines ?_) hplain hencodes
  intro text htext
  obtain ⟨l, hl, rfl⟩ := List.mem_map.1 htext
  exact plainText_instructionText (hplain l hl).name (hplain l hl).operands

/-- One line, without the end of the line. -/
theorem assemblesTo_line {line : InstructionLine} {words : List Word} (hplain : PlainLine line)
    (hencode : line.encode [] = .ok words) : AssemblesTo (line.text ++ ";") words := by
  have hsplit : splitSource (line.text ++ ";") = .ok (numberedFrom 1 ([line].map InstructionLine.text)) :=
    splitSource_line (plainText_instructionText hplain.name hplain.operands)
  have h : AssemblesTo (line.text ++ ";") [words].flatten :=
    assemblesTo_of_lines hsplit (by simpa using hplain) (.cons hencode .nil)
  rwa [List.flatten_cons, List.flatten_nil, List.append_nil] at h

theorem loadWord_text (suffix register value : String) :
    "LOADWORDI" ++ suffix ++ " r" ++ register ++ ", 0" ++ value ++ "h;" =
      instructionText ("LOADWORDI" ++ suffix) ["r" ++ register, "0" ++ value ++ "h"] ++ ";" := by
  apply String.toList_inj.1
  simp [instructionText]

/-- The text that words are disassembled to assembles to these words, instruction by instruction, wherever
they have room. The two words of a load of a full word assemble from one line with the whole value. -/
theorem assemble_disassembly :
    (∀ (words : List Word) (instructions : List Instruction),
      List.Forall₂ (fun w i => Instruction.disassemble w = .ok i ∧ i.mnemonic ≠ "LOADWORDI") words instructions →
      AssemblesTo (String.join (instructions.map fun i => i.render ++ ";\n")) words) ∧
    (∀ (low high : Word) (c : Condition) (register : UInt8) (l : Word) (h : UInt16),
      Instruction.disassemble low = .ok ⟨"LOADWORDI", c, [.register register, .immediate l]⟩ →
      Instruction.disassemble high = .ok ⟨"LOADWORDI", c, [.register register, .highHalf h]⟩ →
      AssemblesTo ("LOADWORDI" ++ c.suffix ++ " r" ++ toString (register.toNat + 1) ++ ", 0" ++
        Text.hex (h.toNat * 0x10000 + l.toNat) ++ "h;") [low, high]) := by
  refine ⟨fun _ _ => assemblesTo_disassembly, ?_⟩
  intro low high c register l h hlow hhigh
  obtain ⟨hplain, hencode⟩ := encode_loadWord (disassemble_eq_ok.1 hlow) (disassemble_eq_ok.1 hhigh)
  have hline := assemblesTo_line hplain hencode
  rw [InstructionLine.text] at hline
  rwa [loadWord_text]

/-- A jump, a comparison under a condition and a peripheral; and a load of a full word. -/
theorem assemble_disassembly_mixed :
    AssemblesTo "JFW 03FFFFFh;\nCMPNZ r8, r1;\nMEMSIZE r2, 0FEh;\n" [0xB03FFFFF, 0x43C00000, 0x1E4001FE] ∧
      AssemblesTo "LOADWORDILS r3, 012345678h;" [0x82865678, 0x82871234] := by
  have hwords : List.Forall₂ (fun w i => Instruction.disassemble w = .ok i ∧ i.mnemonic ≠ "LOADWORDI")
      [0xB03FFFFF, 0x43C00000, 0x1E4001FE] [⟨"JFW", .always, [.immediate 0x3FFFFF]⟩,
        ⟨"CMP", .notZero, [.register 7, .register 0]⟩, ⟨"MEMSIZE", .always, [.register 1, .immediate 0xFE]⟩] := by
    exact .cons (by decide +kernel) (.cons (by decide +kernel) (.cons (by decide +kernel) .nil))
  have hlines := assemble_disassembly.1 _ _ hwords
  have hline := assemble_disassembly.2 0x82865678 0x82871234 .lessOrEqual 2 0x5678 0x1234 (by decide +kernel)
    (by decide +kernel)
  constructor
  · convert hlines using 1
    decide +kernel
  · convert hline using 1
    decide +kernel

end WordMachine.Assembly
