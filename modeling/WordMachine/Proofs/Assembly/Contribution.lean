/-
What one statement contributes to a program: the bytes of a value or of an instruction, given the
addresses of all labels, stated without the two walks over the statements. A value is filled up with
zeros to whole words and a label in it becomes the four bytes of its address.

The bytes that a statement becomes are these. Their number modulo `2 ^ 32` is the size of the statement,
which is known without any label. Where a statement of known size is refused, one of its operands is at
fault.
-/
import WordMachine.Assembly.Item
import WordMachine.Proofs.Result
import Mathlib.Data.Nat.Bitwise

namespace WordMachine.Assembly

/-! ## Values -/

/-- The bytes followed by the fewest zeros that make their number a multiple of four. -/
def zeroPadded (bytes : List UInt8) : List UInt8 :=
  bytes ++ List.replicate ((4 - bytes.length % 4) % 4) 0

theorem padToWord_eq (bytes : List UInt8) : padToWord bytes = zeroPadded bytes := by
  unfold padToWord zeroPadded roundUp
  congr 2
  omega

theorem length_zeroPadded (bytes : List UInt8) : (zeroPadded bytes).length = roundUp bytes.length := by
  rw [← padToWord_eq]
  simp only [padToWord, roundUp, List.length_append, List.length_replicate]
  omega

theorem four_dvd_roundUp (n : Nat) : 4 ∣ roundUp n := ⟨(n + 3) / 4, Nat.mul_comm _ _⟩

@[simp] theorem length_toBytes (w : Word) : w.toBytes.length = 4 := rfl

/-- The bytes of a part of a list of bytes, if its label has an address. -/
def ByteItem.contribution (labels : LabelTable) : ByteItem → Option (List UInt8)
  | .literal value => some [value]
  | .address label => (labels.get? label).map Word.toBytes

/-- The bytes of a value, if its labels have addresses. -/
def Payload.contribution (labels : LabelTable) : Payload → Option (List UInt8)
  | .text content => some (zeroPadded (content ++ [0]))
  | .word value => some value.toBytes
  | .bytes items => (items.mapM (ByteItem.contribution labels)).map fun parts => zeroPadded parts.flatten

theorem addressOf_eq_ok {labels : LabelTable} {name : LabelName} {a : Address} :
    labels.addressOf name = .ok a ↔ labels.get? name = some a := by
  unfold LabelTable.addressOf
  cases labels.get? name <;> simp

theorem addressOf_eq_error {labels : LabelTable} {name : LabelName} {fault : Fault}
    (h : labels.addressOf name = .error fault) : fault = .undefinedLabel name.text := by
  unfold LabelTable.addressOf at h
  split at h <;> cases h
  rfl

theorem ByteItem.bytes_eq_ok {labels : LabelTable} {item : ByteItem} {bytes : List UInt8} :
    item.bytes labels = .ok bytes ↔ item.contribution labels = some bytes := by
  cases item with
  | literal value => simp [ByteItem.bytes, ByteItem.contribution]
  | address label =>
    simp only [ByteItem.bytes, ByteItem.contribution, map_eq_ok, addressOf_eq_ok, Option.map_eq_some_iff]

theorem mapM_eq_some {α β : Type} {f : α → Option β} : ∀ {xs : List α} {ys : List β},
    xs.mapM f = some ys ↔ List.Forall₂ (fun x y => f x = some y) xs ys
  | [], ys => by simp [eq_comm]
  | x :: xs, ys => by
    simp only [List.mapM_cons, Option.bind_eq_bind, Option.bind_eq_some_iff, Option.pure_def,
      Option.some.injEq, mapM_eq_some]
    constructor
    · rintro ⟨y, hy, ys', hys, rfl⟩; exact .cons hy hys
    · rintro (_ | ⟨hy, hys⟩); exact ⟨_, hy, _, hys, rfl⟩

theorem Payload.encode_eq_ok {labels : LabelTable} {payload : Payload} {bytes : List UInt8} :
    payload.encode labels = .ok bytes ↔ payload.contribution labels = some bytes := by
  cases payload with
  | text content => simp [Payload.encode, Payload.contribution, padToWord_eq]
  | word value => simp [Payload.encode, Payload.contribution]
  | bytes items =>
    simp only [Payload.encode, Payload.contribution, map_eq_ok, Option.map_eq_some_iff, mapM_eq_ok,
      mapM_eq_some, ByteItem.bytes_eq_ok, padToWord_eq]

theorem ByteItem.length_contribution {labels : LabelTable} {item : ByteItem} {bytes : List UInt8}
    (h : item.contribution labels = some bytes) : bytes.length = item.size.toNat := by
  cases item with
  | literal value => cases h; rfl
  | address label =>
    obtain ⟨a, -, rfl⟩ := Option.map_eq_some_iff.1 h
    rfl

theorem ByteItem.size_flatten_contribution {labels : LabelTable} {items : List ByteItem}
    {parts : List (List UInt8)}
    (h : List.Forall₂ (fun item bytes => item.contribution labels = some bytes) items parts) :
    items.foldr (fun i n => i.size + n) 0 = parts.flatten.length.toUInt32 := by
  induction h with
  | nil => rfl
  | cons hb _ ih =>
    rw [List.flatten_cons, List.length_append, List.foldr_cons, ih, length_contribution hb]
    exact ((UInt32.ofNat_add ..).trans (congrArg (· + _) UInt32.ofNat_toNat)).symm

theorem roundUpSize_toUInt32 (n : Nat) : roundUpSize n.toUInt32 = (roundUp n).toUInt32 := by
  have hnat : n.toUInt32.toNat = n % 2 ^ 32 := UInt32.toNat_ofNat'
  have hzero : n.toUInt32 % 4 = 0 ↔ n % 2 ^ 32 % 4 = 0 := by
    rw [← UInt32.toNat_inj, UInt32.toNat_mod, hnat]
    rfl
  apply UInt32.toNat_inj.1
  rw [roundUpSize, UInt32.toNat_mul]
  by_cases h : n % 2 ^ 32 % 4 = 0
  · rw [if_pos (hzero.2 h), UInt32.toNat_div, hnat, Nat.toUInt32, UInt32.toNat_ofNat', roundUp]
    simp only [UInt32.reduceToNat]
    omega
  · rw [if_neg (hzero.not.2 h), UInt32.toNat_add, UInt32.toNat_div, hnat, Nat.toUInt32, UInt32.toNat_ofNat', roundUp]
    simp only [UInt32.reduceToNat]
    omega

/-- The size of a value is the number of its bytes, modulo `2 ^ 32`. -/
theorem Payload.size_contribution {labels : LabelTable} {payload : Payload} {bytes : List UInt8}
    (h : payload.contribution labels = some bytes) : payload.size = bytes.length.toUInt32 := by
  cases payload with
  | text content =>
    cases h
    rw [length_zeroPadded, ← roundUpSize_toUInt32, List.length_append, Payload.size]
    exact congrArg roundUpSize (UInt32.ofNat_add ..).symm
  | word value => cases h; rfl
  | bytes items =>
    obtain ⟨parts, hp, rfl⟩ := Option.map_eq_some_iff.1 h
    rw [length_zeroPadded, ← roundUpSize_toUInt32, ← ByteItem.size_flatten_contribution (mapM_eq_some.1 hp),
      Payload.size]

theorem Payload.four_dvd_contribution {labels : LabelTable} {payload : Payload} {bytes : List UInt8}
    (h : payload.contribution labels = some bytes) : 4 ∣ bytes.length := by
  cases payload with
  | text content =>
    cases h
    rw [length_zeroPadded]
    exact four_dvd_roundUp _
  | word value =>
    cases h
    exact ⟨1, rfl⟩
  | bytes items =>
    obtain ⟨parts, -, rfl⟩ := Option.map_eq_some_iff.1 h
    rw [length_zeroPadded]
    exact four_dvd_roundUp _

/-! ## Faults of operands -/

/-- A fault in an operand: a label without a definition, an operand too many or too few, or one that
cannot stand where it does. -/
def Fault.IsOperandFault : Fault → Prop
  | .undefinedLabel _ | .operandCount .. | .invalidOperand .. => True
  | _ => False

theorem isOperandFault_of_addressOf {labels : LabelTable} {name : LabelName} {fault : Fault}
    (h : labels.addressOf name = .error fault) : fault.IsOperandFault := by
  rw [addressOf_eq_error h]; trivial

theorem Payload.isOperandFault_of_encode {labels : LabelTable} {payload : Payload} {fault : Fault}
    (h : payload.encode labels = .error fault) : fault.IsOperandFault := by
  cases payload with
  | text content => cases h
  | word value => cases h
  | bytes items =>
    obtain ⟨item, -, h⟩ := mem_of_mapM_eq_error (map_eq_error.1 h)
    cases item with
    | literal value => cases h
    | address label => exact isOperandFault_of_addressOf (map_eq_error.1 h)

theorem isOperandFault_of_resolveOperand {labels : LabelTable} {kind : OperandKind} {word : String}
    {fault : Fault} (h : resolveOperand labels kind word = .error fault) : fault.IsOperandFault := by
  unfold resolveOperand at h
  dsimp only at h
  split at h
  · split at h <;> cases h
    trivial
  · cases h; trivial
  · exact isOperandFault_of_addressOf (map_eq_error.1 h)
  all_goals cases h
  all_goals trivial

theorem isOperandFault_of_addOperands {labels : LabelTable} : ∀ {kinds : Signature}
    {operands : List String} {p : Packed} {position : Nat} {fault : Fault},
    p.addOperands labels position kinds operands = .error fault → fault.IsOperandFault
  | [], _, p, position, fault, h => by simp [Packed.addOperands] at h
  | _ :: _, [], p, position, fault, h => by simp [Packed.addOperands] at h
  | kind :: kinds, operand :: operands, p, position, fault, h => by
    simp only [Packed.addOperands] at h
    rcases bind_eq_error.1 h with h | ⟨value, -, h⟩
    · exact isOperandFault_of_resolveOperand h
    · exact isOperandFault_of_addOperands h

/-! ## Instructions -/

/-- Operands leave a full word exactly if one of their kinds is that of full words. -/
theorem isSome_full_addOperands {labels : LabelTable} : ∀ {kinds : Signature} {operands : List String}
    {p q : Packed} {position : Nat}, kinds.length = operands.length →
    p.addOperands labels position kinds operands = .ok q →
    q.full.isSome = (p.full.isSome || kinds.contains .fullWord)
  | [], _, p, q, position, _, h => by
    cases h; simp
  | _ :: _, [], p, q, position, hl, _ => nomatch hl
  | kind :: kinds, operand :: operands, p, q, position, hl, h => by
    simp only [Packed.addOperands] at h
    obtain ⟨value, -, h⟩ := bind_eq_ok.1 h
    rw [isSome_full_addOperands (by simpa using hl) h]
    by_cases hk : kind = .fullWord
    · simp [hk]
    · simp [hk, Ne.symm hk]

theorem Packed.length_words (p : Packed) : p.words.length = if p.full.isSome then 2 else 1 := by
  unfold Packed.words
  cases p.full <;> rfl

/-- An instruction has as many words as its mnemonic says. -/
theorem InstructionLine.length_encode {i : InstructionLine} {labels : LabelTable} {n : Nat}
    {words : List Word} (hn : i.wordCount = .ok n) (h : i.encode labels = .ok words) :
    words.length = n := by
  unfold InstructionLine.wordCount at hn
  unfold InstructionLine.encode at h
  by_cases hnop : isNop i.mnemonic
  · simp only [hnop, if_true] at hn h
    split at h <;> cases h
    cases hn; rfl
  · simp only [hnop] at hn h
    obtain ⟨⟨pattern, signature⟩, hl, rfl⟩ := map_eq_ok.1 hn
    rw [hl] at h
    obtain ⟨⟨_, _⟩, he, h⟩ := bind_eq_ok.1 h
    cases he
    dsimp only at h
    split at h
    · cases h
    · rename_i hlen
      obtain ⟨packed, hp, h⟩ := bind_eq_ok.1 h
      cases h
      rw [Packed.length_words, isSome_full_addOperands (by omega) hp]
      simp [Signature.wordCount]

theorem InstructionLine.length_encode_le {i : InstructionLine} {labels : LabelTable} {words : List Word}
    (h : i.encode labels = .ok words) : words.length ≤ 2 := by
  unfold InstructionLine.encode at h
  by_cases hnop : isNop i.mnemonic
  · simp only [hnop, if_true] at h
    split at h <;> cases h
    decide
  · simp only [hnop] at h
    obtain ⟨⟨pattern, signature⟩, -, h⟩ := bind_eq_ok.1 h
    dsimp only at h
    split at h
    · cases h
    · obtain ⟨packed, -, h⟩ := bind_eq_ok.1 h
      cases h
      rw [Packed.length_words]
      split <;> decide

/-- An instruction with a known mnemonic is refused only for its operands. -/
theorem InstructionLine.isOperandFault_of_encode {i : InstructionLine} {labels : LabelTable} {n : Nat}
    {fault : Fault} (hn : i.wordCount = .ok n) (h : i.encode labels = .error fault) :
    fault.IsOperandFault := by
  unfold InstructionLine.wordCount at hn
  unfold InstructionLine.encode at h
  by_cases hnop : isNop i.mnemonic
  · simp only [hnop, if_true] at h
    split at h <;> cases h
    trivial
  · simp only [hnop] at hn h
    obtain ⟨⟨pattern, signature⟩, hl, rfl⟩ := map_eq_ok.1 hn
    rw [hl] at h
    rcases bind_eq_error.1 h with he | ⟨⟨_, _⟩, he, h⟩
    · cases he
    · cases he
      dsimp only at h
      split at h
      · cases h; trivial
      · rcases bind_eq_error.1 h with h | ⟨packed, -, h⟩
        · exact isOperandFault_of_addOperands h
        · cases h

/-! ## Statements -/

namespace StatementKind

/-- A header takes no room and starts a section; every other statement is laid out. -/
theorem header_cases (kind : StatementKind) : (∀ next, kind ≠ .header next) ∨ ∃ next, kind = .header next := by
  cases kind with
  | header next => exact .inr ⟨next, rfl⟩
  | _ => exact .inl fun next h => by cases h

/-- The name that a statement gives to its address. -/
def name? : StatementKind → Option LabelName
  | .label name | .data name _ => some name
  | _ => none

/-- The number of bytes that is reckoned with for a statement, if its mnemonic is known. -/
def size : StatementKind → Except Fault Nat
  | .header _ | .stack _ | .label _ => .ok 0
  | .data _ payload => .ok payload.size.toNat
  | .instruction line => line.wordCount.map (4 * ·)

/-- The bytes that a statement puts into the program, given the addresses of all labels. -/
def contribution (labels : LabelTable) : StatementKind → Option (List UInt8)
  | .header _ | .stack _ | .label _ => some []
  | .data _ payload => payload.contribution labels
  | .instruction line => (line.encode labels).toOption.map fun words => words.flatMap Word.toBytes

end StatementKind

@[simp] theorem length_flatMap_toBytes (words : List Word) :
    (words.flatMap Word.toBytes).length = 4 * words.length := by
  induction words with
  | nil => rfl
  | cons w words ih => rw [List.flatMap_cons, List.length_append, ih, length_toBytes, List.length_cons]; omega

theorem toOption_eq_some {ε α : Type} {x : Except ε α} {a : α} : x.toOption = some a ↔ x = .ok a := by
  cases x <;> simp [Except.toOption]

theorem StatementKind.four_dvd_contribution {kind : StatementKind} {labels : LabelTable}
    {bytes : List UInt8} (h : kind.contribution labels = some bytes) : 4 ∣ bytes.length := by
  cases kind with
  | data name payload => exact Payload.four_dvd_contribution h
  | instruction line =>
    obtain ⟨words, -, rfl⟩ := Option.map_eq_some_iff.1 h
    exact ⟨words.length, length_flatMap_toBytes words⟩
  | _ => cases h; exact ⟨0, rfl⟩

/-- A statement contributes as many bytes as its size says, or as many as `2 ^ 32` and more. -/
theorem StatementKind.length_contribution {kind : StatementKind} {labels : LabelTable} {n : Nat}
    {bytes : List UInt8} (hn : kind.size = .ok n) (h : kind.contribution labels = some bytes) :
    bytes.length = n ∨ 2 ^ 32 ≤ bytes.length ∧ bytes.length % 2 ^ 32 = n := by
  cases kind with
  | data name payload =>
    cases hn
    have hsize : payload.size.toNat = bytes.length % 2 ^ 32 := by
      rw [Payload.size_contribution h]
      exact UInt32.toNat_ofNat'
    omega
  | instruction line =>
    obtain ⟨m, hm, rfl⟩ := map_eq_ok.1 hn
    obtain ⟨words, hw, rfl⟩ := Option.map_eq_some_iff.1 h
    rw [length_flatMap_toBytes, InstructionLine.length_encode hm (toOption_eq_some.1 hw)]
    exact .inl rfl
  | _ => cases hn; cases h; exact .inl rfl

theorem StatementKind.toUInt32_length_contribution {kind : StatementKind} {labels : LabelTable} {n : Nat}
    {bytes : List UInt8} (hn : kind.size = .ok n) (h : kind.contribution labels = some bytes) :
    bytes.length.toUInt32 = n.toUInt32 := by
  rcases length_contribution hn h with hlength | ⟨-, hlength⟩
  · rw [hlength]
  · rw [← hlength]
    exact (UInt32.ofNat_mod_size ..).symm

/-- The items of a statement hold its contribution, and end where it ends. -/
theorem contribution_of_itemsOf {labels : LabelTable} {start next : Address} {s : Statement}
    {items : List Item} (h : itemsOf labels start s = .ok (items, next)) :
    ∃ bytes, s.kind.contribution labels = some bytes ∧ items.flatMap Item.bytes = bytes ∧
      next = start + bytes.length.toUInt32 := by
  unfold itemsOf at h
  cases hk : s.kind with
  | header kind => rw [hk] at h; cases h; exact ⟨[], rfl, rfl, by simp⟩
  | stack words => rw [hk] at h; cases h; exact ⟨[], rfl, rfl, by simp⟩
  | label name =>
    rw [hk] at h
    obtain ⟨_, -, h⟩ := bind_eq_ok.1 h
    cases h
    exact ⟨[], rfl, rfl, by simp⟩
  | data name payload =>
    rw [hk] at h
    obtain ⟨_, -, h⟩ := bind_eq_ok.1 h
    obtain ⟨bytes, hb, h⟩ := bind_eq_ok.1 h
    cases h
    exact ⟨bytes, Payload.encode_eq_ok.1 hb, by simp [Item.bytes], rfl⟩
  | instruction line =>
    rw [hk] at h
    obtain ⟨words, hw, h⟩ := bind_eq_ok.1 h
    cases h
    refine ⟨words.flatMap Word.toBytes, ?_, by simp [Item.bytes], by rw [length_flatMap_toBytes]⟩
    rw [StatementKind.contribution, toOption_eq_some.2 hw]
    rfl

end WordMachine.Assembly
