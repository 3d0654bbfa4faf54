/-
Moving a program. Laying out and emitting a program at another address adds the same number to every address:
what the statements contribute depends on the addresses of labels only where an operand or a byte item refers
to one, and the jumps over data and subroutines hold addresses too. All other bytes are the same.
-/
import WordMachine.Proofs.Assembly.Agreement
import WordMachine.Proofs.Assembly.Reservation
import WordMachine.Proofs.Assembly.SkipJump
import WordMachine.Proofs.Assembly.StraightLine

namespace WordMachine.Assembly

/-! ## Label tables -/

namespace LabelTable

variable {table table' : LabelTable} {name : LabelName} {a : Address}

/-- The table with every address moved by `d`. -/
def shift (d : Address) (table : LabelTable) : LabelTable := table.map fun entry => (entry.1, entry.2 + d)

theorem get?_shift (d : Address) (table : LabelTable) (name : LabelName) :
    (table.shift d).get? name = (table.get? name).map (· + d) := by
  induction table with
  | nil => rfl
  | cons entry table ih =>
    rw [shift, List.map_cons, get?_cons, get?_cons]
    split
    · rfl
    · exact ih

theorem insert_shift (d : Address) (name : LabelName) (a : Address) (table : LabelTable) :
    insert name (a + d) (table.shift d) = (insert name a table).shift d := by
  induction table with
  | nil => rfl
  | cons entry table ih =>
    unfold insert
    rw [shift, List.map_cons]
    dsimp only
    split
    · rfl
    · exact congrArg _ ih

theorem define_shift (d : Address) (h : table.define name a = .ok table') :
    (table.shift d).define name (a + d) = .ok (table'.shift d) := by
  unfold define at h ⊢
  rw [get?_shift]
  split at h
  · rename_i hnone
    cases h
    rw [hnone, ← insert_shift]
    rfl
  · rename_i old hold
    split at h
    · rename_i heq
      cases h
      simp [hold, heq]
    · cases h

theorem confirm_shift (d : Address) (h : table.confirm name a = .ok ()) :
    (table.shift d).confirm name (a + d) = .ok () :=
  confirm_eq_ok (by rw [get?_shift, get?_of_confirm h]; rfl)

end LabelTable

/-! ## Addresses -/

theorem add_add_comm (a b d : Address) : a + b + d = a + d + b := by
  rw [UInt32.add_assoc, UInt32.add_comm b, ← UInt32.add_assoc]

/-- The bytes from `a` up to `b` have addresses also after they are moved by `d`. -/
def Movable (d a b : Address) : Prop := (a + d).toNat + b.toNat < a.toNat + 2 ^ 32

namespace Movable

variable {a b c d : Address}

/-- Addresses that are moved stay as far apart. -/
theorem toNat_add (h : Movable d a b) (hle : a.toNat ≤ b.toNat) :
    (b + d).toNat + a.toNat = (a + d).toNat + b.toNat := by
  have ha := UInt32.toNat_lt a
  have hb := UInt32.toNat_lt b
  have hd := UInt32.toNat_lt d
  unfold Movable at h
  rw [UInt32.toNat_add] at h ⊢
  rw [UInt32.toNat_add]
  omega

theorem front (h : Movable d a c) (hle : b.toNat ≤ c.toNat) : Movable d a b := by
  unfold Movable at h ⊢
  omega

theorem back (h : Movable d a c) (hab : a.toNat ≤ b.toNat) (hbc : b.toNat ≤ c.toNat) : Movable d b c := by
  have hb := (h.front hbc).toNat_add hab
  unfold Movable at h ⊢
  omega

theorem advance {n : Nat} (h : Movable d a b) (ha : Assembly.advance a n = .ok b) :
    Assembly.advance (a + d) n = .ok (b + d) := by
  have hb := toNat_of_advance ha
  unfold Movable at h
  refine advance_eq_ok.2 ⟨by omega, ?_⟩
  rw [(advance_eq_ok.1 ha).2, add_add_comm]

end Movable

/-! ## Layout -/

namespace Cursor

variable {c c' : Cursor} {d : Address}

/-- The cursor with every address moved by `d`. -/
def shift (d : Address) (c : Cursor) : Cursor :=
  { c with address := c.address + d, labels := c.labels.shift d }

theorem makeJump_shift (hroom : Movable d c.address c'.address) (h : c.makeJump = .ok c') :
    (c.shift d).makeJump = .ok (c'.shift d) := by
  unfold makeJump at h ⊢
  dsimp only [shift] at h ⊢
  by_cases hjump : needsJump c.current c.pending
  · simp only [hjump, if_true] at h ⊢
    obtain ⟨address, ha, h⟩ := bind_eq_ok.1 h
    cases h
    exact bind_eq_ok.2 ⟨_, hroom.advance ha, rfl⟩
  · simp only [hjump] at h ⊢
    cases h
    rfl

/-- The bytes of a statement after the jump before it can be moved along with it. -/
theorem movable_of_makeJump {b : Address} {n : Nat} (hroom : Movable d c.address b) (h : c.makeJump = .ok c')
    (hb : advance c'.address n = .ok b) : Movable d c.address c'.address ∧ Movable d c'.address b := by
  have hjump := (makeJump_eq_ok h).2
  have hend := toNat_of_advance hb
  exact ⟨hroom.front (by omega), hroom.back (by omega) (by omega)⟩

/-- Laying out a statement from a cursor that is moved moves the cursor after it. -/
theorem place_shift {kind : StatementKind} (hroom : Movable d c.address c'.address) (h : c.place kind = .ok c') :
    (c.shift d).place kind = .ok (c'.shift d) := by
  cases kind with
  | header next =>
    cases h
    rfl
  | stack words => exact makeJump_shift hroom h
  | label name =>
    obtain ⟨c₁, h₁, h⟩ := bind_eq_ok.1 h
    obtain ⟨labels, hlabels, h⟩ := bind_eq_ok.1 h
    cases h
    have hjump : Movable d c.address c₁.address := hroom
    exact bind_eq_ok.2 ⟨_, makeJump_shift hjump h₁, bind_eq_ok.2 ⟨_, LabelTable.define_shift d hlabels, rfl⟩⟩
  | data name payload =>
    obtain ⟨c₁, h₁, h⟩ := bind_eq_ok.1 h
    obtain ⟨labels, hlabels, h⟩ := bind_eq_ok.1 h
    obtain ⟨address, ha, h⟩ := bind_eq_ok.1 h
    cases h
    obtain ⟨hjump, hbytes⟩ := movable_of_makeJump hroom h₁ ha
    exact bind_eq_ok.2 ⟨_, makeJump_shift hjump h₁, bind_eq_ok.2 ⟨_, LabelTable.define_shift d hlabels,
      bind_eq_ok.2 ⟨_, hbytes.advance ha, rfl⟩⟩⟩
  | instruction line =>
    obtain ⟨c₁, h₁, h⟩ := bind_eq_ok.1 h
    obtain ⟨words, hw, h⟩ := bind_eq_ok.1 h
    obtain ⟨address, ha, h⟩ := bind_eq_ok.1 h
    cases h
    obtain ⟨hjump, hbytes⟩ := movable_of_makeJump hroom h₁ ha
    exact bind_eq_ok.2 ⟨_, makeJump_shift hjump h₁, bind_eq_ok.2 ⟨_, hw, bind_eq_ok.2 ⟨_, hbytes.advance ha, rfl⟩⟩⟩

theorem toNat_le_of_place {kind : StatementKind} (h : c.place kind = .ok c') :
    c.address.toNat ≤ c'.address.toNat := by
  rcases kind.header_cases with hk | ⟨next, rfl⟩
  · obtain ⟨start, n, hs⟩ := step_of_place h hk
    have hstart := hs.toNat_start
    have haddress := hs.toNat_address
    omega
  · cases h
    exact Nat.le_refl _

end Cursor

/-- The layout with every address moved by `d`. -/
def Layout.shift (d : Address) (l : Layout) : Layout := ⟨l.labels.shift d, l.stop + d⟩

/-- Laying out a program from a cursor that is moved gives the layout moved as far. -/
theorem Cursor.placeAll_shift {d : Address} {layout : Layout} : ∀ {statements : List Statement} {c : Cursor}
    {line : Nat}, Movable d c.address layout.stop → c.placeAll line statements = .ok layout →
    (c.shift d).placeAll line statements = .ok (layout.shift d)
  | [], c, line, hroom, h => by
    obtain ⟨stop, ha, h⟩ := bind_eq_ok.1 h
    cases h
    have ha := atLine_eq_ok.1 ha
    exact bind_eq_ok.2 ⟨_, atLine_eq_ok.2 (hroom.advance ha), rfl⟩
  | s :: rest, c, line, hroom, h => by
    obtain ⟨c', hc, h⟩ := placeAll_cons h
    have hle := toNat_le_of_place hc
    have hend := room_of_placeAll h
    have hplace := place_shift (hroom.front (by omega)) hc
    exact bind_eq_ok.2 ⟨_, atLine_eq_ok.2 hplace, placeAll_shift (hroom.back hle (by omega)) h⟩

/-! ## Uses of labels -/

/-- Does the operand refer to a label? -/
def isLabelReference (operand : String) : Bool :=
  match OperandToken.classify? operand with
  | some (.label _) => true
  | _ => false

/-- Where the addresses of labels stand among the bytes of the items, the first of which is at `offset`. -/
def ByteItem.addressesFrom (offset : Nat) : List ByteItem → List Nat
  | [] => []
  | .literal _ :: items => addressesFrom (offset + 1) items
  | .address _ :: items => offset :: addressesFrom (offset + 4) items

/-- Is byte `i` of a statement in the address of a label or in an instruction that refers to one? -/
def StatementKind.UsesLabelAt (kind : StatementKind) (i : Nat) : Prop :=
  match kind with
  | .instruction line => ∃ operand ∈ line.operands, isLabelReference operand = true
  | .data _ (.bytes items) => ∃ offset ∈ ByteItem.addressesFrom 0 items, offset ≤ i ∧ i < offset + 4
  | _ => False

theorem isLabelReference_eq_true {operand : String} :
    isLabelReference operand = true ↔ ∃ name, OperandToken.classify? operand = some (.label name) := by
  unfold isLabelReference
  split
  · rename_i name hclass
    simp [hclass]
  · rename_i hclass
    simpa using hclass

theorem resolveOperand_congr (labels labels' : LabelTable) {operand : String}
    (h : isLabelReference operand = false) (kind : OperandKind) :
    resolveOperand labels kind operand = resolveOperand labels' kind operand := by
  unfold isLabelReference at h
  unfold resolveOperand
  cases hclass : OperandToken.classify? operand with
  | none => cases kind <;> rfl
  | some token =>
    rw [hclass] at h
    cases token with
    | label name => cases h
    | _ => cases kind <;> rfl

/-- The second table has every label of the first. -/
def LabelTable.Covers (labels labels' : LabelTable) : Prop :=
  ∀ name a, labels.get? name = some a → ∃ a', labels'.get? name = some a'

section

variable {labels labels' : LabelTable} (hcovers : labels.Covers labels')

include hcovers

theorem exists_resolveOperand {operand : String} {kind : OperandKind} {value : Word}
    (h : resolveOperand labels kind operand = .ok value) :
    ∃ value', resolveOperand labels' kind operand = .ok value' ∧
      (isLabelReference operand = false → value' = value) := by
  cases hlabel : isLabelReference operand with
  | false => exact ⟨value, resolveOperand_congr labels labels' hlabel kind ▸ h, fun _ => rfl⟩
  | true =>
    obtain ⟨name, hclass⟩ := isLabelReference_eq_true.1 hlabel
    unfold resolveOperand at h ⊢
    rw [hclass] at h ⊢
    cases kind with
    | register => cases h
    | _ =>
      obtain ⟨a, ha, -⟩ := map_eq_ok.1 h
      obtain ⟨a', ha'⟩ := hcovers _ a (addressOf_eq_ok.1 ha)
      exact ⟨_, map_eq_ok.2 ⟨a', addressOf_eq_ok.2 ha', rfl⟩, nofun⟩

theorem exists_resolves : ∀ {kinds : Signature} {operands : List String} {values : List Word},
    Resolves labels kinds operands values → ∃ values', Resolves labels' kinds operands values' ∧
      ((∀ operand ∈ operands, isLabelReference operand = false) → values' = values)
  | [], [], [], _ => ⟨[], trivial, fun _ => rfl⟩
  | kind :: kinds, operand :: operands, value :: values, ⟨hvalue, hvalues⟩ => by
    obtain ⟨value', hvalue', heq⟩ := exists_resolveOperand hcovers hvalue
    obtain ⟨values', hvalues', heqs⟩ := exists_resolves hvalues
    refine ⟨value' :: values', ⟨hvalue', hvalues'⟩, fun h => ?_⟩
    rw [List.forall_mem_cons] at h
    rw [heq h.1, heqs h.2]

/-- An instruction has words also with other addresses of labels, and the same ones if it refers to no label. -/
theorem exists_encode {line : InstructionLine} {words : List Word} (h : line.encode labels = .ok words) :
    ∃ words', line.encode labels' = .ok words' ∧ words'.length = words.length ∧
      ((∀ operand ∈ line.operands, isLabelReference operand = false) → words' = words) := by
  have hcount := InstructionLine.wordCount_of_encode h
  cases hnop : isNop line.mnemonic with
  | true =>
    refine ⟨words, ?_, rfl, fun _ => rfl⟩
    unfold InstructionLine.encode at h ⊢
    rw [hnop] at h ⊢
    exact h
  | false =>
    obtain ⟨pattern, k, values, hpattern, hk, hvalues, rfl⟩ := (encode_eq_ok hnop).1 h
    obtain ⟨values', hvalues', heq⟩ := exists_resolves hcovers hvalues
    have hencode := (encode_eq_ok hnop).2 ⟨pattern, k, values', hpattern, hk, hvalues', rfl⟩
    exact ⟨_, hencode, InstructionLine.length_encode hcount hencode, fun h => by rw [heq h]⟩

/-- The bytes of the items with other addresses of labels differ in these addresses only. -/
theorem exists_flatten {items : List ByteItem} {parts : List (List UInt8)}
    (h : List.Forall₂ (fun item bytes => item.contribution labels = some bytes) items parts) :
    ∃ parts', List.Forall₂ (fun item bytes => item.contribution labels' = some bytes) items parts' ∧
      parts'.flatten.length = parts.flatten.length ∧
      ∀ offset i, (∀ a ∈ ByteItem.addressesFrom offset items, offset + i < a ∨ a + 4 ≤ offset + i) →
        parts'.flatten[i]? = parts.flatten[i]? := by
  induction h with
  | nil => exact ⟨[], .nil, rfl, fun _ _ _ => rfl⟩
  | @cons item part items parts hitem _ ih =>
    obtain ⟨parts', hparts', hlength, hbytes⟩ := ih
    cases item with
    | literal value =>
      cases hitem
      refine ⟨[value] :: parts', .cons rfl hparts', by simp [hlength], fun offset i hi => ?_⟩
      cases i with
      | zero => rfl
      | succ i =>
        refine hbytes (offset + 1) i fun a ha => ?_
        have := hi a ha
        omega
    | address label =>
      obtain ⟨a, ha, rfl⟩ := Option.map_eq_some_iff.1 hitem
      obtain ⟨a', ha'⟩ := hcovers _ a ha
      refine ⟨Word.toBytes a' :: parts', .cons (Option.map_eq_some_iff.2 ⟨a', ha', rfl⟩) hparts', by simp [hlength],
        fun offset i hi => ?_⟩
      have hslot := hi offset (List.mem_cons_self ..)
      rw [List.flatten_cons, List.flatten_cons, List.getElem?_append_right (by rw [length_toBytes]; omega),
        List.getElem?_append_right (by rw [length_toBytes]; omega), length_toBytes, length_toBytes]
      refine hbytes (offset + 4) (i - 4) fun b hb => ?_
      have := hi b (List.mem_cons_of_mem _ hb)
      omega

/-- What a statement contributes with other addresses of labels differs only where it uses a label. -/
theorem exists_contribution {kind : StatementKind} {bytes : List UInt8} (h : kind.contribution labels = some bytes) :
    ∃ bytes', kind.contribution labels' = some bytes' ∧ bytes'.length = bytes.length ∧
      ∀ i, ¬kind.UsesLabelAt i → bytes'[i]? = bytes[i]? := by
  cases kind with
  | header next => exact ⟨bytes, h, rfl, fun _ _ => rfl⟩
  | stack words => exact ⟨bytes, h, rfl, fun _ _ => rfl⟩
  | label name => exact ⟨bytes, h, rfl, fun _ _ => rfl⟩
  | instruction line =>
    obtain ⟨words, hwords, rfl⟩ := Option.map_eq_some_iff.1 h
    obtain ⟨words', hwords', hlength, heq⟩ := exists_encode hcovers (toOption_eq_some.1 hwords)
    refine ⟨words'.flatMap Word.toBytes, ?_, by simp [hlength], fun i hi => ?_⟩
    · exact Option.map_eq_some_iff.2 ⟨words', toOption_eq_some.2 hwords', rfl⟩
    · rw [heq fun operand hmem => Bool.eq_false_iff.2 fun hlabel => hi ⟨operand, hmem, hlabel⟩]
  | data name payload =>
    cases payload with
    | text content => exact ⟨bytes, h, rfl, fun _ _ => rfl⟩
    | word value => exact ⟨bytes, h, rfl, fun _ _ => rfl⟩
    | bytes items =>
      obtain ⟨parts, hparts, rfl⟩ := Option.map_eq_some_iff.1 h
      obtain ⟨parts', hparts', hlength, hbytes⟩ := exists_flatten hcovers (mapM_eq_some.1 hparts)
      refine ⟨zeroPadded parts'.flatten, ?_, by rw [length_zeroPadded, length_zeroPadded, hlength], fun i hi => ?_⟩
      · exact Option.map_eq_some_iff.2 ⟨parts', mapM_eq_some.2 hparts', rfl⟩
      · rw [zeroPadded, zeroPadded, hlength]
        refine getElem?_append_congr hlength (fun _ => hbytes 0 i fun a ha => ?_) fun _ => rfl
        by_contra hslot
        exact hi ⟨a, ha, by omega, by omega⟩

end

/-! ## Items -/

theorem LabelTable.covers_shift (labels : LabelTable) (d : Address) : labels.Covers (labels.shift d) :=
  fun name a h => ⟨a + d, by rw [get?_shift, h]; rfl⟩

theorem startOf_shift (address d : Address) (current : Section) (pending : Bool) :
    startOf (address + d) current pending = startOf address current pending + d := by
  unfold startOf
  split
  · exact add_add_comm address d 4
  · rfl

/-- A statement that is moved has items, which end where its items end, moved as far. -/
theorem itemsOf_shift {labels : LabelTable} {start next d : Address} {s : Statement} {items : List Item}
    (h : itemsOf labels start s = .ok (items, next)) :
    ∃ items', itemsOf (labels.shift d) (start + d) s = .ok (items', next + d) := by
  have hcovers := labels.covers_shift d
  obtain ⟨line, kind⟩ := s
  cases kind with
  | header next =>
    cases h
    exact ⟨_, rfl⟩
  | stack words =>
    cases h
    exact ⟨_, rfl⟩
  | label name =>
    obtain ⟨_, hconfirm, h⟩ := bind_eq_ok.1 h
    cases h
    exact ⟨_, bind_eq_ok.2 ⟨_, LabelTable.confirm_shift d hconfirm, rfl⟩⟩
  | data name payload =>
    obtain ⟨_, hconfirm, h⟩ := bind_eq_ok.1 h
    obtain ⟨bytes, hbytes, h⟩ := bind_eq_ok.1 h
    cases h
    have hcontribution : (StatementKind.data name payload).contribution labels = some bytes :=
      Payload.encode_eq_ok.1 hbytes
    obtain ⟨bytes', hbytes', hlength, -⟩ := exists_contribution hcovers hcontribution
    rw [add_add_comm, ← hlength]
    exact ⟨_, bind_eq_ok.2 ⟨_, LabelTable.confirm_shift d hconfirm,
      bind_eq_ok.2 ⟨_, Payload.encode_eq_ok.2 hbytes', rfl⟩⟩⟩
  | instruction line =>
    obtain ⟨words, hwords, h⟩ := bind_eq_ok.1 h
    cases h
    obtain ⟨words', hwords', hlength, -⟩ := exists_encode hcovers hwords
    rw [add_add_comm, ← hlength]
    exact ⟨_, bind_eq_ok.2 ⟨_, hwords', rfl⟩⟩

/-- A program that is moved has items. -/
theorem emitFrom_shift {layout : Layout} {d : Address} : ∀ {statements : List Statement} {address : Address}
    {current : Section} {pending : Bool} {r : Rest}, emitFrom layout address current pending statements = .ok r →
    ∃ r', emitFrom (layout.shift d) (address + d) current pending statements = .ok r'
  | [], address, current, pending, r, h => by
    rw [emitFrom] at h
    split at h
    · rename_i hstop
      refine ⟨_, if_pos ?_⟩
      rw [← add_add_comm, hstop]
      rfl
    · cases h
  | s :: rest, address, current, pending, r, h => by
    rcases s.kind.header_cases with hk | ⟨next, hk⟩
    · rw [emitFrom_cons hk] at h ⊢
      obtain ⟨⟨items, next⟩, hitems, h⟩ := bind_eq_ok.1 h
      obtain ⟨after, hafter, h⟩ := bind_eq_ok.1 h
      obtain ⟨items', hitems'⟩ := itemsOf_shift (d := d) (atLine_eq_ok.1 hitems)
      obtain ⟨after', hafter'⟩ := emitFrom_shift hafter
      rw [startOf_shift]
      exact ⟨_, bind_eq_ok.2 ⟨_, atLine_eq_ok.2 hitems', bind_eq_ok.2 ⟨after', hafter', rfl⟩⟩⟩
    · rw [emitFrom_header hk] at h ⊢
      exact emitFrom_shift h

/-! ## Places -/

/-- Is the byte at an address in the jump before a statement, or where the statement uses a label? -/
def Placed.Relocates (q : Placed) (a : Nat) : Prop :=
  q.jumped = true ∧ q.slot ≤ a ∧ a < q.slot + 4 ∨
    q.address ≤ a ∧ a < q.address + q.bytes.length ∧ q.statement.kind.UsesLabelAt (a - q.address)

/-- The second statement is the first one moved. -/
structure Placed.Moved (q q' : Placed) : Prop where
  jumped_eq : q'.jumped = q.jumped
  length_eq : q'.bytes.length = q.bytes.length
  bytes_eq : ∀ i, ¬q.statement.kind.UsesLabelAt i → q'.bytes[i]? = q.bytes[i]?

theorem moved_of_placement {labels labels' : LabelTable} (hcovers : labels.Covers labels') :
    ∀ {statements : List Statement} {address address' : Nat} {current : Section} {pending : Bool}
      {placed placed' : List Placed} {stop stop' : Nat},
    placement labels address current pending statements = some (placed, stop) →
    placement labels' address' current pending statements = some (placed', stop') →
    List.Forall₂ Placed.Moved placed placed'
  | [], _, _, _, _, _, _, _, _, h, h' => by
    cases h
    cases h'
    exact .nil
  | s :: rest, address, address', current, pending, placed, placed', stop, stop', h, h' => by
    rcases s.kind.header_cases with hk | ⟨next, hk⟩
    · obtain ⟨bytes, later, hbytes, hlater, rfl⟩ := (placement_cons hk).1 h
      obtain ⟨bytes', later', hbytes', hlater', rfl⟩ := (placement_cons hk).1 h'
      obtain ⟨_, hother, hlength, heq⟩ := exists_contribution hcovers hbytes
      rw [hbytes'] at hother
      cases hother
      exact .cons ⟨rfl, hlength, heq⟩ (moved_of_placement hcovers hlater hlater')
    · rw [placement_header hk] at h h'
      exact moved_of_placement hcovers h h'

theorem length_bytesWith_of_moved (jump jump' : List Placed → Word) {placed placed' : List Placed}
    (h : List.Forall₂ Placed.Moved placed placed') :
    (bytesWith jump' placed').length = (bytesWith jump placed).length := by
  induction h with
  | nil => rfl
  | cons hq _ ih =>
    rw [bytesWith, bytesWith, List.length_append, List.length_append, List.length_append, List.length_append, ih,
      hq.length_eq, hq.jumped_eq]
    split <;> rfl

/-- Bytes that are in no jump and in no use of a label are the same after the statements are moved. -/
theorem getElem?_of_moved (jump jump' : List Placed → Word) {placed placed' : List Placed} {address stop : Nat}
    {pending : Bool} (hmoved : List.Forall₂ Placed.Moved placed placed') (hrow : InRow address pending stop placed)
    (i : Nat) (hi : ∀ q ∈ placed, ¬q.Relocates (address + i)) :
    (bytesWith jump' placed')[i]? = (bytesWith jump placed)[i]? := by
  induction hmoved generalizing address pending i with
  | nil => rfl
  | @cons q q' later later' hq hlater ih =>
    obtain ⟨hj, ha, hrow⟩ := hrow
    rw [List.forall_mem_cons] at hi
    have hlength (w : Word) : (if q'.jumped then w.toBytes else []).length = jumpSize q.current pending := by
      rw [hq.jumped_eq, length_jump hj]
    have hsize := jumpSize_of_jumped hj
    rw [bytesWith, bytesWith, List.append_assoc, List.append_assoc]
    refine getElem?_append_congr ?_ (fun hlt => ?_) fun hge => ?_
    · rw [hlength, length_jump hj]
    · -- in front of the statement there is no jump
      rw [hlength] at hlt
      cases hjumped : q.jumped with
      | true =>
        rw [hjumped, if_pos rfl] at hsize
        exact absurd (.inl ⟨hjumped, by unfold Placed.slot; omega, by unfold Placed.slot; omega⟩) hi.1
      | false =>
        rw [hq.jumped_eq, hjumped]
        rfl
    rw [hlength] at hge ⊢
    refine getElem?_append_congr hq.length_eq (fun hlt => hq.bytes_eq _ fun huse => ?_) fun hge' => ?_
    · have hat : address + i - q.address = i - jumpSize q.current pending := by omega
      rw [hq.length_eq] at hlt
      exact hi.1 (.inr ⟨by omega, by omega, by rwa [hat]⟩)
    · rw [hq.length_eq] at hge' ⊢
      refine ih hrow _ fun p hp => ?_
      have hat : q.address + q.bytes.length + (i - jumpSize q.current pending - q.bytes.length) = address + i := by
        omega
      rw [hat]
      exact hi.2 p hp

/-! ## Programs -/

/-- The second program is the first one moved from `origin` to `origin'`: it is as long, every label has
moved with it, and its bytes are the same but for jumps and uses of labels. -/
structure IsRelocation (origin origin' : Address) (placed : List Placed) (p p' : Program) : Prop where
  origin_eq : p'.image.origin = origin'
  stackWords_eq : p'.image.stackWords = p.image.stackWords
  length_eq : p'.image.bytes.length = p.image.bytes.length
  labels_moved : List.Forall₂ (fun entry entry' : LabelName × Address => entry'.1 = entry.1 ∧
    (entry'.2.toNat : Int) - entry.2.toNat = origin'.toNat - origin.toNat) p.labels p'.labels
  bytes_eq : ∀ i, (∀ q ∈ placed, ¬q.Relocates (p.image.loadAddress.toNat + i)) →
    p'.image.bytes[i]? = p.image.bytes[i]?

theorem loadAddress_shift {statements : List Statement} {origin origin' load : Address}
    (h : loadAddress statements origin = .ok load)
    (hroom : origin'.toNat + 4 * (stackWords statements).toNat < 2 ^ 32) :
    loadAddress statements origin' = .ok (load + (origin' - origin)) := by
  have hload := loadAddress_eq h
  unfold loadAddress
  dsimp only
  rw [if_pos (by rw [Nat.add_comm]; exact hroom), ← hload, add_add_comm, UInt32.add_comm origin, UInt32.sub_add_cancel,
    UInt32.add_comm]

/-- The labels of a program that is moved are moved as far as its start. -/
theorem LabelTable.forall₂_shift {labels : LabelTable} {d load stop : Address} (hroom : Movable d load stop)
    (hlabels : ∀ entry ∈ labels, load.toNat ≤ entry.2.toNat ∧ entry.2.toNat ≤ stop.toNat) :
    List.Forall₂ (fun entry entry' : LabelName × Address => entry'.1 = entry.1 ∧
      (entry'.2.toNat : Int) - entry.2.toNat = (load + d).toNat - load.toNat) labels (labels.shift d) := by
  refine List.forall₂_map_right_iff.2 (List.forall₂_same.2 fun entry hmem => ⟨rfl, ?_⟩)
  obtain ⟨hle, hstop⟩ := hlabels entry hmem
  have hmove := (hroom.front hstop).toNat_add hle
  dsimp only
  omega

/-- The layout of a program ends where its bytes end, if these are not too many. -/
theorem toNat_stop_of_walks {load : Address} {statements : List Statement} {layout : Layout} {r : Rest}
    (hlayout : Layout.ofStatements load statements = .ok layout)
    (hemit : emitFrom layout load .code false statements = .ok r)
    (hlt : (r.items.flatMap Item.bytes).length < 2 ^ 32) :
    layout.stop.toNat = load.toNat + (r.items.flatMap Item.bytes).length := by
  obtain ⟨placed, stop, hf⟩ :=
    followsPlaces_of_walks (c := { address := load }) (toUInt32_toNat load) hlayout hemit
  have hrow := inRow_of_placement hf.placement_eq
  rw [hf.bytes_eq] at hlt ⊢
  rw [hf.toNat_stop rfl fun q hq => (hrow.length_le_bytesWith _ hq).trans_lt hlt]
  exact (hrow.length_bytesWith _).symm

/-- A program that is assembled at one origin is assembled at every origin where it has room, and there it is
the same program moved. -/
theorem exists_relocation {origin origin' : Address} {source : String} {p : Program}
    (h : assemble origin source = .ok p)
    (hroom : origin'.toNat + 4 * p.image.stackWords.toNat + p.image.bytes.length < 2 ^ 32) :
    ∃ p' statements placed stop, assemble origin' source = .ok p' ∧ ReadsAs source statements ∧
      IsPlacement origin statements p placed stop ∧ IsRelocation origin origin' placed p p' := by
  obtain ⟨statements, placed, stop, hreads, hplaced⟩ := placement_of_assemble h
  obtain ⟨lines, statements', load, layout, r, hsplit, hread, hload, hlayout, hemit, rfl⟩ := assemble_eq_ok h
  obtain rfl := hreads.unique ⟨lines, hsplit, hread⟩
  dsimp only at hroom
  set d := origin' - origin with hd
  -- both passes succeed from the load address that is moved
  have hload' : loadAddress statements origin' = .ok (load + d) := loadAddress_shift hload (by omega)
  have hstop := toNat_stop_of_walks hlayout hemit (by omega)
  have hnat := toNat_of_loadAddress hload
  have hnat' := toNat_of_loadAddress hload'
  have hmovable : Movable d load layout.stop := by
    unfold Movable
    omega
  have hlayout' : Layout.ofStatements (load + d) statements = .ok (layout.shift d) :=
    Cursor.placeAll_shift (c := { address := load }) hmovable hlayout
  obtain ⟨r', hemit'⟩ := emitFrom_shift (d := d) hemit
  have hassemble : assemble origin' source = .ok ⟨⟨origin', stackWords statements, r'.items.flatMap Item.bytes⟩,
      layout.labels.shift d, r'.items⟩ :=
    bind_eq_ok.2 ⟨lines, hsplit, bind_eq_ok.2 ⟨statements, hread, bind_eq_ok.2 ⟨_, hload', bind_eq_ok.2 ⟨_, hlayout',
      bind_eq_ok.2 ⟨_, bind_eq_ok.2 ⟨r', hemit', rfl⟩, rfl⟩⟩⟩⟩⟩
  obtain ⟨statements', placed', stop', hreads', hplaced'⟩ := placement_of_assemble hassemble
  obtain rfl := hreads.unique hreads'
  -- the two programs have the same statements in a row
  have hmoved := moved_of_placement (layout.labels.covers_shift d) hplaced.placement_eq hplaced'.placement_eq
  have hrow := inRow_of_placement hplaced.placement_eq
  have hbytes := congrArg Image.bytes hplaced.image_eq
  have hbytes' := congrArg Image.bytes hplaced'.image_eq
  dsimp only at hbytes hbytes'
  refine ⟨_, statements, placed, stop, hassemble, hreads, hplaced, rfl, rfl, ?_, ?_, fun i hi => ?_⟩
  · dsimp only
    rw [hbytes, hbytes']
    exact length_bytesWith_of_moved _ _ hmoved
  · have hfar : ((load + d).toNat : Int) - load.toNat = origin'.toNat - origin.toNat := by omega
    rw [← hfar]
    refine LabelTable.forall₂_shift hmovable fun entry hmem => ?_
    have hlt := hplaced.stop_lt_of_length (by dsimp only; omega)
    obtain ⟨q, hq, -, ha⟩ := (hplaced.mem_labels_iff_of_lt hlt entry.1 entry.2).1 hmem
    obtain ⟨hle, hend, -⟩ := hrow.bounds q hq
    have hlast : _ + (programBytes stop placed).length = stop + 4 := hrow.length_bytesWith _
    rw [hbytes] at hstop
    omega
  · dsimp only
    rw [hbytes, hbytes']
    refine getElem?_of_moved _ _ hmoved hrow i ?_
    rw [← hplaced.toNat_loadAddress]
    exact hi

/-- A program that is assembled at one origin is assembled at every origin where it has room, as the same program
moved; and a reservation of `n` words in front of a source that has none gives the program that the source
alone is assembled to `4 * n` bytes further on. -/
theorem assemble_at_other_origin (source : String) :
    (∀ origin origin' p, assemble origin source = .ok p →
      origin'.toNat + 4 * p.image.stackWords.toNat + p.image.bytes.length < 2 ^ 32 →
      ∃ p' statements placed stop, assemble origin' source = .ok p' ∧ ReadsAs source statements ∧
        IsPlacement origin statements p placed stop ∧ IsRelocation origin origin' placed p p') ∧
    ∀ (origin : Address) (n : Word), NoReservation source → origin.toNat + 4 * n.toNat < 2 ^ 32 →
      assemble origin (stackText n ++ ";" ++ source) =
        (assemble (origin + 4 * n) source).map (·.withStack origin n) :=
  ⟨fun _ _ _ h hroom => exists_relocation h hroom, fun _ _ hsource hroom => assemble_stackText hsource hroom⟩

/-- A program with a jump, an address among its bytes and an instruction that refers to a label. -/
theorem assemble_at_other_origin_table :
    let source := ".DATA; BYTES b 1, @go; .CODE; :go; INC r1; JMP @go;"
    let p : Program := ⟨⟨16, 0, [7, 0, 0, 16, 1, 28, 0, 0, 0, 0, 0, 0, 34, 0, 0, 0, 7, 0, 0, 16, 0, 0, 0, 0]⟩,
      [(⟨"b"⟩, 20), (⟨"go"⟩, 28)], [.skip 16 28, .data 1 20 ⟨"b"⟩ [1, 28, 0, 0, 0, 0, 0, 0], .label 1 28 ⟨"go"⟩,
        .instruction 1 28 [34], .instruction 1 32 [0x10000007], .halt 36]⟩
    assemble 16 source = .ok p ∧
      (∃ p' statements placed stop, assemble 4096 source = .ok p' ∧ ReadsAs source statements ∧
        IsPlacement 16 statements p placed stop ∧ IsRelocation 16 4096 placed p p') ∧
      NoReservation source ∧ assemble 4 (".STACK 3;" ++ source) = .ok (p.withStack 4 3) := by
  intro source p
  have hp : assemble 16 source = .ok p := by decide +kernel
  have hsplit : splitSource source = .ok [⟨1, ".DATA"⟩, ⟨1, "BYTES b 1, @go"⟩, ⟨1, ".CODE"⟩, ⟨1, ":go"⟩,
    ⟨1, "INC r1"⟩, ⟨1, "JMP @go"⟩] := by decide +kernel
  have hsource : NoReservation source := by
    intro lines hlines
    rw [hsplit] at hlines
    cases hlines
    decide +kernel
  obtain ⟨hmoved, hstack⟩ := assemble_at_other_origin source
  refine ⟨hp, hmoved 16 4096 p hp (by decide +kernel), hsource, ?_⟩
  have hbehind := hstack 4 3 hsource (by decide)
  have horigin : (4 + 4 * 3 : Address) = 16 := by decide
  rw [horigin, hp] at hbehind
  exact hbehind

end WordMachine.Assembly
