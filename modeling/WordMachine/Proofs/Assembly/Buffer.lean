/-
Emission into a buffer. A program can be written in one go, without knowing where its jumps lead: a
jump over data or subroutines is first written with no target, its offset is kept, and its word is
overwritten when the next statement of the code, or the end, is reached. Zeros fill up the buffer, not
the value, and the address of the next byte is counted from the buffer's length modulo `2 ^ 32`.

Emission into a buffer gives the bytes of the items that `emit` gives and is refused where `emit` is
refused, for every layout; no jump is ever overwritten outside of the buffer.
-/
import WordMachine.Proofs.Assembly.Placement

namespace WordMachine.Assembly

/-! ## Buffers -/

/-- Bytes that are written from an address on. -/
structure Buffer where
  load : Address
  bytes : List UInt8 := []
  deriving Repr, DecidableEq

namespace Buffer

/-- The address of the next byte. -/
def next (b : Buffer) : Address := b.load + b.bytes.length.toUInt32

def push (b : Buffer) (bytes : List UInt8) : Buffer := { b with bytes := b.bytes ++ bytes }

/-- Fills up the last word of the buffer. -/
def pad (b : Buffer) : Buffer := { b with bytes := padToWord b.bytes }

/-- Puts a word in the place of the four bytes from an offset on, if they are there. -/
def overwrite? (b : Buffer) (offset : Nat) (w : Word) : Option Buffer :=
  if offset + 4 ≤ b.bytes.length then
    some { b with bytes := b.bytes.take offset ++ w.toBytes ++ b.bytes.drop (offset + 4) }
  else none

theorem next_push (b : Buffer) (bytes : List UInt8) :
    (b.push bytes).next = b.next + bytes.length.toUInt32 := by
  apply UInt32.toNat_inj.1
  simp only [next, push, UInt32.toNat_add, Nat.toUInt32, UInt32.toNat_ofNat', List.length_append]
  omega

theorem push_push (b : Buffer) (xs ys : List UInt8) : (b.push xs).push ys = b.push (xs ++ ys) := by
  simp [push]

theorem push_nil (b : Buffer) : b.push [] = b := by
  simp [push]

/-- In a buffer of whole words, filling up the buffer fills up what was pushed last. -/
theorem pad_push {b : Buffer} (h : 4 ∣ b.bytes.length) (bytes : List UInt8) :
    (b.push bytes).pad = b.push (padToWord bytes) := by
  have hr : roundUp (b.bytes.length + bytes.length) - (b.bytes.length + bytes.length) =
      roundUp bytes.length - bytes.length := by
    unfold roundUp; omega
  simp only [pad, push, padToWord, List.length_append, List.append_assoc, hr]

end Buffer

/-! ## Writing a program -/

/-- Why a program is not written. -/
inductive WriteError where
  | refused (error : Error)
  /-- The word to overwrite is not in the buffer. -/
  | outside (offset : Nat)
  deriving Repr, DecidableEq

/-- What is known after the statements written so far. -/
structure Writer where
  buffer : Buffer
  current : Section := .code
  /-- The offset of the jump that waits for its target. -/
  pending : Option Nat := none
  deriving Repr, DecidableEq

/-- The word of a jump without a target. -/
def openJump : Word := JumpCondition.always.bits ||| Word.addressMask

namespace Writer

/-- Gives the jump that waits, if there is one, its target: the next byte. -/
def closeJump (w : Writer) : Except WriteError Writer :=
  match w.pending with
  | none => .ok w
  | some offset =>
    match w.buffer.overwrite? offset (jumpTo w.buffer.next) with
    | some buffer => .ok { w with buffer, pending := none }
    | none => .error (.outside offset)

/-- Before a statement: opens a jump where data or subroutines begin and closes it in the code. -/
def makeJump (w : Writer) : Except WriteError Writer :=
  if w.current = .code then w.closeJump
  else
    match w.pending with
    | some _ => .ok w
    | none =>
      .ok { w with buffer := w.buffer.push openJump.toBytes, pending := some w.buffer.bytes.length }

def writeItem (labels : LabelTable) (b : Buffer) : ByteItem → Except Fault Buffer
  | .literal value => .ok (b.push [value])
  | .address label => (labels.addressOf label).map fun (a : Address) => b.push (Word.toBytes a)

def writePayload (labels : LabelTable) (b : Buffer) : Payload → Except Fault Buffer
  | .text content => .ok ((b.push content).push [0]).pad
  | .word value => .ok (b.push value.toBytes)
  | .bytes items => (items.foldlM (writeItem labels) b).map Buffer.pad

/-- Writes what a statement other than a header contributes. -/
def write (labels : LabelTable) (b : Buffer) : StatementKind → Except Fault Buffer
  | .header _ | .stack _ => .ok b
  | .label name => do
    labels.confirm name b.next
    return b
  | .data name payload => do
    labels.confirm name b.next
    writePayload labels b payload
  | .instruction line => do
    let words ← line.encode labels
    return words.foldl (fun b w => b.push w.toBytes) b

/-- An error of the program that is written. -/
def refuse {α : Type} : Except Error α → Except WriteError α := Except.mapError .refused

def step (labels : LabelTable) (w : Writer) (s : Statement) : Except WriteError Writer :=
  match s.kind with
  | .header next => .ok { w with current := next }
  | kind => do
    let w ← w.makeJump
    let buffer ← refuse (atLine s.line (write labels w.buffer kind))
    return { w with buffer }

/-- Writes statements. -/
def run (labels : LabelTable) (w : Writer) : List Statement → Except WriteError Writer
  | [] => .ok w
  | s :: rest => do
    let w ← w.step labels s
    w.run labels rest

/-- Writes the word that ends the program, and checks where it ends. -/
def finish (layout : Layout) (w : Writer) : Except WriteError (List UInt8) := do
  let w ← w.closeJump
  let buffer := w.buffer.push (0 : Word).toBytes
  if buffer.next = layout.stop then return buffer.bytes
  else throw (.refused ⟨1, .internal (.endMoved layout.stop buffer.next)⟩)

end Writer

/-- Writes a program into an empty buffer. -/
def writeProgram (layout : Layout) (load : Address) (statements : List Statement) :
    Except WriteError (List UInt8) := do
  let w ← Writer.run layout.labels { buffer := { load } } statements
  w.finish layout

namespace Writer

/-! ## What a statement writes -/

theorem foldlM_writeItem (labels : LabelTable) : ∀ (items : List ByteItem) (b : Buffer),
    items.foldlM (writeItem labels) b =
      (items.mapM (ByteItem.bytes labels)).map fun parts => b.push parts.flatten
  | [], b => by rw [List.foldlM_nil, List.mapM_nil]; exact congrArg Except.ok b.push_nil.symm
  | item :: items, b => by
    have hitem : writeItem labels b item = (item.bytes labels).map b.push := by
      cases item with
      | literal value => rfl
      | address label =>
        simp only [writeItem, ByteItem.bytes]
        cases labels.addressOf label <;> rfl
    rw [List.foldlM_cons, List.mapM_cons, hitem]
    cases hb : item.bytes labels with
    | error fault => rfl
    | ok bytes =>
      change items.foldlM (writeItem labels) (b.push bytes) =
        (items.mapM (ByteItem.bytes labels) >>= fun parts => .ok (bytes :: parts)).map _
      rw [foldlM_writeItem labels items]
      cases items.mapM (ByteItem.bytes labels) with
      | error fault => rfl
      | ok parts => exact congrArg Except.ok (b.push_push bytes parts.flatten)

theorem writePayload_eq {labels : LabelTable} {b : Buffer} (h : 4 ∣ b.bytes.length) (payload : Payload) :
    writePayload labels b payload = (payload.encode labels).map b.push := by
  cases payload with
  | text content =>
    rw [writePayload, Buffer.push_push, Buffer.pad_push h]
    rfl
  | word value => rfl
  | bytes items =>
    rw [writePayload, foldlM_writeItem, Payload.encode]
    cases items.mapM (ByteItem.bytes labels) with
    | error fault => rfl
    | ok parts => exact congrArg Except.ok (Buffer.pad_push h parts.flatten)

theorem foldl_push (words : List Word) (b : Buffer) :
    words.foldl (fun b w => b.push w.toBytes) b = b.push (words.flatMap Word.toBytes) := by
  induction words generalizing b with
  | nil => exact b.push_nil.symm
  | cons w words ih => rw [List.foldl_cons, ih, Buffer.push_push, List.flatMap_cons]

/-- Into whole words, a statement writes the bytes of its items. -/
theorem write_eq {labels : LabelTable} {b : Buffer} (h : 4 ∣ b.bytes.length) (s : Statement) :
    write labels b s.kind = (itemsOf labels b.next s).map fun p => b.push (p.1.flatMap Item.bytes) := by
  unfold itemsOf
  cases s.kind with
  | header next => exact congrArg Except.ok b.push_nil.symm
  | stack words => exact congrArg Except.ok b.push_nil.symm
  | label name =>
    dsimp only [write]
    cases labels.confirm name b.next with
    | error fault => rfl
    | ok _ => exact congrArg Except.ok b.push_nil.symm
  | data name payload =>
    dsimp only [write]
    rw [writePayload_eq h]
    cases labels.confirm name b.next with
    | error fault => rfl
    | ok _ =>
      cases payload.encode labels with
      | error fault => simp [Except.map, bind, Except.bind]
      | ok bytes => simp [Except.map, bind, Except.bind, pure, Except.pure, Item.bytes]
  | instruction line =>
    dsimp only [write]
    cases line.encode labels with
    | error fault => rfl
    | ok words =>
      refine congrArg Except.ok ((foldl_push words b).trans ?_)
      simp [Item.bytes]

/-! ## The jump that waits -/

/-- The buffer holds whole words, and the jump that waits is one of them. -/
structure Sound (w : Writer) : Prop where
  words : 4 ∣ w.buffer.bytes.length
  inside : ∀ offset, w.pending = some offset → offset + 4 ≤ w.buffer.bytes.length

/-- The bytes in the buffer, the jump that waits going to `target`. -/
def resumed (w : Writer) (target : Address) : List UInt8 :=
  match w.pending with
  | none => w.buffer.bytes
  | some offset =>
    w.buffer.bytes.take offset ++ (jumpTo target).toBytes ++ w.buffer.bytes.drop (offset + 4)

/-- A jump is closed in the buffer, and nothing else is changed. -/
theorem closeJump_eq {w : Writer} (h : w.Sound) :
    w.closeJump = .ok { w with buffer := { w.buffer with bytes := w.resumed w.buffer.next }, pending := none } := by
  unfold closeJump resumed
  cases hp : w.pending with
  | none => simp [← hp]
  | some offset => simp [Buffer.overwrite?, h.inside offset hp]

theorem length_resumed {w : Writer} (h : w.Sound) (target : Address) :
    (w.resumed target).length = w.buffer.bytes.length := by
  unfold resumed
  cases hp : w.pending with
  | none => rfl
  | some offset =>
    have := h.inside offset hp
    simp only [List.length_append, List.length_take, List.length_drop, length_toBytes]
    omega

theorem next_resumed {w : Writer} (h : w.Sound) (target : Address) :
    Buffer.next ⟨w.buffer.load, w.resumed target⟩ = w.buffer.next :=
  congrArg (fun n : Nat => w.buffer.load + n.toUInt32) (length_resumed h target)

/-- The state `w'` in which the writer `w` writes its next statement. -/
structure Ready (w w' : Writer) : Prop where
  sound : w'.Sound
  load_eq : w'.buffer.load = w.buffer.load
  current_eq : w'.current = w.current
  pending_eq : w'.pending.isSome = leavesPending w.current
  next_eq : w'.buffer.next = startOf w.buffer.next w.current w.pending.isSome
  length_eq : w'.buffer.bytes.length = w.buffer.bytes.length + jumpSize w.current w.pending.isSome
  /-- What the bytes become when more is written and the jump that waits gets its target. -/
  resumed_eq : ∀ bytes target, { w' with buffer := w'.buffer.push bytes }.resumed target =
    w.resumed (if w.current = .code then w.buffer.next else target) ++
      (if needsJump w.current w.pending.isSome then (jumpTo target).toBytes else []) ++ bytes

theorem resumed_push {w : Writer} (h : w.Sound) (bytes : List UInt8) (target : Address) :
    { w with buffer := w.buffer.push bytes }.resumed target = w.resumed target ++ bytes := by
  unfold resumed
  cases hp : w.pending with
  | none => rfl
  | some offset =>
    have hi := h.inside offset hp
    simp only [Buffer.push]
    rw [List.take_append_of_le_length (by omega), List.drop_append_of_le_length hi]
    simp only [List.append_assoc]

theorem sound_push {w : Writer} (h : w.Sound) {bytes : List UInt8} (hb : 4 ∣ bytes.length) :
    { w with buffer := w.buffer.push bytes }.Sound := by
  have hw := h.words
  refine ⟨?_, fun offset hp => ?_⟩
  · simp only [Buffer.push, List.length_append]; omega
  · have := h.inside offset hp
    simp only [Buffer.push, List.length_append]; omega

/-- In the code a jump that waits is closed, and none is opened. -/
theorem ready_code {w : Writer} (h : w.Sound) (hc : w.current = .code) :
    ∃ w', w.makeJump = .ok w' ∧ w.Ready w' := by
  have hj : needsJump w.current w.pending.isSome = false := by simp [needsJump, hc]
  refine ⟨{ w with buffer := { w.buffer with bytes := w.resumed w.buffer.next }, pending := none },
    by rw [makeJump, if_pos hc]; exact closeJump_eq h, ⟨?_, ?_⟩, rfl, rfl, ?_, ?_, ?_, ?_⟩
  · rw [length_resumed h]; exact h.words
  · intro offset ho; cases ho
  · simp [leavesPending, hc]
  · simp only [startOf, hj, Buffer.next, length_resumed h]; rfl
  · rw [length_resumed h, jumpSize, hj]; rfl
  · intro bytes target
    rw [if_pos hc, hj]
    change w.resumed w.buffer.next ++ bytes = _
    simp

/-- Outside of the code a jump waits, and one is opened if none does. -/
theorem ready_data {w : Writer} (h : w.Sound) (hc : w.current ≠ .code) :
    ∃ w', w.makeJump = .ok w' ∧ w.Ready w' := by
  unfold makeJump
  rw [if_neg hc]
  cases hp : w.pending with
  | some offset =>
    have hj : needsJump w.current w.pending.isSome = false := by simp [needsJump, hp]
    refine ⟨w, rfl, h, rfl, rfl, ?_, ?_, ?_, ?_⟩
    · simp [leavesPending, hc, hp]
    · simp [startOf, hj]
    · simp [jumpSize, hj]
    · intro bytes target
      rw [if_neg hc, hj, resumed_push h]
      simp
  | none =>
    have hj : needsJump w.current w.pending.isSome = true := by simp [needsJump, hp, hc]
    have hw := h.words
    refine ⟨_, rfl, ⟨?_, ?_⟩, rfl, rfl, ?_, ?_, ?_, ?_⟩
    · simp only [Buffer.push, List.length_append, length_toBytes]; omega
    · rintro offset ⟨⟩
      simp [Buffer.push]
    · simp [leavesPending, hc]
    · simp only [startOf, hj, if_true]; exact Buffer.next_push ..
    · simp [Buffer.push, jumpSize, hj]
    · intro bytes target
      rw [if_neg hc, hj, if_pos rfl]
      simp [resumed, Buffer.push, hp, List.drop_left' (length_toBytes openJump)]

theorem ready_of_sound {w : Writer} (h : w.Sound) : ∃ w', w.makeJump = .ok w' ∧ w.Ready w' := by
  by_cases hc : w.current = .code
  · exact ready_code h hc
  · exact ready_data h hc

/-! ## Both ways of emission agree -/

theorem step_header {labels : LabelTable} {w : Writer} {s : Statement} {next : Section}
    (hk : s.kind = .header next) : w.step labels s = .ok { w with current := next } := by
  rw [step, hk]

/-- A statement other than a header writes its items, after the jump it needs. -/
theorem step_eq {labels : LabelTable} {w w' : Writer} {s : Statement} (hk : ∀ next, s.kind ≠ .header next)
    (hm : w.makeJump = .ok w') (hr : w.Ready w') :
    w.step labels s = refuse (atLine s.line ((itemsOf labels w'.buffer.next s).map fun p =>
      { w' with buffer := w'.buffer.push (p.1.flatMap Item.bytes) })) := by
  rw [step]
  split
  · rename_i next h; exact absurd h (hk next)
  · rw [hm]
    change refuse (atLine s.line (write labels w'.buffer s.kind)) >>= _ = _
    rw [write_eq hr.sound.words]
    cases itemsOf labels w'.buffer.next s <;> rfl

theorem sound_of_itemsOf {labels : LabelTable} {w : Writer} (h : w.Sound) {start next : Address}
    {s : Statement} {items : List Item} (hi : itemsOf labels start s = .ok (items, next)) :
    { w with buffer := w.buffer.push (items.flatMap Item.bytes) }.Sound := by
  obtain ⟨bytes, hb, rfl, -⟩ := contribution_of_itemsOf hi
  exact sound_push h (StatementKind.four_dvd_contribution hb)

/-- The result of writing the rest of a program is that of `emitFrom`, put after what the buffer holds. -/
theorem run_finish_eq {layout : Layout} : ∀ (statements : List Statement) {w : Writer}, w.Sound →
    (w.run layout.labels statements >>= finish layout) =
      (refuse (emitFrom layout w.buffer.next w.current w.pending.isSome statements)).map fun r =>
        w.resumed r.resume ++ r.items.flatMap Item.bytes
  | [], w, h => by
    change w.finish layout = _
    unfold finish
    rw [closeJump_eq h, emitFrom]
    change (if (Buffer.push ⟨w.buffer.load, w.resumed w.buffer.next⟩ _).next = layout.stop then _ else _) = _
    rw [Buffer.next_push, next_resumed h]
    change (if w.buffer.next + 4 = layout.stop then _ else _) = _
    split
    · simp [refuse, Except.map, Except.mapError, Item.bytes, Buffer.push, pure, Except.pure]
    · rfl
  | s :: rest, w, h => by
    rcases s.kind.header_cases with hk | ⟨next, hk⟩
    · obtain ⟨w', hm, hr⟩ := ready_of_sound h
      rw [emitFrom_cons hk, ← hr.next_eq, run, step_eq hk hm hr]
      cases hi : itemsOf layout.labels w'.buffer.next s with
      | error fault => rfl
      | ok p =>
        obtain ⟨items, next⟩ := p
        have hs := sound_of_itemsOf hr.sound hi
        have hn : (w'.buffer.push (items.flatMap Item.bytes)).next = next := by
          obtain ⟨bytes, -, rfl, hn⟩ := contribution_of_itemsOf hi
          rw [Buffer.next_push, hn]
        change (run layout.labels { w' with buffer := w'.buffer.push (items.flatMap Item.bytes) } rest >>=
          finish layout) = (refuse (emitFrom layout next w.current (leavesPending w.current) rest >>= _)).map _
        have he : emitFrom layout (w'.buffer.push (items.flatMap Item.bytes)).next w'.current w'.pending.isSome
            rest = emitFrom layout next w.current (leavesPending w.current) rest := by
          rw [hn, hr.current_eq, hr.pending_eq]
        rw [run_finish_eq rest hs, he]
        cases emitFrom layout next w.current (leavesPending w.current) rest with
        | error e => rfl
        | ok after =>
          refine congrArg Except.ok ?_
          dsimp only
          rw [hr.resumed_eq, Rest.before]
          by_cases hj : needsJump w.current w.pending.isSome
          · have hc : w.current ≠ .code := by intro hc; simp [needsJump, hc] at hj
            simp [hj, hc, Item.bytes]
          · simp [hj]
    · rw [emitFrom_header hk, run, step_header hk]
      exact run_finish_eq rest (w := { w with current := next }) ⟨h.words, h.inside⟩

end Writer

/-- Emission into a buffer gives the bytes of the items, and is refused where these are refused. -/
theorem writeProgram_eq (layout : Layout) (load : Address) (statements : List Statement) :
    writeProgram layout load statements =
      (Writer.refuse (emit layout load statements)).map fun items => items.flatMap Item.bytes := by
  have hs : ({ buffer := { load } } : Writer).Sound := ⟨⟨0, rfl⟩, fun _ h => nomatch h⟩
  have hn : ({ load } : Buffer).next = load := by simp [Buffer.next]
  unfold writeProgram emit
  rw [Writer.run_finish_eq statements hs]
  dsimp only [Option.isSome_none]
  rw [hn]
  cases emitFrom layout load .code false statements with
  | error e => rfl
  | ok r => simp [Writer.refuse, Except.map, Except.mapError, Writer.resumed, bind, Except.bind, pure, Except.pure]

end WordMachine.Assembly
