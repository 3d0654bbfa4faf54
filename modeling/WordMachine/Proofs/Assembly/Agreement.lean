/-
The two walks over the statements agree. Before every statement the writer stands where the cursor
stood: it has come to the same address, is in the same section, and has a jump waiting exactly if the
cursor had (`InStep`). Addresses are counted modulo `2 ^ 32`, but nothing is lost unless a statement has
that many bytes. A statement that was laid out keeps them in step or is refused for one of its operands.

So once a program is laid out, only operands can be refused: no label has moved and the program ends
where the layout said it would.
-/
import WordMachine.Proofs.Assembly.Buffer

namespace WordMachine.Assembly

/-! ## One statement -/

/-- A statement that was laid out has items, or one of its operands is refused. -/
theorem itemsOf_of_step {c c' : Cursor} {s : Statement} {start : Address} {n : Nat} {labels : LabelTable}
    (hs : c.Step s.kind c' start n)
    (hl : ∀ name a, c'.labels.get? name = some a → labels.get? name = some a) :
    (∃ items next, itemsOf labels start s = .ok (items, next)) ∨
      ∃ fault, itemsOf labels start s = .error fault ∧ fault.IsOperandFault := by
  -- the name of the statement was defined at its start, so the check of it succeeds
  have hconfirm : ∀ name, s.kind.name? = some name → labels.confirm name start = .ok () := fun name hn =>
    LabelTable.confirm_eq_ok (hl name start ((hs.labels_iff name start).2 (.inr ⟨hn, rfl⟩)))
  have hsize := hs.size_eq
  unfold itemsOf
  cases hk : s.kind with
  | header next => exact .inl ⟨_, _, rfl⟩
  | stack words => exact .inl ⟨_, _, rfl⟩
  | label name =>
    dsimp only
    rw [hconfirm name (by rw [hk]; rfl)]
    exact .inl ⟨_, _, rfl⟩
  | data name payload =>
    dsimp only
    rw [hconfirm name (by rw [hk]; rfl)]
    cases hp : payload.encode labels with
    | error fault => exact .inr ⟨fault, rfl, Payload.isOperandFault_of_encode hp⟩
    | ok bytes => exact .inl ⟨_, _, rfl⟩
  | instruction line =>
    dsimp only
    rw [hk] at hsize
    obtain ⟨words, hw, -⟩ := map_eq_ok.1 hsize
    cases he : line.encode labels with
    | error fault => exact .inr ⟨fault, rfl, InstructionLine.isOperandFault_of_encode hw he⟩
    | ok words => exact .inl ⟨_, _, rfl⟩

/-- The writer stands where the cursor stands, after these statements. -/
structure InStep (load : Address) (labels : LabelTable) (done : List Statement) (c : Cursor) (w : Writer) :
    Prop where
  sound : w.Sound
  load_eq : w.buffer.load = load
  next_eq : w.buffer.next = c.address
  current_eq : w.current = c.current
  pending_eq : w.pending.isSome = c.pending
  /-- The bytes written so far, as an unbounded number. -/
  counter : (∀ s ∈ done, ∀ bytes, s.kind.contribution labels = some bytes → bytes.length < 2 ^ 32) →
    load.toNat + w.buffer.bytes.length = c.address.toNat

/-- Writing a statement that was laid out keeps the writer in step, or an operand is refused. -/
theorem InStep.step {load : Address} {done : List Statement} {c c' : Cursor} {w : Writer} {s : Statement}
    {labels : LabelTable} (h : InStep load labels done c w) (hp : c.place s.kind = .ok c')
    (hl : ∀ name a, c'.labels.get? name = some a → labels.get? name = some a) :
    (∃ w', w.step labels s = .ok w' ∧ InStep load labels (done ++ [s]) c' w') ∨
      ∃ fault, w.step labels s = .error (.refused ⟨s.line, fault⟩) ∧ fault.IsOperandFault := by
  rcases s.kind.header_cases with hk | ⟨next, hk⟩
  · obtain ⟨start, n, hs⟩ := Cursor.step_of_place hp hk
    obtain ⟨w', hm, hr⟩ := Writer.ready_of_sound h.sound
    have hstart : w'.buffer.next = start := by
      rw [hr.next_eq, h.next_eq, h.current_eq, h.pending_eq, hs.start_eq]
    rw [Writer.step_eq hk hm hr, hstart]
    rcases itemsOf_of_step hs hl with ⟨items, next, hi⟩ | ⟨fault, hi, hf⟩
    · left
      rw [hi]
      obtain ⟨bytes, hb, hbytes, -⟩ := contribution_of_itemsOf hi
      refine ⟨_, rfl, Writer.sound_of_itemsOf hr.sound hi, hr.load_eq.trans h.load_eq, ?_, ?_, ?_, fun hlt => ?_⟩
      · rw [Buffer.next_push, hbytes, hstart, hs.address_contribution hb]
      · rw [hs.current_eq, ← h.current_eq]; exact hr.current_eq
      · rw [hs.pending_eq, ← h.current_eq]; exact hr.pending_eq
      · rw [List.forall_mem_append, List.forall_mem_singleton] at hlt
        have hcount := h.counter hlt.1
        have hlen := hs.length_contribution hb (hlt.2 bytes hb)
        simp only [Buffer.push, List.length_append, hbytes]
        rw [hr.length_eq, hs.toNat_address, hs.toNat_start, hlen, h.current_eq, h.pending_eq]
        omega
    · exact .inr ⟨fault, by rw [hi]; rfl, hf⟩
  · rw [hk] at hp
    cases hp
    refine .inl ⟨_, Writer.step_header hk, ⟨h.sound.words, h.sound.inside⟩, h.load_eq, h.next_eq, rfl, h.pending_eq,
      fun hlt => h.counter fun s hs => hlt s (List.mem_append_left _ hs)⟩

/-! ## All statements -/

/-- Wherever the writer has come to, it is in step with the cursor that lays out the statements. -/
theorem InStep.run {load : Address} : ∀ {done rest before : List Statement} {c : Cursor} {line : Nat}
    {layout : Layout} {w w' : Writer}, InStep load layout.labels before c w →
    c.placeAll line (done ++ rest) = .ok layout → w.run layout.labels done = .ok w' →
    ∃ c' line', InStep load layout.labels (before ++ done) c' w' ∧ c'.placeAll line' rest = .ok layout
  | [], rest, before, c, line, layout, w, w', h, hp, hw => by
    cases hw
    rw [List.append_nil]
    exact ⟨c, line, h, hp⟩
  | s :: done, rest, before, c, line, layout, w, w', h, hp, hw => by
    obtain ⟨c₁, hc, hp⟩ := Cursor.placeAll_cons hp
    obtain ⟨w₁, hw₁, hw⟩ := bind_eq_ok.1 hw
    rcases h.step hc fun name a => Cursor.get?_of_placeAll hp with ⟨w₂, hw₂, h₁⟩ | ⟨fault, hf, -⟩
    · rw [hw₁] at hw₂
      cases hw₂
      rw [List.append_cons]
      exact h₁.run hp hw
    · rw [hw₁] at hf
      cases hf

/-- All statements of a program that was laid out are written, or an operand is refused. -/
theorem InStep.run_total {load : Address} : ∀ {statements before : List Statement} {c : Cursor} {line : Nat}
    {layout : Layout} {w : Writer}, InStep load layout.labels before c w →
    c.placeAll line statements = .ok layout →
    (∃ w', w.run layout.labels statements = .ok w') ∨
      ∃ line fault, w.run layout.labels statements = .error (.refused ⟨line, fault⟩) ∧ fault.IsOperandFault
  | [], before, c, line, layout, w, h, hp => .inl ⟨w, rfl⟩
  | s :: rest, before, c, line, layout, w, h, hp => by
    obtain ⟨c', hc, hp⟩ := Cursor.placeAll_cons hp
    rw [Writer.run]
    rcases h.step hc fun name a => Cursor.get?_of_placeAll hp with ⟨w', hw, h'⟩ | ⟨fault, hf, ho⟩
    · rw [hw]
      exact h'.run_total hp
    · rw [hf]
      exact .inr ⟨s.line, fault, rfl, ho⟩

/-- A cursor that still lays out statements leaves room for the last word. -/
theorem Cursor.room_of_placeAll : ∀ {statements : List Statement} {c : Cursor} {line : Nat} {layout : Layout},
    c.placeAll line statements = .ok layout → c.address.toNat + 4 ≤ layout.stop.toNat
  | [], c, line, layout, h => by rw [(Cursor.placeAll_nil h).2.2]
  | s :: rest, c, line, layout, h => by
    obtain ⟨c', hc, h⟩ := Cursor.placeAll_cons h
    have ih := room_of_placeAll h
    rcases s.kind.header_cases with hk | ⟨next, hk⟩
    · obtain ⟨start, n, hs⟩ := Cursor.step_of_place hc hk
      have h₁ := hs.toNat_address
      have h₂ := hs.toNat_start
      omega
    · rw [hk] at hc
      cases hc
      exact ih

/-- In step with the end of the layout, the last word is written. -/
theorem InStep.finish {load : Address} {done : List Statement} {c : Cursor} {line : Nat} {layout : Layout}
    {w : Writer} (h : InStep load layout.labels done c w) (hp : c.placeAll line [] = .ok layout) :
    ∃ bytes, w.finish layout = .ok bytes := by
  have hstop := (Cursor.placeAll_nil hp).2.1
  have hnext : (Buffer.push ⟨w.buffer.load, w.resumed w.buffer.next⟩ (0 : Word).toBytes).next = layout.stop := by
    rw [hstop, Buffer.next_push, Writer.next_resumed h.sound, h.next_eq]
    rfl
  refine ⟨w.resumed w.buffer.next ++ (0 : Word).toBytes, ?_⟩
  unfold Writer.finish
  rw [Writer.closeJump_eq h.sound]
  change (if (Buffer.push ⟨w.buffer.load, w.resumed w.buffer.next⟩ (0 : Word).toBytes).next = layout.stop then
    _ else _) = _
  rw [if_pos hnext]
  rfl

/-! ## Programs -/

/-- The writer and the cursor start in step. -/
theorem inStep_start (load : Address) (labels : LabelTable) :
    InStep load labels [] { address := load } { buffer := { load } } :=
  ⟨⟨⟨0, rfl⟩, fun _ h => nomatch h⟩, rfl, UInt32.add_zero load, rfl, rfl, fun _ => rfl⟩

/-- A program that was laid out is written, or an operand is refused. -/
theorem writeProgram_total {load : Address} {statements : List Statement} {layout : Layout}
    (h : Layout.ofStatements load statements = .ok layout) :
    (∃ bytes, writeProgram layout load statements = .ok bytes) ∨
      ∃ line fault, writeProgram layout load statements = .error (.refused ⟨line, fault⟩) ∧
        fault.IsOperandFault := by
  unfold writeProgram
  rcases (inStep_start load layout.labels).run_total h with ⟨w, hw⟩ | ⟨line, fault, hf, ho⟩
  · have hp : Cursor.placeAll { address := load } 1 (statements ++ []) = .ok layout := by
      rw [List.append_nil]; exact h
    obtain ⟨c, line, hi, hp⟩ := (inStep_start load layout.labels).run hp hw
    obtain ⟨bytes, hb⟩ := hi.finish hp
    exact .inl ⟨bytes, bind_eq_ok.2 ⟨w, hw, hb⟩⟩
  · exact .inr ⟨line, fault, bind_eq_error.2 (.inl hf), ho⟩

/-- The address of the next byte is counted without loss, with room for the last word, unless a statement has
`2 ^ 32` bytes. -/
theorem counter_of_run {load : Address} {done rest : List Statement} {layout : Layout} {w : Writer}
    (h : Layout.ofStatements load (done ++ rest) = .ok layout)
    (hw : Writer.run layout.labels { buffer := { load } } done = .ok w)
    (hlt : ∀ s ∈ done, ∀ bytes, s.kind.contribution layout.labels = some bytes → bytes.length < 2 ^ 32) :
    w.buffer.next.toNat = load.toNat + w.buffer.bytes.length ∧
      load.toNat + w.buffer.bytes.length + 4 < 2 ^ 32 := by
  obtain ⟨c, line, hi, hp⟩ := (inStep_start load layout.labels).run h hw
  have hroom := Cursor.room_of_placeAll hp
  have hstop := layout.stop.toNat_lt
  have hcount := hi.counter hlt
  rw [hi.next_eq]
  omega

theorem emit_of_writeProgram {layout : Layout} {load : Address} {statements : List Statement}
    {bytes : List UInt8} (h : writeProgram layout load statements = .ok bytes) :
    ∃ items, emit layout load statements = .ok items ∧ bytes = items.flatMap Item.bytes := by
  rw [writeProgram_eq] at h
  cases he : emit layout load statements with
  | error e => rw [he] at h; cases h
  | ok items => rw [he] at h; cases h; exact ⟨items, rfl, rfl⟩

theorem emit_of_refused {layout : Layout} {load : Address} {statements : List Statement} {e : Error}
    (h : writeProgram layout load statements = .error (.refused e)) :
    emit layout load statements = .error e := by
  rw [writeProgram_eq] at h
  cases he : emit layout load statements with
  | error e' => rw [he] at h; cases h; rfl
  | ok items => rw [he] at h; cases h

/-- Once a source text is read and laid out, assembling it succeeds, or fails for an operand: a label
that is not defined, a wrong number of operands, or one of the wrong kind. On the way no jump is
overwritten outside of the buffer, and for a source of less than `2 ^ 30` bytes the address of the next
byte is counted without loss. -/
theorem assemble_refuses_operands_only {origin load : Address} {source : String} {lines : List SourceLine}
    {statements : List Statement} {layout : Layout} (hs : splitSource source = .ok lines)
    (hr : readProgram lines = .ok statements) (hl : loadAddress statements origin = .ok load)
    (hp : Layout.ofStatements load statements = .ok layout) :
    ((∃ items, emit layout load statements = .ok items ∧
        writeProgram layout load statements = .ok (items.flatMap Item.bytes) ∧
        assemble origin source = .ok
          ⟨⟨origin, stackWords statements, items.flatMap Item.bytes⟩, layout.labels, items⟩) ∨
      ∃ line fault, fault.IsOperandFault ∧ emit layout load statements = .error ⟨line, fault⟩ ∧
        writeProgram layout load statements = .error (.refused ⟨line, fault⟩) ∧
        assemble origin source = .error ⟨line, fault⟩) ∧
    (∀ offset, writeProgram layout load statements ≠ .error (.outside offset)) ∧
    (source.utf8ByteSize < 2 ^ 30 → ∀ done rest w, statements = done ++ rest →
      Writer.run layout.labels { buffer := { load } } done = .ok w →
      w.buffer.next.toNat = load.toNat + w.buffer.bytes.length ∧
        load.toNat + w.buffer.bytes.length + 4 < 2 ^ 32) := by
  have hassemble : assemble origin source = emit layout load statements >>= fun items =>
      .ok ⟨⟨origin, stackWords statements, items.flatMap Item.bytes⟩, layout.labels, items⟩ := by
    simp only [assemble, hs, hr, hl, hp, bind, Except.bind, pure, Except.pure]
  refine ⟨?_, ?_, ?_⟩
  · rcases writeProgram_total hp with ⟨bytes, hb⟩ | ⟨line, fault, hf, ho⟩
    · obtain ⟨items, he, rfl⟩ := emit_of_writeProgram hb
      exact .inl ⟨items, he, hb, by rw [hassemble, he]; rfl⟩
    · have he := emit_of_refused hf
      exact .inr ⟨line, fault, ho, he, hf, by rw [hassemble, he]; rfl⟩
  · intro offset ho
    rcases writeProgram_total hp with ⟨bytes, hb⟩ | ⟨line, fault, hf, -⟩
    · rw [ho] at hb; cases hb
    · rw [ho] at hf; cases hf
  · rintro hsize done rest w rfl hw
    have hreads : ReadsAs source (done ++ rest) := ⟨lines, hs, hr⟩
    exact counter_of_run hp hw fun s hmem bytes hb =>
      hreads.length_contribution_lt hsize (List.mem_append_left _ hmem) hb

/-- A table is read and laid out, but the second label is defined nowhere. -/
theorem assemble_refuses_missing_label :
    let source := ".DATA; INT n 7; .CODE; JMP @n; JMP @x;"
    let lines : List SourceLine :=
      [⟨1, ".DATA"⟩, ⟨1, "INT n 7"⟩, ⟨1, ".CODE"⟩, ⟨1, "JMP @n"⟩, ⟨1, "JMP @x"⟩]
    let statements : List Statement := [⟨1, .header .data⟩, ⟨1, .data ⟨"n"⟩ (.word 7)⟩, ⟨1, .header .code⟩,
      ⟨1, .instruction ⟨"JMP", ["@n"]⟩⟩, ⟨1, .instruction ⟨"JMP", ["@x"]⟩⟩]
    let layout : Layout := ⟨[(⟨"n"⟩, 12)], 28⟩
    splitSource source = .ok lines ∧ readProgram lines = .ok statements ∧ loadAddress statements 8 = .ok 8 ∧
      Layout.ofStatements 8 statements = .ok layout ∧
      assemble 8 source = .error ⟨1, .undefinedLabel "x"⟩ ∧
      ∀ offset, writeProgram layout 8 statements ≠ .error (.outside offset) := by
  intro source lines statements layout
  have hs : splitSource source = .ok lines := by decide +kernel
  have hr : readProgram lines = .ok statements := by decide +kernel
  have hl : loadAddress statements 8 = .ok 8 := by decide +kernel
  have hp : Layout.ofStatements 8 statements = .ok layout := by decide +kernel
  exact ⟨hs, hr, hl, hp, by decide +kernel, (assemble_refuses_operands_only hs hr hl hp).2.1⟩

end WordMachine.Assembly
