/-
Where a program's bytes come from, in one walk over its statements: each statement other than a header
stands at the address reached so far, after a jump where data or subroutines begin, and takes the
bytes that it contributes. `placement` is this walk, on unbounded numbers and with nothing checked.

A program that is assembled has the bytes of these statements in a row, its jumps going to the next
statement of the code, and its labels are the names of these statements at their addresses. These are
taken modulo `2 ^ 32`, which changes none of them in a source of less than `2 ^ 30` bytes.
-/
import WordMachine.Proofs.Assembly.Cursor
import WordMachine.Proofs.Assembly.Reading
import Mathlib.Tactic.Set

namespace WordMachine.Assembly

/-! ## Places -/

/-- A statement other than a header, at its place in the program. -/
structure Placed where
  statement : Statement
  /-- The section it stands in. -/
  current : Section
  /-- Does a jump over data or subroutines stand right before it? -/
  jumped : Bool
  /-- The address of its first byte, after the jump. -/
  address : Nat
  bytes : List UInt8
  deriving Repr, DecidableEq

/-- The name that the statement gives to its address. -/
def Placed.name? (q : Placed) : Option LabelName := q.statement.kind.name?

/-- The statements from an address on at their places, and the address of the word that ends the
program. -/
def placement (labels : LabelTable) (address : Nat) (current : Section) (pending : Bool) :
    List Statement → Option (List Placed × Nat)
  | [] => some ([], address)
  | s :: rest =>
    match s.kind with
    | .header next => placement labels address next pending rest
    | kind => do
      let jumped := current != .code && !pending
      let start := if jumped then address + 4 else address
      let bytes ← kind.contribution labels
      let (placed, stop) ← placement labels (start + bytes.length) current (current != .code) rest
      return (⟨s, current, jumped, start, bytes⟩ :: placed, stop)

/-- The address of the first of the statements that is in the code, or else of the end. -/
def resumeAt (stop : Nat) (later : List Placed) : Nat :=
  (later.find? fun q => q.current = .code).elim stop Placed.address

/-- The bytes of the statements in a row and a zero word after them. `jump` gives the word of the jump
before a statement, from the statements after it. -/
def bytesWith (jump : List Placed → Word) : List Placed → List UInt8
  | [] => (0 : Word).toBytes
  | q :: later => (if q.jumped then (jump later).toBytes else []) ++ q.bytes ++ bytesWith jump later

/-- The bytes of a program, with each jump going to the next statement in the code. -/
def programBytes (stop : Nat) : List Placed → List UInt8 :=
  bytesWith fun later => jumpTo (resumeAt stop later).toUInt32

theorem resumeAt_cons (stop : Nat) (q : Placed) (later : List Placed) :
    resumeAt stop (q :: later) = if q.current = .code then q.address else resumeAt stop later := by
  unfold resumeAt
  rw [List.find?_cons]
  by_cases h : q.current = .code <;> simp [h]

theorem placement_header {labels : LabelTable} {address : Nat} {current next : Section} {pending : Bool}
    {s : Statement} {rest : List Statement} (hk : s.kind = .header next) :
    placement labels address current pending (s :: rest) = placement labels address next pending rest := by
  rw [placement, hk]

theorem placement_cons {labels : LabelTable} {address : Nat} {current : Section} {pending : Bool}
    {s : Statement} {rest : List Statement} {placed : List Placed} {stop : Nat}
    (hk : ∀ next, s.kind ≠ .header next) :
    placement labels address current pending (s :: rest) = some (placed, stop) ↔
      ∃ bytes later, s.kind.contribution labels = some bytes ∧
        placement labels (address + jumpSize current pending + bytes.length) current (leavesPending current)
          rest = some (later, stop) ∧
        placed = ⟨s, current, needsJump current pending, address + jumpSize current pending, bytes⟩ :: later := by
  have hs : (if needsJump current pending then address + 4 else address) =
      address + jumpSize current pending := by
    unfold jumpSize; split <;> rfl
  rw [placement]
  split
  · rename_i next h; exact absurd h (hk next)
  · change (s.kind.contribution labels >>= fun bytes => placement labels ((if needsJump current pending then
      address + 4 else address) + bytes.length) current (leavesPending current) rest >>= fun p =>
      some (⟨s, current, needsJump current pending, if needsJump current pending then address + 4 else address,
        bytes⟩ :: p.1, p.2)) = _ ↔ _
    rw [hs]
    simp only [Option.bind_eq_bind, Option.bind_eq_some_iff, Option.some.injEq, Prod.mk.injEq, Prod.exists]
    constructor
    · rintro ⟨bytes, hb, later, _, hl, hp, rfl⟩; exact ⟨bytes, later, hb, hl, hp.symm⟩
    · rintro ⟨bytes, later, hb, hl, rfl⟩; exact ⟨bytes, hb, later, stop, hl, rfl, rfl⟩

/-! ## The second walk -/

theorem emitFrom_header {layout : Layout} {address : Address} {current next : Section} {pending : Bool}
    {s : Statement} {rest : List Statement} (hk : s.kind = .header next) :
    emitFrom layout address current pending (s :: rest) = emitFrom layout address next pending rest := by
  rw [emitFrom, hk]

/-- The items of a statement before those of the statements after it. -/
def Rest.before (address : Address) (current : Section) (pending : Bool) (items : List Item)
    (after : Rest) : Rest :=
  let resume := if current = .code then address else after.resume
  ⟨(if needsJump current pending then [.skip address resume] else []) ++ items ++ after.items, resume⟩

theorem emitFrom_cons {layout : Layout} {address : Address} {current : Section} {pending : Bool}
    {s : Statement} {rest : List Statement} (hk : ∀ next, s.kind ≠ .header next) :
    emitFrom layout address current pending (s :: rest) =
      atLine s.line (itemsOf layout.labels (startOf address current pending) s) >>= fun p =>
        emitFrom layout p.2 current (leavesPending current) rest >>= fun after =>
          .ok (after.before address current pending p.1) := by
  rw [emitFrom]
  split
  · rename_i next h; exact absurd h (hk next)
  · rfl

theorem emitFrom_nil {layout : Layout} {address : Address} {current : Section} {pending : Bool} {r : Rest}
    (h : emitFrom layout address current pending [] = .ok r) : r = ⟨[.halt address], address⟩ := by
  rw [emitFrom] at h
  split at h <;> cases h
  rfl

/-- What both walks do at a statement: a header changes the section, and any other statement takes the cursor on, with
the items made at the address where the statement is laid out. -/
theorem walks_cons {c : Cursor} {s : Statement} {rest : List Statement} {line : Nat} {layout : Layout} {r : Rest}
    (hp : c.placeAll line (s :: rest) = .ok layout)
    (he : emitFrom layout c.address c.current c.pending (s :: rest) = .ok r) :
    (∃ next, s.kind = .header next ∧ { c with current := next }.placeAll s.line rest = .ok layout ∧
      emitFrom layout c.address next c.pending rest = .ok r) ∨
    (∀ next, s.kind ≠ .header next) ∧ ∃ c' start n items next bytes after, c.Step s.kind c' start n ∧
      itemsOf layout.labels start s = .ok (items, next) ∧ s.kind.contribution layout.labels = some bytes ∧
      items.flatMap Item.bytes = bytes ∧ c'.placeAll s.line rest = .ok layout ∧
      emitFrom layout c'.address c'.current c'.pending rest = .ok after ∧
      after.before c.address c.current c.pending items = r := by
  obtain ⟨c', hc, hp⟩ := Cursor.placeAll_cons hp
  rcases s.kind.header_cases with hk | ⟨next, hk⟩
  · obtain ⟨start, n, hs⟩ := Cursor.step_of_place hc hk
    rw [emitFrom_cons hk, ← hs.start_eq] at he
    obtain ⟨⟨items, next⟩, hi, he⟩ := bind_eq_ok.1 he
    obtain ⟨after, ha, he⟩ := bind_eq_ok.1 he
    have hi := atLine_eq_ok.1 hi
    obtain ⟨bytes, hb, hitems, hn⟩ := contribution_of_itemsOf hi
    dsimp only at ha
    rw [hn, ← hs.address_contribution hb, ← hs.pending_eq, ← hs.current_eq] at ha
    exact .inr ⟨hk, c', start, n, items, next, bytes, after, hs, hi, hb, hitems, hp, ha, Except.ok.inj he⟩
  · rw [emitFrom_header hk] at he
    rw [hk] at hc
    cases hc
    exact .inl ⟨next, hk, hp, he⟩

/-! ## Both walks follow the places -/

/-- What the two walks from a cursor on have made of the statements, told by their places from `place` on. -/
structure FollowsPlaces (c : Cursor) (place : Nat) (statements : List Statement) (layout : Layout) (r : Rest)
    (placed : List Placed) (stop : Nat) : Prop where
  placement_eq : placement layout.labels place c.current c.pending statements = some (placed, stop)
  bytes_eq : r.items.flatMap Item.bytes = programBytes stop placed
  resume_eq : r.resume = (resumeAt stop placed).toUInt32
  stop_eq : layout.stop = (stop + 4).toUInt32
  labels_iff : ∀ name a, layout.labels.get? name = some a ↔
    c.labels.get? name = some a ∨ ∃ q ∈ placed, q.name? = some name ∧ q.address.toUInt32 = a
  ordered : c.labels.Ordered → layout.labels.Ordered
  /-- Nothing is lost modulo `2 ^ 32`, unless a single statement has that many bytes. -/
  toNat_stop : place = c.address.toNat → (∀ q ∈ placed, q.bytes.length < 2 ^ 32) → layout.stop.toNat = stop + 4

theorem toUInt32_toNat (a : Address) : a.toNat.toUInt32 = a := by
  apply UInt32.toNat_inj.1
  simp [Nat.toUInt32]

/-- One statement more in front: its place comes before those of the statements after it. -/
theorem followsPlaces_cons {c c' : Cursor} {place : Nat} {s : Statement} {rest : List Statement} {layout : Layout}
    {start : Address} {n : Nat} {items : List Item} {next : Address} {after : Rest} {bytes : List UInt8}
    {later : List Placed} {stop : Nat} (hplace : place.toUInt32 = c.address) (hk : ∀ next, s.kind ≠ .header next)
    (hs : c.Step s.kind c' start n) (hi : itemsOf layout.labels start s = .ok (items, next))
    (hb : s.kind.contribution layout.labels = some bytes)
    (hf : FollowsPlaces c' (place + jumpSize c.current c.pending + bytes.length) rest layout after later stop) :
    ∃ placed, FollowsPlaces c place (s :: rest) layout (after.before c.address c.current c.pending items)
      placed stop := by
  obtain ⟨_, hb', hitems, -⟩ := contribution_of_itemsOf hi
  obtain rfl := Option.some.inj (hb.symm.trans hb')
  set q : Placed := ⟨s, c.current, needsJump c.current c.pending, place + jumpSize c.current c.pending, bytes⟩ with hq
  have hqa : q.address.toUInt32 = start := by
    rw [hs.start_eq, startOf_eq, ← hplace]
    exact UInt32.ofNat_add ..
  -- a statement of the code has no jump before it, so execution resumes at the statement itself
  have hresume : (after.before c.address c.current c.pending items).resume =
      (resumeAt stop (q :: later)).toUInt32 := by
    rw [resumeAt_cons]
    change (if c.current = .code then c.address else after.resume) =
      (if c.current = .code then q.address else resumeAt stop later).toUInt32
    split
    · rename_i hc
      rw [hqa, hs.start_eq, hc, startOf_code]
    · exact hf.resume_eq
  refine ⟨q :: later, ?_, ?_, hresume, hf.stop_eq, ?_, fun ho => hf.ordered (hs.ordered ho), fun hnat hlt => ?_⟩
  · refine (placement_cons hk).2 ⟨bytes, later, hb, ?_, rfl⟩
    have := hf.placement_eq
    rwa [hs.current_eq, hs.pending_eq] at this
  · have hskip : (after.before c.address c.current c.pending items).items.flatMap Item.bytes =
        (if q.jumped then (jumpTo (resumeAt stop later).toUInt32).toBytes else []) ++ bytes ++
          programBytes stop later := by
      rw [Rest.before, List.flatMap_append, List.flatMap_append, hitems, hf.bytes_eq]
      change (if needsJump c.current c.pending then _ else _ : List Item).flatMap Item.bytes ++ _ ++ _ =
        (if needsJump c.current c.pending then _ else _) ++ _ ++ _
      by_cases hj : needsJump c.current c.pending
      · have hc : c.current ≠ .code := by rintro hc; simp [needsJump, hc] at hj
        simp [hj, hc, Item.bytes, hf.resume_eq]
      · simp [hj]
    exact hskip
  · intro name a
    rw [hf.labels_iff, hs.labels_iff, or_assoc]
    refine or_congr Iff.rfl ?_
    constructor
    · rintro (⟨hn, rfl⟩ | ⟨q', hq', h⟩)
      · exact ⟨q, List.mem_cons_self .., hn, hqa⟩
      · exact ⟨q', List.mem_cons_of_mem _ hq', h⟩
    · rintro ⟨q', hq', hn, ha⟩
      rcases List.mem_cons.1 hq' with rfl | hq'
      · exact .inl ⟨hn, ha.symm.trans hqa⟩
      · exact .inr ⟨q', hq', hn, ha⟩
  · have hlength := hs.length_contribution hb (hlt q (List.mem_cons_self ..))
    refine hf.toNat_stop ?_ fun q' hq' => hlt q' (List.mem_cons_of_mem _ hq')
    rw [hnat, hs.toNat_address, hs.toNat_start, hlength]

/-- If both walks succeed, they have followed the places of the statements. -/
theorem followsPlaces_of_walks : ∀ {statements : List Statement} {c : Cursor} {place line : Nat} {layout : Layout}
    {r : Rest}, place.toUInt32 = c.address → c.placeAll line statements = .ok layout →
    emitFrom layout c.address c.current c.pending statements = .ok r →
    ∃ placed stop, FollowsPlaces c place statements layout r placed stop
  | [], c, place, line, layout, r, hplace, hp, he => by
    obtain ⟨hl, hstop, hnat⟩ := Cursor.placeAll_nil hp
    cases emitFrom_nil he
    refine ⟨[], place, rfl, by simp [Item.bytes, programBytes, bytesWith], hplace.symm, ?_, ?_, ?_, ?_⟩
    · rw [hstop, ← hplace]
      exact (UInt32.ofNat_add ..).symm
    · simp [hl]
    · rw [hl]; exact id
    · rintro rfl -
      exact hnat
  | s :: rest, c, place, line, layout, r, hplace, hp, he => by
    obtain ⟨next, hk, hp, he⟩ | ⟨hk, c', start, n, items, next, bytes, after, hs, hi, hb, -, hp, ha, rfl⟩ :=
      walks_cons hp he
    · obtain ⟨placed, stop, hf⟩ := followsPlaces_of_walks (c := { c with current := next }) hplace hp he
      refine ⟨placed, stop, ?_, hf.bytes_eq, hf.resume_eq, hf.stop_eq, hf.labels_iff, hf.ordered, hf.toNat_stop⟩
      rw [placement_header hk]
      exact hf.placement_eq
    · have hnext : (place + jumpSize c.current c.pending + bytes.length).toUInt32 = c'.address := by
        rw [hs.address_contribution hb, hs.start_eq, startOf_eq, ← hplace]
        exact (UInt32.ofNat_add ..).trans (congrArg (· + _) (UInt32.ofNat_add ..))
      obtain ⟨later, stop, hf⟩ := followsPlaces_of_walks hnext hp ha
      obtain ⟨placed, hf⟩ := followsPlaces_cons hplace hk hs hi hb hf
      exact ⟨placed, stop, hf⟩

/-! ## Whole words -/

theorem mem_of_placement {labels : LabelTable} : ∀ {statements : List Statement} {address : Nat}
    {current : Section} {pending : Bool} {placed : List Placed} {stop : Nat},
    placement labels address current pending statements = some (placed, stop) →
    ∀ q ∈ placed, q.statement ∈ statements ∧ q.statement.kind.contribution labels = some q.bytes
  | [], _, _, _, _, _, h, q, hq => by cases h; cases hq
  | s :: rest, address, current, pending, placed, stop, h, q, hq => by
    rcases s.kind.header_cases with hk | ⟨next, hk⟩
    · obtain ⟨bytes, later, hb, hl, rfl⟩ := (placement_cons hk).1 h
      rcases List.mem_cons.1 hq with rfl | hq
      · exact ⟨List.mem_cons_self .., hb⟩
      · exact (mem_of_placement hl q hq).imp_left (List.mem_cons_of_mem _)
    · rw [placement_header hk] at h
      exact (mem_of_placement h q hq).imp_left (List.mem_cons_of_mem _)

theorem four_dvd_of_placement {labels : LabelTable} {statements : List Statement} {address : Nat}
    {current : Section} {pending : Bool} {placed : List Placed} {stop : Nat}
    (h : placement labels address current pending statements = some (placed, stop)) :
    ∀ q ∈ placed, 4 ∣ q.bytes.length :=
  fun q hq => StatementKind.four_dvd_contribution (mem_of_placement h q hq).2

theorem four_dvd_length_bytesWith (jump : List Placed → Word) : ∀ {placed : List Placed},
    (∀ q ∈ placed, 4 ∣ q.bytes.length) → 4 ∣ (bytesWith jump placed).length
  | [], _ => ⟨1, rfl⟩
  | q :: later, h => by
    have hq := h q (List.mem_cons_self ..)
    have ih := four_dvd_length_bytesWith jump fun q hq => h q (List.mem_cons_of_mem _ hq)
    rw [bytesWith, List.length_append, List.length_append]
    split
    · rw [length_toBytes]; omega
    · rw [List.length_nil]; omega

/-! ## Statements in a row -/

/-- The statements stand in a row from an address up to the end, each after room for a jump where one
is needed. -/
def InRow (address : Nat) (pending : Bool) (stop : Nat) : List Placed → Prop
  | [] => address = stop
  | q :: later => q.jumped = needsJump q.current pending ∧
      q.address = address + jumpSize q.current pending ∧
      InRow (q.address + q.bytes.length) (leavesPending q.current) stop later

theorem inRow_of_placement {labels : LabelTable} : ∀ {statements : List Statement} {address : Nat}
    {current : Section} {pending : Bool} {placed : List Placed} {stop : Nat},
    placement labels address current pending statements = some (placed, stop) →
    InRow address pending stop placed
  | [], _, _, _, _, _, h => by cases h; rfl
  | s :: rest, address, current, pending, placed, stop, h => by
    rcases s.kind.header_cases with hk | ⟨next, hk⟩
    · obtain ⟨bytes, later, -, hl, rfl⟩ := (placement_cons hk).1 h
      exact ⟨rfl, rfl, inRow_of_placement hl⟩
    · rw [placement_header hk] at h
      exact inRow_of_placement h

theorem jumpSize_of_jumped {q : Placed} {pending : Bool} (h : q.jumped = needsJump q.current pending) :
    jumpSize q.current pending = if q.jumped then 4 else 0 := by
  rw [h]; rfl

theorem length_jump {q : Placed} {pending : Bool} (h : q.jumped = needsJump q.current pending) (w : Word) :
    (if q.jumped then w.toBytes else []).length = jumpSize q.current pending := by
  rw [jumpSize_of_jumped h]; split <;> rfl

namespace InRow

variable {stop : Nat}

theorem le_stop : ∀ {placed : List Placed} {address : Nat} {pending : Bool},
    InRow address pending stop placed → address ≤ stop
  | [], _, _, h => Nat.le_of_eq h
  | q :: later, address, pending, ⟨_, ha, hl⟩ => by
    have := le_stop hl
    omega

/-- Every statement and its jump lie between the two ends. -/
theorem bounds : ∀ {placed : List Placed} {address : Nat} {pending : Bool},
    InRow address pending stop placed → ∀ q ∈ placed,
      address ≤ q.address ∧ q.address + q.bytes.length ≤ stop ∧ (q.jumped → address + 4 ≤ q.address)
  | [], _, _, _, q, hq => by cases hq
  | p :: later, address, pending, ⟨hj, ha, hl⟩, q, hq => by
    rw [jumpSize_of_jumped hj] at ha
    rcases List.mem_cons.1 hq with rfl | hq
    · have := le_stop hl
      refine ⟨by omega, this, fun hq => ?_⟩
      rw [ha, if_pos hq]
    · obtain ⟨h₁, h₂, h₃⟩ := bounds hl q hq
      refine ⟨by omega, h₂, fun hq => ?_⟩
      have := h₃ hq
      omega

theorem length_bytesWith (jump : List Placed → Word) : ∀ {placed : List Placed} {address : Nat} {pending : Bool},
    InRow address pending stop placed → address + (bytesWith jump placed).length = stop + 4
  | [], _, _, h => by rw [h]; rfl
  | q :: later, address, pending, ⟨hj, ha, hrow⟩ => by
    have ih := hrow.length_bytesWith jump
    rw [bytesWith, List.length_append, List.length_append, length_jump hj]
    omega

theorem length_le_bytesWith {placed : List Placed} {address : Nat} {pending : Bool}
    (h : InRow address pending stop placed) (jump : List Placed → Word) {q : Placed} (hq : q ∈ placed) :
    q.bytes.length ≤ (bytesWith jump placed).length := by
  have hbounds := h.bounds q hq
  have hlength := h.length_bytesWith jump
  omega

end InRow

/-! ## Assembled programs -/

theorem toNat_of_loadAddress {statements : List Statement} {origin load : Address}
    (h : loadAddress statements origin = .ok load) :
    load.toNat = origin.toNat + 4 * (stackWords statements).toNat := by
  unfold loadAddress at h
  dsimp only at h
  split at h
  · rename_i hlt
    cases h
    rw [UInt32.toNat_add, UInt32.toNat_mul]
    simp only [UInt32.reduceToNat]
    change _ < 2 ^ 32 at hlt
    omega
  · cases h

theorem loadAddress_eq {statements : List Statement} {origin load : Address}
    (h : loadAddress statements origin = .ok load) : origin + 4 * stackWords statements = load := by
  unfold loadAddress at h
  dsimp only at h
  split at h
  · cases h; rw [UInt32.add_comm]
  · cases h

/-- The stages of an assembly that succeeded. -/
theorem assemble_eq_ok {origin : Address} {source : String} {p : Program}
    (h : assemble origin source = .ok p) :
    ∃ lines statements load layout r, splitSource source = .ok lines ∧ readProgram lines = .ok statements ∧
      loadAddress statements origin = .ok load ∧ Layout.ofStatements load statements = .ok layout ∧
      emitFrom layout load .code false statements = .ok r ∧
      p = ⟨⟨origin, stackWords statements, r.items.flatMap Item.bytes⟩, layout.labels, r.items⟩ := by
  unfold assemble at h
  obtain ⟨lines, hs, h⟩ := bind_eq_ok.1 h
  obtain ⟨statements, hr, h⟩ := bind_eq_ok.1 h
  obtain ⟨load, hl, h⟩ := bind_eq_ok.1 h
  obtain ⟨layout, ho, h⟩ := bind_eq_ok.1 h
  obtain ⟨items, he, h⟩ := bind_eq_ok.1 h
  obtain ⟨r, hr', he⟩ := bind_eq_ok.1 he
  cases he
  cases h
  exact ⟨lines, statements, load, layout, r, hs, hr, hl, ho, hr', rfl⟩

/-- The program is its statements at their places, from the load address on. -/
structure IsPlacement (origin : Address) (statements : List Statement) (p : Program) (placed : List Placed)
    (stop : Nat) : Prop where
  placement_eq : placement p.labels (origin.toNat + 4 * (stackWords statements).toNat) .code false statements =
    some (placed, stop)
  image_eq : p.image = ⟨origin, stackWords statements, programBytes stop placed⟩
  toNat_loadAddress : p.image.loadAddress.toNat = origin.toNat + 4 * (stackWords statements).toNat
  mem_labels_iff : ∀ name a, (name, a) ∈ p.labels ↔ ∃ q ∈ placed, q.name? = some name ∧ q.address.toUInt32 = a
  ordered : p.labels.Ordered
  /-- The program ends in the address space, unless a single statement has too many bytes for it. -/
  stop_lt : (∀ q ∈ placed, q.bytes.length < 2 ^ 32) → stop + 4 < 2 ^ 32

theorem placement_of_assemble {origin : Address} {source : String} {p : Program}
    (h : assemble origin source = .ok p) :
    ∃ statements placed stop, ReadsAs source statements ∧ IsPlacement origin statements p placed stop := by
  obtain ⟨lines, statements, load, layout, r, hs, hr, hl, ho, he, rfl⟩ := assemble_eq_ok h
  obtain ⟨placed, stop, hf⟩ :=
    followsPlaces_of_walks (c := { address := load }) (toUInt32_toNat load) ho he
  have hordered := hf.ordered LabelTable.ordered_nil
  have hp := hf.placement_eq
  rw [toNat_of_loadAddress hl] at hp
  refine ⟨statements, placed, stop, ⟨lines, hs, hr⟩, hp, by rw [hf.bytes_eq], ?_, fun name a => ?_, hordered,
    fun hlt => ?_⟩
  · rw [← toNat_of_loadAddress hl, ← loadAddress_eq hl]
    rfl
  · rw [LabelTable.mem_iff_get? hordered, hf.labels_iff]
    exact or_iff_right fun h => by cases h
  · rw [← hf.toNat_stop rfl hlt]
    exact layout.stop.toNat_lt

namespace IsPlacement

variable {origin : Address} {statements : List Statement} {p : Program} {placed : List Placed} {stop : Nat}
  (h : IsPlacement origin statements p placed stop)

include h

theorem inRow : InRow p.image.loadAddress.toNat false stop placed := by
  rw [h.toNat_loadAddress]
  exact inRow_of_placement h.placement_eq

/-- The program ends in the address space if its image is shorter than this space. -/
theorem stop_lt_of_length (hlt : p.image.bytes.length < 2 ^ 32) : stop + 4 < 2 ^ 32 := by
  rw [h.image_eq] at hlt
  exact h.stop_lt fun q hq => (h.inRow.length_le_bytesWith _ hq).trans_lt hlt

theorem stop_lt_of_readsAs {source : String} (hr : ReadsAs source statements)
    (hsize : source.utf8ByteSize < 2 ^ 30) : stop + 4 < 2 ^ 32 := by
  refine h.stop_lt fun q hq => ?_
  obtain ⟨hs, hb⟩ := mem_of_placement h.placement_eq q hq
  exact hr.length_contribution_lt hsize hs hb

/-- In a program that ends in the address space, a label is the address of its statement itself. -/
theorem mem_labels_iff_of_lt (hstop : stop + 4 < 2 ^ 32) (name : LabelName) (a : Address) :
    (name, a) ∈ p.labels ↔ ∃ q ∈ placed, q.name? = some name ∧ q.address = a.toNat := by
  rw [h.mem_labels_iff]
  refine exists_congr fun q => and_congr_right fun hq => and_congr_right fun _ => ?_
  have hbounds := h.inRow.bounds q hq
  rw [← UInt32.toNat_inj, Nat.toUInt32, UInt32.toNat_ofNat', Nat.mod_eq_of_lt (by omega)]

end IsPlacement

/-- A program that is assembled is the placement of its statements: its bytes are what the statements
contribute, with the jumps filled in, and its labels are the names of the statements at their
addresses. It is made of whole words. Addresses are counted modulo `2 ^ 32`, without any loss for a
source of less than `2 ^ 30` bytes. -/
theorem assemble_eq_placement {origin : Address} {source : String} {p : Program}
    (h : assemble origin source = .ok p) :
    (∃ statements placed stop, ReadsAs source statements ∧ IsPlacement origin statements p placed stop ∧
      (source.utf8ByteSize < 2 ^ 30 → stop + 4 < 2 ^ 32 ∧
        ∀ name a, (name, a) ∈ p.labels ↔ ∃ q ∈ placed, q.name? = some name ∧ q.address = a.toNat)) ∧
      4 ∣ p.image.bytes.length := by
  obtain ⟨statements, placed, stop, hr, hi⟩ := placement_of_assemble h
  refine ⟨⟨statements, placed, stop, hr, hi, fun hsize => ?_⟩, ?_⟩
  · have hstop := hi.stop_lt_of_readsAs hr hsize
    exact ⟨hstop, hi.mem_labels_iff_of_lt hstop⟩
  · rw [hi.image_eq]
    exact four_dvd_length_bytesWith _ (four_dvd_of_placement hi.placement_eq)

/-- A table with a label that comes later, stepped over by a jump. -/
theorem assemble_eq_placement_table :
    let p : Program := ⟨⟨16, 0, [7, 0, 0, 16, 1, 28, 0, 0, 0, 0, 0, 0, 34, 0, 0, 0, 0, 0, 0, 0]⟩,
      [(⟨"b"⟩, 20), (⟨"go"⟩, 28)],
      [.skip 16 28, .data 1 20 ⟨"b"⟩ [1, 28, 0, 0, 0, 0, 0, 0], .label 1 28 ⟨"go"⟩, .instruction 1 28 [34],
        .halt 32]⟩
    let source := ".DATA; BYTES b 1, @go; .CODE; :go; INC r1;"
    assemble 16 source = .ok p ∧
      (∃ statements placed stop, ReadsAs source statements ∧ IsPlacement 16 statements p placed stop ∧
        stop + 4 < 2 ^ 32 ∧
        ∀ name a, (name, a) ∈ p.labels ↔ ∃ q ∈ placed, q.name? = some name ∧ q.address = a.toNat) ∧
      4 ∣ p.image.bytes.length := by
  intro p source
  have h : assemble 16 source = .ok p := by decide +kernel
  obtain ⟨⟨statements, placed, stop, hr, hi, hexact⟩, hwords⟩ := assemble_eq_placement h
  exact ⟨h, ⟨statements, placed, stop, hr, hi, hexact (by decide +kernel)⟩, hwords⟩

end WordMachine.Assembly
