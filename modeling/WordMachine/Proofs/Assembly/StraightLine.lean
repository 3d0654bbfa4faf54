/-
Programs of instructions only. Such a program is assembled to the words of its instructions in a row and
the word that ends a program, at every origin from which on they have room; elsewhere it is refused.
-/
import WordMachine.Assembly.Program
import WordMachine.Proofs.Assembly.Encoding
import WordMachine.Proofs.Assembly.Placement
import WordMachine.Proofs.Assembly.Splitting
import WordMachine.Proofs.Words

namespace WordMachine.Assembly

/-- The lines have these words, without any label. -/
def Encodes (lines : List InstructionLine) (words : List (List Word)) : Prop :=
  List.Forall₂ (fun line ws => InstructionLine.encode line [] = .ok ws) lines words

theorem InstructionLine.wordCount_of_encode {line : InstructionLine} {labels : LabelTable} {words : List Word}
    (h : line.encode labels = .ok words) : line.wordCount = .ok words.length := by
  obtain ⟨n, hn⟩ : ∃ n, line.wordCount = .ok n := by
    cases hnop : isNop line.mnemonic with
    | true => exact ⟨1, by simp [InstructionLine.wordCount, hnop]⟩
    | false =>
      obtain ⟨pattern, k, values, hp, hk, -, -⟩ := (encode_eq_ok hnop).1 h
      refine ⟨k.signature.wordCount, ?_⟩
      rw [InstructionLine.wordCount, lookupMnemonic_eq_ok.2 ⟨hp, k, hk, rfl⟩]
      simp [hnop, Except.map]
  rw [hn, InstructionLine.length_encode hn h]

/-! ## Layout -/

/-- There is room for so many words and the one that ends the program: all of them have addresses, and so
has the end. -/
def Room (address : Address) (words : Nat) : Prop := address.toNat + 4 * (words + 1) < 2 ^ 32

/-- An instruction of the code moves the cursor by its words. -/
theorem place_instruction {line : InstructionLine} {n : Nat} (h : line.wordCount = .ok n) (address : Address) :
    Cursor.place { address } (.instruction line) = (advance address (4 * n)).map fun a => { address := a } := by
  cases ha : advance address (4 * n) <;>
    simp [Cursor.place, Cursor.makeJump, needsJump, leavesPending, h, ha, Except.map, bind, Except.bind, pure,
      Except.pure]

theorem advance_of_not_lt {address : Address} {n : Nat} (h : ¬address.toNat + n < 2 ^ 32) :
    advance address n = .error (.internal .pastAddressSpace) := by
  exact if_neg h

theorem placeAll_of_room : ∀ {lines : List InstructionLine} {words : List (List Word)} (address : Address)
    (before line : Nat), Encodes lines words → Room address words.flatten.length →
    ∃ stop, Cursor.placeAll { address } before (statementsFrom line lines) = .ok ⟨[], stop⟩ ∧
      stop.toNat = address.toNat + 4 * (words.flatten.length + 1)
  | [], [], address, before, line, _, hroom => by
    have ha : advance address 4 = .ok (address + Nat.toUInt32 4) := advance_eq_ok.2 ⟨hroom, rfl⟩
    exact ⟨_, bind_eq_ok.2 ⟨_, atLine_eq_ok.2 ha, rfl⟩, toNat_add_of_lt hroom⟩
  | l :: lines, ws :: words, address, before, line, .cons hl hls, hroom => by
    have hlen : (ws :: words).flatten.length = ws.length + words.flatten.length := by simp
    rw [Room, hlen] at hroom
    have ha : advance address (4 * ws.length) = .ok (address + (4 * ws.length).toUInt32) :=
      advance_eq_ok.2 ⟨by omega, rfl⟩
    have haddress := toNat_of_advance ha
    obtain ⟨stop, hrest, hstop⟩ := placeAll_of_room (address + (4 * ws.length).toUInt32) line (line + 1) hls
      (by rw [Room, haddress]; omega)
    refine ⟨stop, bind_eq_ok.2 ⟨_, atLine_eq_ok.2 ?_, hrest⟩, by rw [hstop, haddress, hlen]; omega⟩
    rw [place_instruction (InstructionLine.wordCount_of_encode hl), ha]
    rfl

theorem placeAll_of_no_room : ∀ {lines : List InstructionLine} {words : List (List Word)} (address : Address)
    (before line : Nat), Encodes lines words → ¬Room address words.flatten.length →
    ∃ l, Cursor.placeAll { address } before (statementsFrom line lines) = .error ⟨l, .internal .pastAddressSpace⟩
  | [], [], address, before, line, _, hroom => by
    refine ⟨before, bind_eq_error.2 (.inl ?_)⟩
    rw [show advance address 4 = _ from advance_of_not_lt hroom]
    rfl
  | l :: lines, ws :: words, address, before, line, .cons hl hls, hroom => by
    have hplace := place_instruction (InstructionLine.wordCount_of_encode hl) address
    by_cases hlt : address.toNat + 4 * ws.length < 2 ^ 32
    · have ha : advance address (4 * ws.length) = .ok (address + (4 * ws.length).toUInt32) := advance_eq_ok.2 ⟨hlt, rfl⟩
      obtain ⟨e, hrest⟩ := placeAll_of_no_room (address + (4 * ws.length).toUInt32) line (line + 1) hls (by
          rw [Room, toNat_of_advance ha]
          simp only [Room, List.flatten_cons, List.length_append] at hroom
          omega)
      rw [ha] at hplace
      exact ⟨e, bind_eq_error.2 (.inr ⟨_, atLine_eq_ok.2 hplace, hrest⟩)⟩
    · rw [advance_of_not_lt hlt] at hplace
      refine ⟨line, bind_eq_error.2 (.inl ?_)⟩
      rw [hplace]
      rfl

/-! ## Items -/

theorem emitFrom_of_room {lines : List InstructionLine} {words : List (List Word)} (address stop : Address)
    (line : Nat) (h : Encodes lines words) (hstop : stop.toNat = address.toNat + 4 * (words.flatten.length + 1)) :
    ∃ r, emitFrom ⟨[], stop⟩ address .code false (statementsFrom line lines) = .ok r ∧
      r.items.flatMap Item.bytes = (words.flatten ++ [0]).flatMap Word.toBytes := by
  induction h generalizing address line with
  | nil =>
    have hlt := UInt32.toNat_lt stop
    have heq : address + 4 = stop := by
      apply UInt32.toNat_inj.1
      rw [hstop]
      exact toNat_add_of_lt (n := 4) (by simpa [hstop] using hlt)
    exact ⟨⟨[.halt address], address⟩, by simp [emitFrom, statementsFrom, heq], by simp [Item.bytes]⟩
  | @cons l ws lines words hl hls ih =>
    have hlt := UInt32.toNat_lt stop
    simp only [List.flatten_cons, List.length_append] at hstop
    have haddress : (address + (4 * ws.length).toUInt32).toNat = address.toNat + 4 * ws.length :=
      toNat_add_of_lt (by omega)
    obtain ⟨after, hafter, hbytes⟩ := ih (address + (4 * ws.length).toUInt32) (line + 1)
      (by rw [hstop, haddress]; omega)
    have hitems : itemsOf [] address ⟨line, .instruction l⟩ =
        .ok ([.instruction line address ws], address + (4 * ws.length).toUInt32) :=
      bind_eq_ok.2 ⟨ws, hl, rfl⟩
    refine ⟨after.before address .code false [.instruction line address ws], ?_, ?_⟩
    · rw [statementsFrom, emitFrom_cons (by simp), startOf_code]
      exact bind_eq_ok.2 ⟨_, atLine_eq_ok.2 hitems, bind_eq_ok.2 ⟨after, hafter, rfl⟩⟩
    · simp [Rest.before, needsJump, Item.bytes, hbytes]

/-! ## Programs -/

/-- The source is assembled to these words and the one that ends a program, wherever they have room, and is
refused where they have none. -/
def AssemblesTo (source : String) (words : List Word) : Prop :=
  ∀ origin : Address,
    (Room origin words.length → ∃ p, assemble origin source = .ok p ∧
      p.image = ⟨origin, 0, (words ++ [0]).flatMap Word.toBytes⟩ ∧ Image.wordsOf p.image.bytes = words ++ [0]) ∧
    (¬Room origin words.length → ∃ line, assemble origin source = .error ⟨line, .internal .pastAddressSpace⟩)

theorem stackWords_statementsFrom (line : Nat) (lines : List InstructionLine) :
    stackWords (statementsFrom line lines) = 0 := by
  cases lines <;> rfl

/-- Plain instructions are assembled to their words. -/
theorem assemblesTo_of_lines {source : String} {lines : List InstructionLine} {words : List (List Word)}
    (hsource : splitSource source = .ok (numberedFrom 1 (lines.map InstructionLine.text)))
    (hplain : ∀ l ∈ lines, PlainLine l) (hwords : Encodes lines words) : AssemblesTo source words.flatten := by
  intro origin
  have hread : readProgram (numberedFrom 1 (lines.map InstructionLine.text)) = .ok (statementsFrom 1 lines) :=
    readFrom_lines 1 hplain rfl
  have hload : loadAddress (statementsFrom 1 lines) origin = .ok origin := by
    have hlt := UInt32.toNat_lt origin
    simp only [loadAddress, stackWords_statementsFrom]
    rw [if_pos (by simpa using hlt)]
    simp
  constructor
  · intro hroom
    obtain ⟨stop, hlayout, hstop⟩ := placeAll_of_room origin 1 1 hwords hroom
    obtain ⟨r, hemit, hbytes⟩ := emitFrom_of_room origin stop 1 hwords hstop
    refine ⟨_, bind_eq_ok.2 ⟨_, hsource, bind_eq_ok.2 ⟨_, hread, bind_eq_ok.2 ⟨_, hload, bind_eq_ok.2 ⟨_, hlayout,
      bind_eq_ok.2 ⟨_, bind_eq_ok.2 ⟨_, hemit, rfl⟩, rfl⟩⟩⟩⟩⟩, ?_, ?_⟩
    · rw [hbytes, stackWords_statementsFrom]
    · rw [hbytes, Image.wordsOf_flatMap_toBytes]
  · intro hroom
    obtain ⟨line, hlayout⟩ := placeAll_of_no_room origin 1 1 hwords hroom
    exact ⟨line, bind_eq_error.2 (.inr ⟨_, hsource, bind_eq_error.2 (.inr ⟨_, hread, bind_eq_error.2 (.inr ⟨_, hload,
      bind_eq_error.2 (.inl hlayout)⟩)⟩)⟩)⟩

end WordMachine.Assembly
