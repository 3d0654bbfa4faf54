/-
The two errors about labels. A conflict names a definition that gives a name another address than the
first definition of the name, and an undefined label is one that a statement refers to and none
defines. Neither is found while the statements are read: a conflict comes from the first walk over them,
an undefined label from the second.
-/
import WordMachine.Proofs.Assembly.Encoding
import WordMachine.Proofs.Assembly.Placement
import WordMachine.Proofs.Assembly.Sites

namespace WordMachine.Assembly

/-! ## References -/

/-- The name that a part of a list of bytes refers to. -/
def ByteItem.reference? : ByteItem → Option LabelName
  | .address label => some label
  | .literal _ => none

/-- The name that an operand refers to. -/
def operandReference? (operand : String) : Option LabelName :=
  match OperandToken.classify? operand with
  | some (.label name) => some (.ofText name)
  | _ => none

/-- The names that a statement refers to. -/
def StatementKind.references : StatementKind → List LabelName
  | .data _ (.bytes items) => items.filterMap ByteItem.reference?
  | .instruction line => line.operands.filterMap operandReference?
  | _ => []

/-- A fault about a label. -/
def Fault.IsLabelFault : Fault → Prop
  | .labelConflict .. | .undefinedLabel _ => True
  | _ => False

section

variable {labels : LabelTable} {fault : Fault}

theorem addressOf_eq_error_iff {label : LabelName} :
    labels.addressOf label = .error fault ↔ labels.get? label = none ∧ fault = .undefinedLabel label.text := by
  unfold LabelTable.addressOf
  cases labels.get? label <;> simp [eq_comm]

/-- Where an operand is refused for a label, the operand refers to it and the table does not have it. -/
theorem undefined_of_resolveOperand {kind : OperandKind} {operand : String}
    (h : resolveOperand labels kind operand = .error fault) (hf : fault.IsLabelFault) :
    ∃ label, operandReference? operand = some label ∧ labels.get? label = none ∧
      fault = .undefinedLabel label.text := by
  unfold resolveOperand at h
  dsimp only at h
  split at h
  · split at h <;> cases h
    cases hf
  · cases h; cases hf
  · rename_i label _ hclass
    exact ⟨.ofText label, by rw [operandReference?, hclass], addressOf_eq_error_iff.1 (map_eq_error.1 h)⟩
  all_goals cases h
  all_goals cases hf

theorem undefined_of_addOperands (hf : fault.IsLabelFault) : ∀ {kinds : Signature} {operands : List String}
    {p : Packed} {position : Nat}, p.addOperands labels position kinds operands = .error fault →
    ∃ operand ∈ operands, ∃ label, operandReference? operand = some label ∧ labels.get? label = none ∧
      fault = .undefinedLabel label.text
  | [], _, p, position, h => by simp [Packed.addOperands] at h
  | _ :: _, [], p, position, h => by simp [Packed.addOperands] at h
  | kind :: kinds, operand :: operands, p, position, h => by
    simp only [Packed.addOperands] at h
    rcases bind_eq_error.1 h with h | ⟨value, -, h⟩
    · exact ⟨operand, List.mem_cons_self .., undefined_of_resolveOperand h hf⟩
    · obtain ⟨operand', hmem, h⟩ := undefined_of_addOperands hf h
      exact ⟨operand', List.mem_cons_of_mem _ hmem, h⟩

theorem undefined_of_encode {line : InstructionLine} (h : line.encode labels = .error fault)
    (hf : fault.IsLabelFault) :
    ∃ operand ∈ line.operands, ∃ label, operandReference? operand = some label ∧ labels.get? label = none ∧
      fault = .undefinedLabel label.text := by
  unfold InstructionLine.encode at h
  split at h
  · split at h <;> cases h
    cases hf
  · rcases bind_eq_error.1 h with h | ⟨⟨pattern, signature⟩, -, h⟩
    · rw [lookupMnemonic_eq_error h] at hf; cases hf
    · dsimp only at h
      split at h
      · cases h; cases hf
      · rcases bind_eq_error.1 h with h | ⟨packed, -, h⟩
        · exact undefined_of_addOperands hf h
        · cases h

theorem confirm_eq_error {name : LabelName} {a : Address} (h : labels.confirm name a = .error fault) :
    ¬fault.IsLabelFault := by
  unfold LabelTable.confirm at h
  split at h
  · cases h; exact id
  · split at h <;> cases h
    exact id

/-- Where a statement is refused for a label, it refers to the label and the table does not have it. -/
theorem undefined_of_itemsOf {start : Address} {s : Statement} (h : itemsOf labels start s = .error fault)
    (hf : fault.IsLabelFault) :
    ∃ label ∈ s.kind.references, labels.get? label = none ∧ fault = .undefinedLabel label.text := by
  unfold itemsOf at h
  cases hk : s.kind with
  | header kind => rw [hk] at h; cases h
  | stack words => rw [hk] at h; cases h
  | label n =>
    rw [hk] at h
    rcases bind_eq_error.1 h with h | ⟨_, -, h⟩
    · exact absurd hf (confirm_eq_error h)
    · cases h
  | data n payload =>
    rw [hk] at h
    rcases bind_eq_error.1 h with h | ⟨_, -, h⟩
    · exact absurd hf (confirm_eq_error h)
    rcases bind_eq_error.1 h with h | ⟨_, -, h⟩
    · cases payload with
      | bytes items =>
        obtain ⟨item, hmem, h⟩ := mem_of_mapM_eq_error (map_eq_error.1 h)
        cases item with
        | literal value => cases h
        | address label =>
          exact ⟨label, List.mem_filterMap.2 ⟨_, hmem, rfl⟩, addressOf_eq_error_iff.1 (map_eq_error.1 h)⟩
      | _ => cases h
    · cases h
  | instruction line =>
    rw [hk] at h
    rcases bind_eq_error.1 h with h | ⟨_, -, h⟩
    · obtain ⟨operand, hmem, label, href, hnone⟩ := undefined_of_encode h hf
      exact ⟨label, List.mem_filterMap.2 ⟨operand, hmem, href⟩, hnone⟩
    · cases h

theorem isSome_get?_of_resolveOperand {kind : OperandKind} {operand : String} {value : Word} {label : LabelName}
    (h : resolveOperand labels kind operand = .ok value) (href : operandReference? operand = some label) :
    (labels.get? label).isSome := by
  unfold operandReference? at href
  unfold resolveOperand at h
  cases hclass : OperandToken.classify? operand with
  | none => rw [hclass] at href; cases href
  | some token =>
    rw [hclass] at h href
    cases token with
    | label written =>
      cases href
      cases kind with
      | register => cases h
      | _ =>
        obtain ⟨a, ha, -⟩ := map_eq_ok.1 h
        exact Option.isSome_iff_exists.2 ⟨a, addressOf_eq_ok.1 ha⟩
    | _ => cases href

theorem Resolves.exists_of_mem {operand : String} : ∀ {kinds : Signature} {operands : List String}
    {values : List Word}, Resolves labels kinds operands values → operand ∈ operands →
    ∃ kind value, resolveOperand labels kind operand = .ok value
  | [], [], [], _, hmem => nomatch hmem
  | kind :: kinds, _ :: operands, value :: values, h, hmem => by
    rcases List.mem_cons.1 hmem with rfl | hmem
    · exact ⟨kind, value, h.1⟩
    · exact h.2.exists_of_mem hmem

theorem exists_resolveOperand_of_encode {line : InstructionLine} {words : List Word} {operand : String}
    (h : line.encode labels = .ok words) (hmem : operand ∈ line.operands) :
    ∃ kind value, resolveOperand labels kind operand = .ok value := by
  obtain ⟨mnemonic, operands⟩ := line
  cases hnop : isNop mnemonic with
  | false =>
    obtain ⟨_, _, _, -, -, hvalues, -⟩ := (encode_eq_ok hnop).1 h
    exact hvalues.exists_of_mem hmem
  | true =>
    -- a `NOP` has no operands
    simp only [InstructionLine.encode, hnop, if_true] at h
    split at h
    · rename_i hempty
      rw [List.isEmpty_iff.1 hempty] at hmem
      cases hmem
    · cases h

/-- A statement with items refers to labels of the table only. -/
theorem isSome_get?_of_itemsOf {start next : Address} {s : Statement} {items : List Item} {label : LabelName}
    (h : itemsOf labels start s = .ok (items, next)) (hmem : label ∈ s.kind.references) :
    (labels.get? label).isSome := by
  unfold itemsOf at h
  cases hk : s.kind with
  | data n payload =>
    rw [hk] at h hmem
    obtain ⟨_, -, h⟩ := bind_eq_ok.1 h
    obtain ⟨bytes, hb, -⟩ := bind_eq_ok.1 h
    cases payload with
    | bytes items =>
      obtain ⟨parts, hparts, -⟩ := map_eq_ok.1 hb
      obtain ⟨item, hitem, href⟩ := List.mem_filterMap.1 hmem
      obtain ⟨part, hpart⟩ := exists_of_mapM_eq_ok hparts hitem
      cases item with
      | literal value => cases href
      | address written =>
        cases href
        obtain ⟨a, ha, -⟩ := map_eq_ok.1 hpart
        exact Option.isSome_iff_exists.2 ⟨a, addressOf_eq_ok.1 ha⟩
    | _ => cases hmem
  | instruction line =>
    rw [hk] at h hmem
    obtain ⟨words, hw, -⟩ := bind_eq_ok.1 h
    obtain ⟨operand, hoperand, href⟩ := List.mem_filterMap.1 hmem
    obtain ⟨kind, value, hvalue⟩ := exists_resolveOperand_of_encode hw hoperand
    exact isSome_get?_of_resolveOperand hvalue href
  | _ => rw [hk] at hmem; cases hmem

end

section

variable {layout : Layout}

theorem undefined_of_emitFrom {e : Error} (hf : e.fault.IsLabelFault) : ∀ {statements : List Statement}
    {address : Address} {current : Section} {pending : Bool},
    emitFrom layout address current pending statements = .error e →
    ∃ s ∈ statements, s.line = e.line ∧
      ∃ label ∈ s.kind.references, layout.labels.get? label = none ∧ e.fault = .undefinedLabel label.text
  | [], address, current, pending, h => by
    rw [emitFrom] at h
    split at h <;> cases h
    cases hf
  | s :: rest, address, current, pending, h => by
    have hlater {s' : Statement} : s' ∈ rest → s' ∈ s :: rest := List.mem_cons_of_mem s
    rcases s.kind.header_cases with hk | ⟨next, hk⟩
    · rw [emitFrom_cons hk] at h
      rcases bind_eq_error.1 h with h | ⟨p, -, h⟩
      · obtain ⟨hline, h⟩ := atLine_eq_error.1 h
        exact ⟨s, List.mem_cons_self .., hline.symm, undefined_of_itemsOf h hf⟩
      · rcases bind_eq_error.1 h with h | ⟨_, -, h⟩
        · obtain ⟨s', hs, h⟩ := undefined_of_emitFrom hf h
          exact ⟨s', hlater hs, h⟩
        · cases h
    · rw [emitFrom_header hk] at h
      obtain ⟨s', hs, h⟩ := undefined_of_emitFrom hf h
      exact ⟨s', hlater hs, h⟩

theorem isSome_get?_of_emitFrom {s : Statement} {label : LabelName} (hmem : label ∈ s.kind.references) :
    ∀ {statements : List Statement} {address : Address} {current : Section} {pending : Bool} {r : Rest},
    emitFrom layout address current pending statements = .ok r → s ∈ statements →
    (layout.labels.get? label).isSome
  | [], _, _, _, _, _, hs => nomatch hs
  | s' :: rest, address, current, pending, r, h, hs => by
    rcases s'.kind.header_cases with hk | ⟨next, hk⟩
    · rw [emitFrom_cons hk] at h
      obtain ⟨⟨items, stop⟩, hitems, h⟩ := bind_eq_ok.1 h
      obtain ⟨after, hafter, -⟩ := bind_eq_ok.1 h
      rcases List.mem_cons.1 hs with rfl | hs
      · exact isSome_get?_of_itemsOf (atLine_eq_ok.1 hitems) hmem
      · exact isSome_get?_of_emitFrom hmem hafter hs
    · rw [emitFrom_header hk] at h
      rcases List.mem_cons.1 hs with rfl | hs
      · rw [hk] at hmem; cases hmem
      · exact isSome_get?_of_emitFrom hmem h hs

end

/-! ## Reading -/

section

variable {fault : Fault} {source : SourceLine}

theorem not_isLabelFault_of_readSingle {read : String → Except Fault Word} {words : List String}
    (hread : ∀ word, read word = .error fault → ¬fault.IsLabelFault)
    (h : readSingle source read words = .error fault) : ¬fault.IsLabelFault := by
  unfold readSingle at h
  split at h
  · cases h
  · exact hread _ (map_eq_error.1 h)
  · cases h; exact id

theorem not_isLabelFault_of_readPayload {type : String} {words : List String}
    (h : readPayload source type words = .error fault) : ¬fault.IsLabelFault := by
  simp only [readPayload] at h
  split at h
  · split at h <;> cases h
    exact id
  split at h
  · refine not_isLabelFault_of_readSingle (fun word hw => ?_) h
    unfold readInteger at hw
    split at hw <;> cases hw
    exact id
  split at h
  · refine not_isLabelFault_of_readSingle (fun word hw => ?_) h
    unfold readFloat at hw
    split at hw <;> cases hw
    exact id
  split at h
  · obtain ⟨word, -, hw⟩ := mem_of_mapM_eq_error (map_eq_error.1 h)
    unfold readByteItem at hw
    split at hw
    · split at hw <;> cases hw
      exact id
    · cases hw
    · cases hw; exact id
  · cases h; exact id

theorem not_isLabelFault_of_readHeader {word : String} {operands : List String}
    (h : readHeader source word operands = .error fault) : ¬fault.IsLabelFault := by
  have hstart {kind : Section} (hs : (if operands.isEmpty then .ok (.header kind) else
      .error (.invalidStatement source.text) : Except Fault StatementKind) = .error fault) :
      ¬fault.IsLabelFault := by
    split at hs <;> cases hs
    exact id
  simp only [readHeader] at h
  split at h
  · exact hstart h
  split at h
  · exact hstart h
  split at h
  · exact hstart h
  split at h
  · unfold readStack at h
    split at h
    · split at h <;> cases h
      exact id
    · cases h; exact id
  · cases h; exact id

/-- No statement is refused for a label while it is read. -/
theorem not_isLabelFault_of_readLine {current : Section} (h : readLine current source = .error fault) :
    ¬fault.IsLabelFault := by
  unfold readLine at h
  split at h
  · cases h
  split at h
  · cases h; exact id
  split at h
  · exact not_isLabelFault_of_readHeader (map_eq_error.1 h)
  split at h
  · replace h := map_eq_error.1 h
    unfold readData at h
    split at h
    · split at h
      · cases h; exact id
      · exact not_isLabelFault_of_readPayload (map_eq_error.1 h)
    · cases h; exact id
  · replace h := map_eq_error.1 h
    unfold readCode at h
    split at h
    · split at h <;> cases h
      exact id
    · cases h

theorem not_isLabelFault_of_next {p : Position} {kind : StatementKind} (h : p.next kind = .error fault) :
    ¬fault.IsLabelFault := by
  unfold Position.next at h
  split at h
  · cases h
  · split at h
    · cases h; exact id
    · split at h <;> cases h
      exact id
  · cases h

end

theorem not_isLabelFault_of_readFrom {e : Error} : ∀ {lines : List SourceLine} {p : Position},
    readFrom p lines = .error e → ¬e.fault.IsLabelFault
  | [], p, h => by cases h
  | source :: rest, p, h => by
    rw [readFrom] at h
    rcases bind_eq_error.1 h with h | ⟨kind?, -, h⟩
    · exact not_isLabelFault_of_readLine (atLine_eq_error.1 h).2
    · cases kind? with
      | none => exact not_isLabelFault_of_readFrom h
      | some kind =>
        rcases bind_eq_error.1 h with h | ⟨p', -, h⟩
        · exact not_isLabelFault_of_next (atLine_eq_error.1 h).2
        · rcases bind_eq_error.1 h with h | ⟨_, -, h⟩
          · exact not_isLabelFault_of_readFrom h
          · cases h

theorem not_isLabelFault_of_splitSource {source : String} {e : Error} (h : splitSource source = .error e) :
    ¬e.fault.IsLabelFault := by
  unfold splitSource Splitter.finish at h
  split at h
  · cases h
  · split at h <;> cases h
    all_goals exact id

theorem not_isLabelFault_of_loadAddress {statements : List Statement} {origin : Address} {e : Error}
    (h : loadAddress statements origin = .error e) : ¬e.fault.IsLabelFault := by
  unfold loadAddress at h
  dsimp only at h
  split at h <;> cases h
  exact id

/-! ## Programs -/

/-- The statements of a program for loading at `origin`, at their addresses. -/
def programSites (origin : Address) (statements : List Statement) : List Site :=
  sites (origin.toNat + 4 * (stackWords statements).toNat) .code false statements

/-- Every name that the statements refer to is defined by one of them. -/
def AllDefined (statements : List Statement) : Prop :=
  ∀ s ∈ statements, ∀ name ∈ s.kind.references, ∃ s' ∈ statements, s'.kind.name? = some name

/-- A fault about a label is found in one of the two walks over the statements. -/
theorem walk_of_assemble {origin : Address} {source : String} {e : Error}
    (h : assemble origin source = .error e) (hf : e.fault.IsLabelFault) :
    ∃ statements load, ReadsAs source statements ∧ loadAddress statements origin = .ok load ∧
      (Layout.ofStatements load statements = .error e ∨
        ∃ layout, Layout.ofStatements load statements = .ok layout ∧
          emitFrom layout load .code false statements = .error e) := by
  unfold assemble at h
  rcases bind_eq_error.1 h with h | ⟨lines, hsplit, h⟩
  · exact absurd hf (not_isLabelFault_of_splitSource h)
  rcases bind_eq_error.1 h with h | ⟨statements, hread, h⟩
  · exact absurd hf (not_isLabelFault_of_readFrom h)
  rcases bind_eq_error.1 h with h | ⟨load, hload, h⟩
  · exact absurd hf (not_isLabelFault_of_loadAddress h)
  refine ⟨statements, load, ⟨lines, hsplit, hread⟩, hload, ?_⟩
  rcases bind_eq_error.1 h with h | ⟨layout, hlayout, h⟩
  · exact .inl h
  rcases bind_eq_error.1 h with h | ⟨_, -, h⟩
  · rcases bind_eq_error.1 h with h | ⟨_, -, h⟩
    · exact .inr ⟨layout, hlayout, h⟩
    · cases h
  · cases h

theorem isSome_get?_layout_iff {load : Address} {statements : List Statement} {layout : Layout} {name : LabelName}
    (h : Layout.ofStatements load statements = .ok layout) :
    (layout.labels.get? name).isSome ↔ ∃ s ∈ statements, s.kind.name? = some name := by
  rw [Cursor.isSome_get?_iff h]
  simp [LabelTable.get?]

/-- A conflict is found in the first walk, where a name is defined again. -/
theorem clash_of_assemble {origin : Address} {source name : String} {line : Nat} {old new : Address}
    (h : assemble origin source = .error ⟨line, .labelConflict name old new⟩) :
    ∃ statements, ReadsAs source statements ∧
      Clash [] (programSites origin statements) line ⟨name⟩ old new := by
  obtain ⟨statements, load, hreads, hload, hlayout | ⟨layout, -, hemit⟩⟩ := walk_of_assemble h trivial
  · have hnone : Cursor.Records ({ address := load } : Cursor).labels [] := fun _ => rfl
    have hclash := Cursor.clash_of_placeAll hnone hlayout
    rw [toNat_of_loadAddress hload] at hclash
    exact ⟨statements, hreads, hclash⟩
  · obtain ⟨_, -, -, _, -, -, hfault⟩ :=
      undefined_of_emitFrom (e := ⟨line, .labelConflict name old new⟩) trivial hemit
    cases hfault

/-- An undefined label is found in the second walk, where a statement refers to it. -/
theorem undefined_of_assemble {origin : Address} {source name : String} {line : Nat}
    (h : assemble origin source = .error ⟨line, .undefinedLabel name⟩) :
    ∃ statements, ReadsAs source statements ∧
      (∃ s ∈ statements, s.line = line ∧ (⟨name⟩ : LabelName) ∈ s.kind.references) ∧
      ∀ s ∈ statements, s.kind.name? ≠ some ⟨name⟩ := by
  obtain ⟨statements, load, hreads, -, hlayout | ⟨layout, hlayout, hemit⟩⟩ := walk_of_assemble h trivial
  · exact absurd rfl (Cursor.not_undefined_of_placeAll hlayout name)
  · obtain ⟨s, hs, hline, label, href, hnone, hfault⟩ :=
      undefined_of_emitFrom (e := ⟨line, .undefinedLabel name⟩) trivial hemit
    cases hfault
    refine ⟨statements, hreads, ⟨s, hs, hline, href⟩, fun s' hs' hname => ?_⟩
    have hsome := (isSome_get?_layout_iff hlayout).2 ⟨s', hs', hname⟩
    rw [hnone] at hsome
    cases hsome

/-- In a program that is assembled no definitions differ and no definition is missing. -/
theorem defined_of_assemble {origin : Address} {source : String} {statements : List Statement} {p : Program}
    (hreads : ReadsAs source statements) (h : assemble origin source = .ok p) :
    Unambiguous (programSites origin statements) ∧ AllDefined statements := by
  obtain ⟨lines, statements', load, layout, r, hsplit, hread, hload, hlayout, hemit, -⟩ := assemble_eq_ok h
  obtain rfl := hreads.unique ⟨lines, hsplit, hread⟩
  constructor
  · intro p hp q hq name hpn hqn
    unfold programSites at hp hq
    rw [← toNat_of_loadAddress hload] at hp hq
    have hp' := Cursor.get?_of_mem_sites (c := { address := load }) hpn hlayout hp
    have hq' := Cursor.get?_of_mem_sites (c := { address := load }) hqn hlayout hq
    exact Option.some.inj (hp'.symm.trans hq')
  · intro s hs name hname
    exact (isSome_get?_layout_iff hlayout).1 (isSome_get?_of_emitFrom hname hemit hs)

/-- Both errors about labels are exact. A conflict names the line of a definition, the address of the
first definition of the name and the address of this one, which differ; an undefined label is referred
to on its line and defined nowhere. A program whose definitions agree has no conflict, and one whose
references are all defined has no undefined label; one that is assembled is of both kinds. -/
theorem label_errors_exact (origin : Address) (source : String) :
    (∀ line name old new, assemble origin source = .error ⟨line, .labelConflict name old new⟩ →
      ∃ statements, ReadsAs source statements ∧
        Clash [] (programSites origin statements) line ⟨name⟩ old new) ∧
    (∀ line name, assemble origin source = .error ⟨line, .undefinedLabel name⟩ →
      ∃ statements, ReadsAs source statements ∧
        (∃ s ∈ statements, s.line = line ∧ (⟨name⟩ : LabelName) ∈ s.kind.references) ∧
        ∀ s ∈ statements, s.kind.name? ≠ some ⟨name⟩) ∧
    ∀ statements, ReadsAs source statements →
      (Unambiguous (programSites origin statements) →
        ∀ line name old new, assemble origin source ≠ .error ⟨line, .labelConflict name old new⟩) ∧
      (AllDefined statements →
        ∀ line name, assemble origin source ≠ .error ⟨line, .undefinedLabel name⟩) ∧
      ∀ p, assemble origin source = .ok p →
        Unambiguous (programSites origin statements) ∧ AllDefined statements := by
  refine ⟨fun _ _ _ _ => clash_of_assemble, fun _ _ => undefined_of_assemble, ?_⟩
  intro statements hreads
  refine ⟨?_, ?_, fun p => defined_of_assemble hreads⟩
  · intro hun line name old new h
    obtain ⟨statements', hreads', hclash⟩ := clash_of_assemble h
    obtain rfl := hreads.unique hreads'
    exact hclash.not_unambiguous hun
  · intro hall line name h
    obtain ⟨statements', hreads', ⟨s, hs, -, href⟩, hnone⟩ := undefined_of_assemble h
    obtain rfl := hreads.unique hreads'
    obtain ⟨s', hs', hname⟩ := hall s hs _ href
    exact hnone s' hs' hname

/-- A label that data defines again behind a jump, and a table of one known name and one unknown. -/
theorem label_errors_exact_redefined :
    (assemble 16 ":loop; NOP;\n.DATA; INT Loop 7;" = .error ⟨2, .labelConflict "loop" 16 24⟩ ∧
      ∃ statements, ReadsAs ":loop; NOP;\n.DATA; INT Loop 7;" statements ∧
        Clash [] (programSites 16 statements) 2 ⟨"loop"⟩ 16 24) ∧
    assemble 16 ".DATA; BYTES t @Go, @gone;\n.CODE; :GO;" = .error ⟨1, .undefinedLabel "gone"⟩ ∧
      ∃ statements, ReadsAs ".DATA; BYTES t @Go, @gone;\n.CODE; :GO;" statements ∧
        (∃ s ∈ statements, s.line = 1 ∧ (⟨"gone"⟩ : LabelName) ∈ s.kind.references) ∧
        ∀ s ∈ statements, s.kind.name? ≠ some ⟨"gone"⟩ := by
  have hconflict : assemble 16 ":loop; NOP;\n.DATA; INT Loop 7;" = .error ⟨2, .labelConflict "loop" 16 24⟩ := by
    decide +kernel
  have hundefined : assemble 16 ".DATA; BYTES t @Go, @gone;\n.CODE; :GO;" = .error ⟨1, .undefinedLabel "gone"⟩ := by
    decide +kernel
  exact ⟨⟨hconflict, (label_errors_exact 16 _).1 _ _ _ _ hconflict⟩, hundefined,
    (label_errors_exact 16 _).2.1 _ _ hundefined⟩

end WordMachine.Assembly
