/-
Which statements a section holds. What is read in a data section is data and what is read elsewhere is
not, so in a program every declaration of data has the section it stands in for a data section.
-/
import WordMachine.Proofs.Assembly.Placement

namespace WordMachine.Assembly

/-- The declarations of data among the statements stand in data sections; `current` is the section
before the first of them. -/
def DataInSections (current : Section) : List Statement → Prop
  | [] => True
  | s :: rest =>
    match s.kind with
    | .header next => DataInSections next rest
    | kind => (kind.isData → current = .data) ∧ DataInSections current rest

theorem dataInSections_header {current next : Section} {s : Statement} {rest : List Statement}
    (hk : s.kind = .header next) : DataInSections current (s :: rest) ↔ DataInSections next rest := by
  rw [DataInSections, hk]

theorem dataInSections_cons {current : Section} {s : Statement} {rest : List Statement}
    (hk : ∀ next, s.kind ≠ .header next) :
    DataInSections current (s :: rest) ↔ (s.kind.isData → current = .data) ∧ DataInSections current rest := by
  rw [DataInSections]
  split
  · rename_i next h; exact absurd h (hk next)
  · exact Iff.rfl

/-! ## Reading a program -/

theorem current_of_next {p p' : Position} {kind : StatementKind} (h : p.next kind = .ok p') :
    (∀ next, kind = .header next → p'.current = next) ∧
      ((∀ next, kind ≠ .header next) → p'.current = p.current) := by
  cases kind with
  | header next => cases h; exact ⟨fun _ h => (by cases h; rfl), fun hk => absurd rfl (hk next)⟩
  | stack words =>
    refine ⟨fun _ h => (by cases h), fun _ => ?_⟩
    unfold Position.next at h
    dsimp only at h
    repeat' split at h
    all_goals cases h
    rfl
  | _ => cases h; exact ⟨fun _ h => (by cases h), fun _ => rfl⟩

theorem dataInSections_of_readFrom : ∀ {lines : List SourceLine} {p : Position} {statements : List Statement},
    readFrom p lines = .ok statements → DataInSections p.current statements
  | [], p, statements, h => by cases h; trivial
  | source :: rest, p, statements, h => by
    rw [readFrom] at h
    obtain ⟨kind?, hl, h⟩ := bind_eq_ok.1 h
    have hl := atLine_eq_ok.1 hl
    cases kind? with
    | none => exact dataInSections_of_readFrom h
    | some kind =>
      obtain ⟨p', hp, h⟩ := bind_eq_ok.1 h
      obtain ⟨later, hr, h⟩ := bind_eq_ok.1 h
      cases h
      obtain ⟨hheader, hother⟩ := current_of_next (atLine_eq_ok.1 hp)
      have ih := dataInSections_of_readFrom hr
      rcases kind.header_cases with hk | ⟨next, hk⟩
      · rw [dataInSections_cons hk, ← hother hk]
        refine ⟨fun hd => ?_, ih⟩
        rw [hother hk]
        exact (readData_of_readLine hl hd).1
      · rw [dataInSections_header hk, ← hheader next hk]
        exact ih

/-- In a program that is read, data stands in data sections. -/
theorem ReadsAs.dataInSections {source : String} {statements : List Statement}
    (h : ReadsAs source statements) : DataInSections .code statements := by
  obtain ⟨lines, -, hr⟩ := h
  exact dataInSections_of_readFrom hr

/-- The places of statements that are read keep data in data sections. -/
theorem current_of_placement {labels : LabelTable} : ∀ {statements : List Statement} {address : Nat}
    {current : Section} {pending : Bool} {placed : List Placed} {stop : Nat},
    placement labels address current pending statements = some (placed, stop) →
    DataInSections current statements → ∀ q ∈ placed, q.statement.kind.isData → q.current = .data
  | [], _, _, _, _, _, h, _, q, hq => by cases h; cases hq
  | s :: rest, address, current, pending, placed, stop, h, hd, q, hq => by
    rcases s.kind.header_cases with hk | ⟨next, hk⟩
    · obtain ⟨bytes, later, -, hl, rfl⟩ := (placement_cons hk).1 h
      obtain ⟨hs, hd⟩ := (dataInSections_cons hk).1 hd
      rcases List.mem_cons.1 hq with rfl | hq
      · exact hs
      · exact current_of_placement hl hd q hq
    · rw [placement_header hk] at h
      rw [dataInSections_header hk] at hd
      exact current_of_placement h hd q hq

end WordMachine.Assembly
