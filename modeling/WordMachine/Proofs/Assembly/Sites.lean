/-
Where names are defined. `sites` puts every statement other than a header at its address without
looking at names, so that it can be said which definitions of a name differ.

The first walk keeps each name with the address of its first definition. It stops with a conflict where
a definition gives a name another address, and a walk that gets to the end has met no such definition.
-/
import WordMachine.Proofs.Assembly.Cursor

namespace WordMachine.Assembly

/-! ## Definitions at their addresses -/

/-- A statement other than a header, at the address of its first byte. -/
structure Site where
  statement : Statement
  address : Nat
  deriving Repr, DecidableEq

/-- The name that the statement gives to its address. -/
def Site.name? (q : Site) : Option LabelName := q.statement.kind.name?

/-- The statements from an address on with their addresses, as far as sizes are known: behind an unknown
mnemonic there are no addresses. -/
def sites (address : Nat) (current : Section) (pending : Bool) : List Statement → List Site
  | [] => []
  | s :: rest =>
    match s.kind with
    | .header next => sites address next pending rest
    | kind =>
      let start := if current != .code && !pending then address + 4 else address
      ⟨s, start⟩ :: kind.size.toOption.elim [] fun n => sites (start + n) current (current != .code) rest

/-- The first of the statements that define a name. -/
def firstDefinition? (name : LabelName) (sites : List Site) : Option Site :=
  sites.find? fun q => q.name? = some name

/-- All definitions of a name give it the same address. -/
def Unambiguous (sites : List Site) : Prop :=
  ∀ p ∈ sites, ∀ q ∈ sites, ∀ name, p.name? = some name → q.name? = some name → p.address = q.address

/-- After `done`, the statements define the name again on this line: it was `old` by its first definition
and is `new` by this one. -/
def Clash (done sites : List Site) (line : Nat) (name : LabelName) (old new : Address) : Prop :=
  ∃ before again after first, sites = before ++ again :: after ∧ again.statement.line = line ∧
    again.name? = some name ∧ again.address = new.toNat ∧
    firstDefinition? name (done ++ before) = some first ∧ first.address = old.toNat ∧ old ≠ new

section

variable {address : Nat} {current : Section} {pending : Bool} {s : Statement} {rest : List Statement}

theorem sites_header {next : Section} (hk : s.kind = .header next) :
    sites address current pending (s :: rest) = sites address next pending rest := by
  rw [sites, hk]

theorem sites_cons (hk : ∀ next, s.kind ≠ .header next) :
    sites address current pending (s :: rest) = ⟨s, address + jumpSize current pending⟩ ::
      s.kind.size.toOption.elim [] fun n =>
        sites (address + jumpSize current pending + n) current (leavesPending current) rest := by
  have hstart : (if current != .code && !pending then address + 4 else address) =
      address + jumpSize current pending := by
    unfold jumpSize needsJump
    by_cases h : (current != .code && !pending) = true <;> simp [h]
  rw [sites]
  split
  · rename_i next h; exact absurd h (hk next)
  · dsimp only
    rw [hstart]
    rfl

theorem sites_cons_of_size {n : Nat} (hk : ∀ next, s.kind ≠ .header next) (hn : s.kind.size = .ok n) :
    sites address current pending (s :: rest) = ⟨s, address + jumpSize current pending⟩ ::
      sites (address + jumpSize current pending + n) current (leavesPending current) rest := by
  rw [sites_cons hk, toOption_eq_some.2 hn, Option.elim_some]

end

theorem firstDefinition?_concat {name : LabelName} {q : Site} (done : List Site) :
    firstDefinition? name (done ++ [q]) =
      (firstDefinition? name done).or (if q.name? = some name then some q else none) := by
  unfold firstDefinition?
  rw [List.find?_append, List.find?_singleton]
  simp

/-- A name that clashes has two definitions with different addresses. -/
theorem Clash.not_unambiguous {sites : List Site} {line : Nat} {name : LabelName} {old new : Address}
    (h : Clash [] sites line name old new) : ¬Unambiguous sites := by
  obtain ⟨before, again, after, first, rfl, -, hagain, hnew, hfirst, hold, hne⟩ := h
  intro hun
  have hmem : first ∈ before ++ again :: after :=
    List.mem_append_left _ (List.mem_of_find?_eq_some hfirst)
  have hname : first.name? = some name := by simpa using List.find?_some hfirst
  have heq := hun first hmem again (by simp) name hname hagain
  exact hne (UInt32.toNat_inj.1 (by omega))

/-! ## Conflicts -/

theorem lookupMnemonic_eq_error {mnemonic : String} {fault : Fault} (h : lookupMnemonic mnemonic = .error fault) :
    fault = .unknownMnemonic mnemonic := by
  unfold lookupMnemonic at h
  split at h
  · cases h; rfl
  · split at h <;> cases h
    rfl

theorem advance_eq_error {a : Address} {n : Nat} {fault : Fault} (h : advance a n = .error fault) :
    fault = .internal .pastAddressSpace := by
  unfold advance at h
  split at h <;> cases h
  rfl

theorem wordCount_eq_error {line : InstructionLine} {fault : Fault} (h : line.wordCount = .error fault) :
    fault = .unknownMnemonic line.mnemonic := by
  unfold InstructionLine.wordCount at h
  split at h
  · cases h
  · exact lookupMnemonic_eq_error (map_eq_error.1 h)

namespace Cursor

theorem makeJump_eq_error {c : Cursor} {fault : Fault} (h : c.makeJump = .error fault) :
    fault = .internal .pastAddressSpace := by
  unfold makeJump at h
  by_cases hneed : needsJump c.current c.pending
  · simp only [hneed, if_true] at h
    rcases bind_eq_error.1 h with h | ⟨_, -, h⟩
    · exact advance_eq_error h
    · cases h
  · simp only [hneed] at h
    cases h

/-- What keeps a statement from being laid out: the end of the address space, a name with another address
or an unknown mnemonic. -/
theorem place_eq_error {c : Cursor} {kind : StatementKind} {fault : Fault} (h : c.place kind = .error fault) :
    fault = .internal .pastAddressSpace ∨ (∃ mnemonic, fault = .unknownMnemonic mnemonic) ∨
      ∃ name old new, fault = .labelConflict name.text old new ∧ kind.name? = some name ∧
        c.labels.get? name = some old ∧ new.toNat = c.address.toNat + jumpSize c.current c.pending ∧
        old ≠ new := by
  -- a definition is refused for the address that the name has, after the jump that the statement needs
  have hdefine {name : LabelName} {c₁ : Cursor} (hj : c.makeJump = .ok c₁) (hname : kind.name? = some name)
      (hd : c₁.labels.define name c₁.address = .error fault) :
      ∃ name old new, fault = .labelConflict name.text old new ∧ kind.name? = some name ∧
        c.labels.get? name = some old ∧ new.toNat = c.address.toNat + jumpSize c.current c.pending ∧
        old ≠ new := by
    obtain ⟨hc, hnat⟩ := makeJump_eq_ok hj
    have hlabels : c₁.labels = c.labels := by rw [hc]
    rw [hlabels] at hd
    unfold LabelTable.define at hd
    split at hd
    · cases hd
    · rename_i old hold
      split at hd
      · cases hd
      · rename_i hne
        cases hd
        exact ⟨name, old, c₁.address, rfl, hname, hold, hnat, hne⟩
  cases kind with
  | header next => cases h
  | stack words => exact .inl (makeJump_eq_error h)
  | label name =>
    rcases bind_eq_error.1 h with h | ⟨c₁, hj, h⟩
    · exact .inl (makeJump_eq_error h)
    · rcases bind_eq_error.1 h with h | ⟨_, -, h⟩
      · exact .inr (.inr (hdefine hj rfl h))
      · cases h
  | data name payload =>
    rcases bind_eq_error.1 h with h | ⟨c₁, hj, h⟩
    · exact .inl (makeJump_eq_error h)
    · rcases bind_eq_error.1 h with h | ⟨_, -, h⟩
      · exact .inr (.inr (hdefine hj rfl h))
      · rcases bind_eq_error.1 h with h | ⟨_, -, h⟩
        · exact .inl (advance_eq_error h)
        · cases h
  | instruction line =>
    rcases bind_eq_error.1 h with h | ⟨c₁, hj, h⟩
    · exact .inl (makeJump_eq_error h)
    · rcases bind_eq_error.1 h with h | ⟨_, -, h⟩
      · exact .inr (.inl ⟨_, wordCount_eq_error h⟩)
      · rcases bind_eq_error.1 h with h | ⟨_, -, h⟩
        · exact .inl (advance_eq_error h)
        · cases h

/-- An error of the walk is the end of the address space or that of a statement. -/
theorem placeAll_nil_eq_error {c : Cursor} {line : Nat} {e : Error} (h : c.placeAll line [] = .error e) :
    e.fault = .internal .pastAddressSpace := by
  rw [placeAll] at h
  rcases bind_eq_error.1 h with h | ⟨_, -, h⟩
  · exact advance_eq_error (atLine_eq_error.1 h).2
  · cases h

theorem placeAll_cons_eq_error {c : Cursor} {line : Nat} {s : Statement} {rest : List Statement} {e : Error}
    (h : c.placeAll line (s :: rest) = .error e) :
    (e.line = s.line ∧ c.place s.kind = .error e.fault) ∨
      ∃ c', c.place s.kind = .ok c' ∧ c'.placeAll s.line rest = .error e := by
  rw [placeAll] at h
  rcases bind_eq_error.1 h with h | ⟨c', hc, h⟩
  · exact .inl (atLine_eq_error.1 h)
  · exact .inr ⟨c', atLine_eq_ok.1 hc, h⟩

/-- The table has the names of the statements laid out so far, each with the address of its first
definition. -/
def Records (labels : LabelTable) (done : List Site) : Prop :=
  ∀ name, (labels.get? name).map UInt32.toNat = (firstDefinition? name done).map Site.address

/-- Laying out a statement records the name that it defines. -/
theorem Step.records {c c' : Cursor} {s : Statement} {start : Address} {n : Nat} {done : List Site}
    (hs : c.Step s.kind c' start n) (h : Records c.labels done) :
    Records c'.labels (done ++ [⟨s, c.address.toNat + jumpSize c.current c.pending⟩]) := by
  intro name
  rw [firstDefinition?_concat]
  specialize h name
  cases hfirst : firstDefinition? name done with
  | some first =>
    rw [hfirst, Option.map_some] at h
    obtain ⟨a, ha, hfirst⟩ := Option.map_eq_some_iff.1 h
    rw [(hs.labels_iff name a).2 (.inl ha)]
    simp [hfirst]
  | none =>
    rw [hfirst, Option.map_none, Option.map_eq_none_iff] at h
    by_cases hname : s.kind.name? = some name
    · rw [(hs.labels_iff name start).2 (.inr ⟨hname, rfl⟩)]
      simp [Site.name?, hname, hs.toNat_start]
    · have hnone : c'.labels.get? name = none := by
        rw [Option.eq_none_iff_forall_ne_some]
        intro a ha
        rcases (hs.labels_iff name a).1 ha with ha | ⟨ha, -⟩
        · rw [h] at ha; cases ha
        · exact hname ha
      simp [Site.name?, hname, hnone]

/-- A conflict is a clash of two definitions. -/
theorem clash_of_placeAll {l : Nat} {name : String} {old new : Address} :
    ∀ {statements : List Statement} {c : Cursor} {line : Nat} {done : List Site}, Records c.labels done →
    c.placeAll line statements = .error ⟨l, .labelConflict name old new⟩ →
    Clash done (sites c.address.toNat c.current c.pending statements) l ⟨name⟩ old new
  | [], c, line, done, _, h => by cases placeAll_nil_eq_error h
  | s :: rest, c, line, done, hrec, h => by
    rcases placeAll_cons_eq_error h with ⟨rfl, hplace⟩ | ⟨c', hplace, h⟩
    -- the statement that is refused defines the name again
    · rcases place_eq_error hplace with hf | ⟨_, hf⟩ | ⟨n, _, _, hf, hname, hold, hnew, hne⟩
      · cases hf
      · cases hf
      · cases hf
        have hk (next : Section) : s.kind ≠ .header next := by rintro hk; rw [hk] at hname; cases hname
        obtain ⟨first, hfirst, haddress⟩ := Option.map_eq_some_iff.1 ((hrec n).symm.trans (by rw [hold]; rfl))
        rw [sites_cons hk]
        exact ⟨[], _, _, first, rfl, rfl, hname, hnew.symm, by rw [List.append_nil]; exact hfirst, haddress, hne⟩
    -- the refused statement comes later, and this one is among those done
    · rcases s.kind.header_cases with hk | ⟨next, hk⟩
      · obtain ⟨start, n, hs⟩ := step_of_place hplace hk
        obtain ⟨before, again, after, first, heq, hl, hagain, hnew, hfirst, hold, hne⟩ :=
          clash_of_placeAll (hs.records hrec) h
        rw [hs.toNat_address, hs.toNat_start, hs.current_eq, hs.pending_eq] at heq
        rw [sites_cons_of_size hk hs.size_eq, heq]
        exact ⟨_ :: before, again, after, first, rfl, hl, hagain, hnew, by simpa using hfirst, hold, hne⟩
      · rw [hk] at hplace
        cases hplace
        rw [sites_header hk]
        exact clash_of_placeAll (c := { c with current := next }) hrec h

/-- The first walk does not look any name up. -/
theorem not_undefined_of_placeAll {e : Error} : ∀ {statements : List Statement} {c : Cursor} {line : Nat},
    c.placeAll line statements = .error e → ∀ name, e.fault ≠ .undefinedLabel name
  | [], c, line, h, name => by rw [placeAll_nil_eq_error h]; rintro ⟨⟩
  | s :: rest, c, line, h, name => by
    rcases placeAll_cons_eq_error h with ⟨-, h⟩ | ⟨c', -, h⟩
    · rcases place_eq_error h with h | ⟨_, h⟩ | ⟨_, _, _, h, -⟩ <;> rw [h] <;> rintro ⟨⟩
    · exact not_undefined_of_placeAll h name

/-- Every definition of a program that is laid out has the address that the table gives to its name. -/
theorem get?_of_mem_sites {q : Site} {name : LabelName} (hname : q.name? = some name) :
    ∀ {statements : List Statement} {c : Cursor} {line : Nat} {layout : Layout},
    c.placeAll line statements = .ok layout → q ∈ sites c.address.toNat c.current c.pending statements →
    (layout.labels.get? name).map UInt32.toNat = some q.address
  | [], c, line, layout, _, hq => by cases hq
  | s :: rest, c, line, layout, h, hq => by
    obtain ⟨c', hplace, h⟩ := placeAll_cons h
    rcases s.kind.header_cases with hk | ⟨next, hk⟩
    · obtain ⟨start, n, hs⟩ := step_of_place hplace hk
      rw [sites_cons_of_size hk hs.size_eq, List.mem_cons] at hq
      rcases hq with rfl | hq
      · rw [get?_of_placeAll h ((hs.labels_iff name start).2 (.inr ⟨hname, rfl⟩)), Option.map_some, hs.toNat_start]
      · refine get?_of_mem_sites hname h ?_
        rwa [hs.toNat_address, hs.toNat_start, hs.current_eq, hs.pending_eq]
    · rw [hk] at hplace
      cases hplace
      rw [sites_header hk] at hq
      exact get?_of_mem_sites hname h hq

/-- The names of a layout are those that are there already and those that the statements define. -/
theorem isSome_get?_iff {name : LabelName} : ∀ {statements : List Statement} {c : Cursor} {line : Nat}
    {layout : Layout}, c.placeAll line statements = .ok layout →
    ((layout.labels.get? name).isSome ↔
      (c.labels.get? name).isSome ∨ ∃ s ∈ statements, s.kind.name? = some name)
  | [], c, line, layout, h => by simp [(placeAll_nil h).1]
  | s :: rest, c, line, layout, h => by
    obtain ⟨c', hplace, h⟩ := placeAll_cons h
    have hstep : (c'.labels.get? name).isSome ↔ (c.labels.get? name).isSome ∨ s.kind.name? = some name := by
      rcases s.kind.header_cases with hk | ⟨next, hk⟩
      · obtain ⟨start, n, hs⟩ := step_of_place hplace hk
        simp only [Option.isSome_iff_exists, hs.labels_iff]
        constructor
        · rintro ⟨a, ha | ⟨hn, -⟩⟩
          · exact .inl ⟨a, ha⟩
          · exact .inr hn
        · rintro (⟨a, ha⟩ | hn)
          · exact ⟨a, .inl ha⟩
          · exact ⟨start, .inr ⟨hn, rfl⟩⟩
      · rw [hk] at hplace ⊢
        cases hplace
        simp [StatementKind.name?]
    rw [isSome_get?_iff h, hstep]
    simp [or_assoc]

end Cursor

end WordMachine.Assembly
