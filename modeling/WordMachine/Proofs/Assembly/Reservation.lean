/-
Reserving a stack in front of a program. The reservation is a statement of its own that takes no bytes, so
that the program after it is laid out and emitted as it is alone, from the end of the stack on.
-/
import WordMachine.Proofs.Assembly.OperandWords
import WordMachine.Proofs.Assembly.Placement
import WordMachine.Proofs.Assembly.Splitting

namespace WordMachine.Assembly

/-! ## Splitting -/

/-- The text of a reservation, without the semicolon after it. -/
def stackText (n : Word) : String := ".STACK " ++ toString n.toNat

theorem isAlphanum_of_mem_decimal {n : Nat} {c : Char} (h : c ∈ (toString n).toList) : c.isAlphanum = true := by
  rw [Text.toList_decimal] at h
  simp [Char.isAlphanum, Nat.isDigit_of_mem_toDigits (by decide) (by decide) h]

theorem foldl_stackText (n : Word) : ((stackText n).toList ++ [';']).foldl Splitter.step {} =
    { finished := [⟨1, stackText n⟩] } := by
  have hname : ".STACK ".toList.foldl Splitter.step {} = ⟨.normal, 1, ".STACK ", 1, []⟩ := by decide +kernel
  have hdigits : ∀ c ∈ (toString n.toNat).toList, IsOrdinary c :=
    fun c hc => isOrdinary_of_isPlain (isPlain_of_isAlphanum (isAlphanum_of_mem_decimal hc))
  have htext : ".STACK " ++ String.ofList (toString n.toNat).toList = stackText n := by
    rw [String.ofList_toList]
    rfl
  have hne : stackText n ≠ "" := by
    intro h
    have := congrArg String.toList h
    simp [stackText] at this
  rw [stackText, String.toList_append, List.append_assoc, List.foldl_append, hname, List.foldl_append,
    foldl_ordinary hdigits (by decide), htext]
  simp [Splitter.step, Splitter.read, Splitter.endStatement, hne]
  rfl

theorem splitSource_stackText (n : Word) (source : String) :
    splitSource (stackText n ++ ";" ++ source) = (splitSource source).map (⟨1, stackText n⟩ :: ·) := by
  have hchars : (stackText n ++ ";" ++ source).toList = (stackText n).toList ++ [';'] ++ source.toList := by simp
  -- the reservation ends no line, so that the statements after it stay where they are
  have hmoved : Splitter.MovedDown 0 [⟨1, stackText n⟩] {} { finished := [⟨1, stackText n⟩] } :=
    ⟨rfl, rfl, rfl, fun h => absurd rfl h, rfl⟩
  rw [splitSource, hchars, List.foldl_append, foldl_stackText, (hmoved.foldl source.toList).finish, ← splitSource]
  cases splitSource source with
  | error e => rfl
  | ok lines => exact congrArg (fun lines => Except.ok (_ :: lines)) (List.map_id lines)

/-! ## Reading -/

theorem classify?_decimal (v : Word) : OperandToken.classify? (toString v.toNat) = some (.integer v) := by
  have hmem : Nat.toDigits 10 v.toNat ∈ OperandToken.spellings v 0 := by
    simp [OperandToken.spellings, Text.zerosAndDigits]
  refine OperandToken.classify?_of_denotes ?_
  rw [Text.toList_decimal]
  exact OperandToken.denotes_of_mem_spellings hmem

theorem words_stackText (n : Word) (line : Nat) :
    SourceLine.words ⟨line, stackText n⟩ = [".STACK", toString n.toNat] := by
  have hchars : (stackText n).toList = ".STACK".toList ++ ' ' :: (toString n.toNat).toList := by simp [stackText]
  have hdigits : splitWords (toString n.toNat).toList = [(toString n.toNat).toList] := by
    refine splitWords_word _ ?_ fun c hc => ?_
    · rw [Text.toList_decimal]
      exact Nat.toDigits_ne_nil
    · exact isSeparator_of_isAlphanum (isAlphanum_of_mem_decimal hc)
  have hname : ".STACK".toList.all (isSeparator · = false) = true := by decide
  rw [SourceLine.words, hchars, splitWords_append rfl _ _ (by decide) ?_, splitWords_separator rfl, hdigits,
    List.map_cons, List.map_singleton, String.ofList_toList, String.ofList_toList]
  exact fun c hc => of_decide_eq_true (List.all_eq_true.1 hname c hc)

/-- The text of a reservation is read as that reservation. -/
theorem readLine_stackText (n : Word) (line : Nat) :
    readLine .code ⟨line, stackText n⟩ = .ok (some (.stack n)) := by
  have hat : (stackText n).startsWith "@" = false := by
    rw [String.startsWith_string_eq_false_iff]
    simp [stackText]
  have hclass := classify?_decimal n
  have hdot : ".STACK".startsWith "." = true := by decide +kernel
  have hupper : Text.upper ".STACK" = ".STACK" := by decide +kernel
  have hread : readStack [toString n.toNat] = .ok (.stack n) := by rw [readStack, hclass]
  have hheader : readHeader ⟨line, stackText n⟩ ".STACK" [toString n.toNat] = .ok (.stack n) := by
    simp only [readHeader, hupper]
    exact hread
  unfold readLine
  rw [words_stackText]
  simp only [hat, hdot, hheader]
  rfl

/-- No statement of the source reserves a stack. -/
def NoReservation (source : String) : Prop :=
  ∀ lines, splitSource source = .ok lines → ∀ line ∈ lines, ∀ word ∈ line.words.head?, Text.upper word ≠ ".STACK"

theorem upper_of_readHeader {source : SourceLine} {word : String} {operands : List String} {n : Word}
    (h : readHeader source word operands = .ok (.stack n)) : Text.upper word = ".STACK" := by
  have hstart (kind : Section) (hkind : (if operands.isEmpty then .ok (.header kind) else
      .error (.invalidStatement source.text) : Except Fault StatementKind) = .ok (.stack n)) : False := by
    split at hkind <;> cases hkind
  unfold readHeader at h
  dsimp only at h
  split at h
  · exact (hstart _ h).elim
  split at h
  · exact (hstart _ h).elim
  split at h
  · exact (hstart _ h).elim
  split at h
  · assumption
  · cases h

theorem ne_stack_of_readData {source : SourceLine} {type : String} {rest : List String} {n : Word} :
    readData source type rest ≠ .ok (.stack n) := by
  intro h
  unfold readData at h
  split at h
  · split at h
    · cases h
    · obtain ⟨payload, -, hkind⟩ := map_eq_ok.1 h
      cases hkind
  · cases h

theorem ne_stack_of_readCode {source : SourceLine} {word : String} {operands : List String} {n : Word} :
    readCode source word operands ≠ .ok (.stack n) := by
  intro h
  unfold readCode at h
  split at h
  · split at h <;> cases h
  · cases h

theorem upper_of_readLine {current : Section} {source : SourceLine} {n : Word}
    (h : readLine current source = .ok (some (.stack n))) :
    ∃ word ∈ source.words.head?, Text.upper word = ".STACK" := by
  obtain ⟨word, rest, hwords, hread | ⟨-, hread⟩ | hread⟩ := readLine_cases h
  · exact ⟨word, by rw [hwords]; rfl, upper_of_readHeader hread⟩
  · exact absurd hread ne_stack_of_readData
  · exact absurd hread ne_stack_of_readCode

theorem ne_stack_of_readLine {current : Section} {source : SourceLine} {kind : StatementKind}
    (hsource : ∀ word ∈ source.words.head?, Text.upper word ≠ ".STACK")
    (h : readLine current source = .ok (some kind)) (n : Word) : kind ≠ .stack n := by
  rintro rfl
  obtain ⟨word, hword, hupper⟩ := upper_of_readLine h
  exact hsource word hword hupper

/-- A statement other than a reservation is accepted in every position. -/
theorem exists_next {kind : StatementKind} (hkind : ∀ n, kind ≠ .stack n) {p q : Position}
    (hcurrent : p.current = q.current) :
    ∃ p' q', p.next kind = .ok p' ∧ q.next kind = .ok q' ∧ p'.current = q'.current := by
  cases kind with
  | header next => exact ⟨_, _, rfl, rfl, rfl⟩
  | stack n => exact absurd rfl (hkind n)
  | label name => exact ⟨_, _, rfl, rfl, hcurrent⟩
  | data name payload => exact ⟨_, _, rfl, rfl, hcurrent⟩
  | instruction line => exact ⟨_, _, rfl, rfl, hcurrent⟩

/-- Without a reservation among them, lines are read in the same way from all positions in a section. -/
theorem readFrom_congr : ∀ {lines : List SourceLine} {p q : Position}, p.current = q.current →
    (∀ line ∈ lines, ∀ word ∈ line.words.head?, Text.upper word ≠ ".STACK") → readFrom p lines = readFrom q lines
  | [], _, _, _, _ => rfl
  | source :: rest, p, q, hcurrent, h => by
    rw [List.forall_mem_cons] at h
    rw [readFrom, readFrom, hcurrent]
    cases hline : readLine q.current source with
    | error fault => rfl
    | ok kind? =>
      cases kind? with
      | none => exact readFrom_congr hcurrent h.2
      | some kind =>
        obtain ⟨p', q', hp, hq, hcurrent'⟩ := exists_next (ne_stack_of_readLine h.1 hline) hcurrent
        have ih := readFrom_congr hcurrent' h.2
        show atLine source.line (p.next kind) >>= _ = atLine source.line (q.next kind) >>= _
        rw [hp, hq]
        show readFrom p' rest >>= _ = readFrom q' rest >>= _
        rw [ih]

theorem ne_stack_of_readFrom {lines : List SourceLine} {p : Position} {statements : List Statement}
    (h : ∀ line ∈ lines, ∀ word ∈ line.words.head?, Text.upper word ≠ ".STACK")
    (hread : readFrom p lines = .ok statements) : ∀ s ∈ statements, ∀ n, s.kind ≠ .stack n := by
  intro s hs n
  obtain ⟨source, hsource, current, hline⟩ := exists_readLine_of_readFrom hread hs
  exact ne_stack_of_readLine (h source hsource) hline n

/-! ## Assembling -/

/-- The program with so many words of stack reserved at `origin` before it. -/
def Program.withStack (p : Program) (origin : Address) (n : Word) : Program :=
  { p with image := { p.image with origin, stackWords := n } }

theorem readProgram_stackText {lines : List SourceLine} (n : Word)
    (h : ∀ line ∈ lines, ∀ word ∈ line.words.head?, Text.upper word ≠ ".STACK") :
    readProgram (⟨1, stackText n⟩ :: lines) = (readProgram lines).map (⟨1, .stack n⟩ :: ·) := by
  have hcongr : readFrom { started := true, stacked := true } lines = readFrom {} lines := readFrom_congr rfl h
  rw [readProgram, readFrom, readLine_stackText]
  show readFrom { started := true, stacked := true } lines >>= _ = _
  rw [hcongr, readProgram]
  cases readFrom {} lines <;> rfl

theorem stackWords_eq_zero {statements : List Statement} (h : ∀ s ∈ statements, ∀ n, s.kind ≠ .stack n) :
    stackWords statements = 0 := by
  unfold stackWords
  split
  · rename_i line words rest
    exact absurd rfl (h _ (List.mem_cons_self ..) words)
  · rfl

theorem loadAddress_of_stackWords {statements : List Statement} (h : stackWords statements = 0) (origin : Address) :
    loadAddress statements origin = .ok origin := by
  have hlt := UInt32.toNat_lt origin
  simp only [loadAddress, h]
  rw [if_pos (by simpa using hlt)]
  simp

/-- The items of a program do not depend on a reservation before it. -/
theorem emit_stack (layout : Layout) (load : Address) (n : Word) (statements : List Statement) :
    emit layout load (⟨1, .stack n⟩ :: statements) = emit layout load statements := by
  unfold emit
  rw [emitFrom_cons (by simp)]
  show (emitFrom layout load .code false statements >>= _) >>= _ = _
  cases emitFrom layout load .code false statements with
  | error e => rfl
  | ok after => rfl

/-- A reservation in front of a source moves the program behind the stack and changes nothing else. -/
theorem assemble_stackText {origin : Address} {n : Word} {source : String} (hsource : NoReservation source)
    (hroom : origin.toNat + 4 * n.toNat < 2 ^ 32) :
    assemble origin (stackText n ++ ";" ++ source) =
      (assemble (origin + 4 * n) source).map (·.withStack origin n) := by
  unfold assemble
  rw [splitSource_stackText]
  cases hsplit : splitSource source with
  | error e => rfl
  | ok lines =>
    show readProgram (⟨1, stackText n⟩ :: lines) >>= _ = Except.map _ (readProgram lines >>= _)
    rw [readProgram_stackText n (hsource lines hsplit)]
    cases hread : readProgram lines with
    | error e => rfl
    | ok statements =>
      have hzero := stackWords_eq_zero (ne_stack_of_readFrom (hsource lines hsplit) hread)
      have hload : loadAddress (⟨1, .stack n⟩ :: statements) origin = .ok (origin + 4 * n) := by
        unfold loadAddress
        rw [UInt32.add_comm]
        exact if_pos (by rw [Nat.add_comm]; exact hroom)
      have hload' := loadAddress_of_stackWords hzero (origin + 4 * n)
      have hlayout (load : Address) :
          Layout.ofStatements load (⟨1, .stack n⟩ :: statements) = Layout.ofStatements load statements := rfl
      show loadAddress (⟨1, .stack n⟩ :: statements) origin >>= _ =
        Except.map _ (loadAddress statements (origin + 4 * n) >>= _)
      rw [hload, hload']
      show Layout.ofStatements (origin + 4 * n) (⟨1, .stack n⟩ :: statements) >>= _ =
        Except.map _ (Layout.ofStatements (origin + 4 * n) statements >>= _)
      rw [hlayout]
      cases Layout.ofStatements (origin + 4 * n) statements with
      | error e => rfl
      | ok layout =>
        show emit layout (origin + 4 * n) (⟨1, .stack n⟩ :: statements) >>= _ =
          Except.map _ (emit layout (origin + 4 * n) statements >>= _)
        rw [emit_stack]
        cases emit layout (origin + 4 * n) statements <;> rfl

end WordMachine.Assembly
