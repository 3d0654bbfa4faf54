/-
References to labels. A name of the label table comes from a word of the source, so that it is not empty and has no
separator in it; it may have any other character, since a definition does not look at its name. In a reference three of
these are not allowed. A name without them can be referred to, as an operand and in a list of bytes, and a name with
one of them cannot.
-/
import WordMachine.Proofs.Assembly.LabelErrors
import WordMachine.Proofs.Assembly.LetterCase
import WordMachine.Proofs.Assembly.OperandWords
import WordMachine.Proofs.Text.LowerCase

namespace WordMachine.Assembly

/-! ## Names from words -/

/-- What is divided from the rest of a statement: not empty, and without separators. -/
structure IsWord (cs : List Char) : Prop where
  ne_nil : cs ≠ []
  not_separator : ∀ c ∈ cs, isSeparator c = false

theorem isWord_of_mem_splitWords {cs word : List Char} (h : word ∈ splitWords cs) : IsWord word := by
  fun_induction splitWords cs generalizing word with
  | case1 => cases h
  | case2 c cs hc ih => exact ih h
  | case3 c hc =>
    rw [List.mem_singleton.1 h]
    exact ⟨List.cons_ne_nil _ _, List.forall_mem_singleton.2 (by simpa using hc)⟩
  | case4 c hc next rest hnext ih =>
    rcases List.mem_cons.1 h with rfl | h
    · exact ⟨List.cons_ne_nil _ _, List.forall_mem_singleton.2 (by simpa using hc)⟩
    · exact ih h
  | case5 c hc next rest hnext first words heq ih =>
    rw [heq] at h ih
    rcases List.mem_cons.1 h with rfl | h
    · have hfirst := ih (List.mem_cons_self ..)
      exact ⟨List.cons_ne_nil _ _, List.forall_mem_cons.2 ⟨by simpa using hc, hfirst.not_separator⟩⟩
    · exact ih (List.mem_cons_of_mem _ h)
  | case6 c hc next rest hnext heq ih =>
    rw [heq] at h
    rw [List.mem_singleton.1 h]
    exact ⟨List.cons_ne_nil _ _, List.forall_mem_singleton.2 (by simpa using hc)⟩

theorem SourceLine.isWord {l : SourceLine} {word : String} (h : word ∈ l.words) : IsWord word.toList := by
  obtain ⟨cs, hcs, rfl⟩ := List.mem_map.1 h
  rw [String.toList_ofList]
  exact isWord_of_mem_splitWords hcs

/-- A name that is the lower case of a word, or of the rest of one. -/
def LabelName.FromWord (name : LabelName) : Prop := ∃ s : String, IsWord s.toList ∧ name = .ofText s

theorem name?_of_readHeader {source : SourceLine} {word : String} {operands : List String} {kind : StatementKind}
    (h : readHeader source word operands = .ok kind) : kind.name? = none := by
  unfold readHeader readStack at h
  dsimp only at h
  repeat' split at h
  all_goals cases h
  all_goals rfl

theorem fromWord_of_readData {source : SourceLine} {type : String} {rest : List String} {kind : StatementKind}
    {name : LabelName} (hrest : ∀ word ∈ rest, IsWord word.toList) (h : readData source type rest = .ok kind)
    (hname : kind.name? = some name) : name.FromWord := by
  cases rest with
  | nil => cases h
  | cons first words =>
    rw [readData] at h
    by_cases hquote : first.startsWith "\"" = true
    · rw [if_pos hquote] at h
      cases h
    · rw [if_neg hquote] at h
      obtain ⟨payload, -, rfl⟩ := map_eq_ok.1 h
      cases hname
      exact ⟨first, hrest first (List.mem_cons_self ..), rfl⟩

theorem fromWord_of_readCode {source : SourceLine} {word : String} {operands : List String} {kind : StatementKind}
    {name : LabelName} (hword : IsWord word.toList) (h : readCode source word operands = .ok kind)
    (hname : kind.name? = some name) : name.FromWord := by
  by_cases hcolon : word.toList.head? = some ':'
  · obtain ⟨cs, hcs⟩ := List.head?_eq_some_iff.1 hcolon
    rw [readCode_of_label hcs] at h
    by_cases hempty : cs.isEmpty = true ∨ (!operands.isEmpty) = true
    · rw [if_pos hempty] at h
      cases h
    · rw [if_neg hempty] at h
      cases h
      cases hname
      have hseparator := hword.not_separator
      rw [hcs, List.forall_mem_cons] at hseparator
      refine ⟨String.ofList cs, ?_, rfl⟩
      rw [String.toList_ofList]
      exact ⟨fun he => hempty (.inl (by rw [he]; rfl)), hseparator.2⟩
  · rw [readCode_of_ne hcolon] at h
    cases h
    cases hname

theorem fromWord_of_readLine {current : Section} {source : SourceLine} {kind : StatementKind} {name : LabelName}
    (h : readLine current source = .ok (some kind)) (hname : kind.name? = some name) : name.FromWord := by
  have hwords : ∀ word ∈ source.words, IsWord word.toList := fun word hword => SourceLine.isWord hword
  obtain ⟨word, rest, hsource, hread | ⟨-, hread⟩ | hread⟩ := readLine_cases h
  all_goals rw [hsource, List.forall_mem_cons] at hwords
  · rw [name?_of_readHeader hread] at hname
    cases hname
  · exact fromWord_of_readData hwords.2 hread hname
  · exact fromWord_of_readCode hwords.1 hread hname

theorem fromWord_of_mem_labels {origin : Address} {source : String} {p : Program} {name : LabelName} {v : Address}
    (h : assemble origin source = .ok p) (hmem : (name, v) ∈ p.labels) : name.FromWord := by
  obtain ⟨statements, placed, stop, -, hplaced⟩ := placement_of_assemble h
  have hget := (LabelTable.mem_iff_get? hplaced.ordered).1 hmem
  obtain ⟨lines, statements, load, layout, r, -, hread, -, hlayout, -, rfl⟩ := assemble_eq_ok h
  obtain ⟨s, hs, hname⟩ := (isSome_get?_layout_iff hlayout).1 (Option.isSome_of_eq_some hget)
  obtain ⟨line, -, current, hline⟩ := exists_readLine_of_readFrom hread hs
  exact fromWord_of_readLine hline hname

namespace LabelName.FromWord

variable {name : LabelName} (h : name.FromWord)

include h

theorem ofText_text : .ofText name.text = name := by
  obtain ⟨s, -, rfl⟩ := h
  exact congrArg LabelName.mk (Text.lower_lower s)

theorem isWord : IsWord name.text.toList := by
  obtain ⟨s, hs, rfl⟩ := h
  refine ⟨Text.lower_ne_empty hs.ne_nil, fun c hc => ?_⟩
  -- a separator is below 128 and no letter, so that it would stand in the word itself
  by_contra hseparator
  have hsmall : c.toNat < 128 ∧ c.isAlpha = false := by
    simp only [isSeparator, Bool.not_eq_false, Bool.or_eq_true, beq_iff_eq] at hseparator
    rcases hseparator with (rfl | rfl) | rfl <;> decide
  exact hseparator (hs.not_separator c (Text.mem_of_mem_lower hsmall.1 hsmall.2 hc))

end LabelName.FromWord

/-! ## Referring to names -/

/-- May the name be written after an `@`? Its letters, digits and most of its other characters may. -/
def LabelName.Referable (name : LabelName) : Prop := ∀ c ∈ name.text.toList, c ∉ ['@', ';', '\n']

instance (name : LabelName) : Decidable name.Referable := List.decidableBAll (· ∉ ['@', ';', '\n']) name.text.toList

theorem LabelName.FromWord.referable_iff {name : LabelName} (h : name.FromWord) :
    name.Referable ↔ ∀ c ∈ name.text.toList, c ∉ [' ', '\t', '\n', ',', ';', '@'] := by
  refine forall₂_congr fun c hc => ?_
  have hseparator := h.isWord.not_separator c hc
  simp only [isSeparator, Bool.or_eq_false_iff, beq_eq_false_iff_ne] at hseparator
  simp only [List.mem_cons, List.not_mem_nil, or_false, not_or]
  tauto

/-- A word with an `@` in front is a reference, or nothing if one of its characters may not stand there. -/
theorem classify?_reference {name : LabelName} (h : name.FromWord) :
    (name.Referable → OperandToken.classify? ("@" ++ name.text) = some (.label name.text)) ∧
      (¬name.Referable → OperandToken.classify? ("@" ++ name.text) = none) := by
  have htext : ("@" ++ name.text).toList = '@' :: name.text.toList := by simp
  rw [h.referable_iff]
  constructor
  · intro hchars
    have hdenotes := OperandToken.Denotes.label h.isWord.ne_nil hchars
    rw [← htext, String.ofList_toList] at hdenotes
    exact OperandToken.classify?_of_denotes hdenotes
  · intro hchars
    cases hclass : OperandToken.classify? ("@" ++ name.text) with
    | none => rfl
    | some token =>
      have hdenotes := OperandToken.denotes_of_classify? hclass
      rw [htext] at hdenotes
      exact absurd hdenotes.label_chars hchars

theorem resolveOperand_of_label {labels : LabelTable} {kind : OperandKind} {word name : String}
    (hkind : kind ≠ .register) (h : OperandToken.classify? word = some (.label name)) :
    resolveOperand labels kind word = (labels.addressOf (.ofText name)).map fun (a : Address) => a >>> 2 := by
  cases kind with
  | register => exact absurd rfl hkind
  | _ => simp only [resolveOperand, h]

theorem resolveOperand_of_none {labels : LabelTable} {kind : OperandKind} {word : String} (hkind : kind ≠ .register)
    (h : OperandToken.classify? word = none) :
    resolveOperand labels kind word = .error (.invalidOperand word .notAnOperand) := by
  cases kind with
  | register => exact absurd rfl hkind
  | _ => simp only [resolveOperand, h]

/-- In a program that is assembled, a label is referred to by its name. Where the name has no `@`, semicolon or newline,
an operand of any kind but a register stands for the address of the label in words, and a part of a list of bytes for
the bytes of the address. Where it has one, both are refused. -/
theorem label_reference_iff {origin : Address} {source : String} {p : Program} {name : LabelName} {v : Address}
    (h : assemble origin source = .ok p) (hmem : (name, v) ∈ p.labels) :
    (name.Referable →
      (∀ kind ≠ .register, resolveOperand p.labels kind ("@" ++ name.text) = .ok (v >>> 2)) ∧
        (readByteItem ("@" ++ name.text) >>= ByteItem.bytes p.labels) = .ok (Word.toBytes v)) ∧
      (¬name.Referable →
        (∀ kind ≠ .register, resolveOperand p.labels kind ("@" ++ name.text) =
          .error (.invalidOperand ("@" ++ name.text) .notAnOperand)) ∧
        readByteItem ("@" ++ name.text) = .error (.illegalByte ("@" ++ name.text))) := by
  have hword := fromWord_of_mem_labels h hmem
  obtain ⟨statements, placed, stop, -, hplaced⟩ := placement_of_assemble h
  have hget := (LabelTable.mem_iff_get? hplaced.ordered).1 hmem
  -- a reference is put in lower case again before it is looked up
  have haddress : p.labels.addressOf (.ofText name.text) = .ok v := by
    rw [hword.ofText_text, LabelTable.addressOf, hget]
  obtain ⟨hreferable, hother⟩ := classify?_reference hword
  refine ⟨fun hr => ⟨fun kind hkind => ?_, ?_⟩, fun hr => ⟨fun kind hkind => ?_, ?_⟩⟩
  · rw [resolveOperand_of_label hkind (hreferable hr), haddress]
    rfl
  · rw [readByteItem, hreferable hr]
    show (p.labels.addressOf (.ofText name.text)).map Word.toBytes = _
    rw [haddress]
    rfl
  · exact resolveOperand_of_none hkind (hother hr)
  · rw [readByteItem, hother hr]

/-- A loop whose name has a letter beyond ASCII, written in two ways. -/
theorem label_reference_loop :
    let p : Program := ⟨⟨8, 0, [34, 0, 0, 0, 2, 0, 0, 16, 0, 0, 0, 0]⟩, [(⟨"zähl"⟩, 8)],
      [.label 1 8 ⟨"zähl"⟩, .instruction 1 8 [34], .instruction 1 12 [0x10000002], .halt 16]⟩
    assemble 8 ":ZÄHL; INC r1; JMP @zÄhl;" = .ok p ∧ (⟨"zähl"⟩, 8) ∈ p.labels ∧
      resolveOperand p.labels .address ("@" ++ "zähl") = .ok ((8 : Word) >>> 2) ∧
      (readByteItem ("@" ++ "zähl") >>= ByteItem.bytes p.labels) = .ok [8, 0, 0, 0] := by
  intro p
  have h : assemble 8 ":ZÄHL; INC r1; JMP @zÄhl;" = .ok p := by decide +kernel
  have hmem : (⟨"zähl"⟩, 8) ∈ p.labels := List.mem_singleton_self _
  obtain ⟨hoperand, hbytes⟩ := (label_reference_iff h hmem).1 (by decide)
  exact ⟨h, hmem, hoperand .address (by decide), hbytes⟩

/-- A name with an `@` in it may be defined, and a reference to it is refused. -/
theorem label_reference_at :
    let p : Program := ⟨⟨0, 0, [0, 0, 0, 0]⟩, [(⟨"a@b"⟩, 0)], [.label 1 0 ⟨"a@b"⟩, .halt 0]⟩
    assemble 0 ":a@b;" = .ok p ∧ (⟨"a@b"⟩, 0) ∈ p.labels ∧
      resolveOperand p.labels .address "@a@b" = .error (.invalidOperand "@a@b" .notAnOperand) ∧
      assemble 0 ":a@b;\nJMP @a@b;" = .error ⟨2, .invalidOperand "@a@b" .notAnOperand⟩ := by
  decide +kernel

end WordMachine.Assembly
