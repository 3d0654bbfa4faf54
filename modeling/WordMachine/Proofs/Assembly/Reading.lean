/-
What the statements of a program are read from. Each of them is read from a line, and what it may be depends on the
section: what is read in a data section is data, and what is read elsewhere is not.

A statement has no more bytes than its text has room for. The text is what is left of the source when other characters
are taken away, a literal is a part of this text, and a list of bytes has no more items than the text has characters.
So no statement of a source with less than `2 ^ 30` bytes has `2 ^ 32` bytes, and its size is the number of them.
-/
import WordMachine.Proofs.Assembly.Contribution
import WordMachine.Proofs.Assembly.SourceParts
import Mathlib.Data.String.Basic

open scoped List

namespace WordMachine.Assembly

/-! ## Texts of statements -/

namespace Splitter

/-- The texts read so far are left of these characters. -/
structure KeptFrom (cs : List Char) (s : Splitter) : Prop where
  text : s.text.toList <+ cs
  finished : ∀ l ∈ s.finished, l.text.toList <+ cs

variable {s : Splitter} {cs : List Char}

theorem KeptFrom.append (h : s.KeptFrom cs) (more : List Char) : s.KeptFrom (cs ++ more) :=
  ⟨List.sublist_append_of_sublist_left h.text, fun l hl => List.sublist_append_of_sublist_left (h.finished l hl)⟩

theorem KeptFrom.push (h : s.KeptFrom cs) (c : Char) : (s.push c).KeptFrom (cs ++ [c]) := by
  by_cases hc : c ≠ ' ' ∨ s.text ≠ ""
  · rw [push_eq hc]
    refine ⟨?_, (h.append [c]).finished⟩
    rw [String.toList_push]
    exact h.text.append_right [c]
  · simp only [ne_eq, not_or, not_not] at hc
    rw [hc.1, push_space hc.2]
    exact h.append [' ']

theorem KeptFrom.endStatement (h : s.KeptFrom cs) : s.endStatement.KeptFrom cs := by
  unfold Splitter.endStatement
  split
  · exact h
  · refine ⟨List.nil_sublist _, fun l hl => ?_⟩
    rcases List.mem_append.1 hl with hl | hl
    · exact h.finished l hl
    · rw [List.mem_singleton.1 hl]
      exact h.text

theorem KeptFrom.step (h : s.KeptFrom cs) (c : Char) : (s.step c).KeptFrom (cs ++ [c]) := by
  have htake : (s.take c (s.mode.role c)).KeptFrom (cs ++ [c]) := by
    cases s.mode.role c with
    | dropped => exact h.append [c]
    | kept => exact h.push c
    | ending => exact h.endStatement.append [c]
  rw [step_eq]
  exact ⟨htake.text, htake.finished⟩

theorem KeptFrom.foldl (h : s.KeptFrom cs) (more : List Char) :
    (more.foldl Splitter.step s).KeptFrom (cs ++ more) := by
  induction more generalizing s cs with
  | nil => rw [List.append_nil]; exact h
  | cons c more ih =>
    rw [List.append_cons]
    exact ih (h.step c)

end Splitter

theorem sublist_of_splitSource {source : String} {lines : List SourceLine} (h : splitSource source = .ok lines)
    {l : SourceLine} (hl : l ∈ lines) : l.text.toList <+ source.toList := by
  have hstart : Splitter.KeptFrom [] {} := ⟨List.nil_sublist _, fun l hl => nomatch hl⟩
  have hkept := hstart.foldl source.toList
  obtain ⟨-, rfl⟩ := finish_eq_ok.1 h
  exact hkept.finished l hl

/-! ## Literals and words -/

theorem sublist_of_quotedPart? {cs text : List Char} (h : quotedPart? cs = some text) : text <+ cs := by
  unfold quotedPart? at h
  cases hd : cs.dropWhile (· ≠ '"') with
  | nil => rw [hd] at h; cases h
  | cons c rest =>
    rw [hd] at h
    dsimp only at h
    split at h
    · cases h
      have hrest : rest <+ cs := (List.sublist_cons_self c rest).trans (hd ▸ List.dropWhile_sublist _)
      refine List.Sublist.trans ?_ hrest
      rw [← List.reverse_sublist, List.reverse_reverse]
      exact (List.tail_sublist _).trans (List.dropWhile_sublist _)
    · cases h

theorem length_splitWords_le (cs : List Char) : (splitWords cs).length ≤ cs.length := by
  fun_induction splitWords cs with
  | case1 => exact Nat.le_refl 0
  | case2 c cs hc ih => exact Nat.le_succ_of_le ih
  | case3 c hc => exact Nat.le_refl 1
  | case4 c hc next rest hnext ih => exact Nat.succ_le_succ ih
  | case5 c hc next rest hnext word words hwords ih =>
    rw [hwords] at ih ⊢
    exact Nat.le_succ_of_le ih
  | case6 c hc next rest hnext hwords ih =>
    rw [hwords]
    exact Nat.le_add_left ..

theorem utf8ByteSize_eq (text : String) : text.utf8ByteSize = String.utf8Len text.toList := by
  rw [← String.utf8ByteSize_ofList, String.ofList_toList]

theorem length_le_utf8Len (cs : List Char) : cs.length ≤ String.utf8Len cs := by
  induction cs with
  | nil => exact Nat.le_refl 0
  | cons c cs ih =>
    rw [List.length_cons, String.utf8Len_cons]
    exact Nat.add_le_add ih c.utf8Size_pos

theorem length_toList_byteArray (bytes : ByteArray) : bytes.toList.length = bytes.size := by
  have hloop (i : Nat) (r : List UInt8) :
      (ByteArray.toList.loop bytes i r).length = r.length + (bytes.size - i) := by
    fun_induction ByteArray.toList.loop bytes i r with
    | case1 i r hlt ih => rw [ih, List.length_cons]; omega
    | case2 i r hge => rw [List.length_reverse]; omega
  rw [ByteArray.toList, hloop]
  simp

/-! ## Lines -/

/-- What a statement is read as, by its first word and the section. -/
theorem readLine_cases {current : Section} {source : SourceLine} {kind : StatementKind}
    (h : readLine current source = .ok (some kind)) :
    ∃ word rest, source.words = word :: rest ∧
      (readHeader source word rest = .ok kind ∨ current = .data ∧ readData source word rest = .ok kind ∨
        readCode source word rest = .ok kind) := by
  unfold readLine at h
  split at h
  · cases h
  rename_i word rest hwords
  refine ⟨word, rest, hwords, ?_⟩
  split at h
  · cases h
  split at h
  · obtain ⟨_, hkind, hsome⟩ := map_eq_ok.1 h
    cases hsome
    exact .inl hkind
  split at h
  · rename_i hcurrent
    obtain ⟨_, hkind, hsome⟩ := map_eq_ok.1 h
    cases hsome
    exact .inr (.inl ⟨hcurrent, hkind⟩)
  · obtain ⟨_, hkind, hsome⟩ := map_eq_ok.1 h
    cases hsome
    exact .inr (.inr hkind)

/-- Is this a declaration of data? -/
def StatementKind.isData : StatementKind → Bool
  | .data .. => true
  | _ => false

theorem isData_of_readHeader {source : SourceLine} {word : String} {operands : List String}
    {kind : StatementKind} (h : readHeader source word operands = .ok kind) : kind.isData = false := by
  unfold readHeader readStack at h
  dsimp only at h
  repeat' split at h
  all_goals cases h
  all_goals rfl

theorem isData_of_readCode {source : SourceLine} {word : String} {operands : List String}
    {kind : StatementKind} (h : readCode source word operands = .ok kind) : kind.isData = false := by
  unfold readCode at h
  repeat' split at h
  all_goals cases h
  all_goals rfl

/-- Data is read in data sections only, as a declaration of data. -/
theorem readData_of_readLine {current : Section} {source : SourceLine} {kind : StatementKind}
    (h : readLine current source = .ok (some kind)) (hdata : kind.isData) :
    current = .data ∧ ∃ word rest, source.words = word :: rest ∧ readData source word rest = .ok kind := by
  obtain ⟨word, rest, hwords, hread | ⟨hcurrent, hread⟩ | hread⟩ := readLine_cases h
  · rw [isData_of_readHeader hread] at hdata
    cases hdata
  · exact ⟨hcurrent, word, rest, hwords, hread⟩
  · rw [isData_of_readCode hread] at hdata
    cases hdata

/-! ## Sizes -/

/-- A value that is read is a text of the statement, one word, or a list with an item for each word. -/
theorem readPayload_cases {source : SourceLine} {type : String} {words : List String} {payload : Payload}
    (h : readPayload source type words = .ok payload) :
    (∃ text, text <+ source.text.toList ∧ payload = .text (String.ofList text).toUTF8.toList) ∨
      (∃ value, payload = .word value) ∨ ∃ items, items.length = words.length ∧ payload = .bytes items := by
  have hsingle {read : String → Except Fault Word} (h : readSingle source read words = .ok payload) :
      ∃ value, payload = .word value := by
    unfold readSingle at h
    split at h
    · cases h; exact ⟨0, rfl⟩
    · obtain ⟨value, -, rfl⟩ := map_eq_ok.1 h
      exact ⟨value, rfl⟩
    · cases h
  simp only [readPayload] at h
  split at h
  · cases hquoted : quotedPart? source.text.toList with
    | none => rw [hquoted] at h; cases h
    | some text =>
      rw [hquoted] at h
      cases h
      exact .inl ⟨text, sublist_of_quotedPart? hquoted, rfl⟩
  split at h
  · exact .inr (.inl (hsingle h))
  split at h
  · exact .inr (.inl (hsingle h))
  split at h
  · obtain ⟨items, hitems, rfl⟩ := map_eq_ok.1 h
    exact .inr (.inr ⟨items, (mapM_eq_ok.1 hitems).length_eq.symm, rfl⟩)
  · cases h

theorem ByteItem.length_flatten_le {labels : LabelTable} {items : List ByteItem} {parts : List (List UInt8)}
    (h : List.Forall₂ (fun item bytes => item.contribution labels = some bytes) items parts) :
    parts.flatten.length ≤ 4 * items.length := by
  induction h with
  | nil => exact Nat.le_refl 0
  | @cons item bytes items parts hb _ ih =>
    have hsize : bytes.length ≤ 4 := by
      rw [length_contribution hb]
      cases item <;> simp [ByteItem.size]
    rw [List.flatten_cons, List.length_append, List.length_cons]
    omega

/-- The bytes of a declaration of data fit into its text, counting four for each character. -/
theorem length_contribution_lt_of_readData {source : SourceLine} {type : String} {rest : List String}
    {kind : StatementKind} {labels : LabelTable} {bytes : List UInt8} (h : readData source type rest = .ok kind)
    (hrest : rest.length ≤ source.words.length) (hsize : source.text.utf8ByteSize < 2 ^ 30)
    (hb : kind.contribution labels = some bytes) : bytes.length < 2 ^ 32 := by
  have hutf8 {text : List Char} (htext : text <+ source.text.toList) :
      (String.ofList text).toUTF8.toList.length ≤ source.text.utf8ByteSize := by
    rw [length_toList_byteArray, utf8ByteSize_eq]
    exact (String.utf8ByteSize_ofList text).le.trans (String.utf8Len_le_of_sublist htext)
  have hwords : source.words.length ≤ source.text.utf8ByteSize := by
    rw [SourceLine.words, List.length_map, utf8ByteSize_eq]
    exact (length_splitWords_le _).trans (length_le_utf8Len _)
  unfold readData at h
  cases rest with
  | nil => cases h
  | cons name words =>
    dsimp only at h
    split at h
    · cases h
    obtain ⟨payload, hpayload, rfl⟩ := map_eq_ok.1 h
    rw [List.length_cons] at hrest
    obtain ⟨text, htext, rfl⟩ | ⟨value, rfl⟩ | ⟨items, hitems, rfl⟩ := readPayload_cases hpayload
    · cases hb
      have := hutf8 htext
      rw [length_zeroPadded, List.length_append, List.length_singleton, roundUp]
      omega
    · cases hb
      rw [length_toBytes]
      decide
    · obtain ⟨parts, hparts, rfl⟩ := Option.map_eq_some_iff.1 hb
      have := ByteItem.length_flatten_le (mapM_eq_some.1 hparts)
      rw [length_zeroPadded, roundUp]
      omega

/-- A statement of a text that is not too long has less than `2 ^ 32` bytes. -/
theorem length_contribution_lt_of_readLine {current : Section} {source : SourceLine} {kind : StatementKind}
    {labels : LabelTable} {bytes : List UInt8} (h : readLine current source = .ok (some kind))
    (hsize : source.text.utf8ByteSize < 2 ^ 30) (hb : kind.contribution labels = some bytes) :
    bytes.length < 2 ^ 32 := by
  cases kind with
  | data name payload =>
    obtain ⟨-, word, rest, hwords, hread⟩ := readData_of_readLine h rfl
    exact length_contribution_lt_of_readData hread (by simp [hwords]) hsize hb
  | instruction line =>
    obtain ⟨words, hw, rfl⟩ := Option.map_eq_some_iff.1 hb
    have hle := InstructionLine.length_encode_le (toOption_eq_some.1 hw)
    rw [length_flatMap_toBytes]
    omega
  | _ => cases hb; decide

/-! ## Programs -/

/-- Every statement of a program is read from a line. -/
theorem exists_readLine_of_readFrom {lines : List SourceLine} {p : Position} {statements : List Statement}
    {s : Statement} (h : readFrom p lines = .ok statements) (hs : s ∈ statements) :
    ∃ source ∈ lines, ∃ current, readLine current source = .ok (some s.kind) := by
  induction lines generalizing p statements with
  | nil =>
    cases h
    cases hs
  | cons source rest ih =>
    rw [readFrom] at h
    obtain ⟨kind?, hline, h⟩ := bind_eq_ok.1 h
    have hline := atLine_eq_ok.1 hline
    cases kind? with
    | none =>
      obtain ⟨source', hmem, hread⟩ := ih h hs
      exact ⟨source', List.mem_cons_of_mem _ hmem, hread⟩
    | some kind =>
      obtain ⟨p', -, h⟩ := bind_eq_ok.1 h
      obtain ⟨later, hlater, h⟩ := bind_eq_ok.1 h
      cases h
      rcases List.mem_cons.1 hs with rfl | hs
      · exact ⟨source, List.mem_cons_self .., p.current, hline⟩
      · obtain ⟨source', hmem, hread⟩ := ih hlater hs
        exact ⟨source', List.mem_cons_of_mem _ hmem, hread⟩

/-- The text is divided into lines and read as these statements. -/
def ReadsAs (source : String) (statements : List Statement) : Prop :=
  ∃ lines, splitSource source = .ok lines ∧ readProgram lines = .ok statements

theorem ReadsAs.unique {source : String} {statements statements' : List Statement} (h : ReadsAs source statements)
    (h' : ReadsAs source statements') : statements = statements' := by
  obtain ⟨lines, hsplit, hread⟩ := h
  obtain ⟨lines', hsplit', hread'⟩ := h'
  rw [hsplit] at hsplit'
  cases hsplit'
  rw [hread] at hread'
  exact Except.ok.inj hread'

/-- Only a source of `2 ^ 30` bytes or more has a statement of `2 ^ 32` bytes. -/
theorem ReadsAs.length_contribution_lt {source : String} {statements : List Statement}
    (h : ReadsAs source statements) (hsize : source.utf8ByteSize < 2 ^ 30) {s : Statement} (hs : s ∈ statements)
    {labels : LabelTable} {bytes : List UInt8} (hb : s.kind.contribution labels = some bytes) :
    bytes.length < 2 ^ 32 := by
  obtain ⟨lines, hsplit, hread⟩ := h
  obtain ⟨line, hline, current, hkind⟩ := exists_readLine_of_readFrom hread hs
  refine length_contribution_lt_of_readLine hkind (Nat.lt_of_le_of_lt ?_ hsize) hb
  rw [utf8ByteSize_eq, utf8ByteSize_eq]
  exact String.utf8Len_le_of_sublist (sublist_of_splitSource hsplit hline)

end WordMachine.Assembly
