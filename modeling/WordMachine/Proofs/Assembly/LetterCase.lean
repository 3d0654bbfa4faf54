/-
Assembly does not see the case of letters outside string literals. Two sources that are the same once
these letters are made small have the same statements (`splitSource_similar`); from there on both are
followed side by side through the words of the statements, the statements and the two walks over them.
-/
import WordMachine.Proofs.Assembly.OperandForms
import WordMachine.Proofs.Assembly.Placement
import WordMachine.Proofs.Assembly.SourceCase
import Mathlib.Data.Option.Basic

namespace WordMachine.Assembly

open Text (SameLetters sameLetters_iff toLower_eq_iff)

/-! ## Words -/

theorem forall₂_of_map_eq {α β : Type} {f : α → β} {xs ys : List α} (h : xs.map f = ys.map f) :
    List.Forall₂ (fun x y => f x = f y) xs ys := by
  rw [← List.forall₂_map_left_iff (R := fun b y => b = f y), ← List.forall₂_map_right_iff, List.forall₂_eq_eq_eq]
  exact h

theorem isSeparator_toLower (c : Char) : isSeparator c.toLower = isSeparator c := Text.apply_toLower (by decide) c

theorem splitWords_map_toLower (cs : List Char) :
    splitWords (cs.map Char.toLower) = (splitWords cs).map (List.map Char.toLower) := by
  induction cs with
  | nil => rfl
  | cons c cs ih =>
    cases cs with
    | nil => by_cases hc : isSeparator c <;> simp [splitWords, isSeparator_toLower, hc]
    | cons next rest =>
      rw [List.map_cons] at ih ⊢
      rw [List.map_cons, splitWords, splitWords, isSeparator_toLower, isSeparator_toLower, ih]
      by_cases hc : isSeparator c
      · simp [hc]
      by_cases hnext : isSeparator next
      · simp [hc, hnext]
      · simp only [hc, hnext]
        cases splitWords (next :: rest) <;> simp

/-- The words of similar statements have the same letters. -/
theorem SourceLine.Similar.words {l l' : SourceLine} (h : l.Similar l') :
    List.Forall₂ SameLetters l.words l'.words := by
  have hsplit : (splitWords l.text.toList).map (List.map Char.toLower) =
      (splitWords l'.text.toList).map (List.map Char.toLower) := by
    rw [← splitWords_map_toLower, ← splitWords_map_toLower, sameLetters_iff.1 h.text.letters]
  unfold SourceLine.words
  rw [List.forall₂_map_left_iff, List.forall₂_map_right_iff]
  refine (forall₂_of_map_eq hsplit).imp fun word word' hword => ?_
  rw [sameLetters_iff, String.toList_ofList, String.toList_ofList]
  exact hword

theorem startsWith_eq_of_sameLetters {s t : String} (h : SameLetters s t) (mark : String) {x : Char}
    (hmark : mark.toList = [x]) (hx : x.isAlpha = false) : s.startsWith mark = t.startsWith mark := by
  rw [Bool.eq_iff_iff, String.startsWith_string_iff, String.startsWith_string_iff, hmark]
  refine iff_of_eq (h.apply_eq (f := fun cs => [x] <+: cs) fun cs => ?_)
  cases cs with
  | nil => rfl
  | cons c cs => simp [List.cons_prefix_cons, eq_comm (a := x), toLower_eq_iff hx]

theorem ofText_eq_of_sameLetters {s t : String} (h : SameLetters s t) : LabelName.ofText s = LabelName.ofText t :=
  congrArg LabelName.mk (Text.lower_eq_of_sameLetters h)

/-! ## Operands -/

namespace OperandToken

variable (cs : List Char)

theorem register?_map_toLower : register? (cs.map Char.toLower) = register? cs := by
  cases cs with
  | nil => rfl
  | cons mark digits =>
    have hmark : (mark.toLower = 'r' ∨ mark.toLower = 'R') = (mark = 'r' ∨ mark = 'R') :=
      Text.apply_toLower (f := fun c => c = 'r' ∨ c = 'R') (by decide) mark
    simp only [List.map_cons, register?, hmark, Text.readNumeral?_map_toLower]

theorem head?_map_toLower_eq_some {x : Char} (hx : x.isAlpha = false) :
    (cs.map Char.toLower).head? = some x ↔ cs.head? = some x := by
  cases cs <;> simp [toLower_eq_iff hx]

theorem decimal?_map_toLower : decimal? (cs.map Char.toLower) = decimal? cs := by
  simp only [decimal?, head?_map_toLower_eq_some cs (x := '-') rfl, ← List.map_tail, Text.readNumeral?_map_toLower]

theorem marked?_map_toLower {base : Nat} {marks : List Char}
    (hmarks : ∀ c : Char, marks.contains c.toLower = marks.contains c) :
    marked? base marks (cs.map Char.toLower) = marked? base marks cs := by
  unfold marked?
  rw [List.getLast?_map]
  cases cs.getLast? with
  | none => rfl
  | some mark => simp only [Option.map_some, hmarks, ← List.map_dropLast, Text.readNumeral?_map_toLower]

theorem float?_map_toLower : float? (cs.map Char.toLower) = float? cs := by
  have hmark : ((cs.map Char.toLower).getLast? = some 'f' ∨ (cs.map Char.toLower).getLast? = some 'F') =
      (cs.getLast? = some 'f' ∨ cs.getLast? = some 'F') := by
    rw [List.getLast?_map]
    cases cs.getLast? with
    | none => rfl
    | some c => simpa using Text.apply_toLower (f := fun c => c = 'f' ∨ c = 'F') (by decide) c
  have hnumber {p : Prop} [Decidable p] {xs ys : List Char} :
      (if p then xs.map Char.toLower else ys.map Char.toLower) = (if p then xs else ys).map Char.toLower := by
    split <;> rfl
  simp only [float?, hmark, head?_map_toLower_eq_some cs (x := '-') rfl, ← List.map_dropLast, hnumber,
    ← List.map_tail, Decimal.splitDigits_map_toLower, List.isEmpty_map, Decimal.read?_map_toLower]

theorem isLabelChar_toLower (c : Char) : isLabelChar c.toLower = isLabelChar c := Text.apply_toLower (by decide) c

theorem label?_cases {word word' : String} (h : SameLetters word word') :
    (label? word.toList = none ∧ label? word'.toList = none) ∨
      ∃ name name', label? word.toList = some (.label name) ∧ label? word'.toList = some (.label name') ∧
        SameLetters name name' := by
  replace h := sameLetters_iff.1 h
  cases hword : word.toList with
  | nil =>
    rw [hword, List.map_nil, eq_comm, List.map_eq_nil_iff] at h
    rw [h]
    exact .inl ⟨rfl, rfl⟩
  | cons mark name =>
    rw [hword, List.map_cons, eq_comm, List.map_eq_cons_iff] at h
    obtain ⟨mark', name', hword', hmark, hname⟩ := h
    have hchars : name'.all isLabelChar = name.all isLabelChar := by
      have hcomp : isLabelChar ∘ Char.toLower = isLabelChar := funext isLabelChar_toLower
      rw [← hcomp, ← List.all_map, hname, List.all_map]
    have hempty : name'.isEmpty = name.isEmpty := by
      rw [← List.isEmpty_map (f := Char.toLower), hname, List.isEmpty_map]
    rw [hword', label?, label?, hchars, hempty]
    simp only [eq_iff_of_toLower_eq hmark.symm (x := '@') rfl]
    split
    · refine .inr ⟨_, _, rfl, rfl, ?_⟩
      rw [sameLetters_iff, String.toList_ofList, String.toList_ofList]
      exact hname.symm
    · exact .inl ⟨rfl, rfl⟩

theorem read?_map_toLower {form : Form} (h : form ≠ .label) : form.read? (cs.map Char.toLower) = form.read? cs := by
  cases form with
  | register => exact register?_map_toLower cs
  | label => exact absurd rfl h
  | decimal => exact decimal?_map_toLower cs
  | hexadecimal => exact marked?_map_toLower cs fun c => Text.apply_toLower (by decide) c
  | binary => exact marked?_map_toLower cs fun c => Text.apply_toLower (by decide) c
  | float => exact float?_map_toLower cs

/-- The kind and the value of an operand do not depend on the case of its letters, and the name of a label
has the same letters. -/
theorem classify?_cases {word word' : String} (h : SameLetters word word') :
    classify? word = classify? word' ∨
      ∃ name name', classify? word = some (.label name) ∧ classify? word' = some (.label name') ∧
        SameLetters name name' := by
  rcases label?_cases h with ⟨hnone, hnone'⟩ | ⟨name, name', hlabel, hlabel', hname⟩
  · -- registers and numbers are read alike, so only a label can differ
    have hread (form : Form) : form.read? word.toList = form.read? word'.toList := by
      by_cases hform : form = .label
      · rw [hform]
        exact hnone.trans hnone'.symm
      · exact h.apply_eq fun cs => read?_map_toLower cs hform
    refine .inl (Option.ext fun token => ?_)
    simp only [classify?_eq_some_iff, hread]
  · exact .inr ⟨name, name', classify?_eq_some_iff.2 ⟨.label, hlabel⟩, classify?_eq_some_iff.2 ⟨.label, hlabel'⟩, hname⟩

end OperandToken

/-! ## Reading statements -/

/-- The statements are the same but for the case of the letters of an instruction. -/
inductive StatementKind.Similar : StatementKind → StatementKind → Prop where
  | refl (kind : StatementKind) : Similar kind kind
  | instruction {mnemonic mnemonic' : String} {operands operands' : List String}
      (hmnemonic : SameLetters mnemonic mnemonic') (hoperands : List.Forall₂ SameLetters operands operands') :
      Similar (.instruction ⟨mnemonic, operands⟩) (.instruction ⟨mnemonic', operands'⟩)

theorem StatementKind.Similar.header_iff {kind kind' : StatementKind} (h : kind.Similar kind') (next : Section) :
    kind = .header next ↔ kind' = .header next := by
  cases h <;> simp

structure Statement.Similar (s s' : Statement) : Prop where
  line_eq : s.line = s'.line
  kind : s.kind.Similar s'.kind

theorem isEmpty_eq_of_forall₂ {α : Type} {R : α → α → Prop} {xs ys : List α} (h : List.Forall₂ R xs ys) :
    xs.isEmpty = ys.isEmpty := by
  cases h <;> rfl

section

variable {source source' : SourceLine} (hs : source.Similar source') {words words' : List String}
  (hwords : List.Forall₂ SameLetters words words') {word word' : String} (hword : SameLetters word word')

include hs in
/-- A statement that is refused as a whole is refused with its text. -/
theorem SourceLine.Similar.invalid {α : Type} {R : α → α → Prop} :
    SameOutcome Fault.Similar R (.error (.invalidStatement source.text)) (.error (.invalidStatement source'.text)) :=
  .error (congrArg Fault.invalidStatement hs.text.letters)

include hs in
theorem SourceLine.Similar.quotedPart?_eq : quotedPart? source.text.toList = quotedPart? source'.text.toList := by
  unfold quotedPart?
  rw [hs.text.literal_eq]

include hwords in
theorem readStack_similar : SameOutcome Fault.Similar StatementKind.Similar (readStack words) (readStack words') := by
  cases hwords with
  | nil => exact .error rfl
  | @cons count count' _ _ hcount hrest =>
    cases hrest with
    | cons _ _ => exact .error rfl
    | nil =>
      have hrefuse : (Fault.invalidOperand count .stackSize).Similar (.invalidOperand count' .stackSize) :=
        congrArg (Fault.invalidOperand · .stackSize) hcount
      simp only [readStack]
      rcases OperandToken.classify?_cases hcount with h | ⟨_, _, h, h', -⟩
      · rw [h]
        cases OperandToken.classify? count' with
        | none => exact .error hrefuse
        | some token =>
          cases token with
          | integer n => exact .ok (.refl _)
          | _ => exact .error hrefuse
      · rw [h, h']
        exact .error hrefuse

include hs hword hwords in
theorem readHeader_similar :
    SameOutcome Fault.Similar StatementKind.Similar (readHeader source word words)
      (readHeader source' word' words') := by
  have hstart (kind : Section) : SameOutcome Fault.Similar StatementKind.Similar
      (if words.isEmpty then .ok (.header kind) else .error (.invalidStatement source.text))
      (if words'.isEmpty then .ok (.header kind) else .error (.invalidStatement source'.text)) := by
    rw [isEmpty_eq_of_forall₂ hwords]
    split
    · exact .ok (.refl _)
    · exact hs.invalid
  simp only [readHeader, Text.upper_eq_of_sameLetters hword]
  split
  · exact hstart .code
  split
  · exact hstart .data
  split
  · exact hstart .subroutine
  split
  · exact readStack_similar hwords
  · exact hs.invalid

include hword in
theorem readInteger_similar : SameOutcome Fault.Similar (· = ·) (readInteger word) (readInteger word') := by
  have hrefuse : (Fault.invalidOperand word .integerExpected).Similar (.invalidOperand word' .integerExpected) :=
    congrArg (Fault.invalidOperand · .integerExpected) hword
  unfold readInteger
  rcases OperandToken.classify?_cases hword with h | ⟨_, _, h, h', -⟩
  · rw [h]
    cases OperandToken.classify? word' with
    | none => exact .error hrefuse
    | some token =>
      cases token with
      | integer n => exact .ok rfl
      | _ => exact .error hrefuse
  · rw [h, h']
    exact .error hrefuse

include hword in
theorem readByteItem_similar : SameOutcome Fault.Similar (· = ·) (readByteItem word) (readByteItem word') := by
  have hrefuse : (Fault.illegalByte word).Similar (.illegalByte word') := congrArg Fault.illegalByte hword
  unfold readByteItem
  rcases OperandToken.classify?_cases hword with h | ⟨_, _, h, h', hname⟩
  · rw [h]
    cases OperandToken.classify? word' with
    | none => exact .error hrefuse
    | some token =>
      cases token with
      | integer n =>
        dsimp only
        split
        · exact .ok rfl
        · exact .error hrefuse
      | label name => exact .ok rfl
      | _ => exact .error hrefuse
  · rw [h, h']
    exact .ok (congrArg ByteItem.address (ofText_eq_of_sameLetters hname))

theorem dropFloatMarks_map_toLower (cs : List Char) :
    dropFloatMarks (cs.map Char.toLower) = (dropFloatMarks cs).map Char.toLower := by
  have hmark : (fun c : Char => c == 'f' || c == 'F') ∘ Char.toLower = fun c => c == 'f' || c == 'F' :=
    funext (Text.apply_toLower (f := fun c : Char => c == 'f' || c == 'F') (by decide))
  unfold dropFloatMarks
  rw [← List.map_reverse, List.dropWhile_map, hmark, List.map_reverse]

include hword in
theorem readFloat_similar : SameOutcome Fault.Similar (· = ·) (readFloat word) (readFloat word') := by
  have hread := hword.apply_eq (f := fun cs => NumberText.read (dropFloatMarks cs)) fun cs => by
    rw [dropFloatMarks_map_toLower, NumberText.read_map_toLower]
  unfold readFloat
  rw [hread]
  split
  · exact .ok rfl
  · rename_i fault _
    exact .error (congrArg (Fault.invalidOperand · (.notANumber fault)) hword)

include hs hwords in
theorem readSingle_similar {read : String → Except Fault Word}
    (hread : ∀ word word', SameLetters word word' → SameOutcome Fault.Similar (· = ·) (read word) (read word')) :
    SameOutcome Fault.Similar (· = ·) (readSingle source read words) (readSingle source' read words') := by
  cases hwords with
  | nil => exact .ok rfl
  | cons hfirst hrest =>
    cases hrest with
    | nil => exact (hread _ _ hfirst).map fun a b hab => congrArg Payload.word hab
    | cons _ _ => exact hs.invalid

include hs hword hwords in
theorem readPayload_similar :
    SameOutcome Fault.Similar (· = ·) (readPayload source word words) (readPayload source' word' words') := by
  simp only [readPayload, Text.upper_eq_of_sameLetters hword, hs.quotedPart?_eq]
  split
  · split
    · exact .ok rfl
    · exact .error rfl
  split
  · exact readSingle_similar hs hwords fun _ _ h => readInteger_similar h
  split
  · exact readSingle_similar hs hwords fun _ _ h => readFloat_similar h
  split
  · refine (SameOutcome.mapM hwords fun _ _ h => readByteItem_similar h).map fun items items' hitems => ?_
    rw [List.forall₂_eq_eq_eq] at hitems
    rw [hitems]
  · exact .error (congrArg Fault.unsupportedType hword)

include hs hword hwords in
theorem readData_similar :
    SameOutcome Fault.Similar StatementKind.Similar (readData source word words) (readData source' word' words') := by
  cases hwords with
  | nil => exact hs.invalid
  | @cons name name' _ _ hname hrest =>
    simp only [readData, startsWith_eq_of_sameLetters hname "\"" rfl rfl,
      ofText_eq_of_sameLetters hname]
    split
    · exact hs.invalid
    · refine (readPayload_similar hs hrest hword).map fun payload payload' h => ?_
      rw [h]
      exact .refl _

theorem readCode_of_label {name : List Char} (h : word.toList = ':' :: name) :
    readCode source word words = if name.isEmpty ∨ !words.isEmpty then .error (.invalidStatement source.text)
      else .ok (.label (.ofText (String.ofList name))) := by
  simp only [readCode, h]

theorem readCode_of_ne (h : word.toList.head? ≠ some ':') :
    readCode source word words = .ok (.instruction ⟨word, words⟩) := by
  unfold readCode
  split
  · rename_i hlabel
    rw [hlabel] at h
    exact absurd rfl h
  · rfl

include hs hword hwords in
theorem readCode_similar :
    SameOutcome Fault.Similar StatementKind.Similar (readCode source word words) (readCode source' word' words') := by
  have hlower := sameLetters_iff.1 hword
  by_cases hlabel : word.toList.head? = some ':'
  · obtain ⟨name, hname⟩ := List.head?_eq_some_iff.1 hlabel
    rw [hname, List.map_cons, eq_comm, List.map_eq_cons_iff] at hlower
    obtain ⟨mark, name', hname', hmark, hlower⟩ := hlower
    obtain rfl := (eq_iff_of_toLower_eq hmark.symm (x := ':') rfl).2 rfl
    have hletters : SameLetters (String.ofList name) (String.ofList name') := by
      rw [sameLetters_iff, String.toList_ofList, String.toList_ofList, hlower]
    have hempty : name'.isEmpty = name.isEmpty := by
      rw [← List.isEmpty_map (f := Char.toLower), hlower, List.isEmpty_map]
    rw [readCode_of_label hname, readCode_of_label hname', hempty, ← isEmpty_eq_of_forall₂ hwords]
    split
    · exact hs.invalid
    · rw [ofText_eq_of_sameLetters hletters]
      exact .ok (.refl _)
  · have hlabel' : word'.toList.head? ≠ some ':' := by
      rw [Ne, ← OperandToken.head?_map_toLower_eq_some _ rfl, ← hlower, OperandToken.head?_map_toLower_eq_some _ rfl]
      exact hlabel
    rw [readCode_of_ne hlabel, readCode_of_ne hlabel']
    exact .ok (.instruction hword hwords)

include hs in
theorem readLine_similar (current : Section) :
    SameOutcome Fault.Similar (Option.Rel StatementKind.Similar) (readLine current source)
      (readLine current source') := by
  have hwords := hs.words
  unfold readLine
  revert hwords
  generalize source.words = words
  generalize source'.words = words'
  rintro (_ | ⟨hword, hrest⟩)
  · exact .ok .none
  · simp only [startsWith_eq_of_sameLetters hs.text.letters "@" rfl rfl,
      startsWith_eq_of_sameLetters hword "." rfl rfl]
    split
    · exact hs.invalid
    split
    · exact (readHeader_similar hs hrest hword).map fun _ _ h => .some h
    split
    · exact (readData_similar hs hrest hword).map fun _ _ h => .some h
    · exact (readCode_similar hs hrest hword).map fun _ _ h => .some h

end

theorem next_similar (p : Position) {kind kind' : StatementKind} (h : kind.Similar kind') :
    SameOutcome Fault.Similar (· = ·) (p.next kind) (p.next kind') := by
  cases h with
  | refl kind => exact .of_eq Fault.Similar.refl
  | instruction _ _ => exact .ok rfl

theorem readFrom_similar {lines lines' : List SourceLine} (h : List.Forall₂ SourceLine.Similar lines lines') :
    ∀ p : Position, SameOutcome Error.Similar (List.Forall₂ Statement.Similar) (readFrom p lines)
      (readFrom p lines') := by
  induction h with
  | nil => exact fun p => .ok .nil
  | cons hs _ ih =>
    intro p
    rw [readFrom, readFrom]
    refine (atLine_similar hs.line_eq (readLine_similar hs p.current)).bind fun kind? kind?' hkind => ?_
    cases hkind with
    | none => exact ih p
    | some hkind =>
      refine (atLine_similar hs.line_eq (next_similar p hkind)).bind fun p p' hp => ?_
      cases hp
      exact (ih p).bind fun rest rest' hrest => .ok (.cons ⟨hs.line_eq, hkind⟩ hrest)

/-! ## Instructions -/

section

variable {mnemonic mnemonic' : String} (hmnemonic : SameLetters mnemonic mnemonic')

include hmnemonic in
theorem isNop_eq_of_sameLetters : isNop mnemonic = isNop mnemonic' := by
  have hupper : Char.toUpper ∘ Char.toLower = Char.toUpper := funext Text.toUpper_toLower
  unfold isNop
  rw [hmnemonic.apply_eq (f := List.map Char.toUpper) fun cs => by rw [List.map_map, hupper]]

include hmnemonic in
theorem lookupMnemonic_similar :
    SameOutcome Fault.Similar (· = ·) (lookupMnemonic mnemonic) (lookupMnemonic mnemonic') := by
  have hunknown : (Fault.unknownMnemonic mnemonic).Similar (.unknownMnemonic mnemonic') :=
    congrArg Fault.unknownMnemonic hmnemonic
  unfold lookupMnemonic Mnemonic.pattern?
  rw [Text.upper_eq_of_sameLetters hmnemonic]
  split
  · exact .error hunknown
  · split
    · exact .error hunknown
    · exact .ok rfl

include hmnemonic in
theorem wordCount_similar (operands operands' : List String) :
    SameOutcome Fault.Similar (· = ·) (InstructionLine.wordCount ⟨mnemonic, operands⟩)
      (InstructionLine.wordCount ⟨mnemonic', operands'⟩) := by
  simp only [InstructionLine.wordCount, isNop_eq_of_sameLetters hmnemonic]
  split
  · exact .ok rfl
  · exact (lookupMnemonic_similar hmnemonic).map fun a b hab => by rw [hab]

theorem resolveOperand_similar (labels : LabelTable) (kind : OperandKind) {word word' : String}
    (hword : SameLetters word word') :
    SameOutcome Fault.Similar (· = ·) (resolveOperand labels kind word) (resolveOperand labels kind word') := by
  have hrefuse (fault : OperandFault) : (Fault.invalidOperand word fault).Similar (.invalidOperand word' fault) :=
    congrArg (Fault.invalidOperand · fault) hword
  unfold resolveOperand
  rcases OperandToken.classify?_cases hword with h | ⟨_, _, h, h', hname⟩
  · rw [h]
    cases OperandToken.classify? word' with
    | none => cases kind <;> exact .error (hrefuse _)
    | some token =>
      cases token with
      | register n =>
        cases kind with
        | register =>
          dsimp only
          split
          · exact .ok rfl
          · exact .error (hrefuse _)
        | _ => exact .error (hrefuse _)
      | label name =>
        cases kind with
        | register => exact .error (hrefuse _)
        | _ => exact .of_eq Fault.Similar.refl
      | integer n =>
        cases kind with
        | register => exact .error (hrefuse _)
        | _ => exact .ok rfl
      | float bits =>
        cases kind with
        | fullWord => exact .ok rfl
        | _ => exact .error (hrefuse _)
  · rw [h, h']
    cases kind with
    | register => exact .error (hrefuse _)
    | _ =>
      dsimp only
      rw [ofText_eq_of_sameLetters hname]
      exact .of_eq Fault.Similar.refl

theorem addOperands_similar (labels : LabelTable) : ∀ (kinds : Signature) {operands operands' : List String}
    (_ : List.Forall₂ SameLetters operands operands') (p : Packed) (position : Nat),
    SameOutcome Fault.Similar (· = ·) (p.addOperands labels position kinds operands)
      (p.addOperands labels position kinds operands')
  | [], _, _, h, p, position => by cases h <;> exact .ok rfl
  | kind :: kinds, _, _, .nil, p, position => .ok rfl
  | kind :: kinds, _, _, .cons hword h, p, position => by
    simp only [Packed.addOperands]
    refine (resolveOperand_similar labels kind hword).bind fun value value' hvalue => ?_
    cases hvalue
    exact addOperands_similar labels kinds h _ _

include hmnemonic in
theorem encode_similar (labels : LabelTable) {operands operands' : List String}
    (hoperands : List.Forall₂ SameLetters operands operands') :
    SameOutcome Fault.Similar (· = ·) (InstructionLine.encode ⟨mnemonic, operands⟩ labels)
      (InstructionLine.encode ⟨mnemonic', operands'⟩ labels) := by
  have hcount (expected given : Nat) :
      (Fault.operandCount mnemonic expected given).Similar (.operandCount mnemonic' expected given) :=
    congrArg (Fault.operandCount · expected given) hmnemonic
  simp only [InstructionLine.encode, isNop_eq_of_sameLetters hmnemonic, isEmpty_eq_of_forall₂ hoperands,
    hoperands.length_eq]
  split
  · split
    · exact .ok rfl
    · exact .error (hcount _ _)
  · refine (lookupMnemonic_similar hmnemonic).bind fun entry entry' hentry => ?_
    cases hentry
    split
    · exact .error (hcount _ _)
    · refine (addOperands_similar labels _ hoperands _ _).bind fun p p' hp => ?_
      cases hp
      exact .ok rfl

end

/-! ## The two walks -/

theorem place_similar (c : Cursor) {kind kind' : StatementKind} (h : kind.Similar kind') :
    SameOutcome Fault.Similar (· = ·) (c.place kind) (c.place kind') := by
  cases h with
  | refl kind => exact .of_eq Fault.Similar.refl
  | instruction hmnemonic _ =>
    simp only [Cursor.place]
    refine (SameOutcome.of_eq Fault.Similar.refl).bind fun c c' hc => ?_
    cases hc
    refine (wordCount_similar hmnemonic _ _).bind fun words words' hwords => ?_
    cases hwords
    exact .of_eq Fault.Similar.refl

theorem Error.Similar.refl (e : Error) : e.Similar e := ⟨rfl, rfl⟩

theorem placeAll_similar {statements statements' : List Statement}
    (h : List.Forall₂ Statement.Similar statements statements') : ∀ (c : Cursor) (line : Nat),
    SameOutcome Error.Similar (· = ·) (c.placeAll line statements) (c.placeAll line statements') := by
  induction h with
  | nil => exact fun c line => .of_eq Error.Similar.refl
  | cons hs _ ih =>
    intro c line
    rw [Cursor.placeAll, Cursor.placeAll]
    refine (atLine_similar hs.line_eq (place_similar c hs.kind)).bind fun c c' hc => ?_
    cases hc
    rw [hs.line_eq]
    exact ih c _

theorem stackWords_eq_of_similar {statements statements' : List Statement}
    (h : List.Forall₂ Statement.Similar statements statements') : stackWords statements = stackWords statements' := by
  cases h with
  | nil => rfl
  | @cons s s' _ _ hs _ =>
    obtain ⟨line, kind⟩ := s
    obtain ⟨line', kind'⟩ := s'
    obtain ⟨-, hkind⟩ := hs
    dsimp only at hkind
    cases hkind with
    | refl kind => cases kind <;> rfl
    | instruction _ _ => rfl

theorem loadAddress_similar {statements statements' : List Statement} (origin : Address)
    (h : List.Forall₂ Statement.Similar statements statements') :
    SameOutcome Error.Similar (· = ·) (loadAddress statements origin) (loadAddress statements' origin) := by
  have hline : (statements.head?.map (·.line)).getD 1 = (statements'.head?.map (·.line)).getD 1 := by
    cases h with
    | nil => rfl
    | cons hs _ => exact hs.line_eq
  unfold loadAddress
  rw [stackWords_eq_of_similar h, hline]
  exact .of_eq Error.Similar.refl

theorem itemsOf_similar (labels : LabelTable) (start : Address) {s s' : Statement} (h : s.Similar s') :
    SameOutcome Fault.Similar (· = ·) (itemsOf labels start s) (itemsOf labels start s') := by
  obtain ⟨line, kind⟩ := s
  obtain ⟨line', kind'⟩ := s'
  obtain ⟨hline, hkind⟩ := h
  dsimp only at hline hkind
  subst hline
  cases hkind with
  | refl kind => exact .of_eq Fault.Similar.refl
  | instruction hmnemonic hoperands =>
    refine (encode_similar hmnemonic labels hoperands).bind fun words words' hwords => ?_
    cases hwords
    exact .ok rfl

theorem emitFrom_similar (layout : Layout) {statements statements' : List Statement}
    (h : List.Forall₂ Statement.Similar statements statements') :
    ∀ (address : Address) (current : Section) (pending : Bool),
    SameOutcome Error.Similar (· = ·) (emitFrom layout address current pending statements)
      (emitFrom layout address current pending statements') := by
  induction h with
  | nil => exact fun _ _ _ => .of_eq Error.Similar.refl
  | @cons s s' rest rest' hs _ ih =>
    intro address current pending
    rcases s.kind.header_cases with hk | ⟨next, hk⟩
    · have hk' (next : Section) : s'.kind ≠ .header next := fun h => hk next ((hs.kind.header_iff next).2 h)
      rw [emitFrom_cons hk, emitFrom_cons hk']
      refine (atLine_similar hs.line_eq (itemsOf_similar _ _ hs)).bind fun p p' hp => ?_
      cases hp
      refine (ih _ _ _).bind fun after after' hafter => ?_
      cases hafter
      exact .ok rfl
    · rw [emitFrom_header hk, emitFrom_header ((hs.kind.header_iff next).1 hk)]
      exact ih _ _ _

/-! ## Programs -/

theorem assemble_similar (origin : Address) {source source' : String} (h : SameOutsideLiterals source source') :
    SameOutcome Error.Similar (· = ·) (assemble origin source) (assemble origin source') := by
  unfold assemble
  refine (splitSource_similar h).bind fun lines lines' hlines => ?_
  refine (readFrom_similar hlines {}).bind fun statements statements' hstatements => ?_
  refine (loadAddress_similar origin hstatements).bind fun load load' hload => ?_
  cases hload
  refine (placeAll_similar hstatements _ _).bind fun layout layout' hlayout => ?_
  cases hlayout
  refine ((emitFrom_similar layout hstatements _ _ _).bind (S := (· = ·)) fun r r' hr => ?_).bind
    fun items items' hitems => ?_
  · cases hr
    exact .ok rfl
  · cases hitems
    rw [stackWords_eq_of_similar hstatements]
    exact .ok rfl

/-- Sources that are the same but for the case of letters outside string literals are assembled to the
same program, or refused on the same line for the same fault, the letters of the texts in it apart. -/
theorem assemble_letterCase (origin : Address) {source source' : String} (h : SameOutsideLiterals source source') :
    (∀ p, assemble origin source = .ok p → assemble origin source' = .ok p) ∧
      ∀ e, assemble origin source = .error e → ∃ e', assemble origin source' = .error e' ∧
        e'.line = e.line ∧ e'.fault.folded = e.fault.folded := by
  have hsame := assemble_similar origin h
  constructor
  · intro p hp
    obtain ⟨p', hp', rfl⟩ := hsame.exists_ok hp
    exact hp'
  · intro e he
    obtain ⟨e', he', hline, hfault⟩ := hsame.exists_error he
    exact ⟨e', he', hline.symm, hfault.symm⟩

/-- A string whose letters stay as they are among words whose letters do not, and a mnemonic that is
unknown in any case. -/
theorem assemble_letterCase_string :
    (SameOutsideLiterals ".Data; String T \"Hi;\";\n.Code; :Go; Jz @gO;"
        ".DATA; string t \"Hi;\";\n.code; :gO; JZ @GO;" ∧
      ∃ p, assemble 16 ".Data; String T \"Hi;\";\n.Code; :Go; Jz @gO;" = .ok p ∧
        assemble 16 ".DATA; string t \"Hi;\";\n.code; :gO; JZ @GO;" = .ok p) ∧
    assemble 16 "NOP;\nIncX R1;" = .error ⟨2, .unknownMnemonic "IncX"⟩ ∧
      ∃ e, assemble 16 "nop;\nincX r1;" = .error e ∧ e.line = 2 ∧
        e.fault.folded = (Fault.unknownMnemonic "IncX").folded := by
  have hsame : SameOutsideLiterals ".Data; String T \"Hi;\";\n.Code; :Go; Jz @gO;"
      ".DATA; string t \"Hi;\";\n.code; :gO; JZ @GO;" := by
    unfold SameOutsideLiterals
    decide +kernel
  have hok : (assemble 16 ".Data; String T \"Hi;\";\n.Code; :Go; Jz @gO;").toOption.isSome = true := by
    decide +kernel
  have hsame' : SameOutsideLiterals "NOP;\nIncX R1;" "nop;\nincX r1;" := by
    unfold SameOutsideLiterals
    decide +kernel
  have herror : assemble 16 "NOP;\nIncX R1;" = .error ⟨2, .unknownMnemonic "IncX"⟩ := by decide +kernel
  obtain ⟨p, hp⟩ := Option.isSome_iff_exists.1 hok
  have hp := toOption_eq_some.1 hp
  exact ⟨⟨hsame, p, hp, (assemble_letterCase 16 hsame).1 p hp⟩, herror,
    (assemble_letterCase 16 hsame').2 _ herror⟩

end WordMachine.Assembly
