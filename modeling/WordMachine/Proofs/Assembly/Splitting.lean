/-
Plain statements, made of words of letters and digits: the source that holds them one a line is divided
into them, and each of them into its words.
-/
import WordMachine.Proofs.Assembly.SourceParts

namespace WordMachine.Assembly

/-! ## Characters -/

/-- The character stands for nothing but itself outside of literals and comments. -/
structure IsOrdinary (c : Char) : Prop where
  eq_space : Text.isBlank c = true → c = ' '
  not_mark : c ∉ ['"', ';', '#']

theorem IsOrdinary.step {c : Char} (h : IsOrdinary c) {s : Splitter} (hs : s.mode = .normal) :
    s.step c = s.push c := by
  have hmark := h.not_mark
  simp only [List.mem_cons, List.not_mem_nil, or_false, not_or] at hmark
  have hnewline : c ≠ '\n' := by
    rintro rfl
    exact absurd (h.eq_space (by decide)) (by decide)
  have hblank : ¬(c ≠ ' ' ∧ Text.isBlank c = true) := fun hc => hc.1 (h.eq_space hc.2)
  rw [Splitter.step, if_neg hnewline]
  simp [Splitter.read, hs, hmark, hblank]

theorem push_append_ofList (text : String) (c : Char) (cs : List Char) :
    text.push c ++ String.ofList cs = text ++ String.ofList (c :: cs) := by
  apply String.toList_inj.1
  simp

/-- Ordinary characters are added to the statement. -/
theorem foldl_ordinary {line start : Nat} {finished : List SourceLine} {cs : List Char} {text : String}
    (h : ∀ c ∈ cs, IsOrdinary c) (htext : text ≠ "") :
    cs.foldl Splitter.step ⟨.normal, line, text, start, finished⟩ =
      ⟨.normal, line, text ++ String.ofList cs, start, finished⟩ := by
  induction cs generalizing text with
  | nil => simp
  | cons c cs ih =>
    rw [List.forall_mem_cons] at h
    rw [List.foldl_cons, h.1.step rfl, Splitter.push_eq (.inr htext)]
    dsimp only
    rw [if_neg htext, ih h.2 (by simp), push_append_ofList]

/-- May the character stand in a plain statement? -/
def isPlain (c : Char) : Bool := c.isAlphanum || c == ' ' || c == ','

theorem ne_of_isAlphanum {c x : Char} (h : c.isAlphanum = true) (hx : x.isAlphanum = false) : c ≠ x := by
  rintro rfl
  simp [h] at hx

theorem toNat_of_isAlphanum {c : Char} (h : c.isAlphanum = true) :
    48 ≤ c.toNat ∧ c.toNat ≤ 57 ∨ 65 ≤ c.toNat ∧ c.toNat ≤ 90 ∨ 97 ≤ c.toNat ∧ c.toNat ≤ 122 := by
  rcases Bool.or_eq_true_iff.1 h with hletter | hdigit
  · rcases Bool.or_eq_true_iff.1 hletter with hupper | hlower
    · have hrange := of_decide_eq_true hupper
      exact .inr (.inl ⟨UInt32.le_iff_toNat_le.1 hrange.1, UInt32.le_iff_toNat_le.1 hrange.2⟩)
    · have hrange := Bool.and_eq_true_iff.1 hlower
      exact .inr (.inr ⟨UInt32.le_iff_toNat_le.1 (of_decide_eq_true hrange.1),
        UInt32.le_iff_toNat_le.1 (of_decide_eq_true hrange.2)⟩)
  · have hrange := Bool.and_eq_true_iff.1 hdigit
    exact .inl ⟨UInt32.le_iff_toNat_le.1 (of_decide_eq_true hrange.1),
      UInt32.le_iff_toNat_le.1 (of_decide_eq_true hrange.2)⟩

theorem isBlank_of_isAlphanum {c : Char} (h : c.isAlphanum = true) : Text.isBlank c = false := by
  have hn := toNat_of_isAlphanum h
  simp only [Text.isBlank, Text.inRanges, Text.blankRanges, List.any_eq_false, Bool.and_eq_true, decide_eq_true_eq]
  intro r hr
  simp only [List.mem_cons, List.not_mem_nil, or_false] at hr
  rcases hr with rfl | rfl | rfl | rfl | rfl | rfl | rfl | rfl | rfl | rfl <;> omega

theorem isSeparator_of_isAlphanum {c : Char} (h : c.isAlphanum = true) : isSeparator c = false := by
  simp [isSeparator, ne_of_isAlphanum h (x := ' ') rfl, ne_of_isAlphanum h (x := '\t') rfl,
    ne_of_isAlphanum h (x := ',') rfl]

theorem isPlain_of_isAlphanum {c : Char} (h : c.isAlphanum = true) : isPlain c = true := by simp [isPlain, h]

theorem isOrdinary_of_isPlain {c : Char} (h : isPlain c = true) : IsOrdinary c := by
  simp only [isPlain, Bool.or_eq_true, beq_iff_eq, or_assoc] at h
  rcases h with h | rfl | rfl
  · refine ⟨fun hblank => ?_, ?_⟩
    · rw [isBlank_of_isAlphanum h] at hblank
      cases hblank
    · simp [ne_of_isAlphanum h (x := ';') rfl, ne_of_isAlphanum h (x := '#') rfl, ne_of_isAlphanum h (x := '"') rfl]
  · exact ⟨fun _ => rfl, by decide⟩
  · exact ⟨by decide, by decide⟩

/-! ## Statements -/

/-- A statement of plain characters, which starts with a letter or a digit. -/
structure PlainText (text : String) : Prop where
  first : ∃ c cs, text.toList = c :: cs ∧ c.isAlphanum = true
  plain : ∀ c ∈ text.toList, isPlain c = true

section

variable {line start : Nat} {finished : List SourceLine}

/-- A plain statement is finished by the semicolon after it. -/
theorem foldl_statement {text : String} (h : PlainText text) :
    (text.toList ++ [';']).foldl Splitter.step ⟨.normal, line, "", start, finished⟩ =
      ⟨.normal, line, "", line, finished ++ [⟨line, text⟩]⟩ := by
  obtain ⟨c, cs, hcs, hfirst⟩ := h.first
  have hplain : ∀ c ∈ text.toList, IsOrdinary c := fun c hc => isOrdinary_of_isPlain (h.plain c hc)
  rw [hcs, List.forall_mem_cons] at hplain
  have hpush : Splitter.step ⟨.normal, line, "", start, finished⟩ c =
      ⟨.normal, line, String.singleton c, line, finished⟩ := by
    rw [hplain.1.step rfl, Splitter.push_eq (.inl (ne_of_isAlphanum hfirst rfl))]
    rfl
  have htext : String.singleton c ++ String.ofList cs = text := by
    apply String.toList_inj.1
    simp [hcs]
  have hne : text ≠ "" := by
    rintro rfl
    simp at hcs
  have hrun : (c :: cs).foldl Splitter.step ⟨.normal, line, "", start, finished⟩ =
      ⟨.normal, line, text, line, finished⟩ := by
    rw [List.foldl_cons, hpush, foldl_ordinary hplain.2 (by simp), htext]
  rw [hcs, List.foldl_append, hrun]
  simp [Splitter.step, Splitter.read, Splitter.endStatement, hne]

/-- The texts, one a line from `line` on. -/
def numberedFrom (line : Nat) : List String → List SourceLine
  | [] => []
  | text :: texts => ⟨line, text⟩ :: numberedFrom (line + 1) texts

theorem foldl_statements : ∀ {texts : List String} (line start : Nat) (finished : List SourceLine),
    (∀ text ∈ texts, PlainText text) →
    ∃ line' start', (texts.flatMap fun text => text.toList ++ [';'] ++ ['\n']).foldl Splitter.step
      ⟨.normal, line, "", start, finished⟩ = ⟨.normal, line', "", start', finished ++ numberedFrom line texts⟩
  | [], line, start, finished, _ => ⟨line, start, by simp [numberedFrom]⟩
  | text :: texts, line, start, finished, h => by
    have hnewline : Splitter.step ⟨.normal, line, "", line, finished ++ [⟨line, text⟩]⟩ '\n' =
        ⟨.normal, line + 1, "", line, finished ++ [⟨line, text⟩]⟩ := by
      simp [Splitter.step, Splitter.read, show Text.isBlank '\n' = true by decide]
    obtain ⟨line', start', hrest⟩ := foldl_statements (line + 1) line (finished ++ [⟨line, text⟩])
      fun t ht => h t (List.mem_cons_of_mem _ ht)
    refine ⟨line', start', ?_⟩
    rw [List.flatMap_cons, List.foldl_append, List.foldl_append, foldl_statement (h text (List.mem_cons_self ..)),
      List.foldl_cons, hnewline, List.foldl_nil, hrest, numberedFrom, List.append_assoc]
    rfl

end

/-- Plain statements, one a line, are found again. -/
theorem splitSource_lines {texts : List String} (h : ∀ text ∈ texts, PlainText text) :
    splitSource (String.join (texts.map (· ++ ";\n"))) = .ok (numberedFrom 1 texts) := by
  have hchars : (String.join (texts.map (· ++ ";\n"))).toList =
      texts.flatMap fun text => text.toList ++ [';'] ++ ['\n'] := by
    simp [String.toList_join, List.flatMap_map]
  obtain ⟨line, start, hrun⟩ := foldl_statements 1 1 [] h
  rw [splitSource, hchars, hrun]
  rfl

theorem splitSource_line {text : String} (h : PlainText text) : splitSource (text ++ ";") = .ok [⟨1, text⟩] := by
  have hchars : (text ++ ";").toList = text.toList ++ [';'] := by simp
  rw [splitSource, hchars, foldl_statement h]
  rfl

/-! ## Words -/

/-- A word of letters and digits. -/
structure PlainWord (word : String) : Prop where
  nonempty : word.toList ≠ []
  alphanum : ∀ c ∈ word.toList, c.isAlphanum = true

theorem PlainWord.isSeparator {word : String} (h : PlainWord word) : ∀ c ∈ word.toList, isSeparator c = false :=
  fun c hc => isSeparator_of_isAlphanum (h.alphanum c hc)

theorem splitWords_separator {c : Char} (hc : isSeparator c = true) (cs : List Char) :
    splitWords (c :: cs) = splitWords cs := by
  cases cs <;> simp [splitWords, hc]

/-- A word goes on as long as no separator comes. -/
theorem splitWords_within {c d : Char} {cs word : List Char} {words : List (List Char)} (hc : isSeparator c = false)
    (hd : isSeparator d = false) (h : splitWords (d :: cs) = word :: words) :
    splitWords (c :: d :: cs) = (c :: word) :: words := by
  rw [splitWords.eq_def]
  simp [hc, hd, h]

theorem splitWords_append {sep : Char} (hsep : isSeparator sep = true) (rest : List Char) : ∀ word : List Char,
    word ≠ [] → (∀ c ∈ word, isSeparator c = false) →
    splitWords (word ++ sep :: rest) = word :: splitWords (sep :: rest)
  | [c], _, h => by
    rw [List.singleton_append, splitWords.eq_def]
    simp [h c (List.mem_cons_self ..), hsep]
  | c :: d :: word, _, h => by
    have ih := splitWords_append hsep rest (d :: word) (by simp) fun x hx => h x (List.mem_cons_of_mem _ hx)
    exact splitWords_within (h c (by simp)) (h d (by simp)) ih

theorem splitWords_word : ∀ word : List Char, word ≠ [] → (∀ c ∈ word, isSeparator c = false) →
    splitWords word = [word]
  | [c], _, h => by simp [splitWords, h c (List.mem_cons_self ..)]
  | c :: d :: word, _, h => by
    have ih := splitWords_word (d :: word) (by simp) fun x hx => h x (List.mem_cons_of_mem _ hx)
    exact splitWords_within (h c (by simp)) (h d (by simp)) ih

/-- Words set apart by commas are found again. -/
theorem splitWords_intercalate : ∀ words : List (List Char),
    (∀ word ∈ words, word ≠ [] ∧ ∀ c ∈ word, isSeparator c = false) → splitWords ([',', ' '].intercalate words) = words
  | [], _ => rfl
  | [word], h => by
    rw [List.intercalate_singleton]
    exact splitWords_word word (h word (by simp)).1 (h word (by simp)).2
  | word :: next :: words, h => by
    have hword := h word (by simp)
    have ih := splitWords_intercalate (next :: words) fun w hw => h w (List.mem_cons_of_mem _ hw)
    rw [List.intercalate_cons_cons, List.append_assoc, List.cons_append, splitWords_append rfl _ word hword.1 hword.2,
      splitWords_separator rfl, List.cons_append, splitWords_separator rfl, List.nil_append, ih]

theorem isPlain_intercalate : ∀ words : List (List Char), (∀ word ∈ words, ∀ c ∈ word, isPlain c = true) →
    ∀ c ∈ [',', ' '].intercalate words, isPlain c = true
  | [], _ => by simp
  | [word], h => by
    rw [List.intercalate_singleton]
    exact h word (by simp)
  | word :: next :: words, h => by
    have ih := isPlain_intercalate (next :: words) fun w hw => h w (List.mem_cons_of_mem _ hw)
    rw [List.intercalate_cons_cons]
    intro c hc
    rcases List.mem_append.1 hc with hc | hc
    · rcases List.mem_append.1 hc with hc | hc
      · exact h word (by simp) c hc
      · rcases List.mem_pair.1 hc with rfl | rfl <;> rfl
    · exact ih c hc

/-- The text of an instruction: a name, and operands set apart by commas. -/
def instructionText (name : String) (operands : List String) : String :=
  name ++ (if operands.isEmpty then "" else " " ++ ", ".intercalate operands)

section

variable {name : String} {operands : List String} (hname : PlainWord name) (hoperands : ∀ o ∈ operands, PlainWord o)

theorem toList_instructionText {o : String} {os : List String} (h : operands = o :: os) :
    (instructionText name operands).toList =
      name.toList ++ ' ' :: [',', ' '].intercalate (operands.map String.toList) := by
  simp [instructionText, h, String.toList_intercalate]

include hname hoperands

theorem words_instructionText (line : Nat) :
    SourceLine.words ⟨line, instructionText name operands⟩ = name :: operands := by
  have hwords : splitWords (instructionText name operands).toList = name.toList :: operands.map String.toList := by
    cases operands with
    | nil => simpa [instructionText] using splitWords_word name.toList hname.nonempty hname.isSeparator
    | cons o os =>
      have hrest := splitWords_intercalate ((o :: os).map String.toList) (by
        intro word hword
        obtain ⟨x, hx, rfl⟩ := List.mem_map.1 hword
        exact ⟨(hoperands x hx).nonempty, (hoperands x hx).isSeparator⟩)
      rw [toList_instructionText rfl, splitWords_append rfl _ name.toList hname.nonempty hname.isSeparator,
        splitWords_separator rfl, hrest]
  rw [SourceLine.words, hwords]
  simp [Function.comp_def]

theorem plainText_instructionText : PlainText (instructionText name operands) := by
  have hword {word : String} (h : PlainWord word) : ∀ c ∈ word.toList, isPlain c = true :=
    fun c hc => isPlain_of_isAlphanum (h.alphanum c hc)
  obtain ⟨c, cs, hcs⟩ := List.exists_cons_of_ne_nil hname.nonempty
  have hfirst : c.isAlphanum = true := hname.alphanum c (by simp [hcs])
  cases operands with
  | nil =>
    have htext : instructionText name [] = name := String.append_empty
    rw [htext]
    exact ⟨⟨c, cs, hcs, hfirst⟩, hword hname⟩
  | cons o os =>
    have htext : (instructionText name (o :: os)).toList = _ := toList_instructionText rfl
    refine ⟨⟨c, _, by rw [htext, hcs]; rfl, hfirst⟩, ?_⟩
    rw [htext]
    intro x hx
    rcases List.mem_append.1 hx with hx | hx
    · exact hword hname x hx
    · rcases List.mem_cons.1 hx with rfl | hx
      · rfl
      · refine isPlain_intercalate _ ?_ x hx
        intro word hmem
        obtain ⟨y, hy, rfl⟩ := List.mem_map.1 hmem
        exact hword (hoperands y hy)

/-- In the code, the text of an instruction is read as that instruction. -/
theorem readLine_instructionText (line : Nat) :
    readLine .code ⟨line, instructionText name operands⟩ = .ok (some (.instruction ⟨name, operands⟩)) := by
  obtain ⟨c, cs, hcs, hc⟩ := (plainText_instructionText hname hoperands).first
  obtain ⟨d, ds, hds⟩ := List.exists_cons_of_ne_nil hname.nonempty
  have hd : d.isAlphanum = true := hname.alphanum d (by simp [hds])
  have hat : (instructionText name operands).startsWith "@" = false := by
    rw [String.startsWith_string_eq_false_iff, hcs]
    simp [List.cons_prefix_cons, (ne_of_isAlphanum hc (x := '@') rfl).symm]
  have hdot : name.startsWith "." = false := by
    rw [String.startsWith_string_eq_false_iff, hds]
    simp [List.cons_prefix_cons, (ne_of_isAlphanum hd (x := '.') rfl).symm]
  have hcode (source : SourceLine) : readCode source name operands = .ok (.instruction ⟨name, operands⟩) := by
    rw [readCode, hds]
    split
    · rename_i h
      exact absurd (List.cons.inj h).1 (ne_of_isAlphanum hd rfl)
    · rfl
  simp [readLine, words_instructionText hname hoperands, hat, hdot, hcode, Except.map]

end

/-- An instruction whose name and operands are plain words. -/
structure PlainLine (line : InstructionLine) : Prop where
  name : PlainWord line.mnemonic
  operands : ∀ o ∈ line.operands, PlainWord o

/-- The text of an instruction line. -/
def InstructionLine.text (line : InstructionLine) : String := instructionText line.mnemonic line.operands

/-- The instructions, one a line from `line` on. -/
def statementsFrom (line : Nat) : List InstructionLine → List Statement
  | [] => []
  | l :: ls => ⟨line, .instruction l⟩ :: statementsFrom (line + 1) ls

theorem readFrom_lines : ∀ {lines : List InstructionLine} (line : Nat) {p : Position}, (∀ l ∈ lines, PlainLine l) →
    p.current = .code →
    readFrom p (numberedFrom line (lines.map InstructionLine.text)) = .ok (statementsFrom line lines)
  | [], _, _, _, _ => rfl
  | l :: ls, line, p, h, hp => by
    have hl := h l (List.mem_cons_self ..)
    have ih := readFrom_lines (line + 1) (p := { p with started := true })
      (fun x hx => h x (List.mem_cons_of_mem _ hx)) hp
    have hread : readLine p.current ⟨line, l.text⟩ = .ok (some (.instruction l)) := by
      rw [hp]
      exact readLine_instructionText hl.name hl.operands line
    rw [List.map_cons, numberedFrom, readFrom, statementsFrom]
    exact bind_eq_ok.2 ⟨_, atLine_eq_ok.2 hread, bind_eq_ok.2 ⟨_, atLine_eq_ok.2 rfl, bind_eq_ok.2 ⟨_, ih, rfl⟩⟩⟩

end WordMachine.Assembly
