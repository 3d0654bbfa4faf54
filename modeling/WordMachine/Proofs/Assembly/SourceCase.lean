/-
Sources that are the same once the letters outside string literals are made small. The splitter is in
the same mode at every character of both, so both fall into the same statements on the same lines,
which are the same but for the case of letters before a literal.

Two computations that fail have the same outcome if they do so with the same fault on the same line, the case of
the letters in its texts apart.
-/
import WordMachine.Assembly.Line
import WordMachine.Proofs.Result
import WordMachine.Proofs.Text.LetterCase
import Mathlib.Data.List.TakeWhile

namespace WordMachine.Assembly

open Text (SameLetters sameLetters_iff toLower_eq_iff)

/-! ## Faults -/

/-- The fault with the letters of the texts in it made small. -/
def Fault.folded : Fault → Fault
  | .unknownMnemonic mnemonic => .unknownMnemonic mnemonic.toLower
  | .operandCount mnemonic expected given => .operandCount mnemonic.toLower expected given
  | .illegalByte literal => .illegalByte literal.toLower
  | .invalidOperand operand fault => .invalidOperand operand.toLower fault
  | .invalidStatement text => .invalidStatement text.toLower
  | .unsupportedType name => .unsupportedType name.toLower
  | fault => fault

/-- The faults are the same but for the case of letters. -/
def Fault.Similar (f g : Fault) : Prop := f.folded = g.folded

theorem Fault.Similar.refl (f : Fault) : f.Similar f := rfl

/-- The errors are on the same line and the same but for the case of letters. -/
structure Error.Similar (e e' : Error) : Prop where
  line_eq : e.line = e'.line
  fault : e.fault.Similar e'.fault

theorem atLine_similar {α : Type} {R : α → α → Prop} {x y : Except Fault α} {line line' : Nat}
    (hl : line = line') (h : SameOutcome Fault.Similar R x y) :
    SameOutcome Error.Similar R (Assembly.atLine line x) (Assembly.atLine line' y) := by
  cases h with
  | ok h => exact .ok h
  | error h => exact .error ⟨hl, h⟩

/-! ## Source texts -/

/-- Is the next character part of a string literal? -/
def Mode.inLiteral : Mode → Bool
  | .literal | .quote => true
  | .normal | .comment => false

/-- What the character after `c` is part of. -/
def Mode.after (mode : Mode) (c : Char) : Mode :=
  match mode with
  | .normal => if c = '#' then .comment else if c = '"' then .literal else .normal
  | .literal => if c = '"' then .quote else .literal
  | .quote => if c = ';' then .normal else if c = '"' then .quote else .literal
  | .comment => if c = '\n' then .normal else .comment

/-- The text with its letters made small, those in string literals apart. -/
def lowerOutsideLiterals (mode : Mode) : List Char → List Char
  | [] => []
  | c :: cs => (if mode.inLiteral then c else c.toLower) :: lowerOutsideLiterals (mode.after c) cs

/-- The sources are the same but for the case of letters outside string literals. -/
def SameOutsideLiterals (source source' : String) : Prop :=
  lowerOutsideLiterals .normal source.toList = lowerOutsideLiterals .normal source'.toList

/-- A character may stand for another one: a letter for its other case, outside of literals. -/
def Mode.Similar (mode : Mode) (c d : Char) : Prop :=
  (if mode.inLiteral then c else c.toLower) = if mode.inLiteral then d else d.toLower

section

variable {mode : Mode} {c d : Char}

theorem eq_iff_of_toLower_eq (h : c.toLower = d.toLower) {x : Char} (hx : x.isAlpha = false) : d = x ↔ c = x := by
  rw [← toLower_eq_iff hx, ← h, toLower_eq_iff hx]

theorem Mode.Similar.toLower_eq (h : mode.Similar c d) : c.toLower = d.toLower := by
  unfold Mode.Similar at h
  split at h
  · rw [h]
  · exact h

theorem Mode.Similar.eq (h : mode.Similar c d) (hm : mode.inLiteral = true) : c = d := by
  simpa [Mode.Similar, hm] using h

theorem Mode.Similar.after_eq (h : mode.Similar c d) : mode.after d = mode.after c := by
  have hx {x : Char} (hx : x.isAlpha = false) := eq_iff_of_toLower_eq h.toLower_eq hx
  unfold Mode.after
  simp only [hx (x := '#') rfl, hx (x := '"') rfl, hx (x := ';') rfl, hx (x := '\n') rfl]

end

/-! ## Statements of a source -/

/-- The texts are the same but for the case of letters, and the same from the first double quote on. -/
structure SameStatement (text text' : String) : Prop where
  letters : SameLetters text text'
  literal_eq : text.toList.dropWhile (· ≠ '"') = text'.toList.dropWhile (· ≠ '"')

theorem SameStatement.refl (text : String) : SameStatement text text := ⟨rfl, rfl⟩

theorem isEmpty_eq_of_sameLetters {s t : String} (h : SameLetters s t) : s.isEmpty = t.isEmpty := by
  rw [Bool.eq_iff_iff, String.isEmpty_iff, String.isEmpty_iff, ← String.toList_eq_nil_iff, ← String.toList_eq_nil_iff,
    ← List.map_eq_nil_iff (f := Char.toLower), sameLetters_iff.1 h, List.map_eq_nil_iff]

/-- A character more keeps the texts the same, if it is the same in both or no literal has begun. -/
theorem SameStatement.push {text text' : String} {c d : Char} (h : SameStatement text text')
    (hcd : c.toLower = d.toLower) (hlit : '"' ∉ text.toList ∨ c = d) :
    SameStatement (text.push c) (text'.push d) := by
  constructor
  · rw [sameLetters_iff, String.toList_push, String.toList_push, List.map_append, List.map_append,
      sameLetters_iff.1 h.letters, List.map_singleton, List.map_singleton, hcd]
  · rw [String.toList_push, String.toList_push, List.dropWhile_append, List.dropWhile_append, ← h.literal_eq]
    rcases hlit with hquote | rfl
    -- before the first quote nothing is kept, in whichever case the letter is
    · have hnone : text.toList.dropWhile (· ≠ '"') = [] := by
        rw [List.dropWhile_eq_nil_iff]
        intro x hx
        simpa using ne_of_mem_of_not_mem hx hquote
      have hiff := eq_iff_of_toLower_eq hcd (x := '"') rfl
      by_cases hc : c = '"'
      · rw [hc, hiff.2 hc]
      · rw [hnone]
        simp [hc, mt hiff.1 hc]
    · rfl

/-- The statements stand on the same line and are the same but for the case of letters before a literal. -/
structure SourceLine.Similar (l l' : SourceLine) : Prop where
  line_eq : l.line = l'.line
  text : SameStatement l.text l'.text

namespace Splitter

/-- No literal has begun in the statement, unless the next character is part of one. -/
def Unquoted (s : Splitter) : Prop := s.mode.inLiteral = false → '"' ∉ s.text.toList

/-- The splitters have read the same but for the case of letters outside literals. -/
structure Similar (s s' : Splitter) : Prop where
  mode_eq : s'.mode = s.mode
  line_eq : s'.line = s.line
  start_eq : s'.start = s.start
  text : SameStatement s.text s'.text
  finished : List.Forall₂ SourceLine.Similar s.finished s'.finished

@[simp] theorem mode_push (s : Splitter) (c : Char) : (s.push c).mode = s.mode := by
  unfold push
  split
  · split <;> rfl
  · rfl

@[simp] theorem mode_endStatement (s : Splitter) : s.endStatement.mode = s.mode := by
  unfold endStatement
  split <;> rfl

theorem mode_step (s : Splitter) (c : Char) : (s.step c).mode = s.mode.after c := by
  have hread : (s.read c).mode = s.mode.after c := by
    unfold read Mode.after
    cases hm : s.mode with
    | normal =>
      dsimp only
      by_cases hsemi : c = ';'
      · simp [hsemi, hm]
      · simp only [hsemi, if_false]
        split
        · rfl
        · split
          · rfl
          · split <;> simp [hm]
    | literal => simp
    | quote =>
      dsimp only
      split <;> simp
    | comment =>
      dsimp only
      split <;> simp [hm]
  unfold step
  split <;> exact hread

theorem mem_toList_push {s : Splitter} {c x : Char} (h : x ∈ (s.push c).text.toList) : x ∈ s.text.toList ∨ x = c := by
  unfold push at h
  split at h
  · split at h
    · exact .inl h
    · simpa [String.toList_push] using h
  · simpa [String.toList_push] using h

@[simp] theorem text_endStatement (s : Splitter) : s.endStatement.text = "" := by
  unfold endStatement
  split
  · rename_i h; exact String.isEmpty_iff.1 h
  · rfl

theorem Unquoted.step {s : Splitter} (h : s.Unquoted) (c : Char) : (s.step c).Unquoted := by
  have hread : (s.read c).Unquoted := by
    unfold Unquoted at h ⊢
    unfold read
    cases hm : s.mode with
    | normal =>
      rw [hm] at h
      have hnone := h rfl
      dsimp only
      split
      · simp
      · split
        · exact fun _ => hnone
        · split
          · intro hlit; cases hlit
          · rename_i hquote
            split
            · exact fun _ => hnone
            · intro _ hmem
              rcases mem_toList_push hmem with hmem | rfl
              · exact hnone hmem
              · exact hquote rfl
    | literal =>
      dsimp only
      split <;> intro hlit <;> cases hlit
    | quote =>
      dsimp only
      split
      · simp
      · dsimp only
        split <;> intro hlit <;> cases hlit
    | comment =>
      rw [hm] at h
      dsimp only
      split <;> exact fun _ => h rfl
  unfold Splitter.step
  split
  · exact hread
  · exact hread

namespace Similar

variable {s s' : Splitter} {c d : Char}

theorem setMode (h : s.Similar s') (mode : Mode) : ({ s with mode } : Splitter).Similar { s' with mode } :=
  ⟨rfl, h.line_eq, h.start_eq, h.text, h.finished⟩

theorem push (h : s.Similar s') (hcd : c.toLower = d.toLower) (hlit : '"' ∉ s.text.toList ∨ c = d) :
    (s.push c).Similar (s'.push d) := by
  have hiff := eq_iff_of_toLower_eq hcd (x := ' ') rfl
  have htext := h.text.push hcd hlit
  unfold Splitter.push
  simp only [← isEmpty_eq_of_sameLetters h.text.letters, hiff]
  by_cases hempty : s.text.isEmpty
  · by_cases hspace : c = ' '
    · simpa [hempty, hspace] using h
    · simp only [hempty, hspace, if_true, if_false]
      exact ⟨h.mode_eq, h.line_eq, h.line_eq, htext, h.finished⟩
  · simp only [hempty]
    exact ⟨h.mode_eq, h.line_eq, h.start_eq, htext, h.finished⟩

theorem endStatement (h : s.Similar s') : s.endStatement.Similar s'.endStatement := by
  unfold Splitter.endStatement
  rw [← isEmpty_eq_of_sameLetters h.text.letters]
  by_cases hempty : s.text.isEmpty
  · simpa [hempty] using h
  · simp only [hempty]
    refine ⟨h.mode_eq, h.line_eq, h.start_eq, .refl "", ?_⟩
    exact List.rel_append h.finished (.cons ⟨h.start_eq.symm, h.text⟩ .nil)

theorem read (h : s.Similar s') (hu : s.Unquoted) (hcd : s.mode.Similar c d) :
    (s.read c).Similar (s'.read d) := by
  have hlower := hcd.toLower_eq
  have hx {x : Char} (hx : x.isAlpha = false) := eq_iff_of_toLower_eq hlower hx
  unfold Splitter.read
  rw [h.mode_eq]
  -- what ends or opens something is no letter, so it is at the same places in both texts
  simp only [hx (x := ';') rfl, hx (x := '#') rfl, hx (x := '"') rfl, hx (x := '\n') rfl, ne_eq, hx (x := ' ') rfl]
  cases hm : s.mode with
  | normal =>
    have hpush := h.push hlower (.inl (hu (by rw [hm]; rfl)))
    have hblank : Text.isBlank d = Text.isBlank c := by
      rw [← Text.isBlank_toLower d, ← hlower, Text.isBlank_toLower]
    dsimp only
    rw [hblank]
    by_cases hsemi : c = ';'
    · simpa [hsemi] using h.endStatement
    by_cases hhash : c = '#'
    · simpa [hhash] using h.setMode .comment
    by_cases hquote : c = '"'
    · simpa [hquote] using hpush.setMode .literal
    by_cases hskip : ¬c = ' ' ∧ Text.isBlank c = true
    · simpa [hsemi, hhash, hquote, hskip] using h
    · simpa [hsemi, hhash, hquote, hskip] using hpush
  | literal =>
    exact (h.push hlower (.inr (hcd.eq (by rw [hm]; rfl)))).setMode _
  | quote =>
    have hpush := h.push hlower (.inr (hcd.eq (by rw [hm]; rfl)))
    by_cases hsemi : c = ';'
    · simpa [hsemi] using h.endStatement.setMode .normal
    · simpa [hsemi] using hpush.setMode (if c = '"' then .quote else .literal)
  | comment =>
    by_cases hnewline : c = '\n'
    · simpa [hnewline] using h.setMode .normal
    · simpa [hnewline] using h

theorem step (h : s.Similar s') (hu : s.Unquoted) (hcd : s.mode.Similar c d) :
    (s.step c).Similar (s'.step d) := by
  have hread := h.read hu hcd
  unfold Splitter.step
  simp only [eq_iff_of_toLower_eq hcd.toLower_eq (x := '\n') rfl]
  by_cases hnewline : c = '\n'
  · rw [if_pos hnewline, if_pos hnewline]
    exact ⟨hread.mode_eq, congrArg (· + 1) h.line_eq, hread.start_eq, hread.text, hread.finished⟩
  · rw [if_neg hnewline, if_neg hnewline]
    exact hread

theorem run : ∀ {cs ds : List Char} {s s' : Splitter},
    lowerOutsideLiterals s.mode cs = lowerOutsideLiterals s.mode ds → s.Similar s' → s.Unquoted →
    (cs.foldl Splitter.step s).Similar (ds.foldl Splitter.step s')
  | [], [], s, s', _, h, _ => h
  | [], d :: ds, s, s', heq, _, _ => by cases heq
  | c :: cs, [], s, s', heq, _, _ => by cases heq
  | c :: cs, d :: ds, s, s', heq, h, hu => by
    obtain ⟨hcd, hrest⟩ := List.cons.inj heq
    -- both characters lead to the same mode, in which the rest of the texts is compared
    have hafter := Mode.Similar.after_eq hcd
    rw [hafter, ← mode_step] at hrest
    rw [List.foldl_cons, List.foldl_cons]
    exact run hrest (h.step hu hcd) (hu.step c)

theorem finish (h : s.Similar s') :
    SameOutcome Error.Similar (List.Forall₂ SourceLine.Similar) s.finish s'.finish := by
  unfold Splitter.finish
  rw [← isEmpty_eq_of_sameLetters h.text.letters, h.mode_eq, h.start_eq]
  split
  · exact .ok h.finished
  · split
    · exact .error ⟨rfl, rfl⟩
    · exact .error ⟨rfl, rfl⟩

end Similar

end Splitter

theorem splitSource_similar {source source' : String} (h : SameOutsideLiterals source source') :
    SameOutcome Error.Similar (List.Forall₂ SourceLine.Similar) (splitSource source) (splitSource source') := by
  refine Splitter.Similar.finish (Splitter.Similar.run h ⟨rfl, rfl, rfl, .refl "", .nil⟩ ?_)
  intro _
  simp

end WordMachine.Assembly
