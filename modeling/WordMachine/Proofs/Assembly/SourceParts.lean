/-
Source texts part by part. What becomes of a character depends on the mode that the text before it leads to, and
after whole statements and whole lines this is the mode that every text starts in. So a text that is divided into
statements can be put before any other one, whose statements only move down by the lines before them, and a
comment can be taken away wherever it is one.

The line of a statement is that of its first character. Where statements start is told by the modes of the
characters alone (`statementStarts`).
-/
import WordMachine.Assembly.Program
import WordMachine.Proofs.Assembly.SourceCase

namespace WordMachine.Assembly

/-! ## Characters -/

/-- What becomes of a character of the source. -/
inductive Role where
  | dropped
  /-- The character is part of a statement, unless it is a space before one. -/
  | kept
  | ending
  deriving DecidableEq

/-- What becomes of the character in this mode. -/
def Mode.role (mode : Mode) (c : Char) : Role :=
  match mode with
  | .normal => if c = ';' then .ending else if c = '#' ∨ c ≠ ' ' ∧ Text.isBlank c then .dropped else .kept
  | .literal => .kept
  | .quote => if c = ';' then .ending else .kept
  | .comment => .dropped

namespace Splitter

variable {s t : Splitter}

/-- The splitter after a character, its effect on the mode and the line apart. -/
def take (s : Splitter) (c : Char) : Role → Splitter
  | .dropped => s
  | .kept => s.push c
  | .ending => s.endStatement

theorem line_push (s : Splitter) (c : Char) : (s.push c).line = s.line := by
  unfold push
  split
  · split <;> rfl
  · rfl

theorem finished_push (s : Splitter) (c : Char) : (s.push c).finished = s.finished := by
  unfold push
  split
  · split <;> rfl
  · rfl

theorem line_endStatement (s : Splitter) : s.endStatement.line = s.line := by
  unfold endStatement
  split <;> rfl

theorem eq_of_mode_eq {mode : Mode} (h : s.mode = mode) : s = { s with mode := mode } := by
  cases h
  rfl

theorem read_eq (s : Splitter) (c : Char) :
    s.read c = { s.take c (s.mode.role c) with mode := s.mode.after c } := by
  obtain ⟨mode, line, text, start, finished⟩ := s
  unfold read
  cases mode with
  | normal =>
    simp only [Mode.role, Mode.after]
    by_cases hsemicolon : c = ';'
    · subst hsemicolon
      exact eq_of_mode_eq (mode_endStatement _)
    by_cases hmarker : c = '#'
    · subst hmarker
      simp [take]
    by_cases hquote : c = '"'
    · subst hquote
      simp [take, show Text.isBlank '"' = false by decide]
    by_cases hblank : c ≠ ' ' ∧ Text.isBlank c = true
    · simp [take, hsemicolon, hmarker, hquote, hblank]
    · simp only [hsemicolon, hmarker, hquote, hblank, if_false, or_self, take]
      exact eq_of_mode_eq (mode_push ..)
  | literal => rfl
  | quote =>
    simp only [Mode.role, Mode.after]
    by_cases hsemicolon : c = ';'
    · simp [take, hsemicolon]
    · simp [take, hsemicolon]
  | comment =>
    simp only [Mode.role, Mode.after, take]
    split <;> rfl

/-- A step in three parts: what becomes of the character, the mode, and the line. -/
theorem step_eq (s : Splitter) (c : Char) :
    s.step c =
      { s.take c (s.mode.role c) with mode := s.mode.after c, line := s.line + [c].count '\n' } := by
  have hline : (s.take c (s.mode.role c)).line = s.line := by
    cases s.mode.role c with
    | dropped => rfl
    | kept => exact line_push s c
    | ending => exact line_endStatement s
  rw [step, read_eq]
  by_cases hc : c = '\n'
  · rw [if_pos hc, hc]
    rfl
  · rw [if_neg hc, List.count_singleton, ← hline]
    simp [hc]

end Splitter

/-! ## One text after another -/

/-- The statement `n` lines further down. -/
def SourceLine.movedDown (n : Nat) (l : SourceLine) : SourceLine := { l with line := l.line + n }

/-- The error `n` lines further down. -/
def Error.movedDown (n : Nat) (e : Error) : Error := { e with line := e.line + n }

/-- The text is empty or ends with a line feed. -/
def EndsLine (text : String) : Prop := text = "" ∨ text.toList.getLast? = some '\n'

instance (text : String) : Decidable (EndsLine text) :=
  inferInstanceAs (Decidable (text = "" ∨ text.toList.getLast? = some '\n'))

namespace Splitter

variable {s t : Splitter}

/-- The second splitter has read `n` lines and the statements `front` before what the first has read. -/
structure MovedDown (n : Nat) (front : List SourceLine) (s t : Splitter) : Prop where
  mode : t.mode = s.mode
  line : t.line = s.line + n
  text : t.text = s.text
  start : s.text ≠ "" → t.start = s.start + n
  finished : t.finished = front ++ s.finished.map (SourceLine.movedDown n)

section

variable {n : Nat} {front : List SourceLine}

theorem MovedDown.push (h : MovedDown n front s t) (c : Char) : MovedDown n front (s.push c) (t.push c) := by
  obtain ⟨hmode, hline, htext, hstart, hfinished⟩ := h
  unfold Splitter.push
  rw [htext]
  split
  · split
    · exact ⟨hmode, hline, htext, hstart, hfinished⟩
    · exact ⟨hmode, hline, rfl, fun _ => hline, hfinished⟩
  · rename_i hne
    exact ⟨hmode, hline, rfl, fun _ => hstart (by simpa using hne), hfinished⟩

theorem MovedDown.endStatement (h : MovedDown n front s t) : MovedDown n front s.endStatement t.endStatement := by
  obtain ⟨hmode, hline, htext, hstart, hfinished⟩ := h
  unfold Splitter.endStatement
  rw [htext]
  split
  · exact ⟨hmode, hline, htext, hstart, hfinished⟩
  · rename_i hne
    refine ⟨hmode, hline, rfl, fun h => absurd rfl h, ?_⟩
    rw [hfinished, hstart (by simpa using hne), List.map_append, List.append_assoc]
    rfl

theorem MovedDown.step (h : MovedDown n front s t) (c : Char) : MovedDown n front (s.step c) (t.step c) := by
  have htake : MovedDown n front (s.take c (s.mode.role c)) (t.take c (t.mode.role c)) := by
    rw [h.mode]
    cases s.mode.role c with
    | dropped => exact h
    | kept => exact h.push c
    | ending => exact h.endStatement
  rw [step_eq, step_eq, h.mode, h.line]
  rw [h.mode] at htake
  exact ⟨rfl, Nat.add_right_comm .., htake.text, htake.start, htake.finished⟩

theorem MovedDown.foldl (h : MovedDown n front s t) (cs : List Char) :
    MovedDown n front (cs.foldl Splitter.step s) (cs.foldl Splitter.step t) := by
  induction cs generalizing s t with
  | nil => exact h
  | cons c cs ih => exact ih (h.step c)

theorem MovedDown.finish (h : MovedDown n front s t) :
    t.finish =
      (s.finish.map fun lines => front ++ lines.map (SourceLine.movedDown n)).mapError (Error.movedDown n) := by
  unfold Splitter.finish
  rw [h.text, h.mode, h.finished]
  split
  · rfl
  · rename_i hne
    rw [h.start (by simpa using hne)]
    split <;> rfl

end

theorem line_step (s : Splitter) (c : Char) : (s.step c).line = s.line + [c].count '\n' := by
  rw [step_eq]

theorem line_foldl (cs : List Char) (s : Splitter) : (cs.foldl step s).line = s.line + cs.count '\n' := by
  induction cs generalizing s with
  | nil => rfl
  | cons c cs ih =>
    have hcount : ([c] ++ cs).count '\n' = [c].count '\n' + cs.count '\n' := List.count_append
    rw [List.foldl_cons, ih, line_step, Nat.add_assoc, ← hcount]
    rfl

/-- A space before a statement is dropped. -/
theorem push_space (h : s.text = "") : s.push ' ' = s := by
  rw [push, if_pos (by rw [h]; rfl), if_pos rfl]

/-- Every other character becomes part of a statement. -/
theorem push_eq {c : Char} (h : c ≠ ' ' ∨ s.text ≠ "") :
    s.push c = { s with text := s.text.push c, start := if s.text = "" then s.line else s.start } := by
  unfold push
  by_cases htext : s.text = ""
  · have hc : c ≠ ' ' := h.resolve_right fun hne => hne htext
    simp [htext, hc]
  · simp [htext]

/-- A literal is part of a statement. -/
def InStatement (s : Splitter) : Prop := s.mode.inLiteral = true → s.text ≠ ""

theorem InStatement.step (h : s.InStatement) (c : Char) : (s.step c).InStatement := by
  intro hliteral
  rw [mode_step] at hliteral
  have hpush (hc : c ≠ ' ' ∨ s.text ≠ "") : (s.push c).text ≠ "" := by simp [push_eq hc]
  have htext : (s.step c).text = (s.take c (s.mode.role c)).text := by rw [step_eq]
  rw [htext]
  cases hmode : s.mode with
  | normal =>
    rw [hmode] at hliteral
    have hc : c = '"' := by
      by_contra hc
      simp only [Mode.after, hc, if_false] at hliteral
      split at hliteral <;> cases hliteral
    subst hc
    exact hpush (.inl (by decide))
  | literal => exact hpush (.inr (h (by rw [hmode]; rfl)))
  | quote =>
    have hc : c ≠ ';' := by
      rintro rfl
      rw [hmode] at hliteral
      cases hliteral
    rw [Mode.role, if_neg hc]
    exact hpush (.inr (h (by rw [hmode]; rfl)))
  | comment =>
    rw [hmode] at hliteral
    simp only [Mode.after] at hliteral
    split at hliteral <;> cases hliteral

theorem InStatement.foldl (h : s.InStatement) (cs : List Char) : (cs.foldl Splitter.step s).InStatement := by
  induction cs generalizing s with
  | nil => exact h
  | cons c cs ih => exact ih (h.step c)

/-- After a line feed a comment has ended. -/
theorem mode_ne_comment {text : String} (h : EndsLine text) : (text.toList.foldl step {}).mode ≠ .comment := by
  rcases h with rfl | hlast
  · simp
  · obtain ⟨front, hfront⟩ := List.getLast?_eq_some_iff.1 hlast
    rw [hfront, List.foldl_concat, mode_step]
    cases (front.foldl step {}).mode <;> decide

end Splitter

theorem finish_eq_ok {s : Splitter} {lines : List SourceLine} :
    s.finish = .ok lines ↔ s.text = "" ∧ s.finished = lines := by
  unfold Splitter.finish
  by_cases htext : s.text = ""
  · simp [htext]
  · rw [if_neg (by simpa using htext)]
    split <;> simp [htext]

/-- A text that is divided and ends its last line leaves the splitter as it was, but for the line. -/
theorem movedDown_of_splitSource {a : String} {la : List SourceLine} (hend : EndsLine a)
    (h : splitSource a = .ok la) :
    Splitter.MovedDown (a.toList.count '\n') la {} (a.toList.foldl Splitter.step {}) := by
  have hinside : (a.toList.foldl Splitter.step {}).InStatement := Splitter.InStatement.foldl (by nofun) a.toList
  have hcomment : (a.toList.foldl Splitter.step {}).mode ≠ .comment := Splitter.mode_ne_comment hend
  have hline := Splitter.line_foldl a.toList {}
  obtain ⟨htext, hfinished⟩ := finish_eq_ok.1 h
  generalize a.toList.foldl Splitter.step {} = s at *
  have hmode : s.mode = .normal := by
    cases hmode : s.mode with
    | normal => rfl
    | literal => exact absurd htext (hinside (by rw [hmode]; rfl))
    | quote => exact absurd htext (hinside (by rw [hmode]; rfl))
    | comment => exact absurd hmode hcomment
  exact ⟨hmode, hline, htext, fun h => absurd rfl h, by simp [hfinished]⟩

theorem splitSource_append {a : String} {la : List SourceLine} (hend : EndsLine a) (h : splitSource a = .ok la)
    (b : String) :
    splitSource (a ++ b) = ((splitSource b).map fun lb =>
      la ++ lb.map (SourceLine.movedDown (a.toList.count '\n'))).mapError (Error.movedDown (a.toList.count '\n')) := by
  rw [splitSource, String.toList_append, List.foldl_append]
  exact ((movedDown_of_splitSource hend h).foldl b.toList).finish

/-! ## Where statements start -/

/-- The text before the statement that is being read after `c`. It was `start` before `c`, with `before` as the
whole text. -/
def Mode.startAfter (mode : Mode) (before : List Char) (start : Option (List Char)) (c : Char) : Option (List Char) :=
  match mode.role c with
  | .dropped => start
  | .kept => if c = ' ' then start else some (start.getD before)
  | .ending => none

/-- The texts before the statements that end in a text, and before the one that is left at its end. `before` is
the text before it, and `start` the text before the statement that has started there. -/
def startsFrom (mode : Mode) (before : List Char) (start : Option (List Char)) : List Char → List (List Char)
  | [] => start.toList
  | c :: cs =>
    (if mode.role c = .ending then start.toList else []) ++
      startsFrom (mode.after c) (before ++ [c]) (mode.startAfter before start c) cs

/-- The texts before the first characters of the statements of a source. -/
def statementStarts (source : String) : List (List Char) := startsFrom .normal [] none source.toList

/-- The statement is on the line of its first character, which stands right after `before` in the text. -/
structure SourceLine.StartsAt (text : List Char) (l : SourceLine) (before : List Char) : Prop where
  line : l.line = 1 + before.count '\n'
  first : ∃ c rest, l.text.toList = c :: rest ∧ before ++ [c] <+: text

theorem SourceLine.StartsAt.append {text before : List Char} {l : SourceLine} (h : l.StartsAt text before)
    (more : List Char) : l.StartsAt (text ++ more) before := by
  obtain ⟨c, rest, htext, hfront⟩ := h.first
  exact ⟨h.line, c, rest, htext, hfront.trans (List.prefix_append ..)⟩

namespace Splitter

variable {s : Splitter} {before : List Char} {start : Option (List Char)}

/-- The splitter has read `before`, and reads a statement that has started after `start`, if there is one. -/
structure Tracks (s : Splitter) (before : List Char) (start : Option (List Char)) : Prop where
  line : s.line = 1 + before.count '\n'
  text : s.text = "" ↔ start = none
  start : ∀ b ∈ start, SourceLine.StartsAt before ⟨s.start, s.text⟩ b

/-- A character that is kept continues the statement or starts one. -/
theorem Tracks.push (h : Tracks s before start) (c : Char) :
    ((s.push c).text = "" ↔ (if c = ' ' then start else some (start.getD before)) = none) ∧
      ∀ b ∈ if c = ' ' then start else some (start.getD before),
        SourceLine.StartsAt (before ++ [c]) ⟨(s.push c).start, (s.push c).text⟩ b := by
  cases start with
  | none =>
    have htext := h.text.2 rfl
    by_cases hc : c = ' '
    · subst hc
      rw [push_space htext]
      simp [htext]
    · rw [push_eq (.inl hc), if_neg hc]
      refine ⟨by simp, ?_⟩
      rintro b ⟨⟩
      exact ⟨by simp [htext, h.line], c, [], by simp [htext], List.prefix_rfl⟩
  | some b =>
    have htext : s.text ≠ "" := fun htext => by cases h.text.1 htext
    have hstart : (if c = ' ' then some b else some ((some b).getD before)) = some b := by split <;> rfl
    rw [push_eq (.inr htext), hstart]
    refine ⟨by simp, ?_⟩
    rintro b ⟨⟩
    obtain ⟨hline, d, rest, hd, hfront⟩ := h.start b rfl
    refine ⟨by simpa [htext] using hline, d, rest ++ [c], ?_, hfront.trans (List.prefix_append ..)⟩
    dsimp only at hd ⊢
    rw [String.toList_push, hd, List.cons_append]

theorem Tracks.step (h : Tracks s before start) (c : Char) :
    Tracks (s.step c) (before ++ [c]) (s.mode.startAfter before start c) := by
  have hline : (s.step c).line = 1 + (before ++ [c]).count '\n' := by
    rw [line_step, h.line, List.count_append, Nat.add_assoc]
  rw [step_eq] at hline ⊢
  unfold Mode.startAfter
  cases s.mode.role c with
  | dropped => exact ⟨hline, h.text, fun b hb => (h.start b hb).append [c]⟩
  | kept =>
    obtain ⟨htext, hstart⟩ := h.push c
    exact ⟨hline, htext, hstart⟩
  | ending => exact ⟨hline, by simp [take], by simp⟩

/-- A statement ends where it has started, with the line of its start. -/
theorem Tracks.finished_step (h : Tracks s before start) (c : Char) :
    ∃ ended, (s.step c).finished = s.finished ++ ended ∧
      List.Forall₂ (SourceLine.StartsAt before) ended (if s.mode.role c = .ending then start.toList else []) := by
  rw [step_eq]
  cases s.mode.role c with
  | dropped => exact ⟨[], (List.append_nil _).symm, .nil⟩
  | kept => exact ⟨[], (finished_push s c).trans (List.append_nil _).symm, .nil⟩
  | ending =>
    cases start with
    | none => exact ⟨[], by simp [take, endStatement, h.text.2 rfl], .nil⟩
    | some b =>
      have htext : s.text ≠ "" := fun htext => by cases h.text.1 htext
      exact ⟨[⟨s.start, s.text⟩], by simp [take, endStatement, htext], .cons (h.start b rfl) .nil⟩

/-- The statements that end in a text are on the lines of their first characters. -/
theorem Tracks.foldl (h : Tracks s before start) (cs : List Char) :
    ∃ more ended start', (cs.foldl Splitter.step s).finished = s.finished ++ more ∧
      startsFrom s.mode before start cs = ended ++ start'.toList ∧
      List.Forall₂ (SourceLine.StartsAt (before ++ cs)) more ended ∧
      Tracks (cs.foldl Splitter.step s) (before ++ cs) start' := by
  induction cs generalizing s before start with
  | nil => exact ⟨[], [], start, by simp, rfl, .nil, by simpa using h⟩
  | cons c cs ih =>
    obtain ⟨first, hfinished, hfirst⟩ := h.finished_step c
    obtain ⟨more, ended, start', hmore, hstarts, hended, htracks⟩ := ih (h.step c)
    rw [List.append_assoc, List.singleton_append] at hended htracks
    have hlines := List.rel_append (hfirst.imp fun _ _ h => h.append (c :: cs)) hended
    refine ⟨first ++ more, _ ++ ended, start', ?_, ?_, hlines, htracks⟩
    · rw [List.foldl_cons, hmore, hfinished, List.append_assoc]
    · rw [startsFrom, ← mode_step, hstarts, List.append_assoc]

end Splitter

theorem tracks_initial : Splitter.Tracks {} [] none := ⟨rfl, by simp, by simp⟩

/-- Every statement is on the line of its first character. -/
theorem startsAt_of_splitSource {source : String} {lines : List SourceLine} (h : splitSource source = .ok lines) :
    List.Forall₂ (SourceLine.StartsAt source.toList) lines (statementStarts source) := by
  obtain ⟨more, ended, start, hmore, hstarts, hended, htracks⟩ := tracks_initial.foldl source.toList
  obtain ⟨htext, rfl⟩ := finish_eq_ok.1 h
  obtain rfl := htracks.text.1 htext
  rw [Option.toList_none, List.append_nil] at hstarts
  rw [statementStarts, hstarts, hmore]
  exact hended

/-- A statement that is not ended is the last one, and the error is on the line of its first character. -/
theorem line_of_splitSource_eq_error {source : String} {e : Error} (h : splitSource source = .error e) :
    ∃ before, (statementStarts source).getLast? = some before ∧ e.line = 1 + before.count '\n' := by
  obtain ⟨more, ended, start, hmore, hstarts, hended, htracks⟩ := tracks_initial.foldl source.toList
  rw [splitSource, Splitter.finish] at h
  split at h
  · cases h
  rename_i htext
  have hline : e.line = (source.toList.foldl Splitter.step {}).start := by
    split at h <;> cases h <;> rfl
  cases start with
  | none => exact absurd (htracks.text.2 rfl) (by simpa using htext)
  | some b =>
    rw [statementStarts, hstarts, hline]
    exact ⟨b, by simp, (htracks.start b rfl).line⟩

/-- Dividing a source is compositional. After a text that is divided and ends its last line, every text is divided
as by itself, with the lines before added to the line of every statement or of the error. The line of a statement,
and of the error for one that is not ended, is that of its first character. -/
theorem splitSource_by_parts :
    (∀ (a b : String) (la : List SourceLine), EndsLine a → splitSource a = .ok la →
      (∀ lb, splitSource b = .ok lb →
        splitSource (a ++ b) = .ok (la ++ lb.map (SourceLine.movedDown (a.toList.count '\n')))) ∧
      ∀ e, splitSource b = .error e → splitSource (a ++ b) = .error (e.movedDown (a.toList.count '\n'))) ∧
    ∀ source : String,
      (∀ lines, splitSource source = .ok lines →
        List.Forall₂ (SourceLine.StartsAt source.toList) lines (statementStarts source)) ∧
      ∀ e, splitSource source = .error e →
        ∃ before, (statementStarts source).getLast? = some before ∧ e.line = 1 + before.count '\n' := by
  refine ⟨fun a b la hend ha => ⟨fun lb hb => ?_, fun e hb => ?_⟩, fun source =>
    ⟨fun lines => startsAt_of_splitSource, fun e => line_of_splitSource_eq_error⟩⟩
  · rw [splitSource_append hend ha, hb]
    rfl
  · rw [splitSource_append hend ha, hb]
    rfl

/-- A literal and a comment of several lines, and a statement that goes on in the next line; and after them a
statement that is not ended. -/
theorem splitSource_by_parts_literal :
    let a := "STRING s \"x;\n#y\"; # c;\n"
    let b := "\n ADD r1,\n r2, r3; HALT;"
    splitSource a = .ok [⟨1, "STRING s \"x;\n#y\""⟩] ∧
      splitSource (a ++ b) = .ok [⟨1, "STRING s \"x;\n#y\""⟩, ⟨4, "ADD r1, r2, r3"⟩, ⟨5, "HALT"⟩] ∧
      List.Forall₂ (SourceLine.StartsAt b.toList) [⟨2, "ADD r1, r2, r3"⟩, ⟨3, "HALT"⟩] (statementStarts b) ∧
      splitSource (a ++ "\nHALT") = .error ⟨4, .missingTerminator⟩ := by
  intro a b
  have ha : splitSource a = .ok [⟨1, "STRING s \"x;\n#y\""⟩] := by decide +kernel
  have hb : splitSource b = .ok [⟨2, "ADD r1, r2, r3"⟩, ⟨3, "HALT"⟩] := by decide +kernel
  have herror : splitSource "\nHALT" = .error ⟨2, .missingTerminator⟩ := by decide +kernel
  have hend : EndsLine a := by decide +kernel
  have hcount : a.toList.count '\n' = 2 := by decide +kernel
  obtain ⟨happend, hstarts⟩ := splitSource_by_parts
  have hlines := (happend a b _ hend ha).1 _ hb
  have hmissing := (happend a "\nHALT" _ hend ha).2 _ herror
  rw [hcount] at hlines hmissing
  exact ⟨ha, hlines, (hstarts b).1 _ hb, hmissing⟩

/-! ## Comments -/

namespace Splitter

variable {s : Splitter}

theorem step_of_dropped {c : Char} (h : s.mode.role c = .dropped) :
    s.step c = { s with mode := s.mode.after c, line := s.line + [c].count '\n' } := by
  rw [step_eq, h]
  rfl

/-- In a comment nothing is read before the end of the line. -/
theorem foldl_of_comment {cs : List Char} (hmode : s.mode = .comment) (hcs : '\n' ∉ cs) : cs.foldl step s = s := by
  induction cs with
  | nil => rfl
  | cons c cs ih =>
    rw [List.mem_cons, not_or] at hcs
    have hc : c ≠ '\n' := Ne.symm hcs.1
    have hstep : s.step c = s := by
      rw [step_of_dropped (by rw [hmode]; rfl), List.count_singleton, hmode]
      simp [Mode.after, hc, ← hmode]
    rw [List.foldl_cons, hstep, ih hcs.2]

/-- Outside of literals a comment and the line feed after it are read as the line feed alone. -/
theorem foldl_comment {cs : List Char} (hmode : s.mode.inLiteral = false) (hcs : '\n' ∉ cs) :
    ('#' :: (cs ++ ['\n'])).foldl step s = s.step '\n' := by
  have hmarker : s.mode.role '#' = .dropped ∧ s.mode.after '#' = .comment := by
    cases hs : s.mode <;> simp_all [Mode.inLiteral, Mode.role, Mode.after]
  have hnewline : s.mode.role '\n' = .dropped ∧ s.mode.after '\n' = .normal := by
    cases hs : s.mode <;> simp_all [Mode.inLiteral, Mode.role, Mode.after, show Text.isBlank '\n' = true by decide]
  rw [List.foldl_cons, List.foldl_concat, step_of_dropped hmarker.1, foldl_of_comment hmarker.2 hcs,
    step_of_dropped hnewline.1, step_of_dropped (by rw [hmarker.2]; rfl), hmarker.2, hnewline.2]
  rfl

end Splitter

/-- Wherever the next character is not part of a string literal, a comment to the end of the line changes nothing
in what is assembled: not in the statement that it stands in, nor after another comment. -/
theorem assemble_comment (origin : Address) {a c : String} (b : String)
    (ha : (a.toList.foldl Splitter.step {}).mode.inLiteral = false) (hc : '\n' ∉ c.toList) :
    assemble origin (a ++ "#" ++ c ++ "\n" ++ b) = assemble origin (a ++ "\n" ++ b) := by
  have hsplit : splitSource (a ++ "#" ++ c ++ "\n" ++ b) = splitSource (a ++ "\n" ++ b) := by
    have htext : (a ++ "#" ++ c ++ "\n" ++ b).toList = a.toList ++ '#' :: (c.toList ++ ['\n']) ++ b.toList := by simp
    have htext' : (a ++ "\n" ++ b).toList = a.toList ++ ['\n'] ++ b.toList := by simp
    rw [splitSource, splitSource, htext, htext', List.foldl_append, List.foldl_append, List.foldl_append,
      List.foldl_append, Splitter.foldl_comment ha hc]
    rfl
  rw [assemble, assemble, hsplit]

/-- A comment with quotes, a semicolon and a marker in the middle of a register, and one before an operand that is
refused. -/
theorem assemble_comment_operand :
    let p : Program := ⟨⟨0x100, 0, [0x22, 0, 0, 0, 0, 0, 0, 0]⟩, [], [.instruction 1 0x100 [0x22], .halt 0x104]⟩
    assemble 0x100 "INC r\n1;" = .ok p ∧ assemble 0x100 "INC r# \"a\"; #b\n1;" = .ok p ∧
      assemble 0 "NOP;\nINC # r1;\n9;" = .error ⟨2, .invalidOperand "9" .registerExpected⟩ := by
  intro p
  have hp : assemble 0x100 "INC r\n1;" = .ok p := by decide +kernel
  have he : assemble 0 "NOP;\nINC \n9;" = .error ⟨2, .invalidOperand "9" .registerExpected⟩ := by decide +kernel
  have hcomment := @assemble_comment 0x100 "INC r" " \"a\"; #b" "1;" (by decide +kernel) (by decide +kernel)
  have hcomment' := @assemble_comment 0 "NOP;\nINC " " r1;" "9;" (by decide +kernel) (by decide +kernel)
  exact ⟨hp, hcomment.trans hp, hcomment'.trans he⟩

end WordMachine.Assembly
