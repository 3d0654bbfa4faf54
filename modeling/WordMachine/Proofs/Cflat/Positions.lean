/-
Where statements stand in a text. The lexemes of a text are divided into statements: a statement starts with
the first lexeme that is part of a token, and ends at a brace, at a semicolon outside parentheses or with the
text. The line of a statement is that of its first lexeme, except that line feeds in character literals do not
count. Its depth is the number of braces around its first lexeme, except that a statement that a
closing brace ends is found one brace further out.
-/
import WordMachine.Proofs.Cflat.Braces
import WordMachine.Proofs.Cflat.Lexemes

namespace WordMachine.Cflat

/-! ## Spans -/

namespace Lexeme

/-- Does the lexeme end a statement, where so many parentheses are open? -/
def ends (parens : Nat) (l : Lexeme) : Bool :=
  match l.kind with
  | .opening | .closing => true
  | .semicolon => parens == 0
  | _ => false

/-- The number of parentheses that are open after the lexeme. -/
def parensAfter (parens : Nat) (l : Lexeme) : Nat :=
  if l.kind = .operator "(" then parens + 1
  else if l.kind = .operator ")" then parens - 1
  else parens

end Lexeme

/-- Where a statement stands. -/
structure Span where
  /-- The lexemes before its first token. -/
  before : List Lexeme
  /-- The lexeme that ends it; none at the end of the text. -/
  ending : Option Lexeme
  deriving Repr, DecidableEq

/-- The spans of the statements that end in the lexemes. `before` has the lexemes before these, and `start`
those before the first token of the statement that has started there. -/
def spansFrom (before : List Lexeme) (parens : Nat) (start : Option (List Lexeme)) : List Lexeme → List Span
  | [] => (start.map (⟨·, none⟩)).toList
  | l :: ls =>
    let parens' := l.parensAfter parens
    if l.ends parens then (start.map (⟨·, some l⟩)).toList ++ spansFrom (before ++ [l]) parens' none ls
    else if l.kind = .gap then spansFrom (before ++ [l]) parens' start ls
    else spansFrom (before ++ [l]) parens' (some (start.getD before)) ls

/-- The spans of the statements of a text. -/
def spans (o : Options) (source : String) : List Span := spansFrom [] 0 none (lexemes o "" source.toList)

/-- The opening braces among the lexemes without the closing ones. -/
def openBraces (ls : List Lexeme) : Int := ls.countP (·.kind = .opening) - ls.countP (·.kind = .closing)

/-- The line feeds in the lexemes. -/
def lineFeeds (ls : List Lexeme) : Nat := (ls.flatMap Lexeme.text).count '\n'

/-- The lexemes without the character literals. -/
def withoutCharacters (ls : List Lexeme) : List Lexeme := ls.filter (·.kind ≠ .character)

theorem openBraces_append (ls ls' : List Lexeme) : openBraces (ls ++ ls') = openBraces ls + openBraces ls' := by
  simp only [openBraces, List.countP_append]
  omega

theorem lineFeeds_append (ls ls' : List Lexeme) : lineFeeds (ls ++ ls') = lineFeeds ls + lineFeeds ls' := by
  simp [lineFeeds]

theorem withoutCharacters_append (ls ls' : List Lexeme) :
    withoutCharacters (ls ++ ls') = withoutCharacters ls ++ withoutCharacters ls' := List.filter_append ..

/-- The statement has the line, the depth and the ending of the span. -/
structure Statement.StandsAt (st : Statement) (span : Span) : Prop where
  line : st.line = 1 + lineFeeds (withoutCharacters span.before)
  depth : (st.depth : Int) = openBraces span.before - if span.ending.any (·.kind = .closing) then 1 else 0
  opensBlock : st.opensBlock = span.ending.any (·.kind = .opening)

/-! ## Steps of the scanner -/

namespace Scanner

variable {o : Options} {s s' t : Scanner}

/-- The line on which the statement that is being read has started, if it has. -/
def start? (s : Scanner) : Option Nat :=
  if !s.current.isEmpty then some s.currentLine
  else if !s.word.isEmpty then some s.wordLine
  else none

theorem start?_addChar (s : Scanner) (c : Char) : (s.addChar c).start? = some (s.start?.getD s.line) := by
  have hword : (s.word.push c).isEmpty = false := by simp
  unfold start? addChar
  simp only [hword]
  cases s.current.isEmpty <;> cases s.word.isEmpty <;> rfl

theorem start?_addToken (hword : s.word = "") (token : Token) (line : Nat) :
    (s.addToken token line).start? = some (s.start?.getD line) := by
  unfold start? addToken
  simp only [hword]
  cases hcurrent : s.current <;> simp

/-- Ending a word only turns it into a token. -/
structure Holds (s t : Scanner) : Prop where
  keeps : Keeps s t
  word : t.word = ""
  line : t.line = s.line
  parens : t.parens = s.parens
  start : t.start? = s.start?

theorem holds_endWord (h : s.endWord o = .ok t) : Holds s t := by
  have hkeeps := keeps_endWord h
  unfold endWord at h
  split at h
  · rename_i hword
    cases h
    exact ⟨hkeeps, String.isEmpty_iff.1 hword, rfl, rfl, rfl⟩
  · rename_i hword
    split at h
    · cases h
    · cases h
      refine ⟨hkeeps, rfl, rfl, rfl, ?_⟩
      unfold start? addToken
      cases s.current <;> simp [hword]

/-- The statement goes on, or starts on the scanner's line. -/
structure Grows (s t : Scanner) : Prop where
  keeps : Keeps s t
  start : t.start? = some (s.start?.getD s.line)

theorem Holds.grows (h : Holds s s') (h' : Grows s' t) : Grows s t :=
  ⟨h.keeps.trans h'.keeps, by rw [h'.start, h.start, h.line]⟩

theorem Grows.holds (h : Grows s s') (h' : Holds s' t) : Grows s t :=
  ⟨h.keeps.trans h'.keeps, h'.start.trans h.start⟩

theorem grows_addChar (s : Scanner) (c : Char) : Grows s (s.addChar c) := ⟨keeps_addChar s c, start?_addChar s c⟩

theorem grows_addToken (hword : s.word = "") (token : Token) : Grows s (s.addToken token s.line) :=
  ⟨keeps_addToken s token s.line, start?_addToken hword token s.line⟩

theorem Grows.addChar (h : Grows s t) (c : Char) : Grows s (t.addChar c) :=
  ⟨h.keeps.trans (keeps_addChar t c), by rw [start?_addChar, h.start]; rfl⟩

theorem Grows.foldl_addChar {cs : List Char} (h : Grows s t) : Grows s (cs.foldl Scanner.addChar t) := by
  induction cs generalizing t with
  | nil => exact h
  | cons c cs ih => exact ih (h.addChar c)

theorem foldl_addChar_eq (cs : List Char) (s : Scanner) :
    (cs.foldl addChar s).line = s.line ∧ (cs.foldl addChar s).parens = s.parens := by
  induction cs generalizing s with
  | nil => exact ⟨rfl, rfl⟩
  | cons c cs ih => exact ih (s.addChar c)

/-- A string literal advances the line by its line feeds. -/
theorem readString_grows {cs rest : List Char} (hs : Grows s t) (h : t.readString o cs = .ok (s', rest)) :
    Grows s s' ∧ s'.word = "" ∧ s'.parens = t.parens ∧ s'.line = t.line + (stringText cs).count '\n' := by
  fun_induction readString o t cs with
  | case1 => cases h
  | case2 => cases h
  | case3 t e cs value he ih =>
    have hnewline : e ≠ '\n' := by
      rintro rfl
      cases he
    rw [stringText, List.count_cons_of_ne (by decide), List.count_cons_of_ne hnewline]
    exact ih (hs.addChar value) h
  | case4 => cases h
  | case5 t cs hword hne t' =>
    cases h
    have hholds := holds_endWord ‹_›
    exact ⟨(hs.addChar '"').holds hholds, hholds.word, hholds.parens, by simp [stringText, hholds.line]; rfl⟩
  | case6 => cases h
  | case7 t cs _ _ _ ih =>
    have hline : Grows s { t with line := t.line + 1 } := ⟨⟨hs.keeps.depth, hs.keeps.finished⟩, hs.start⟩
    obtain ⟨hgrows, hword, hparens, hline⟩ := ih hline h
    refine ⟨hgrows, hword, hparens, ?_⟩
    rw [hline, stringText_cons (by decide)]
    simp
    omega
  | case8 t c cs hend hescape hquote hnewline ih =>
    rw [stringText_cons (ne_backslash hend hescape), if_neg hquote, List.count_cons_of_ne hnewline]
    exact ih (hs.addChar c) h

theorem operator_grows {op : Token} (h : s.operator o op = .ok t) :
    Grows s t ∧ t.word = "" ∧ t.line = s.line ∧
      t.parens = if op = "(" then s.parens + 1 else if op = ")" then s.parens - 1 else s.parens := by
  unfold operator at h
  dsimp only at h
  split at h
  · cases h
  split at h
  · cases h
  obtain ⟨s', hword, h⟩ := bind_eq_ok.1 h
  have hholds := holds_endWord hword
  obtain ⟨hkeeps, hstart⟩ := hholds.grows (grows_addToken hholds.word op)
  rw [← hholds.line, ← hholds.parens]
  split at h
  · rename_i hop
    cases h
    rw [if_pos hop]
    exact ⟨⟨⟨hkeeps.depth, hkeeps.finished⟩, hstart⟩, hholds.word, rfl, rfl⟩
  rename_i hop
  rw [if_neg hop]
  split at h
  · rename_i hop
    cases h
    rw [if_pos hop]
    exact ⟨⟨⟨hkeeps.depth, hkeeps.finished⟩, hstart⟩, hholds.word, rfl, rfl⟩
  · rename_i hop
    cases h
    rw [if_neg hop]
    exact ⟨⟨hkeeps, hstart⟩, hholds.word, rfl, rfl⟩

/-- A statement that has started ends with its line, at the scanner's depth. -/
structure Ends (s t : Scanner) (opensBlock : Bool) : Prop where
  word : t.word = ""
  line : t.line = s.line
  depth : t.depth = s.depth
  parens : t.parens = s.parens
  start : t.start? = none
  finished : ∃ ended : Option Statement, t.finished = s.finished ++ ended.toList ∧
    ended.map Statement.line = s.start? ∧ ∀ st ∈ ended, st.depth = s.depth ∧ st.opensBlock = opensBlock

theorem ends_endStatement {opensBlock : Bool} (h : s.endStatement o opensBlock = .ok t) : Ends s t opensBlock := by
  obtain ⟨s', hword, h⟩ := bind_eq_ok.1 h
  have hholds := holds_endWord hword
  obtain ⟨hdepth, hfinished⟩ := hholds.keeps
  have hempty : s'.word.isEmpty = true := by rw [hholds.word]; rfl
  split at h
  · rename_i hcurrent
    cases h
    have hstart : t.start? = none := by
      unfold start?
      rw [hcurrent, hempty]
      rfl
    refine ⟨hholds.word, hholds.line, hdepth, hholds.parens, hstart, none, by simp [hfinished], ?_, by simp⟩
    rw [← hholds.start, hstart]
    rfl
  · rename_i hcurrent
    cases h
    refine ⟨hholds.word, hholds.line, hdepth, hholds.parens, ?_, some _, by rw [hfinished]; rfl, ?_, ?_⟩
    · unfold start?
      simp [hempty]
    · rw [← hholds.start]
      unfold start?
      simp [hcurrent]
    · rintro st ⟨⟩
      exact ⟨hdepth, rfl⟩

/-- What a lexeme changes. -/
structure Follows (l : Lexeme) (s t : Scanner) : Prop where
  word : t.word = l.wordAfter s.word
  line : t.line = s.line + lineFeeds (withoutCharacters [l])
  depth : (t.depth : Int) = s.depth + openBraces [l]
  parens : t.parens = l.parensAfter s.parens
  start : t.start? =
    if l.ends s.parens then none else if l.kind = .gap then s.start? else some (s.start?.getD s.line)
  finished : ∃ ended : Option Statement, t.finished = s.finished ++ ended.toList ∧
    (ended.map Statement.line = if l.ends s.parens then s.start? else none) ∧
    ∀ st ∈ ended, (st.depth : Int) = s.depth - (if l.kind = .closing then 1 else 0) ∧
      st.opensBlock = decide (l.kind = .opening)

theorem lineFeeds_singleton {l : Lexeme} (h : '\n' ∉ l.text) : lineFeeds (withoutCharacters [l]) = 0 := by
  have hcount := List.count_eq_zero_of_not_mem h
  by_cases hl : l.kind = .character <;> simp [lineFeeds, withoutCharacters, hl, hcount]

theorem Follows.of_grows {l : Lexeme} (h : Grows s t) (hends : l.ends s.parens = false) (hgap : l.kind ≠ .gap)
    (hword : t.word = l.wordAfter s.word) (hline : t.line = s.line + lineFeeds (withoutCharacters [l]))
    (hbraces : openBraces [l] = 0) (hparens : t.parens = l.parensAfter s.parens) : Follows l s t := by
  obtain ⟨hdepth, hfinished⟩ := h.keeps
  refine ⟨hword, hline, by simp [hdepth, hbraces], hparens, ?_, none, by simp [hfinished], ?_, by simp⟩
  · simp [h.start, hends, hgap]
  · simp [hends]

theorem follows_openBlock {text : List Char} (htext : '\n' ∉ text) (h : s.openBlock o = .ok t) :
    Follows ⟨.opening, text⟩ s t := by
  unfold openBlock at h
  dsimp only at h
  split at h
  · cases h
  obtain ⟨s', hend, h⟩ := bind_eq_ok.1 h
  cases h
  obtain ⟨hword, hline, hdepth, hparens, hstart, ended, hfinished, hlines, hended⟩ := ends_endStatement hend
  refine ⟨hword, ?_, ?_, hparens, hstart, ended, hfinished, hlines, ?_⟩
  · rw [lineFeeds_singleton htext]
    exact hline
  · simp [hdepth, openBraces]
  · intro st hst
    simp [hended st hst]

/-- A closing brace is counted before the statement that it ends. -/
theorem follows_closeBlock {text : List Char} (htext : '\n' ∉ text) (h : s.closeBlock o = .ok t) :
    Follows ⟨.closing, text⟩ s t := by
  unfold closeBlock at h
  dsimp only at h
  split at h
  · cases h
  split at h
  · cases h
  rename_i hopen
  obtain ⟨s', hword, h⟩ := bind_eq_ok.1 h
  have hholds := holds_endWord hword
  obtain ⟨hword, hline, hdepth, hparens, hstart, ended, hfinished, hlines, hended⟩ := ends_endStatement h
  dsimp only at hline hdepth hparens hfinished hlines hended
  rw [hholds.keeps.depth] at hdepth hended
  refine ⟨hword, ?_, ?_, hparens.trans hholds.parens, hstart, ended, ?_, hlines.trans hholds.start, ?_⟩
  · rw [lineFeeds_singleton htext]
    exact hline.trans hholds.line
  · simp [hdepth, openBraces]
    omega
  · rw [hfinished, hholds.keeps.finished]
  · intro st hst
    simp [hended st hst]
    omega

theorem follows_semicolon (h : s.semicolon o = .ok t) : Follows ⟨.semicolon, [';']⟩ s t := by
  unfold semicolon at h
  have hbraces : openBraces [⟨.semicolon, [';']⟩] = 0 := by decide
  split at h
  · rename_i hparens
    have hends : Lexeme.ends s.parens ⟨.semicolon, [';']⟩ = true := by simp [Lexeme.ends, hparens]
    obtain ⟨hword, hline, hdepth, hparens, hstart, ended, hfinished, hlines, hended⟩ := ends_endStatement h
    refine ⟨hword, hline, ?_, hparens, ?_, ended, hfinished, ?_, ?_⟩
    · rw [hdepth, hbraces, Int.add_zero]
    · rw [hends, hstart]
      rfl
    · rw [hends, hlines]
      rfl
    · intro st hst
      simp [hended st hst]
  · rename_i hparens
    obtain ⟨s', hword, h⟩ := bind_eq_ok.1 h
    cases h
    have hholds := holds_endWord hword
    exact .of_grows (hholds.grows (grows_addToken hholds.word ";")) (by simp [Lexeme.ends, hparens]) nofun
      hholds.word hholds.line hbraces hholds.parens

theorem follows_of_reads {l : Lexeme} (h : s.Reads o l t) : Follows l s t := by
  cases h with
  | @gap t text h =>
    have hholds := holds_endWord h
    refine ⟨hholds.word, ?_, ?_, hholds.parens, hholds.start, none, ?_, rfl, by simp⟩
    · simp [hholds.line, lineFeeds, withoutCharacters]
    · simp [hholds.keeps.depth, openBraces]
    · simp [hholds.keeps.finished]
  | opening htext h => exact follows_openBlock htext h
  | closing htext h => exact follows_closeBlock htext h
  | semicolon h => exact follows_semicolon h
  | @string s' _ text rest hword hread =>
    have hholds := holds_endWord hword
    obtain ⟨hgrows, hword, hparens, hline⟩ := readString_grows (grows_addChar s' '"') hread
    have htext := readString_eq_ok hread
    rw [← List.append_cancel_right htext] at hline
    refine .of_grows (hholds.grows hgrows) rfl nofun hword ?_ rfl (hparens.trans hholds.parens)
    rw [hline]
    have hheld : (s'.addChar '"').line = s.line := hholds.line
    simp [hheld, lineFeeds, withoutCharacters]
  | character text value h =>
    have hholds := holds_endWord h
    exact .of_grows (hholds.grows (grows_addToken hholds.word _)) rfl nofun hholds.word hholds.line rfl hholds.parens
  | @fraction _ text htext h =>
    have hholds := holds_endWord h
    obtain ⟨hline, hparens⟩ := foldl_addChar_eq text (s.addChar '.')
    refine .of_grows ((grows_addChar s '.').foldl_addChar.holds hholds) rfl nofun hholds.word ?_ rfl
      (hholds.parens.trans hparens)
    rw [lineFeeds_singleton (by simp [htext])]
    exact hholds.line.trans hline
  | operator hop h =>
    obtain ⟨hgrows, hword, hline, hparens⟩ := operator_grows h
    have htext : ∀ op ∈ Token.operators, '\n' ∉ op.toList := by decide
    refine .of_grows hgrows rfl nofun hword ?_ rfl ?_
    · rw [lineFeeds_singleton (htext _ hop)]
      exact hline
    · simpa [Lexeme.parensAfter] using hparens
  | letter c htext =>
    refine .of_grows (grows_addChar s c) rfl nofun rfl ?_ rfl rfl
    rw [lineFeeds_singleton htext]
    rfl

/-! ## Whole texts -/

/-- The scanner is on the line and at the depth that the lexemes before lead to, and so is the start of the
statement that it reads. -/
structure Tracks (s : Scanner) (before : List Lexeme) (start : Option (List Lexeme)) : Prop where
  line : s.line = 1 + lineFeeds (withoutCharacters before)
  depth : (s.depth : Int) = openBraces before
  started : s.start? = start.map fun ls => 1 + lineFeeds (withoutCharacters ls)
  inside : ∀ ls ∈ start, openBraces ls = openBraces before

/-- The statement that ends, if one has started, stands at its span. -/
theorem Tracks.forall₂_ended {before : List Lexeme} {start : Option (List Lexeme)} {ended : Option Statement}
    {ending : Option Lexeme} (h : Tracks s before start) (hline : ended.map Statement.line = s.start?)
    (hended : ∀ st ∈ ended, (st.depth : Int) = s.depth - (if ending.any (·.kind = .closing) then 1 else 0) ∧
      st.opensBlock = ending.any (·.kind = .opening)) :
    List.Forall₂ Statement.StandsAt ended.toList (start.map (⟨·, ending⟩)).toList := by
  rw [h.started] at hline
  cases ended with
  | none =>
    cases start with
    | none => exact .nil
    | some ls => cases hline
  | some st =>
    cases start with
    | none => cases hline
    | some ls =>
      obtain ⟨hdepth, hopens⟩ := hended st rfl
      refine .cons ⟨Option.some.inj hline, ?_, hopens⟩ .nil
      rw [hdepth, h.depth, h.inside ls rfl]

theorem Tracks.step {before : List Lexeme} {start : Option (List Lexeme)} {l : Lexeme} (h : Tracks s before start)
    (hl : Follows l s t) : Tracks t (before ++ [l])
      (if l.ends s.parens then none else if l.kind = .gap then start else some (start.getD before)) := by
  have hbraces : l.ends s.parens = false → openBraces [l] = 0 := by
    intro hends
    cases hkind : l.kind <;> simp_all [Lexeme.ends, openBraces]
  refine ⟨?_, ?_, ?_, ?_⟩
  · rw [hl.line, h.line, withoutCharacters_append, lineFeeds_append]
    omega
  · rw [hl.depth, h.depth, openBraces_append]
  · rw [hl.start, h.started, h.line]
    split
    · rfl
    split
    · rfl
    · cases start <;> rfl
  · intro ls hls
    split at hls
    · cases hls
    rename_i hends
    rw [openBraces_append, hbraces (Bool.eq_false_iff.2 hends), Int.add_zero]
    split at hls
    · exact h.inside ls hls
    · cases hls
      cases start with
      | none => rfl
      | some ls => exact h.inside ls rfl

theorem Tracks.run {before : List Lexeme} {start : Option (List Lexeme)} {cs : List Char}
    {statements : List Statement} (h : Tracks s before start) (hrun : s.run o cs = .ok t)
    (hfinish : t.finish o = .ok statements) : ∃ more, statements = s.finished ++ more ∧
      List.Forall₂ Statement.StandsAt more (spansFrom before s.parens start (lexemes o s.word cs)) := by
  fun_induction Scanner.run o s cs generalizing before start with
  | case1 s =>
    cases hrun
    unfold finish at hfinish
    dsimp only at hfinish
    split at hfinish
    · cases hfinish
    obtain ⟨s', hend, hfinish⟩ := bind_eq_ok.1 hfinish
    split at hfinish
    · cases hfinish
    cases hfinish
    obtain ⟨ended, hfinished, hline, hended⟩ := (ends_endStatement hend).finished
    refine ⟨ended.toList, hfinished, ?_⟩
    rw [lexemes, spansFrom]
    refine h.forall₂_ended hline fun st hst => ?_
    simp [hended st hst]
  | case2 s c rest e hstep => cases hrun
  | case3 s c rest s' rest' hstep ih =>
    have hl := follows_of_reads (reads_of_step hstep).2
    obtain ⟨more, hmore, hspans⟩ := ih (h.step hl) hrun
    obtain ⟨ended, hfinished, hline, hended⟩ := hl.finished
    refine ⟨ended.toList ++ more, by rw [hmore, hfinished, List.append_assoc], ?_⟩
    rw [hl.word, hl.parens, rest_of_step hstep] at hspans
    rw [lexemes, spansFrom]
    generalize Lexeme.first o s.word c rest = l at *
    by_cases hends : l.ends s.parens = true
    · rw [if_pos hends] at hspans hline ⊢
      refine List.rel_append (h.forall₂_ended hline fun st hst => ?_) hspans
      simpa using hended st hst
    · rw [if_neg hends] at hspans hline ⊢
      have hnone : ended = none := Option.map_eq_none_iff.1 hline
      rw [hnone]
      by_cases hgap : l.kind = .gap
      · rw [if_pos hgap] at hspans ⊢
        exact hspans
      · rw [if_neg hgap] at hspans ⊢
        exact hspans

end Scanner

/-- The lexemes before a statement are the first ones of the text. -/
theorem before_isPrefix {span : Span} : ∀ {ls before : List Lexeme} {parens : Nat} {start : Option (List Lexeme)},
    (∀ b ∈ start, b <+: before) → span ∈ spansFrom before parens start ls → span.before <+: before ++ ls
  | [], before, _, start, hstart, h => by
    simp only [spansFrom, Option.mem_toList, Option.map_eq_some_iff] at h
    obtain ⟨b, hb, rfl⟩ := h
    exact (hstart b hb).trans (List.prefix_append ..)
  | l :: ls, before, parens, start, hstart, h => by
    have hnext (b : List Lexeme) (hb : b ∈ start) : b <+: before ++ [l] := (hstart b hb).trans (List.prefix_append ..)
    rw [List.append_cons]
    rw [spansFrom] at h
    split at h
    · rcases List.mem_append.1 h with h | h
      · simp only [Option.mem_toList, Option.map_eq_some_iff] at h
        obtain ⟨b, hb, rfl⟩ := h
        exact (hnext b hb).trans (List.prefix_append ..)
      · exact before_isPrefix (by simp) h
    split at h
    · exact before_isPrefix hnext h
    · refine before_isPrefix (fun b hb => ?_) h
      cases hb
      cases start with
      | none => exact List.prefix_append ..
      | some b => exact hnext b rfl

/-- Every statement of a text stands at its span, and the lexemes before it are the front of the text. -/
theorem standsAt_of_scan {o : Options} {source : String} {statements : List Statement}
    (h : Statement.scan o source = .ok statements) :
    List.Forall₂ (fun st span => span.before.flatMap Lexeme.text <+: source.toList ∧ st.StandsAt span) statements
      (spans o source) := by
  obtain ⟨s, hrun, hfinish⟩ := bind_eq_ok.1 h
  have hstart : Scanner.Tracks {} [] none := ⟨rfl, rfl, rfl, by simp⟩
  obtain ⟨more, rfl, hspans⟩ := hstart.run hrun hfinish
  have hfront : ∀ span ∈ spans o source, span.before.flatMap Lexeme.text <+: source.toList := by
    intro span hspan
    obtain ⟨after, hafter⟩ := before_isPrefix (by simp) hspan
    exact ⟨after.flatMap Lexeme.text, by rw [← List.flatMap_append, hafter, List.nil_append, flatMap_text_lexemes]⟩
  exact ((List.forall₂_and_left _ _).2 ⟨hfront, hspans.flip⟩).flip

/-! ## Depths -/

/-- The depth of a statement is the number of braces around its first token, less one if a closing brace ends
the statement. -/
theorem depth_eq_of_scan {o : Options} {source : String} {statements : List Statement}
    (h : Statement.scan o source = .ok statements) :
    List.Forall₂ (fun st span => span.before.flatMap Lexeme.text <+: source.toList ∧
      st.opensBlock = span.ending.any (·.kind = .opening) ∧
      (st.depth : Int) = openBraces span.before - if span.ending.any (·.kind = .closing) then 1 else 0)
      statements (spans o source) :=
  (standsAt_of_scan h).imp fun _ _ hst => ⟨hst.1, hst.2.opensBlock, hst.2.depth⟩

/-- Braces written as digraphs count, and those in a comment, a string literal or a character literal do
not. -/
theorem depth_eq_of_scan_digraph :
    let source := "while (x) <% /* \x7d */ a = \"\x7d\" + '\x7b'; if (y) \x7b b; %> \x7d c"
    let statements : List Statement := [⟨1, 0, ["while", "(", "x", ")"], true⟩,
      ⟨1, 1, ["a", "=", "\"\x7d\"", "+", "123"], false⟩, ⟨1, 1, ["if", "(", "y", ")"], true⟩,
      ⟨1, 2, ["b"], false⟩, ⟨1, 0, ["c"], false⟩]
    Statement.scan { digraphs := true } source = .ok statements ∧
      (spans { digraphs := true } source).map (openBraces ·.before) = [0, 1, 1, 2, 0] ∧
      List.Forall₂ (fun st span => (st.depth : Int) =
        openBraces span.before - if span.ending.any (·.kind = .closing) then 1 else 0)
        statements (spans { digraphs := true } source) := by
  intro source statements
  have hscan : Statement.scan { digraphs := true } source = .ok statements := by decide +kernel
  exact ⟨hscan, by decide +kernel, (depth_eq_of_scan hscan).imp fun _ _ hst => hst.2.2⟩

/-- A statement between braces without a semicolon after it is found outside of them. -/
theorem depth_of_unended :
    let source := "\x7b a \x7d"
    Statement.scan {} source = .ok [⟨1, 0, ["a"], false⟩] ∧
      (spans {} source).map (openBraces ·.before) = [1] := by
  decide +kernel

/-! ## Lines -/

theorem lineFeeds_eq_add (ls : List Lexeme) :
    lineFeeds ls = lineFeeds (withoutCharacters ls) + lineFeeds (ls.filter fun l => !decide (l.kind ≠ .character)) := by
  have hperm := List.filter_append_perm (fun l : Lexeme => decide (l.kind ≠ .character)) ls
  rw [← lineFeeds_append]
  exact ((hperm.flatMap_right Lexeme.text).count_eq '\n').symm

theorem lineFeeds_eq_zero (ls : List Lexeme) : lineFeeds ls = 0 ↔ ∀ l ∈ ls, '\n' ∉ l.text := by
  rw [lineFeeds, List.count_eq_zero]
  simp

/-- The line of a statement is one more than the number of line feeds before its first token that are not in
a character literal, so that it is the line of its first token exactly if none is in one. -/
theorem line_eq_of_scan {o : Options} {source : String} {statements : List Statement}
    (h : Statement.scan o source = .ok statements) :
    List.Forall₂ (fun st span => span.before.flatMap Lexeme.text <+: source.toList ∧
      st.line = 1 + lineFeeds (withoutCharacters span.before) ∧
      (st.line = 1 + lineFeeds span.before ↔ ∀ l ∈ span.before, l.kind = .character → '\n' ∉ l.text))
      statements (spans o source) := by
  refine (standsAt_of_scan h).imp fun st span ⟨hfront, hst⟩ => ⟨hfront, hst.line, ?_⟩
  rw [hst.line, lineFeeds_eq_add span.before, ← Nat.add_assoc, Nat.left_eq_add, lineFeeds_eq_zero]
  simp

/-- Line feeds in comments, in a string literal and between tokens. -/
theorem line_eq_of_scan_comments :
    let source := "// a\n/* b\n\n*/ s =\n\"c\nd\"; 'e';\n f"
    let statements : List Statement :=
      [⟨4, 0, ["s", "=", "\"cd\""], false⟩, ⟨6, 0, ["101"], false⟩, ⟨7, 0, ["f"], false⟩]
    Statement.scan {} source = .ok statements ∧
      List.Forall₂ (fun st span => st.line = 1 + lineFeeds (withoutCharacters span.before)) statements
        (spans {} source) := by
  intro source statements
  have hscan : Statement.scan {} source = .ok statements := by decide +kernel
  exact ⟨hscan, (line_eq_of_scan hscan).imp fun _ _ hst => hst.2.1⟩

/-- The line feed of a character literal does not advance the line. -/
theorem line_after_newline_character :
    let source := "'\n'; b"
    Statement.scan {} source = .ok [⟨1, 0, ["10"], false⟩, ⟨1, 0, ["b"], false⟩] ∧
      (spans {} source).map (1 + lineFeeds ·.before) = [1, 2] := by
  decide +kernel

end WordMachine.Cflat
