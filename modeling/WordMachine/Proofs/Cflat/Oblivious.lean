/-
The scanner does not look at the tokens that it has read, only at whether there are any. Two scanners that differ
in the first tokens of one statement read every text alike: they fail with the same error, or give statements
that differ in these tokens.
-/
import WordMachine.Proofs.Cflat.Lookahead

namespace WordMachine.Cflat

namespace Scanner

/-! ## Twins -/

/-- The scanners differ only in the first tokens of one statement, which are `xs` and `ys`. -/
inductive Twin (xs ys : List Token) : Scanner → Scanner → Prop where
  | reading (s : Scanner) (ts : List Token) :
    Twin xs ys { s with current := xs ++ ts } { s with current := ys ++ ts }
  | ended (s : Scanner) (before after : List Statement) (st : Statement) :
    Twin xs ys { s with finished := before ++ { st with tokens := xs ++ st.tokens } :: after }
      { s with finished := before ++ { st with tokens := ys ++ st.tokens } :: after }

/-- Tokens that two statements may start with, and tell them apart. -/
structure Fronts (xs ys : List Token) : Prop where
  left : xs ≠ []
  right : ys ≠ []
  ne : xs ≠ ys

/-- Both fail with the same error, or succeed with twins. -/
abbrev TwinOutcome (xs ys : List Token) : Except Error Scanner → Except Error Scanner → Prop :=
  SameOutcome (· = ·) (Twin xs ys)

/-- Both fail with the same error, or succeed with twins before the same text. -/
abbrev TwinStep (xs ys : List Token) : Except Error (Scanner × List Char) → Except Error (Scanner × List Char) → Prop :=
  SameOutcome (· = ·) fun p q => Twin xs ys p.1 q.1 ∧ p.2 = q.2

section

variable {o : Options} {xs ys : List Token} {a b : Scanner}

/-- The scanners agree in what a step may look at. -/
structure Agree (a b : Scanner) : Prop where
  line : a.line = b.line
  depth : a.depth = b.depth
  parens : a.parens = b.parens
  parenLine : a.parenLine = b.parenLine
  word : a.word = b.word
  wordLine : a.wordLine = b.wordLine

theorem Twin.agree (h : Twin xs ys a b) : Agree a b := by
  cases h <;> exact ⟨rfl, rfl, rfl, rfl, rfl, rfl⟩

/-- A change of other fields than the tokens and the statements. -/
theorem Twin.map (h : Twin xs ys a b) {f : Scanner → Scanner}
    (hcurrent : ∀ s ts, f { s with current := ts } = { f s with current := ts })
    (hfinished : ∀ s sts, f { s with finished := sts } = { f s with finished := sts }) : Twin xs ys (f a) (f b) := by
  cases h with
  | reading s ts =>
    rw [hcurrent s (xs ++ ts), hcurrent s (ys ++ ts)]
    exact .reading (f s) ts
  | ended s before after st =>
    rw [hfinished s (before ++ _ :: after), hfinished s (before ++ _ :: after)]
    exact .ended (f s) before after st

theorem Twin.addChar (h : Twin xs ys a b) (c : Char) : Twin xs ys (a.addChar c) (b.addChar c) :=
  h.map (f := (Scanner.addChar · c)) (fun _ _ => rfl) fun _ _ => rfl

theorem Twin.foldl_addChar (h : Twin xs ys a b) (cs : List Char) :
    Twin xs ys (cs.foldl Scanner.addChar a) (cs.foldl Scanner.addChar b) := by
  induction cs generalizing a b with
  | nil => exact h
  | cons c cs ih => exact ih (h.addChar c)

theorem TwinOutcome.bind_rest {x y : Except Error Scanner} (h : TwinOutcome xs ys x y) (rest : List Char) :
    TwinStep xs ys (x >>= fun s => .ok (s, rest)) (y >>= fun s => .ok (s, rest)) :=
  h.bind fun _ _ h => .ok ⟨h, rfl⟩

/-! ## Steps and runs -/

variable (hd : Fronts xs ys)

include hd

theorem Twin.addToken (h : Twin xs ys a b) (token : Token) (line : Nat) :
    Twin xs ys (a.addToken token line) (b.addToken token line) := by
  cases h with
  | reading s ts =>
    have hreading := @Twin.reading xs ys s (ts ++ [token])
    simpa [Scanner.addToken, hd.left, hd.right] using hreading
  | ended s before after st => exact .ended (s.addToken token line) before after st

theorem Twin.endWord (h : Twin xs ys a b) : TwinOutcome xs ys (a.endWord o) (b.endWord o) := by
  have hadd := h.addToken hd a.word a.wordLine
  unfold Scanner.endWord
  rw [← h.agree.word, ← h.agree.wordLine]
  split
  · exact .ok h
  split
  · exact .error rfl
  · exact .ok (hadd.map (f := fun s => { s with word := "" }) (fun _ _ => rfl) fun _ _ => rfl)

theorem Twin.finished_ne (h : Twin xs ys a b) (opensBlock : Bool) :
    SameOutcome (· = ·) (fun a b => Twin xs ys a b ∧ a.finished ≠ b.finished) (a.endStatement o opensBlock)
      (b.endStatement o opensBlock) := by
  refine (h.endWord hd).bind fun a b h => ?_
  cases h with
  | reading s ts =>
    -- both statements have tokens, so that both end here
    rw [if_neg (by simp [hd.left]), if_neg (by simp [hd.right])]
    refine .ok ⟨.ended { s with current := [] } s.finished [] ⟨s.currentLine, s.depth, ts, opensBlock⟩, ?_⟩
    simp [hd.ne]
  | ended s before after st =>
    dsimp only
    split
    · exact .ok ⟨.ended s before after st, by simp [hd.ne]⟩
    · refine .ok ⟨?_, by simp [hd.ne]⟩
      have hended := @Twin.ended xs ys { s with current := [] } before
        (after ++ [⟨s.currentLine, s.depth, s.current, opensBlock⟩]) st
      simpa using hended

theorem Twin.endStatement (h : Twin xs ys a b) (opensBlock : Bool) :
    TwinOutcome xs ys (a.endStatement o opensBlock) (b.endStatement o opensBlock) :=
  (h.finished_ne hd opensBlock).imp fun _ _ h => h.1

theorem Twin.openBlock (h : Twin xs ys a b) : TwinOutcome xs ys (a.openBlock o) (b.openBlock o) := by
  unfold Scanner.openBlock
  dsimp only
  rw [h.agree.parens, h.agree.parenLine]
  split
  · exact .error rfl
  · refine (h.endStatement hd true).bind fun a b h => .ok ?_
    exact h.map (f := fun s => { s with depth := s.depth + 1 }) (fun _ _ => rfl) fun _ _ => rfl

theorem Twin.closeBlock (h : Twin xs ys a b) : TwinOutcome xs ys (a.closeBlock o) (b.closeBlock o) := by
  unfold Scanner.closeBlock
  dsimp only
  rw [h.agree.parens, h.agree.parenLine, h.agree.depth, h.agree.line]
  by_cases hparens : 0 < b.parens
  · rw [if_pos hparens, if_pos hparens]
    exact .error rfl
  rw [if_neg hparens, if_neg hparens]
  by_cases hdepth : b.depth = 0
  · rw [if_pos hdepth, if_pos hdepth]
    exact .error rfl
  rw [if_neg hdepth, if_neg hdepth]
  refine (h.endWord hd).bind fun a b h => ?_
  have houter := h.map (f := fun s => { s with depth := s.depth - 1 }) (fun _ _ => rfl) fun _ _ => rfl
  exact houter.endStatement hd false

theorem Twin.semicolon (h : Twin xs ys a b) : TwinOutcome xs ys (a.semicolon o) (b.semicolon o) := by
  unfold Scanner.semicolon
  rw [h.agree.parens]
  split
  · exact h.endStatement hd false
  · refine (h.endWord hd).bind fun a b h => .ok ?_
    rw [h.agree.line]
    exact h.addToken hd ";" b.line

theorem Twin.operator (h : Twin xs ys a b) (op : Token) : TwinOutcome xs ys (a.operator o op) (b.operator o op) := by
  unfold Scanner.operator
  dsimp only
  rw [h.agree.parens, h.agree.line]
  by_cases hstep : op = "++" ∨ op = "--"
  · rw [if_pos hstep, if_pos hstep]
    exact .error rfl
  rw [if_neg hstep, if_neg hstep]
  by_cases hclose : op = ")" ∧ b.parens = 0
  · rw [if_pos hclose, if_pos hclose]
    exact .error rfl
  rw [if_neg hclose, if_neg hclose]
  refine (h.endWord hd).bind fun a b h => ?_
  have hadd := h.addToken hd op a.line
  rw [← h.agree.line]
  by_cases hop : op = "("
  · rw [if_pos hop, if_pos hop]
    refine .ok (hadd.map (f := fun s => { s with
      parens := s.parens + 1, parenLine := if s.parens = 0 then s.line else s.parenLine }) ?_ ?_)
    · exact fun _ _ => rfl
    · exact fun _ _ => rfl
  rw [if_neg hop, if_neg hop]
  by_cases hop : op = ")"
  · rw [if_pos hop, if_pos hop]
    exact .ok (hadd.map (f := fun s => { s with parens := s.parens - 1 }) (fun _ _ => rfl) fun _ _ => rfl)
  rw [if_neg hop, if_neg hop]
  exact .ok hadd

theorem Twin.readString (h : Twin xs ys a b) (cs : List Char) :
    TwinStep xs ys (a.readString o cs) (b.readString o cs) := by
  fun_induction Scanner.readString o a cs generalizing b with
  | case1 a =>
    rw [h.agree.wordLine]
    exact .error rfl
  | case2 a =>
    rw [h.agree.wordLine]
    exact .error rfl
  | case3 a e cs value he ih =>
    rw [Scanner.readString, he]
    exact ih (h.addChar value)
  | case4 a e cs he =>
    rw [Scanner.readString, he, h.agree.line]
    exact .error rfl
  | case5 a cs t hword =>
    have hend := ((h.addChar '"').endWord (o := o) hd).bind_rest cs
    rw [hword] at hend
    rw [readString_quote]
    exact hend
  | case6 a cs e hword =>
    have hend := ((h.addChar '"').endWord (o := o) hd).bind_rest cs
    rw [hword] at hend
    rw [readString_quote]
    exact hend
  | case7 a cs _ _ _ ih =>
    rw [readString_newline]
    exact ih (h.map (f := fun s => { s with line := s.line + 1 }) (fun _ _ => rfl) fun _ _ => rfl)
  | case8 a c cs hend hescape hquote hnewline ih =>
    have hc := ne_backslash hend hescape
    rw [readString_char (by simp [hc, hquote, hnewline])]
    exact ih (h.addChar c)

theorem Twin.stepPlain (h : Twin xs ys a b) (c : Char) (rest : List Char) :
    TwinStep xs ys (a.stepPlain o c rest) (b.stepPlain o c rest) := by
  have hend := h.endWord (o := o) hd
  unfold Scanner.stepPlain
  by_cases hc : c = '\n'
  · rw [if_pos hc, if_pos hc]
    refine hend.bind fun a b h => .ok ⟨?_, rfl⟩
    exact h.map (f := fun s => { s with line := s.line + 1 }) (fun _ _ => rfl) fun _ _ => rfl
  rw [if_neg hc, if_neg hc]
  by_cases hc : Text.isBlank c = true
  · rw [if_pos hc, if_pos hc]
    exact hend.bind_rest rest
  rw [if_neg hc, if_neg hc]
  by_cases hc : c = '\x7b'
  · rw [if_pos hc, if_pos hc]
    exact (h.openBlock hd).bind_rest rest
  rw [if_neg hc, if_neg hc]
  by_cases hc : c = '\x7d'
  · rw [if_pos hc, if_pos hc]
    exact (h.closeBlock hd).bind_rest rest
  rw [if_neg hc, if_neg hc]
  by_cases hc : c = ';'
  · rw [if_pos hc, if_pos hc]
    exact (h.semicolon hd).bind_rest rest
  rw [if_neg hc, if_neg hc]
  by_cases hc : c = '"'
  · rw [if_pos hc, if_pos hc]
    exact hend.bind fun a b h => (h.addChar '"').readString hd rest
  rw [if_neg hc, if_neg hc]
  by_cases hc : c = '\x27'
  · rw [if_pos hc, if_pos hc]
    cases readCharacter rest with
    | error fault =>
      rw [h.agree.line]
      exact .error rfl
    | ok read =>
      refine hend.bind fun a b h => .ok ⟨?_, rfl⟩
      rw [h.agree.line]
      exact h.addToken hd _ b.line
  rw [if_neg hc, if_neg hc, h.agree.word]
  by_cases hc : c = '.' ∧ isDecimalPoint b.word rest = true
  · rw [if_pos hc, if_pos hc]
    exact (((h.addChar '.').foldl_addChar _).endWord hd).bind_rest _
  rw [if_neg hc, if_neg hc]
  cases operatorAt? (c :: rest) with
  | none => exact .ok ⟨h.addChar c, rfl⟩
  | some op => exact (h.operator hd op).bind_rest _

theorem Twin.step (h : Twin xs ys a b) (c : Char) (rest : List Char) :
    TwinStep xs ys (a.step o c rest) (b.step o c rest) := by
  have hend := h.endWord (o := o) hd
  unfold Scanner.step
  by_cases hline : c = '/' ∧ rest.head? = some '/'
  · rw [if_pos hline, if_pos hline]
    exact hend.bind_rest _
  rw [if_neg hline, if_neg hline]
  by_cases hblock : c = '/' ∧ rest.head? = some '*'
  · rw [if_pos hblock, if_pos hblock]
    refine hend.bind fun a b h => ?_
    rw [h.agree.line]
    cases skipComment b.line (rest.drop 1) with
    | error e => exact .error rfl
    | ok skipped =>
      exact .ok ⟨h.map (f := fun s => { s with line := skipped.1 }) (fun _ _ => rfl) fun _ _ => rfl, rfl⟩
  rw [if_neg hblock, if_neg hblock]
  by_cases hstray : c = '*' ∧ rest.head? = some '/'
  · rw [if_pos hstray, if_pos hstray, h.agree.line]
    exact .error rfl
  rw [if_neg hstray, if_neg hstray]
  cases (if o.digraphs then rest.head?.bind (digraph? c) else none) with
  | none => exact h.stepPlain hd c rest
  | some image =>
    dsimp only
    split
    · exact (h.openBlock hd).bind_rest _
    split
    · exact (h.closeBlock hd).bind_rest _
    · exact .ok ⟨h.addChar image, rfl⟩

theorem Twin.run (h : Twin xs ys a b) (cs : List Char) :
    TwinOutcome xs ys (a.run o cs) (b.run o cs) := by
  fun_induction Scanner.run o a cs generalizing b with
  | case1 a =>
    rw [Scanner.run]
    exact .ok h
  | case2 a c rest e hstep =>
    obtain ⟨_, hstep', rfl⟩ := (h.step hd c rest).exists_error hstep
    rw [run_cons, hstep']
    exact .error rfl
  | case3 a c rest a' rest' hstep ih =>
    obtain ⟨⟨b', _⟩, hstep', htwin, rfl⟩ := (h.step hd c rest).exists_ok hstep
    rw [run_cons, hstep']
    exact ih htwin

theorem Twin.finish (h : Twin xs ys a b) :
    SameOutcome (· = ·) (· ≠ ·) (a.finish o) (b.finish o) := by
  unfold Scanner.finish
  dsimp only
  rw [h.agree.parens, h.agree.parenLine]
  split
  · exact .error rfl
  refine (h.finished_ne hd false).bind fun a b h => ?_
  rw [h.1.agree.depth, h.1.agree.line]
  split
  · exact .error rfl
  · exact .ok h.2

/-- Twins fail with the same error, or give other statements. -/
theorem Twin.scanRest (h : Twin xs ys a b) (cs : List Char) :
    SameOutcome (· = ·) (· ≠ ·) (a.scanRest o cs) (b.scanRest o cs) :=
  (h.run hd cs).bind fun _ _ h => h.finish hd

end

end Scanner

end WordMachine.Cflat
