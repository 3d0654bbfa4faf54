/-
Where the characters of a text go. In a text without comments, literals in quotes and digraphs, every character
but the blanks, the braces and the semicolons outside of parentheses is in a token, and the tokens have no other
characters.
-/
import WordMachine.Proofs.Cflat.TokenForms

namespace WordMachine.Cflat

/-! ## The characters of tokens -/

/-- The number of parentheses that are open after the character. -/
def parensAt (parens : Nat) (c : Char) : Nat :=
  if c = '(' then parens + 1 else if c = ')' then parens - 1 else parens

/-- The text without its blanks, its braces and its semicolons outside of parentheses, where so many
parentheses are open before it. -/
def kept (parens : Nat) : List Char → List Char
  | [] => []
  | c :: cs =>
    if Text.isBlank c ∨ c = '\x7b' ∨ c = '\x7d' ∨ (c = ';' ∧ parens = 0) then kept parens cs
    else c :: kept (parensAt parens c) cs

/-- Is the character kept everywhere and no parenthesis? -/
def isPlainChar (c : Char) : Bool := !Text.isBlank c && !(['\x7b', '\x7d', ';', '(', ')'].contains c)

theorem kept_cons {parens : Nat} {c : Char} (hblank : Text.isBlank c = false) (hbrace : c ≠ '\x7b' ∧ c ≠ '\x7d')
    (hsemicolon : ¬(c = ';' ∧ parens = 0)) (cs : List Char) :
    kept parens (c :: cs) = c :: kept (parensAt parens c) cs := by
  rw [kept, if_neg]
  simp [hblank, hbrace, hsemicolon]

theorem parensAt_of_isDropped {parens : Nat} {c : Char}
    (h : Text.isBlank c ∨ c = '\x7b' ∨ c = '\x7d' ∨ (c = ';' ∧ parens = 0)) : parensAt parens c = parens := by
  have hopen : c ≠ '(' := by
    rintro rfl
    revert h
    simp [show Text.isBlank '(' = false by decide]
  have hclose : c ≠ ')' := by
    rintro rfl
    revert h
    simp [show Text.isBlank ')' = false by decide]
  simp [parensAt, hopen, hclose]

theorem kept_append (parens : Nat) (cs ds : List Char) :
    kept parens (cs ++ ds) = kept parens cs ++ kept (cs.foldl parensAt parens) ds := by
  induction cs generalizing parens with
  | nil => rfl
  | cons c cs ih =>
    rw [List.cons_append, kept, kept, List.foldl_cons]
    split
    · rename_i hc
      rw [parensAt_of_isDropped hc, ih]
    · rw [ih, List.cons_append]

theorem kept_of_isPlainChar {cs : List Char} (h : ∀ c ∈ cs, isPlainChar c = true) (parens : Nat) :
    kept parens cs = cs ∧ cs.foldl parensAt parens = parens := by
  induction cs with
  | nil => exact ⟨rfl, rfl⟩
  | cons c cs ih =>
    rw [List.forall_mem_cons] at h
    obtain ⟨hc, hcs⟩ := h
    simp only [isPlainChar, Bool.and_eq_true, Bool.not_eq_true', List.contains_eq_mem, decide_eq_false_iff_not,
      List.mem_cons, List.not_mem_nil, or_false, not_or] at hc
    obtain ⟨hblank, hopen, hclose, hsemicolon, hparen, hparen'⟩ := hc
    have hparens : parensAt parens c = parens := by simp [parensAt, hparen, hparen']
    obtain ⟨hkept, hfold⟩ := ih hcs
    rw [kept_cons hblank ⟨hopen, hclose⟩ (by simp [hsemicolon]), List.foldl_cons, hparens]
    exact ⟨congrArg (c :: ·) hkept, hfold⟩

/-! ## Lexemes without quotes, comments and digraphs -/

/-- A lexeme that is written as it is read. -/
inductive Lexeme.Verbatim : Lexeme → Prop where
  | blank {c : Char} (h : Text.isBlank c = true) : Verbatim ⟨.gap, [c]⟩
  | opening : Verbatim ⟨.opening, ['\x7b']⟩
  | closing : Verbatim ⟨.closing, ['\x7d']⟩
  | semicolon : Verbatim ⟨.semicolon, [';']⟩
  | fraction {text : List Char} (h : ∀ c ∈ text, isPlainChar c = true) : Verbatim ⟨.fraction, text⟩
  | operator {op : Token} (h : op ∈ Token.operators) : Verbatim ⟨.operator op, op.toList⟩
  | letter {c : Char} (h : isPlainChar c = true) : Verbatim ⟨.letter c, [c]⟩

/-- Characters of a kind that has no blanks and none of these. -/
theorem isPlainChar_of {p : Char → Bool} {c : Char} (hmarks : ['\x7b', '\x7d', ';', '(', ')'].all (!p ·) = true)
    (hblank : Text.isBlank c = false) (h : p c = true) : isPlainChar c = true := by
  simp only [isPlainChar, hblank, Bool.not_false, Bool.true_and, Bool.not_eq_true', List.contains_eq_mem,
    decide_eq_false_iff_not]
  intro hmem
  simpa [h] using List.all_eq_true.1 hmarks c hmem

theorem isPlainChar_of_continuesFraction {previous c : Char} (h : continuesFraction previous c = true) :
    isPlainChar c = true := by
  refine isPlainChar_of (p := continuesFraction previous) rfl ?_ h
  by_contra hblank
  rw [Bool.not_eq_false] at hblank
  simp [continuesFraction_isBlank hblank] at h

theorem isPlainChar_splitFraction (previous : Char) (cs : List Char) :
    ∀ c ∈ (splitFraction previous cs).1, isPlainChar c = true := by
  induction cs generalizing previous with
  | nil => simp [splitFraction]
  | cons d cs ih =>
    rw [splitFraction]
    split
    · rename_i hd
      exact List.forall_mem_cons.2 ⟨isPlainChar_of_continuesFraction hd, ih d⟩
    · simp

theorem isPlainChar_of_isWordChar {c : Char} (h : isWordChar c = true) : isPlainChar c = true :=
  isPlainChar_of (by decide) (isWordChar_iff.1 h).1 h

/-- The text has no quotes, and no comment starts in it. -/
structure Bare (cs : List Char) : Prop where
  quotes : '"' ∉ cs ∧ '\x27' ∉ cs
  comments : ¬['/', '/'] <:+: cs ∧ ¬['/', '*'] <:+: cs

theorem Bare.of_suffix {cs ds : List Char} (h : Bare cs) (hds : ds <:+ cs) : Bare ds :=
  ⟨⟨fun hmem => h.quotes.1 (hds.mem hmem), fun hmem => h.quotes.2 (hds.mem hmem)⟩,
    fun hfound => h.comments.1 (hfound.trans hds.isInfix), fun hfound => h.comments.2 (hfound.trans hds.isInfix)⟩

theorem Bare.head?_ne {c : Char} {rest : List Char} (h : Bare (c :: rest)) :
    ¬(c = '/' ∧ rest.head? = some '/') ∧ ¬(c = '/' ∧ rest.head? = some '*') := by
  constructor
  · rintro ⟨rfl, hrest⟩
    obtain ⟨rest, rfl⟩ := List.head?_eq_some_iff.1 hrest
    exact h.comments.1 (List.prefix_append ['/', '/'] rest).isInfix
  · rintro ⟨rfl, hrest⟩
    obtain ⟨rest, rfl⟩ := List.head?_eq_some_iff.1 hrest
    exact h.comments.2 (List.prefix_append ['/', '*'] rest).isInfix

namespace Lexeme

theorem verbatim_plain {c : Char} {rest : List Char} (hquotes : c ≠ '"' ∧ c ≠ '\x27') (word : String) :
    (plain word c rest).Verbatim := by
  have hsuits := suits_plain word c rest
  unfold plain at hsuits ⊢
  split
  · exact .blank ‹_›
  rename_i hblank
  rw [if_neg hblank] at hsuits
  split
  · subst c
    exact .opening
  rename_i hopen
  rw [if_neg hopen] at hsuits
  split
  · subst c
    exact .closing
  rename_i hclose
  rw [if_neg hclose] at hsuits
  split
  · subst c
    exact .semicolon
  rename_i hsemicolon
  rw [if_neg hsemicolon, if_neg hquotes.1, if_neg hquotes.2] at hsuits
  rw [if_neg hquotes.1, if_neg hquotes.2]
  split
  · rename_i hpoint
    rw [hpoint.1]
    exact .fraction (List.forall_mem_cons.2 ⟨by decide, isPlainChar_splitFraction '.' rest⟩)
  rename_i hpoint
  rw [if_neg hpoint] at hsuits
  cases hop : operatorAt? (c :: rest) with
  | some op => exact .operator (operatorAt?_eq_some hop).1
  | none =>
    rw [hop] at hsuits
    exact .letter (isPlainChar_of_isWordChar hsuits)

theorem verbatim_first {o : Options} {c : Char} {rest : List Char} (ho : o.digraphs = false) (h : Bare (c :: rest))
    (word : String) : (first o word c rest).Verbatim := by
  have hquotes : c ≠ '"' ∧ c ≠ '\x27' :=
    ⟨fun hc => h.quotes.1 (by simp [hc]), fun hc => h.quotes.2 (by simp [hc])⟩
  have hplain : first o word c rest = plain word c rest := by
    unfold first
    rw [if_neg h.head?_ne.1, if_neg h.head?_ne.2, ho]
    rfl
  rw [hplain]
  exact verbatim_plain hquotes word

end Lexeme

/-! ## Steps of the scanner -/

namespace Scanner

variable {o : Options} {s t : Scanner}

/-- The characters of the tokens that have been read, and of the word that is being read. -/
def written (s : Scanner) : List Char :=
  (s.finished.flatMap Statement.tokens ++ s.current).flatMap String.toList ++ s.word.toList

theorem written_addChar (s : Scanner) (c : Char) : (s.addChar c).written = s.written ++ [c] := by
  simp [written, addChar]

theorem written_foldl_addChar (s : Scanner) (cs : List Char) : (cs.foldl addChar s).written = s.written ++ cs := by
  induction cs generalizing s with
  | nil => simp
  | cons c cs ih => rw [List.foldl_cons, ih, written_addChar, List.append_assoc, List.singleton_append]

theorem written_addToken (hword : s.word = "") (token : Token) (line : Nat) :
    (s.addToken token line).written = s.written ++ token.toList := by
  simp [written, addToken, hword]

theorem written_endWord (h : s.endWord o = .ok t) : t.written = s.written := by
  rcases endWord_eq_ok h with ⟨-, rfl⟩ | ⟨-, -, rfl⟩
  · rfl
  · simp [written, addToken]

theorem written_endStatement {opensBlock : Bool} (h : s.endStatement o opensBlock = .ok t) : t.written = s.written := by
  obtain ⟨s', hword, h⟩ := bind_eq_ok.1 h
  rw [← written_endWord hword]
  split at h
  · cases h
    rfl
  · cases h
    simp [written]

theorem written_openBlock (h : s.openBlock o = .ok t) : t.written = s.written := by
  unfold openBlock at h
  dsimp only at h
  split at h
  · cases h
  obtain ⟨s', hend, h⟩ := bind_eq_ok.1 h
  have hwritten := written_endStatement hend
  cases h
  exact hwritten

theorem written_closeBlock (h : s.closeBlock o = .ok t) : t.written = s.written := by
  unfold closeBlock at h
  dsimp only at h
  split at h
  · cases h
  split at h
  · cases h
  obtain ⟨s', hword, h⟩ := bind_eq_ok.1 h
  have hwritten := written_endStatement h
  rw [← written_endWord hword]
  exact hwritten

theorem written_semicolon (h : s.semicolon o = .ok t) : t.written = s.written ++ kept s.parens [';'] := by
  unfold semicolon at h
  split at h
  · rename_i hparens
    rw [written_endStatement h, hparens]
    simp [kept]
  · rename_i hparens
    obtain ⟨s', hword, h⟩ := bind_eq_ok.1 h
    cases h
    rw [written_addToken (holds_endWord hword).word, written_endWord hword, kept_cons (by decide) (by decide)
      (fun h => hparens h.2)]
    rfl

theorem written_operator {op : Token} (h : s.operator o op = .ok t) : t.written = s.written ++ op.toList := by
  unfold operator at h
  dsimp only at h
  split at h
  · cases h
  split at h
  · cases h
  obtain ⟨s', hword, h⟩ := bind_eq_ok.1 h
  have hwritten := written_addToken (holds_endWord hword).word op s'.line
  rw [written_endWord hword] at hwritten
  split at h
  · cases h
    exact hwritten
  split at h
  · cases h
    exact hwritten
  · cases h
    exact hwritten

/-- A parenthesis is an operator by itself. -/
theorem kept_operator {op : Token} (h : op ∈ Token.operators) (parens : Nat) :
    kept parens op.toList = op.toList ∧
      op.toList.foldl parensAt parens = Lexeme.parensAfter parens ⟨.operator op, op.toList⟩ := by
  have hall : ∀ op ∈ Token.operators, op = "(" ∨ op = ")" ∨ op.toList.all isPlainChar = true := by decide
  rcases hall op h with rfl | rfl | hplain
  · exact ⟨kept_cons (by decide) (by decide) (fun h => absurd h.1 (by decide)) [], rfl⟩
  · exact ⟨kept_cons (by decide) (by decide) (fun h => absurd h.1 (by decide)) [], rfl⟩
  · obtain ⟨hkept, hfold⟩ := kept_of_isPlainChar (List.all_eq_true.1 hplain) parens
    refine ⟨hkept, hfold.trans ?_⟩
    have hopen : op ≠ "(" := by
      rintro rfl
      cases hplain
    have hclose : op ≠ ")" := by
      rintro rfl
      cases hplain
    simp [Lexeme.parensAfter, hopen, hclose]

/-- A step writes what is kept of its lexeme. -/
theorem written_of_reads {l : Lexeme} (h : s.Reads o l t) (hl : l.Verbatim) :
    t.written = s.written ++ kept s.parens l.text ∧ t.parens = l.text.foldl parensAt s.parens := by
  have hparens := (follows_of_reads h).parens
  cases hl with
  | @blank c hblank =>
    cases h with
    | gap _ h =>
      have hdrop : Text.isBlank c ∨ c = '\x7b' ∨ c = '\x7d' ∨ (c = ';' ∧ s.parens = 0) := .inl hblank
      have hkept : kept s.parens [c] = [] := by simp [kept, hblank]
      have hwritten := written_endWord h
      rw [hkept, List.append_nil]
      exact ⟨hwritten, hparens.trans (parensAt_of_isDropped hdrop).symm⟩
  | opening =>
    cases h with
    | opening _ h => exact ⟨by simpa [kept] using written_openBlock h, hparens⟩
  | closing =>
    cases h with
    | closing _ h => exact ⟨by simpa [kept] using written_closeBlock h, hparens⟩
  | semicolon =>
    cases h with
    | semicolon h => exact ⟨written_semicolon h, hparens⟩
  | fraction hplain =>
    obtain ⟨hkept, hfold⟩ := kept_of_isPlainChar hplain s.parens
    rw [hkept, hfold]
    refine ⟨?_, hparens⟩
    cases h with
    | fraction _ h =>
      rw [written_endWord h, written_foldl_addChar, written_addChar, List.append_assoc, List.singleton_append]
  | operator hop =>
    obtain ⟨hkept, hfold⟩ := kept_operator hop s.parens
    rw [hkept, hfold]
    refine ⟨?_, hparens⟩
    cases h with
    | operator _ h => exact written_operator h
  | @letter c hplain =>
    obtain ⟨hkept, hfold⟩ := kept_of_isPlainChar (List.forall_mem_singleton.2 hplain) s.parens
    rw [hkept, hfold]
    refine ⟨?_, hparens⟩
    cases h with
    | letter => exact written_addChar s c

theorem written_run {cs : List Char} (ho : o.digraphs = false) (hcs : Bare cs) (h : s.run o cs = .ok t) :
    t.written = s.written ++ kept s.parens cs := by
  fun_induction run o s cs with
  | case1 s =>
    cases h
    simp [kept]
  | case2 s c rest e hstep => cases h
  | case3 s c rest s' rest' hstep ih =>
    obtain ⟨htext, hreads⟩ := reads_of_step hstep
    obtain ⟨hwritten, hparens⟩ := written_of_reads hreads (Lexeme.verbatim_first ho hcs s.word)
    rw [ih (hcs.of_suffix ⟨_, htext⟩) h, hwritten, hparens, List.append_assoc, ← kept_append, htext]

theorem written_finish {statements : List Statement} (h : s.finish o = .ok statements) :
    (statements.flatMap Statement.tokens).flatMap String.toList = s.written := by
  unfold finish at h
  dsimp only at h
  split at h
  · cases h
  obtain ⟨s', hend, h⟩ := bind_eq_ok.1 h
  split at h
  · cases h
  cases h
  have hends := ends_endStatement hend
  have hcurrent : s'.current = [] := by
    have hstart := hends.start
    unfold start? at hstart
    cases hcurrent : s'.current with
    | nil => rfl
    | cons t ts => simp [hcurrent] at hstart
  rw [← written_endStatement hend]
  simp [written, hcurrent, hends.word]

end Scanner

/-- The tokens of a text without quotes and comments, where digraphs are not read, have the characters of the
text that are no blanks, braces or semicolons outside of parentheses, in the same order. -/
theorem join_tokens_of_scan {o : Options} {source : String} {statements : List Statement} (ho : o.digraphs = false)
    (hsource : Bare source.toList) (h : Statement.scan o source = .ok statements) :
    String.join (statements.flatMap Statement.tokens) = String.ofList (kept 0 source.toList) := by
  obtain ⟨s, hrun, hfinish⟩ := bind_eq_ok.1 h
  rw [← String.toList_inj, String.toList_join, String.toList_ofList, Scanner.written_finish hfinish,
    Scanner.written_run ho hsource hrun]
  rfl

/-- Semicolons between parentheses are kept. -/
theorem join_tokens_of_scan_loop :
    let source := "for (i = 0; i < n;\ti += 1) \x7b s = s+1.5e-3f;\n \x7d ;"
    let statements : List Statement :=
      [⟨1, 0, ["for", "(", "i", "=", "0", ";", "i", "<", "n", ";", "i", "+=", "1", ")"], true⟩,
        ⟨1, 1, ["s", "=", "s", "+", "1.5e-3f"], false⟩]
    Statement.scan {} source = .ok statements ∧ String.ofList (kept 0 source.toList) = "for(i=0;i<n;i+=1)s=s+1.5e-3f" ∧
      String.join (statements.flatMap Statement.tokens) = String.ofList (kept 0 source.toList) := by
  intro source statements
  have hscan : Statement.scan {} source = .ok statements := by decide +kernel
  have hsource : Bare source.toList := ⟨by decide +kernel, by decide +kernel⟩
  exact ⟨hscan, by decide +kernel, join_tokens_of_scan rfl hsource hscan⟩

end WordMachine.Cflat
