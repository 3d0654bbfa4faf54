/-
Comments and blanks. A comment that the scanner skips may be replaced by blanks, with one exception: a point
between digits and a comment is an operator, and between digits and a blank it is a part of the number.
-/
import WordMachine.Proofs.Cflat.Oblivious

namespace WordMachine.Cflat

/-! ## Comments -/

/-- A comment before the text `after`, and the blanks in its place: none for a line comment, and a space and the
line feeds of the comment for a block comment. -/
inductive Comment : (text after blanks : List Char) → Prop where
  | line {body after : List Char} (hbody : '\n' ∉ body) (hafter : ∀ c ∈ after.head?, c = '\n') :
    Comment ('/' :: '/' :: body) after []
  | block {body : List Char} (after : List Char) (hbody : ¬['*', '/'] <:+: body ++ ['*']) :
    Comment ('/' :: '*' :: body ++ ['*', '/']) after (' ' :: List.replicate (body.count '\n') '\n')

section

variable {text after blanks : List Char} (h : Comment text after blanks)

include h

theorem Comment.exists_text : ∃ rest, text = '/' :: rest := by
  cases h with
  | line => exact ⟨_, rfl⟩
  | block => exact ⟨_, rfl⟩

theorem Comment.head?_eq (rest : List Char) : (text ++ rest).head? = some '/' := by
  obtain ⟨text, rfl⟩ := h.exists_text
  rfl

theorem Comment.endsWord : EndsWord (blanks ++ after) := by
  cases h with
  | line _ hafter => exact fun c hc => .inr (hafter c hc)
  | block =>
    rintro c ⟨⟩
    exact .inl rfl

end

theorem skipComment_body {body : List Char} (h : ¬['*', '/'] <:+: body ++ ['*']) (line : Nat) (after : List Char) :
    skipComment line (body ++ '*' :: '/' :: after) = .ok (line + body.count '\n', after) := by
  induction body generalizing line with
  | nil => simp [skipComment]
  | cons c body ih =>
    have hc : ¬(c = '*' ∧ (body ++ '*' :: '/' :: after).head? = some '/') := by
      rintro ⟨rfl, hhead⟩
      cases body with
      | nil => simp at hhead
      | cons d body =>
        simp only [List.cons_append, List.head?_cons, Option.some.injEq] at hhead
        exact h (hhead ▸ (List.prefix_append ['*', '/'] (body ++ ['*'])).isInfix)
    rw [List.cons_append, skipComment, if_neg hc, ih fun hfound => h (hfound.trans (List.suffix_cons ..).isInfix),
      List.count_cons]
    by_cases hnewline : c = '\n' <;> simp [hnewline]; omega

namespace Scanner

variable {o : Options} {s s' t : Scanner} {c : Char} {text after blanks rest rest' front front' X X' : List Char}

/-! ## The text before a comment -/

theorem endsLexeme_of_slash (h : X.head? = some '/') : EndsLexeme X := by
  constructor
  · intro c hc previous
    rw [Option.mem_def, h, Option.some.injEq] at hc
    rw [← hc]
    rfl
  · intro c hc
    rw [Option.mem_def, h, Option.some.injEq] at hc
    rw [← hc]
    decide

theorem endsLexeme_of_endsWord (h : EndsWord X) : EndsLexeme X := by
  constructor
  · intro c hc previous
    rcases h c hc with rfl | rfl <;> rfl
  · intro c hc
    rcases h c hc with rfl | rfl <;> decide

/-- A point with no digit or exponent after it is part of a number if digits stand before it and the number may end
there. -/
theorem isDecimalPoint_of_endsFraction (h : EndsFraction X) (word : String) :
    isDecimalPoint word X = true ↔ (word ≠ "" ∧ ∀ c ∈ word.toList, c.isDigit = true) ∧ endsNumber X = true := by
  have hexponent : startsWithExponent X = false := by
    cases X with
    | nil => rfl
    | cons mark X =>
      have hmark : (mark == 'e' || mark == 'E') = false := by
        by_contra hmark
        simp only [Bool.not_eq_false, Bool.or_eq_true, beq_iff_eq] at hmark
        have hcontinues := h mark rfl '.'
        rcases hmark with rfl | rfl <;> cases hcontinues
      simp [startsWithExponent, hmark]
  simp [isDecimalPoint, h.startsWithDigit_eq, hexponent, and_assoc, and_left_comm]

theorem isDecimalPoint_of_endsWord (h : EndsWord X) (word : String) :
    isDecimalPoint word X = true ↔ word ≠ "" ∧ ∀ c ∈ word.toList, c.isDigit = true := by
  have hends : endsNumber X = true := by
    cases X with
    | nil => rfl
    | cons c X => rcases h c rfl with rfl | rfl <;> rfl
  rw [isDecimalPoint_of_endsFraction (endsLexeme_of_endsWord h).fraction, and_iff_left hends]

theorem isDecimalPoint_of_slash (h : X.head? = some '/') (word : String) : isDecimalPoint word X = false := by
  obtain ⟨X, rfl⟩ := List.head?_eq_some_iff.1 h
  rw [Bool.eq_false_iff, Ne, isDecimalPoint_of_endsFraction (endsLexeme_of_slash h).fraction]
  exact fun hpoint => absurd hpoint.2 Bool.false_ne_true

/-- The word is a whole number. -/
def HasNumber (s : Scanner) : Prop := s.word ≠ "" ∧ ∀ c ∈ s.word.toList, c.isDigit = true

theorem dropWhile_ne (hX : X.head? = some '/') (front : List Char) : X.dropWhile (· ≠ '\n') ≠ front ++ X := by
  obtain ⟨X, rfl⟩ := List.head?_eq_some_iff.1 hX
  intro h
  have hlength := congrArg List.length h
  have hle := (List.dropWhile_sublist (l := X) (· ≠ '\n')).length_le
  simp at hlength hle
  omega

/-- The end of a line is found before the comment. -/
theorem dropWhile_replace (hX : X.head? = some '/') (h : (front ++ X).dropWhile (· ≠ '\n') = front' ++ X) :
    (front ++ X').dropWhile (· ≠ '\n') = front' ++ X' := by
  induction front with
  | nil => exact absurd h (dropWhile_ne hX front')
  | cons c front ih =>
    rw [List.cons_append, List.dropWhile_cons] at h ⊢
    split at h
    · rename_i hc
      rw [if_pos hc]
      exact ih h
    · rename_i hc
      rw [if_neg hc]
      rw [← List.cons_append, List.append_cancel_right_eq] at h
      rw [← h, List.cons_append]

theorem skipComment_replace {line line' : Nat} (h : skipComment line (front ++ X) = .ok (line', front' ++ X)) :
    skipComment line (front ++ X') = .ok (line', front' ++ X') := by
  have htext := (skipComment_eq_ok h).1
  rw [← List.append_assoc, List.append_cancel_right_eq] at htext
  have hskip := skipComment_commentText h (front' ++ X')
  rwa [← List.append_assoc, ← htext] at hskip

theorem step_eq_stepPlain_of_endsWord (h : EndsWord X) (s : Scanner) (c : Char) : s.step o c X = s.stepPlain o c X := by
  have hne (d : Char) (hd : d ≠ ' ' ∧ d ≠ '\n') : X.head? ≠ some d := by
    intro hX
    rcases h d hX with rfl | rfl
    · exact hd.1 rfl
    · exact hd.2 rfl
  refine step_eq_stepPlain_of (fun _ => ⟨hne '/' (by decide), hne '*' (by decide)⟩) (fun _ => hne '/' (by decide)) ?_
  cases X with
  | nil => rfl
  | cons d X => rcases h d rfl with rfl | rfl <;> simp [digraph?]

/-- One character before the comment is read without it. -/
theorem step_eq_stepPlain_of_slash (hX : X.head? = some '/') (h : s.step o c X = .ok (s', front' ++ X)) :
    s.step o c X = s.stepPlain o c X := by
  refine step_eq_stepPlain_of (fun hc => ?_) (fun hc => ?_) (by simp [hX, digraph?])
  · unfold step at h
    rw [if_pos ⟨hc, hX⟩] at h
    obtain ⟨t, -, h⟩ := bind_eq_ok.1 h
    exact absurd (Prod.mk.inj (Except.ok.inj h)).2 (dropWhile_ne hX front')
  · unfold step at h
    rw [if_neg (by simp [hc]), if_neg (by simp [hc]), if_pos ⟨hc, hX⟩] at h
    cases h

/-- Before a blank in place of a slash the same lexeme is read, a point after a number apart. -/
theorem step_replace (hX : X.head? = some '/') (hX' : EndsWord X') (hpoint : ¬(c = '.' ∧ front = [] ∧ s.HasNumber))
    (h : s.step o c (front ++ X) = .ok (s', front' ++ X)) : s.step o c (front ++ X') = .ok (s', front' ++ X') := by
  have hplain (h : s.stepPlain o c (front ++ X) = .ok (s', front' ++ X)) :
      s.stepPlain o c (front ++ X') = .ok (s', front' ++ X') := by
    refine stepPlain_replace (endsLexeme_of_slash hX) (endsLexeme_of_endsWord hX') (fun hc => ?_) h
    cases front with
    | nil =>
      rw [List.nil_append, List.nil_append, isDecimalPoint_of_slash hX, Bool.eq_false_iff, Ne,
        isDecimalPoint_of_endsWord hX']
      exact fun hnumber => hpoint ⟨hc, rfl, hnumber⟩
    | cons d front =>
      rw [isDecimalPoint_append_rest (endsLexeme_of_slash hX).fraction (List.cons_ne_nil d front),
        isDecimalPoint_append_rest (endsLexeme_of_endsWord hX').fraction (List.cons_ne_nil d front)]
  -- the next character is that of the comment or the blank, or it is the same in both texts
  cases front with
  | nil =>
    rw [List.nil_append] at h hplain ⊢
    rw [step_eq_stepPlain_of_slash hX h] at h
    rw [step_eq_stepPlain_of_endsWord hX']
    exact hplain h
  | cons d front =>
    unfold step at h ⊢
    simp only [List.cons_append, List.head?_cons, List.drop_succ_cons, List.drop_zero] at h ⊢ hplain
    by_cases hline : c = '/' ∧ some d = some '/'
    · rw [if_pos hline] at h ⊢
      obtain ⟨t, hword, h⟩ := bind_eq_ok.1 h
      obtain ⟨rfl, hrest⟩ := Prod.mk.inj (Except.ok.inj h)
      have hrest' : (d :: front ++ X').dropWhile (· ≠ '\n') = front' ++ X' := dropWhile_replace hX hrest
      exact bind_eq_ok.2 ⟨_, hword, congrArg (fun rest => Except.ok (t, rest)) hrest'⟩
    rw [if_neg hline] at h ⊢
    by_cases hblock : c = '/' ∧ some d = some '*'
    · rw [if_pos hblock] at h ⊢
      obtain ⟨t, hword, h⟩ := bind_eq_ok.1 h
      obtain ⟨⟨line, rest⟩, hskip, h⟩ := bind_eq_ok.1 h
      cases h
      exact bind_eq_ok.2 ⟨t, hword, bind_eq_ok.2 ⟨_, skipComment_replace hskip, rfl⟩⟩
    rw [if_neg hblock] at h ⊢
    by_cases hend : c = '*' ∧ some d = some '/'
    · rw [if_pos hend] at h
      cases h
    rw [if_neg hend] at h ⊢
    cases hdigraph : (if o.digraphs then (some d).bind (digraph? c) else none) with
    | none =>
      rw [hdigraph] at h
      exact hplain h
    | some image =>
      rw [hdigraph] at h
      dsimp only at h ⊢
      by_cases himage : image = '\x7b'
      · rw [if_pos himage] at h ⊢
        exact bind_replace h
      rw [if_neg himage] at h ⊢
      by_cases himage : image = '\x7d'
      · rw [if_pos himage] at h ⊢
        exact bind_replace h
      rw [if_neg himage] at h ⊢
      exact bind_replace (x := .ok s) (f := (addChar · image)) h

theorem Reaches.replace {cs ds : List Char} (h : Reaches o s cs t ds) (hX : X.head? = some '/') (hX' : EndsWord X') :
    ∀ front back, cs = front ++ X → ds = back ++ X →
      (back = [] → ∀ u, Reaches o s cs u ('.' :: X) → ¬u.HasNumber) → Reaches o s (front ++ X') t (back ++ X') := by
  induction h with
  | refl s cs =>
    intro front back hfront hback _
    rw [hfront, List.append_cancel_right_eq] at hback
    rw [hback]
    exact .refl s _
  | @step s s' t c rest rest' cs h hmore ih =>
    intro front back hfront hback hpoint
    -- the comment is still to come after this step, so the step ends before it
    have hsuffix := hmore.suffix
    rw [hback] at hsuffix
    have hlength := (hsuffix.trans (suffix_of_step h)).length_le
    rw [List.length_append] at hlength
    obtain ⟨front', rfl⟩ := (List.suffix_append back X).trans hsuffix
    cases front with
    | nil =>
      rw [List.nil_append] at hfront
      rw [← hfront, List.length_cons] at hlength
      omega
    | cons d front =>
      obtain ⟨rfl, rfl⟩ := List.cons.inj hfront
      refine .step (step_replace hX hX' ?_ h) (ih front' back rfl hback fun hnil u hu => hpoint hnil u (.step h hu))
      rintro ⟨rfl, rfl, hnumber⟩
      -- nothing is left between the point and the comment
      have hnil : back = [] := List.length_eq_zero_iff.1 (by simpa using hlength)
      exact hpoint hnil s (.refl s _) hnumber

/-! ## The comment and its blanks -/

theorem scanRest_newlines (h : s.word = "") (n : Nat) (rest : List Char) :
    s.scanRest o (List.replicate n '\n' ++ rest) = { s with line := s.line + n }.scanRest o rest := by
  induction n generalizing s with
  | zero => rfl
  | succ n ih =>
    have hrest := ih (s := { s with line := s.line + 1 }) h
    rw [List.replicate_succ, List.cons_append, scanRest_step (step_newline (endWord_of_empty h)), hrest]
    simp only [Nat.add_assoc, Nat.add_comm 1 n]

theorem step_line {body : List Char} (hbody : '\n' ∉ body) (hafter : ∀ c ∈ after.head?, c = '\n')
    (h : s.endWord o = .ok t) : s.step o '/' ('/' :: body ++ after) = .ok (t, after) := by
  have hdrop : ('/' :: body ++ after).dropWhile (· ≠ '\n') = after := by
    rw [List.dropWhile_append_of_pos]
    · cases after with
      | nil => rfl
      | cons c after => simp [hafter c rfl]
    · intro c hc
      rw [decide_eq_true_eq]
      rintro rfl
      exact hbody (by simpa using hc)
  unfold step
  rw [if_pos ⟨rfl, rfl⟩, h, hdrop]
  rfl

theorem step_block {body : List Char} (hbody : ¬['*', '/'] <:+: body ++ ['*']) (h : s.endWord o = .ok t) :
    s.step o '/' ('*' :: body ++ ['*', '/'] ++ after) = .ok ({ t with line := t.line + body.count '\n' }, after) := by
  have hskip : skipComment t.line (body ++ ['*', '/'] ++ after) = .ok (t.line + body.count '\n', after) := by
    rw [List.append_assoc]
    exact skipComment_body hbody t.line after
  unfold step
  rw [if_neg (by simp), if_pos ⟨rfl, rfl⟩]
  exact bind_eq_ok.2 ⟨t, h, bind_eq_ok.2 ⟨_, hskip, rfl⟩⟩

theorem reaches_comment (hcomment : Comment text after blanks) (h : s.endWord o = .ok t) :
    Reaches o s (text ++ after) { t with line := t.line + blanks.count '\n' } after := by
  cases hcomment with
  | line hbody hafter => exact .step (step_line hbody hafter h) (.refl t after)
  | @block body _ hbody =>
    have hcount : (' ' :: List.replicate (body.count '\n') '\n').count '\n' = body.count '\n' := by simp
    rw [hcount]
    exact .step (step_block hbody h) (.refl _ after)

/-- At the end of a word a comment and its blanks are the same. -/
theorem scanRest_comment (hcomment : Comment text after blanks) (h : s.endWord o = .ok t) :
    s.scanRest o (text ++ after) = s.scanRest o (blanks ++ after) := by
  have hword := (holds_endWord h).word
  rw [(reaches_comment hcomment h).scanRest_eq]
  cases hcomment with
  | line _ hafter => exact (scanRest_endWord h fun c hc => .inr (hafter c hc)).symm
  | block =>
    rw [List.cons_append, scanRest_step (step_space h), scanRest_newlines hword]
    simp

theorem exists_endWord (hcomment : Comment text after blanks) (h : Reaches o s (text ++ after) s' after) :
    ∃ t, s.endWord o = .ok t := by
  obtain ⟨rest, rfl⟩ := hcomment.exists_text
  rw [List.cons_append] at h
  obtain ⟨p, hstep⟩ := h.exists_step (by simp)
  unfold step at hstep
  cases hcomment with
  | line =>
    rw [if_pos ⟨rfl, rfl⟩] at hstep
    obtain ⟨t, h, -⟩ := bind_eq_ok.1 hstep
    exact ⟨t, h⟩
  | block =>
    rw [if_neg (by simp), if_pos ⟨rfl, rfl⟩] at hstep
    obtain ⟨t, h, -⟩ := bind_eq_ok.1 hstep
    exact ⟨t, h⟩

/-! ## Points before comments -/

/-- The word has been read as these tokens. -/
def endedAs (s : Scanner) (ts : List Token) : Scanner :=
  { s with
    word := ""
    current := s.current ++ ts
    currentLine := if s.current.isEmpty then s.wordLine else s.currentLine }

theorem endWord_of_supported (hne : s.word ≠ "") (h : s.word ∉ Token.unsupportedKeywords) :
    s.endWord o = .ok (s.endedAs [s.word]) := by
  unfold endWord
  rw [if_neg (by simpa using hne), if_neg (by simp [h])]
  rfl

/-- A point between a number and a comment is an operator. -/
theorem HasNumber.step_slash (h : s.HasNumber) (hX : X.head? = some '/') :
    s.step o '.' X = .ok (s.endedAs [s.word, "."], X) := by
  have hkeyword : s.word ∉ Token.unsupportedKeywords := by
    have hall : ∀ t ∈ Token.unsupportedKeywords, t.toList.all Char.isDigit = false := by decide
    intro hmem
    have hnone := hall s.word hmem
    rw [List.all_eq_true.2 h.2] at hnone
    cases hnone
  have hop : operatorAt? ('.' :: X) = some "." :=
    (operatorAt?_append_of (List.cons_ne_nil '.' []) (endsLexeme_of_slash hX).operator).trans (by decide)
  have hoperator : s.operator o "." = .ok (s.endedAs [s.word, "."]) := by
    simp [operator, endWord_of_supported h.1 hkeyword, endedAs, addToken, bind, Except.bind, pure, Except.pure]
  rw [step_eq_stepPlain (by decide), stepPlain_eq_operator (by simp [isDecimalPoint_of_slash hX]) hop, hoperator]
  rfl

/-- A point between a number and a blank is the end of the number. -/
theorem HasNumber.step_blank (h : s.HasNumber) (hX : EndsWord X) :
    s.step o '.' X = .ok (s.endedAs [s.word.push '.'], X) := by
  have hkeyword : s.word.push '.' ∉ Token.unsupportedKeywords := by
    have hall : ∀ t ∈ Token.unsupportedKeywords, '.' ∉ t.toList := by decide
    exact fun hmem => hall _ hmem (by simp)
  have hsplit : splitFraction '.' X = ([], X) :=
    splitFraction_append_rest (endsLexeme_of_endsWord hX).fraction '.' []
  have hend : (s.addChar '.').endWord o = .ok (s.endedAs [s.word.push '.']) := by
    rw [endWord_of_supported (by simp [addChar]) hkeyword]
    simp [endedAs, addChar, h.1]
  rw [step_point ((isDecimalPoint_of_endsWord hX s.word).2 h) (by rw [hsplit]; exact hend), hsplit]

theorem twin_endedAs (s : Scanner) (xs ys : List Token) :
    Twin (s.current ++ xs) (s.current ++ ys) (s.endedAs xs) (s.endedAs ys) := by
  have htwin := @Twin.reading (s.current ++ xs) (s.current ++ ys)
    { s with word := "", currentLine := if s.current.isEmpty then s.wordLine else s.currentLine } []
  simp only [List.append_nil] at htwin
  exact htwin

/-- A number with a point before a comment is read as two tokens, and before its blanks as one. -/
theorem HasNumber.scanRest_comment (h : s.HasNumber) (hcomment : Comment text after blanks) :
    SameOutcome (· = ·) (· ≠ ·) (s.scanRest o ('.' :: (text ++ after))) (s.scanRest o ('.' :: (blanks ++ after))) := by
  rw [scanRest_step (h.step_slash (hcomment.head?_eq after)), scanRest_step (h.step_blank hcomment.endsWord),
    Scanner.scanRest_comment hcomment (endWord_of_empty rfl)]
  exact (twin_endedAs s _ _).scanRest ⟨by simp, by simp, by simp⟩ _

end Scanner

/-! ## Sources -/

/-- The scanner comes to the comment and to its end. -/
def Skips (o : Options) (before comment after : String) : Prop :=
  ∃ s s', Scanner.Reaches o {} (before ++ comment ++ after).toList s (comment ++ after).toList ∧
    Scanner.Reaches o s (comment ++ after).toList s' after.toList

/-- The comment stands right after a point, and a whole number right before the point. -/
def FollowsNumber (o : Options) (before comment after : String) : Prop :=
  ∃ s, Scanner.Reaches o {} (before ++ comment ++ after).toList s ('.' :: (comment ++ after).toList) ∧ s.HasNumber

theorem skips_of_reaches {o : Options} {before comment after : String} {blanks : List Char} {s t : Scanner}
    (hcomment : Comment comment.toList after.toList blanks)
    (hreaches : Scanner.Reaches o {} (before ++ comment ++ after).toList s (comment ++ after).toList)
    (h : s.endWord o = .ok t) : Skips o before comment after := by
  have hskips := Scanner.reaches_comment hcomment h
  rw [← String.toList_append] at hskips
  exact ⟨s, _, hreaches, hskips⟩

/-- A comment that is skipped may be replaced by its blanks exactly if it does not stand right after a number with a
point, or the source is refused. -/
theorem scan_comment_iff {o : Options} {before comment after blanks : String}
    (hcomment : Comment comment.toList after.toList blanks.toList) (hskips : Skips o before comment after) :
    Statement.scan o (before ++ blanks ++ after) = Statement.scan o (before ++ comment ++ after) ↔
      (FollowsNumber o before comment after → ∃ e, Statement.scan o (before ++ comment ++ after) = .error e) := by
  obtain ⟨s, s', hreaches, hskips⟩ := hskips
  have hslash : (comment ++ after).toList.head? = some '/' := by simpa using hcomment.head?_eq after.toList
  have hblanks : EndsWord (blanks ++ after).toList := by simpa using hcomment.endsWord
  have hsource : (before ++ comment ++ after).toList = before.toList ++ (comment ++ after).toList := by simp
  have hreplaced : (before ++ blanks ++ after).toList = before.toList ++ (blanks ++ after).toList := by simp
  by_cases hnumber : FollowsNumber o before comment after
  · obtain ⟨u, hu, hword⟩ := hnumber
    have hu' := hu.replace hslash hblanks before.toList ['.'] hsource rfl (by simp)
    have hsame : SameOutcome (· = ·) (· ≠ ·) (Statement.scan o (before ++ comment ++ after))
        (Statement.scan o (before ++ blanks ++ after)) := by
      have hsame := hword.scanRest_comment (o := o) hcomment
      rw [← String.toList_append, ← String.toList_append] at hsame
      rw [← hreplaced] at hu'
      show SameOutcome _ _ (Scanner.scanRest o {} _) (Scanner.scanRest o {} _)
      rw [hu.scanRest_eq, hu'.scanRest_eq]
      exact hsame
    generalize Statement.scan o (before ++ comment ++ after) = scanned at hsame ⊢
    generalize Statement.scan o (before ++ blanks ++ after) = scanned' at hsame ⊢
    cases hsame with
    | ok hne =>
      refine iff_of_false (fun h => hne (Except.ok.inj h).symm) fun h => ?_
      obtain ⟨e, he⟩ := h ⟨u, hu, hword⟩
      cases he
    | error h => exact iff_of_true (congrArg _ h.symm) fun _ => ⟨_, rfl⟩
  · refine iff_of_true ?_ fun h => absurd h hnumber
    have hreaches' := hreaches.replace hslash hblanks before.toList [] hsource rfl fun _ u hu hword =>
      hnumber ⟨u, hu, hword⟩
    rw [String.toList_append] at hskips
    obtain ⟨t, hend⟩ := Scanner.exists_endWord hcomment hskips
    have hrest := Scanner.scanRest_comment hcomment hend
    rw [← String.toList_append, ← String.toList_append] at hrest
    show Scanner.scanRest o {} _ = Scanner.scanRest o {} _
    rw [hreplaced, hreaches.scanRest_eq, hrest]
    exact hreaches'.scanRest_eq

/-- A block comment after a word. -/
theorem scan_comment_iff_word :
    let before := "n"
    let comment := "/*\n*/"
    let after := ";m"
    let blanks := " \n"
    Comment comment.toList after.toList blanks.toList ∧ Skips {} before comment after ∧
      Statement.scan {} (before ++ comment ++ after) = .ok [⟨1, 0, ["n"], false⟩, ⟨2, 0, ["m"], false⟩] ∧
      Statement.scan {} (before ++ blanks ++ after) = Statement.scan {} (before ++ comment ++ after) := by
  intro before comment after blanks
  have hcomment : Comment comment.toList after.toList blanks.toList := by
    have htext : comment.toList = '/' :: '*' :: ['\n'] ++ ['*', '/'] := by decide +kernel
    have hblanks : blanks.toList = ' ' :: List.replicate (['\n'].count '\n') '\n' := by decide +kernel
    rw [htext, hblanks]
    exact .block _ (by decide)
  have hskips : Skips {} before comment after := by
    have hsource : (before ++ comment ++ after).toList = 'n' :: (comment ++ after).toList := by decide +kernel
    have hreaches := Scanner.Reaches.step (Scanner.step_of_isWordChar (o := {}) (c := 'n') (by decide) {} _)
      (.refl _ (comment ++ after).toList)
    rw [← hsource] at hreaches
    exact skips_of_reaches hcomment hreaches (Scanner.endWord_of_supported (by decide) (by decide))
  refine ⟨hcomment, hskips, by decide +kernel, (scan_comment_iff hcomment hskips).2 ?_⟩
  rintro ⟨s, hs, -⟩
  exact absurd hs.suffix (by decide +kernel)

/-- A block comment after a number with a point. -/
theorem scan_comment_after_point :
    let before := "1."
    let comment := "/**/"
    let after := ";"
    let blanks := " "
    Comment comment.toList after.toList blanks.toList ∧ Skips {} before comment after ∧
      Statement.scan {} (before ++ comment ++ after) = .ok [⟨1, 0, ["1", "."], false⟩] ∧
      Statement.scan {} (before ++ blanks ++ after) = .ok [⟨1, 0, ["1."], false⟩] := by
  intro before comment after blanks
  have hcomment : Comment comment.toList after.toList blanks.toList := by
    have htext : comment.toList = '/' :: '*' :: [] ++ ['*', '/'] := by decide +kernel
    have hblanks : blanks.toList = ' ' :: List.replicate (List.count '\n' []) '\n' := by decide +kernel
    rw [htext, hblanks]
    exact .block _ (by decide)
  have hskips : Skips {} before comment after := by
    have hsource : (before ++ comment ++ after).toList = '1' :: '.' :: (comment ++ after).toList := by decide +kernel
    have hnumber : (Scanner.addChar {} '1').HasNumber := ⟨by decide, List.all_eq_true.1 (by decide)⟩
    have hreaches := Scanner.Reaches.step (Scanner.step_of_isWordChar (o := {}) (c := '1') (by decide) {} _)
      (.step (hnumber.step_slash (by decide +kernel)) (.refl _ (comment ++ after).toList))
    rw [← hsource] at hreaches
    exact skips_of_reaches hcomment hreaches (Scanner.endWord_of_empty rfl)
  exact ⟨hcomment, hskips, by decide +kernel, by decide +kernel⟩

end WordMachine.Cflat
