/-
What a step of the scanner depends on. A step reads a lexeme by the text of the lexeme and little after it: a
literal and a block comment by their own text alone, a number and an operator by their own text and a character
that does not continue them. So the text after a lexeme may be replaced.
-/
import WordMachine.Proofs.Cflat.Respelling

namespace WordMachine.Cflat

/-! ## Literals and comments -/

theorem head?_commentText {cs : List Char} (h : cs ≠ []) (rest : List Char) :
    (commentText cs ++ rest).head? = cs.head? := by
  obtain ⟨c, cs, rfl⟩ := List.exists_cons_of_ne_nil h
  rw [commentText]
  split <;> rfl

theorem skipComment_commentText {line line' : Nat} {cs rest : List Char} (h : skipComment line cs = .ok (line', rest))
    (rest' : List Char) : skipComment line (commentText cs ++ rest') = .ok (line', rest') := by
  induction cs generalizing line with
  | nil => cases h
  | cons c cs ih =>
    rw [skipComment] at h
    rw [commentText]
    split at h
    · rename_i hc
      cases h
      rw [if_pos hc, List.cons_append, skipComment, if_pos ⟨hc.1, rfl⟩]
      rfl
    · rename_i hc
      have hcs : cs ≠ [] := by
        rintro rfl
        cases h
      rw [if_neg hc, List.cons_append, skipComment, head?_commentText hcs, if_neg hc]
      exact ih h

theorem readCharacter_characterText {cs rest : List Char} {c : Char} (h : readCharacter cs = .ok (c, rest))
    (rest' : List Char) : readCharacter (characterText cs ++ rest') = .ok (c, rest') := by
  fun_cases characterText cs with
  | case1 => cases h
  | case2 e cs =>
    rw [readCharacter] at h
    cases he : escaped? e with
    | none =>
      rw [he] at h
      cases h
    | some value =>
      rw [he] at h
      dsimp only at h
      split at h
      · rename_i hquote
        obtain ⟨cs, rfl⟩ := List.head?_eq_some_iff.1 hquote
        cases h
        show readCharacter ('\\' :: e :: '\x27' :: rest') = _
        rw [readCharacter, he]
        rfl
      · cases h
  | case3 d cs hd =>
    rw [readCharacter] at h
    · split at h
      · rename_i hquote
        obtain ⟨cs, rfl⟩ := List.head?_eq_some_iff.1 hquote.2
        cases h
        show readCharacter (c :: '\x27' :: rest') = _
        rw [readCharacter]
        · rw [if_pos ⟨hquote.1, rfl⟩]
          rfl
        · exact fun e more hc _ => hd _ _ hc rfl
      · cases h
    · exact hd

namespace Scanner

variable {o : Options} {s s' t : Scanner} {c : Char} {cs rest rest' : List Char}

theorem readString_stringText (h : s.readString o cs = .ok (s', rest)) (rest' : List Char) :
    s.readString o (stringText cs ++ rest') = .ok (s', rest') := by
  fun_induction readString o s cs with
  | case1 => cases h
  | case2 => cases h
  | case3 s e cs value he ih =>
    rw [stringText, List.cons_append, List.cons_append, readString, he]
    exact ih h
  | case4 => cases h
  | case5 s cs t hword =>
    cases h
    rw [stringText_cons (by decide), if_pos rfl, List.singleton_append, readString_quote, hword]
    rfl
  | case6 => cases h
  | case7 s cs _ _ _ ih =>
    rw [stringText_cons (by decide), if_neg (by decide), List.cons_append, readString_newline]
    exact ih h
  | case8 s c cs hend hescape hquote hnewline ih =>
    have hc := ne_backslash hend hescape
    rw [stringText_cons hc, if_neg hquote, List.cons_append, readString_char (by simp [hc, hquote, hnewline])]
    exact ih h

/-! ## Other texts after a lexeme -/

variable {front front' X X' : List Char}

/-- The text starts with nothing that could continue a fraction or an operator. -/
structure EndsLexeme (rest : List Char) : Prop where
  fraction : EndsFraction rest
  operator : ∀ c ∈ rest.head?, continuesOperator c = false

theorem bind_replace {x : Except Error Scanner} {f : Scanner → Scanner}
    (h : (x >>= fun t => .ok (f t, front ++ X)) = .ok (s', front' ++ X)) :
    (x >>= fun t => .ok (f t, front ++ X')) = Except.ok (s', front' ++ X') := by
  obtain ⟨t, ht, h⟩ := bind_eq_ok.1 h
  simp only [Except.ok.injEq, Prod.mk.injEq, List.append_cancel_right_eq] at h
  rw [ht, ← h.1, ← h.2]
  rfl

theorem stepPlain_replace (hX : EndsLexeme X) (hX' : EndsLexeme X')
    (hpoint : c = '.' → isDecimalPoint s.word (front ++ X') = isDecimalPoint s.word (front ++ X))
    (h : s.stepPlain o c (front ++ X) = .ok (s', front' ++ X)) :
    s.stepPlain o c (front ++ X') = .ok (s', front' ++ X') := by
  unfold stepPlain at h ⊢
  by_cases hc : c = '\n'
  · rw [if_pos hc] at h ⊢
    exact bind_replace h
  rw [if_neg hc] at h ⊢
  by_cases hc : Text.isBlank c = true
  · rw [if_pos hc] at h ⊢
    exact bind_replace h
  rw [if_neg hc] at h ⊢
  by_cases hc : c = '\x7b'
  · rw [if_pos hc] at h ⊢
    exact bind_replace h
  rw [if_neg hc] at h ⊢
  by_cases hc : c = '\x7d'
  · rw [if_pos hc] at h ⊢
    exact bind_replace h
  rw [if_neg hc] at h ⊢
  by_cases hc : c = ';'
  · rw [if_pos hc] at h ⊢
    exact bind_replace h
  rw [if_neg hc] at h ⊢
  by_cases hc : c = '"'
  · rw [if_pos hc] at h ⊢
    obtain ⟨t, hword, h⟩ := bind_eq_ok.1 h
    -- the literal ends before the text that is replaced, so that `front` is the literal and `front'`
    have htext := readString_eq_ok h
    rw [← List.append_assoc, List.append_cancel_right_eq] at htext
    have hread := readString_stringText h (front' ++ X')
    rw [← List.append_assoc, ← htext] at hread
    exact bind_eq_ok.2 ⟨t, hword, hread⟩
  rw [if_neg hc] at h ⊢
  by_cases hc : c = '\x27'
  · rw [if_pos hc] at h ⊢
    cases hread : readCharacter (front ++ X) with
    | error fault =>
      rw [hread] at h
      cases h
    | ok read =>
      obtain ⟨value, after⟩ := read
      rw [hread] at h
      obtain ⟨t, hword, h⟩ := bind_eq_ok.1 h
      cases h
      have htext := readCharacter_eq_ok hread
      rw [← List.append_assoc, List.append_cancel_right_eq] at htext
      have hread' := readCharacter_characterText hread (front' ++ X')
      rw [← List.append_assoc, ← htext] at hread'
      rw [hread']
      exact bind_eq_ok.2 ⟨t, hword, rfl⟩
  rw [if_neg hc] at h ⊢
  by_cases hc : c = '.' ∧ isDecimalPoint s.word (front ++ X) = true
  · rw [if_pos hc] at h
    rw [if_pos ⟨hc.1, (hpoint hc.1).trans hc.2⟩]
    simp only [splitFraction_append_rest hX.fraction, splitFraction_append_rest hX'.fraction] at h ⊢
    exact bind_replace h
  rw [if_neg hc] at h
  rw [if_neg fun hc' => hc ⟨hc'.1, (hpoint hc'.1).symm.trans hc'.2⟩]
  have hop := operatorAt?_append_of (List.cons_ne_nil c front) hX.operator
  have hop' := operatorAt?_append_of (List.cons_ne_nil c front) hX'.operator
  rw [List.cons_append] at hop hop'
  rw [hop] at h
  rw [hop']
  cases hop : operatorAt? (c :: front) with
  | none =>
    rw [hop] at h
    exact bind_replace (x := .ok s) (f := (addChar · c)) h
  | some op =>
    rw [hop] at h
    have hlength : op.length - 1 ≤ front.length := by
      have hle := (operatorAt?_eq_some hop).2.length_le
      rw [String.length_toList, List.length_cons] at hle
      omega
    dsimp only at h ⊢
    rw [List.drop_append_of_le_length hlength] at h ⊢
    exact bind_replace h

/-! ## Parts of a run -/

/-- The scanner comes from the first text to the second, a part of it, and is the second scanner then. -/
inductive Reaches (o : Options) : Scanner → List Char → Scanner → List Char → Prop where
  | refl (s : Scanner) (cs : List Char) : Reaches o s cs s cs
  | step {s s' t : Scanner} {c : Char} {rest rest' cs : List Char} (h : s.step o c rest = .ok (s', rest'))
    (hmore : Reaches o s' rest' t cs) : Reaches o s (c :: rest) t cs

theorem suffix_of_step (h : s.step o c rest = .ok (s', rest')) : rest' <:+ rest := by
  obtain ⟨htext, -⟩ := reads_of_step h
  obtain ⟨text, hfirst, -⟩ := Lexeme.exists_text_first o s.word c rest
  rw [hfirst, List.cons_append, List.cons.injEq] at htext
  exact ⟨text, htext.2⟩

theorem Reaches.suffix (h : Reaches o s cs t rest) : rest <:+ cs := by
  induction h with
  | refl => exact List.suffix_rfl
  | step h _ ih => exact (ih.trans (suffix_of_step h)).trans (List.suffix_cons ..)

/-- The scanner reaches less text by a step. -/
theorem Reaches.exists_step (h : Reaches o s (c :: rest) t cs) (hlength : cs.length ≤ rest.length) :
    ∃ p, s.step o c rest = .ok p := by
  cases h with
  | refl =>
    simp at hlength
  | step h _ => exact ⟨_, h⟩

theorem Reaches.scanRest_eq (h : Reaches o s cs t rest) : s.scanRest o cs = t.scanRest o rest := by
  induction h with
  | refl => rfl
  | step h _ ih => exact (scanRest_step h).trans ih

end Scanner

end WordMachine.Cflat
