/-
The lexemes of a source text: its blanks and comments, its braces and semicolons, its literals and operators
and the characters of its words. Every text is made up of lexemes without anything between them, and they
are found in the text alone. A step of the scanner reads one lexeme.
-/
import WordMachine.Cflat.Statement.Scan
import WordMachine.Proofs.Result
import Mathlib.Data.List.TakeWhile

namespace WordMachine.Cflat

/-! ## The text of a lexeme -/

/-- A comment after its `/*`, with its end. -/
def commentText : List Char → List Char
  | [] => []
  | c :: rest => if c = '*' ∧ rest.head? = some '/' then [c, '/'] else c :: commentText rest

/-- A string literal after its opening quote, with its closing quote. -/
def stringText : List Char → List Char
  | [] => []
  | '\\' :: e :: rest => '\\' :: e :: stringText rest
  | c :: rest => if c = '"' then [c] else c :: stringText rest

/-- A character literal after its opening quote, with its closing quote. -/
def characterText : List Char → List Char
  | [] => []
  | '\\' :: e :: rest => '\\' :: e :: rest.take 1
  | c :: rest => c :: rest.take 1

theorem ne_backslash {c : Char} {cs : List Char} (hend : c = '\\' → cs = [] → False)
    (hescape : ∀ e rest, c = '\\' → cs = e :: rest → False) : c ≠ '\\' := by
  intro hc
  cases cs with
  | nil => exact hend hc rfl
  | cons e cs => exact hescape e cs hc rfl

theorem stringText_cons {c : Char} (hc : c ≠ '\\') (rest : List Char) :
    stringText (c :: rest) = if c = '"' then [c] else c :: stringText rest := by
  rw [stringText]
  exact fun _ _ h => absurd h hc

theorem commentText_isPrefix : ∀ cs : List Char, commentText cs <+: cs
  | [] => List.prefix_rfl
  | c :: rest => by
    rw [commentText]
    split
    · rename_i hc
      obtain ⟨rest, rfl⟩ := List.head?_eq_some_iff.1 hc.2
      exact ⟨rest, rfl⟩
    · exact List.cons_prefix_cons.2 ⟨rfl, commentText_isPrefix rest⟩

theorem stringText_isPrefix (cs : List Char) : stringText cs <+: cs := by
  fun_induction stringText cs with
  | case1 => exact List.prefix_rfl
  | case2 e rest ih => exact List.cons_prefix_cons.2 ⟨rfl, List.cons_prefix_cons.2 ⟨rfl, ih⟩⟩
  | case3 rest => exact ⟨rest, rfl⟩
  | case4 c rest _ _ ih => exact List.cons_prefix_cons.2 ⟨rfl, ih⟩

theorem characterText_isPrefix (cs : List Char) : characterText cs <+: cs := by
  fun_cases characterText cs with
  | case1 => exact List.prefix_rfl
  | case2 e rest => exact List.cons_prefix_cons.2 ⟨rfl, List.cons_prefix_cons.2 ⟨rfl, List.take_prefix 1 rest⟩⟩
  | case3 c rest => exact List.cons_prefix_cons.2 ⟨rfl, List.take_prefix 1 rest⟩

theorem splitFraction_append : ∀ (previous : Char) (cs : List Char),
    (splitFraction previous cs).1 ++ (splitFraction previous cs).2 = cs
  | _, [] => rfl
  | previous, c :: cs => by
    rw [splitFraction]
    split
    · exact congrArg (c :: ·) (splitFraction_append c cs)
    · rfl

theorem operatorAt?_eq_some {cs : List Char} {op : Token} (h : operatorAt? cs = some op) :
    op ∈ Token.operators ∧ op.toList <+: cs := by
  rw [operatorAt?] at h
  have hfound := List.find?_some h
  exact ⟨List.mem_of_find?_eq_some h, List.isPrefixOf_iff_prefix.1 hfound⟩

/-! ## Lexemes -/

inductive LexemeKind where
  /-- A blank or a comment. -/
  | gap
  | opening
  | closing
  | semicolon
  | string
  | character
  /-- What a number has from its point on. -/
  | fraction
  | operator (op : Token)
  /-- A character of a word, perhaps written as a digraph. -/
  | letter (c : Char)
  deriving Repr, DecidableEq

structure Lexeme where
  kind : LexemeKind
  text : List Char
  deriving Repr, DecidableEq

namespace Lexeme

/-- A digraph, by the character that it stands for. -/
def ofDigraph (image : Char) (text : List Char) : Lexeme :=
  if image = '\x7b' then ⟨.opening, text⟩
  else if image = '\x7d' then ⟨.closing, text⟩
  else ⟨.letter image, text⟩

/-- The first lexeme of a text that starts with no comment or digraph. -/
def plain (word : String) (c : Char) (rest : List Char) : Lexeme :=
  if Text.isBlank c then ⟨.gap, [c]⟩
  else if c = '\x7b' then ⟨.opening, [c]⟩
  else if c = '\x7d' then ⟨.closing, [c]⟩
  else if c = ';' then ⟨.semicolon, [c]⟩
  else if c = '"' then ⟨.string, c :: stringText rest⟩
  else if c = '\x27' then ⟨.character, c :: characterText rest⟩
  else if c = '.' ∧ isDecimalPoint word rest then ⟨.fraction, c :: (splitFraction '.' rest).1⟩
  else
    match operatorAt? (c :: rest) with
    | some op => ⟨.operator op, op.toList⟩
    | none => ⟨.letter c, [c]⟩

/-- The first lexeme of a text that starts with `c`, where `word` is the part of a word before it. -/
def first (o : Options) (word : String) (c : Char) (rest : List Char) : Lexeme :=
  if c = '/' ∧ rest.head? = some '/' then ⟨.gap, c :: rest.takeWhile (· ≠ '\n')⟩
  else if c = '/' ∧ rest.head? = some '*' then ⟨.gap, c :: '*' :: commentText (rest.drop 1)⟩
  else
    match (if o.digraphs then rest.head?.bind (digraph? c) else none) with
    | none => plain word c rest
    | some image => ofDigraph image (c :: rest.take 1)

/-- The part of a word that ends with the lexeme. -/
def wordAfter (l : Lexeme) (word : String) : String :=
  match l.kind with
  | .letter c => word.push c
  | _ => ""

end Lexeme

/-- The lexemes of a text, where `word` is the part of a word before it. -/
def lexemes (o : Options) (word : String) : List Char → List Lexeme
  | [] => []
  | c :: rest =>
    let l := Lexeme.first o word c rest
    l :: lexemes o (l.wordAfter word) (rest.drop (l.text.length - 1))
termination_by cs => cs.length
decreasing_by
  simp only [List.length_cons, List.length_drop]
  omega

namespace Lexeme

theorem text_ofDigraph (image : Char) (text : List Char) : (ofDigraph image text).text = text := by
  unfold ofDigraph
  split
  · rfl
  · split <;> rfl

theorem ne_nil_of_mem_operators {op : Token} (h : op ∈ Token.operators) : op.toList ≠ [] := by
  have hall : ∀ op ∈ Token.operators, op.toList ≠ [] := by decide
  exact hall op h

theorem exists_text_operator {c : Char} {rest : List Char} {op : Token} (h : operatorAt? (c :: rest) = some op) :
    ∃ text, op.toList = c :: text ∧ text <+: rest := by
  obtain ⟨hmem, hfront⟩ := operatorAt?_eq_some h
  obtain ⟨d, text, htext⟩ := List.exists_cons_of_ne_nil (ne_nil_of_mem_operators hmem)
  rw [htext, List.cons_prefix_cons] at hfront
  exact ⟨text, hfront.1 ▸ htext, hfront.2⟩

/-- A lexeme is the front of the text that it is found in. -/
theorem exists_text_plain (word : String) (c : Char) (rest : List Char) :
    ∃ text, (plain word c rest).text = c :: text ∧ text <+: rest := by
  have hsingle : [] <+: rest := List.nil_prefix
  unfold plain
  split
  · exact ⟨[], rfl, hsingle⟩
  split
  · exact ⟨[], rfl, hsingle⟩
  split
  · exact ⟨[], rfl, hsingle⟩
  split
  · exact ⟨[], rfl, hsingle⟩
  split
  · exact ⟨_, rfl, stringText_isPrefix rest⟩
  split
  · exact ⟨_, rfl, characterText_isPrefix rest⟩
  split
  · exact ⟨_, rfl, _, splitFraction_append '.' rest⟩
  split
  · rename_i hop
    exact exists_text_operator hop
  · exact ⟨[], rfl, hsingle⟩

theorem operator_append {c : Char} {rest : List Char} {op : Token} (h : operatorAt? (c :: rest) = some op) :
    op.toList ++ rest.drop (op.length - 1) = c :: rest := by
  obtain ⟨text, htext, after, rfl⟩ := exists_text_operator h
  simp [← String.length_toList, htext]

theorem exists_text_first (o : Options) (word : String) (c : Char) (rest : List Char) :
    ∃ text, (first o word c rest).text = c :: text ∧ text <+: rest := by
  unfold first
  split
  · exact ⟨_, rfl, List.takeWhile_prefix _⟩
  split
  · rename_i hc
    obtain ⟨rest, rfl⟩ := List.head?_eq_some_iff.1 hc.2
    exact ⟨_, rfl, List.cons_prefix_cons.2 ⟨rfl, commentText_isPrefix rest⟩⟩
  split
  · exact exists_text_plain word c rest
  · exact ⟨_, text_ofDigraph .., List.take_prefix 1 rest⟩

/-- A lexeme and the text after it are the text that it is found in. -/
theorem text_first_append (o : Options) (word : String) (c : Char) (rest : List Char) :
    (first o word c rest).text ++ rest.drop ((first o word c rest).text.length - 1) = c :: rest := by
  obtain ⟨text, htext, after, rfl⟩ := exists_text_first o word c rest
  simp [htext]

end Lexeme

/-- Every character of a text is in a lexeme. -/
theorem flatMap_text_lexemes (o : Options) (word : String) (cs : List Char) :
    (lexemes o word cs).flatMap Lexeme.text = cs := by
  fun_induction lexemes o word cs with
  | case1 => rfl
  | case2 word c rest l ih => rw [List.flatMap_cons, ih, Lexeme.text_first_append]

/-! ## Steps of the scanner -/

/-- A step reads the lexeme and gives the second scanner. -/
inductive Scanner.Reads (o : Options) (s : Scanner) : Lexeme → Scanner → Prop where
  | gap {t : Scanner} (text : List Char) (h : s.endWord o = .ok t) :
    Reads o s ⟨.gap, text⟩ { t with line := t.line + text.count '\n' }
  | opening {t : Scanner} {text : List Char} (htext : '\n' ∉ text) (h : s.openBlock o = .ok t) :
    Reads o s ⟨.opening, text⟩ t
  | closing {t : Scanner} {text : List Char} (htext : '\n' ∉ text) (h : s.closeBlock o = .ok t) :
    Reads o s ⟨.closing, text⟩ t
  | semicolon {t : Scanner} (h : s.semicolon o = .ok t) : Reads o s ⟨.semicolon, [';']⟩ t
  | string {t t' : Scanner} {text rest : List Char} (h : s.endWord o = .ok t)
    (hread : (t.addChar '"').readString o (text ++ rest) = .ok (t', rest)) : Reads o s ⟨.string, '"' :: text⟩ t'
  | character {t : Scanner} (text : List Char) (value : Char) (h : s.endWord o = .ok t) :
    Reads o s ⟨.character, text⟩ (t.addToken (toString value.toNat) t.line)
  | fraction {t : Scanner} {text : List Char} (htext : '\n' ∉ text)
    (h : (text.foldl addChar (s.addChar '.')).endWord o = .ok t) : Reads o s ⟨.fraction, '.' :: text⟩ t
  | operator {t : Scanner} {op : Token} (hop : op ∈ Token.operators) (h : s.operator o op = .ok t) :
    Reads o s ⟨.operator op, op.toList⟩ t
  | letter {text : List Char} (c : Char) (htext : '\n' ∉ text) : Reads o s ⟨.letter c, text⟩ (s.addChar c)

theorem skipComment_eq_ok {line line' : Nat} {cs rest : List Char} (h : skipComment line cs = .ok (line', rest)) :
    cs = commentText cs ++ rest ∧ line' = line + (commentText cs).count '\n' := by
  induction cs generalizing line with
  | nil => cases h
  | cons c cs ih =>
    rw [skipComment] at h
    rw [commentText]
    split at h
    · rename_i hc
      obtain ⟨rest', rfl⟩ := List.head?_eq_some_iff.1 hc.2
      cases h
      rw [if_pos hc, hc.1]
      exact ⟨rfl, rfl⟩
    · rename_i hc
      obtain ⟨hcs, hline⟩ := ih h
      rw [if_neg hc, List.cons_append, ← hcs, hline, List.count_cons]
      refine ⟨rfl, ?_⟩
      by_cases hnewline : c = '\n' <;> simp [hnewline]; omega

theorem readCharacter_eq_ok {cs rest : List Char} {c : Char} (h : readCharacter cs = .ok (c, rest)) :
    cs = characterText cs ++ rest := by
  unfold readCharacter at h
  unfold characterText
  repeat' split at h
  all_goals cases h
  · rename_i hquote _
    obtain ⟨rest, rfl⟩ := List.head?_eq_some_iff.1 hquote
    rfl
  · rename_i hne hquote
    obtain ⟨rest, rfl⟩ := List.head?_eq_some_iff.1 hquote.2
    split
    · rename_i heq
      cases heq
    · rename_i heq
      cases heq
      exact absurd rfl (hne _ _ rfl)
    · rename_i heq
      cases heq
      rfl

namespace Scanner

variable {o : Options} {s s' : Scanner} {c : Char} {rest rest' : List Char}

theorem readString_quote (s : Scanner) (rest : List Char) :
    s.readString o ('"' :: rest) = ((s.addChar '"').endWord o >>= fun t => .ok (t, rest)) := by
  rw [readString]
  · rw [if_pos rfl]
    cases (s.addChar '"').endWord o <;> rfl
  · simp
  · simp

theorem readString_newline (s : Scanner) (rest : List Char) :
    s.readString o ('\n' :: rest) = { s with line := s.line + 1 }.readString o rest := by
  rw [readString]
  · rw [if_neg (by decide), if_pos rfl]
  · simp
  · simp

theorem readString_char (hc : c ∉ ['\\', '"', '\n']) (s : Scanner) (rest : List Char) :
    s.readString o (c :: rest) = (s.addChar c).readString o rest := by
  simp only [List.mem_cons, List.not_mem_nil, or_false, not_or] at hc
  rw [readString]
  · rw [if_neg hc.2.1, if_neg hc.2.2]
  · exact fun h => absurd h hc.1
  · exact fun _ _ h => absurd h hc.1

theorem readString_eq_ok {cs : List Char} (h : s.readString o cs = .ok (s', rest)) : cs = stringText cs ++ rest := by
  fun_induction readString o s cs with
  | case1 => cases h
  | case2 => cases h
  | case3 s e cs value _ ih =>
    rw [stringText, List.cons_append, List.cons_append, ← ih h]
  | case4 => cases h
  | case5 =>
    cases h
    simp [stringText]
  | case6 => cases h
  | case7 s cs _ _ _ ih => rw [stringText_cons (by decide), if_neg (by decide), List.cons_append, ← ih h]
  | case8 s c cs hend hescape hquote _ ih =>
    rw [stringText_cons (ne_backslash hend hescape), if_neg hquote, List.cons_append, ← ih h]

theorem newline_not_mem_splitFraction : ∀ (previous : Char) (cs : List Char),
    '\n' ∉ (splitFraction previous cs).1
  | _, [] => List.not_mem_nil
  | previous, c :: cs => by
    rw [splitFraction]
    split
    · rename_i hc
      rw [List.mem_cons, not_or]
      refine ⟨?_, newline_not_mem_splitFraction c cs⟩
      rintro rfl
      cases hc
    · exact List.not_mem_nil

theorem newline_not_mem_digraph {image : Char}
    (h : (if o.digraphs then rest.head?.bind (digraph? c) else none) = some image) : '\n' ∉ c :: rest.take 1 := by
  split at h
  · obtain ⟨next, hnext, h⟩ := Option.bind_eq_some_iff.1 h
    obtain ⟨rest, rfl⟩ := List.head?_eq_some_iff.1 hnext
    intro hmem
    simp only [List.take_succ_cons, List.take_zero, List.mem_cons, List.not_mem_nil, or_false] at hmem
    rcases hmem with rfl | rfl <;> simp [digraph?] at h
  · cases h

/-- A step on a text that starts with no comment or digraph. -/
theorem reads_of_stepPlain (h : s.stepPlain o c rest = .ok (s', rest')) :
    (Lexeme.plain s.word c rest).text ++ rest' = c :: rest ∧ s.Reads o (Lexeme.plain s.word c rest) s' := by
  unfold stepPlain at h
  unfold Lexeme.plain
  split at h
  · subst c
    obtain ⟨t, hword, h⟩ := bind_eq_ok.1 h
    cases h
    exact ⟨rfl, .gap ['\n'] hword⟩
  rename_i hnewline
  have hsingle : '\n' ∉ [c] := fun h => hnewline (List.mem_singleton.1 h).symm
  split at h
  · rename_i hblank
    obtain ⟨t, hword, h⟩ := bind_eq_ok.1 h
    cases h
    rw [if_pos hblank]
    have hread := Reads.gap [c] hword
    rw [List.count_eq_zero_of_not_mem hsingle] at hread
    exact ⟨rfl, hread⟩
  rename_i hblank
  rw [if_neg hblank]
  split at h
  · rename_i hc
    obtain ⟨t, hopen, h⟩ := bind_eq_ok.1 h
    cases h
    rw [if_pos hc]
    exact ⟨rfl, .opening hsingle hopen⟩
  rename_i hc
  rw [if_neg hc]
  split at h
  · rename_i hc
    obtain ⟨t, hclose, h⟩ := bind_eq_ok.1 h
    cases h
    rw [if_pos hc]
    exact ⟨rfl, .closing hsingle hclose⟩
  rename_i hc
  rw [if_neg hc]
  split at h
  · rename_i hc
    obtain ⟨t, hsemicolon, h⟩ := bind_eq_ok.1 h
    cases h
    rw [if_pos hc, hc]
    exact ⟨rfl, .semicolon hsemicolon⟩
  rename_i hc
  rw [if_neg hc]
  split at h
  · rename_i hc
    obtain ⟨t, hword, hread⟩ := bind_eq_ok.1 h
    have htext := readString_eq_ok hread
    rw [if_pos hc, hc]
    rw [htext] at hread
    exact ⟨congrArg _ htext.symm, .string hword hread⟩
  rename_i hc
  rw [if_neg hc]
  split at h
  · rename_i hc
    rw [if_pos hc]
    split at h
    · cases h
    · rename_i value after hread
      obtain ⟨t, hword, h⟩ := bind_eq_ok.1 h
      cases h
      exact ⟨congrArg _ (readCharacter_eq_ok hread).symm, .character _ value hword⟩
  rename_i hc
  rw [if_neg hc]
  split at h
  · rename_i hc
    obtain ⟨t, hword, h⟩ := bind_eq_ok.1 h
    cases h
    rw [if_pos hc, hc.1]
    exact ⟨congrArg _ (splitFraction_append '.' rest), .fraction (newline_not_mem_splitFraction '.' rest) hword⟩
  rename_i hc
  rw [if_neg hc]
  cases hop : operatorAt? (c :: rest) with
  | some op =>
    rw [hop] at h
    obtain ⟨t, hoperator, h⟩ := bind_eq_ok.1 h
    cases h
    exact ⟨Lexeme.operator_append hop, .operator (operatorAt?_eq_some hop).1 hoperator⟩
  | none =>
    rw [hop] at h
    cases h
    exact ⟨rfl, .letter c hsingle⟩

/-- A step reads the first lexeme of the text. -/
theorem reads_of_step (h : s.step o c rest = .ok (s', rest')) :
    (Lexeme.first o s.word c rest).text ++ rest' = c :: rest ∧ s.Reads o (Lexeme.first o s.word c rest) s' := by
  unfold step at h
  unfold Lexeme.first
  split at h
  · rename_i hc
    obtain ⟨t, hword, h⟩ := bind_eq_ok.1 h
    cases h
    rw [if_pos hc]
    refine ⟨congrArg _ (List.takeWhile_append_dropWhile ..), ?_⟩
    have hread := Reads.gap (c :: rest.takeWhile (· ≠ '\n')) hword
    rw [List.count_eq_zero_of_not_mem ?_] at hread
    · exact hread
    · rw [hc.1, List.mem_cons, not_or]
      exact ⟨by decide, fun h => by simpa using List.mem_takeWhile_imp h⟩
  rename_i hc
  rw [if_neg hc]
  split at h
  · rename_i hc
    obtain ⟨t, hword, h⟩ := bind_eq_ok.1 h
    obtain ⟨skipped, hskip, h⟩ := bind_eq_ok.1 h
    cases h
    obtain ⟨rest, rfl⟩ := List.head?_eq_some_iff.1 hc.2
    obtain ⟨htext, hline⟩ := skipComment_eq_ok hskip
    rw [if_pos hc, hc.1]
    refine ⟨congrArg (fun cs => '/' :: '*' :: cs) htext.symm, ?_⟩
    have hread := Reads.gap ('/' :: '*' :: commentText rest) hword
    rw [List.count_cons_of_ne (by decide), List.count_cons_of_ne (by decide)] at hread
    rw [hline]
    exact hread
  rename_i hc
  rw [if_neg hc]
  split at h
  · cases h
  cases hdigraph : (if o.digraphs then rest.head?.bind (digraph? c) else none) with
  | none =>
    rw [hdigraph] at h
    exact reads_of_stepPlain h
  | some image =>
    rw [hdigraph] at h
    have htext := newline_not_mem_digraph hdigraph
    dsimp only at h
    unfold Lexeme.ofDigraph
    dsimp only
    split at h
    · rename_i himage
      obtain ⟨t, hopen, h⟩ := bind_eq_ok.1 h
      cases h
      rw [if_pos himage]
      exact ⟨congrArg _ (List.take_append_drop 1 rest), .opening htext hopen⟩
    rename_i himage
    rw [if_neg himage]
    split at h
    · rename_i himage
      obtain ⟨t, hclose, h⟩ := bind_eq_ok.1 h
      cases h
      rw [if_pos himage]
      exact ⟨congrArg _ (List.take_append_drop 1 rest), .closing htext hclose⟩
    rename_i himage
    rw [if_neg himage]
    cases h
    exact ⟨congrArg _ (List.take_append_drop 1 rest), .letter image htext⟩

theorem rest_of_step (h : s.step o c rest = .ok (s', rest')) :
    rest' = rest.drop ((Lexeme.first o s.word c rest).text.length - 1) := by
  have htext := (reads_of_step h).1
  rw [← Lexeme.text_first_append o s.word c rest] at htext
  exact List.append_cancel_left htext

end Scanner

end WordMachine.Cflat
