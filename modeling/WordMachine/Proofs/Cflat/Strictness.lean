/-
Keywords that are not supported. A scanner that refuses them reads as one that accepts them does, up to the first
such keyword, and refuses that one: it differs only in how a word ends, and a word is ended before anything else
is read or found wrong.

Every token of a text has its place, which is the lexemes before its first one. The line of the refused keyword is
that of its place, except that line feeds in character literals do not count.
-/
import WordMachine.Proofs.Cflat.Respelling

namespace WordMachine.Cflat

/-! ## Places of tokens -/

namespace Lexeme

/-- Does the lexeme end the word before it, without being part of it? -/
def endsWord (l : Lexeme) : Bool :=
  match l.kind with
  | .letter _ | .fraction => false
  | _ => true

/-- Is the lexeme a token by itself, where so many parentheses are open? -/
def isToken (parens : Nat) (l : Lexeme) : Bool :=
  match l.kind with
  | .string | .character | .operator _ => true
  | .semicolon => parens != 0
  | _ => false

/-- The places of the tokens that end with the lexeme, or before it. `before` has the lexemes before it, and `start`
those before the word that has started there. -/
def places (before : List Lexeme) (parens : Nat) (start : Option (List Lexeme)) (l : Lexeme) : List (List Lexeme) :=
  if l.endsWord then start.toList ++ if l.isToken parens then [before] else []
  else if l.kind = .fraction then [start.getD before]
  else []

/-- The place of the word that has started after the lexeme. -/
def wordPlace (before : List Lexeme) (start : Option (List Lexeme)) (l : Lexeme) : Option (List Lexeme) :=
  match l.kind with
  | .letter _ => some (start.getD before)
  | _ => none

theorem isAlpha_digraph {c next image : Char} (h : digraph? c next = some image) : image.isAlpha = false := by
  unfold digraph? at h
  repeat' split at h
  all_goals cases h
  all_goals rfl

theorem text_plain_of_letter {word : String} {c d : Char} {rest : List Char} :
    (plain word c rest).kind = .letter d → (plain word c rest).text = [d] := by
  unfold plain
  repeat' split
  all_goals intro h
  all_goals cases h
  rfl

/-- Only characters that are no letters of the alphabet have digraphs. -/
theorem text_first_of_isAlpha {o : Options} {word : String} {c d : Char} {rest : List Char}
    (h : (first o word c rest).kind = .letter d) (hd : d.isAlpha = true) : (first o word c rest).text = [d] := by
  unfold first at h ⊢
  split at h
  · cases h
  rename_i hc
  rw [if_neg hc]
  split at h
  · cases h
  rename_i hc
  rw [if_neg hc]
  cases hdigraph : (if o.digraphs then rest.head?.bind (digraph? c) else none) with
  | none =>
    rw [hdigraph] at h
    exact text_plain_of_letter h
  | some image =>
    rw [hdigraph] at h
    dsimp only at h ⊢
    unfold ofDigraph at h
    repeat' split at h
    all_goals cases h
    split at hdigraph
    · obtain ⟨next, -, hdigraph⟩ := Option.bind_eq_some_iff.1 hdigraph
      rw [isAlpha_digraph hdigraph] at hd
      cases hd
    · cases hdigraph

end Lexeme

/-- The places of the tokens that end in the lexemes, as in `Lexeme.places`. -/
def placesFrom (before : List Lexeme) (parens : Nat) (start : Option (List Lexeme)) : List Lexeme → List (List Lexeme)
  | [] => start.toList
  | l :: ls =>
    l.places before parens start ++ placesFrom (before ++ [l]) (l.parensAfter parens) (l.wordPlace before start) ls

/-- The places of the tokens of a text. -/
def tokenPlaces (o : Options) (source : String) : List (List Lexeme) :=
  placesFrom [] 0 none (lexemes o "" source.toList)

theorem Enclosed.supported {o : Options} {n : Nat} {ts : List Token} (h : Enclosed o n ts) (ho : o.lenient = false) :
    ∀ t ∈ ts, t ∉ Token.unsupportedKeywords := by
  intro t ht
  rcases h.formed_or t ht with hformed | hbracket
  · exact hformed.supported.resolve_left (by simp [ho])
  · have hall : ∀ t ∈ ["(", ")", ";"], t ∉ Token.unsupportedKeywords := by decide
    exact hall t hbracket

namespace Scanner

variable {o : Options} {s s' t : Scanner} {c : Char} {cs rest rest' : List Char} {l : Lexeme}

/-! ## Tokens that a step adds -/

/-- The tokens that have been read. -/
def tokens (s : Scanner) : List Token := s.finished.flatMap Statement.tokens ++ s.current

/-- The word that is being read, if there is one. -/
def pending (s : Scanner) : List Token := if s.word.isEmpty then [] else [s.word]

theorem pending_of_empty (h : s.word = "") : s.pending = [] := by simp [pending, h]

theorem tokens_addToken (s : Scanner) (token : Token) (line : Nat) :
    (s.addToken token line).tokens = s.tokens ++ [token] := by
  simp [tokens, addToken]

theorem tokens_endWord (h : s.endWord o = .ok t) : t.tokens = s.tokens ++ s.pending := by
  rcases endWord_eq_ok h with ⟨hempty, rfl⟩ | ⟨hne, -, rfl⟩
  · simp [pending_of_empty hempty]
  · have hpending : s.pending = [s.word] := by simp [pending, hne]
    rw [hpending]
    exact tokens_addToken s s.word s.wordLine

theorem tokens_endStatement {opensBlock : Bool} (h : s.endStatement o opensBlock = .ok t) :
    t.tokens = s.tokens ++ s.pending := by
  obtain ⟨s', hword, h⟩ := bind_eq_ok.1 h
  rw [← tokens_endWord hword]
  split at h
  · cases h
    rfl
  · cases h
    simp [tokens]

theorem tokens_openBlock (h : s.openBlock o = .ok t) : t.tokens = s.tokens ++ s.pending := by
  unfold openBlock at h
  dsimp only at h
  split at h
  · cases h
  obtain ⟨s', hend, h⟩ := bind_eq_ok.1 h
  cases h
  rw [← tokens_endStatement hend]
  rfl

theorem tokens_closeBlock (h : s.closeBlock o = .ok t) : t.tokens = s.tokens ++ s.pending := by
  unfold closeBlock at h
  dsimp only at h
  split at h
  · cases h
  split at h
  · cases h
  obtain ⟨s', hword, h⟩ := bind_eq_ok.1 h
  have hend := tokens_endStatement h
  rw [pending_of_empty (s := { s' with depth := s'.depth - 1 }) (holds_endWord hword).word, List.append_nil] at hend
  rw [hend, ← tokens_endWord hword]
  rfl

theorem tokens_operator {op : Token} (h : s.operator o op = .ok t) : t.tokens = s.tokens ++ s.pending ++ [op] := by
  unfold operator at h
  dsimp only at h
  split at h
  · cases h
  split at h
  · cases h
  obtain ⟨s', hword, h⟩ := bind_eq_ok.1 h
  rw [← tokens_endWord hword, ← tokens_addToken s' op s'.line]
  split at h
  · cases h
    rfl
  split at h
  · cases h
    rfl
  · cases h
    rfl

/-- A lexeme that ends a word adds the word, and itself if it is a token. -/
theorem tokens_of_reads (h : s.Reads o l t) (hends : l.endsWord = true) :
    ∃ own : Option Token, t.tokens = s.tokens ++ s.pending ++ own.toList ∧ own.isSome = l.isToken s.parens := by
  cases h with
  | gap text hword => exact ⟨none, by rw [← tokens_endWord hword]; simp [tokens], rfl⟩
  | opening _ hopen => exact ⟨none, by simpa using tokens_openBlock hopen, rfl⟩
  | closing _ hclose => exact ⟨none, by simpa using tokens_closeBlock hclose, rfl⟩
  | semicolon hsemicolon =>
    unfold semicolon at hsemicolon
    split at hsemicolon
    · rename_i hparens
      exact ⟨none, by simpa using tokens_endStatement hsemicolon, by simp [Lexeme.isToken, hparens]⟩
    · rename_i hparens
      obtain ⟨s', hword, hsemicolon⟩ := bind_eq_ok.1 hsemicolon
      cases hsemicolon
      refine ⟨some ";", ?_, by simp [Lexeme.isToken, hparens]⟩
      rw [tokens_addToken, tokens_endWord hword]
      rfl
  | @string s' _ text rest hword hread =>
    obtain ⟨token, -, hcurrent⟩ := current_of_readString
      ⟨[], by simp [addChar, (holds_endWord hword).word]⟩ hread
    have hfinished := (readString_grows (grows_addChar s' '"') hread).1.keeps.finished
    refine ⟨some token, ?_, rfl⟩
    rw [← tokens_endWord hword]
    simp [tokens, hcurrent, hfinished, addChar]
  | character text value hword =>
    refine ⟨some (toString value.toNat), ?_, rfl⟩
    rw [tokens_addToken, tokens_endWord hword]
    rfl
  | fraction => cases hends
  | operator _ hoperator => exact ⟨some _, tokens_operator hoperator, rfl⟩
  | letter => cases hends

/-- A fraction ends the token that the digits before it have started. -/
theorem tokens_of_reads_fraction (h : s.Reads o l t) (hl : l.kind = .fraction) :
    ∃ token, t.tokens = s.tokens ++ [token] := by
  cases h with
  | @fraction _ text _ hword =>
    obtain ⟨hchars, hcurrent⟩ := foldl_addChar_word text (s.addChar '.')
    have hfinished := (keeps_foldl_addChar (s.addChar '.') text).finished
    have hstart : (s.addChar '.').word.toList = s.word.toList ++ ['.'] := String.toList_push ..
    generalize text.foldl addChar (s.addChar '.') = s' at *
    have hne : s'.word ≠ "" := by
      intro hempty
      simp [hempty, hstart] at hchars
    refine ⟨s'.word, ?_⟩
    rw [tokens_endWord hword]
    simp [tokens, pending, hne, hcurrent, hfinished, addChar]
  | _ => cases hl

theorem tokens_of_reads_letter (h : s.Reads o l t) (hends : l.endsWord = false) (hl : l.kind ≠ .fraction) :
    t.tokens = s.tokens := by
  cases h with
  | fraction => exact absurd rfl hl
  | letter => rfl
  | _ => cases hends

/-! ## Places -/

/-- The scanner has read the lexemes before, and those from `start` on make up the word. -/
structure WordFrom (s : Scanner) (before : List Lexeme) (start : Option (List Lexeme)) : Prop where
  line : s.line = 1 + lineFeeds (withoutCharacters before)
  pending : s.pending = start.toList.map fun _ => s.word
  wordLine : ∀ place ∈ start, s.wordLine = 1 + lineFeeds (withoutCharacters place)
  spelled : ∀ place ∈ start, (∀ c ∈ s.word.toList, c.isAlpha = true) →
    before.flatMap Lexeme.text = place.flatMap Lexeme.text ++ s.word.toList

variable {before : List Lexeme} {start : Option (List Lexeme)}

theorem WordFrom.of_word_eq_empty (hword : t.word = "") (hline : t.line = 1 + lineFeeds (withoutCharacters before)) :
    WordFrom t before none :=
  ⟨hline, pending_of_empty hword, by simp, by simp⟩

theorem WordFrom.started (h : WordFrom s before start) : start = none ↔ s.word = "" := by
  have hpending := h.pending
  unfold Scanner.pending at hpending
  cases start with
  | none =>
    split at hpending
    · rename_i hword
      simpa using hword
    · cases hpending
  | some place =>
    split at hpending
    · cases hpending
    · rename_i hword
      simpa using hword

theorem WordFrom.addChar {text : List Char} (h : WordFrom s before start) (hline : '\n' ∉ text)
    (htext : c.isAlpha = true → text = [c]) :
    WordFrom (s.addChar c) (before ++ [⟨.letter c, text⟩]) (some (start.getD before)) := by
  refine ⟨?_, ?_, ?_, ?_⟩
  · rw [withoutCharacters_append, lineFeeds_append, lineFeeds_singleton hline]
    exact h.line
  · simp [Scanner.pending, Scanner.addChar]
  · rintro place ⟨⟩
    cases start with
    | none => simpa [Scanner.addChar, h.started.1 rfl] using h.line
    | some place =>
      have hne : s.word ≠ "" := fun hword => Option.some_ne_none place (h.started.2 hword)
      simpa [Scanner.addChar, hne] using h.wordLine place rfl
  · rintro place ⟨⟩ halpha
    simp only [Scanner.addChar, String.toList_push, List.mem_append, List.mem_singleton] at halpha
    have hchar : text = [c] := htext (halpha c (.inr rfl))
    cases start with
    | none => simp [Scanner.addChar, hchar, h.started.1 rfl]
    | some place => simp [Scanner.addChar, hchar, h.spelled place rfl fun d hd => halpha d (.inl hd)]

theorem WordFrom.step (h : WordFrom s before start) (hread : s.Reads o l t)
    (htext : ∀ c, l.kind = .letter c → c.isAlpha = true → l.text = [c]) :
    WordFrom t (before ++ [l]) (l.wordPlace before start) := by
  have hfollows := follows_of_reads hread
  have hline : t.line = 1 + lineFeeds (withoutCharacters (before ++ [l])) := by
    rw [hfollows.line, h.line, withoutCharacters_append, lineFeeds_append]
    omega
  cases hread with
  | letter c hnewline => exact h.addChar hnewline (htext c rfl)
  | _ => exact .of_word_eq_empty hfollows.word hline

/-- The tokens that a step adds have the places of its lexeme. -/
theorem WordFrom.placed (h : WordFrom s before start) (hread : s.Reads o l t) :
    ∃ added : List (Token × List Lexeme), t.tokens = s.tokens ++ added.map Prod.fst ∧
      l.places before s.parens start = added.map Prod.snd ∧
      (l.endsWord = true → ∀ place ∈ start, added.head? = some (s.word, place)) := by
  unfold Lexeme.places
  cases hends : l.endsWord with
  | true =>
    obtain ⟨own, htokens, hown⟩ := tokens_of_reads hread hends
    refine ⟨start.toList.map (s.word, ·) ++ own.toList.map (·, before), ?_, ?_, ?_⟩
    · rw [htokens, h.pending]
      cases own <;> simp
    · rw [← hown]
      cases own <;> simp
    · rintro - place rfl
      rfl
  | false =>
    by_cases hl : l.kind = .fraction
    · obtain ⟨token, htoken⟩ := tokens_of_reads_fraction hread hl
      exact ⟨[(token, start.getD before)], htoken, by simp [hl], nofun⟩
    · exact ⟨[], by simpa using tokens_of_reads_letter hread hends hl, by simp [hl], nofun⟩

/-- The text ends as a lexeme ends a word. -/
theorem WordFrom.tokens_finish {statements : List Statement} (h : WordFrom s before start)
    (hfinish : s.finish o = .ok statements) :
    statements.flatMap Statement.tokens = s.tokens ++ start.toList.map fun _ => s.word := by
  unfold finish at hfinish
  dsimp only at hfinish
  split at hfinish
  · cases hfinish
  obtain ⟨t, hend, hfinish⟩ := bind_eq_ok.1 hfinish
  split at hfinish
  · cases hfinish
  cases hfinish
  rw [← h.pending, ← tokens_endStatement hend]
  have hcurrent : t.current = [] := by
    have hstart := (ends_endStatement hend).start
    unfold start? at hstart
    split at hstart
    · cases hstart
    · rename_i hempty
      simpa using hempty
  simp [tokens, hcurrent]

/-! ## The two readings of a step -/

/-- The error for the word that is being read. -/
def refusal (s : Scanner) : Error := ⟨s.wordLine, .illegalToken s.word .unsupportedKeyword⟩

/-- The strict reading is the lenient one, or it refuses the word, where it ends. -/
def Narrows {α : Type} (s : Scanner) (ends : Bool) (strict lenient : Except Error α) : Prop :=
  strict = lenient ∨ ends = true ∧ s.word ∈ Token.unsupportedKeywords ∧ strict = .error s.refusal

variable {α β : Type} {ends : Bool} {x y : Except Error α}

theorem Narrows.same (h : x = y) : Narrows s ends x y := .inl h

theorem Narrows.bind {f g : α → Except Error β} (h : Narrows s ends x y) (hfg : ∀ a, y = .ok a → f a = g a) :
    Narrows s ends (x >>= f) (y >>= g) := by
  rcases h with rfl | ⟨hends, hword, rfl⟩
  · cases x with
    | error e => exact .inl rfl
    | ok a => exact .inl (hfg a rfl)
  · exact .inr ⟨hends, hword, rfl⟩

theorem Narrows.of_ok {a : α} (h : Narrows s ends x y) (hx : x = .ok a) : y = .ok a := by
  rcases h with rfl | ⟨-, -, rfl⟩
  · exact hx
  · cases hx

/-- A word ends the same way for all options, if it is no keyword that may be refused. -/
theorem endWord_congr {o' : Options} (h : s.word ∉ Token.unsupportedKeywords) : s.endWord o = s.endWord o' := by
  simp [endWord, h]

/-- No keyword has a quote or a point in it. -/
theorem endWord_congr_of_mem (h : '"' ∈ s.word.toList ∨ '.' ∈ s.word.toList) (o o' : Options) :
    s.endWord o = s.endWord o' := by
  have hall : ∀ t ∈ Token.unsupportedKeywords, '"' ∉ t.toList ∧ '.' ∉ t.toList := by decide
  exact endWord_congr fun hmem => h.elim (hall s.word hmem).1 (hall s.word hmem).2

theorem readString_congr (o o' : Options) (s : Scanner) (cs : List Char) :
    s.readString o cs = s.readString o' cs := by
  have hend (s : Scanner) : (s.addChar '"').endWord o = (s.addChar '"').endWord o' :=
    endWord_congr_of_mem (by simp [addChar]) o o'
  fun_induction readString o s cs with
  | case1 s => rw [readString]
  | case2 s => rw [readString]
  | case3 s e cs value he ih => rw [readString, he, ih]
  | case4 s e cs he => rw [readString, he]
  | case5 s cs t hword =>
    rw [readString_quote, ← hend, hword]
    rfl
  | case6 s cs e hword =>
    rw [readString_quote, ← hend, hword]
    rfl
  | case7 s cs _ _ _ ih => rw [readString_newline, ih]
  | case8 s c cs hend hescape hquote hnewline ih =>
    have hc := ne_backslash hend hescape
    rw [readString_char (by simp [hc, hquote, hnewline]), ih]

theorem endWord_fraction_congr (o o' : Options) (s : Scanner) (text : List Char) :
    (text.foldl addChar (s.addChar '.')).endWord o = (text.foldl addChar (s.addChar '.')).endWord o' := by
  refine endWord_congr_of_mem (.inr ?_) o o'
  rw [(foldl_addChar_word text (s.addChar '.')).1]
  simp [addChar]

section

variable {strict : Options} (hstrict : strict.lenient = false)

include hstrict

theorem narrows_endWord (s : Scanner) : Narrows s true (s.endWord strict) (s.endWord o) := by
  by_cases hword : s.word ∈ Token.unsupportedKeywords
  · have hne : s.word ≠ "" := by
      intro hempty
      rw [hempty] at hword
      exact absurd hword (by decide)
    exact .inr ⟨rfl, hword, by simp [endWord, hne, hstrict, hword, refusal]⟩
  · exact .same (endWord_congr hword)

theorem narrows_endStatement (s : Scanner) (opensBlock : Bool) :
    Narrows s true (s.endStatement strict opensBlock) (s.endStatement o opensBlock) :=
  (narrows_endWord hstrict s).bind fun _ _ => rfl

theorem narrows_openBlock (s : Scanner) : Narrows s true (s.openBlock strict) (s.openBlock o) := by
  unfold openBlock
  dsimp only
  by_cases hparens : 0 < s.parens
  · rw [if_pos hparens, if_pos hparens]
    exact .same rfl
  rw [if_neg hparens, if_neg hparens]
  exact (narrows_endStatement hstrict s true).bind fun _ _ => rfl

theorem narrows_closeBlock (s : Scanner) : Narrows s true (s.closeBlock strict) (s.closeBlock o) := by
  unfold closeBlock
  dsimp only
  by_cases hparens : 0 < s.parens
  · rw [if_pos hparens, if_pos hparens]
    exact .same rfl
  rw [if_neg hparens, if_neg hparens]
  by_cases hdepth : s.depth = 0
  · rw [if_pos hdepth, if_pos hdepth]
    exact .same rfl
  rw [if_neg hdepth, if_neg hdepth]
  refine (narrows_endWord hstrict s).bind fun t ht => ?_
  -- the word has been ended, so that the end of the statement finds none
  have hempty : ({ t with depth := t.depth - 1 } : Scanner).word = "" := (holds_endWord ht).word
  unfold endStatement
  rw [endWord_of_empty hempty, endWord_of_empty hempty]

theorem narrows_semicolon (s : Scanner) : Narrows s true (s.semicolon strict) (s.semicolon o) := by
  unfold semicolon
  split
  · exact narrows_endStatement hstrict s false
  · exact (narrows_endWord hstrict s).bind fun _ _ => rfl

theorem narrows_operator (s : Scanner) (op : Token) : Narrows s true (s.operator strict op) (s.operator o op) := by
  unfold operator
  dsimp only
  by_cases hrefused : op = "++" ∨ op = "--"
  · rw [if_pos hrefused, if_pos hrefused]
    exact .same rfl
  rw [if_neg hrefused, if_neg hrefused]
  by_cases hclose : op = ")" ∧ s.parens = 0
  · rw [if_pos hclose, if_pos hclose]
    exact .same rfl
  rw [if_neg hclose, if_neg hclose]
  exact (narrows_endWord hstrict s).bind fun _ _ => rfl

theorem narrows_stepPlain (s : Scanner) (c : Char) (rest : List Char) :
    Narrows s (Lexeme.plain s.word c rest).endsWord (s.stepPlain strict c rest) (s.stepPlain o c rest) := by
  have hword := narrows_endWord (o := o) hstrict s
  unfold stepPlain Lexeme.plain
  by_cases hc : c = '\n'
  · rw [if_pos hc, if_pos hc, if_pos (by rw [hc]; decide)]
    exact hword.bind fun _ _ => rfl
  rw [if_neg hc, if_neg hc]
  by_cases hc : Text.isBlank c = true
  · rw [if_pos hc, if_pos hc, if_pos hc]
    exact hword.bind fun _ _ => rfl
  rw [if_neg hc, if_neg hc, if_neg hc]
  by_cases hc : c = '\x7b'
  · rw [if_pos hc, if_pos hc, if_pos hc]
    exact (narrows_openBlock hstrict s).bind fun _ _ => rfl
  rw [if_neg hc, if_neg hc, if_neg hc]
  by_cases hc : c = '\x7d'
  · rw [if_pos hc, if_pos hc, if_pos hc]
    exact (narrows_closeBlock hstrict s).bind fun _ _ => rfl
  rw [if_neg hc, if_neg hc, if_neg hc]
  by_cases hc : c = ';'
  · rw [if_pos hc, if_pos hc, if_pos hc]
    exact (narrows_semicolon hstrict s).bind fun _ _ => rfl
  rw [if_neg hc, if_neg hc, if_neg hc]
  by_cases hc : c = '"'
  · rw [if_pos hc, if_pos hc, if_pos hc]
    exact hword.bind fun t _ => readString_congr strict o (t.addChar '"') rest
  rw [if_neg hc, if_neg hc, if_neg hc]
  by_cases hc : c = '\x27'
  · rw [if_pos hc, if_pos hc, if_pos hc]
    cases readCharacter rest with
    | error fault => exact .same rfl
    | ok read => exact hword.bind fun _ _ => rfl
  rw [if_neg hc, if_neg hc, if_neg hc]
  by_cases hc : c = '.' ∧ isDecimalPoint s.word rest = true
  · rw [if_pos hc, if_pos hc, if_pos hc]
    refine .same ?_
    dsimp only
    rw [endWord_fraction_congr strict o]
  rw [if_neg hc, if_neg hc, if_neg hc]
  cases operatorAt? (c :: rest) with
  | none => exact .same rfl
  | some op => exact (narrows_operator hstrict s op).bind fun _ _ => rfl

theorem narrows_step (hdigraphs : strict.digraphs = o.digraphs) (s : Scanner) (c : Char) (rest : List Char) :
    Narrows s (Lexeme.first o s.word c rest).endsWord (s.step strict c rest) (s.step o c rest) := by
  have hword := narrows_endWord (o := o) hstrict s
  unfold step Lexeme.first
  rw [hdigraphs]
  by_cases hline : c = '/' ∧ rest.head? = some '/'
  · rw [if_pos hline, if_pos hline, if_pos hline]
    exact hword.bind fun _ _ => rfl
  rw [if_neg hline, if_neg hline, if_neg hline]
  by_cases hblock : c = '/' ∧ rest.head? = some '*'
  · rw [if_pos hblock, if_pos hblock, if_pos hblock]
    exact hword.bind fun _ _ => rfl
  rw [if_neg hblock, if_neg hblock, if_neg hblock]
  by_cases hstray : c = '*' ∧ rest.head? = some '/'
  · rw [if_pos hstray, if_pos hstray]
    exact .same rfl
  rw [if_neg hstray, if_neg hstray]
  cases (if o.digraphs then rest.head?.bind (digraph? c) else none) with
  | none => exact narrows_stepPlain hstrict s c rest
  | some image =>
    dsimp only
    unfold Lexeme.ofDigraph
    by_cases himage : image = '\x7b'
    · rw [if_pos himage, if_pos himage, if_pos himage]
      exact (narrows_openBlock hstrict s).bind fun _ _ => rfl
    rw [if_neg himage, if_neg himage, if_neg himage]
    by_cases himage : image = '\x7d'
    · rw [if_pos himage, if_pos himage, if_pos himage]
      exact (narrows_closeBlock hstrict s).bind fun _ _ => rfl
    rw [if_neg himage, if_neg himage, if_neg himage]
    exact .same rfl

theorem narrows_finish (s : Scanner) : Narrows s true (s.finish strict) (s.finish o) := by
  unfold finish
  dsimp only
  by_cases hparens : s.parens ≠ 0
  · rw [if_pos hparens, if_pos hparens]
    exact .same rfl
  rw [if_neg hparens, if_neg hparens]
  exact (narrows_endStatement hstrict s false).bind fun _ _ => rfl

/-! ## Whole texts -/

/-- What the strict scanner reads, every scanner reads in the same way. -/
theorem run_of_strict (hdigraphs : strict.digraphs = o.digraphs) (h : s.run strict cs = .ok t) :
    s.run o cs = .ok t := by
  fun_induction Scanner.run strict s cs with
  | case1 s =>
    rw [Scanner.run]
    exact h
  | case2 => cases h
  | case3 s c rest s' rest' hstep ih =>
    rw [run_cons, (narrows_step hstrict hdigraphs s c rest).of_ok hstep]
    exact ih h

end

/-- The error is that for the first of the tokens that is not supported, which stands in the text at its place. -/
def RefusesFirst (placed : List (Token × List Lexeme)) (text : List Char) (e : Error) : Prop :=
  ∃ token place, placed.find? (fun p => Token.unsupportedKeywords.contains p.1) = some (token, place) ∧
    place.flatMap Lexeme.text ++ token.toList <+: text ∧
    e = ⟨1 + lineFeeds (withoutCharacters place), .illegalToken token .unsupportedKeyword⟩

theorem RefusesFirst.append {added placed : List (Token × List Lexeme)} {text : List Char} {e : Error}
    (h : RefusesFirst placed text e) (hadded : ∀ p ∈ added, p.1 ∉ Token.unsupportedKeywords) :
    RefusesFirst (added ++ placed) text e := by
  obtain ⟨token, place, hfind, h⟩ := h
  refine ⟨token, place, ?_, h⟩
  rw [List.find?_append, List.find?_eq_none.2 (by simpa using hadded), hfind]
  rfl

theorem scanRest_nil (o : Options) (s : Scanner) : s.scanRest o [] = s.finish o := by
  unfold scanRest
  rw [Scanner.run]
  rfl

/-- A keyword is refused where it ends. -/
theorem WordFrom.refusesFirst {placed : List (Token × List Lexeme)} (h : WordFrom s before start)
    (hword : s.word ∈ Token.unsupportedKeywords) (hplaced : ∀ place ∈ start, placed.head? = some (s.word, place))
    (cs : List Char) : RefusesFirst placed (before.flatMap Lexeme.text ++ cs) s.refusal := by
  have hall : ∀ t ∈ Token.unsupportedKeywords, t ≠ "" ∧ t.toList.all Char.isAlpha = true := by decide
  obtain ⟨hne, halpha⟩ := hall s.word hword
  obtain ⟨place, rfl⟩ : ∃ place, start = some place :=
    Option.ne_none_iff_exists'.1 fun hnone => hne (h.started.1 hnone)
  obtain ⟨more, rfl⟩ := List.head?_eq_some_iff.1 (hplaced place rfl)
  refine ⟨s.word, place, by simp [hword], ?_, ?_⟩
  · rw [h.spelled place rfl (List.all_eq_true.1 halpha)]
    exact List.prefix_append ..
  · rw [refusal, h.wordLine place rfl]

theorem Forming.supported (h : s.Forming o) (ho : o.lenient = false) :
    ∀ t ∈ s.tokens, t ∉ Token.unsupportedKeywords := by
  intro t ht
  rcases List.mem_append.1 ht with ht | ht
  · obtain ⟨st, hst, ht⟩ := List.mem_flatMap.1 ht
    exact (h.finished st hst).2.supported ho t ht
  · exact h.current.supported ho t ht

/-- The tokens of the lenient reading have their places, and the strict reading refuses the first of them that is not
supported, if it fails. -/
theorem WordFrom.run {strict : Options} {statements : List Statement} (hstrict : strict.lenient = false)
    (hdigraphs : strict.digraphs = o.digraphs) (h : WordFrom s before start) (hrun : s.run o cs = .ok t)
    (hfinish : t.finish o = .ok statements) :
    ∃ placed : List (Token × List Lexeme), statements.flatMap Statement.tokens = s.tokens ++ placed.map Prod.fst ∧
      placesFrom before s.parens start (lexemes o s.word cs) = placed.map Prod.snd ∧
      (s.Forming strict → ∀ e, s.scanRest strict cs = .error e →
        RefusesFirst placed (before.flatMap Lexeme.text ++ cs) e) := by
  fun_induction Scanner.run o s cs generalizing before start with
  | case1 s =>
    cases hrun
    refine ⟨start.toList.map (t.word, ·), ?_, by simp [lexemes, placesFrom], ?_⟩
    · simpa using h.tokens_finish hfinish
    intro _ e he
    rw [scanRest_nil] at he
    rcases narrows_finish (o := o) hstrict t with hsame | ⟨-, hword, hrefused⟩
    · rw [hsame, hfinish] at he
      cases he
    · rw [hrefused] at he
      cases he
      exact h.refusesFirst hword (by rintro place rfl; rfl) []
  | case2 => cases hrun
  | case3 s c rest s' rest' hstep ih =>
    obtain ⟨htext, hread⟩ := reads_of_step hstep
    have hfollows := follows_of_reads hread
    have hreading := h.step hread fun _ => Lexeme.text_first_of_isAlpha
    obtain ⟨added, htokens, hplaces, hhead⟩ := h.placed hread
    obtain ⟨placed, htokens', hplaces', hrefused⟩ := ih hreading hrun
    refine ⟨added ++ placed, ?_, ?_, ?_⟩
    · rw [htokens', htokens, List.map_append, List.append_assoc]
    · rw [lexemes, placesFrom, List.map_append, ← hplaces, ← hplaces', hfollows.word, hfollows.parens,
        rest_of_step hstep]
    intro hforming e he
    rcases narrows_step hstrict hdigraphs s c rest with hsame | ⟨hends, hword, hrefuses⟩
    · rw [hstep] at hsame
      rw [scanRest_step hsame] at he
      have hforming' := hforming.reads (Lexeme.suits_first strict s.word c rest) (reads_of_step hsame).2
      have hrefused := hrefused hforming' e he
      -- the strict scanner has read the tokens that this step adds, so that none of them is the refused one
      rw [List.flatMap_append, List.flatMap_singleton, List.append_assoc, htext] at hrefused
      refine hrefused.append fun p hp => hforming'.supported hstrict p.1 ?_
      rw [htokens]
      exact List.mem_append_right _ (List.mem_map_of_mem hp)
    · have hfails : s.scanRest strict (c :: rest) = .error s.refusal := by
        unfold scanRest
        rw [run_cons, hrefuses]
        rfl
      rw [hfails] at he
      cases he
      refine h.refusesFirst hword (fun place hplace => ?_) (c :: rest)
      rw [List.head?_append, hhead hends place hplace]
      rfl

end Scanner

section

variable {o : Options} {source : String} {statements : List Statement}

theorem scan_of_strict (h : Statement.scan { o with lenient := false } source = .ok statements) :
    Statement.scan { o with lenient := true } source = .ok statements := by
  have hstrict : ({ o with lenient := false } : Options).lenient = false := rfl
  obtain ⟨s, hrun, hfinish⟩ := bind_eq_ok.1 h
  exact bind_eq_ok.2 ⟨s, Scanner.run_of_strict hstrict rfl hrun, (Scanner.narrows_finish hstrict s).of_ok hfinish⟩

theorem supported_of_scan (h : Statement.scan o source = .ok statements) (ho : o.lenient = false) :
    ∀ t ∈ statements.flatMap Statement.tokens, t ∉ Token.unsupportedKeywords := by
  intro t ht
  obtain ⟨st, hst, ht⟩ := List.mem_flatMap.1 ht
  exact (enclosed_of_scan h st hst).2.supported ho t ht

/-- The tokens of a text have their places, and the first one that is not supported is refused by strict options. -/
theorem refusesFirst_of_scan (h : Statement.scan { o with lenient := true } source = .ok statements) :
    ∃ placed : List (Token × List Lexeme), statements.flatMap Statement.tokens = placed.map Prod.fst ∧
      tokenPlaces { o with lenient := true } source = placed.map Prod.snd ∧
      ∀ e, Statement.scan { o with lenient := false } source = .error e →
        Scanner.RefusesFirst placed source.toList e := by
  have hstrict : ({ o with lenient := false } : Options).lenient = false := rfl
  have hdigraphs : { o with lenient := false }.digraphs = { o with lenient := true }.digraphs := rfl
  obtain ⟨s, hrun, hfinish⟩ := bind_eq_ok.1 h
  have hstart : Scanner.WordFrom {} [] none := .of_word_eq_empty rfl rfl
  obtain ⟨placed, htokens, hplaces, hrefused⟩ := hstart.run hstrict hdigraphs hrun hfinish
  exact ⟨placed, htokens, hplaces, hrefused ⟨by simp, .nil, by simp⟩⟩

end

theorem lineFeeds_withoutCharacters (ls : List Lexeme) :
    lineFeeds (withoutCharacters ls) = lineFeeds ls ↔ ∀ l ∈ ls, l.kind = .character → '\n' ∉ l.text := by
  rw [lineFeeds_eq_add ls, Nat.left_eq_add, lineFeeds_eq_zero]
  simp

/-- A text without keywords that are not supported is read in the same way whether they are accepted or not. Of
another text that is read where they are accepted, the first such keyword is refused where they are not. The line of
the error is that on which the keyword starts exactly if no character literal before it has a line feed. -/
theorem scan_strict (o : Options) (source : String) :
    (∀ statements, Statement.scan { o with lenient := false } source = .ok statements →
      Statement.scan { o with lenient := true } source = .ok statements) ∧
    ∀ statements, Statement.scan { o with lenient := true } source = .ok statements →
      let tokens := statements.flatMap Statement.tokens
      let places := tokenPlaces { o with lenient := true } source
      tokens.length = places.length ∧
      (Statement.scan { o with lenient := false } source = .ok statements ∧
          (∀ t ∈ tokens, t ∉ Token.unsupportedKeywords) ∨
        ∃ e token place, Statement.scan { o with lenient := false } source = .error e ∧
          (tokens.zip places).find? (fun p => Token.unsupportedKeywords.contains p.1) = some (token, place) ∧
          place.flatMap Lexeme.text ++ token.toList <+: source.toList ∧
          e = ⟨1 + lineFeeds (withoutCharacters place), .illegalToken token .unsupportedKeyword⟩ ∧
          (e.line = 1 + lineFeeds place ↔ ∀ l ∈ place, l.kind = .character → '\n' ∉ l.text)) := by
  refine ⟨fun statements => scan_of_strict, fun statements h => ?_⟩
  obtain ⟨placed, htokens, hplaces, hrefused⟩ := refusesFirst_of_scan h
  rw [htokens, hplaces]
  refine ⟨by simp, ?_⟩
  cases hscan : Statement.scan { o with lenient := false } source with
  | ok strict =>
    have hsame := scan_of_strict hscan
    rw [h] at hsame
    cases hsame
    rw [← htokens]
    exact .inl ⟨rfl, supported_of_scan hscan rfl⟩
  | error e =>
    obtain ⟨token, place, hfind, hfront, rfl⟩ := hrefused e hscan
    refine .inr ⟨_, token, place, rfl, ?_, hfront, rfl, ?_⟩
    · rw [← List.zip_of_prod rfl rfl]
      exact hfind
    · rw [← lineFeeds_withoutCharacters]
      exact Nat.add_left_cancel_iff

/-- A keyword in a string literal is none, and of two keywords the first is refused. -/
theorem scan_strict_two_keywords :
    let source := "int x; /*\n*/ f(\"long\",\n static long y)"
    let statements : List Statement :=
      [⟨1, 0, ["int", "x"], false⟩, ⟨2, 0, ["f", "(", "\"long\"", ",", "static", "long", "y", ")"], false⟩]
    Statement.scan { lenient := true } source = .ok statements ∧
      Statement.scan {} source = .error ⟨3, .illegalToken "static" .unsupportedKeyword⟩ ∧
      ∃ place ∈ tokenPlaces { lenient := true } source, 1 + lineFeeds (withoutCharacters place) = 3 ∧
        place.flatMap Lexeme.text ++ "static".toList <+: source.toList := by
  intro source statements
  have hscan : Statement.scan { lenient := true } source = .ok statements := by decide +kernel
  have hstrict : Statement.scan {} source = .error ⟨3, .illegalToken "static" .unsupportedKeyword⟩ := by decide +kernel
  rcases ((scan_strict {} source).2 statements hscan).2 with ⟨hok, -⟩ | ⟨e, token, place, he, hfind, hfront, rfl, -⟩
  · rw [hstrict] at hok
    cases hok
  · rw [hstrict] at he
    simp only [Except.error.injEq, Error.mk.injEq, Fault.illegalToken.injEq, and_true] at he
    obtain ⟨hline, rfl⟩ := he
    have hplace := (List.of_mem_zip (List.mem_of_find?_eq_some hfind)).2
    exact ⟨hscan, hstrict, place, hplace, hline.symm, hfront⟩

/-- The line feed of a character literal does not advance the line of a keyword that is refused. -/
theorem refused_after_newline_character :
    let source := "'\n' long;"
    Statement.scan { lenient := true } source = .ok [⟨1, 0, ["10", "long"], false⟩] ∧
      Statement.scan {} source = .error ⟨1, .illegalToken "long" .unsupportedKeyword⟩ ∧
      (tokenPlaces { lenient := true } source).map (1 + lineFeeds ·) = [1, 2] := by
  decide +kernel

end WordMachine.Cflat
