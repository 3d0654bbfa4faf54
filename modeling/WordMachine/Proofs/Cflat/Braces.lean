/-
The braces and statements of a source text, in the order in which they are read. The depth that a
statement is found at is the number of braces that are open there, so that a text that is read to its end
is a block: statements, with and without braces of their own, and braces that no statement stands before.
-/
import WordMachine.Cflat.Statement.Scan
import WordMachine.Proofs.Result

namespace WordMachine.Cflat

/-! ## Marks -/

/-- What gives a text its structure. -/
inductive Mark where
  /-- A statement with a semicolon after it. -/
  | statement (s : Statement)
  /-- A statement that ends with a closing brace or with the text. -/
  | unended (s : Statement)
  /-- An opening brace, with the statement that stands before it. -/
  | opening (header : Option Statement)
  | closing
  deriving Repr, DecidableEq

def Mark.statements : Mark → List Statement
  | .statement s | .unended s => [s]
  | .opening header => header.toList
  | .closing => []

/-- The brace that a piece of text is, perhaps as a digraph. -/
def braceAt? (o : Options) (c : Char) (rest : List Char) : Option Char :=
  let image := (if o.digraphs then rest.head?.bind (digraph? c) else none).getD c
  if image = '\x7b' ∨ image = '\x7d' then some image else none

namespace Scanner

/-- The marks of the piece of text that starts with `c`, by what is known after it. -/
def marks (o : Options) (s : Scanner) (c : Char) (rest : List Char) (after : Scanner) : List Mark :=
  let ended := after.finished.drop s.finished.length
  match braceAt? o c rest with
  | none => ended.map .statement
  | some brace => if brace = '\x7b' then [.opening ended.head?] else ended.map .unended ++ [.closing]

/-- The marks of a text. -/
def trace (o : Options) (s : Scanner) : List Char → List Mark
  | [] =>
    match s.endStatement o false with
    | .error _ => []
    | .ok s' => (s'.finished.drop s.finished.length).map .unended
  | c :: rest =>
    match _h : s.step o c rest with
    | .error _ => []
    | .ok (s', rest') => s.marks o c rest s' ++ trace o s' rest'
termination_by cs => cs.length
decreasing_by exact Nat.lt_succ_of_le (length_step _h)

end Scanner

/-- Every brace that closes was opened, and a statement lies at the depth of the braces around it;
`depth` braces are open before the marks, and none after them. -/
def Consistent : Nat → List Mark → Prop
  | depth, [] => depth = 0
  | depth, .statement s :: ms => (s.depth = depth ∧ s.opensBlock = false) ∧ Consistent depth ms
  | depth, .unended _ :: ms => Consistent depth ms
  | depth, .opening header :: ms =>
    (∀ s ∈ header, s.depth = depth ∧ s.opensBlock = true) ∧ Consistent (depth + 1) ms
  | depth + 1, .closing :: ms => Consistent depth ms
  | 0, .closing :: _ => False

theorem consistent_unended {depth : Nat} {ms : List Mark} (ss : List Statement) (h : Consistent depth ms) :
    Consistent depth (ss.map .unended ++ ms) := by
  induction ss with
  | nil => exact h
  | cons s ss ih => exact ih

/-! ## Steps of the scanner -/

namespace Scanner

variable {o : Options} {s s' after : Scanner} {c : Char} {rest rest' : List Char}

/-- No brace has been read, and no statement has ended. -/
structure Keeps (s after : Scanner) : Prop where
  depth : after.depth = s.depth
  finished : after.finished = s.finished

theorem Keeps.refl (s : Scanner) : Keeps s s := ⟨rfl, rfl⟩

theorem Keeps.trans (h : Keeps s s') (h' : Keeps s' after) : Keeps s after :=
  ⟨h'.depth.trans h.depth, h'.finished.trans h.finished⟩

theorem keeps_addChar (s : Scanner) (c : Char) : Keeps s (s.addChar c) := ⟨rfl, rfl⟩

theorem keeps_addToken (s : Scanner) (t : Token) (line : Nat) : Keeps s (s.addToken t line) := ⟨rfl, rfl⟩

theorem keeps_endWord (h : s.endWord o = .ok after) : Keeps s after := by
  unfold endWord at h
  split at h
  · cases h
    exact .refl _
  · split at h
    · cases h
    · cases h
      exact ⟨rfl, rfl⟩

theorem keeps_readString {cs : List Char} (h : s.readString o cs = .ok (after, rest)) : Keeps s after := by
  fun_induction readString o s cs with
  | case1 => cases h
  | case2 => cases h
  | case3 s _ _ value _ ih => exact (keeps_addChar s value).trans (ih h)
  | case4 => cases h
  | case5 =>
    cases h
    exact (keeps_addChar _ '"').trans (keeps_endWord ‹_›)
  | case6 => cases h
  | case7 s _ _ _ _ ih =>
    have hline : Keeps s { s with line := s.line + 1 } := ⟨rfl, rfl⟩
    exact hline.trans (ih h)
  | case8 s c _ _ _ _ _ ih => exact (keeps_addChar s c).trans (ih h)

theorem keeps_foldl_addChar (s : Scanner) (cs : List Char) : Keeps s (cs.foldl addChar s) := by
  induction cs generalizing s with
  | nil => exact .refl s
  | cons c cs ih => exact (keeps_addChar s c).trans (ih (s.addChar c))

theorem keeps_operator {op : Token} (h : s.operator o op = .ok after) : Keeps s after := by
  unfold operator at h
  dsimp only at h
  split at h
  · cases h
  · split at h
    · cases h
    · obtain ⟨s', hword, h⟩ := bind_eq_ok.1 h
      refine (keeps_endWord hword).trans ((keeps_addToken s' op s'.line).trans ?_)
      repeat' split at h
      all_goals cases h; exact ⟨rfl, rfl⟩

/-- The statement that ends, if it has a token, lies at the scanner's depth. -/
theorem finished_endStatement {opensBlock : Bool} (h : s.endStatement o opensBlock = .ok after) :
    after.depth = s.depth ∧ ∃ ended : Option Statement, after.finished = s.finished ++ ended.toList ∧
      ∀ t ∈ ended, t.depth = s.depth ∧ t.opensBlock = opensBlock := by
  obtain ⟨s', hword, h⟩ := bind_eq_ok.1 h
  obtain ⟨hdepth, hfinished⟩ := keeps_endWord hword
  split at h
  · cases h
    exact ⟨hdepth, none, by simp [hfinished], by simp⟩
  · cases h
    refine ⟨hdepth, some _, by rw [hfinished]; rfl, ?_⟩
    rintro t ⟨⟩
    exact ⟨hdepth, rfl⟩

/-- The marks tell what a piece of text has changed. -/
structure Marked (s : Scanner) (ms : List Mark) (after : Scanner) : Prop where
  finished : after.finished = s.finished ++ ms.flatMap Mark.statements
  consistent : ∀ {ms' : List Mark}, Consistent after.depth ms' → Consistent s.depth (ms ++ ms')

theorem Marked.of_keeps (h : Keeps s after) (hbrace : braceAt? o c rest = none) :
    Marked s (s.marks o c rest after) after := by
  have hmarks : s.marks o c rest after = [] := by simp [marks, hbrace, h.finished]
  rw [hmarks]
  exact ⟨by simp [h.finished], fun hms => h.depth ▸ hms⟩

theorem Marked.of_openBlock (hbrace : braceAt? o c rest = some '\x7b') (h : s.openBlock o = .ok after) :
    Marked s (s.marks o c rest after) after := by
  unfold openBlock at h
  dsimp only at h
  split at h
  · cases h
  · obtain ⟨s', hend, h⟩ := bind_eq_ok.1 h
    cases h
    obtain ⟨hdepth, ended, hfinished, hended⟩ := finished_endStatement hend
    have hmarks : s.marks o c rest { s' with depth := s'.depth + 1 } = [.opening ended] := by
      simp [marks, hbrace, hfinished]
    rw [hmarks]
    exact ⟨by simpa [Mark.statements] using hfinished, fun hms => ⟨hended, hdepth ▸ hms⟩⟩

theorem Marked.of_closeBlock (hbrace : braceAt? o c rest = some '\x7d') (h : s.closeBlock o = .ok after) :
    Marked s (s.marks o c rest after) after := by
  unfold closeBlock at h
  dsimp only at h
  split at h
  · cases h
  · split at h
    · cases h
    · rename_i hopen
      obtain ⟨s', hword, h⟩ := bind_eq_ok.1 h
      obtain ⟨hdepth, hkept⟩ := keeps_endWord hword
      obtain ⟨hafter, ended, hfinished, -⟩ := finished_endStatement h
      dsimp only at hafter hfinished
      rw [hkept] at hfinished
      have hmarks : s.marks o c rest after = ended.toList.map .unended ++ [.closing] := by
        simp [marks, hbrace, hfinished]
      rw [hmarks]
      refine ⟨?_, fun hms => ?_⟩
      · cases ended <;> simp [hfinished, Mark.statements]
      · rw [List.append_assoc]
        obtain ⟨depth, hs⟩ := Nat.exists_eq_succ_of_ne_zero hopen
        rw [hs]
        refine consistent_unended _ ?_
        rw [hafter, hdepth, hs] at hms
        exact hms

theorem Marked.of_semicolon (hbrace : braceAt? o c rest = none) (h : s.semicolon o = .ok after) :
    Marked s (s.marks o c rest after) after := by
  unfold semicolon at h
  split at h
  · obtain ⟨hdepth, ended, hfinished, hended⟩ := finished_endStatement h
    have hmarks : s.marks o c rest after = ended.toList.map .statement := by
      simp [marks, hbrace, hfinished]
    rw [hmarks]
    refine ⟨?_, fun hms => ?_⟩
    · cases ended <;> simp [hfinished, Mark.statements]
    · rw [hdepth] at hms
      cases ended with
      | none => exact hms
      | some t => exact ⟨hended t rfl, hms⟩
  · obtain ⟨s', hword, h⟩ := bind_eq_ok.1 h
    cases h
    exact .of_keeps ((keeps_endWord hword).trans (keeps_addToken s' ";" s'.line)) hbrace

/-! ## Pieces of text -/

theorem braceAt?_of_plain (hdigraph : (if o.digraphs then rest.head?.bind (digraph? c) else none) = none) :
    braceAt? o c rest = if c = '\x7b' ∨ c = '\x7d' then some c else none := by
  simp [braceAt?, hdigraph]

/-- A piece of text, a digraph or comment apart. -/
theorem marked_stepPlain (hdigraph : (if o.digraphs then rest.head?.bind (digraph? c) else none) = none)
    (h : s.stepPlain o c rest = .ok (after, rest')) : Marked s (s.marks o c rest after) after := by
  have hbrace := braceAt?_of_plain hdigraph
  unfold stepPlain at h
  split at h
  · subst c
    obtain ⟨s', hword, h⟩ := bind_eq_ok.1 h
    cases h
    exact .of_keeps (.trans (keeps_endWord hword) ⟨rfl, rfl⟩) hbrace
  split at h
  · rename_i hblank
    obtain ⟨s', hword, h⟩ := bind_eq_ok.1 h
    cases h
    refine .of_keeps (keeps_endWord hword) (hbrace.trans (if_neg ?_))
    rintro (rfl | rfl) <;> cases hblank
  split at h
  · subst c
    obtain ⟨s', hopen, h⟩ := bind_eq_ok.1 h
    cases h
    exact .of_openBlock hbrace hopen
  split at h
  · subst c
    obtain ⟨s', hclose, h⟩ := bind_eq_ok.1 h
    cases h
    exact .of_closeBlock hbrace hclose
  rename_i hopen hclose
  rw [if_neg (not_or.2 ⟨hopen, hclose⟩)] at hbrace
  split at h
  · obtain ⟨s', hsemicolon, h⟩ := bind_eq_ok.1 h
    cases h
    exact .of_semicolon hbrace hsemicolon
  -- no other piece ends a statement
  refine .of_keeps ?_ hbrace
  split at h
  · obtain ⟨s', hword, h⟩ := bind_eq_ok.1 h
    exact (keeps_endWord hword).trans ((keeps_addChar s' '"').trans (keeps_readString h))
  split at h
  · split at h
    · cases h
    · obtain ⟨s', hword, h⟩ := bind_eq_ok.1 h
      cases h
      exact (keeps_endWord hword).trans (keeps_addToken s' _ _)
  split at h
  · obtain ⟨s', hword, h⟩ := bind_eq_ok.1 h
    cases h
    exact (keeps_addChar s '.').trans ((keeps_foldl_addChar _ _).trans (keeps_endWord hword))
  split at h
  · obtain ⟨s', hoperator, h⟩ := bind_eq_ok.1 h
    cases h
    exact keeps_operator hoperator
  · cases h
    exact keeps_addChar s c

theorem marked_step (h : s.step o c rest = .ok (after, rest')) : Marked s (s.marks o c rest after) after := by
  have hslash {cs : List Char} : braceAt? o '/' cs = none := by
    have hdigraph (d : Char) : digraph? '/' d = none := by simp [digraph?]
    cases cs <;> simp [braceAt?, hdigraph]
  unfold step at h
  split at h
  · rename_i hc
    obtain ⟨s', hword, h⟩ := bind_eq_ok.1 h
    cases h
    exact .of_keeps (keeps_endWord hword) (hc.1 ▸ hslash)
  split at h
  · rename_i hc
    obtain ⟨s', hword, h⟩ := bind_eq_ok.1 h
    obtain ⟨skipped, -, h⟩ := bind_eq_ok.1 h
    cases h
    exact .of_keeps (.trans (keeps_endWord hword) ⟨rfl, rfl⟩) (hc.1 ▸ hslash)
  split at h
  · cases h
  split at h
  · rename_i hdigraph
    exact marked_stepPlain hdigraph h
  · rename_i image hdigraph
    have hbrace : braceAt? o c rest = if image = '\x7b' ∨ image = '\x7d' then some image else none := by
      simp only [braceAt?, hdigraph, Option.getD_some]
    split at h
    · subst image
      obtain ⟨s', hopen, h⟩ := bind_eq_ok.1 h
      cases h
      exact .of_openBlock hbrace hopen
    split at h
    · subst image
      obtain ⟨s', hclose, h⟩ := bind_eq_ok.1 h
      cases h
      exact .of_closeBlock hbrace hclose
    · rename_i hopen hclose
      cases h
      exact .of_keeps (keeps_addChar s image) (hbrace.trans (if_neg (not_or.2 ⟨hopen, hclose⟩)))

/-! ## Whole texts -/

/-- The statements of a text are those of its marks, and the marks of a text that is read to its end are
consistent. -/
theorem of_run {cs : List Char} {statements : List Statement} (hrun : s.run o cs = .ok after)
    (hfinish : after.finish o = .ok statements) :
    Consistent s.depth (s.trace o cs) ∧ statements = s.finished ++ (s.trace o cs).flatMap Mark.statements := by
  fun_induction run o s cs with
  | case1 s =>
    cases hrun
    unfold finish at hfinish
    dsimp only at hfinish
    split at hfinish
    · cases hfinish
    · obtain ⟨s', hend, hfinish⟩ := bind_eq_ok.1 hfinish
      obtain ⟨hdepth, ended, hfinished, -⟩ := finished_endStatement hend
      split at hfinish
      · cases hfinish
      · rename_i hzero
        cases hfinish
        have htrace : after.trace o [] = ended.toList.map .unended := by simp [trace, hend, hfinished]
        rw [htrace, hfinished]
        rw [not_not, hdepth] at hzero
        constructor
        · have hnone : Consistent after.depth [] := hzero
          simpa using consistent_unended ended.toList hnone
        · cases ended <;> simp [Mark.statements]
  | case2 s c rest e hstep => cases hrun
  | case3 s c rest s' rest' hstep ih =>
    obtain ⟨hconsistent, hstatements⟩ := ih hrun
    have hmarked := marked_step hstep
    have htrace : s.trace o (c :: rest) = s.marks o c rest s' ++ s'.trace o rest' := by
      rw [trace]
      split
      · rename_i hstep'
        rw [hstep] at hstep'
        cases hstep'
      · rename_i hstep'
        rw [hstep] at hstep'
        cases hstep'
        rfl
    rw [htrace]
    refine ⟨hmarked.consistent hconsistent, ?_⟩
    rw [hstatements, hmarked.finished, List.flatMap_append, List.append_assoc]

end Scanner

/-- The marks of a source text. -/
def trace (o : Options) (source : String) : List Mark := Scanner.trace o {} source.toList

theorem consistent_trace {o : Options} {source : String} {statements : List Statement}
    (h : Statement.scan o source = .ok statements) :
    Consistent 0 (trace o source) ∧ statements = (trace o source).flatMap Mark.statements := by
  obtain ⟨s, hrun, hfinish⟩ := bind_eq_ok.1 h
  exact Scanner.of_run hrun hfinish

/-! ## Blocks -/

/-- The statements between two braces, or of a whole text. -/
inductive Block where
  | empty
  | simple (s : Statement) (rest : Block)
  /-- Braces with a statement before them. -/
  | headed (header : Statement) (body rest : Block)
  /-- Braces without a statement before them. -/
  | bare (body rest : Block)
  deriving Repr, DecidableEq

namespace Block

def marks : Block → List Mark
  | .empty => []
  | .simple s rest => .statement s :: rest.marks
  | .headed header body rest => .opening (some header) :: (body.marks ++ .closing :: rest.marks)
  | .bare body rest => .opening none :: (body.marks ++ .closing :: rest.marks)

/-- The statements in the order in which they are written. -/
def statements : Block → List Statement
  | .empty => []
  | .simple s rest => s :: rest.statements
  | .headed header body rest => header :: (body.statements ++ rest.statements)
  | .bare body rest => body.statements ++ rest.statements

theorem flatMap_marks : ∀ b : Block, b.marks.flatMap Mark.statements = b.statements
  | .empty => rfl
  | .simple s rest => by simp [marks, statements, Mark.statements, flatMap_marks rest]
  | .headed header body rest => by
    simp [marks, statements, Mark.statements, flatMap_marks body, flatMap_marks rest]
  | .bare body rest => by simp [marks, statements, Mark.statements, flatMap_marks body, flatMap_marks rest]

theorem unended_not_mem_marks : ∀ (b : Block) (s : Statement), .unended s ∉ b.marks
  | .empty, _ => by simp [marks]
  | .simple _ rest, s => by simp [marks, unended_not_mem_marks rest s]
  | .headed _ body rest, s => by simp [marks, unended_not_mem_marks body s, unended_not_mem_marks rest s]
  | .bare body rest, s => by simp [marks, unended_not_mem_marks body s, unended_not_mem_marks rest s]

/-- Every statement lies at the depth of the braces around it, of which `depth` are around the block. -/
def Placed (depth : Nat) : Block → Prop
  | .empty => True
  | .simple s rest => (s.depth = depth ∧ s.opensBlock = false) ∧ rest.Placed depth
  | .headed header body rest =>
    (header.depth = depth ∧ header.opensBlock = true) ∧ body.Placed (depth + 1) ∧ rest.Placed depth
  | .bare body rest => body.Placed (depth + 1) ∧ rest.Placed depth

theorem placed_of_consistent : ∀ {b : Block} {depth : Nat} {ms : List Mark}, Consistent depth (b.marks ++ ms) →
    b.Placed depth ∧ Consistent depth ms
  | .empty, _, _, h => ⟨trivial, h⟩
  | .simple s rest, _, _, h => by
    obtain ⟨hrest, hms⟩ := placed_of_consistent h.2
    exact ⟨⟨h.1, hrest⟩, hms⟩
  | .headed header body rest, _, _, h => by
    rw [marks, List.cons_append, List.append_assoc] at h
    obtain ⟨hbody, hclosing⟩ := placed_of_consistent h.2
    obtain ⟨hrest, hms⟩ := placed_of_consistent hclosing
    exact ⟨⟨h.1 header rfl, hbody, hrest⟩, hms⟩
  | .bare body rest, _, _, h => by
    rw [marks, List.cons_append, List.append_assoc] at h
    obtain ⟨hbody, hclosing⟩ := placed_of_consistent h.2
    obtain ⟨hrest, hms⟩ := placed_of_consistent hclosing
    exact ⟨⟨hbody, hrest⟩, hms⟩

/-- The block of an opening brace, by the blocks in and after its braces. -/
def opened : Option Statement → Block → Block → Block
  | none, body, rest => .bare body rest
  | some header, body, rest => .headed header body rest

theorem marks_opened (header : Option Statement) (body rest : Block) :
    (opened header body rest).marks = .opening header :: (body.marks ++ .closing :: rest.marks) := by
  cases header <;> rfl

/-- Consistent marks are a block up to the brace that closes it, or to their end. -/
theorem exists_marks (n : Nat) : ∀ {depth : Nat} {ms : List Mark}, ms.length ≤ n → Consistent depth ms →
    (∀ s, .unended s ∉ ms) → ∃ b : Block, (ms = b.marks ∧ depth = 0) ∨
      ∃ d ms', ms = b.marks ++ .closing :: ms' ∧ depth = d + 1 ∧ Consistent d ms' := by
  induction n with
  | zero =>
    intro depth ms hlength h _
    obtain rfl := List.length_eq_zero_iff.1 (Nat.le_zero.1 hlength)
    exact ⟨.empty, .inl ⟨rfl, h⟩⟩
  | succ n ih =>
    intro depth ms hlength h hended
    match ms with
    | [] => exact ⟨.empty, .inl ⟨rfl, h⟩⟩
    | .statement s :: ms =>
      obtain ⟨b, hb⟩ := ih (Nat.le_of_succ_le_succ hlength) h.2 fun t ht => hended t (List.mem_cons_of_mem _ ht)
      refine ⟨.simple s b, ?_⟩
      rcases hb with ⟨rfl, hdepth⟩ | ⟨d, ms', rfl, hdepth, hms'⟩
      · exact .inl ⟨rfl, hdepth⟩
      · exact .inr ⟨d, ms', rfl, hdepth, hms'⟩
    | .unended s :: ms => exact absurd (List.mem_cons_self ..) (hended s)
    | .opening header :: ms =>
      obtain ⟨body, hbody⟩ := ih (Nat.le_of_succ_le_succ hlength) h.2 fun t ht => hended t (List.mem_cons_of_mem _ ht)
      rcases hbody with ⟨-, hdepth⟩ | ⟨d, ms', rfl, hdepth, hms'⟩
      · cases hdepth
      · cases hdepth
        have hlength' : ms'.length ≤ n := by
          simp only [List.length_cons, List.length_append] at hlength
          omega
        obtain ⟨rest, hrest⟩ := ih hlength' hms' fun t ht => hended t (by simp [ht])
        refine ⟨opened header body rest, ?_⟩
        rw [marks_opened]
        rcases hrest with ⟨rfl, hdepth⟩ | ⟨d, ms', rfl, hdepth, hms'⟩
        · exact .inl ⟨rfl, hdepth⟩
        · exact .inr ⟨d, ms', by simp, hdepth, hms'⟩
    | .closing :: ms =>
      match depth, h with
      | d + 1, h => exact ⟨.empty, .inr ⟨d, ms, rfl, rfl, h⟩⟩

/-- A text that is read to its end, with a semicolon after every statement that has no braces of its own, is
a block. -/
theorem exists_marks_eq_trace {o : Options} {source : String} {statements : List Statement}
    (h : Statement.scan o source = .ok statements) (hended : ∀ s, .unended s ∉ trace o source) :
    ∃ b : Block, b.marks = trace o source := by
  obtain ⟨b, ⟨hb, -⟩ | ⟨_, _, -, hdepth, -⟩⟩ := exists_marks _ (Nat.le_refl _) (consistent_trace h).1 hended
  · exact ⟨b, hb.symm⟩
  · cases hdepth

/-- The statements of a text are those of its block, each at the depth of the braces around it. -/
theorem placed_of_marks_eq_trace {o : Options} {source : String} {statements : List Statement} {b : Block}
    (h : Statement.scan o source = .ok statements) (hb : b.marks = trace o source) :
    b.Placed 0 ∧ b.statements = statements := by
  obtain ⟨hconsistent, hstatements⟩ := consistent_trace h
  rw [← hb] at hconsistent hstatements
  rw [hstatements, flatMap_marks]
  exact ⟨(placed_of_consistent (by rwa [List.append_nil])).1, rfl⟩

end Block

end WordMachine.Cflat
