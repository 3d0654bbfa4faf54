/-
Which internal faults a program can lead to, if a pattern can be built for the name of every macro. Directives, the
division into statements and the joining of branches then refuse a program for its text only; a statement that is
divided off has tokens, so its tree is refused for its text or for a number of values other than one. The stack of
open blocks never loses its root, and the text of every real number is read.
-/
import WordMachine.Proofs.Cflat.Nesting
import WordMachine.Proofs.Cflat.Numbers
import WordMachine.Proofs.Cflat.Refusals
import WordMachine.Proofs.Cflat.SourceLines
import WordMachine.Proofs.Cflat.TokenForms

namespace WordMachine.Cflat

/-- If there is an error, its fault lies in the text of the program. -/
def FailsInText {α : Type} (x : Except Error α) : Prop := ∀ e, x = .error e → e.fault.InText

section

variable {α β : Type}

theorem failsInText_ok (a : α) : FailsInText (.ok a) := fun _ h => by cases h

theorem failsInText_error {e : Error} (h : e.fault.InText) : FailsInText (.error e : Except Error α) :=
  fun _ he => by cases he; exact h

theorem failsInText_malformed (line : Nat) (fault : SyntaxFault) :
    FailsInText (.error (.malformed line fault) : Except Error α) :=
  failsInText_error trivial

theorem FailsInText.bind {x : Except Error α} {f : α → Except Error β} (hx : FailsInText x)
    (hf : ∀ a, FailsInText (f a)) : FailsInText (x >>= f) := by
  intro e h
  rcases bind_eq_error.1 h with h | ⟨a, -, h⟩
  · exact hx e h
  · exact hf a e h

end

/-! ## Directives -/

section

variable {limits : PatternLimits} (hlimits : ∀ name, limits name = none)

theorem inText_of_readDirective {cs : List Char} {fault : Fault} (h : Directive.read cs = .error fault) :
    fault.InText := by
  unfold Directive.read at h
  dsimp only at h
  repeat' split at h
  all_goals cases h
  all_goals trivial

include hlimits

theorem inText_of_expandLine {table : MacroTable} {line : List Char} {fault : Fault}
    (h : expandLine table line limits = .error fault) : fault.InText := by
  unfold expandLine at h
  split at h
  · cases h
  · split at h
    · rename_i hread
      cases h
      exact inText_of_readDirective hread
    · rw [Directive.fault?_eq_none hlimits] at h
      cases h

theorem failsInText_expandLines : ∀ (lines : List (List Char)) (number : Nat) (table : MacroTable),
    FailsInText (expandLines number table lines limits)
  | [], _, _ => failsInText_ok _
  | line :: lines, number, table => by
    rw [expandLines]
    split
    · rename_i hline
      exact failsInText_error (inText_of_expandLine hlimits hline)
    · rename_i expanded table' _
      have ih := failsInText_expandLines lines (number + 1) table'
      split
      · rename_i hrest
        exact failsInText_error (ih _ hrest)
      · exact failsInText_ok _

theorem failsInText_expandSource (o : Options) (source : String) : FailsInText (expandSource o source limits) := by
  unfold expandSource
  dsimp only
  split
  · rename_i hlines
    exact failsInText_error (failsInText_expandLines hlimits _ _ _ _ hlines)
  · exact failsInText_ok _

end

/-! ## Division into statements -/

namespace Scanner

variable (o : Options) (s : Scanner)

theorem failsInText_endWord : FailsInText (s.endWord o) := by
  unfold endWord
  split
  · exact failsInText_ok _
  · split
    · exact failsInText_error trivial
    · exact failsInText_ok _

theorem failsInText_endStatement (opensBlock : Bool) : FailsInText (s.endStatement o opensBlock) := by
  refine (failsInText_endWord o s).bind fun s' => ?_
  split
  · exact failsInText_ok _
  · exact failsInText_ok _

theorem failsInText_openBlock : FailsInText (s.openBlock o) := by
  unfold openBlock
  dsimp only
  split
  · exact failsInText_malformed _ _
  · exact (failsInText_endStatement o s true).bind fun s' => failsInText_ok _

theorem failsInText_closeBlock : FailsInText (s.closeBlock o) := by
  unfold closeBlock
  dsimp only
  split
  · exact failsInText_malformed _ _
  · split
    · exact failsInText_malformed _ _
    · exact (failsInText_endWord o s).bind fun s' => failsInText_endStatement o _ false

theorem failsInText_semicolon : FailsInText (s.semicolon o) := by
  unfold semicolon
  split
  · exact failsInText_endStatement o s false
  · exact (failsInText_endWord o s).bind fun s' => failsInText_ok _

theorem failsInText_skipComment : ∀ (cs : List Char) (line : Nat), FailsInText (skipComment line cs)
  | [], _ => failsInText_malformed _ _
  | c :: cs, line => by
    rw [skipComment]
    split
    · exact failsInText_ok _
    · exact failsInText_skipComment cs _

theorem failsInText_readString (cs : List Char) : FailsInText (s.readString o cs) := by
  fun_induction readString o s cs with
  | case1 | case2 | case4 => exact failsInText_malformed _ _
  | case3 _ _ _ _ _ ih => exact ih
  | case5 => exact failsInText_ok _
  | case6 s cs e h => exact failsInText_error (failsInText_endWord o _ e h)
  | case7 _ _ _ _ _ ih => exact ih
  | case8 _ _ _ _ _ _ _ ih => exact ih

theorem failsInText_operator (op : Token) : FailsInText (s.operator o op) := by
  unfold operator
  dsimp only
  split
  · exact failsInText_error trivial
  · split
    · exact failsInText_malformed _ _
    · refine (failsInText_endWord o s).bind fun s' => ?_
      split
      · exact failsInText_ok _
      · split
        · exact failsInText_ok _
        · exact failsInText_ok _

theorem failsInText_stepPlain (c : Char) (rest : List Char) : FailsInText (s.stepPlain o c rest) := by
  unfold stepPlain
  split
  · exact (failsInText_endWord o s).bind fun _ => failsInText_ok _
  split
  · exact (failsInText_endWord o s).bind fun _ => failsInText_ok _
  split
  · exact (failsInText_openBlock o s).bind fun _ => failsInText_ok _
  split
  · exact (failsInText_closeBlock o s).bind fun _ => failsInText_ok _
  split
  · exact (failsInText_semicolon o s).bind fun _ => failsInText_ok _
  split
  · exact (failsInText_endWord o s).bind fun s' => failsInText_readString o _ rest
  split
  · split
    · exact failsInText_malformed _ _
    · exact (failsInText_endWord o s).bind fun _ => failsInText_ok _
  split
  · exact (failsInText_endWord o _).bind fun _ => failsInText_ok _
  split
  · exact (failsInText_operator o s _).bind fun _ => failsInText_ok _
  · exact failsInText_ok _

theorem failsInText_step (c : Char) (rest : List Char) : FailsInText (s.step o c rest) := by
  unfold step
  split
  · exact (failsInText_endWord o s).bind fun _ => failsInText_ok _
  split
  · exact (failsInText_endWord o s).bind fun s' => (failsInText_skipComment _ _).bind fun _ => failsInText_ok _
  split
  · exact failsInText_malformed _ _
  split
  · exact failsInText_stepPlain o s c rest
  split
  · exact (failsInText_openBlock o s).bind fun _ => failsInText_ok _
  split
  · exact (failsInText_closeBlock o s).bind fun _ => failsInText_ok _
  · exact failsInText_ok _

theorem failsInText_run (cs : List Char) : FailsInText (run o s cs) := by
  fun_induction run o s cs with
  | case1 => exact failsInText_ok _
  | case2 s c rest e h => exact failsInText_error (failsInText_step o s c rest e h)
  | case3 s c rest s' rest' h ih => exact ih

theorem failsInText_finish : FailsInText (s.finish o) := by
  unfold finish
  dsimp only
  split
  · exact failsInText_malformed _ _
  · refine (failsInText_endStatement o s false).bind fun s' => ?_
    split
    · exact failsInText_malformed _ _
    · exact failsInText_ok _

end Scanner

theorem failsInText_scanSource {limits : PatternLimits} (hlimits : ∀ name, limits name = none) (o : Options)
    (source : String) : FailsInText (scanSource o source limits) :=
  (failsInText_expandSource hlimits o source).bind fun _ =>
    (Scanner.failsInText_run o {} _).bind fun s => Scanner.failsInText_finish o s

/-! ## Branches -/

theorem failsInText_refuseElse (head : Head) (line : Nat) : FailsInText (refuseElse head line) := by
  unfold refuseElse
  split
  · exact failsInText_malformed _ _
  · exact failsInText_ok _

theorem failsInText_mergeBranches (ns : List Node) : FailsInText (mergeBranches ns) := by
  fun_induction mergeBranches ns with
  | case1 => exact failsInText_ok _
  | case2 head line arguments body ih =>
    exact (failsInText_refuseElse head line).bind fun _ => ih.bind fun _ => failsInText_ok _
  | case3 head line arguments body nextHead nextLine nextArguments nextBody rest ihbody ihother ihrest ihnext =>
    refine (failsInText_refuseElse head line).bind fun _ => ihbody.bind fun _ => ?_
    split
    · exact ihother.bind fun _ => ihrest.bind fun _ => failsInText_ok _
    · exact ihnext.bind fun _ => failsInText_ok _

/-! ## Statements of a program -/

theorem ofStatement_of_buildAll {ss : List Statement} {e : Error} (hss : ∀ s ∈ ss, s.tokens ≠ [])
    (h : buildAll ss = .error e) : e.fault.OfStatement := by
  obtain ⟨s, hs, h⟩ := exists_of_buildAll_eq_error h
  exact (refuses_of_ofTokens (hss s hs) h).fault

theorem tokens_ne_nil_of_scanSource {o : Options} {source : String} {limits : PatternLimits} {ss : List Statement}
    (h : scanSource o source limits = .ok ss) : ∀ s ∈ ss, s.tokens ≠ [] := by
  obtain ⟨text, -, h⟩ := bind_eq_ok.1 h
  exact fun s hs => (enclosed_of_scan h s hs).1

/-- A program is refused for its text or for an expression with a number of values other than one. -/
theorem ofStatement_of_parseSource {o : Options} {source : String} {limits : PatternLimits} {e : Error}
    (hlimits : ∀ name, limits name = none) (h : parseSource o source limits = .error e) : e.fault.OfStatement := by
  rcases bind_eq_error.1 h with h | ⟨ss, hss, h⟩
  · exact .inl (failsInText_scanSource hlimits o source e h)
  · rcases bind_eq_error.1 h with h | ⟨nodes, -, h⟩
    · exact ofStatement_of_buildAll (tokens_ne_nil_of_scanSource hss) h
    · rcases bind_eq_error.1 h with h | ⟨body, -, h⟩
      · exact .inl (failsInText_mergeBranches _ e h)
      · cases h

/-! ## The root of the tree -/

namespace OpenBlock

/-- The tree of a source text, with its blocks kept on a stack while they are open. -/
def parse (o : Options) (source : String) (limits : PatternLimits := .none) : Except BuildFault Node := do
  let ss ← (scanSource o source limits).mapError .refused
  let root ← build ss
  let body ← (mergeBranches root.statements).mapError .refused
  return root.withStatements body

/-- The first statement without a tree ends the walk; up to it the root stays open. -/
theorem Sound.run_error : ∀ {ss : List Statement} {blocks : List OpenBlock} {e : Error}, Sound blocks →
    buildAll ss = .error e → OpenBlock.run blocks ss = .error (.refused e)
  | [], _, _, _, h => by cases h
  | s :: ss, blocks, e, hsound, h => by
    rw [buildAll, List.mapM_cons] at h
    rw [OpenBlock.run]
    rcases bind_eq_error.1 h with h | ⟨p, hp, h⟩
    · have hs : s.tree = .error e := by
        rcases bind_eq_error.1 h with h | ⟨n, -, h⟩
        · exact h
        · cases h
      rw [OpenBlock.step, hs]
      rfl
    · obtain ⟨n, hn, -⟩ := bind_eq_ok.1 hp
      obtain ⟨blocks', hstep, hsound'⟩ := hsound.step (n := n) hn
      rw [hstep]
      rcases bind_eq_error.1 h with h | ⟨rest, -, h⟩
      · exact hsound'.run_error h
      · cases h

/-- The stack builds the tree that the statements are nested to, or fails where a statement has no tree. -/
theorem build_eq (ss : List Statement) :
    build ss = (buildAll ss).mapError .refused >>= fun nodes =>
      .ok (root.node.withStatements ((nest nodes).map (·.2))) := by
  cases h : buildAll ss with
  | error e =>
    rw [build, sound_root.run_error h]
    rfl
  | ok nodes => exact build_of_buildAll h

/-- With the stack a program is parsed the same, so that the root is never closed. -/
theorem parse_eq (o : Options) (source : String) (limits : PatternLimits) :
    parse o source limits = (parseSource o source limits).mapError .refused := by
  rw [parse, parseSource, mapError_bind]
  refine bind_congr fun ss => ?_
  rw [build_eq, Node.ofStatements, mapError_bind, bind_assoc]
  refine bind_congr fun nodes => ?_
  rw [mapError_bind]
  rfl

end OpenBlock

/-! ## Programs -/

/-- If a pattern can be built for every name, a program leads to no internal fault but that of an expression whose
number of values is other than one: no statement without tokens is asked for a tree, the stack of open blocks keeps
its root to the end, and every text with the pattern of a real number is read as one. -/
theorem internal_of_parseSource (o : Options) (source : String) (limits : PatternLimits)
    (hlimits : ∀ name, limits name = none) :
    (∀ e fault, parseSource o source limits = .error e → e.fault = .internal fault →
      e.fault.message = "internal error: expression did not reduce to a single value") ∧
      OpenBlock.parse o source limits = (parseSource o source limits).mapError .refused ∧
      ∀ cs, IsReal cs → NumberForm.real? cs = some (.real (dropFloat cs)) ∧
        ∃ value, NumberText.read (dropFloat cs) = .ok (.finite value) := by
  refine ⟨fun e fault h hfault => ?_, OpenBlock.parse_eq o source limits,
    fun cs hreal => ⟨real?_eq_some_iff.2 ⟨hreal, rfl⟩, hreal.exists_read⟩⟩
  rcases ofStatement_of_parseSource hlimits h with htext | hvalues
  · rw [hfault] at htext
    cases htext
  · rw [hvalues]
    rfl

/-- Two names without an operator between them, in a block; and a real number with all its parts. -/
theorem internal_of_parseSource_names :
    ∃ e, parseSource {} "while (x) \x7b a b; \x7d" = .error e ∧
      e.fault.message = "internal error: expression did not reduce to a single value" ∧
      NumberForm.real? "-1.5e+3f".toList = some (.real "-1.5e+3".toList) := by
  have hscan : scanSource {} "while (x) \x7b a b; \x7d" =
      .ok [⟨1, 0, ["while", "(", "x", ")"], true⟩, ⟨1, 1, ["a", "b"], false⟩] := by
    decide +kernel
  have hnames : Node.ofTokens 1 ["a", "b"] = .error ⟨1, .internal .severalValues⟩ := by
    rw [ofTokens_of_not_open (by decide) (by decide) (by decide)]
    rfl
  have hparse : parseSource {} "while (x) \x7b a b; \x7d" = .error ⟨1, .internal .severalValues⟩ := by
    rw [parseSource, hscan]
    change Node.ofStatements _ = _
    rw [Node.ofStatements, buildAll, List.mapM_cons, List.mapM_cons, ofTokens_while, hnames]
    rfl
  have hmantissa : Decimal.IsMantissa (['1'] ++ '.' :: ['5']) :=
    .point (Text.digits_iff_isDigit.2 ⟨List.cons_ne_nil _ _, List.all_eq_true.1 rfl⟩)
  have hexponent : Decimal.Exponent ('e' :: (['+'] ++ ['3'])) _ :=
    .mark (.inl rfl) (by simp [Decimal.IsSign])
      (Text.digits_iff_isDigit.2 ⟨List.cons_ne_nil _ _, List.all_eq_true.1 rfl⟩)
  have hreal : IsReal "-1.5e+3f".toList :=
    ⟨['-'], _, _, _, ['f'], by simp [Decimal.IsSign], hmantissa, hexponent, by decide, rfl⟩
  obtain ⟨hinternal, -, hread⟩ := internal_of_parseSource {} "while (x) \x7b a b; \x7d" .none fun _ => rfl
  exact ⟨_, hparse, hinternal _ _ hparse rfl, (hread _ hreal).1⟩

end WordMachine.Cflat
