/-
Macros by the history of their directives, and words by runs of characters. The definitions of a name that count are
those after it was last undefined: the last of them gives the replacement, and the first of them the place in the
table. Where a name consists of word characters, the places at which the search for it between word boundaries finds
it are the longest runs of word characters that equal it.
-/
import WordMachine.Proofs.Cflat.SourceLines
import Mathlib.Data.List.SplitBy
import Mathlib.Order.Lattice.Nat

namespace WordMachine.Cflat

/-! ## Definitions that stand -/

/-- The name that a directive is about. -/
def Directive.name : Directive → List Char
  | .define m => m.name
  | .undefine name => name

/-- The places of the definitions of a name after which it has not been undefined. -/
def standing (directives : List Directive) (name : List Char) : Set Nat :=
  {k | (∃ m, directives[k]? = some (.define m) ∧ m.name = name) ∧
    ∀ j, k < j → directives[j]? ≠ some (.undefine name)}

section

variable {directives : List Directive} {d : Directive} {m : Macro} {name : List Char} {k : Nat}

theorem getElem?_concat_eq_some_iff {e : Directive} :
    (directives ++ [d])[k]? = some e ↔ directives[k]? = some e ∨ k = directives.length ∧ d = e := by
  rcases Nat.lt_trichotomy k directives.length with hlt | rfl | hgt
  · rw [List.getElem?_append_left hlt]
    exact ⟨.inl, fun h => h.elim id fun h => absurd h.1 (Nat.ne_of_lt hlt)⟩
  · simp
  · have hlength : (directives ++ [d]).length ≤ k := by
      rw [List.length_append, List.length_singleton]
      exact hgt
    rw [List.getElem?_eq_none hlength, List.getElem?_eq_none (Nat.le_of_lt hgt)]
    exact ⟨.inl, fun h => h.elim id fun h => absurd h.1 (Nat.ne_of_gt hgt)⟩

theorem lt_of_mem_standing (h : k ∈ standing directives name) : k < directives.length := by
  obtain ⟨⟨m, hm, -⟩, -⟩ := h
  exact (List.getElem?_eq_some_iff.1 hm).1

/-- A directive about another name changes nothing. -/
theorem standing_concat_of_ne (h : d.name ≠ name) : standing (directives ++ [d]) name = standing directives name := by
  ext k
  have hdefine : (∃ m, (directives ++ [d])[k]? = some (.define m) ∧ m.name = name) ↔
      ∃ m, directives[k]? = some (.define m) ∧ m.name = name := by
    refine exists_congr fun m => and_congr_left fun hm => ?_
    rw [getElem?_concat_eq_some_iff]
    exact ⟨fun h' => h'.resolve_right fun hd => h (by rw [hd.2]; exact hm), .inl⟩
  have hundefine (j : Nat) : (directives ++ [d])[j]? ≠ some (.undefine name) ↔
      directives[j]? ≠ some (.undefine name) := by
    rw [ne_eq, getElem?_concat_eq_some_iff, not_or]
    exact ⟨fun h' => h'.1, fun h' => ⟨h', fun hd => h (by rw [hd.2]; rfl)⟩⟩
  simp only [standing, Set.mem_ofPred_eq, hdefine, hundefine]

theorem standing_define :
    standing (directives ++ [.define m]) m.name = insert directives.length (standing directives m.name) := by
  ext k
  have hundefine (j : Nat) : (directives ++ [.define m])[j]? ≠ some (.undefine m.name) ↔
      directives[j]? ≠ some (.undefine m.name) := by
    rw [ne_eq, getElem?_concat_eq_some_iff, not_or]
    exact ⟨fun h => h.1, fun h => ⟨h, fun hd => by cases hd.2⟩⟩
  simp only [standing, Set.mem_insert_iff, Set.mem_ofPred_eq, hundefine, getElem?_concat_eq_some_iff]
  constructor
  · rintro ⟨⟨m', hm' | ⟨hk, -⟩, hname⟩, hafter⟩
    · exact .inr ⟨⟨m', hm', hname⟩, hafter⟩
    · exact .inl hk
  · rintro (rfl | ⟨⟨m', hm', hname⟩, hafter⟩)
    · refine ⟨⟨m, .inr ⟨rfl, rfl⟩, rfl⟩, fun j hj => ?_⟩
      rw [List.getElem?_eq_none (Nat.le_of_lt hj)]
      exact (Option.some_ne_none _).symm
    · exact ⟨⟨m', .inl hm', hname⟩, hafter⟩

theorem standing_undefine : standing (directives ++ [.undefine name]) name = ∅ := by
  refine Set.eq_empty_iff_forall_notMem.2 fun k hk => ?_
  obtain ⟨⟨m, hm, -⟩, hafter⟩ := hk
  rcases getElem?_concat_eq_some_iff.1 hm with hm | ⟨-, hd⟩
  · exact hafter _ (List.getElem?_eq_some_iff.1 hm).1 (getElem?_concat_eq_some_iff.2 (.inr ⟨rfl, rfl⟩))
  · cases hd

theorem exists_isGreatest_standing (h : (standing directives name).Nonempty) :
    ∃ k, IsGreatest (standing directives name) k := by
  have hbound : BddAbove (standing directives name) :=
    ⟨directives.length, fun k hk => Nat.le_of_lt (lt_of_mem_standing hk)⟩
  exact ⟨_, Nat.sSup_mem h hbound, fun k hk => le_csSup hbound hk⟩

/-- The first definition that stands is the first one after a further definition, too. -/
theorem isLeast_standing_define (h : IsLeast (standing directives name) k) :
    IsLeast (standing (directives ++ [.define m]) name) k := by
  by_cases hname : m.name = name
  · subst hname
    rw [standing_define]
    refine ⟨.inr h.1, fun j hj => ?_⟩
    rcases hj with rfl | hj
    · exact Nat.le_of_lt (lt_of_mem_standing h.1)
    · exact h.2 hj
  · rwa [standing_concat_of_ne (d := .define m) hname]

end

/-! ## Tables -/

/-- The first definition of one name that stands comes before that of another. -/
def StandsBefore (directives : List Directive) (name name' : List Char) : Prop :=
  ∃ k k', IsLeast (standing directives name) k ∧ IsLeast (standing directives name') k' ∧ k < k'

namespace MacroTable

/-- The table holds what the directives say. -/
structure Records (table : MacroTable) (directives : List Directive) : Prop where
  /-- There is at most one entry for a name. -/
  nodup : (table.map (·.name)).Nodup
  /-- An entry is the last of the definitions of its name that stand. -/
  mem_iff : ∀ m, m ∈ table ↔ ∃ k, directives[k]? = some (.define m) ∧ IsGreatest (standing directives m.name) k
  /-- The entries are in the order of the first definitions of their names that stand. -/
  ordered : (table.map (·.name)).Pairwise (StandsBefore directives)

variable {table : MacroTable} {directives : List Directive} {m m' : Macro} {name : List Char}

theorem mem_undefine_iff : m ∈ table.undefine name ↔ m ∈ table ∧ m.name ≠ name := by
  rw [undefine, List.mem_filter, decide_eq_true_iff]

/-- A name that is defined already keeps its place, and another one is the last. -/
theorem names_define (table : MacroTable) (m : Macro) : (table.define m).map (·.name) =
    if m.name ∈ table.map (·.name) then table.map (·.name) else table.map (·.name) ++ [m.name] := by
  have hany : table.any (·.name = m.name) = true ↔ m.name ∈ table.map (·.name) := by
    simp only [List.any_eq_true, decide_eq_true_iff, List.mem_map]
  unfold define
  simp only [hany]
  split
  · rw [List.map_map]
    refine List.map_congr_left fun old _ => ?_
    simp only [Function.comp]
    split
    · exact Eq.symm ‹_›
    · rfl
  · rw [List.map_append]
    rfl

theorem names_undefine (table : MacroTable) (name : List Char) :
    (table.undefine name).map (·.name) = (table.map (·.name)).filter (· ≠ name) := by
  rw [undefine, List.filter_map]
  rfl

theorem mem_apply_iff {d : Directive} : m ∈ d.apply table ↔ d = .define m ∨ m ∈ table ∧ m.name ≠ d.name := by
  cases d with
  | define m' =>
    rw [Directive.apply, mem_define_iff, Directive.define.injEq, eq_comm]
    rfl
  | undefine name =>
    rw [Directive.apply, mem_undefine_iff]
    exact ⟨.inr, fun h => h.resolve_left fun h => by cases h⟩

namespace Records

theorem mem_names_iff (h : table.Records directives) :
    name ∈ table.map (·.name) ↔ (standing directives name).Nonempty := by
  rw [List.mem_map]
  constructor
  · rintro ⟨m, hm, rfl⟩
    obtain ⟨k, -, hk⟩ := (h.mem_iff m).1 hm
    exact ⟨k, hk.1⟩
  · intro hne
    obtain ⟨k, hk⟩ := exists_isGreatest_standing hne
    obtain ⟨⟨m, hm, rfl⟩, -⟩ := hk.1
    exact ⟨m, (h.mem_iff m).2 ⟨k, hm, hk⟩, rfl⟩

/-- One more directive. -/
theorem mem_iff_concat (h : table.Records directives) (d : Directive) (m : Macro) :
    m ∈ d.apply table ↔
      ∃ k, (directives ++ [d])[k]? = some (.define m) ∧ IsGreatest (standing (directives ++ [d]) m.name) k := by
  rw [mem_apply_iff]
  by_cases hname : m.name = d.name
  · -- the directive is the last one about the name
    refine ⟨fun hm => ?_, fun ⟨k, hk, hgreatest⟩ => .inl ?_⟩
    · obtain rfl := hm.resolve_right fun hm => hm.2 hname
      refine ⟨directives.length, getElem?_concat_eq_some_iff.2 (.inr ⟨rfl, rfl⟩), ?_⟩
      rw [standing_define]
      refine ⟨.inl rfl, fun k hk => ?_⟩
      rcases hk with rfl | hk
      · exact Nat.le_refl _
      · exact Nat.le_of_lt (lt_of_mem_standing hk)
    · cases d with
      | define m' =>
        have hname : m.name = m'.name := hname
        rw [hname, standing_define] at hgreatest
        have hle : directives.length ≤ k := hgreatest.2 (.inl rfl)
        rcases getElem?_concat_eq_some_iff.1 hk with hk | ⟨-, hd⟩
        · exact absurd (List.getElem?_eq_some_iff.1 hk).1 (Nat.not_lt.2 hle)
        · exact hd
      | undefine name =>
        have hname : m.name = name := hname
        rw [hname, standing_undefine] at hgreatest
        exact absurd hgreatest.1 (Set.notMem_empty k)
  · rw [standing_concat_of_ne (Ne.symm hname)]
    have hother : d ≠ .define m := fun hd => hname (by rw [hd]; rfl)
    simp only [getElem?_concat_eq_some_iff, hother, hname, and_false, or_false, false_or, ne_eq, not_false_eq_true,
      and_true, h.mem_iff]

theorem standsBefore_concat {d : Directive} {name' : List Char} (hname : d.name ≠ name) (hname' : d.name ≠ name') :
    StandsBefore (directives ++ [d]) name name' ↔ StandsBefore directives name name' := by
  rw [StandsBefore, StandsBefore, standing_concat_of_ne hname, standing_concat_of_ne hname']

theorem ordered_concat (h : table.Records directives) (d : Directive) :
    ((d.apply table).map (·.name)).Pairwise (StandsBefore (directives ++ [d])) := by
  cases d with
  | undefine name =>
    rw [Directive.apply, names_undefine]
    refine (h.ordered.filter _).imp_of_mem fun ha hb hab => ?_
    have ha := of_decide_eq_true (List.mem_filter.1 ha).2
    have hb := of_decide_eq_true (List.mem_filter.1 hb).2
    exact (standsBefore_concat (Ne.symm ha) (Ne.symm hb)).2 hab
  | define m =>
    have hordered : (table.map (·.name)).Pairwise (StandsBefore (directives ++ [.define m])) :=
      h.ordered.imp fun ⟨k, k', hk, hk', hlt⟩ =>
        ⟨k, k', isLeast_standing_define hk, isLeast_standing_define hk', hlt⟩
    rw [Directive.apply, names_define]
    split
    · exact hordered
    · rename_i hfresh
      -- the name is new, so that no definition of it stood before this one
      have hnone : standing directives m.name = ∅ :=
        Set.not_nonempty_iff_eq_empty.1 fun hne => hfresh (h.mem_names_iff.2 hne)
      have hfirst : IsLeast (standing (directives ++ [.define m]) m.name) directives.length := by
        rw [standing_define, hnone, insert_empty_eq]
        exact isLeast_singleton
      refine List.pairwise_append.2 ⟨hordered, List.pairwise_singleton _ _, fun name hname name' hname' => ?_⟩
      obtain rfl := List.mem_singleton.1 hname'
      have hleast := isLeast_csInf (h.mem_names_iff.1 hname)
      exact ⟨_, _, isLeast_standing_define hleast, hfirst, lt_of_mem_standing hleast.1⟩

theorem concat (h : table.Records directives) (d : Directive) : (d.apply table).Records (directives ++ [d]) where
  nodup := (h.ordered_concat d).imp fun ⟨k, k', hk, hk', hlt⟩ hname => by
    subst hname
    exact absurd (hk.unique hk') (Nat.ne_of_lt hlt)
  mem_iff := h.mem_iff_concat d
  ordered := h.ordered_concat d

end Records

/-- The table after any directives holds what they say. -/
theorem records_foldl (directives : List Directive) : Records (directives.foldl Directive.apply []) directives := by
  induction directives using List.reverseRecOn with
  | nil => exact ⟨.nil, fun m => ⟨fun h => (by cases h), fun ⟨k, hk, _⟩ => by cases hk⟩, .nil⟩
  | append_singleton directives d ih =>
    rw [List.foldl_append]
    exact ih.concat d

end MacroTable

/-! ## Words -/

/-- Are both of them word characters, or neither? -/
def sameKind (a b : Char) : Bool := Text.isWordChar a == Text.isWordChar b

/-- The text divided wherever a word character and another character meet. -/
def wordRuns (text : List Char) : List (List Char) := text.splitBy sameKind

/-- The text with the replacement for each of its runs that equals the name. -/
def replaceRuns (name replacement text : List Char) : List Char :=
  (wordRuns text).flatMap fun run => if run = name then replacement else run

/-- One or more word characters. -/
structure IsWord (cs : List Char) : Prop where
  ne_nil : cs ≠ []
  isWordChar : ∀ c ∈ cs, Text.isWordChar c = true

section

variable {name replacement run rest : List Char} {before before' : Option Char} {c : Char}

/-- Of the character in front of the text it only matters if it is a word character. -/
theorem replaceWord_congr (h : before.any Text.isWordChar = before'.any Text.isWordChar) (text : List Char) :
    replaceWord name replacement before text = replaceWord name replacement before' text := by
  cases text with
  | nil => rw [replaceWord, replaceWord]
  | cons c rest => rw [replaceWord, replaceWord, startsWithWord, startsWithWord, isBoundary, h, ← isBoundary]

theorem replaceWord_of_not_starts (h : startsWithWord name before (c :: rest) = false) :
    replaceWord name replacement before (c :: rest) = c :: replaceWord name replacement (some c) rest := by
  rw [replaceWord, h, if_neg Bool.false_ne_true]

/-- Inside of a word nothing is found. -/
theorem replaceWord_inside (hbefore : before.any Text.isWordChar = true)
    (hrun : ∀ c ∈ run, Text.isWordChar c = true) (rest : List Char) :
    replaceWord name replacement before (run ++ rest) = run ++ replaceWord name replacement before rest := by
  induction run with
  | nil => rfl
  | cons c run ih =>
    rw [List.forall_mem_cons] at hrun
    have hword : (some c).any Text.isWordChar = before.any Text.isWordChar := hrun.1.trans hbefore.symm
    have hstarts : startsWithWord name before (c :: (run ++ rest)) = false := by
      have hboundary : isBoundary before (some c) = false := by rw [isBoundary, hword, bne_self_eq_false]
      rw [startsWithWord, List.head?_cons, hboundary, Bool.and_false, Bool.false_and]
    rw [List.cons_append, replaceWord_of_not_starts hstarts, replaceWord_congr hword, ih hrun.2, List.cons_append]

theorem replaceWord_cons_of_not_isWordChar (hname : IsWord name) (hc : Text.isWordChar c = false)
    (before : Option Char) (rest : List Char) :
    replaceWord name replacement before (c :: rest) = c :: replaceWord name replacement none rest := by
  have hstarts : startsWithWord name before (c :: rest) = false := by
    obtain ⟨n, ns, rfl⟩ := List.exists_cons_of_ne_nil hname.ne_nil
    have hne : n ≠ c := by
      rintro rfl
      exact Bool.false_ne_true (hc.symm.trans (hname.isWordChar n List.mem_cons_self))
    rw [startsWithWord, List.isPrefixOf_cons_cons, beq_eq_false_iff_ne.2 hne, Bool.false_and, Bool.false_and,
      Bool.false_and]
  have hnone : (some c).any Text.isWordChar = none.any Text.isWordChar := hc
  rw [replaceWord_of_not_starts hstarts, replaceWord_congr hnone]

/-- Outside of words nothing is found. -/
theorem replaceWord_outside (hname : IsWord name) (hrun : ∀ c ∈ run, Text.isWordChar c = false) (rest : List Char) :
    replaceWord name replacement none (run ++ rest) = run ++ replaceWord name replacement none rest := by
  induction run with
  | nil => rfl
  | cons c run ih =>
    rw [List.forall_mem_cons] at hrun
    rw [List.cons_append, replaceWord_cons_of_not_isWordChar hname hrun.1, ih hrun.2, List.cons_append]

theorem takeWhile_run (hrun : ∀ c ∈ run, Text.isWordChar c = true) (hrest : rest.head?.any Text.isWordChar = false) :
    (run ++ rest).takeWhile Text.isWordChar = run := by
  rw [List.takeWhile_append_of_pos hrun]
  cases rest with
  | nil => simp
  | cons c rest =>
    have hc : Text.isWordChar c = false := hrest
    rw [List.takeWhile_cons, hc]
    simp

theorem IsWord.any_getLast? (h : IsWord run) : run.getLast?.any Text.isWordChar = true := by
  rw [List.getLast?_eq_some_getLast h.ne_nil]
  exact h.isWordChar _ (List.getLast_mem h.ne_nil)

/-- Where a longest run of word characters starts, the name is found if the run equals it. -/
theorem startsWithWord_run_iff (hname : IsWord name) (hrun : IsWord run)
    (hbefore : before.any Text.isWordChar = false) (hrest : rest.head?.any Text.isWordChar = false) :
    startsWithWord name before (run ++ rest) = true ↔ run = name := by
  have hfirst : (run ++ rest).head?.any Text.isWordChar = true := by
    obtain ⟨c, cs, rfl⟩ := List.exists_cons_of_ne_nil hrun.ne_nil
    exact hrun.isWordChar c List.mem_cons_self
  rw [startsWithWord, isBoundary, isBoundary, hbefore, hfirst, hname.any_getLast?, Bool.false_bne, Bool.true_bne,
    Bool.and_true, Bool.and_eq_true, List.isPrefixOf_iff_prefix, Bool.not_eq_true']
  constructor
  · rintro ⟨⟨after, hafter⟩, hlast⟩
    rw [← hafter, List.drop_left] at hlast
    -- both are the word characters that the text starts with
    rw [← takeWhile_run hrun.isWordChar hrest, ← hafter, takeWhile_run hname.isWordChar hlast]
  · rintro rfl
    rw [List.drop_left]
    exact ⟨List.prefix_append run rest, hrest⟩

/-- A longest run of word characters is replaced as a whole or not at all. -/
theorem replaceWord_run (hname : IsWord name) (hrun : IsWord run) (hbefore : before.any Text.isWordChar = false)
    (hrest : rest.head?.any Text.isWordChar = false) :
    replaceWord name replacement before (run ++ rest) =
      (if run = name then replacement else run) ++ replaceWord name replacement run.getLast? rest := by
  have hiff := startsWithWord_run_iff hname hrun hbefore hrest
  obtain ⟨c, cs, rfl⟩ := List.exists_cons_of_ne_nil hrun.ne_nil
  rw [List.cons_append] at hiff ⊢
  split
  · rename_i heq
    rw [replaceWord, if_pos (hiff.2 heq), ← heq, List.length_cons, Nat.add_sub_cancel, List.drop_left]
  · rename_i hne
    have hword : (some c).any Text.isWordChar = true := hrun.isWordChar c List.mem_cons_self
    rw [replaceWord_of_not_starts (Bool.eq_false_iff.2 fun h => hne (hiff.1 h)),
      replaceWord_inside hword fun d hd => hrun.isWordChar d (List.mem_cons_of_mem c hd),
      replaceWord_congr (hword.trans hrun.any_getLast?.symm), List.cons_append]

end

/-- All characters of a run are of one kind. -/
theorem isWordChar_eq_of_isChain {c : Char} {run : List Char}
    (h : (c :: run).IsChain fun a b => sameKind a b = true) :
    ∀ d ∈ c :: run, Text.isWordChar d = Text.isWordChar c := by
  induction run generalizing c with
  | nil => exact List.forall_mem_singleton.2 rfl
  | cons d run ih =>
    rw [List.isChain_cons_cons, sameKind, beq_iff_eq] at h
    refine List.forall_mem_cons.2 ⟨rfl, fun e he => ?_⟩
    rw [h.1]
    exact ih h.2 e he

/-- No word character follows a run of word characters. -/
theorem any_head?_flatten {run : List Char} {runs : List (List Char)} (hrun : IsWord run)
    (h : (run :: runs).IsChain fun a b => ∃ (ha : a ≠ []) (hb : b ≠ []), sameKind (a.getLast ha) (b.head hb) = false) :
    runs.flatten.head?.any Text.isWordChar = false := by
  cases runs with
  | nil => rfl
  | cons next runs =>
    obtain ⟨hne, hnext, hdiffer⟩ := (List.isChain_cons_cons.1 h).1
    obtain ⟨c, cs, rfl⟩ := List.exists_cons_of_ne_nil hnext
    rw [sameKind, hrun.isWordChar _ (List.getLast_mem hne), List.head_cons, beq_eq_false_iff_ne] at hdiffer
    exact Bool.eq_false_iff.2 (Ne.symm hdiffer)

/-- Run by run, where the first run does not go on with a word that `before` is part of. -/
theorem replaceWord_flatten {name replacement : List Char} (hname : IsWord name) {runs : List (List Char)}
    {before : Option Char} (hnil : [] ∉ runs)
    (hsame : ∀ run ∈ runs, run.IsChain fun a b => sameKind a b = true)
    (hdiffer : runs.IsChain fun a b => ∃ (ha : a ≠ []) (hb : b ≠ []), sameKind (a.getLast ha) (b.head hb) = false)
    (hbefore : before.any Text.isWordChar = true → runs.flatten.head?.any Text.isWordChar = false) :
    replaceWord name replacement before runs.flatten =
      runs.flatMap fun run => if run = name then replacement else run := by
  induction runs generalizing before with
  | nil => rw [List.flatten_nil, replaceWord, List.flatMap_nil]
  | cons run runs ih =>
    rw [List.mem_cons, not_or] at hnil
    rw [List.forall_mem_cons] at hsame
    replace ih {before : Option Char} := @ih before hnil.2 hsame.2 hdiffer.tail
    obtain ⟨c, cs, rfl⟩ := List.exists_cons_of_ne_nil (Ne.symm hnil.1)
    have hkind := isWordChar_eq_of_isChain hsame.1
    rw [List.flatten_cons, List.flatMap_cons]
    cases hc : Text.isWordChar c with
    | true =>
      have hrun : IsWord (c :: cs) := ⟨List.cons_ne_nil c cs, fun d hd => (hkind d hd).trans hc⟩
      have houtside : before.any Text.isWordChar = false :=
        Bool.eq_false_iff.2 fun h => Bool.false_ne_true ((hbefore h).symm.trans hc)
      have hrest := any_head?_flatten hrun hdiffer
      rw [replaceWord_run hname hrun houtside hrest, ih fun _ => hrest]
    | false =>
      have hne : c :: cs ≠ name := by
        rintro rfl
        exact Bool.false_ne_true (hc.symm.trans (hname.isWordChar c List.mem_cons_self))
      have hcs : ∀ d ∈ cs, Text.isWordChar d = false := fun d hd => (hkind d (List.mem_cons_of_mem c hd)).trans hc
      rw [if_neg hne, List.cons_append, replaceWord_cons_of_not_isWordChar hname hc, replaceWord_outside hname hcs,
        ih fun h => (by cases h), List.cons_append]

/-- The search between word boundaries finds the longest runs of word characters that equal the name. -/
theorem replaceWord_eq_replaceRuns {name : List Char} (hname : IsWord name) (replacement text : List Char) :
    replaceWord name replacement none text = replaceRuns name replacement text := by
  have hruns : replaceWord name replacement none (wordRuns text).flatten = replaceRuns name replacement text := by
    refine replaceWord_flatten hname (List.nil_notMem_splitBy sameKind text) ?_ ?_ fun h => by (cases h)
    · exact fun run hrun => List.isChain_of_mem_splitBy hrun
    · exact List.isChain_getLast_head_splitBy sameKind text
  rwa [wordRuns, List.flatten_splitBy] at hruns

/-! ## Lines -/

/-- No macro without a name is read. -/
theorem Directive.name_ne_nil_of_read {body : List Char} {m : Macro} (h : read body = .ok (.define m)) :
    m.name ≠ [] := by
  unfold read at h
  dsimp only at h
  split at h
  · split at h
    · cases h
    · rename_i hname
      cases h
      exact fun he => hname (List.isEmpty_iff.2 he)
  · repeat' split at h
    all_goals cases h

theorem name_ne_nil_of_mem_liveMacros {lines : List (List Char)} {m : Macro} (h : m ∈ liveMacros lines) :
    m.name ≠ [] := by
  rcases MacroTable.mem_of_mem_foldl_apply _ h with h | h
  · cases h
  · obtain ⟨line, -, hline⟩ := List.mem_filterMap.1 h
    obtain ⟨body, -, hread⟩ := Directive.exists_read_of_ofLine? hline
    exact Directive.name_ne_nil_of_read hread

/-- The macros that the directives among some lines leave behind are one for each name that has a definition since it
was last undefined: the last of these definitions, at the place of the first. And where their names consist of word
characters, a line is expanded by one of them after the other, in the order of the table: each replaces those longest
runs of word characters that equal its name, and nothing else. -/
theorem liveMacros_expand_by_runs (lines : List (List Char)) :
    (liveMacros lines).Records (lines.filterMap Directive.ofLine?) ∧
      ((∀ m ∈ liveMacros lines, ∀ c ∈ m.name, Text.isWordChar c = true) → ∀ text : List Char,
        (liveMacros lines).expand text =
          (liveMacros lines).foldl (fun text m => replaceRuns m.name m.replacement text) text) := by
  refine ⟨MacroTable.records_foldl _, fun hword text => ?_⟩
  refine List.foldl_ext _ _ text fun text m hm => ?_
  exact replaceWord_eq_replaceRuns ⟨name_ne_nil_of_mem_liveMacros hm, hword m hm⟩ m.replacement text

/-- One name is defined again, another one undefined and defined: the first of them keeps its place, and its
replacement is expanded by the other. -/
theorem liveMacros_expand_by_runs_redefined :
    let lines := ["#define A 0", "#define B 2", "#undef A", "#define A 1", "#define B A+AB"].map String.toList
    let table : MacroTable := [⟨"B".toList, "A+AB".toList⟩, ⟨"A".toList, "1".toList⟩]
    liveMacros lines = table ∧ table.Records (lines.filterMap Directive.ofLine?) ∧
      (∀ m ∈ table, ∀ c ∈ m.name, Text.isWordChar c = true) ∧
      table.foldl (fun text m => replaceRuns m.name m.replacement text) "B B2".toList = "1+AB B2".toList := by
  intro lines table
  have htable : liveMacros lines = table := by decide +kernel
  have hnames : table.all (fun m => m.name.all Text.isWordChar) = true := by decide
  have hword : ∀ m ∈ table, ∀ c ∈ m.name, Text.isWordChar c = true :=
    fun m hm => List.all_eq_true.1 (List.all_eq_true.1 hnames m hm)
  have hexpanded : table.expand "B B2".toList = "1+AB B2".toList := by decide +kernel
  obtain ⟨hrecords, hexpand⟩ := liveMacros_expand_by_runs lines
  rw [htable] at hrecords hexpand
  exact ⟨htable, hrecords, hword, (hexpand hword "B B2".toList).symm.trans hexpanded⟩

end WordMachine.Cflat
