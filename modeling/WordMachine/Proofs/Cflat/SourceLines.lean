/-
Source text line by line. A directive leaves an empty line, every other line is expanded by the macros that the
directives above it have left, and no line is split or joined on the way: trigraphs do not reach over the end of
a line, and a replacement is part of a line. What is made of a line therefore stays when lines are added below.
-/
import WordMachine.Cflat.Source
import WordMachine.Proofs.Text.Lines
import Mathlib.Data.List.TakeWhile

namespace WordMachine.Cflat

/-! ## Trigraphs -/

section Trigraph

variable {third image : Char}

/-- A character that is in no trigraph divides the text. -/
theorem replaceTrigraph_append {c : Char} (hmark : c ≠ '?') (hthird : c ≠ third) (text rest : List Char) :
    replaceTrigraph third image (text ++ c :: rest) =
      replaceTrigraph third image text ++ c :: replaceTrigraph third image rest := by
  fun_induction replaceTrigraph third image text with
  | case1 => rw [List.nil_append, List.nil_append, replaceTrigraph, if_neg fun h => hmark h.1]
  | case2 d ds h ih =>
    have hlength : 2 ≤ ds.length := by
      have := congrArg List.length h.2
      rw [List.length_take] at this
      simp only [List.length_cons, List.length_nil] at this
      omega
    have h' : d = '?' ∧ (ds ++ c :: rest).take 2 = ['?', third] := by
      rw [List.take_append_of_le_length hlength]
      exact h
    rw [List.cons_append, replaceTrigraph, if_pos h', List.drop_append_of_le_length hlength, ih, List.cons_append]
  | case3 d ds h ih =>
    have h' : ¬ (d = '?' ∧ (ds ++ c :: rest).take 2 = ['?', third]) := by
      rintro ⟨hd, htake⟩
      cases ds with
      | nil => exact hmark (List.cons.inj htake).1
      | cons e es =>
        cases es with
        | nil => exact hthird (List.cons.inj (List.cons.inj htake).2).1
        | cons f fs => exact h ⟨hd, htake⟩
    rw [List.cons_append, replaceTrigraph, if_neg h', ih, List.cons_append]

theorem mem_of_mem_replaceTrigraph {c : Char} (himage : c ≠ image) {text : List Char}
    (h : c ∈ replaceTrigraph third image text) : c ∈ text := by
  fun_induction replaceTrigraph third image text with
  | case1 => cases h
  | case2 d ds _ ih =>
    rcases List.mem_cons.1 h with h | h
    · exact absurd h himage
    · exact List.mem_cons_of_mem d (List.mem_of_mem_drop (ih h))
  | case3 d ds _ ih =>
    rcases List.mem_cons.1 h with rfl | h
    · exact List.mem_cons_self
    · exact List.mem_cons_of_mem d (ih h)

theorem keeps_replaceTrigraph {c : Char} (hmark : c ≠ '?') (hthird : c ≠ third) (himage : c ≠ image) :
    Text.Keeps (replaceTrigraph third image) c where
  eq_nil_iff text := by
    cases text with
    | nil => rw [replaceTrigraph]
    | cons d ds =>
      rw [replaceTrigraph]
      split <;> simp
  append := replaceTrigraph_append hmark hthird
  mem _ := mem_of_mem_replaceTrigraph himage

end Trigraph

theorem keeps_replaceTrigraphs {c : Char} (hmark : c ≠ '?') (h : trigraphs.all (fun t => c != t.1 && c != t.2)) :
    Text.Keeps replaceTrigraphs c := by
  refine .foldl fun t ht => ?_
  have hne := List.all_eq_true.1 h t ht
  rw [Bool.and_eq_true, bne_iff_ne, bne_iff_ne] at hne
  exact keeps_replaceTrigraph hmark hne.1 hne.2

/-- The line with its trigraphs replaced, if the options ask for it. -/
def Options.spell (o : Options) (line : List Char) : List Char :=
  if o.trigraphs then replaceTrigraphs line else line

/-- The lines in which directives are looked for. -/
def sourceLines (o : Options) (source : String) : List (List Char) :=
  (Text.lines source.toList).map o.spell

/-- No line feed or carriage return is in a trigraph or is made by one. -/
theorem lines_spell (o : Options) (cs : List Char) : Text.lines (o.spell cs) = (Text.lines cs).map o.spell := by
  unfold Options.spell
  split
  · exact (keeps_replaceTrigraphs (by decide) rfl).lines (keeps_replaceTrigraphs (by decide) rfl) cs
  · exact (List.map_id _).symm

theorem not_mem_of_mem_sourceLines {o : Options} {source : String} {line : List Char}
    (h : line ∈ sourceLines o source) : '\n' ∉ line := by
  rw [sourceLines, ← lines_spell] at h
  exact Text.not_mem_of_mem_lines h

theorem sourceLines_append (o : Options) {s₁ : String} (h : s₁.toList.getLast? = some '\n') (s₂ : String) :
    sourceLines o (s₁ ++ s₂) = sourceLines o s₁ ++ sourceLines o s₂ := by
  have hlast : ∀ c ∈ s₁.toList.getLast?, c = '\n' := fun c hc => Option.some.inj (hc.symm.trans h)
  rw [sourceLines, String.toList_append, Text.lines_append hlast, List.map_append]
  rfl

/-! ## Directives -/

/-- The first character that is not blank is `#`. -/
def IsDirectiveLine (line : List Char) : Prop := line.find? (!Text.isBlank ·) = some '#'

instance (line : List Char) : Decidable (IsDirectiveLine line) := inferInstanceAs (Decidable (_ = _))

namespace Directive

/-- The directive that a line holds. -/
def ofLine? (line : List Char) : Option Directive := (body? line).bind fun body => (read body).toOption

theorem exists_read_of_ofLine? {line : List Char} {directive : Directive} (h : ofLine? line = some directive) :
    ∃ body, body? line = some body ∧ read body = .ok directive := by
  obtain ⟨body, hbody, hread⟩ := Option.bind_eq_some_iff.1 h
  refine ⟨body, hbody, ?_⟩
  cases hok : read body with
  | error fault => rw [hok] at hread; cases hread
  | ok directive => rw [hok] at hread; exact congrArg _ (Option.some.inj hread)

/-- Every directive is obeyed if a pattern can be built for every name. -/
theorem fault?_eq_none {limits : PatternLimits} (h : ∀ name, limits name = none) (d : Directive) :
    d.fault? limits = none := by
  cases d with
  | define definition => rw [fault?, h, Option.map_none]
  | undefine name => rfl

/-- A line that starts as a directive can be read as one. -/
def Legible (line : List Char) : Prop := IsDirectiveLine line → (ofLine? line).isSome

theorem find?_eq_head?_trimStart (line : List Char) :
    line.find? (!Text.isBlank ·) = (Text.trimStart line).head? := by
  rw [List.find?_eq_head?_dropWhile_not, Text.trimStart]
  simp only [Bool.not_not]

theorem body?_of_isDirectiveLine {line : List Char} (h : IsDirectiveLine line) :
    ∃ body, body? line = some body ∧ ∀ c ∈ body, c ∈ line := by
  rw [IsDirectiveLine, find?_eq_head?_trimStart] at h
  obtain ⟨body, hbody⟩ := List.head?_eq_some_iff.1 h
  refine ⟨body, by rw [body?, hbody]; rfl, fun c hc => ?_⟩
  exact (List.dropWhile_suffix _).subset (show c ∈ Text.trimStart line from hbody ▸ List.mem_cons_of_mem _ hc)

theorem body?_of_not_isDirectiveLine {line : List Char} (h : ¬ IsDirectiveLine line) : body? line = none := by
  rw [IsDirectiveLine, find?_eq_head?_trimStart] at h
  unfold body?
  split
  · rename_i hbody
    exact absurd (by rw [hbody]; rfl) h
  · rfl

theorem ofLine?_of_not_isDirectiveLine {line : List Char} (h : ¬ IsDirectiveLine line) : ofLine? line = none := by
  rw [ofLine?, body?_of_not_isDirectiveLine h, Option.bind_none]

theorem mem_of_mem_trim {cs : List Char} {c : Char} (h : c ∈ Text.trim cs) : c ∈ cs := by
  rw [Text.trim, Text.trimEnd, List.mem_reverse] at h
  exact (List.dropWhile_suffix _).subset (List.mem_reverse.1 ((List.dropWhile_suffix _).subset h))

theorem mem_of_mem_splitField {cs : List Char} {c : Char} (h : c ∈ (splitField cs).2) : c ∈ cs :=
  (List.dropWhile_suffix _).subset ((List.dropWhile_suffix _).subset h)

/-- A replacement is a part of the text that defines it. -/
theorem mem_of_mem_replacement {body : List Char} {m : Macro} (h : read body = .ok (.define m)) {c : Char}
    (hc : c ∈ m.replacement) : c ∈ body := by
  unfold read at h
  dsimp only at h
  split at h
  · split at h
    · cases h
    · cases h
      exact mem_of_mem_trim (mem_of_mem_splitField (mem_of_mem_splitField (mem_of_mem_trim hc)))
  · repeat' split at h
    all_goals cases h

theorem mem_of_ofLine? {line : List Char} {m : Macro} (h : ofLine? line = some (.define m)) {c : Char}
    (hc : c ∈ m.replacement) : c ∈ line := by
  obtain ⟨body, hbody, hread⟩ := exists_read_of_ofLine? h
  by_cases hline : IsDirectiveLine line
  · obtain ⟨body', hbody', hmem⟩ := body?_of_isDirectiveLine hline
    obtain rfl := Option.some.inj (hbody.symm.trans hbody')
    exact hmem c (mem_of_mem_replacement hread hc)
  · rw [body?_of_not_isDirectiveLine hline] at hbody
    cases hbody

end Directive

/-! ## Macros -/

theorem mem_of_mem_replaceWord {name replacement : List Char} {before : Option Char} {text : List Char} {c : Char}
    (h : c ∈ replaceWord name replacement before text) : c ∈ replacement ∨ c ∈ text := by
  fun_induction replaceWord name replacement before text with
  | case1 => cases h
  | case2 before d ds _ ih =>
    rcases List.mem_append.1 h with h | h
    · exact .inl h
    · exact (ih h).imp_right fun h => List.mem_cons_of_mem d (List.mem_of_mem_drop h)
  | case3 before d ds _ ih =>
    rcases List.mem_cons.1 h with rfl | h
    · exact .inr List.mem_cons_self
    · exact (ih h).imp_right (List.mem_cons_of_mem d)

namespace MacroTable

theorem mem_of_mem_expand {c : Char} : ∀ (table : MacroTable) {text : List Char}, c ∈ table.expand text →
    (∃ m ∈ table, c ∈ m.replacement) ∨ c ∈ text
  | [], _, h => .inr h
  | m :: table, text, h => by
    rcases mem_of_mem_expand table h with ⟨m', hm', hc⟩ | h
    · exact .inl ⟨m', List.mem_cons_of_mem m hm', hc⟩
    · exact (mem_of_mem_replaceWord h).imp_left fun hc => ⟨m, List.mem_cons_self, hc⟩

theorem mem_define_iff {table : MacroTable} {m m' : Macro} :
    m' ∈ table.define m ↔ m' = m ∨ m' ∈ table ∧ m'.name ≠ m.name := by
  unfold define
  split
  · rename_i hany
    rw [List.mem_map]
    constructor
    · rintro ⟨old, hold, rfl⟩
      split
      · exact .inl rfl
      · exact .inr ⟨hold, ‹_›⟩
    · rintro (rfl | ⟨hmem, hname⟩)
      · obtain ⟨old, hold, hname⟩ := List.any_eq_true.1 hany
        exact ⟨old, hold, if_pos (of_decide_eq_true hname)⟩
      · exact ⟨m', hmem, if_neg hname⟩
  · rename_i hany
    have hfresh (old : Macro) (hold : old ∈ table) : old.name ≠ m.name := fun hname =>
      hany (List.any_eq_true.2 ⟨old, hold, decide_eq_true hname⟩)
    rw [List.mem_append, List.mem_singleton, or_comm]
    exact or_congr_right ⟨fun h => ⟨h, hfresh m' h⟩, fun h => h.1⟩

/-- The macros after the directives among the lines, if `table` holds those before them. -/
def after (table : MacroTable) (lines : List (List Char)) : MacroTable :=
  (lines.filterMap Directive.ofLine?).foldl Directive.apply table

theorem after_cons (table : MacroTable) (line : List Char) (lines : List (List Char)) :
    table.after (line :: lines) = (table.after [line]).after lines := by
  rw [after, after, after, ← List.foldl_append, ← List.filterMap_append, List.singleton_append]

theorem after_singleton_of_some {line : List Char} {directive : Directive}
    (h : Directive.ofLine? line = some directive) (table : MacroTable) :
    table.after [line] = directive.apply table := by
  rw [after, List.filterMap_cons_some h]
  rfl

theorem after_singleton_of_none {line : List Char} (h : Directive.ofLine? line = none) (table : MacroTable) :
    table.after [line] = table := by
  rw [after, List.filterMap_cons_none h]
  rfl

theorem mem_of_mem_foldl_apply {m : Macro} : ∀ (directives : List Directive) {table : MacroTable},
    m ∈ directives.foldl Directive.apply table → m ∈ table ∨ .define m ∈ directives
  | [], _, h => .inl h
  | .define m' :: directives, table, h => by
    rcases mem_of_mem_foldl_apply directives h with h | h
    · rcases mem_define_iff.1 h with rfl | h
      · exact .inr List.mem_cons_self
      · exact .inl h.1
    · exact .inr (List.mem_cons_of_mem _ h)
  | .undefine name :: directives, table, h => by
    rcases mem_of_mem_foldl_apply directives h with h | h
    · exact .inl (List.mem_filter.1 h).1
    · exact .inr (List.mem_cons_of_mem _ h)

/-- Only directives change the macros. -/
theorem after_filter (table : MacroTable) (lines : List (List Char)) :
    table.after (lines.filter (IsDirectiveLine ·)) = table.after lines := by
  have hof : (fun line => if decide (IsDirectiveLine line) = true then Directive.ofLine? line else none) =
      Directive.ofLine? := by
    funext line
    by_cases hline : IsDirectiveLine line
    · rw [if_pos (decide_eq_true hline)]
    · rw [if_neg fun h => hline (of_decide_eq_true h), Directive.ofLine?_of_not_isDirectiveLine hline]
  rw [after, List.filterMap_filter, hof, after]

end MacroTable

/-- The macros that the directives among the lines leave behind. -/
def liveMacros (lines : List (List Char)) : MacroTable := MacroTable.after [] lines

/-- What is made of a line under the given macros. -/
def expansion (table : MacroTable) (line : List Char) : List Char :=
  if IsDirectiveLine line then [] else table.expand line

/-- Macros bring no character into a line that is in none of the lines. -/
theorem mem_of_mem_expansion {lines : List (List Char)} {line : List Char} {c : Char}
    (h : c ∈ expansion (liveMacros lines) line) : ∃ line' ∈ line :: lines, c ∈ line' := by
  unfold expansion at h
  split at h
  · cases h
  · rcases MacroTable.mem_of_mem_expand _ h with ⟨m, hm, hc⟩ | hc
    · rcases MacroTable.mem_of_mem_foldl_apply _ hm with hm | hm
      · cases hm
      · obtain ⟨line', hline', hof⟩ := List.mem_filterMap.1 hm
        exact ⟨line', List.mem_cons_of_mem _ hline', Directive.mem_of_ofLine? hof hc⟩
    · exact ⟨line, List.mem_cons_self, hc⟩

/-! ## Lines -/

theorem expandLine_eq_ok_iff {table : MacroTable} {line : List Char} {result : List Char × MacroTable} :
    expandLine table line = .ok result ↔
      Directive.Legible line ∧ result = (expansion table line, table.after [line]) := by
  unfold expandLine expansion Directive.Legible
  by_cases hline : IsDirectiveLine line
  · obtain ⟨body, hbody, -⟩ := Directive.body?_of_isDirectiveLine hline
    have hof : Directive.ofLine? line = (Directive.read body).toOption := by
      rw [Directive.ofLine?, hbody, Option.bind_some]
    rw [hbody, if_pos hline, hof]
    dsimp only
    cases hread : Directive.read body with
    | error fault =>
      constructor
      · intro h
        cases h
      · rintro ⟨hlegible, -⟩
        exact absurd (hlegible hline) Bool.false_ne_true
    | ok directive =>
      rw [hread] at hof
      rw [MacroTable.after_singleton_of_some hof]
      dsimp only
      rw [Directive.fault?_eq_none (fun _ => rfl : ∀ name, PatternLimits.none name = none)]
      exact ⟨fun h => ⟨fun _ => rfl, (Except.ok.inj h).symm⟩, fun h => congrArg _ h.2.symm⟩
  · rw [Directive.body?_of_not_isDirectiveLine hline, if_neg hline,
      MacroTable.after_singleton_of_none (Directive.ofLine?_of_not_isDirectiveLine hline)]
    exact ⟨fun h => ⟨fun hd => absurd hd hline, (Except.ok.inj h).symm⟩, fun h => congrArg _ h.2.symm⟩

/-- Every line is expanded by the macros that the lines above it have left. -/
theorem expandLines_eq_ok_iff : ∀ {lines out : List (List Char)} {number : Nat} {table : MacroTable},
    expandLines number table lines = .ok out ↔ (∀ line ∈ lines, Directive.Legible line) ∧
      out = lines.mapIdx fun k line => expansion (table.after (lines.take k)) line
  | [], out, number, table => by
    rw [expandLines, List.mapIdx_nil]
    exact ⟨fun h => ⟨List.forall_mem_nil _, (Except.ok.inj h).symm⟩, fun h => congrArg _ h.2.symm⟩
  | line :: lines, out, number, table => by
    rw [List.forall_mem_cons, List.mapIdx_cons]
    have hbelow : (lines.mapIdx fun k l => expansion (table.after ((line :: lines).take (k + 1))) l) =
        lines.mapIdx fun k l => expansion ((table.after [line]).after (lines.take k)) l := by
      refine List.mapIdx_eq_mapIdx_iff.2 fun k _ => ?_
      rw [List.take_succ_cons, MacroTable.after_cons]
    rw [hbelow, expandLines]
    constructor
    · intro h
      split at h
      · cases h
      · rename_i expanded table' hline
        obtain ⟨hlegible, hresult⟩ := expandLine_eq_ok_iff.1 hline
        obtain ⟨rfl, rfl⟩ := Prod.mk.inj hresult
        split at h
        · cases h
        · rename_i rest hrest
          cases h
          obtain ⟨hlines, rfl⟩ := expandLines_eq_ok_iff.1 hrest
          exact ⟨⟨hlegible, hlines⟩, rfl⟩
    · rintro ⟨⟨hlegible, hlines⟩, rfl⟩
      rw [expandLine_eq_ok_iff.2 ⟨hlegible, rfl⟩]
      dsimp only
      rw [expandLines_eq_ok_iff.2 ⟨hlines, rfl⟩]
      rfl

/-- What the lines become. -/
def expandedLines (lines : List (List Char)) : List (List Char) :=
  lines.mapIdx fun k line => expansion (liveMacros (lines.take k)) line

/-- Lines below do not change what the lines above become. -/
theorem expandedLines_append (above below : List (List Char)) :
    expandedLines above <+: expandedLines (above ++ below) := by
  have habove : (above.mapIdx fun k line => expansion (liveMacros ((above ++ below).take k)) line) =
      expandedLines above := by
    refine List.mapIdx_eq_mapIdx_iff.2 fun k hk => ?_
    rw [List.take_append_of_le_length (Nat.le_of_lt hk)]
  rw [expandedLines, expandedLines, List.mapIdx_append, habove]
  exact List.prefix_append _ _

theorem not_mem_of_mem_expandedLines {lines : List (List Char)} {c : Char} (h : ∀ line ∈ lines, c ∉ line)
    {line : List Char} (hline : line ∈ expandedLines lines) : c ∉ line := by
  obtain ⟨k, hk, rfl⟩ := List.mem_mapIdx.1 hline
  intro hc
  obtain ⟨line', hline', hc⟩ := mem_of_mem_expansion hc
  rcases List.mem_cons.1 hline' with rfl | hline'
  · exact h _ (List.getElem_mem hk) hc
  · exact h line' (List.mem_of_mem_take hline') hc

theorem expandSource_eq_ok_iff {o : Options} {source output : String} :
    expandSource o source = .ok output ↔ (∀ line ∈ sourceLines o source, Directive.Legible line) ∧
      output.toList = (expandedLines (sourceLines o source)).flatMap (· ++ ['\n']) := by
  have hlines : Text.lines (if o.trigraphs = true then replaceTrigraphs source.toList else source.toList) =
      sourceLines o source := lines_spell o source.toList
  unfold expandSource
  dsimp only
  rw [hlines]
  constructor
  · intro h
    split at h
    · cases h
    · rename_i lines hlines
      cases h
      obtain ⟨hlegible, rfl⟩ := expandLines_eq_ok_iff.1 hlines
      exact ⟨hlegible, String.toList_ofList⟩
  · rintro ⟨hlegible, houtput⟩
    rw [expandLines_eq_ok_iff.2 ⟨hlegible, rfl⟩]
    exact congrArg _ (String.toList_inj.1 (String.toList_ofList.trans houtput.symm))

/-- Every line of the source is one line of what is made of it: empty for a directive, and else expanded by the
macros that the directives above have left. What is made of the lines above a line feed is there whatever follows. -/
theorem expandSource_line_by_line {o : Options} {source output : String} (h : expandSource o source = .ok output) :
    (∃ out : List (List Char), output.toList = out.flatMap (· ++ ['\n']) ∧
      out.length = (Text.lines source.toList).length ∧ (∀ line ∈ out, '\n' ∉ line) ∧
      ∀ k line, (sourceLines o source)[k]? = some line →
        out[k]? = some (if IsDirectiveLine line then []
          else (liveMacros (((sourceLines o source).take k).filter (IsDirectiveLine ·))).expand line)) ∧
      ∀ s₁ s₂ : String, source = s₁ ++ s₂ → s₁.toList.getLast? = some '\n' →
        ∃ out₁, expandSource o s₁ = .ok out₁ ∧ out₁.toList <+: output.toList := by
  obtain ⟨hlegible, houtput⟩ := expandSource_eq_ok_iff.1 h
  constructor
  · refine ⟨expandedLines (sourceLines o source), houtput, ?_, ?_, ?_⟩
    · rw [expandedLines, List.length_mapIdx, sourceLines, List.length_map]
    · exact fun line => not_mem_of_mem_expandedLines fun _ => not_mem_of_mem_sourceLines
    · intro k line hline
      rw [expandedLines, List.getElem?_mapIdx, hline, liveMacros, liveMacros, MacroTable.after_filter]
      rfl
  · rintro s₁ s₂ rfl hfeed
    rw [sourceLines_append o hfeed] at hlegible houtput
    obtain ⟨below, hbelow⟩ := expandedLines_append (sourceLines o s₁) (sourceLines o s₂)
    refine ⟨_, expandSource_eq_ok_iff.2 ⟨fun line hline => hlegible line (List.mem_append_left _ hline),
      String.toList_ofList⟩, ?_⟩
    rw [houtput, ← hbelow, List.flatMap_append, String.toList_ofList]
    exact List.prefix_append _ _

/-- A macro is defined by a directive that is spelled with a trigraph and ends in a carriage return, and is gone
in the last line. -/
theorem expandSource_line_by_line_undefined :
    expandSource { trigraphs := true } "??=define A B\r\nA A1\n #undef A\nA" = .ok "\nB A1\n\nA\n" ∧
      ∃ above, expandSource { trigraphs := true } "??=define A B\r\nA A1\n" = .ok above ∧
        above.toList <+: "\nB A1\n\nA\n".toList := by
  have h : expandSource { trigraphs := true } "??=define A B\r\nA A1\n #undef A\nA" = .ok "\nB A1\n\nA\n" := by
    decide +kernel
  exact ⟨h, (expandSource_line_by_line h).2 "??=define A B\r\nA A1\n" " #undef A\nA" rfl rfl⟩

end WordMachine.Cflat
