/-
Trigraphs in one pass. Replacing one kind after the other gives what a single pass from left to right gives that
replaces every trigraph it meets: no character that a trigraph stands for can be part of a trigraph, and no two
trigraphs overlap, so that a substitution neither makes nor breaks a match for the ones after it. The order of the
substitutions is therefore of no consequence, and nothing is left for a second application.
-/
import WordMachine.Cflat.Trigraph
import Mathlib.Data.List.Infix
import Mathlib.Data.List.Perm.Basic

namespace WordMachine.Cflat

/-- Third characters of trigraphs, with the characters that the trigraphs stand for. -/
abbrev TrigraphTable := List (Char × Char)

namespace TrigraphTable

/-! ## One pass -/

/-- The character that a trigraph at the start of the text stands for. -/
def imageAt? (table : TrigraphTable) : List Char → Option Char
  | '?' :: '?' :: third :: _ => table.lookup third
  | _ => none

/-- One pass from left to right: a trigraph is replaced where it starts, and reading goes on after it. -/
def replaceAtOnce (table : TrigraphTable) : List Char → List Char
  | [] => []
  | c :: rest =>
    match table.imageAt? (c :: rest) with
    | some image => image :: replaceAtOnce table (rest.drop 2)
    | none => c :: replaceAtOnce table rest
termination_by text => text.length

variable {table s t : TrigraphTable} {text rest : List Char} {c third image : Char}

theorem mem_of_lookup (h : table.lookup third = some image) : (third, image) ∈ table := by
  obtain ⟨l₁, l₂, rfl, -⟩ := List.lookup_eq_some_iff.1 h
  simp

theorem imageAt?_eq_some_iff :
    table.imageAt? text = some image ↔
      ∃ third rest, text = '?' :: '?' :: third :: rest ∧ table.lookup third = some image := by
  constructor
  · intro h
    unfold imageAt? at h
    split at h
    · exact ⟨_, _, rfl, h⟩
    · cases h
  · rintro ⟨third, rest, rfl, h⟩
    exact h

theorem imageAt?_eq_none_iff : table.imageAt? text = none ↔
    ∀ third rest, text = '?' :: '?' :: third :: rest → table.lookup third = none := by
  constructor
  · rintro h third rest rfl
    exact h
  · intro h
    unfold imageAt?
    split
    · exact h _ _ rfl
    · rfl

theorem imageAt?_append (s t : TrigraphTable) (text : List Char) :
    imageAt? (s ++ t) text = (s.imageAt? text).or (t.imageAt? text) := by
  unfold imageAt?
  split
  · exact List.lookup_append
  · rfl

theorem imageAt?_eq_none_of_second (hc : c ≠ '?') (first : Char) (rest : List Char) :
    table.imageAt? (first :: c :: rest) = none :=
  imageAt?_eq_none_iff.2 fun _ _ htext => absurd (List.cons.inj (List.cons.inj htext).2).1 hc

theorem imageAt?_eq_none_of_first (hc : c ≠ '?') (rest : List Char) : table.imageAt? (c :: rest) = none :=
  imageAt?_eq_none_iff.2 fun _ _ htext => absurd (List.cons.inj htext).1 hc

theorem replaceAtOnce_trigraph (h : table.lookup third = some image) (rest : List Char) :
    table.replaceAtOnce ('?' :: '?' :: third :: rest) = image :: table.replaceAtOnce rest := by
  rw [replaceAtOnce, imageAt?_eq_some_iff.2 ⟨third, rest, rfl, h⟩]
  rfl

theorem replaceAtOnce_cons (h : table.imageAt? (c :: rest) = none) :
    table.replaceAtOnce (c :: rest) = c :: table.replaceAtOnce rest := by
  rw [replaceAtOnce, h]

/-- What the pass puts out is read, unless a trigraph stands for it. -/
theorem exists_of_replaceAtOnce_eq_cons {out : List Char} (hc : ∀ u ∈ table, u.2 ≠ c)
    (h : table.replaceAtOnce text = c :: out) : ∃ rest, text = c :: rest ∧ out = table.replaceAtOnce rest := by
  cases text with
  | nil =>
    rw [replaceAtOnce] at h
    cases h
  | cons d rest =>
    cases hat : table.imageAt? (d :: rest) with
    | none =>
      rw [replaceAtOnce_cons hat] at h
      cases h
      exact ⟨rest, rfl, rfl⟩
    | some image =>
      obtain ⟨third, rest, htext, hlookup⟩ := imageAt?_eq_some_iff.1 hat
      rw [htext, replaceAtOnce_trigraph hlookup] at h
      exact absurd (List.cons.inj h).1 (hc _ (mem_of_lookup hlookup))

theorem replaceAtOnce_congr (h : ∀ c, s.lookup c = t.lookup c) (text : List Char) :
    s.replaceAtOnce text = t.replaceAtOnce text := by
  have hat (text : List Char) : s.imageAt? text = t.imageAt? text := by
    unfold imageAt?
    split
    · exact h _
    · rfl
  fun_induction replaceAtOnce s text with
  | case1 => rw [replaceAtOnce]
  | case2 c rest image himage ih => rw [replaceAtOnce, ← hat, himage, ih]
  | case3 c rest hnone ih => rw [replaceAtOnce, ← hat, hnone, ih]

/-! ## Tables whose trigraphs do not disturb each other -/

/-- Each third character stands for one character. No third character and no image is a question mark, and no image
is a third character. -/
structure Independent (table : TrigraphTable) : Prop where
  nodup : (table.map (·.1)).Nodup
  third_ne_mark : ∀ u ∈ table, u.1 ≠ '?'
  image_ne_mark : ∀ u ∈ table, u.2 ≠ '?'
  image_ne_third : ∀ u ∈ table, ∀ v ∈ table, u.2 ≠ v.1

theorem Independent.perm (h : Independent s) (hperm : s.Perm t) : Independent t where
  nodup := (hperm.map _).nodup_iff.1 h.nodup
  third_ne_mark u hu := h.third_ne_mark u (hperm.mem_iff.2 hu)
  image_ne_mark u hu := h.image_ne_mark u (hperm.mem_iff.2 hu)
  image_ne_third u hu v hv := h.image_ne_third u (hperm.mem_iff.2 hu) v (hperm.mem_iff.2 hv)

theorem Independent.of_cons {u : Char × Char} (h : Independent (u :: table)) : Independent table where
  nodup := (List.nodup_cons.1 h.nodup).2
  third_ne_mark v hv := h.third_ne_mark v (List.mem_cons_of_mem u hv)
  image_ne_mark v hv := h.image_ne_mark v (List.mem_cons_of_mem u hv)
  image_ne_third v hv w hw := h.image_ne_third v (List.mem_cons_of_mem u hv) w (List.mem_cons_of_mem u hw)

theorem Independent.lookup_eq_some_iff (h : Independent table) :
    table.lookup third = some image ↔ (third, image) ∈ table := by
  refine ⟨mem_of_lookup, fun hmem => ?_⟩
  obtain ⟨l₁, l₂, rfl⟩ := List.append_of_mem hmem
  refine List.lookup_eq_some_iff.2 ⟨l₁, l₂, rfl, fun u hu => bne_iff_ne.2 fun heq => ?_⟩
  have hnodup := h.nodup
  rw [List.map_append, List.map_cons, List.nodup_append] at hnodup
  exact hnodup.2.2 u.1 (List.mem_map_of_mem hu) third List.mem_cons_self heq.symm

theorem Independent.replaceAtOnce_perm (h : Independent s) (hperm : s.Perm t) (text : List Char) :
    s.replaceAtOnce text = t.replaceAtOnce text := by
  refine replaceAtOnce_congr (fun c => Option.ext fun image => ?_) text
  rw [h.lookup_eq_some_iff, (h.perm hperm).lookup_eq_some_iff, hperm.mem_iff]

/-- The pass of a table makes no trigraph that another table, or the same one, would replace. -/
theorem imageAt?_cons_replaceAtOnce (hmark : ∀ u ∈ s, u.2 ≠ '?') (hthird : ∀ u ∈ s, ∀ v ∈ t, u.2 ≠ v.1)
    (h : t.imageAt? (c :: rest) = none) : t.imageAt? (c :: s.replaceAtOnce rest) = none := by
  refine imageAt?_eq_none_iff.2 fun third more htext => Option.eq_none_iff_forall_ne_some.2 fun image hlookup => ?_
  obtain ⟨rfl, hout⟩ := List.cons.inj htext
  -- neither the second nor the third character was made, so that both stand in the text
  obtain ⟨rest, rfl, hmore⟩ := exists_of_replaceAtOnce_eq_cons hmark hout
  have hmem := mem_of_lookup hlookup
  obtain ⟨rest, rfl, -⟩ := exists_of_replaceAtOnce_eq_cons (fun u hu => hthird u hu _ hmem) hmore.symm
  rw [imageAt?_eq_none_iff.1 h third rest rfl] at hlookup
  cases hlookup

/-- Two passes, one after the other, replace what one pass replaces. -/
theorem Independent.replaceAtOnce_append (h : Independent (s ++ t)) (text : List Char) :
    t.replaceAtOnce (s.replaceAtOnce text) = replaceAtOnce (s ++ t) text := by
  -- on the length of the text, as both passes leave three characters behind where they replace a trigraph
  induction hlength : text.length using Nat.strong_induction_on generalizing text with
  | _ n ih =>
  subst hlength
  have hshorter (third : Char) (rest : List Char) : rest.length < ('?' :: '?' :: third :: rest).length := by
    simp only [List.length_cons]
    omega
  cases text with
  | nil => rw [replaceAtOnce, replaceAtOnce, replaceAtOnce]
  | cons c rest =>
    have hat := imageAt?_append s t (c :: rest)
    cases hs : s.imageAt? (c :: rest) with
    | some image =>
      obtain ⟨third, rest, htext, hlookup⟩ := imageAt?_eq_some_iff.1 hs
      have himage : image ≠ '?' := h.image_ne_mark _ (List.mem_append_left t (mem_of_lookup hlookup))
      have hlookup' : List.lookup third (s ++ t) = some image := by rw [List.lookup_append, hlookup]; rfl
      rw [htext, replaceAtOnce_trigraph hlookup, replaceAtOnce_cons (imageAt?_eq_none_of_first himage _),
        replaceAtOnce_trigraph hlookup', ih rest.length (by rw [htext]; exact hshorter _ _) rest rfl]
    | none =>
      rw [hs, Option.none_or] at hat
      rw [replaceAtOnce_cons hs]
      cases ht : t.imageAt? (c :: rest) with
      | some image =>
        obtain ⟨third, rest', htext, hlookup⟩ := imageAt?_eq_some_iff.1 ht
        cases htext
        have hthird : third ≠ '?' := h.third_ne_mark _ (List.mem_append_right s (mem_of_lookup hlookup))
        have hlookup' : List.lookup third (s ++ t) = some image := by
          obtain ⟨third', rest'', htext', hlookup'⟩ := imageAt?_eq_some_iff.1 (hat.trans ht)
          cases htext'
          exact hlookup'
        -- the first pass goes over this trigraph and does not touch it
        rw [replaceAtOnce_cons (imageAt?_eq_none_of_second hthird _ _),
          replaceAtOnce_cons (imageAt?_eq_none_of_first hthird _), replaceAtOnce_trigraph hlookup,
          replaceAtOnce_trigraph hlookup', ih rest'.length (hshorter _ _) rest' rfl]
      | none =>
        have hnone : t.imageAt? (c :: s.replaceAtOnce rest) = none :=
          imageAt?_cons_replaceAtOnce (fun u hu => h.image_ne_mark u (List.mem_append_left t hu))
            (fun u hu v hv => h.image_ne_third u (List.mem_append_left t hu) v (List.mem_append_right s hv)) ht
        rw [replaceAtOnce_cons hnone, replaceAtOnce_cons (hat.trans ht), ih rest.length (by simp) rest rfl]

/-- No trigraph is left after the pass. -/
theorem Independent.not_isInfix_replaceAtOnce (h : Independent table) (hmem : (third, image) ∈ table)
    (text : List Char) : ¬ ['?', '?', third] <:+: table.replaceAtOnce text := by
  fun_induction replaceAtOnce table text with
  | case1 => simp
  | case2 c rest image' hat ih =>
    rw [List.infix_cons_iff, not_or]
    refine ⟨fun hstart => ?_, ih⟩
    obtain ⟨third', rest', -, hlookup⟩ := imageAt?_eq_some_iff.1 hat
    exact h.image_ne_mark _ (mem_of_lookup hlookup) (List.cons_prefix_cons.1 hstart).1.symm
  | case3 c rest hnone ih =>
    rw [List.infix_cons_iff, not_or]
    refine ⟨fun hstart => ?_, ih⟩
    obtain ⟨rfl, more, hmore⟩ := List.cons_prefix_cons.1 hstart
    have hnone := imageAt?_cons_replaceAtOnce h.image_ne_mark h.image_ne_third hnone
    have hlookup := h.lookup_eq_some_iff.2 hmem
    rw [imageAt?_eq_none_iff.1 hnone third more (by rw [← hmore]; rfl)] at hlookup
    cases hlookup

/-- A text without trigraphs stays as it is. -/
theorem replaceAtOnce_of_not_isInfix (h : ∀ u ∈ table, ¬ ['?', '?', u.1] <:+: text) :
    table.replaceAtOnce text = text := by
  induction text with
  | nil => rw [replaceAtOnce]
  | cons c rest ih =>
    have hnone : table.imageAt? (c :: rest) = none := by
      refine imageAt?_eq_none_iff.2 fun third rest' htext => ?_
      refine Option.eq_none_iff_forall_ne_some.2 fun image hlookup => ?_
      exact h _ (mem_of_lookup hlookup) (htext ▸ (List.prefix_append ['?', '?', third] rest').isInfix)
    rw [replaceAtOnce_cons hnone, ih fun u hu hinfix => h u hu (List.infix_cons hinfix)]

/-! ## One kind after the other -/

theorem replaceTrigraph_eq (third image : Char) (text : List Char) :
    replaceTrigraph third image text = replaceAtOnce [(third, image)] text := by
  fun_induction replaceTrigraph third image text with
  | case1 => rw [replaceAtOnce]
  | case2 c rest h ih =>
    obtain ⟨rfl, htake⟩ := h
    have hrest : rest = '?' :: third :: rest.drop 2 := by
      rw [← List.take_append_drop 2 rest, htake]
      rfl
    rw [ih, ← replaceAtOnce_trigraph List.lookup_cons_self, ← hrest]
  | case3 c rest h ih =>
    rw [replaceAtOnce_cons, ih]
    refine imageAt?_eq_none_iff.2 fun third' rest' htext => ?_
    obtain ⟨rfl, rfl⟩ := List.cons.inj htext
    refine Option.eq_none_iff_forall_ne_some.2 fun image' hlookup => ?_
    obtain ⟨rfl, -⟩ := Prod.mk.inj (List.mem_singleton.1 (mem_of_lookup hlookup))
    exact h ⟨rfl, rfl⟩

/-- The substitutions of a table, one after the other. -/
def replaceInTurn (table : TrigraphTable) (text : List Char) : List Char :=
  table.foldl (fun text u => replaceTrigraph u.1 u.2 text) text

theorem Independent.replaceInTurn_eq : ∀ {table : TrigraphTable}, Independent table → ∀ text : List Char,
    table.replaceInTurn text = table.replaceAtOnce text
  | [], _, text => (replaceAtOnce_of_not_isInfix fun u hu => absurd hu List.not_mem_nil).symm
  | u :: table, h, text => by
    have hstep : replaceInTurn (u :: table) text = replaceInTurn table (replaceTrigraph u.1 u.2 text) := rfl
    rw [hstep, h.of_cons.replaceInTurn_eq, replaceTrigraph_eq]
    exact Independent.replaceAtOnce_append (s := [u]) h text

theorem independent_trigraphs : Independent trigraphs := by
  have hmarks : trigraphs.all (fun u => u.1 != '?' && u.2 != '?') = true := rfl
  have himages : trigraphs.all (fun u => trigraphs.all fun v => u.2 != v.1) = true := rfl
  have hmark (u : Char × Char) (hu : u ∈ trigraphs) : u.1 ≠ '?' ∧ u.2 ≠ '?' := by
    rw [← bne_iff_ne, ← bne_iff_ne, ← Bool.and_eq_true]
    exact List.all_eq_true.1 hmarks u hu
  refine ⟨by decide, fun u hu => (hmark u hu).1, fun u hu => (hmark u hu).2, fun u hu v hv => ?_⟩
  exact bne_iff_ne.1 (List.all_eq_true.1 (List.all_eq_true.1 himages u hu) v hv)

end TrigraphTable

open TrigraphTable

/-- Replacing the trigraphs of one kind after the other is one pass from left to right that replaces all of them. The
order of the substitutions makes no difference, no trigraph is left, and a second application changes nothing. -/
theorem replaceTrigraphs_eq_replaceAtOnce (text : List Char) :
    replaceTrigraphs text = replaceAtOnce trigraphs text ∧
      (∀ order : TrigraphTable, order.Perm trigraphs → order.replaceInTurn text = replaceTrigraphs text) ∧
      (∀ u ∈ trigraphs, ¬ ['?', '?', u.1] <:+: replaceTrigraphs text) ∧
      replaceTrigraphs (replaceTrigraphs text) = replaceTrigraphs text := by
  have hpass (text : List Char) : replaceTrigraphs text = replaceAtOnce trigraphs text :=
    independent_trigraphs.replaceInTurn_eq text
  have hnone : ∀ u ∈ trigraphs, ¬ ['?', '?', u.1] <:+: replaceTrigraphs text := by
    intro u hu
    rw [hpass]
    exact independent_trigraphs.not_isInfix_replaceAtOnce hu text
  refine ⟨hpass text, fun order horder => ?_, hnone, ?_⟩
  · have hindependent := independent_trigraphs.perm horder.symm
    rw [hindependent.replaceInTurn_eq, hindependent.replaceAtOnce_perm horder, hpass]
  · rw [hpass (replaceTrigraphs text), replaceAtOnce_of_not_isInfix hnone]

/-- A run of question marks, a trigraph right after another one, and the last substitution made first. -/
theorem replaceTrigraphs_eq_replaceAtOnce_reverse :
    trigraphs.reverse.Perm trigraphs ∧ ('=', '#') ∈ trigraphs ∧
      replaceInTurn trigraphs.reverse "????=??/=?".toList = "??#\\=?".toList ∧
      ¬ "??=".toList <:+: replaceTrigraphs "????=??/=?".toList := by
  have hreplaced : replaceTrigraphs "????=??/=?".toList = "??#\\=?".toList := by decide +kernel
  obtain ⟨-, horder, hnone, -⟩ := replaceTrigraphs_eq_replaceAtOnce "????=??/=?".toList
  exact ⟨trigraphs.reverse_perm, .head _, (horder _ trigraphs.reverse_perm).trans hreplaced, hnone _ (.head _)⟩

end WordMachine.Cflat
