/-
The lines of a text. A text is taken apart at its line feeds from the left, one line at a time. A change to a
text that keeps its line feeds and carriage returns in their places changes each line for itself.
-/
import WordMachine.Text.Line

namespace WordMachine.Text

/-- Every text is a text without the separator, or has a text without it in front of the first one. -/
@[elab_as_elim]
theorem induction_at (separator : Char) {P : List Char → Prop} (last : ∀ text, separator ∉ text → P text)
    (piece : ∀ text rest, separator ∉ text → P rest → P (text ++ separator :: rest)) (text : List Char) : P text := by
  by_cases h : separator ∈ text
  · obtain ⟨before, rest, htext, hbefore⟩ := List.eq_append_cons_of_mem h
    rw [htext]
    exact piece before rest hbefore (induction_at separator last piece rest)
  · exact last text h
termination_by text.length
decreasing_by
  rw [htext, List.length_append, List.length_cons]
  omega

/-! ## Lines of a text -/

theorem splitFeeds_of_not_mem : ∀ {text : List Char}, '\n' ∉ text → splitFeeds text = ([], text)
  | [], _ => rfl
  | c :: cs, h => by
    have hc : ¬ c = '\n' := fun he => h (he ▸ List.mem_cons_self)
    rw [splitFeeds, splitFeeds_of_not_mem fun hcs => h (List.mem_cons_of_mem c hcs)]
    exact if_neg hc

theorem splitFeeds_append_feed (rest : List Char) : ∀ {line : List Char}, '\n' ∉ line →
    splitFeeds (line ++ '\n' :: rest) = (line :: (splitFeeds rest).1, (splitFeeds rest).2)
  | [], _ => rfl
  | c :: cs, h => by
    have hc : ¬ c = '\n' := fun he => h (he ▸ List.mem_cons_self)
    rw [List.cons_append, splitFeeds, splitFeeds_append_feed rest fun hcs => h (List.mem_cons_of_mem c hcs)]
    exact if_neg hc

@[simp] theorem lines_nil : lines [] = [] := rfl

theorem lines_of_not_mem {text : List Char} (h : '\n' ∉ text) (hne : text ≠ []) : lines text = [text] := by
  rw [lines, splitFeeds_of_not_mem h]
  exact if_neg fun he => hne (List.isEmpty_iff.1 he)

theorem lines_append_feed {line : List Char} (h : '\n' ∉ line) (rest : List Char) :
    lines (line ++ '\n' :: rest) = dropReturn line :: lines rest := by
  rw [lines, splitFeeds_append_feed rest h]
  rfl

theorem mem_of_mem_dropReturn {line : List Char} {c : Char} (h : c ∈ dropReturn line) : c ∈ line := by
  unfold dropReturn at h
  split at h
  · exact (List.dropLast_sublist line).subset h
  · exact h

theorem not_mem_of_mem_lines {cs line : List Char} (h : line ∈ lines cs) : '\n' ∉ line := by
  induction cs using induction_at '\n' with
  | last text hfree =>
    by_cases hne : text = []
    · rw [hne] at h
      cases h
    · rw [lines_of_not_mem hfree hne, List.mem_singleton] at h
      exact h ▸ hfree
  | piece text rest hfree ih =>
    rw [lines_append_feed hfree] at h
    rcases List.mem_cons.1 h with rfl | h
    · exact fun hmem => hfree (mem_of_mem_dropReturn hmem)
    · exact ih h

/-- A text that ends in a line feed ends with a line. -/
theorem lines_append {cs : List Char} (h : ∀ c ∈ cs.getLast?, c = '\n') (rest : List Char) :
    lines (cs ++ rest) = lines cs ++ lines rest := by
  induction cs using induction_at '\n' with
  | last text hfree =>
    cases hlast : text.getLast? with
    | none => rw [List.getLast?_eq_none_iff.1 hlast, lines_nil, List.nil_append, List.nil_append]
    | some c => exact absurd (h c hlast ▸ List.mem_of_getLast? hlast) hfree
  | piece text below hfree ih =>
    have hbelow : ∀ c ∈ below.getLast?, c = '\n' := by
      intro c hc
      refine h c ?_
      rw [List.getLast?_append, List.getLast?_cons, Option.some_or, Option.mem_def.1 hc]
      rfl
    rw [List.append_assoc, List.cons_append, lines_append_feed hfree, lines_append_feed hfree, ih hbelow,
      List.cons_append]

/-! ## Changes to the lines of a text -/

/-- The change leaves the separators of a text in place, and makes no other ones. -/
structure Keeps (f : List Char → List Char) (separator : Char) : Prop where
  eq_nil_iff : ∀ text, f text = [] ↔ text = []
  append : ∀ text rest, f (text ++ separator :: rest) = f text ++ separator :: f rest
  mem : ∀ text, separator ∈ f text → separator ∈ text

namespace Keeps

variable {f g : List Char → List Char} {separator : Char}

protected theorem id (separator : Char) : Keeps id separator where
  eq_nil_iff _ := Iff.rfl
  append _ _ := rfl
  mem _ h := h

theorem comp (hg : Keeps g separator) (hf : Keeps f separator) : Keeps (g ∘ f) separator where
  eq_nil_iff text := (hg.eq_nil_iff _).trans (hf.eq_nil_iff text)
  append text rest := by rw [Function.comp_apply, hf.append, hg.append]; rfl
  mem text h := hf.mem text (hg.mem _ h)

/-- One change after the other. -/
protected theorem foldl {α : Type} {f : α → List Char → List Char} : ∀ {xs : List α},
    (∀ x ∈ xs, Keeps (f x) separator) → Keeps (fun text => xs.foldl (fun text x => f x text) text) separator
  | [], _ => .id separator
  | x :: _, h => (Keeps.foldl fun y hy => h y (List.mem_cons_of_mem x hy)).comp (h x List.mem_cons_self)

/-- A separator at the end comes from one at the end. -/
theorem getLast? (h : Keeps f separator) {text : List Char} :
    (f text).getLast? = some separator → text.getLast? = some separator := by
  induction text using induction_at separator with
  | last text hfree => exact fun hlast => absurd (h.mem text (List.mem_of_getLast? hlast)) hfree
  | piece text rest _ ih =>
    intro hlast
    rw [h.append, List.getLast?_append, List.getLast?_cons, Option.some_or] at hlast
    rw [List.getLast?_append, List.getLast?_cons, Option.some_or]
    cases hrest : (f rest).getLast? with
    | none =>
      rw [(h.eq_nil_iff rest).1 (List.getLast?_eq_none_iff.1 hrest)]
      rfl
    | some c =>
      rw [hrest] at hlast
      rw [ih (hrest.trans hlast)]
      rfl

theorem dropReturn (h : Keeps f '\r') (line : List Char) : Text.dropReturn (f line) = f (Text.dropReturn line) := by
  by_cases hlast : line.getLast? = some '\r'
  · obtain ⟨start, rfl⟩ := List.getLast?_eq_some_iff.1 hlast
    have hstart : f (start ++ ['\r']) = f start ++ ['\r'] := by rw [h.append, (h.eq_nil_iff []).2 rfl]
    rw [Text.dropReturn, Text.dropReturn, if_pos hlast, hstart, if_pos (List.getLast?_concat ..),
      List.dropLast_concat, List.dropLast_concat]
  · rw [Text.dropReturn, Text.dropReturn, if_neg hlast, if_neg fun he => hlast (h.getLast? he)]

/-- The lines of the text that is made are those of the text, each one changed for itself. -/
theorem lines (hfeed : Keeps f '\n') (hreturn : Keeps f '\r') (cs : List Char) :
    Text.lines (f cs) = (Text.lines cs).map f := by
  induction cs using induction_at '\n' with
  | last text hfree =>
    by_cases hne : text = []
    · rw [hne, (hfeed.eq_nil_iff []).2 rfl]
      rfl
    · rw [lines_of_not_mem hfree hne]
      exact lines_of_not_mem (fun hmem => hfree (hfeed.mem text hmem)) fun he => hne ((hfeed.eq_nil_iff text).1 he)
  | piece text rest hfree ih =>
    rw [hfeed.append, lines_append_feed hfree, lines_append_feed fun hmem => hfree (hfeed.mem text hmem),
      hreturn.dropReturn, ih, List.map_cons]

end Keeps

end WordMachine.Text
