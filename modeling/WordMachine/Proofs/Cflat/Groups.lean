/-
Groups and parts by their parentheses. From an opening parenthesis on, a group ends at the first place up to which as
many parentheses are closed as are opened, and it is not closed if there is no such place. A list whose parentheses
match is divided into the only parts of this kind that have no separator outside of their parentheses and that, with
separators between them, are the list again.
-/
import Mathlib.Order.Bounds.Image
import WordMachine.Proofs.Cflat.Slices

namespace WordMachine.Cflat

/-! ## Searches -/

/-- What a search gives: the least of the places, and nothing if there is none. -/
def Finds (places : Set Nat) : Option Nat → Prop
  | none => places = ∅
  | some place => IsLeast places place

namespace Finds

variable {places : Set Nat} {found : Option Nat}

theorem image {f : Nat → Nat} (hf : Monotone f) (h : Finds places found) : Finds (f '' places) (found.map f) := by
  cases found with
  | none =>
    rw [show places = ∅ from h]
    exact Set.image_empty f
  | some place => exact hf.map_isLeast h

theorem eq_some_iff {place : Nat} (h : Finds places found) : found = some place ↔ IsLeast places place := by
  cases found with
  | none =>
    rw [show places = ∅ from h]
    exact ⟨fun he => (by cases he), fun hleast => absurd hleast.1 (Set.notMem_empty place)⟩
  | some least => exact ⟨fun he => Option.some.inj he ▸ h, fun hleast => congrArg some (IsLeast.unique h hleast)⟩

theorem eq_none_iff (h : Finds places found) : found = none ↔ places = ∅ := by
  cases found with
  | none => exact ⟨fun _ => h, fun _ => rfl⟩
  | some least =>
    refine ⟨fun he => (by cases he), fun hempty => ?_⟩
    exact absurd (show least ∈ places from h.1) (hempty ▸ Set.notMem_empty least)

end Finds

/-! ## Places where a group may end -/

/-- The places up to which the list closes `depth` more parentheses than it opens. -/
def closings (depth : Nat) (ts : List Token) : Set Nat :=
  {place | place < ts.length ∧ (ts.take (place + 1)).count ")" = (ts.take (place + 1)).count "(" + depth}

/-- The places up to which, from `start` on, the list closes as many parentheses as it opens. -/
def evenPlaces (ts : List Token) (start : Nat) : Set Nat :=
  {place | start ≤ place ∧ ∃ us, slice? ts start (place + 1) = some us ∧ us.count ")" = us.count "("}

section

variable {depth : Nat} {t : Token}

/-- What is left to close after a token is the depth after it. -/
theorem count_cons_iff (h : t = ")" → 0 < depth) (ts : List Token) :
    (t :: ts).count ")" = (t :: ts).count "(" + depth ↔ ts.count ")" = ts.count "(" + nextDepth depth t := by
  by_cases hopen : t = "("
  · subst hopen
    rw [List.count_cons_self, List.count_cons_of_ne (by decide), nextDepth, if_pos rfl]
    omega
  by_cases hclose : t = ")"
  · subst hclose
    have hdepth := h rfl
    rw [List.count_cons_self, List.count_cons_of_ne (by decide), nextDepth, if_neg (by decide), if_pos rfl]
    omega
  · rw [List.count_cons_of_ne hopen, List.count_cons_of_ne hclose, nextDepth, if_neg hopen, if_neg hclose]

/-- While a group is open after a token, the group ends behind the token. -/
theorem closings_cons (h : 0 < nextDepth depth t) (ts : List Token) :
    closings depth (t :: ts) = Nat.succ '' closings (nextDepth depth t) ts := by
  have hclose : t = ")" → 0 < depth := by
    rintro rfl
    exact Nat.lt_of_lt_of_le h (Nat.sub_le depth 1)
  ext place
  cases place with
  | zero =>
    constructor
    · intro hplace
      have hcount := (count_cons_iff hclose []).1 hplace.2
      rw [List.count_nil, List.count_nil, Nat.zero_add] at hcount
      exact absurd hcount (Nat.ne_of_lt h)
    · rintro ⟨_, -, hplace⟩
      exact absurd hplace (Nat.succ_ne_zero _)
  | succ place =>
    rw [Nat.succ_injective.mem_set_image]
    exact and_congr Nat.succ_lt_succ_iff (count_cons_iff hclose (ts.take (place + 1)))

end

/-- Reading up to the end of a group finds the first place where it may end. -/
theorem finds_closeGroup? (depth : Nat) (ts : List Token) :
    Finds (closings (depth + 1) ts) ((closeGroup? depth ts).map fun p => p.1.length) := by
  induction ts generalizing depth with
  | nil => exact Set.eq_empty_of_forall_notMem fun _ hplace => Nat.not_lt_zero _ hplace.1
  | cons t ts ih =>
    -- while the group is open, the search goes on behind the token; only a closing parenthesis at depth zero ends it
    have step {d : Nat} (hdepth : nextDepth (depth + 1) t = d + 1) : Finds (closings (depth + 1) (t :: ts))
        (((closeGroup? d ts).map fun p => (t :: p.1, p.2)).map fun p => p.1.length) := by
      have hrest := (ih d).image fun _ _ hle => Nat.succ_le_succ hle
      rw [Option.map_map] at hrest ⊢
      rw [closings_cons (hdepth ▸ Nat.succ_pos d), hdepth]
      exact hrest
    by_cases hopen : t = "("
    · subst hopen
      rw [closeGroup?_open]
      exact step rfl
    by_cases hclose : t = ")"
    · subst hclose
      cases depth with
      | zero =>
        rw [closeGroup?_close_zero]
        exact ⟨⟨Nat.succ_pos _, rfl⟩, fun _ _ => Nat.zero_le _⟩
      | succ depth =>
        rw [closeGroup?_close_succ]
        exact step rfl
    · rw [closeGroup?_token hopen hclose]
      exact step (by rw [nextDepth, if_neg hopen, if_neg hclose])

/-- Places of the whole list are places of its rest, counted from the start of the rest. -/
theorem evenPlaces_eq (ts : List Token) (start : Nat) :
    evenPlaces ts start = (start + ·) '' closings 0 (ts.drop start) := by
  have hslice (n : Nat) : (ts.take (start + n + 1)).drop start = (ts.drop start).take (n + 1) := by
    rw [List.drop_take, Nat.add_assoc, Nat.add_sub_cancel_left]
  ext place
  constructor
  · rintro ⟨hstart, us, hus, hcount⟩
    obtain ⟨n, rfl⟩ := Nat.exists_eq_add_of_le hstart
    obtain ⟨hbounds, hus⟩ := Option.ite_none_right_eq_some.1 hus
    rw [Option.some.injEq, hslice] at hus
    subst hus
    exact ⟨n, ⟨by rw [List.length_drop]; omega, hcount⟩, rfl⟩
  · rintro ⟨n, ⟨hlength, hcount⟩, rfl⟩
    rw [List.length_drop] at hlength
    have hbounds : start ≤ start + n + 1 ∧ start + n + 1 ≤ ts.length := by omega
    exact ⟨Nat.le_add_right start n, _, (if_pos hbounds).trans (congrArg some (hslice n)), hcount⟩

/-! ## Groups -/

section

variable {ts : List Token} {start : Nat} (h : ts[start]? = some "(")

include h

theorem drop_of_open : ts.drop start = "(" :: ts.drop (start + 1) := by
  obtain ⟨hstart, hopen⟩ := List.getElem?_eq_some_iff.1 h
  rw [List.drop_eq_getElem_cons hstart, hopen]

theorem matching?_of_open :
    matching? ts start = (closeGroup? 0 (ts.drop (start + 1))).map fun p => start + 1 + p.1.length := by
  rw [matching?, drop_of_open h, closing?, if_pos rfl, closing?_succ]

theorem finds_matching? : Finds (evenPlaces ts start) (matching? ts start) := by
  have hgroup := (finds_closeGroup? 0 (ts.drop (start + 1))).image fun _ _ hle => Nat.add_le_add_left hle (start + 1)
  have hplaces : evenPlaces ts start = (start + 1 + ·) '' closings 1 (ts.drop (start + 1)) := by
    rw [evenPlaces_eq, drop_of_open h, closings_cons (by decide), Set.image_image]
    exact Set.image_congr fun n _ => (Nat.succ_add_eq_add_succ start n).symm
  rw [Option.map_map] at hgroup
  rw [hplaces, matching?_of_open h]
  exact hgroup

/-- The tokens of the group are those between its parentheses, and the others follow. -/
theorem closeGroup?_eq_slices : closeGroup? 0 (ts.drop (start + 1)) =
    (matching? ts start).map fun place => ((ts.take place).drop (start + 1), ts.drop (place + 1)) := by
  rw [matching?_of_open h]
  cases hgroup : closeGroup? 0 (ts.drop (start + 1)) with
  | none => rfl
  | some p =>
    obtain ⟨inner, rest⟩ := p
    obtain ⟨hafter, -⟩ := closeGroup?_eq_some hgroup
    have hinner : (ts.take (start + 1 + inner.length)).drop (start + 1) = inner := by
      rw [List.drop_take, Nat.add_sub_cancel_left, hafter, List.take_left]
    have hrest : ts.drop (start + 1 + inner.length + 1) = rest := by
      rw [Nat.add_assoc, ← List.drop_drop, hafter, ← List.drop_drop, List.drop_left]
      rfl
    rw [Option.map_some, Option.map_some, hinner, hrest]

end

/-! ## Parts -/

/-- The parts of a list whose parentheses match are of the same kind. -/
theorem Balanced.of_mem_parts {p : Token → Prop} {separator : Token} {ts : List Token} (h : Balanced p ts) :
    ∀ part ∈ parts separator ts, Balanced (· ≠ separator) part := by
  induction h with
  | nil => exact List.forall_mem_singleton.2 .nil
  | @token _ t ts ho hc _ _ ih =>
    obtain ⟨hfirst, hothers⟩ := List.forall_mem_cons.1 ih
    by_cases ht : t = separator
    · subst ht
      rw [parts, splitTop_separator ho hc]
      exact List.forall_mem_cons.2 ⟨.nil, ih⟩
    · rw [parts, splitTop_token ho hc (.inl ht)]
      exact List.forall_mem_cons.2 ⟨.token ho hc ht hfirst, hothers⟩
  | group hi _ _ ih =>
    obtain ⟨hfirst, hothers⟩ := List.forall_mem_cons.1 ih
    rw [parts, splitTop_open, hi.splitTop_inside, splitTop_close]
    exact List.forall_mem_cons.2 ⟨.group hi hfirst, hothers⟩

/-- The parts are the only lists without the separator outside of their parentheses that it joins to the list. -/
theorem Balanced.parts_eq_iff {p : Token → Prop} {separator : Token} {ts : List Token} {tss : List (List Token)}
    (h : Balanced p ts) (hopen : separator ≠ "(") (hclose : separator ≠ ")") :
    parts separator ts = tss ↔
      tss ≠ [] ∧ (∀ part ∈ tss, Balanced (· ≠ separator) part) ∧ [separator].intercalate tss = ts := by
  constructor
  · rintro rfl
    exact ⟨List.cons_ne_nil _ _, h.of_mem_parts, intercalate_parts separator ts⟩
  · rintro ⟨hne, hparts, rfl⟩
    obtain ⟨first, others, rfl⟩ := List.exists_cons_of_ne_nil hne
    exact parts_intercalate hopen hclose hparts

/-- A group that starts at some place ends at the first place up to which as many parentheses are closed as are opened
from there on, and is not closed exactly if there is no such place; its tokens are those between the two. A separator
other than a parenthesis divides a list whose parentheses match into parts that are matched too and have no separator
outside of their parentheses, and it joins them to the list again; no other parts do so. -/
theorem groups_and_parts_exact (ts : List Token) :
    (∀ start, ts[start]? = some "(" →
      (∀ place, matching? ts start = some place ↔ IsLeast (evenPlaces ts start) place) ∧
      (matching? ts start = none ↔ evenPlaces ts start = ∅) ∧
      closeGroup? 0 (ts.drop (start + 1)) =
        (matching? ts start).map fun place => ((ts.take place).drop (start + 1), ts.drop (place + 1))) ∧
    ∀ separator, separator ≠ "(" → separator ≠ ")" → Balanced (fun _ => True) ts → ∀ tss,
      parts separator ts = tss ↔
        tss ≠ [] ∧ (∀ part ∈ tss, Balanced (· ≠ separator) part) ∧ [separator].intercalate tss = ts := by
  refine ⟨fun start hstart => ?_, fun separator hopen hclose hbalanced tss => hbalanced.parts_eq_iff hopen hclose⟩
  have hfinds := finds_matching? hstart
  exact ⟨fun _ => hfinds.eq_some_iff, hfinds.eq_none_iff, closeGroup?_eq_slices hstart⟩

/-- A call with a group in its arguments, and the same tokens after a parenthesis that nothing closes. -/
theorem groups_and_parts_exact_nested :
    let call : List Token := ["f", "(", "a", ",", "(", "b", ")", ")"]
    let ts : List Token := call ++ [",", "d"]
    ts[1]? = some "(" ∧ IsLeast (evenPlaces ts 1) 7 ∧ evenPlaces ("(" :: ts) 0 = ∅ ∧
      Balanced (fun _ => True) ts ∧ parts "," ts = [call, ["d"]] := by
  intro call ts
  have hinner : Balanced (fun _ => True) ["a", ",", "(", "b", ")"] :=
    .token (by decide) (by decide) trivial (.token (by decide) (by decide) trivial
      (.group (.token (by decide) (by decide) trivial .nil) .nil))
  have hcall : Balanced (· ≠ ",") call := .token (by decide) (by decide) (by decide) (.group hinner .nil)
  have hlast : Balanced (· ≠ ",") ["d"] := .token (by decide) (by decide) (by decide) .nil
  have hts : Balanced (fun _ => True) ts := (hcall.mono fun _ _ => trivial).append
    (.token (by decide) (by decide) trivial (hlast.mono fun _ _ => trivial))
  refine ⟨rfl, (((groups_and_parts_exact ts).1 1 rfl).1 7).1 rfl,
    ((groups_and_parts_exact ("(" :: ts)).1 0 rfl).2.1.1 rfl, hts,
    ((groups_and_parts_exact ts).2 "," (by decide) (by decide) hts [call, ["d"]]).2 ⟨List.cons_ne_nil _ _, ?_, rfl⟩⟩
  exact List.forall_mem_cons.2 ⟨hcall, List.forall_mem_singleton.2 hlast⟩

end WordMachine.Cflat
