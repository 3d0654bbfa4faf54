/-
What does not see the case of the letters `a` to `z`. A function of one character that gives the same
for a small letter and its capital gives the same for a character and its lower case
(`apply_toLower`); from this, text by text: upper and lower case, numerals and decimal numbers.
-/
import WordMachine.Decimal.Basic
import WordMachine.Text.Blank
import WordMachine.Text.Case
import Mathlib.Tactic.IntervalCases

namespace WordMachine.Text

/-! ## Characters -/

/-- A character is its own lower case or one of the 26 capital letters. -/
theorem toLower_cases (c : Char) :
    c.toLower = c ∨ ∃ n < 26, c = Char.ofNat (65 + n) ∧ c.toLower = Char.ofNat (97 + n) := by
  by_cases h : c.val ≥ 'A'.val ∧ c.val ≤ 'Z'.val
  · right
    obtain ⟨hlo, hhi⟩ := h
    have hlo : 65 ≤ c.toNat := by simpa [UInt32.le_iff_toNat_le] using hlo
    have hhi : c.toNat ≤ 90 := by simpa [UInt32.le_iff_toNat_le] using hhi
    have hc : c = Char.ofNat (65 + (c.toNat - 65)) := by
      rw [show 65 + (c.toNat - 65) = c.toNat by omega, Char.ofNat_toNat]
    have hn : c.toNat - 65 < 26 := by omega
    generalize c.toNat - 65 = n at hc hn
    subst hc
    refine ⟨n, hn, rfl, ?_⟩
    interval_cases n <;> rfl
  -- all other characters are left as they are
  · left
    unfold Char.toLower
    exact dif_neg h

/-- What is the same for each small letter and its capital does not see the case of letters. -/
theorem apply_toLower {α : Type} {f : Char → α} (h : ∀ n < 26, f (Char.ofNat (97 + n)) = f (Char.ofNat (65 + n)))
    (c : Char) : f c.toLower = f c := by
  rcases toLower_cases c with hc | ⟨n, hn, hc, hlower⟩
  · rw [hc]
  · rw [hlower, h n hn, ← hc]

/-- A character that is no letter is the lower case of itself only. -/
theorem toLower_eq_iff {x : Char} (hx : x.isAlpha = false) (c : Char) : c.toLower = x ↔ c = x := by
  rcases toLower_cases c with hc | ⟨n, hn, hc, hlower⟩
  · rw [hc]
  · rw [hlower]
    constructor
    · rintro rfl
      exfalso
      interval_cases n <;> cases hx
    · rintro rfl
      exfalso
      subst hc
      interval_cases n <;> cases hx

@[simp] theorem toLower_toLower (c : Char) : c.toLower.toLower = c.toLower := apply_toLower (by decide) c

@[simp] theorem toUpper_toLower (c : Char) : c.toLower.toUpper = c.toUpper := apply_toLower (by decide) c

@[simp] theorem isDigit_toLower (c : Char) : c.toLower.isDigit = c.isDigit := apply_toLower (by decide) c

@[simp] theorem isBlank_toLower (c : Char) : isBlank c.toLower = isBlank c := apply_toLower (by decide) c

@[simp] theorem isCased_toLower (c : Char) : isCased c.toLower = isCased c := apply_toLower (by decide +kernel) c

@[simp] theorem isCaseIgnorable_toLower (c : Char) : isCaseIgnorable c.toLower = isCaseIgnorable c :=
  apply_toLower (by decide +kernel) c

@[simp] theorem upperChar_toLower (c : Char) : upperChar c.toLower = upperChar c := apply_toLower (by decide) c

@[simp] theorem lowerChar_toLower (c : Char) : lowerChar c.toLower = lowerChar c := apply_toLower (by decide) c

@[simp] theorem digitValue?_toLower (base : Nat) (c : Char) : digitValue? base c.toLower = digitValue? base c := by
  refine apply_toLower (fun n hn => ?_) c
  interval_cases n <;> rfl

/-! ## Texts -/

/-- Both texts are the same but for the case of letters. -/
def SameLetters (s t : String) : Prop := s.toLower = t.toLower

theorem toList_toLower (s : String) : s.toLower.toList = s.toList.map Char.toLower := String.toList_map

theorem sameLetters_iff {s t : String} :
    SameLetters s t ↔ s.toList.map Char.toLower = t.toList.map Char.toLower := by
  rw [SameLetters, ← String.toList_inj, toList_toLower, toList_toLower]

/-- What does not see the lower case of a text is the same for texts with the same letters. -/
theorem SameLetters.apply_eq {α : Type} {s t : String} (h : SameLetters s t) {f : List Char → α}
    (hf : ∀ cs : List Char, f (cs.map Char.toLower) = f cs) : f s.toList = f t.toList := by
  rw [← hf s.toList, sameLetters_iff.1 h, hf]

theorem upper_eq_of_sameLetters {s t : String} (h : SameLetters s t) : upper s = upper t := by
  refine congrArg String.ofList (h.apply_eq (f := fun cs => cs.flatMap upperChar) fun cs => ?_)
  simp [List.flatMap_map]

theorem startsCased_map_toLower (cs : List Char) : startsCased (cs.map Char.toLower) = startsCased cs := by
  have hignored : isCaseIgnorable ∘ Char.toLower = isCaseIgnorable := funext isCaseIgnorable_toLower
  unfold startsCased
  rw [List.dropWhile_map, hignored, List.head?_map]
  cases (cs.dropWhile isCaseIgnorable).head? <;> simp

theorem lowerAfter_map_toLower (before cs : List Char) :
    lowerAfter (before.map Char.toLower) (cs.map Char.toLower) = lowerAfter before cs := by
  induction cs generalizing before with
  | nil => rfl
  | cons c cs ih =>
    have hsigma : (c.toLower == 'Σ') = (c == 'Σ') := apply_toLower (f := fun c => c == 'Σ') (by decide) c
    have hrest := ih (c :: before)
    simp only [List.map_cons] at hrest ⊢
    simp only [lowerAfter, hsigma, startsCased_map_toLower, lowerChar_toLower, hrest]

theorem lower_eq_of_sameLetters {s t : String} (h : SameLetters s t) : lower s = lower t :=
  congrArg String.ofList (h.apply_eq (lowerAfter_map_toLower []))

/-! ## Numbers -/

theorem readDigitsFrom_map_toLower (base start : Nat) (cs : List Char) :
    readDigitsFrom base start (cs.map Char.toLower) = readDigitsFrom base start cs := by
  induction cs generalizing start with
  | nil => rfl
  | cons c cs ih =>
    simp only [List.map_cons, readDigitsFrom, digitValue?_toLower, ih]

@[simp] theorem readNumeral?_map_toLower (base : Nat) (cs : List Char) :
    readNumeral? base (cs.map Char.toLower) = readNumeral? base cs := by
  simp [readNumeral?, readDigitsFrom_map_toLower]

end WordMachine.Text

namespace WordMachine

namespace Decimal

theorem readSign_cons (c : Char) (cs : List Char) :
    readSign (c :: cs) = if c = '-' then (true, cs) else if c = '+' then (false, cs) else (false, c :: cs) := by
  unfold readSign
  split <;> simp_all

theorem readSign_map_toLower (cs : List Char) :
    readSign (cs.map Char.toLower) = ((readSign cs).1, (readSign cs).2.map Char.toLower) := by
  cases cs with
  | nil => rfl
  | cons c cs =>
    simp only [List.map_cons, readSign_cons, Text.toLower_eq_iff (x := '-') rfl, Text.toLower_eq_iff (x := '+') rfl]
    split
    · rfl
    · split <;> rfl

theorem readExponent?_map_toLower (cs : List Char) : readExponent? (cs.map Char.toLower) = readExponent? cs := by
  cases cs with
  | nil => rfl
  | cons mark cs =>
    have hmark : (mark.toLower == 'e' || mark.toLower == 'E') = (mark == 'e' || mark == 'E') :=
      Text.apply_toLower (f := fun c => c == 'e' || c == 'E') (by decide) mark
    simp only [List.map_cons, readExponent?, hmark, readSign_map_toLower, Text.readNumeral?_map_toLower]

theorem splitDigits_of_point {cs rest : List Char} (h : cs.dropWhile Char.isDigit = '.' :: rest) :
    splitDigits cs = (cs.takeWhile Char.isDigit, rest.takeWhile Char.isDigit, rest.dropWhile Char.isDigit) := by
  simp [splitDigits, h]

theorem splitDigits_of_ne {cs : List Char} (h : (cs.dropWhile Char.isDigit).head? ≠ some '.') :
    splitDigits cs = (cs.takeWhile Char.isDigit, [], cs.dropWhile Char.isDigit) := by
  unfold splitDigits
  dsimp only
  split
  · rename_i hpoint
    simp [hpoint] at h
  · rfl

theorem splitDigits_map_toLower (cs : List Char) :
    splitDigits (cs.map Char.toLower) =
      ((splitDigits cs).1.map Char.toLower, (splitDigits cs).2.1.map Char.toLower,
        (splitDigits cs).2.2.map Char.toLower) := by
  have hdigit : Char.isDigit ∘ Char.toLower = Char.isDigit := funext Text.isDigit_toLower
  have hdrop : (cs.map Char.toLower).dropWhile Char.isDigit = (cs.dropWhile Char.isDigit).map Char.toLower := by
    rw [List.dropWhile_map, hdigit]
  by_cases hpoint : (cs.dropWhile Char.isDigit).head? = some '.'
  · obtain ⟨rest, hrest⟩ := List.head?_eq_some_iff.1 hpoint
    rw [splitDigits_of_point hrest, splitDigits_of_point (hdrop.trans (by rw [hrest]; rfl))]
    simp only [List.takeWhile_map, List.dropWhile_map, hdigit]
  · have hpoint' : ((cs.map Char.toLower).dropWhile Char.isDigit).head? ≠ some '.' := by
      rw [hdrop, List.head?_map]
      intro h
      obtain ⟨c, hc, hlower⟩ := Option.map_eq_some_iff.1 h
      exact hpoint (by rw [hc, (Text.toLower_eq_iff rfl c).1 hlower])
    rw [splitDigits_of_ne hpoint, splitDigits_of_ne hpoint', hdrop, List.takeWhile_map, hdigit, List.map_nil]

@[simp] theorem read?_map_toLower (cs : List Char) : read? (cs.map Char.toLower) = read? cs := by
  simp only [read?, readSign_map_toLower, splitDigits_map_toLower, readExponent?_map_toLower, ← List.map_append,
    Text.readNumeral?_map_toLower, List.length_map]

end Decimal

theorem NumberText.read_map_toLower (cs : List Char) : NumberText.read (cs.map Char.toLower) = NumberText.read cs := by
  have hlower : Char.toLower ∘ Char.toLower = Char.toLower := funext Text.toLower_toLower
  simp only [NumberText.read, Decimal.readSign_map_toLower, List.map_map, hlower, List.isEmpty_map,
    Decimal.read?_map_toLower]

end WordMachine
