/-
The lower case of a text is its own lower case, and a character that is no letter stands in it only if it stands in the
text. Both come from one check of the case map: no image of a run of capital letters is covered by a run again.
-/
import WordMachine.Proofs.Text.LetterCase

namespace WordMachine.Text

/-! ## Runs -/

namespace CaseRun

/-- The image of the last code point of a run. -/
def imageLast (r : CaseRun) : Nat := r.image + (r.last - r.first)

/-- Do the images of a run lie beside another run, or between its code points? -/
def misses (r q : CaseRun) : Bool :=
  r.imageLast.blt q.first || q.last.blt r.image ||
    (q.step == 2 && (r.step == 2 || r.first == r.last) && r.image % 2 != q.first % 2)

theorem covers_eq_true_iff {r : CaseRun} {n : Nat} :
    r.covers n = true ↔ r.first ≤ n ∧ n ≤ r.last ∧ (n - r.first) % r.step = 0 := by
  simp [covers, and_assoc]

theorem not_covers_apply {r q : CaseRun} {n : Nat} (h : r.misses q = true) (hn : r.covers n = true) :
    q.covers (r.apply n) = false := by
  rw [← Bool.not_eq_true, covers_eq_true_iff]
  obtain ⟨hfirst, hlast, hstep⟩ := covers_eq_true_iff.1 hn
  simp only [misses, imageLast, Bool.or_eq_true, Bool.and_eq_true, Nat.blt_eq, beq_iff_eq, bne_iff_ne] at h
  rintro ⟨hfirst', hlast', hstep'⟩
  unfold apply at hfirst' hlast' hstep'
  rcases h with (h | h) | ⟨⟨htwo, h⟩, hparity⟩
  · omega
  · omega
  · -- the image has the other parity
    rw [htwo] at hstep'
    rcases h with h | h
    · rw [h] at hstep
      omega
    · omega

end CaseRun

/-- What the images of a run have to be: characters that no run covers, and small letters if they are below 128. -/
def soundRun (r : CaseRun) : Bool :=
  (r.imageLast < 0xD800 || (0xE000 ≤ r.image && r.imageLast < 0x110000)) &&
    (r.imageLast < 0x130 || 0x130 < r.image) &&
    (128 ≤ r.image || (r.first == r.last && r.image == 0x6B)) && lowerRuns.all r.misses

theorem sound_lowerRuns : lowerRuns.all soundRun = true := by decide +kernel

/-- The images of a run, by what is checked of it. -/
theorem image_of_mem_lowerRuns {r : CaseRun} {n : Nat} (hr : r ∈ lowerRuns) (hn : r.covers n = true) :
    (Char.ofNat (r.apply n)).toNat = r.apply n ∧ r.apply n ≠ 0x130 ∧ (128 ≤ r.apply n ∨ r.apply n = 0x6B) ∧
      lowerRuns.find? (·.covers (r.apply n)) = none := by
  have hsound := List.all_eq_true.1 sound_lowerRuns r hr
  obtain ⟨hfirst, hlast, -⟩ := CaseRun.covers_eq_true_iff.1 hn
  simp only [soundRun, Bool.and_eq_true, Bool.or_eq_true, decide_eq_true_eq, beq_iff_eq] at hsound
  obtain ⟨⟨⟨hvalid, hdotted⟩, hlarge⟩, hmisses⟩ := hsound
  have hrange : r.image ≤ r.apply n ∧ r.apply n ≤ r.imageLast := by
    unfold CaseRun.apply CaseRun.imageLast
    omega
  refine ⟨?_, by omega, ?_, ?_⟩
  · have hchar : (r.apply n).isValidChar := by
      unfold Nat.isValidChar
      omega
    rw [Char.ofNat, dif_pos hchar]
    rfl
  · rcases hlarge with h | ⟨h, himage⟩
    · exact .inl (h.trans hrange.1)
    · -- the kelvin sign, whose image is the letter `k`
      right
      unfold CaseRun.apply
      omega
  · refine List.find?_eq_none.2 fun q hq => ?_
    rw [CaseRun.not_covers_apply (List.all_eq_true.1 hmisses q hq) hn]
    exact Bool.false_ne_true

/-! ## Characters -/

theorem lowerChar_of_lt {c : Char} (h : c.toNat < 128) : lowerChar c = [c.toLower] := if_pos h

/-- A character from 128 on becomes itself, the image in its run, or an `i` with a dot. -/
theorem lowerChar_cases {c : Char} (h : ¬c.toNat < 128) :
    lowerChar c = [c] ∨ lowerChar c = ['i', Char.ofNat 0x307] ∨
      ∃ r ∈ lowerRuns, r.covers c.toNat = true ∧ lowerChar c = [Char.ofNat (r.apply c.toNat)] := by
  rw [lowerChar, if_neg h, caseImage, lowerExpansions, List.lookup_cons]
  by_cases hdotted : (c.toNat == 0x130) = true
  · rw [hdotted]
    exact .inr (.inl rfl)
  rw [Bool.not_eq_true] at hdotted
  rw [hdotted]
  dsimp only [List.lookup_nil]
  cases hfind : lowerRuns.find? (·.covers c.toNat) with
  | none => exact .inl (by simp)
  | some r =>
    have hcovers := List.find?_some hfind
    exact .inr (.inr ⟨r, List.mem_of_find?_eq_some hfind, hcovers, rfl⟩)

theorem lowerChar_eq_self {c : Char} (h : ¬c.toNat < 128) (hdotted : c.toNat ≠ 0x130)
    (hfind : lowerRuns.find? (·.covers c.toNat) = none) : lowerChar c = [c] := by
  have hlookup : lowerExpansions.lookup c.toNat = none := by
    rw [lowerExpansions, List.lookup_cons, beq_false_of_ne hdotted]
    rfl
  rw [lowerChar, if_neg h, caseImage, hlookup]
  dsimp only
  rw [hfind]
  simp

/-- What a character becomes stays as it is. -/
theorem lowerChar_of_mem {c d : Char} (hd : d ∈ lowerChar c) : lowerChar d = [d] := by
  by_cases h : c.toNat < 128
  · rw [lowerChar_of_lt h, List.mem_singleton] at hd
    subst hd
    rw [lowerChar_toLower, lowerChar_of_lt h]
  rcases lowerChar_cases h with hc | hc | ⟨r, hr, hcovers, hc⟩
  · rw [hc, List.mem_singleton] at hd
    rwa [hd]
  · rw [hc, List.mem_cons, List.mem_singleton] at hd
    rcases hd with rfl | rfl <;> decide +kernel
  · obtain ⟨hvalue, hdotted, hlarge, hfind⟩ := image_of_mem_lowerRuns hr hcovers
    rw [hc, List.mem_singleton] at hd
    subst hd
    rcases hlarge with hlarge | hsmall
    · exact lowerChar_eq_self (by omega) (by omega) (by rw [hvalue]; exact hfind)
    · rw [hsmall]
      decide

/-- What a character from 128 on becomes is no other character below 128 than a letter. -/
theorem isAlpha_of_mem_lowerChar {c d : Char} (h : ¬c.toNat < 128) (hd : d ∈ lowerChar c) (hsmall : d.toNat < 128) :
    d.isAlpha = true := by
  rcases lowerChar_cases h with hc | hc | ⟨r, hr, hcovers, hc⟩
  · rw [hc, List.mem_singleton] at hd
    exact absurd (hd ▸ hsmall) h
  · rw [hc, List.mem_cons, List.mem_singleton] at hd
    rcases hd with rfl | rfl
    · rfl
    · exact absurd hsmall (by decide)
  · obtain ⟨hvalue, -, hlarge, -⟩ := image_of_mem_lowerRuns hr hcovers
    rw [hc, List.mem_singleton] at hd
    subst hd
    rw [hvalue] at hsmall
    rw [hlarge.resolve_left (Nat.not_le.2 hsmall)]
    decide

theorem mem_lowerChar {c x : Char} (hsmall : x.toNat < 128) (halpha : x.isAlpha = false) (h : x ∈ lowerChar c) :
    x = c := by
  by_cases hc : c.toNat < 128
  · rw [lowerChar_of_lt hc, List.mem_singleton, eq_comm, toLower_eq_iff halpha] at h
    exact h.symm
  · rw [isAlpha_of_mem_lowerChar hc h hsmall] at halpha
    cases halpha

theorem lowerChar_ne_nil (c : Char) : lowerChar c ≠ [] := by
  by_cases h : c.toNat < 128
  · rw [lowerChar_of_lt h]
    exact List.cons_ne_nil _ _
  · rcases lowerChar_cases h with hc | hc | ⟨r, -, -, hc⟩ <;> rw [hc] <;> exact List.cons_ne_nil _ _

/-! ## Texts -/

/-- The image of a character in a text: that of a capital sigma depends on what stands around it. -/
theorem lowerAfter_cons (before after : List Char) (c : Char) :
    ∃ image, lowerAfter before (c :: after) = image ++ lowerAfter (c :: before) after ∧
      (image = lowerChar c ∨ c = 'Σ' ∧ image = ['ς']) := by
  rw [lowerAfter]
  refine ⟨_, rfl, ?_⟩
  by_cases hsigma : c = 'Σ'
  · subst hsigma
    by_cases hlast : (startsCased before && !startsCased after) = true
    · exact .inr ⟨rfl, by simp [hlast]⟩
    · refine .inl ?_
      rw [if_pos (beq_self_eq_true _), if_neg hlast]
      decide +kernel
  · exact .inl (by simp [hsigma])

theorem lowerChar_of_mem_lowerAfter {before cs : List Char} {d : Char} (h : d ∈ lowerAfter before cs) :
    lowerChar d = [d] := by
  induction cs generalizing before with
  | nil => cases h
  | cons c after ih =>
    obtain ⟨image, heq, himage⟩ := lowerAfter_cons before after c
    rw [heq, List.mem_append] at h
    rcases h with h | h
    · rcases himage with rfl | ⟨-, rfl⟩
      · exact lowerChar_of_mem h
      · rw [List.mem_singleton.1 h]
        decide +kernel
    · exact ih h

theorem lowerAfter_eq_self {before cs : List Char} (h : ∀ c ∈ cs, lowerChar c = [c]) : lowerAfter before cs = cs := by
  induction cs generalizing before with
  | nil => rfl
  | cons c after ih =>
    rw [List.forall_mem_cons] at h
    obtain ⟨image, heq, himage⟩ := lowerAfter_cons before after c
    have hlower : image = [c] := by
      rcases himage with rfl | ⟨rfl, -⟩
      · exact h.1
      · exact absurd h.1 (by decide +kernel)
    rw [heq, hlower, ih h.2]
    rfl

/-- The lower case of a text is its own lower case. -/
theorem lower_lower (s : String) : lower (lower s) = lower s := by
  rw [lower, lower, String.toList_ofList, lowerAfter_eq_self fun c => lowerChar_of_mem_lowerAfter]

theorem mem_of_mem_lowerAfter {before cs : List Char} {x : Char} (hsmall : x.toNat < 128) (halpha : x.isAlpha = false)
    (h : x ∈ lowerAfter before cs) : x ∈ cs := by
  induction cs generalizing before with
  | nil => cases h
  | cons c after ih =>
    obtain ⟨image, heq, himage⟩ := lowerAfter_cons before after c
    rw [heq, List.mem_append] at h
    rcases h with h | h
    · rcases himage with rfl | ⟨-, rfl⟩
      · rw [mem_lowerChar hsmall halpha h]
        exact List.mem_cons_self ..
      · rw [List.mem_singleton.1 h] at hsmall
        exact absurd hsmall (by decide)
    · exact List.mem_cons_of_mem _ (ih h)

/-- A character below 128 that is no letter stands in the lower case of a text only if it stands in the text. -/
theorem mem_of_mem_lower {s : String} {x : Char} (hsmall : x.toNat < 128) (halpha : x.isAlpha = false)
    (h : x ∈ (lower s).toList) : x ∈ s.toList := by
  rw [lower, String.toList_ofList] at h
  exact mem_of_mem_lowerAfter hsmall halpha h

theorem lower_ne_empty {s : String} (h : s.toList ≠ []) : (lower s).toList ≠ [] := by
  obtain ⟨c, cs, hs⟩ := List.exists_cons_of_ne_nil h
  obtain ⟨image, heq, himage⟩ := lowerAfter_cons [] cs c
  rw [lower, String.toList_ofList, hs, heq]
  intro he
  rcases himage with rfl | ⟨-, rfl⟩
  · exact lowerChar_ne_nil c (List.append_eq_nil_iff.1 he).1
  · exact List.cons_ne_nil _ _ (List.append_eq_nil_iff.1 he).1

end WordMachine.Text
