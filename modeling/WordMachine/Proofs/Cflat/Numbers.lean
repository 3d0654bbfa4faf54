/-
Texts of numbers: the grammars of integers in four bases and of real numbers. An integer is read in the base that
its text starts with; its value has to fit in 64 bits, and its low 32 bits are kept.
-/
import WordMachine.Cflat.Literal
import WordMachine.Proofs.Text.Decimal

namespace WordMachine.Cflat

open Text (digitValue numeralValue)

/-! ## Digits -/

/-- The characters of the class are the digits of the base and the underscore. -/
theorem digitClass_iff {isMember : Char → Bool} {base : Nat} (hbase : base ≤ 16)
    (hmember : ∀ c, isMember c = true → c.toNat < 128)
    (hall : ∀ n < 128, isMember (Char.ofNat n) = decide (Char.ofNat n = '_' ∨ digitValue (Char.ofNat n) < base))
    (c : Char) : isMember c = true ↔ c = '_' ∨ digitValue c < base := by
  by_cases hc : c.toNat < 128
  · have h := hall c.toNat hc
    rw [Char.ofNat_toNat] at h
    rw [h, decide_eq_true_iff]
  · refine ⟨fun h => absurd (hmember c h) hc, ?_⟩
    rintro (rfl | h)
    · exact absurd (by decide) hc
    · exact absurd (Text.toNat_lt_of_digitValue (by omega)) hc

theorem toNat_lt_of_le {c d : Char} (h : c ≤ d) (hd : d.toNat < 128) : c.toNat < 128 :=
  lt_of_le_of_lt (UInt32.le_iff_toNat_le.1 h) hd

theorem toNat_lt_of_isDigit {c : Char} (h : c.isDigit = true) : c.toNat < 128 :=
  toNat_lt_of_le (d := '9') (of_decide_eq_true (Bool.and_eq_true_iff.1 h).2) (by decide)

theorem isHexDigit_iff (c : Char) : isHexDigit c = true ↔ c = '_' ∨ digitValue c < 16 := by
  refine digitClass_iff (by decide) (fun c h => ?_) (by decide +kernel) c
  simp only [isHexDigit, Bool.or_eq_true, Bool.and_eq_true, decide_eq_true_eq, beq_iff_eq] at h
  rcases h with ((h | h) | h) | rfl
  · exact toNat_lt_of_isDigit h
  · exact toNat_lt_of_le h.2 (by decide)
  · exact toNat_lt_of_le h.2 (by decide)
  · decide

theorem isDecimalDigit_iff (c : Char) : isDecimalDigit c = true ↔ c = '_' ∨ digitValue c < 10 := by
  refine digitClass_iff (by decide) (fun c h => ?_) (by decide +kernel) c
  simp only [isDecimalDigit, Bool.or_eq_true, beq_iff_eq] at h
  rcases h with h | rfl
  · exact toNat_lt_of_isDigit h
  · decide

theorem isOctalDigit_iff (c : Char) : isOctalDigit c = true ↔ c = '_' ∨ digitValue c < 8 := by
  refine digitClass_iff (by decide) (fun c h => ?_) (by decide +kernel) c
  simp only [isOctalDigit, Bool.or_eq_true, Bool.and_eq_true, decide_eq_true_eq, beq_iff_eq] at h
  rcases h with h | rfl
  · exact toNat_lt_of_le h.2 (by decide)
  · decide

theorem isBinaryDigit_iff (c : Char) : isBinaryDigit c = true ↔ c = '_' ∨ digitValue c < 2 := by
  refine digitClass_iff (by decide) (fun c h => ?_) (by decide +kernel) c
  simp only [isBinaryDigit, Bool.or_eq_true, beq_iff_eq] at h
  rcases h with (rfl | rfl) | rfl <;> decide

/-! ## Texts of integers -/

/-- One or more digits of a base, with underscores among them. -/
structure IsDigits (base : Nat) (cs : List Char) : Prop where
  ne_nil : cs ≠ []
  isDigit : ∀ c ∈ cs, c = '_' ∨ digitValue c < base

instance (base : Nat) (cs : List Char) : Decidable (IsDigits base cs) :=
  decidable_of_iff (cs ≠ [] ∧ (cs.all fun c => decide (c = '_' ∨ digitValue c < base)) = true)
    ⟨fun h => ⟨h.1, fun c hc => of_decide_eq_true (List.all_eq_true.1 h.2 c hc)⟩,
      fun h => ⟨h.ne_nil, List.all_eq_true.2 fun c hc => decide_eq_true (h.isDigit c hc)⟩⟩

/-- The text of an integer: `0x` and hexadecimal digits, `0` and octal ones, `0b` and binary ones, or decimal digits
with a sign before them and an `L` after them, both of which may be missing. -/
inductive IsInteger : List Char → Prop
  | hexadecimal {mark : Char} {ds : List Char} (hmark : mark = 'x' ∨ mark = 'X') (h : IsDigits 16 ds) :
    IsInteger ('0' :: mark :: ds)
  | octal {ds : List Char} (h : IsDigits 8 ds) : IsInteger ('0' :: ds)
  | binary {mark : Char} {ds : List Char} (hmark : mark = 'b' ∨ mark = 'B') (h : IsDigits 2 ds) :
    IsInteger ('0' :: mark :: ds)
  | decimal {sign ds suffix : List Char} (hsign : Decimal.IsSign sign) (h : IsDigits 10 ds)
    (hsuffix : suffix ∈ [[], ['L'], ['l']]) : IsInteger (sign ++ (ds ++ suffix))

namespace IntegerText

/-- The base of an integer, by what its text starts with. -/
def base (cs : List Char) : Nat :=
  if cs.take 2 = ['0', 'x'] ∨ cs.take 2 = ['0', 'X'] then 16
  else if cs.head? = some '0' ∧ IsDigits 8 cs.tail then 8
  else if cs.take 2 = ['0', 'b'] ∨ cs.take 2 = ['0', 'B'] then 2
  else 10

/-- The number of characters that tell the base. -/
def markLength (cs : List Char) : Nat := if base cs = 10 then 0 else if base cs = 8 then 1 else 2

/-- The digits of an integer, without the mark of its base, its sign, its underscores and its `L`. -/
def digits (cs : List Char) : List Char :=
  (cs.drop (markLength cs)).filter fun c => !(['+', '-', '_', 'L', 'l'].contains c)

def magnitude (cs : List Char) : Nat := numeralValue (base cs) (digits cs)

def value (cs : List Char) : Int := if cs.head? = some '-' then -magnitude cs else magnitude cs

end IntegerText

theorem allOf_iff {isMember : Char → Bool} {base : Nat} (h : ∀ c, isMember c = true ↔ c = '_' ∨ digitValue c < base)
    {cs : List Char} : allOf isMember cs = true ↔ IsDigits base cs := by
  rw [allOf, Bool.and_eq_true, List.all_eq_true]
  constructor
  · rintro ⟨hne, hall⟩
    exact ⟨by simpa using hne, fun c hc => (h c).1 (hall c hc)⟩
  · rintro ⟨hne, hall⟩
    exact ⟨by simpa using hne, fun c hc => (h c).2 (hall c hc)⟩

namespace IsDigits

variable {base : Nat} {cs ds : List Char}

/-- A character that is no digit does not stand among them. -/
theorem not_mem {c : Char} (h : IsDigits base ds) (hc : c ≠ '_') (hvalue : base ≤ digitValue c) : c ∉ ds := by
  intro hmem
  rcases h.isDigit c hmem with rfl | hlt
  · exact hc rfl
  · omega

theorem ne_of_cons {c : Char} (h : IsDigits base (c :: ds)) {x : Char} (hx : x ≠ '_')
    (hvalue : base ≤ digitValue x) : c ≠ x := by
  rintro rfl
  exact h.not_mem hx hvalue (List.mem_cons_self ..)

theorem filter_eq (h : IsDigits base ds) (hbase : base ≤ 16) :
    ds.filter (fun c => !(['+', '-', '_', 'L', 'l'].contains c)) = ds.filter (· ≠ '_') := by
  have hplus := h.not_mem (c := '+') (by decide) (hbase.trans (by decide))
  have hminus := h.not_mem (c := '-') (by decide) (hbase.trans (by decide))
  have hlong := h.not_mem (c := 'L') (by decide) (hbase.trans (by decide))
  have hsmall := h.not_mem (c := 'l') (by decide) (hbase.trans (by decide))
  refine List.filter_congr fun c hc => ?_
  have hne {x : Char} (hx : x ∉ ds) : c ≠ x := fun hcx => hx (hcx ▸ hc)
  simp [hne hplus, hne hminus, hne hlong, hne hsmall]

end IsDigits

/-! ## Endings -/

section

variable {x y : Char} {cs suffix : List Char}

/-- A character at the end is dropped, if the text before it has none of them. -/
theorem dropEnding_append (hsuffix : suffix ∈ [[], [x], [y]]) (hx : x ∉ cs) (hy : y ∉ cs) :
    (if (cs ++ suffix).getLast? = some x ∨ (cs ++ suffix).getLast? = some y then (cs ++ suffix).dropLast
      else cs ++ suffix) = cs := by
  simp only [List.mem_cons, List.not_mem_nil, or_false] at hsuffix
  rcases hsuffix with rfl | rfl | rfl
  · rw [List.append_nil, if_neg]
    rintro (hlast | hlast)
    · exact hx (List.mem_of_getLast? hlast)
    · exact hy (List.mem_of_getLast? hlast)
  · rw [List.getLast?_concat, if_pos (.inl rfl), List.dropLast_concat]
  · rw [List.getLast?_concat, if_pos (.inr rfl), List.dropLast_concat]

/-- What is dropped at the end is one of the characters or nothing. -/
theorem exists_ending (x y : Char) (cs : List Char) : ∃ suffix ∈ [[], [x], [y]],
    cs = (if cs.getLast? = some x ∨ cs.getLast? = some y then cs.dropLast else cs) ++ suffix := by
  split
  · rename_i hlast
    rcases hlast with hlast | hlast
    · obtain ⟨front, rfl⟩ := List.getLast?_eq_some_iff.1 hlast
      exact ⟨[x], by simp, by rw [List.dropLast_concat]⟩
    · obtain ⟨front, rfl⟩ := List.getLast?_eq_some_iff.1 hlast
      exact ⟨[y], by simp, by rw [List.dropLast_concat]⟩
  · exact ⟨[], by simp, (List.append_nil cs).symm⟩

theorem dropLong_append (hsuffix : suffix ∈ [[], ['L'], ['l']]) (hlong : 'L' ∉ cs) (hsmall : 'l' ∉ cs) :
    dropLong (cs ++ suffix) = cs :=
  dropEnding_append hsuffix hlong hsmall

theorem dropFloat_append (hcs : ∀ c ∈ cs, Decimal.isNumberChar c = true) (hsuffix : suffix ∈ [[], ['f'], ['F']]) :
    dropFloat (cs ++ suffix) = cs :=
  dropEnding_append hsuffix (fun h => absurd (hcs _ h) (by decide)) (fun h => absurd (hcs _ h) (by decide))

end

/-! ## Reading -/

namespace IntegerText

/-- The text is read as an integer with these digits. -/
structure ReadAs (cs ds : List Char) : Prop where
  read : NumberForm.read? cs = some (.integer (base cs) (cs.head? == some '-') ds)
  base_le : base cs ≤ 16
  isDigits : IsDigits (base cs) ds
  digits_eq : digits cs = ds.filter (· ≠ '_')

/-- A text with a mark for its base. -/
theorem readAs_of_withBase? {b : Nat} {cs ds : List Char} (hread : NumberForm.withBase? cs = some (.integer b false ds))
    (hhead : cs.head? = some '0') (hbase : base cs = b) (hle : b ≤ 16) (hdigits : IsDigits b ds)
    (hdrop : cs.drop (markLength cs) = ds) : ReadAs cs ds := by
  subst hbase
  refine ⟨?_, hle, hdigits, ?_⟩
  · rw [NumberForm.read?, hread, hhead]
    rfl
  · rw [digits, hdrop, hdigits.filter_eq hle]

theorem readAs_hexadecimal {mark : Char} {ds : List Char} (hmark : mark = 'x' ∨ mark = 'X') (h : IsDigits 16 ds) :
    ReadAs ('0' :: mark :: ds) ds := by
  have hbase : base ('0' :: mark :: ds) = 16 := by
    rcases hmark with rfl | rfl <;> simp [base]
  refine readAs_of_withBase? ?_ rfl hbase (by decide) h (by simp [markLength, hbase])
  have hx : (mark == 'x' || mark == 'X') = true := by rcases hmark with rfl | rfl <;> rfl
  rw [NumberForm.withBase?, if_pos (Bool.and_eq_true_iff.2 ⟨hx, (allOf_iff isHexDigit_iff).2 h⟩)]

theorem readAs_octal {ds : List Char} (h : IsDigits 8 ds) : ReadAs ('0' :: ds) ds := by
  obtain ⟨c, cs, rfl⟩ := List.exists_cons_of_ne_nil h.ne_nil
  have hx : c ≠ 'x' := h.ne_of_cons (by decide) (by decide)
  have hX : c ≠ 'X' := h.ne_of_cons (by decide) (by decide)
  have hbase : base ('0' :: c :: cs) = 8 := by simp [base, hx, hX, h]
  refine readAs_of_withBase? ?_ rfl hbase (by decide) h (by simp [markLength, hbase])
  rw [NumberForm.withBase?, if_neg (by simp [hx, hX]), if_pos ((allOf_iff isOctalDigit_iff).2 h)]

theorem readAs_binary {mark : Char} {ds : List Char} (hmark : mark = 'b' ∨ mark = 'B') (h : IsDigits 2 ds) :
    ReadAs ('0' :: mark :: ds) ds := by
  have hoctal : ¬IsDigits 8 (mark :: ds) := fun ho => by
    rcases hmark with rfl | rfl
    · exact ho.not_mem (by decide) (by decide) (List.mem_cons_self ..)
    · exact ho.not_mem (by decide) (by decide) (List.mem_cons_self ..)
  have hbase : base ('0' :: mark :: ds) = 2 := by
    rcases hmark with rfl | rfl <;> simp [base, hoctal]
  refine readAs_of_withBase? ?_ rfl hbase (by decide) h (by simp [markLength, hbase])
  have hx : (mark == 'x' || mark == 'X') = false := by rcases hmark with rfl | rfl <;> rfl
  have hb : (mark == 'b' || mark == 'B') = true := by rcases hmark with rfl | rfl <;> rfl
  rw [NumberForm.withBase?, if_neg (by simp [hx]), if_neg fun ho => hoctal ((allOf_iff isOctalDigit_iff).1 ho),
    if_pos (Bool.and_eq_true_iff.2 ⟨hb, (allOf_iff isBinaryDigit_iff).2 h⟩)]

theorem dropSign_eq (cs : List Char) : dropSign cs = (Decimal.readSign cs).2 := by
  cases cs with
  | nil => rfl
  | cons c cs =>
    rw [Decimal.readSign_cons]
    split
    · rename_i hc
      rw [hc]
      rfl
    split
    · rename_i hc
      rw [hc]
      rfl
    · rename_i hminus hplus
      unfold dropSign
      split
      · rename_i heq
        exact absurd (List.cons.inj heq).1 hminus
      · rename_i heq
        exact absurd (List.cons.inj heq).1 hplus
      · rfl

section

variable {cs : List Char} (hx : 'x' ∉ cs ∧ 'X' ∉ cs) (hb : 'b' ∉ cs ∧ 'B' ∉ cs)
  (hoctal : ¬(cs.head? = some '0' ∧ IsDigits 8 cs.tail))

include hx hb hoctal

theorem base_eq_ten : base cs = 10 := by
  have hmark {m : Char} (hm : m ∉ cs) : cs.take 2 ≠ ['0', m] := fun htake =>
    hm (List.mem_of_mem_take (i := 2) (by simp [htake]))
  simp only [base, hoctal, hmark hx.1, hmark hx.2, hmark hb.1, hmark hb.2, or_self, if_false]

theorem withBase?_eq_none : NumberForm.withBase? cs = none := by
  unfold NumberForm.withBase?
  split
  · rename_i mark rest
    have hx : (mark == 'x' || mark == 'X') = false := by
      simp only [List.mem_cons, not_or] at hx
      simp [Ne.symm hx.1.2.1, Ne.symm hx.2.2.1]
    have hb : (mark == 'b' || mark == 'B') = false := by
      simp only [List.mem_cons, not_or] at hb
      simp [Ne.symm hb.1.2.1, Ne.symm hb.2.2.1]
    have hoctal : allOf isOctalDigit (mark :: rest) ≠ true := fun h => hoctal ⟨rfl, (allOf_iff isOctalDigit_iff).1 h⟩
    rw [hx, hb, if_neg (by simp), if_neg hoctal, if_neg (by simp)]
  · rfl

end

section

variable {sign ds suffix : List Char} (hsign : Decimal.IsSign sign) (h : IsDigits 10 ds)
  (hsuffix : suffix ∈ [[], ['L'], ['l']])

include hsign h hsuffix

theorem decimal?_eq : NumberForm.decimal? (sign ++ (ds ++ suffix)) =
    some (.integer 10 ((sign ++ (ds ++ suffix)).head? == some '-') ds) := by
  have hsigns : ∀ c ∈ (ds ++ suffix).head?, c ≠ '-' ∧ c ≠ '+' := by
    obtain ⟨d, ds, rfl⟩ := List.exists_cons_of_ne_nil h.ne_nil
    rintro c ⟨⟩
    exact ⟨h.ne_of_cons (by decide) (by decide), h.ne_of_cons (by decide) (by decide)⟩
  have hdigits : dropLong (dropSign (sign ++ (ds ++ suffix))) = ds := by
    rw [dropSign_eq, Decimal.readSign_append hsign hsigns,
      dropLong_append hsuffix (h.not_mem (by decide) (by decide)) (h.not_mem (by decide) (by decide))]
  unfold NumberForm.decimal?
  dsimp only
  rw [hdigits, if_pos ((allOf_iff isDecimalDigit_iff).2 h)]

/-- Only decimal digits, a sign and an `L` stand in a decimal integer. -/
theorem not_mem_decimal {c : Char} (hc : c ∉ ['+', '-', '_', 'L', 'l']) (hvalue : 10 ≤ digitValue c) :
    c ∉ sign ++ (ds ++ suffix) := by
  simp only [List.mem_cons, List.not_mem_nil, or_false, not_or] at hc
  simp only [Decimal.IsSign, List.mem_cons, List.not_mem_nil, or_false] at hsign hsuffix
  rw [List.mem_append, List.mem_append, not_or, not_or]
  refine ⟨?_, h.not_mem hc.2.2.1 hvalue, ?_⟩
  · rcases hsign with rfl | rfl | rfl <;> simp [hc]
  · rcases hsuffix with rfl | rfl | rfl <;> simp [hc]

theorem digits_decimal : (sign ++ (ds ++ suffix)).filter (fun c => !(['+', '-', '_', 'L', 'l'].contains c)) =
    ds.filter (· ≠ '_') := by
  have hsign : sign.filter (fun c => !(['+', '-', '_', 'L', 'l'].contains c)) = [] := by
    simp only [Decimal.IsSign, List.mem_cons, List.not_mem_nil, or_false] at hsign
    rcases hsign with rfl | rfl | rfl <;> rfl
  have hsuffix : suffix.filter (fun c => !(['+', '-', '_', 'L', 'l'].contains c)) = [] := by
    simp only [List.mem_cons, List.not_mem_nil, or_false] at hsuffix
    rcases hsuffix with rfl | rfl | rfl <;> rfl
  rw [List.filter_append, List.filter_append, hsign, hsuffix, h.filter_eq (by decide), List.nil_append,
    List.append_nil]

/-- A decimal integer is read as such, unless it is a zero and octal digits. -/
theorem exists_readAs_decimal : ∃ es, ReadAs (sign ++ (ds ++ suffix)) es := by
  have hread := decimal?_eq hsign h hsuffix
  have hmarks {m : Char} := not_mem_decimal hsign h hsuffix (c := m)
  have hfilter := digits_decimal hsign h hsuffix
  generalize sign ++ (ds ++ suffix) = cs at *
  by_cases hoctal : cs.head? = some '0' ∧ IsDigits 8 cs.tail
  · obtain ⟨hzero, hoctal⟩ := hoctal
    obtain ⟨cs, rfl⟩ := List.head?_eq_some_iff.1 hzero
    exact ⟨cs, readAs_octal hoctal⟩
  · have hx : 'x' ∉ cs ∧ 'X' ∉ cs := ⟨hmarks (by decide) (by decide), hmarks (by decide) (by decide)⟩
    have hb : 'b' ∉ cs ∧ 'B' ∉ cs := ⟨hmarks (by decide) (by decide), hmarks (by decide) (by decide)⟩
    have hbase := base_eq_ten hx hb hoctal
    refine ⟨ds, ?_, by rw [hbase]; decide, by rwa [hbase], ?_⟩
    · rw [NumberForm.read?, withBase?_eq_none hx hb hoctal, hread, hbase]
      rfl
    · rw [digits, markLength, if_pos hbase, List.drop_zero, hfilter]

end

end IntegerText

open IntegerText in
/-- Every text of an integer is read as one. -/
theorem IsInteger.exists_readAs {cs : List Char} (h : IsInteger cs) : ∃ ds, ReadAs cs ds := by
  cases h with
  | hexadecimal hmark h => exact ⟨_, readAs_hexadecimal hmark h⟩
  | octal h => exact ⟨_, readAs_octal h⟩
  | binary hmark h => exact ⟨_, readAs_binary hmark h⟩
  | decimal hsign h hsuffix => exact exists_readAs_decimal hsign h hsuffix

/-- Only digits, underscores, a sign, an `x` and an `L` stand in an integer. -/
theorem IsInteger.not_mem {cs : List Char} (h : IsInteger cs) {c : Char}
    (hc : c ∉ ['+', '-', '_', 'L', 'l', 'x', 'X']) (hvalue : 16 ≤ digitValue c) : c ∉ cs := by
  simp only [List.mem_cons, List.not_mem_nil, or_false, not_or] at hc
  obtain ⟨hplus, hminus, hunderscore, hlong, hsmall, hx, hX⟩ := hc
  have hne {d : Char} (hd : digitValue d < 16) : c ≠ d := by
    rintro rfl
    omega
  have hzero : c ≠ '0' := hne (by decide)
  cases h with
  | hexadecimal hmark h =>
    rcases hmark with rfl | rfl <;> simp [hzero, hx, hX, h.not_mem hunderscore (by omega)]
  | octal h => simp [hzero, h.not_mem hunderscore (by omega)]
  | binary hmark h =>
    have hb : c ≠ 'b' := hne (by decide)
    have hB : c ≠ 'B' := hne (by decide)
    rcases hmark with rfl | rfl <;> simp [hzero, hb, hB, h.not_mem hunderscore (by omega)]
  | decimal hsign h hsuffix =>
    exact IntegerText.not_mem_decimal hsign h hsuffix (by simp [*]) (by omega)

/-- An integer is neither a string nor the name of a truth value. -/
theorem IsInteger.read_eq {t : Token} (h : IsInteger t.toList) {form : NumberForm}
    (hread : NumberForm.read? t.toList = some form) :
    Leaf.read t = (form.literal t).map .literal := by
  have hstring : stringBody? t = none := by
    unfold stringBody?
    split
    · rename_i heq
      exact absurd (by simp [heq]) (h.not_mem (c := '"') (by decide) (by decide))
    · rfl
  have htrue : t ≠ "true" := by
    rintro rfl
    exact h.not_mem (c := 't') (by decide) (by decide) (by decide)
  have hfalse : t ≠ "false" := by
    rintro rfl
    exact h.not_mem (c := 's') (by decide) (by decide) (by decide)
  rw [Leaf.read, hstring, if_neg htrue, if_neg hfalse, hread]
  dsimp only
  cases form.literal t <;> rfl

theorem toInt32_low (n : Nat) (negative : Bool) :
    (if negative then -n.toUInt32 else n.toUInt32).toInt32 = Int32.ofInt (if negative then -(n : Int) else n) := by
  have hlow : n.toUInt32.toInt32 = Int32.ofInt n := by
    rw [Nat.toUInt32_eq, UInt32.toInt32_ofNat', Int32.ofInt_eq_ofNat]
  cases negative with
  | false => exact hlow
  | true =>
    show (-n.toUInt32).toInt32 = Int32.ofInt (-n)
    rw [UInt32.toInt32_neg, hlow, Int32.ofInt_neg]

theorem integerValue?_eq {base n : Nat} {ds : List Char} (negative : Bool) (hbase : base ≤ 16) (h : IsDigits base ds)
    (hne : ds.filter (· ≠ '_') ≠ []) (hn : numeralValue base (ds.filter (· ≠ '_')) = n) :
    NumberForm.integerValue? base negative ds =
      if n < 2 ^ 64 then some (Int32.ofInt (if negative then -(n : Int) else n)) else none := by
  have hdigits : ∀ c ∈ ds.filter (· ≠ '_'), digitValue c < base := by
    intro c hc
    obtain ⟨hmem, hne⟩ := List.mem_filter.1 hc
    exact (h.isDigit c hmem).resolve_left (of_decide_eq_true hne)
  have hread := Text.readNumeral?_eq hbase hne hdigits
  rw [hn] at hread
  simp only [NumberForm.integerValue?, hread]
  rw [toInt32_low]
  rfl

open IntegerText in
/-- An integer is read in the base that its text starts with. Its digits overflow from 2⁶⁴ on; a smaller number
is reduced to 32 bits, with its sign. -/
theorem read_integer {t : Token} (h : IsInteger t.toList) (hdigits : digits t.toList ≠ []) :
    (Leaf.read t = .error (.overflow t) ↔ 2 ^ 64 ≤ magnitude t.toList) ∧
      (magnitude t.toList < 2 ^ 64 → ∃ n : Int32, Leaf.read t = .ok (.literal (.int n)) ∧
        n.toInt = Int.bmod (value t.toList) (2 ^ 32)) := by
  obtain ⟨ds, hread, hbase, hds, heq⟩ := h.exists_readAs
  rw [heq] at hdigits
  have hvalue : (if (t.toList.head? == some '-') = true then -(magnitude t.toList : Int) else magnitude t.toList) =
      value t.toList := by
    simp only [value, beq_iff_eq]
  rw [h.read_eq hread, NumberForm.literal,
    integerValue?_eq _ hbase hds hdigits (by rw [← heq]; rfl : _ = magnitude t.toList), hvalue]
  by_cases hlt : magnitude t.toList < 2 ^ 64
  · rw [if_pos hlt]
    refine ⟨⟨nofun, fun hle => absurd hlt (by omega)⟩, fun _ => ⟨_, rfl, ?_⟩⟩
    rw [Int32.toInt_ofInt]
    rfl
  · rw [if_neg hlt]
    exact ⟨⟨fun _ => by omega, fun _ => rfl⟩, fun h => absurd h hlt⟩

/-- A number below the range of 32 bits, and the first one that does not fit in 64. -/
theorem read_integer_bounds :
    Leaf.read "-2_147_483_649L" = .ok (.literal (.int 2147483647)) ∧
      Leaf.read "0x1_0000_0000_0000_0000" = .error (.overflow "0x1_0000_0000_0000_0000") := by
  have hdecimal : IsInteger "-2_147_483_649L".toList :=
    .decimal (by simp [Decimal.IsSign] : Decimal.IsSign ['-']) (by decide : IsDigits 10 "2_147_483_649".toList)
      (by decide : ['L'] ∈ _)
  have hhex : IsInteger "0x1_0000_0000_0000_0000".toList :=
    .hexadecimal (.inl rfl) (by decide : IsDigits 16 "1_0000_0000_0000_0000".toList)
  obtain ⟨n, hread, hn⟩ := (read_integer hdecimal (by decide)).2 (by decide +kernel)
  refine ⟨?_, (read_integer hhex (by decide)).1.2 (by decide +kernel)⟩
  rw [hread, Int32.toInt_inj.1 (hn.trans (by decide +kernel : _ = (2147483647 : Int32).toInt))]

/-! ## Real numbers -/

/-- The text of a number, which may have a sign, a point, an exponent and a mark `f`. -/
def IsReal (cs : List Char) : Prop :=
  ∃ sign mantissa exponent k suffix, Decimal.IsSign sign ∧ Decimal.IsMantissa mantissa ∧
    Decimal.Exponent exponent k ∧ suffix ∈ [[], ['f'], ['F']] ∧ cs = sign ++ (mantissa ++ exponent) ++ suffix

theorem matches_realPattern {cs : List Char} : realPattern.Matches cs ↔ IsReal cs := by
  constructor
  · rintro ⟨sign, _, rfl, hsign, mantissa, _, rfl, hmantissa, exponent, suffix, rfl, hexponent, hsuffix⟩
    obtain ⟨k, hk⟩ := Decimal.matches_exponentPattern.1 hexponent
    exact ⟨sign, mantissa, exponent, k, suffix, Decimal.matches_signPattern.1 hsign,
      Decimal.matches_mantissaPattern.1 hmantissa, hk, Decimal.matches_suffixPattern.1 hsuffix, by simp⟩
  · rintro ⟨sign, mantissa, exponent, k, suffix, hsign, hmantissa, hk, hsuffix, rfl⟩
    exact ⟨sign, mantissa ++ (exponent ++ suffix), by simp, Decimal.matches_signPattern.2 hsign, mantissa, _, rfl,
      Decimal.matches_mantissaPattern.2 hmantissa, exponent, suffix, rfl, Decimal.matches_exponentPattern.2 ⟨k, hk⟩,
      Decimal.matches_suffixPattern.2 hsuffix⟩

theorem real?_eq_some_iff {cs : List Char} {form : NumberForm} :
    NumberForm.real? cs = some form ↔ IsReal cs ∧ .real (dropFloat cs) = form := by
  rw [NumberForm.real?, Option.ite_none_right_eq_some, Text.Pattern.covers_iff, matches_realPattern, Option.some.injEq]

/-- Every real number has a value. -/
theorem IsReal.exists_read {cs : List Char} (h : IsReal cs) :
    ∃ value, NumberText.read (dropFloat cs) = .ok (.finite value) := by
  obtain ⟨sign, mantissa, exponent, k, suffix, hsign, hmantissa, hexponent, hsuffix, rfl⟩ := h
  obtain ⟨value, hvalue⟩ := Decimal.exists_read? hsign hmantissa hexponent
  refine ⟨value, ?_⟩
  rw [dropFloat_append (Decimal.isNumberChar_of_read? hvalue) hsuffix]
  exact NumberText.read_of_read? hvalue

/-! ## What is read as a number -/

section

variable {cs : List Char} {form : NumberForm}

theorem isInteger_of_withBase? (h : NumberForm.withBase? cs = some form) :
    IsInteger cs ∧ ∃ base digits, .integer base false digits = form := by
  unfold NumberForm.withBase? at h
  split at h
  · split at h
    · rename_i hhex
      obtain ⟨hmark, hdigits⟩ := Bool.and_eq_true_iff.1 hhex
      exact ⟨.hexadecimal (by simpa using hmark) ((allOf_iff isHexDigit_iff).1 hdigits), 16, _, Option.some.inj h⟩
    split at h
    · rename_i hoctal
      exact ⟨.octal ((allOf_iff isOctalDigit_iff).1 hoctal), 8, _, Option.some.inj h⟩
    split at h
    · rename_i hbinary
      obtain ⟨hmark, hdigits⟩ := Bool.and_eq_true_iff.1 hbinary
      exact ⟨.binary (by simpa using hmark) ((allOf_iff isBinaryDigit_iff).1 hdigits), 2, _, Option.some.inj h⟩
    · cases h
  · cases h

theorem isInteger_of_decimal? (h : NumberForm.decimal? cs = some form) :
    IsInteger cs ∧ ∃ negative digits, .integer 10 negative digits = form := by
  unfold NumberForm.decimal? at h
  dsimp only at h
  split at h
  · rename_i hdigits
    obtain ⟨sign, hsign, hcs⟩ := Decimal.exists_sign cs
    obtain ⟨suffix, hsuffix, hlong⟩ := exists_ending 'L' 'l' (dropSign cs)
    refine ⟨?_, _, _, Option.some.inj h⟩
    rw [hcs, ← IntegerText.dropSign_eq, hlong]
    exact .decimal hsign ((allOf_iff isDecimalDigit_iff).1 hdigits) hsuffix
  · cases h

/-- Only integers and real numbers are read as numbers. -/
theorem read?_cases (h : NumberForm.read? cs = some form) :
    (IsInteger cs ∧ ∃ base negative digits, .integer base negative digits = form) ∨
      (IsReal cs ∧ .real (dropFloat cs) = form) := by
  rw [NumberForm.read?] at h
  cases hbase : NumberForm.withBase? cs with
  | some form' =>
    rw [hbase] at h
    cases h
    obtain ⟨hinteger, base, digits, hform⟩ := isInteger_of_withBase? hbase
    exact .inl ⟨hinteger, base, false, digits, hform⟩
  | none =>
    cases hdecimal : NumberForm.decimal? cs with
    | some form' =>
      rw [hbase, hdecimal] at h
      cases h
      obtain ⟨hinteger, hform⟩ := isInteger_of_decimal? hdecimal
      exact .inl ⟨hinteger, 10, hform⟩
    | none =>
      rw [hbase, hdecimal] at h
      exact .inr (real?_eq_some_iff.1 h)

theorem isInteger_or_isReal (h : NumberForm.read? cs ≠ none) : IsInteger cs ∨ IsReal cs := by
  obtain ⟨form, hform⟩ := Option.ne_none_iff_exists'.1 h
  exact (read?_cases hform).imp And.left And.left

end

/-- A number is refused only if it is an integer that is too large: a real number has a value. -/
theorem literal_eq_error {t : Token} {form : NumberForm} {fault : Fault} (hread : NumberForm.read? t.toList = some form)
    (h : form.literal t = .error fault) : .overflow t = fault := by
  rcases read?_cases hread with ⟨-, base, negative, digits, rfl⟩ | ⟨hreal, rfl⟩
  · rw [NumberForm.literal] at h
    cases hvalue : NumberForm.integerValue? base negative digits with
    | some value =>
      rw [hvalue] at h
      cases h
    | none =>
      rw [hvalue] at h
      exact Except.error.inj h
  · obtain ⟨value, hvalue⟩ := hreal.exists_read
    rw [NumberForm.literal, hvalue] at h
    cases h

/-- A token is refused as a leaf if it is an integer that is too large, or neither a literal nor a name. -/
theorem read_eq_error {t : Token} {fault : Fault} (h : Leaf.read t = .error fault) :
    .overflow t = fault ∨ .malformed (.notALeaf t) = fault := by
  unfold Leaf.read at h
  repeat' split at h
  all_goals cases h
  · exact .inl (literal_eq_error ‹_› ‹_›)
  · exact .inr rfl

end WordMachine.Cflat
