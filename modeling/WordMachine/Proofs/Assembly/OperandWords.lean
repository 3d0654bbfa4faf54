/-
What the words of a program stand for as operands. `Denotes` gives the forms of a word with their values: a register,
a label reference, a whole number in one of three bases, or a decimal with a point, whose bits are those of the nearest
single-precision number. A word is classified exactly as the one form that it has.
-/
import WordMachine.Proofs.Assembly.OperandForms
import WordMachine.Proofs.Decimal.Rounding

namespace WordMachine.Assembly.OperandToken

open Text (Digits numeralValue)

/-- What a word stands for as an operand. -/
inductive Denotes : List Char → OperandToken → Prop
  | register {mark : Char} {digits : List Char} (hmark : mark = 'r' ∨ mark = 'R') (h : Digits 10 digits)
      (hlt : numeralValue 10 digits < 2 ^ 32) : Denotes (mark :: digits) (.register (numeralValue 10 digits))
  | label {name : List Char} (hne : name ≠ []) (h : ∀ c ∈ name, c ∉ [' ', '\t', '\n', ',', ';', '@']) :
      Denotes ('@' :: name) (.label (String.ofList name))
  | decimal {sign digits : List Char} {v : Word} {x : Int} (h : IsDecimal sign digits v x) :
      Denotes (sign ++ digits) (.integer v)
  | hexadecimal {digits : List Char} {mark : Char} {v : Word} (h : Digits 16 digits) (hmark : mark = 'h' ∨ mark = 'H')
      (hv : v.toNat = numeralValue 16 digits) : Denotes (digits ++ [mark]) (.integer v)
  | binary {digits : List Char} {mark : Char} {v : Word} (h : Digits 2 digits) (hmark : mark = 'b' ∨ mark = 'B')
      (hv : v.toNat = numeralValue 2 digits) : Denotes (digits ++ [mark]) (.integer v)
  | float {number mark : List Char} {d : Decimal} {m : Nat} {bits : Word} (h : Decimal.Fraction number d)
      (hsign : number.head? ≠ some '+') (hmark : mark ∈ [[], ['f'], ['F']])
      (hm : BinaryFormat.single.IsNearest d.magnitude m)
      (hbits : bits.toNat = (if d.negative then 2 ^ 31 else 0) + m) : Denotes (number ++ mark) (.float bits)

variable {cs : List Char} {token : OperandToken} {word : String}

/-- What is read from a text of a form is what the text stands for. -/
theorem denotes_of_read? {form : Form} (h : form.read? cs = some token) : Denotes cs token := by
  cases form with
  | register =>
    obtain ⟨mark, digits, rfl, hmark, hdigits, hlt, rfl⟩ := register?_eq_some_iff.1 h
    exact .register hmark hdigits hlt
  | label =>
    obtain ⟨name, rfl, hne, hname, rfl⟩ := label?_eq_some_iff.1 h
    exact .label hne hname
  | decimal =>
    obtain ⟨sign, digits, v, x, rfl, rfl, hdecimal⟩ := exists_of_decimal? h
    exact .decimal hdecimal
  | hexadecimal =>
    obtain ⟨digits, mark, v, rfl, hmark, hdigits, hv, rfl⟩ := exists_of_marked? le_rfl h
    exact .hexadecimal hdigits (by simpa using hmark) hv
  | binary =>
    obtain ⟨digits, mark, v, rfl, hmark, hdigits, hv, rfl⟩ := exists_of_marked? (by decide) h
    exact .binary hdigits (by simpa using hmark) hv
  | float =>
    obtain ⟨number, mark, d, rfl, hfraction, hplus, hmark, rfl⟩ := exists_of_float? h
    obtain ⟨m, hm, hbits⟩ := BinaryFormat.nearest_single_eq_iff.1 (Eq.refl (BinaryFormat.single.nearest d).toUInt32)
    exact .float hfraction hplus hmark hm hbits

theorem Denotes.exists_read? (h : Denotes cs token) : ∃ form : Form, form.read? cs = some token := by
  cases h with
  | register hmark h hlt => exact ⟨.register, register?_eq_some_iff.2 ⟨_, _, rfl, hmark, h, hlt, rfl⟩⟩
  | label hne h => exact ⟨.label, label?_eq_some_iff.2 ⟨_, rfl, hne, h, rfl⟩⟩
  | decimal h => exact ⟨.decimal, decimal?_append h⟩
  | hexadecimal h hmark hv => exact ⟨.hexadecimal, marked?_append le_rfl h (by simpa using hmark) hv⟩
  | binary h hmark hv => exact ⟨.binary, marked?_append (by decide) h (by simpa using hmark) hv⟩
  | float h hsign hmark hm hbits =>
    refine ⟨.float, (float?_append h hsign hmark).trans ?_⟩
    rw [BinaryFormat.nearest_single_eq_iff.2 ⟨_, hm, hbits⟩]

theorem denotes_of_classify? (h : classify? word = some token) : Denotes word.toList token := by
  obtain ⟨form, hform⟩ := classify?_eq_some_iff.1 h
  exact denotes_of_read? hform

theorem classify?_of_denotes (h : Denotes word.toList token) : classify? word = some token :=
  classify?_eq_some_iff.2 h.exists_read?

/-- Only labels start with an `@`. -/
theorem Denotes.label_chars {name : List Char} (h : Denotes ('@' :: name) token) :
    ∀ c ∈ name, c ∉ [' ', '\t', '\n', ',', ';', '@'] := by
  obtain ⟨form, hform⟩ := h.exists_read?
  have hmatches := matches_of_read? hform
  obtain rfl : .label = form := onlyForm_eq hmatches
  obtain ⟨_, hname, -, hchars⟩ := matches_label.1 hmatches
  cases hname
  exact hchars

/-- The ways to write a word in the three bases with some zeros before it. -/
def spellings (v : Word) (zeros : Nat) : List (List Char) :=
  let written (base : Nat) := Text.zerosAndDigits base zeros v.toNat
  [written 10, written 16 ++ ['h'], written 16 ++ ['H'], (written 16).map Char.toUpper ++ ['h'],
    (written 16).map Char.toUpper ++ ['H'], written 2 ++ ['b'], written 2 ++ ['B']]

theorem denotes_of_mem_spellings {v : Word} {zeros : Nat} (h : cs ∈ spellings v zeros) : Denotes cs (.integer v) := by
  obtain ⟨hten, hten'⟩ := Text.digits_zerosAndDigits (by decide : 1 < 10) (by decide) zeros v.toNat
  obtain ⟨hsixteen, hsixteen'⟩ := Text.digits_zerosAndDigits (by decide : 1 < 16) le_rfl zeros v.toNat
  obtain ⟨hupper, hupper'⟩ := hsixteen.map_toUpper le_rfl
  obtain ⟨htwo, htwo'⟩ := Text.digits_zerosAndDigits (by decide : 1 < 2) (by decide) zeros v.toNat
  have hlt := v.toNat_lt
  simp only [spellings, List.mem_cons, List.not_mem_nil, or_false] at h
  rcases h with rfl | rfl | rfl | rfl | rfl | rfl | rfl
  · have hdecimal : IsDecimal [] (Text.zerosAndDigits 10 zeros v.toNat) v v.toNat :=
      ⟨hten, .inl ⟨rfl, by rw [hten']⟩, by omega, by omega, by omega⟩
    rw [← List.nil_append (Text.zerosAndDigits 10 zeros v.toNat)]
    exact .decimal hdecimal
  · exact .hexadecimal hsixteen (.inl rfl) hsixteen'.symm
  · exact .hexadecimal hsixteen (.inr rfl) hsixteen'.symm
  · exact .hexadecimal hupper (.inl rfl) (hupper'.trans hsixteen').symm
  · exact .hexadecimal hupper (.inr rfl) (hupper'.trans hsixteen').symm
  · exact .binary htwo (.inl rfl) htwo'.symm
  · exact .binary htwo (.inr rfl) htwo'.symm

/-- A word is classified exactly as what it denotes, and is refused exactly if it denotes nothing. So every way to
write a 32-bit word in one of the bases is classified as the word. -/
theorem classify_iff_denotes :
    (∀ word token, classify? word = some token ↔ Denotes word.toList token) ∧
      (∀ word, classify? word = none ↔ ∀ token, ¬Denotes word.toList token) ∧
      ∀ v zeros, ∀ cs ∈ spellings v zeros, classify? (String.ofList cs) = some (.integer v) := by
  have hiff (word : String) (token : OperandToken) : classify? word = some token ↔ Denotes word.toList token :=
    ⟨denotes_of_classify?, classify?_of_denotes⟩
  refine ⟨hiff, fun word => ?_, fun v zeros cs hcs => ?_⟩
  · rw [Option.eq_none_iff_forall_ne_some]
    exact forall_congr' fun token => not_congr (hiff word token)
  · refine (hiff _ _).2 ?_
    rw [String.toList_ofList]
    exact denotes_of_mem_spellings hcs

/-- Capital digits after a zero, the last of them a letter that also marks binary numbers. -/
theorem classify_hexadecimal_capitals :
    "0FFFFFFFBh".toList ∈ spellings 0xFFFFFFFB 1 ∧ classify? "0FFFFFFFBh" = some (.integer 0xFFFFFFFB) := by
  have hmem : "0FFFFFFFBh".toList ∈ spellings 0xFFFFFFFB 1 := by decide
  have hclass := classify_iff_denotes.2.2 0xFFFFFFFB 1 _ hmem
  rw [String.ofList_toList] at hclass
  exact ⟨hmem, hclass⟩

end WordMachine.Assembly.OperandToken
