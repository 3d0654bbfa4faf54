/-
Fields of words. A value that is put into a field stays within the field's bits, and is read back from
it; a word is known from its operands and the bits outside of their fields.
-/
import WordMachine.Signature

namespace WordMachine

/-! ## Bits -/

namespace Word

variable {w w' x m f : Word}

theorem or_and (a b c : Word) : (a ||| b) &&& c = a &&& c ||| b &&& c := by
  apply UInt32.toBitVec_inj.1
  simp only [UInt32.toBitVec_and, UInt32.toBitVec_or]
  ext i hi
  simp [Bool.and_or_distrib_right]

theorem and_or (a b c : Word) : a &&& (b ||| c) = a &&& b ||| a &&& c := by
  rw [UInt32.and_comm, or_and, UInt32.and_comm b, UInt32.and_comm c]

theorem or_and_self (a b : Word) : a ||| a &&& b = a := by
  apply UInt32.toBitVec_inj.1
  simp only [UInt32.toBitVec_and, UInt32.toBitVec_or]
  ext i hi
  rw [BitVec.getElem_or, BitVec.getElem_and]
  cases a.toBitVec[i] <;> rfl

/-- A word is made of the bits inside a mask and the bits outside of it. -/
theorem and_or_and_not (w m : Word) : w &&& ~~~m ||| w &&& m = w := by
  apply UInt32.toBitVec_inj.1
  simp only [UInt32.toBitVec_and, UInt32.toBitVec_or, UInt32.toBitVec_not]
  ext i hi
  simp [← Bool.and_or_distrib_left]

theorem not_or (a b : Word) : ~~~(a ||| b) = ~~~a &&& ~~~b := by
  apply UInt32.toBitVec_inj.1
  simp only [UInt32.toBitVec_and, UInt32.toBitVec_or, UInt32.toBitVec_not]
  exact BitVec.not_or

/-- Taking away bits that are not set changes nothing. -/
theorem and_not_of_and_eq_zero (h : w &&& m = 0) : w &&& ~~~m = w := by
  have hw := and_or_and_not w m
  rwa [h, UInt32.or_zero] at hw

/-- Bits within `m` are not seen through a mask apart from `m`. -/
theorem and_eq_zero (hx : x &&& m = x) (hf : m &&& f = 0) : x &&& f = 0 := by
  rw [← hx, UInt32.and_assoc, hf, UInt32.and_zero]

/-- Words that agree outside of `m` agree through every mask apart from `m`. -/
theorem and_congr (h : w &&& ~~~m = w' &&& ~~~m) (hf : m &&& f = 0) : w &&& f = w' &&& f := by
  have hnot : ∀ v : Word, v &&& f = v &&& ~~~m &&& f := by
    intro v
    have hv : v &&& m &&& f = 0 := by rw [UInt32.and_assoc, hf, UInt32.and_zero]
    calc v &&& f = (v &&& ~~~m ||| v &&& m) &&& f := by rw [and_or_and_not]
      _ = v &&& ~~~m &&& f := by rw [or_and, hv, UInt32.or_zero]
  rw [hnot, h, ← hnot]

/-- Bits within `m` are all there is outside of it, when they are added to a word without any. -/
theorem or_and_not (hw : w &&& m = 0) (hx : x &&& m = x) : (w ||| x) &&& ~~~m = w := by
  have hx' : x &&& ~~~m = 0 := by rw [← hx, UInt32.and_assoc, UInt32.and_not_self, UInt32.and_zero]
  rw [or_and, hx', UInt32.or_zero, and_not_of_and_eq_zero hw]

theorem or_and_within (hw : w &&& m = 0) (hx : x &&& m = x) : (w ||| x) &&& m = x := by
  rw [or_and, hw, hx, UInt32.zero_or]

end Word

/-! ## One operand -/

namespace OperandKind

/-- The bits of a value that fit into a field of this kind. -/
def valueMask : OperandKind → Word
  | .register => 7
  | .byte => Word.byteMask
  | .halfWord | .fullWord => Word.halfWordMask
  | .address => Word.addressMask

theorem toNat_registerShift (position : Nat) : (Word.registerShift position).toNat = 22 - 3 * position := by
  rw [Word.registerShift, Nat.toUInt32, UInt32.toNat_ofNat']
  omega

/-- Shifting a register index into its field loses nothing. -/
theorem shiftRight_shiftLeft (value : Word) (position : Nat) :
    ((value &&& 7) <<< Word.registerShift position) >>> Word.registerShift position = value &&& 7 := by
  have hs := toNat_registerShift position
  have hv : (value &&& 7).toNat ≤ 7 := by
    rw [UInt32.toNat_and]
    exact Nat.and_le_right
  generalize value &&& 7 = v at hv ⊢
  generalize Word.registerShift position = s at hs ⊢
  have hmod : s.toNat % 32 = s.toNat := Nat.mod_eq_of_lt (by omega)
  have hpow : 2 ^ s.toNat ≤ 2 ^ 22 := Nat.pow_le_pow_right (by decide) (by omega)
  have hlt : v.toNat * 2 ^ s.toNat < 2 ^ 32 :=
    calc v.toNat * 2 ^ s.toNat ≤ 7 * 2 ^ 22 := Nat.mul_le_mul hv hpow
      _ < 2 ^ 32 := by decide
  apply UInt32.toNat_inj.1
  rw [UInt32.toNat_shiftRight, UInt32.toNat_shiftLeft, hmod, Nat.shiftLeft_eq, Nat.mod_eq_of_lt hlt,
    Nat.shiftRight_eq_div_pow, Nat.mul_div_cancel _ (Nat.two_pow_pos _)]

/-- Shifting a register field out of a word and back clears the other bits. -/
theorem shiftLeft_shiftRight (w s : Word) : ((w >>> s) &&& 7) <<< s = w &&& 7 <<< s := by
  rw [UInt32.shiftLeft_and]
  apply UInt32.toBitVec_inj.1
  simp only [UInt32.toBitVec_and, UInt32.toBitVec_shiftLeft, UInt32.toBitVec_shiftRight]
  generalize w.toBitVec = b
  generalize s.toBitVec % 32 = t
  ext i hi
  simp only [BitVec.getElem_and, BitVec.shiftLeft_eq', BitVec.getElem_shiftLeft, BitVec.ushiftRight_eq',
    BitVec.getElem_ushiftRight]
  by_cases h : i < t.toNat
  · simp [h]
  · have ht : t.toNat + (i - t.toNat) = i := by omega
    simp [h, ht, BitVec.getLsbD_eq_getElem hi]

theorem pack_and_fieldMask (kind : OperandKind) (position : Nat) (value : Word) :
    kind.pack position value &&& kind.fieldMask position = kind.pack position value := by
  cases kind with
  | register =>
    simp only [pack, fieldMask]
    rw [← UInt32.shiftLeft_and, UInt32.and_assoc, UInt32.and_self]
  | _ =>
    simp only [pack]
    rw [UInt32.and_assoc, UInt32.and_self]

/-- Only the bits of the field are read. -/
theorem extract_and_fieldMask (kind : OperandKind) (position : Nat) (w : Word) :
    kind.extract position (w &&& kind.fieldMask position) = kind.extract position w := by
  cases kind with
  | register =>
    have h7 := shiftRight_shiftLeft 7 position
    rw [UInt32.and_self] at h7
    simp only [extract, fieldMask, Word.registerField]
    rw [UInt32.shiftRight_and, h7, UInt32.and_assoc, UInt32.and_self]
  | _ =>
    simp only [extract]
    rw [UInt32.and_assoc, UInt32.and_self]

/-- A value is read back, its excess bits apart. -/
theorem extract_pack (kind : OperandKind) (position : Nat) (value : Word) :
    kind.extract position (kind.pack position value) = value &&& kind.valueMask := by
  cases kind with
  | register =>
    simp only [extract, pack, valueMask, Word.registerField]
    rw [shiftRight_shiftLeft, UInt32.and_assoc, UInt32.and_self]
  | _ =>
    simp only [extract, pack, fieldMask, valueMask]
    rw [UInt32.and_assoc, UInt32.and_self]

/-- What is read from a field is put back where it was. -/
theorem pack_extract (kind : OperandKind) (position : Nat) (w : Word) :
    kind.pack position (kind.extract position w) = w &&& kind.fieldMask position := by
  cases kind with
  | register =>
    simp only [extract, pack, fieldMask, Word.registerField]
    rw [UInt32.and_assoc, UInt32.and_self, shiftLeft_shiftRight]
  | _ =>
    simp only [extract, pack]
    rw [UInt32.and_assoc, UInt32.and_self]

end OperandKind

/-! ## All operands of an instruction -/

namespace Signature

/-- No two of the fields overlap. -/
def apartFrom (position : Nat) : Signature → Bool
  | [] => true
  | kind :: rest =>
    kind.fieldMask position &&& maskFrom (position + 1) rest == 0 && apartFrom (position + 1) rest

/-- Values put into the fields of a signature, the first of them being operand `position`. -/
def packFrom (position : Nat) : Signature → List Word → Word
  | kind :: kinds, value :: values => kind.pack position value ||| packFrom (position + 1) kinds values
  | _, _ => 0

/-- The values in the fields of a word. -/
def extractFrom (position : Nat) (w : Word) : Signature → List Word
  | [] => []
  | kind :: kinds => kind.extract position w :: extractFrom (position + 1) w kinds

theorem packFrom_and_maskFrom : ∀ (position : Nat) (kinds : Signature) (values : List Word),
    packFrom position kinds values &&& maskFrom position kinds = packFrom position kinds values
  | _, [], _ => by simp [packFrom]
  | _, _ :: _, [] => by simp [packFrom]
  | position, kind :: kinds, value :: values => by
    have hk := kind.pack_and_fieldMask position value
    have ih := packFrom_and_maskFrom (position + 1) kinds values
    rw [packFrom, maskFrom, Word.or_and, Word.and_or, Word.and_or, hk, ih, Word.or_and_self,
      UInt32.or_comm (_ &&& _), Word.or_and_self]

/-- The values of a word put back into their fields are the word's bits there. -/
theorem packFrom_extractFrom (w : Word) : ∀ (position : Nat) (kinds : Signature),
    packFrom position kinds (extractFrom position w kinds) = w &&& maskFrom position kinds
  | _, [] => by simp [packFrom, maskFrom]
  | position, kind :: kinds => by
    rw [extractFrom, packFrom, kind.pack_extract, packFrom_extractFrom w, maskFrom, Word.and_or]

/-- Values in fields apart from each other are read back, their excess bits apart. -/
theorem extractFrom_of_and_eq {w : Word} : ∀ {position : Nat} {kinds : Signature} {values : List Word},
    apartFrom position kinds = true → kinds.length = values.length →
    w &&& maskFrom position kinds = packFrom position kinds values →
    extractFrom position w kinds = List.zipWith (fun kind value => value &&& kind.valueMask) kinds values
  | _, [], [], _, _, _ => rfl
  | position, kind :: kinds, value :: values, ha, hl, hw => by
    rw [apartFrom, Bool.and_eq_true, beq_iff_eq] at ha
    rw [maskFrom, packFrom] at hw
    have hx := kind.pack_and_fieldMask position value
    have hy := packFrom_and_maskFrom (position + 1) kinds values
    -- each side of the equation is cut down to the first field and to the others
    have hfirst : w &&& kind.fieldMask position = kind.pack position value := by
      have h := congrArg (· &&& kind.fieldMask position) hw
      have hrest := Word.and_eq_zero hy (f := kind.fieldMask position) (by rw [UInt32.and_comm, ha.1])
      rw [UInt32.and_assoc, Word.or_and, Word.or_and, UInt32.and_self, UInt32.and_comm (maskFrom _ _),
        Word.or_and_self, hx, hrest, UInt32.or_zero] at h
      exact h
    have hothers : w &&& maskFrom (position + 1) kinds = packFrom (position + 1) kinds values := by
      have h := congrArg (· &&& maskFrom (position + 1) kinds) hw
      have hrest := Word.and_eq_zero hx ha.1
      rw [UInt32.and_assoc, Word.or_and, Word.or_and, UInt32.and_self, UInt32.and_comm (kind.fieldMask _),
        UInt32.or_comm (_ &&& _), Word.or_and_self, hy, hrest, UInt32.zero_or] at h
      exact h
    rw [extractFrom, ← kind.extract_and_fieldMask, hfirst, kind.extract_pack,
      extractFrom_of_and_eq ha.2 (Nat.succ.inj hl) hothers]
    rfl

end Signature

end WordMachine
