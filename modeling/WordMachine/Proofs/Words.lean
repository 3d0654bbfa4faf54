/-
Words in bytes: a word is read back from its four bytes, and an image holds the word at an address
whose bytes stand there.
-/
import WordMachine.Image

namespace WordMachine

/-- The four bytes of a word give the word back. -/
theorem Word.ofBytes_toBytes (w : Word) :
    Word.ofBytes w.toUInt8 (w >>> 8).toUInt8 (w >>> 16).toUInt8 (w >>> 24).toUInt8 = w := by
  apply UInt32.toBitVec_inj.1
  simp only [Word.ofBytes, UInt32.toBitVec_or, UInt32.toBitVec_shiftLeft, UInt8.toBitVec_toUInt32,
    UInt32.toBitVec_toUInt8, UInt32.toBitVec_shiftRight]
  generalize w.toBitVec = b
  ext i hi
  -- every bit stands in exactly one of the four bytes
  have hbit : (decide (i < 8) && b.getLsbD i ||
      !decide (i < 8) && (decide (i - 8 < 8) && b.getLsbD (8 + (i - 8))) ||
      !decide (i < 16) && (decide (i - 16 < 8) && b.getLsbD (16 + (i - 16))) ||
      !decide (i < 24) && (decide (i - 24 < 8) && b.getLsbD (24 + (i - 24)))) = b[i] := by grind
  simpa using hbit

/-- The bytes of a word that is made of four bytes are these bytes. -/
theorem Word.toBytes_ofBytes (b₀ b₁ b₂ b₃ : UInt8) :
    (Word.ofBytes b₀ b₁ b₂ b₃).toBytes = [b₀, b₁, b₂, b₃] := by
  simp only [Word.toBytes, Word.ofBytes, List.cons.injEq, and_true, ← UInt8.toBitVec_inj,
    UInt32.toBitVec_toUInt8, UInt32.toBitVec_shiftRight, UInt32.toBitVec_or, UInt32.toBitVec_shiftLeft,
    UInt8.toBitVec_toUInt32]
  -- bit `i` of byte `k` is bit `8 * k + i` of the word, where only this byte has been put
  refine ⟨?_, ?_, ?_, ?_⟩ <;> ext i hi <;> simp <;> grind

/-- Four bytes at the front are the bytes of a word. -/
theorem Word.exists_toBytes_append {bytes : List UInt8} (h : 4 ≤ bytes.length) :
    ∃ (w : Word) (rest : List UInt8), bytes = w.toBytes ++ rest ∧ bytes.length = 4 + rest.length := by
  rcases bytes with _ | ⟨b₀, _ | ⟨b₁, _ | ⟨b₂, _ | ⟨b₃, rest⟩⟩⟩⟩
  case cons.cons.cons.cons =>
    refine ⟨.ofBytes b₀ b₁ b₂ b₃, rest, ?_, ?_⟩
    · rw [toBytes_ofBytes]; rfl
    · simp only [List.length_cons]; omega
  all_goals exact absurd h (by simp)

namespace Image

theorem wordsOf_append (w : Word) (rest : List UInt8) : wordsOf (w.toBytes ++ rest) = w :: wordsOf rest :=
  congrArg (· :: wordsOf rest) w.ofBytes_toBytes

theorem wordsOf_toBytes (w : Word) : wordsOf w.toBytes = [w] := wordsOf_append w []

theorem wordsOf_flatMap_toBytes (words : List Word) : wordsOf (words.flatMap Word.toBytes) = words := by
  induction words with
  | nil => rfl
  | cons w words ih => rw [List.flatMap_cons, wordsOf_append, ih]

theorem wordAt?_of_append {i : Image} {before after : List UInt8} {w : Word} {address : Nat}
    (h : i.bytes = before ++ (w.toBytes ++ after)) (ha : i.loadAddress.toNat + before.length = address) :
    i.wordAt? address = some w := by
  rw [wordAt?, if_pos (by omega), h, ← ha, Nat.add_sub_cancel_left, List.drop_left, wordsOf_append]
  rfl

end Image

end WordMachine
