/-
Image files. An image whose bytes can be counted in a word is written to a file, and reading this file gives
the image back. A file is read exactly if it is what is written for an image, and this is the image that is
read; every other file is refused for its length, for its first letters, or because the number of bytes in its
header is not the number of bytes after it.
-/
import WordMachine.Assembly.File
import WordMachine.Proofs.Words
import Mathlib.Data.Nat.Bitwise

namespace WordMachine

namespace Image

/-! ## Headers -/

/-- A file with a header of four words. -/
def headed (mark stackWords origin length : Word) (bytes : List UInt8) : List UInt8 :=
  mark.toBytes ++ (stackWords.toBytes ++ (origin.toBytes ++ (length.toBytes ++ bytes)))

/-- The number of bytes that a header tells, its fourth word. -/
def promised (content : List UInt8) : Nat := (wordsOf content)[3]?.elim 0 UInt32.toNat

/-- The letters that an image file starts with, as a word. -/
def magicWord : Word := 0x4D494254

theorem magic_eq : magic = magicWord.toBytes := by decide +kernel

/-- Sixteen bytes are enough for a header. -/
theorem exists_headed {content : List UInt8} (h : 16 ≤ content.length) :
    ∃ mark stackWords origin length bytes, content = headed mark stackWords origin length bytes := by
  obtain ⟨mark, content, rfl, hmark⟩ := Word.exists_toBytes_append (Nat.le_trans (by decide) h)
  have hthree : 12 ≤ content.length := by omega
  obtain ⟨stackWords, content, rfl, hstack⟩ := Word.exists_toBytes_append (Nat.le_trans (by decide) hthree)
  have htwo : 8 ≤ content.length := by omega
  obtain ⟨origin, content, rfl, horigin⟩ := Word.exists_toBytes_append (Nat.le_trans (by decide) htwo)
  have hone : 4 ≤ content.length := by omega
  obtain ⟨length, bytes, rfl, -⟩ := Word.exists_toBytes_append hone
  exact ⟨mark, stackWords, origin, length, bytes, rfl⟩

theorem encode_eq_headed (i : Image) :
    i.encode = headed magicWord i.stackWords i.origin i.bytes.length.toUInt32 i.bytes := by
  rw [encode, magic_eq, headed]
  simp only [List.append_assoc]

section

variable (mark stackWords origin length : Word) (bytes : List UInt8)

theorem length_headed : (headed mark stackWords origin length bytes).length = 16 + bytes.length := by
  simp only [headed, Word.toBytes, List.length_append, List.length_cons, List.length_nil]
  omega

theorem take_headed : (headed mark stackWords origin length bytes).take 4 = mark.toBytes := rfl

theorem promised_headed : promised (headed mark stackWords origin length bytes) = length.toNat := by
  rw [promised, headed, wordsOf_append, wordsOf_append, wordsOf_append, wordsOf_append]
  rfl

/-- What is made of a file with a header. -/
theorem decode_headed : decode (headed mark stackWords origin length bytes) =
    if mark.toBytes ≠ magic then .error .wrongStart
    else if bytes.length < length.toNat then .error (.truncated length.toNat bytes.length)
    else if length.toNat < bytes.length then .error (.excess (bytes.length - length.toNat))
    else .ok ⟨origin, stackWords, bytes⟩ := by
  have hlength := length.ofBytes_toBytes
  have horigin := origin.ofBytes_toBytes
  have hstack := stackWords.ofBytes_toBytes
  simp only [headed, Word.toBytes, List.cons_append, List.nil_append, decode, hlength, horigin, hstack]
  rfl

end

theorem decode_of_short {content : List UInt8} (h : content.length < 16) :
    decode content = .error (.tooShort content.length) := by
  unfold decode
  split
  · simp only [List.length_cons] at h
    omega
  · rfl

end Image

/-! ## Files that are refused -/

/-- The fault is what is wrong with the content of a file. -/
def ImageFault.AppliesTo (content : List UInt8) : ImageFault → Prop
  | .tooShort length => content.length = length ∧ length < 16
  | .wrongStart => 16 ≤ content.length ∧ content.take 4 ≠ Image.magic
  | .truncated promised present =>
    content.length = 16 + present ∧ content.take 4 = Image.magic ∧ Image.promised content = promised ∧
      present < promised
  | .excess length =>
    content.length = 16 + Image.promised content + length ∧ content.take 4 = Image.magic ∧ 0 < length

namespace Image

theorem appliesTo_of_decode {content : List UInt8} {fault : ImageFault} (h : decode content = .error fault) :
    fault.AppliesTo content := by
  rcases Nat.lt_or_ge content.length 16 with hshort | hlong
  · rw [decode_of_short hshort] at h
    cases h
    exact ⟨rfl, hshort⟩
  · obtain ⟨mark, stackWords, origin, length, bytes, rfl⟩ := exists_headed hlong
    have hlength := length_headed mark stackWords origin length bytes
    have hpromised := promised_headed mark stackWords origin length bytes
    have htake := take_headed mark stackWords origin length bytes
    rw [decode_headed] at h
    split at h
    · rename_i hmark
      cases h
      exact ⟨hlong, htake ▸ hmark⟩
    · rename_i hmark
      rw [not_not, ← htake] at hmark
      split at h
      · rename_i hlt
        cases h
        exact ⟨hlength, hmark, hpromised, hlt⟩
      · split at h
        · rename_i hlt
          cases h
          refine ⟨?_, hmark, Nat.sub_pos_of_lt hlt⟩
          rw [hlength, hpromised]
          omega
        · cases h

theorem decode_of_appliesTo {content : List UInt8} {fault : ImageFault} (h : fault.AppliesTo content) :
    decode content = .error fault := by
  rcases Nat.lt_or_ge content.length 16 with hshort | hlong
  · rw [decode_of_short hshort]
    cases fault with
    | tooShort n => rw [h.1]
    | wrongStart => have := h.1; omega
    | truncated promised present => have := h.1; omega
    | excess n => have := h.1; omega
  · obtain ⟨mark, stackWords, origin, length, bytes, rfl⟩ := exists_headed hlong
    have hlength := length_headed mark stackWords origin length bytes
    have hpromised := promised_headed mark stackWords origin length bytes
    have htake := take_headed mark stackWords origin length bytes
    rw [decode_headed]
    cases fault with
    | tooShort n =>
      obtain ⟨hn, hlt⟩ := h
      omega
    | wrongStart => rw [if_pos (htake ▸ h.2)]
    | truncated promised present =>
      obtain ⟨hpresent, hmark, rfl, hlt⟩ := h
      obtain rfl : present = bytes.length := by omega
      rw [if_neg (not_not.2 (htake ▸ hmark)), ← hpromised, if_pos hlt]
    | excess n =>
      obtain ⟨hn, hmark, hpos⟩ := h
      rw [if_neg (not_not.2 (htake ▸ hmark)), ← hpromised, if_neg (by omega), if_pos (by omega)]
      congr 2
      omega

/-- A file is refused exactly for what is wrong with it. -/
theorem decode_eq_error_iff {content : List UInt8} {fault : ImageFault} :
    decode content = .error fault ↔ fault.AppliesTo content :=
  ⟨appliesTo_of_decode, decode_of_appliesTo⟩

/-! ## Files that are read -/

theorem decode_encode {i : Image} (h : i.bytes.length < 2 ^ 32) : decode i.encode = .ok i := by
  have hlength : i.bytes.length.toUInt32.toNat = i.bytes.length := by
    rw [Nat.toUInt32, UInt32.toNat_ofNat']
    omega
  rw [encode_eq_headed, decode_headed, hlength, ← magic_eq, if_neg (not_not.2 rfl), if_neg (Nat.lt_irrefl _),
    if_neg (Nat.lt_irrefl _)]

theorem encode_of_decode {content : List UInt8} {i : Image} (h : decode content = .ok i) :
    i.bytes.length < 2 ^ 32 ∧ i.encode = content := by
  have hlong : 16 ≤ content.length := by
    by_contra hshort
    rw [decode_of_short (by omega)] at h
    cases h
  obtain ⟨mark, stackWords, origin, length, bytes, rfl⟩ := exists_headed hlong
  rw [decode_headed] at h
  split at h
  · cases h
  · rename_i hmark
    rw [not_not] at hmark
    split at h
    · cases h
    · split at h
      · cases h
      · cases h
        -- the header tells the number of bytes, so writing this number gives the same word
        have hbytes : bytes.length = length.toNat := by omega
        have hword : bytes.length.toUInt32 = length := by
          apply UInt32.toNat_inj.1
          rw [hbytes, Nat.toUInt32, UInt32.toNat_ofNat']
          exact Nat.mod_eq_of_lt length.toNat_lt
        refine ⟨hbytes ▸ length.toNat_lt, ?_⟩
        rw [encode_eq_headed, hword, headed, headed, ← magic_eq, hmark]

end Image

/-! ## Reading and writing -/

namespace Assembly

theorem fileOf_eq_ok {i : Image} {content : List UInt8} :
    fileOf i = .ok content ↔ i.bytes.length < 2 ^ 32 ∧ i.encode = content := by
  unfold fileOf
  split
  · rename_i hlt
    constructor
    · intro h; cases h; exact ⟨hlt, rfl⟩
    · rintro ⟨-, rfl⟩; rfl
  · rename_i hge
    constructor
    · intro h; cases h
    · rintro ⟨hlt, -⟩; exact absurd hlt hge

theorem imageOf_eq_ok {name : String} {content : List UInt8} {i : Image} :
    imageOf name content = .ok i ↔ fileOf i = .ok content := by
  rw [fileOf_eq_ok]
  unfold imageOf
  cases hdecode : Image.decode content with
  | error fault =>
    constructor
    · intro h; cases h
    · rintro ⟨hlt, rfl⟩
      rw [Image.decode_encode hlt] at hdecode
      cases hdecode
  | ok j =>
    constructor
    · intro h; cases h; exact Image.encode_of_decode hdecode
    · rintro ⟨hlt, rfl⟩
      rw [Image.decode_encode hlt] at hdecode
      cases hdecode
      rfl

theorem imageOf_eq_error {name : String} {content : List UInt8} {e : FileError} :
    imageOf name content = .error e ↔ ∃ fault : ImageFault, fault.AppliesTo content ∧ e = .badImage name fault := by
  unfold imageOf
  cases hdecode : Image.decode content with
  | error fault =>
    constructor
    · intro h; cases h; exact ⟨fault, Image.decode_eq_error_iff.1 hdecode, rfl⟩
    · rintro ⟨fault', hfault, rfl⟩
      rw [← Image.decode_eq_error_iff, hdecode] at hfault
      cases hfault
      rfl
  | ok i =>
    constructor
    · intro h; cases h
    · rintro ⟨fault, hfault, -⟩
      rw [← Image.decode_eq_error_iff, hdecode] at hfault
      cases hfault

/-- The codec of image files. An image of fewer than `2 ^ 32` bytes is written, and the file is read as this
image. A file is read as an image exactly if it is what is written for this image. A file that is written for no
image is refused as a bad image, and the fault tells what is wrong with it. -/
theorem imageOf_iff_fileOf (name : String) :
    (∀ i : Image, i.bytes.length < 2 ^ 32 → ∃ content, fileOf i = .ok content ∧ imageOf name content = .ok i) ∧
    (∀ content i, imageOf name content = .ok i ↔ fileOf i = .ok content) ∧
    ∀ content, (∀ i, fileOf i ≠ .ok content) →
      ∃ fault : ImageFault, fault.AppliesTo content ∧ imageOf name content = .error (.badImage name fault) := by
  refine ⟨fun i hlt => ?_, fun content i => imageOf_eq_ok, fun content hnone => ?_⟩
  · have hfile : fileOf i = .ok i.encode := fileOf_eq_ok.2 ⟨hlt, rfl⟩
    exact ⟨i.encode, hfile, imageOf_eq_ok.2 hfile⟩
  · cases hread : imageOf name content with
    | ok i => exact absurd (imageOf_eq_ok.1 hread) (hnone i)
    | error e =>
      obtain ⟨fault, hfault, rfl⟩ := imageOf_eq_error.1 hread
      exact ⟨fault, hfault, rfl⟩

/-- An image of two words, its file, and the file without its last byte. -/
theorem imageOf_iff_fileOf_two_words :
    let i : Image := ⟨0x1000, 3, [1, 2, 3, 4, 0, 0, 0, 0]⟩
    let file : List UInt8 :=
      [84, 66, 73, 77, 3, 0, 0, 0, 0, 16, 0, 0, 8, 0, 0, 0, 1, 2, 3, 4, 0, 0, 0, 0]
    (∃ content, fileOf i = .ok content ∧ imageOf "a" content = .ok i) ∧
      fileOf i = .ok file ∧ imageOf "a" file = .ok i ∧ ∃ fault : ImageFault,
        fault.AppliesTo file.dropLast ∧ imageOf "a" file.dropLast = .error (.badImage "a" fault) := by
  intro i file
  obtain ⟨hwritten, hread, hrefused⟩ := imageOf_iff_fileOf "a"
  have hfile : fileOf i = .ok file := by decide +kernel
  have htruncated : imageOf "a" file.dropLast = .error (.badImage "a" (.truncated 8 7)) := by decide +kernel
  refine ⟨hwritten i (by decide), hfile, (hread file i).2 hfile, hrefused _ fun j hj => ?_⟩
  rw [← hread, htruncated] at hj
  cases hj

end Assembly

end WordMachine
