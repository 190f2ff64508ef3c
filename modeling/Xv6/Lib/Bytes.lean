import Mathlib.Algebra.Ring.Nat
import Mathlib.Tactic.Common

/-!
# Fixed buffers of bytes and their little-endian words

A buffer of `n` bytes is read and written at byte offsets, either one byte at a time or as
four-byte little-endian words. The laws are the ones an overlaid C structure relies on: a
word reads back as written, and a write leaves every byte outside its own four alone.
-/

namespace Lib

/-- A buffer of `n` bytes. -/
abbrev Bytes (n : Nat) : Type := Fin n → UInt8

namespace Bytes

variable {n : Nat}

/-- The buffer whose bytes are all zero. -/
def zero : Bytes n := fun _ => 0

/-- Byte `k` of a word, counted from the least significant one. -/
def digit (word : UInt32) (k : Nat) : UInt8 := UInt8.ofNat (word.toNat / 256 ^ k % 256)

/-- The word whose bytes, least significant first, are the four arguments. -/
def ofDigits (b0 b1 b2 b3 : UInt8) : UInt32 :=
  UInt32.ofNat (b0.toNat + 256 * b1.toNat + 65536 * b2.toNat + 16777216 * b3.toNat)

/-- A word is assembled from its own four bytes. -/
theorem ofDigits_digit (word : UInt32) :
    ofDigits (digit word 0) (digit word 1) (digit word 2) (digit word 3) = word := by
  have bound := word.toNat_lt
  apply UInt32.toNat_inj.mp
  simp only [ofDigits, digit, UInt8.toNat_ofNat', UInt32.toNat_ofNat']
  omega

/-- The byte at an offset; offsets past the end read as zero. -/
def byte (buffer : Bytes n) (offset : Nat) : UInt8 :=
  if inside : offset < n then buffer ⟨offset, inside⟩ else 0

/-- Replace the byte at an offset; an offset past the end changes nothing. -/
def setByte (buffer : Bytes n) (offset : Nat) (value : UInt8) : Bytes n :=
  fun i => if i.val = offset then value else buffer i

/-- A byte written inside the buffer reads back. -/
theorem byte_setByte_same (buffer : Bytes n) (offset : Nat) (value : UInt8) (inside : offset < n) :
    (buffer.setByte offset value).byte offset = value := by
  simp [byte, setByte, inside]

/-- A byte write leaves every other byte alone. -/
theorem byte_setByte_ne (buffer : Bytes n) (offset other : Nat) (value : UInt8)
    (apart : other ≠ offset) : (buffer.setByte offset value).byte other = buffer.byte other := by
  simp [byte, setByte, apart]

/-- The little-endian word at a byte offset. -/
def word (buffer : Bytes n) (offset : Nat) : UInt32 :=
  ofDigits (buffer.byte offset) (buffer.byte (offset + 1)) (buffer.byte (offset + 2))
    (buffer.byte (offset + 3))

/-- Overwrite the four bytes at an offset with a little-endian word. -/
def setWord (buffer : Bytes n) (offset : Nat) (value : UInt32) : Bytes n :=
  fun i => if offset ≤ i.val ∧ i.val < offset + 4 then digit value (i.val - offset) else buffer i

/-- The bytes a word write covers are the word's digits. -/
theorem byte_setWord_inside (buffer : Bytes n) (offset : Nat) (value : UInt32) (k : Nat)
    (small : k < 4) (fits : offset + 4 ≤ n) :
    (buffer.setWord offset value).byte (offset + k) = digit value k := by
  have inside : offset + k < n := by omega
  simp [byte, setWord, inside, small]

/-- A word write leaves the bytes before and after it alone. -/
theorem byte_setWord_outside (buffer : Bytes n) (offset other : Nat) (value : UInt32)
    (apart : other < offset ∨ offset + 4 ≤ other) :
    (buffer.setWord offset value).byte other = buffer.byte other := by
  unfold byte setWord
  split
  · rw [if_neg (by simp only; omega)]
  · rfl

/-- A word written inside the buffer reads back. -/
theorem word_setWord_same (buffer : Bytes n) (offset : Nat) (value : UInt32)
    (fits : offset + 4 ≤ n) : (buffer.setWord offset value).word offset = value := by
  have first := byte_setWord_inside buffer offset value 0 (by decide) fits
  rw [Nat.add_zero] at first
  rw [word, first, byte_setWord_inside buffer offset value 1 (by decide) fits,
    byte_setWord_inside buffer offset value 2 (by decide) fits,
    byte_setWord_inside buffer offset value 3 (by decide) fits, ofDigits_digit]

/-- A word write leaves every disjoint word alone. -/
theorem word_setWord_apart (buffer : Bytes n) (offset other : Nat) (value : UInt32)
    (apart : other + 4 ≤ offset ∨ offset + 4 ≤ other) :
    (buffer.setWord offset value).word other = buffer.word other := by
  simp only [word]
  rw [byte_setWord_outside _ _ _ _ (by omega), byte_setWord_outside _ _ _ _ (by omega),
    byte_setWord_outside _ _ _ _ (by omega), byte_setWord_outside _ _ _ _ (by omega)]

/-- Every word of the zero buffer is zero. -/
theorem word_zero (offset : Nat) : (zero : Bytes n).word offset = 0 := by
  have none (k : Nat) : (zero : Bytes n).byte k = 0 := by simp [byte, zero]
  simp only [word, none]
  rfl

variable {m offset offset' : Nat} {buffer : Bytes n} {other : Bytes m}

/-- The words of a buffer depend on its bytes. -/
theorem word_congr (same : ∀ k, k < 4 → buffer.byte (offset + k) = other.byte (offset' + k)) :
    buffer.word offset = other.word offset' := by
  have first := same 0 (by decide)
  rw [Nat.add_zero, Nat.add_zero] at first
  rw [word, word, first, same 1 (by decide), same 2 (by decide), same 3 (by decide)]

/-! ## Two-byte words -/

/-- The little-endian two-byte word at a byte offset. -/
def half (buffer : Bytes n) (offset : Nat) : UInt16 :=
  UInt16.ofNat ((buffer.byte offset).toNat + 256 * (buffer.byte (offset + 1)).toNat)

/-- Overwrite the two bytes at an offset with a little-endian word. -/
def setHalf (buffer : Bytes n) (offset : Nat) (value : UInt16) : Bytes n :=
  fun i => if offset ≤ i.val ∧ i.val < offset + 2
    then UInt8.ofNat (value.toNat / 256 ^ (i.val - offset) % 256) else buffer i

/-- A two-byte write leaves the bytes before and after it alone. -/
theorem byte_setHalf_outside (buffer : Bytes n) (offset other : Nat) (value : UInt16)
    (apart : other < offset ∨ offset + 2 ≤ other) :
    (buffer.setHalf offset value).byte other = buffer.byte other := by
  unfold byte setHalf
  split
  · rw [if_neg (by simp only; omega)]
  · rfl

/-- A two-byte word written inside the buffer reads back. -/
theorem half_setHalf_same (buffer : Bytes n) (offset : Nat) (value : UInt16)
    (fits : offset + 2 ≤ n) : (buffer.setHalf offset value).half offset = value := by
  have bound := value.toNat_lt
  have first : offset < n := by omega
  have second : offset + 1 < n := by omega
  have low : (buffer.setHalf offset value).byte offset = UInt8.ofNat (value.toNat % 256) := by
    simp [byte, setHalf, first]
  have high : (buffer.setHalf offset value).byte (offset + 1) =
      UInt8.ofNat (value.toNat / 256 % 256) := by
    simp [byte, setHalf, second]
  apply UInt16.toNat_inj.mp
  simp only [half, low, high, UInt8.toNat_ofNat', UInt16.toNat_ofNat']
  omega

/-- Every two-byte word of the zero buffer is zero. -/
theorem half_zero (offset : Nat) : (zero : Bytes n).half offset = 0 := by
  have none (k : Nat) : (zero : Bytes n).byte k = 0 := by simp [byte, zero]
  simp only [half, none]
  rfl

/-- The two-byte words of a buffer depend on its bytes. -/
theorem half_congr (same : ∀ k, k < 2 → buffer.byte (offset + k) = other.byte (offset' + k)) :
    buffer.half offset = other.half offset' := by
  have first := same 0 (by decide)
  rw [Nat.add_zero, Nat.add_zero] at first
  rw [half, half, first, same 1 (by decide)]

/-- A two-byte write leaves every disjoint two-byte word alone. -/
theorem half_setHalf_apart (buffer : Bytes n) (offset other : Nat) (value : UInt16)
    (apart : other + 2 ≤ offset ∨ offset + 2 ≤ other) :
    (buffer.setHalf offset value).half other = buffer.half other :=
  half_congr fun _ small => byte_setHalf_outside _ _ _ _ (by omega)

/-- A word write leaves every disjoint two-byte word alone. -/
theorem half_setWord_apart (buffer : Bytes n) (offset other : Nat) (value : UInt32)
    (apart : other + 2 ≤ offset ∨ offset + 4 ≤ other) :
    (buffer.setWord offset value).half other = buffer.half other :=
  half_congr fun _ small => byte_setWord_outside _ _ _ _ (by omega)

/-! ## Arrays of words and of bytes -/

/-- Overwrite consecutive words from an offset on. -/
def setWords (buffer : Bytes n) (offset : Nat) : List UInt32 → Bytes n
  | [] => buffer
  | value :: rest => (buffer.setWord offset value).setWords (offset + 4) rest

section

variable (buffer : Bytes n) (offset other : Nat) (values : List UInt32)

/-- Writing an array leaves the bytes before and after it alone. -/
theorem byte_setWords_outside (apart : other < offset ∨ offset + 4 * values.length ≤ other) :
    (buffer.setWords offset values).byte other = buffer.byte other := by
  induction values generalizing buffer offset with
  | nil => rfl
  | cons value rest ih =>
    rw [List.length_cons] at apart
    rw [setWords, ih _ _ (by omega), byte_setWord_outside _ _ _ _ (by omega)]

/-- Writing an array leaves every word before it alone. -/
theorem word_setWords_before
    (before : other + 4 ≤ offset) :
    (buffer.setWords offset values).word other = buffer.word other :=
  word_congr fun _ small => byte_setWords_outside _ _ _ _ (by omega)

/-- Writing an array leaves every two-byte word before it alone. -/
theorem half_setWords_before
    (before : other + 2 ≤ offset) :
    (buffer.setWords offset values).half other = buffer.half other :=
  half_congr fun _ small => byte_setWords_outside _ _ _ _ (by omega)

end

/-- An array written inside the buffer reads back. -/
theorem word_setWords_same (buffer : Bytes n) (offset : Nat) (values : List UInt32)
    (fits : offset + 4 * values.length ≤ n) (i : Nat) (inside : i < values.length) :
    (buffer.setWords offset values).word (offset + 4 * i) = values[i] := by
  induction values generalizing buffer offset i with
  | nil => cases inside
  | cons value rest ih =>
    rw [List.length_cons] at fits inside
    rw [setWords]
    cases i with
    | zero =>
      show ((buffer.setWord offset value).setWords (offset + 4) rest).word offset = value
      rw [word_setWords_before _ _ _ _ (Nat.le_refl _), word_setWord_same _ _ _ (by omega)]
    | succ i =>
      have shifted : offset + 4 * (i + 1) = offset + 4 + 4 * i := by omega
      rw [shifted, ih _ _ (by omega) i (by omega)]
      rfl

/-- Overwrite a range of bytes. -/
def setRange (buffer : Bytes n) (offset length : Nat) (source : Nat → UInt8) : Bytes n :=
  fun i => if offset ≤ i.val ∧ i.val < offset + length then source (i.val - offset) else buffer i

/-- The bytes of the range are those of the source. -/
theorem byte_setRange_inside (buffer : Bytes n) (offset length : Nat)
    (source : Nat → UInt8) (k : Nat) (small : k < length) (fits : offset + length ≤ n) :
    (buffer.setRange offset length source).byte (offset + k) = source k := by
  have inside : offset + k < n := by omega
  simp [byte, setRange, inside, small]

/-- Writing a range leaves the bytes before and after it alone. -/
theorem byte_setRange_outside (buffer : Bytes n) (offset length other : Nat) (source : Nat → UInt8)
    (apart : other < offset ∨ offset + length ≤ other) :
    (buffer.setRange offset length source).byte other = buffer.byte other := by
  unfold byte setRange
  split
  · rw [if_neg (by simp only; omega)]
  · rfl

/-! ## Bits -/

/-- The mask of a bit in its byte. -/
def mask (i : Nat) : UInt8 := ⟨BitVec.twoPow 8 (i % 8)⟩

/-- Bit `i` of a buffer, counted from the least significant bit of its first byte. -/
def bit (buffer : Bytes n) (i : Nat) : Bool := buffer.byte (i / 8) &&& mask i != 0

/-- Set a bit. -/
def setBit (buffer : Bytes n) (i : Nat) : Bytes n :=
  buffer.setByte (i / 8) (buffer.byte (i / 8) ||| mask i)

/-- Clear a bit. -/
def clearBit (buffer : Bytes n) (i : Nat) : Bytes n :=
  buffer.setByte (i / 8) (buffer.byte (i / 8) &&& ~~~mask i)

/-- The mask takes out one bit. -/
theorem and_mask (value : UInt8) (i : Nat) :
    (value &&& mask i != 0) = value.toBitVec.getLsbD (i % 8) := by
  have small : i % 8 < 8 := Nat.mod_lt _ (by decide)
  have whole : (value &&& mask i).toBitVec =
      if value.toBitVec.getLsbD (i % 8) then BitVec.twoPow 8 (i % 8) else 0#8 :=
    BitVec.and_twoPow value.toBitVec (i % 8)
  have nonzero : BitVec.twoPow 8 (i % 8) ≠ 0#8 := by
    intro zero
    have lit := congrArg (BitVec.getLsbD · (i % 8)) zero
    simp [small] at lit
  cases lit : value.toBitVec.getLsbD (i % 8) with
  | false =>
    rw [lit] at whole
    simpa [← UInt8.toBitVec_inj] using whole
  | true =>
    rw [lit] at whole
    simp only [bne_iff_ne, ne_eq, ← UInt8.toBitVec_inj, whole]
    exact nonzero

/-- Every bit of the zero buffer is clear. -/
theorem bit_zero (i : Nat) : (zero : Bytes n).bit i = false := by
  have none : (zero : Bytes n).byte (i / 8) = 0 := by simp [byte, zero]
  rw [bit, and_mask, none]
  simp

/-- Bits of a buffer with one byte replaced. -/
theorem bit_setByte (buffer : Bytes n) (offset j : Nat) (value : UInt8) (inside : offset < n) :
    (buffer.setByte offset value).bit j =
      if j / 8 = offset then value.toBitVec.getLsbD (j % 8) else buffer.bit j := by
  by_cases here : j / 8 = offset
  · subst here
    rw [if_pos rfl, bit, byte_setByte_same _ _ _ inside, and_mask]
  · rw [if_neg here, bit, byte_setByte_ne _ _ _ _ here, bit]

variable (buffer : Bytes n) (i j : Nat) (inside : i / 8 < n)

include inside

/-- A byte replaced by one that differs in one bit. -/
theorem bit_setByte_one {value : UInt8} {lit : Bool} (here : value.toBitVec.getLsbD (i % 8) = lit)
    (others : ∀ k, k < 8 → k ≠ i % 8 →
      value.toBitVec.getLsbD k = (buffer.byte (i / 8)).toBitVec.getLsbD k) :
    (buffer.setByte (i / 8) value).bit j = if j = i then lit else buffer.bit j := by
  rw [bit_setByte _ _ _ _ inside]
  by_cases same : j = i
  · rw [same, if_pos rfl, if_pos rfl, here]
  · rw [if_neg same]
    split
    · rename_i byte
      rw [others _ (Nat.mod_lt _ (by decide)) (by omega), ← and_mask, bit, byte]
    · rfl

/-- One bit is set. -/
theorem bit_setBit : (buffer.setBit i).bit j = if j = i then true else buffer.bit j := by
  have whole : (buffer.byte (i / 8) ||| mask i).toBitVec =
      (buffer.byte (i / 8)).toBitVec ||| BitVec.twoPow 8 (i % 8) := rfl
  have small : i % 8 < 8 := Nat.mod_lt _ (by decide)
  apply bit_setByte_one _ _ _ inside
  · simp [whole, small]
  · intro k _ apart
    simp [whole, apart.symm]

/-- Clearing a bit clears that one only. -/
theorem bit_clearBit : (buffer.clearBit i).bit j = if j = i then false else buffer.bit j := by
  have whole : (buffer.byte (i / 8) &&& ~~~mask i).toBitVec =
      (buffer.byte (i / 8)).toBitVec &&& ~~~BitVec.twoPow 8 (i % 8) := rfl
  apply bit_setByte_one _ _ _ inside
  · simp [whole]
  · intro k small apart
    simp [whole, small, apart]

end Bytes

end Lib
