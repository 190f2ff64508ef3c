import Xv6.User.Ulib
import Mathlib.Data.List.TakeWhile
import Mathlib.Tactic.Common
import Mathlib.Tactic.IntervalCases

/-!
# Filling and copying memory, and strings in fields

How far an address lies behind another is taken modulo `2^32`, so that one count covers a range
that wraps as well as one that does not. A field of a record holds a string that ends at its first
zero byte or fills the field.
-/

namespace Xv6

open Function

/-! ## `memset` -/

/-- Behind the first byte of a range, one less is left to the end. -/
theorem sub_succ_lt (a addr : UInt32) (n : Nat) (behind : a ≠ addr) :
    (a - (addr + 1)).toNat < n ↔ (a - addr).toNat < n + 1 := by
  have apart := UInt32.toNat_inj.not.mpr behind
  have := a.toNat_lt
  have := addr.toNat_lt
  simp only [UInt32.toNat_sub, UInt32.toNat_add, UInt32.toNat_one] at *
  omega

/-- What `rep stosb` leaves at an address. -/
theorem stosb_byte (addr data : UInt32) (cnt : Nat) (m : Ram) (a : UInt32) (fits : cnt ≤ 2 ^ 32) :
    stosb addr data cnt m a = if (a - addr).toNat < cnt then data.toUInt8 else m a := by
  induction cnt generalizing addr m with
  | zero => simp [stosb]
  | succ cnt ih =>
    rw [stosb, ih _ _ (by omega)]
    by_cases here : a = addr
    · subst here
      simp
    · simp only [update_of_ne here, sub_succ_lt a addr cnt here]

/-- The word `memset` stores has the low byte of `c` in each place. -/
theorem memset_word (c : Int32) :
    let low := c &&& 0xFF
    let word := (low <<< 24 ||| low <<< 16 ||| low <<< 8 ||| low).toUInt32
    ∀ shift ∈ [0, 8, 16, 24], (word >>> shift).toUInt8 = c.toUInt32.toUInt8 := by
  intro low word shift place
  simp only [List.mem_cons, List.not_mem_nil, or_false] at place
  obtain rfl | rfl | rfl | rfl := place
  all_goals
    apply UInt8.toBitVec_inj.mp
    apply BitVec.eq_of_getLsbD_eq
    intro i small
    interval_cases i <;> simp [low, word]

/-- Words of four equal bytes are stored as so many bytes. -/
theorem stosl_bytes (word data : UInt32)
    (bytes : ∀ shift ∈ [0, 8, 16, 24], (word >>> shift).toUInt8 = data.toUInt8) (addr : UInt32)
    (cnt : Nat) (m : Ram) : stosl addr word cnt m = stosb addr data (4 * cnt) m := by
  induction cnt generalizing addr m with
  | zero => rfl
  | succ cnt ih =>
    have first : word.toUInt8 = data.toUInt8 := by simpa using bytes 0 (by simp)
    have places : addr + 1 + 1 = addr + 2 ∧ addr + 2 + 1 = addr + 3 ∧ addr + 3 + 1 = addr + 4 := by
      grind
    rw [stosl, ih, Nat.mul_succ]
    simp only [stosb, Ram.setWord, first, bytes 8 (by simp), bytes 16 (by simp),
      bytes 24 (by simp), places]

/-- `memset` stores the low byte of `c` into the `n` bytes from `dst` on and nothing else. -/
theorem memset_fills (dst : UInt32) (c : Int32) (n : UInt32) (m : Ram) (a : UInt32) :
    memset dst c n m a = if (a - dst).toNat < n.toNat then c.toUInt32.toUInt8 else m a := by
  have fits := n.toNat_lt.le
  unfold memset
  split
  case isTrue words =>
    have count : 4 * (n / 4).toNat = n.toNat := by
      have whole := congrArg UInt32.toNat words.2
      simp only [UInt32.toNat_mod, UInt32.toNat_div, UInt32.reduceToNat] at *
      omega
    rw [stosl_bytes _ _ (memset_word c), count]
    exact stosb_byte dst _ _ m a fits
  case isFalse => exact stosb_byte dst _ _ m a fits

/-! ## `memmove` -/

/-- Memory with the `n` bytes at `src` copied to `dst`. -/
def moved (dst src : UInt32) (n : Nat) (m : Ram) : Ram := fun a =>
  if (a - dst).toNat < n then m (src + (a - dst)) else m a

/-- Upwards, no byte is overwritten before it is read, unless `dst` lies behind `src` within the
range. -/
theorem copyUp_moved (dst src : UInt32) (n : Nat) (m : Ram) (fits : n ≤ 2 ^ 32)
    (clear : dst = src ∨ n ≤ (dst - src).toNat) : copyUp dst src n m = moved dst src n m := by
  induction n generalizing dst src m with
  | zero => exact funext fun a => by simp [copyUp, moved]
  | succ n ih =>
    have same : dst + 1 - (src + 1) = dst - src := by grind
    rw [copyUp, ih _ _ _ (by omega) (by rw [same]; exact clear.imp (congrArg (· + 1)) (by omega))]
    funext a
    have place : src + 1 + (a - (dst + 1)) = src + (a - dst) := by grind
    simp only [moved, place]
    by_cases here : a = dst
    · subst here
      simp +contextual [update_apply]
    simp only [sub_succ_lt a dst n here, update_of_ne here]
    split
    case isTrue inside =>
      -- the byte read later is not the one just written
      have unread : src + (a - dst) ≠ dst := by
        rintro back
        have : dst - src = a - dst := by grind
        grind
      rw [update_of_ne unread]
    case isFalse => rfl

/-- Downwards, no byte is overwritten before it is read, unless `src` lies behind `dst` within the
range. -/
theorem copyDown_moved (dst src : UInt32) (n : Nat) (m : Ram) (fits : n < 2 ^ 32)
    (clear : src = dst ∨ n ≤ (src - dst).toNat) :
    copyDown (dst + .ofNat n) (src + .ofNat n) n m = moved dst src n m := by
  induction n generalizing m with
  | zero => exact funext fun a => by simp [copyDown, moved]
  | succ n ih =>
    have last (p : UInt32) : p + .ofNat (n + 1) - 1 = p + .ofNat n := by
      rw [UInt32.ofNat_add]
      grind
    have count : (UInt32.ofNat n).toNat = n := by
      rw [UInt32.toNat_ofNat', Nat.mod_eq_of_lt (by omega)]
    rw [copyDown, last, last, ih _ (by omega) (clear.imp_right (by omega))]
    funext a
    by_cases here : a - dst = .ofNat n
    · obtain rfl : a = dst + .ofNat n := by grind
      simp [moved, here, count]
    have short : (a - dst).toNat < n ↔ (a - dst).toNat < n + 1 := by
      have : (a - dst).toNat ≠ n := fun same => here (UInt32.toNat_inj.mp (same.trans count.symm))
      omega
    have elsewhere : a ≠ dst + .ofNat n := by grind
    simp only [moved, short, update_of_ne elsewhere]
    split
    case isTrue inside =>
      have unread : src + (a - dst) ≠ dst + .ofNat n := by
        intro back
        have back : src - dst = .ofNat n - (a - dst) := by grind
        have less : (UInt32.ofNat n - (a - dst)).toNat = n - (a - dst).toNat := by
          rw [UInt32.toNat_sub_of_le _ _ (UInt32.le_iff_toNat_le.mpr (by omega)), count]
        rw [back, less] at clear
        obtain rfl | far := clear
        · exact here (by grind)
        · omega
      rw [update_of_ne unread]
    case isFalse => rfl

/-- The ranges that `memmove` may be given: neither wraps. -/
structure InMemory (dst src n : UInt32) : Prop where
  small : n.toNat < 2 ^ 31
  dst : dst.toNat + n.toNat ≤ 2 ^ 32
  src : src.toNat + n.toNat ≤ 2 ^ 32

/-- `dst` lies behind `src` in its range. -/
def Behind (dst src n : UInt32) : Prop := src < dst ∧ dst.toNat < src.toNat + n.toNat

variable {dst src n : UInt32}

/-- The memory after the call is the one `memmove` is to leave, by ranges of addresses. -/
theorem moved_at (ranges : InMemory dst src n) (m : Ram) (a : UInt32) :
    moved dst src n.toNat m a =
      if dst ≤ a ∧ a.toNat < dst.toNat + n.toNat then m (src + (a - dst)) else m a := by
  have := ranges.dst
  have := a.toNat_lt
  refine if_congr ?_ rfl rfl
  rw [UInt32.toNat_sub, UInt32.le_iff_toNat_le]
  omega

/-- Upwards is right unless `dst` lies behind `src` in its range. -/
theorem copyUp_of_not_behind (ranges : InMemory dst src n) (ahead : ¬ Behind dst src n) (m : Ram) :
    copyUp dst src n.toNat m = moved dst src n.toNat m := by
  have := ranges.src
  have := dst.toNat_lt
  refine copyUp_moved dst src n.toNat m n.toNat_lt.le ?_
  rw [UInt32.toNat_sub, ← UInt32.toNat_inj]
  simp only [Behind, UInt32.lt_iff_toNat_lt] at ahead
  omega

/-- The kernel's `memmove` copies in either direction. -/
theorem kernel_moved (ranges : InMemory dst src n) (m : Ram) :
    memmove dst src n m = moved dst src n.toNat m := by
  have := ranges.dst
  have := ranges.src
  have test : src < dst ∧ src + n > dst ↔ Behind dst src n := by
    simp only [Behind, gt_iff_lt, UInt32.lt_iff_toNat_lt, UInt32.toNat_add]
    omega
  unfold memmove
  split
  case isTrue behind =>
    have down := copyDown_moved dst src n.toNat m n.toNat_lt (.inr (by
      have := UInt32.lt_iff_toNat_lt.mp behind.1
      rw [UInt32.toNat_sub]
      omega))
    rwa [UInt32.ofNat_toNat] at down
  case isFalse ahead => exact copyUp_of_not_behind ranges (mt test.mpr ahead) m

/-- Where all bytes are equal, a copy changes nothing. -/
theorem copyUp_const (d s : UInt32) (n : Nat) (value : UInt8) :
    copyUp d s n (fun _ => value) = fun _ => value := by
  induction n generalizing d s with
  | zero => rfl
  | succ n ih =>
    rw [copyUp, update_eq_self]
    exact ih _ _

/-- If `dst` lies behind `src` in its range, upwards the byte at `dst` is lost before it is read. -/
theorem copyUp_of_behind (ranges : InMemory dst src n) (behind : Behind dst src n) :
    ∃ m, copyUp dst src n.toNat m ≠ moved dst src n.toNat m := by
  have := ranges.small
  have := ranges.src
  obtain ⟨less, inside⟩ := behind
  have less := UInt32.lt_iff_toNat_lt.mp less
  have apart : src ≠ dst := fun same => Nat.ne_of_lt less (congrArg UInt32.toNat same)
  let m : Ram := update (fun _ => 0) dst 1
  refine ⟨m, fun same => ?_⟩
  have erased : update m dst (m src) = fun _ => 0 := by
    rw [show m src = 0 from update_of_ne apart 1 _, update_idem, update_eq_self]
  have lost : copyUp dst src n.toNat m = fun _ => 0 := by
    obtain ⟨k, count⟩ := Nat.exists_eq_succ_of_ne_zero (show n.toNat ≠ 0 by omega)
    rw [count, copyUp, erased, copyUp_const]
  have place : dst + (dst - src) - dst = dst - src ∧ src + (dst - src) = dst := by grind
  have within : (dst - src).toNat < n.toNat := by
    rw [UInt32.toNat_sub]
    omega
  have read : moved dst src n.toNat m (dst + (dst - src)) = 1 := by
    rw [moved, place.1, if_pos within, place.2]
    exact update_self dst 1 _
  rw [← same, lost] at read
  exact absurd read (by decide : (0 : UInt8) ≠ 1)

/-- The kernel's `memmove` leaves the bytes that were at `src` at `dst` and changes no other, and
the user library's leaves the same memory, whatever it is, exactly if `dst` does not lie behind
`src` in its range. -/
theorem memmove_agree {dst src n : UInt32} (ranges : InMemory dst src n) :
    (∀ m a, memmove dst src n m a =
      if dst ≤ a ∧ a.toNat < dst.toNat + n.toNat then m (src + (a - dst)) else m a) ∧
    ((∀ m, Ulib.memmove dst src n.toInt32 m = memmove dst src n m) ↔ ¬Behind dst src n) := by
  have count : n.toInt32.toInt = n.toNat :=
    BitVec.toInt_eq_toNat_of_lt (show 2 * n.toNat < 2 ^ 32 by have := ranges.small; omega)
  have user (m : Ram) : Ulib.memmove dst src n.toInt32 m = copyUp dst src n.toNat m := by
    rw [Ulib.memmove, count, Int.toNat_natCast]
  refine ⟨fun m a => by rw [kernel_moved ranges, moved_at ranges], fun same behind => ?_,
    fun ahead m => ?_⟩
  · obtain ⟨m, differ⟩ := copyUp_of_behind ranges behind
    exact differ (by rw [← user, same, kernel_moved ranges])
  · rw [user, kernel_moved ranges, copyUp_of_not_behind ranges ahead]

/-- Six bytes moved down by four. -/
theorem memmove_agree_four :
    InMemory 4 8 6 ∧ Ulib.memmove 4 8 6 UInt32.toUInt8 = memmove 4 8 6 UInt32.toUInt8 :=
  have ranges : InMemory 4 8 6 := ⟨by decide, by decide, by decide⟩
  ⟨ranges, (memmove_agree ranges).2.mpr (fun behind => absurd behind.1 (by decide)) _⟩

/-- Two bytes moved up by one: the user library copies the first one twice. -/
theorem memmove_disagree :
    InMemory 1 0 2 ∧ Ulib.memmove 1 0 2 UInt32.toUInt8 2 = 0 ∧
      memmove 1 0 2 UInt32.toUInt8 2 = 1 :=
  ⟨⟨by decide, by decide, by decide⟩, by decide, by decide⟩

/-! ## Strings in fields -/

/-- The string in a field of `n` bytes: it ends before the first zero, or fills the field. -/
def cstr (n : Nat) (field : List UInt8) : List UInt8 := (field.take n).takeWhile (· ≠ 0)

/-- The string in a field, byte for byte. -/
theorem cstr_succ (field : List UInt8) (n : Nat) : cstr (n + 1) field =
    if field.headD 0 = 0 then [] else field.headD 0 :: cstr n field.tail := by
  cases field with
  | nil => rfl
  | cons b rest => by_cases ends : b = 0 <;> simp [cstr, ends]

/-- Fields compare equal when they hold the same string. -/
theorem strncmpLoop_eq_zero (p q : List UInt8) (n : Nat) :
    strncmpLoop p q n = 0 ↔ cstr n p = cstr n q := by
  induction n generalizing p q with
  | zero => simp [strncmpLoop, cstr]
  | succ n ih =>
    have bytes := @UInt8.toNat_inj (p.headD 0) (q.headD 0)
    rw [strncmpLoop, cstr_succ, cstr_succ]
    grind

/-- `strncmp` compares the strings in two fields. -/
theorem strncmp_eq_zero (p q : List UInt8) (n : Nat) : strncmp p q n = 0 ↔ cstr n p = cstr n q :=
  strncmpLoop_eq_zero p q n

/-- `strncpy` copies the string in a field. -/
theorem cstr_strncpy (t : List UInt8) (n : Nat) : cstr n (strncpy t n) = cstr n t := by
  induction n generalizing t with
  | zero => rfl
  | succ n ih =>
    rw [cstr_succ, cstr_succ, strncpy]
    grind

/-- A string without zeros is cut to the field. -/
theorem cstr_of_string {s : List UInt8} (string : 0 ∉ s) (n : Nat) : cstr n s = s.take n := by
  rw [cstr, List.takeWhile_eq_self_iff]
  intro b member
  have nonzero : b ≠ 0 := fun zero => string (zero ▸ List.mem_of_mem_take member)
  simpa using nonzero

/-- Two strings compare equal when their first bytes agree. -/
theorem strncmp_strncpy (s t : List UInt8) (n : Nat) (string : 0 ∉ s) (string' : 0 ∉ t) :
    strncmp s (strncpy t n) n = 0 ↔ s.take n = t.take n := by
  rw [strncmp_eq_zero, cstr_strncpy, cstr_of_string string, cstr_of_string string']

end Xv6
