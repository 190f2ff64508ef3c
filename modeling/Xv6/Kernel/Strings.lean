import Mathlib.Logic.Function.Basic

/-!
# `memset`, `memmove` and strings of the kernel

`string.c`. Memory is bytes by 32-bit address, and pointers wrap around as the registers do. For the
functions on strings, a string is the list of its bytes before the zero that ends it.
-/

namespace Xv6

open Function

/-- Memory, by address. -/
abbrev Ram : Type := UInt32 → UInt8

/-- `rep stosb`. -/
def stosb (addr data : UInt32) : Nat → Ram → Ram
  | 0, m => m
  | cnt + 1, m => stosb (addr + 1) data cnt (update m addr data.toUInt8)

/-- Store a little-endian word. -/
def Ram.setWord (m : Ram) (addr data : UInt32) : Ram :=
  update (update (update (update m addr data.toUInt8) (addr + 1) (data >>> 8).toUInt8)
    (addr + 2) (data >>> 16).toUInt8) (addr + 3) (data >>> 24).toUInt8

/-- `rep stosl`. -/
def stosl (addr data : UInt32) : Nat → Ram → Ram
  | 0, m => m
  | cnt + 1, m => stosl (addr + 4) data cnt (m.setWord addr data)

/-- `memset`. -/
def memset (dst : UInt32) (c : Int32) (n : UInt32) (m : Ram) : Ram :=
  if dst.toInt32 % 4 = 0 ∧ n % 4 = 0 then
    let c := c &&& 0xFF
    stosl dst (c <<< 24 ||| c <<< 16 ||| c <<< 8 ||| c).toUInt32 (n / 4).toNat m
  else
    stosb dst c.toUInt32 n.toNat m

/-- `while(n-- > 0) *d++ = *s++`. -/
def copyUp (d s : UInt32) : Nat → Ram → Ram
  | 0, m => m
  | n + 1, m => copyUp (d + 1) (s + 1) n (update m d (m s))

/-- `while(n-- > 0) *--d = *--s`. -/
def copyDown (d s : UInt32) : Nat → Ram → Ram
  | 0, m => m
  | n + 1, m => copyDown (d - 1) (s - 1) n (update m (d - 1) (m (s - 1)))

/-- `memmove`. -/
def memmove (dst src n : UInt32) (m : Ram) : Ram :=
  if src < dst ∧ src + n > dst then copyDown (dst + n) (src + n) n.toNat m
  else copyUp dst src n.toNat m

/-- The loop of `strncmp`, which is the same in `string.c` and in `ulib.c`, and its result. -/
def strncmpLoop (p q : List UInt8) : Nat → Int
  | 0 => 0
  | n + 1 =>
    if p.headD 0 ≠ 0 ∧ p.headD 0 = q.headD 0 then strncmpLoop p.tail q.tail n
    else (p.headD 0).toNat - (q.headD 0).toNat

/-- `strncmp`. -/
def strncmp (p q : List UInt8) (n : Nat) : Int := strncmpLoop p q n

/-- `strncpy`. -/
def strncpy (t : List UInt8) : Nat → List UInt8
  | 0 => []
  | n + 1 =>
    if t.headD 0 = 0 then List.replicate (n + 1) 0
    else t.headD 0 :: strncpy t.tail n

/-- `strncpy` fills its field. -/
theorem strncpy_length (t : List UInt8) (n : Nat) : (strncpy t n).length = n := by
  induction n generalizing t with
  | zero => rfl
  | succ n ih =>
    rw [strncpy]
    split
    · exact List.length_replicate
    · rw [List.length_cons, ih]

end Xv6
