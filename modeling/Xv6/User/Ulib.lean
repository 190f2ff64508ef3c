import Xv6.Kernel.Cprintf
import Xv6.Kernel.Strings

/-!
# The user library

`memmove` and `atoi` of `ulib.c`, and `printint` of `printf.c`. A string is the list of its
characters up to the terminator.
-/

namespace Xv6.Ulib

/-- `memmove`. -/
def memmove (vdst vsrc : UInt32) (n : Int32) (m : Ram) : Ram :=
  copyUp vdst vsrc n.toInt.toNat m

/-- `buf` of `printint`, as far as it is filled. -/
def printBuf (xx : Int32) (base : Nat) (wide : 1 < base) (sgn : Bool) : List Char :=
  fillBuf "0123456789ABCDEF".toList xx base wide sgn

/-- `printint`. -/
def printint (xx : Int32) (base : Nat) (wide : 1 < base) (sgn : Bool) : List Char :=
  (printBuf xx base wide sgn).reverse

/-- The loop of `atoi`. -/
def atoiFrom (n : Int32) : List Char → Int32
  | [] => n
  | c :: s =>
    if '0' ≤ c ∧ c ≤ '9' then atoiFrom (n * 10 + .ofNat c.toNat - .ofNat '0'.toNat) s else n

/-- `atoi`. -/
def atoi (s : List Char) : Int32 :=
  let s := s.dropWhile (· = ' ')
  let sign := if s.head? = some '-' then -1 else 1
  let s := if s.head? = some '+' ∨ s.head? = some '-' then s.tail else s
  sign * atoiFrom 0 s

end Xv6.Ulib
