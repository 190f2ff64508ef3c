import Xv6.Lib.Bytes

/-!
# System call arguments

The functions of `syscall.c` that fetch arguments from the memory of the process that made the call.
Addresses are `uint`, and their arithmetic wraps around. A function that returns -1 gives nothing.
-/

namespace Xv6

open Lib

/-- What the functions read of the current process. -/
structure Caller where
  /-- `sz`: size of process memory. -/
  sz : UInt32
  /-- `tf->esp`: the saved user stack pointer. -/
  esp : UInt32
  /-- The bytes that the page directory maps. -/
  mem : UInt32 → UInt8

namespace Caller

/-- `*(int*)addr`. -/
def word (c : Caller) (addr : UInt32) : Int32 :=
  (Bytes.ofDigits (c.mem addr) (c.mem (addr + 1)) (c.mem (addr + 2)) (c.mem (addr + 3))).toInt32

/-- `fetchint`. -/
def fetchint (c : Caller) (addr : UInt32) : Option Int32 :=
  if addr ≥ c.sz ∨ addr + 4 > c.sz then none else some (c.word addr)

/-- The loop of `fetchstr` over `s`. -/
def fetchstrFrom (c : Caller) (pp s : UInt32) : Option Int32 :=
  if s < c.sz then
    if c.mem s = 0 then some (s - pp).toInt32 else fetchstrFrom c pp (s + 1)
  else none
termination_by c.sz.toNat - s.toNat
decreasing_by
  rename_i more _
  have less : s.toNat < c.sz.toNat := UInt32.lt_iff_toNat_lt.mp more
  have bound := c.sz.toNat_lt
  rw [UInt32.toNat_add, show (1 : UInt32).toNat = 1 from rfl]
  omega

/-- `fetchstr`: the pointer and the length of the string, not including the nul. -/
def fetchstr (c : Caller) (addr : UInt32) : Option (UInt32 × Int32) :=
  if addr ≥ c.sz then none else (c.fetchstrFrom addr addr).map fun len => (addr, len)

/-- The address of the nth argument. -/
def argaddr (c : Caller) (n : Int32) : UInt32 := c.esp + 4 + (4 * n).toUInt32

/-- `argint`. -/
def argint (c : Caller) (n : Int32) : Option Int32 := c.fetchint (c.argaddr n)

/-- `argptr`. -/
def argptr (c : Caller) (n size : Int32) : Option UInt32 := do
  let i ← c.argint n
  if size < 0 ∨ i.toUInt32 ≥ c.sz ∨ i.toUInt32 + size.toUInt32 > c.sz then
    none
  else
    return i.toUInt32

/-- `argstr`. -/
def argstr (c : Caller) (n : Int32) : Option (UInt32 × Int32) := do
  let addr ← c.argint n
  c.fetchstr addr.toUInt32

end Caller

end Xv6
