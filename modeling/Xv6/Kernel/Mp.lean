import Xv6.Lib.Bytes
import Xv6.Kernel.Vm

/-!
# The multiprocessor tables

`mp.c`: the search for the floating pointer structure, the check of the configuration table, and
the loop of `mpinit` over its entries. Memory is read through kernel virtual addresses, and the
tables do not wrap around the address space. What `mpinit` tells the interrupt controllers at its
end is left out.
-/

namespace Xv6.Mp

open Lib

/-- `NCPU`: maximum number of CPUs. -/
def nCpu : Nat := 8

/-- Bytes by kernel virtual address. -/
abbrev Memory : Type := Nat → UInt8

/-- A half word of memory. -/
def half (mem : Memory) (a : Nat) : Nat := (mem a).toNat + 256 * (mem (a + 1)).toNat

/-- A word of memory. -/
def word (mem : Memory) (a : Nat) : UInt32 :=
  Bytes.ofDigits (mem a) (mem (a + 1)) (mem (a + 2)) (mem (a + 3))

/-- The bytes from an address on. -/
def bytes (mem : Memory) (a n : Nat) : List UInt8 := (List.range n).map fun i => mem (a + i)

/-- `sum`. -/
def sum (mem : Memory) (addr len : Nat) : UInt8 := (bytes mem addr len).foldl (· + ·) 0

/-- `sizeof(struct mp)`. -/
def mpSize : Nat := 16

/-- `mpsearch1`: look for an MP structure in the `len` bytes at `a`. -/
def mpsearch1 (mem : Memory) (a len : Nat) : Option Nat :=
  ((List.range ((len + mpSize - 1) / mpSize)).map fun i => p2v a + mpSize * i).find? fun p =>
    -- "_MP_"
    bytes mem p 4 = [95, 77, 80, 95] ∧ sum mem p mpSize = 0

/-- `mpsearch`: the places where the MP floating pointer structure may be. -/
def mpsearch (mem : Memory) : Option Nat :=
  let bda := p2v 0x400
  let ebda := half mem (bda + 0x0E) * 16
  if ebda ≠ 0 then
    mpsearch1 mem ebda 1024 <|> mpsearch1 mem 0xF0000 0x10000
  else
    let p := half mem (bda + 0x13) * 1024
    mpsearch1 mem (uint (p + 2 ^ 32 - 1024)) 1024 <|> mpsearch1 mem 0xF0000 0x10000

/-- `sizeof(struct mpconf)`. -/
def mpconfSize : Nat := 44

/-- `conf->length`. -/
def confLength (mem : Memory) (conf : Nat) : Nat := half mem (conf + 4)

/-- `mpconfig`: the configuration table. -/
def mpconfig (mem : Memory) : Option Nat :=
  match mpsearch mem with
  | none => none
  | some mp =>
    let physaddr := (word mem (mp + 4)).toNat
    let conf := p2v physaddr
    if physaddr = 0 then none
    -- "PCMP"
    else if bytes mem conf 4 ≠ [80, 67, 77, 80] then none
    else if mem (conf + 6) ≠ 1 ∧ mem (conf + 6) ≠ 4 then none
    else if sum mem conf (confLength mem conf) ≠ 0 then none
    else some conf

/-- The types of the entries. -/
inductive Entry where
  /-- `MPPROC`: one per processor. -/
  | mpproc
  /-- `MPBUS`: one per bus. -/
  | mpbus
  /-- `MPIOAPIC`: one per I/O APIC. -/
  | mpioapic
  /-- `MPIOINTR`: one per bus interrupt source. -/
  | mpiointr
  /-- `MPLINTR`: one per system interrupt source. -/
  | mplintr
  deriving DecidableEq

/-- The type that the first byte of an entry says. -/
def Entry.ofByte (b : UInt8) : Option Entry :=
  if b = 0 then some .mpproc
  else if b = 1 then some .mpbus
  else if b = 2 then some .mpioapic
  else if b = 3 then some .mpiointr
  else if b = 4 then some .mplintr
  else none

/-- The variables of the loop of `mpinit`. -/
structure Scan where
  /-- Where the next entry is. -/
  p : Nat
  /-- No strange entry has been seen. -/
  ismp : Bool
  ncpu : Nat
  apicid : Nat → UInt8
  ioapicid : UInt8
  lapic : UInt32

/-- The body of the loop. -/
def Scan.body (mem : Memory) (s : Scan) : Scan :=
  match Entry.ofByte (mem s.p) with
  | some .mpproc =>
    if s.ncpu < nCpu then
      { s with
        apicid := Function.update s.apicid s.ncpu (mem (s.p + 1))
        ncpu := s.ncpu + 1
        p := s.p + 20 }
    else { s with p := s.p + 20 }
  | some .mpioapic => { s with ioapicid := mem (s.p + 1), p := s.p + 8 }
  | some .mpbus | some .mpiointr | some .mplintr => { s with p := s.p + 8 }
  -- The `break` leaves the switch, not the loop.
  | none => { s with ismp := false }

/-- The loop up to the address `e`, if it ends within some iterations. -/
def Scan.loop (mem : Memory) (e : Nat) : Nat → Scan → Option Scan
  | 0, s => if s.p < e then none else some s
  | n + 1, s => if s.p < e then Scan.loop mem e n (s.body mem) else some s

/-- The loop begins behind the header, with the globals zero. -/
def Scan.start (mem : Memory) (conf : Nat) : Scan where
  p := conf + mpconfSize
  ismp := true
  ncpu := 0
  apicid := fun _ => 0
  ioapicid := 0
  -- `conf->lapicaddr`
  lapic := word mem (conf + 36)

/-- `mpinit`, if its loop ends within some iterations: the panic, or the variables it has set. -/
def mpinit (mem : Memory) (iterations : Nat) : Option (Except String Scan) :=
  match mpconfig mem with
  | none => some (.error "Expect to run on an SMP")
  | some conf =>
    (Scan.loop mem (conf + confLength mem conf) iterations (Scan.start mem conf)).map fun s =>
      if s.ismp = false then .error "Didn't find a suitable machine" else .ok s

end Xv6.Mp
