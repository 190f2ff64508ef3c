import Xv6.Lib.Writes
import Xv6.Kernel.Param

/-!
# The redo log

`log.c` without its concurrency: the on-disk log header, `commit` and `recover_from_log`, as
functions on a machine that records every single-block disk write it issues. The machine sees
the disk through the buffer cache; `cache` holds what `bread` returns for each block, and
`bwrite` writes through to the disk.
-/

namespace Xv6

open Lib

/-- Placement of the log on disk: `log.start` and `log.size`, both `int`. -/
structure LogRegion where
  /-- Block number of the header block. -/
  start : Nat
  /-- Number of blocks, the header included. -/
  size : Nat
  /-- The header block is part of the region. -/
  header : 0 < size
  /-- Every block number of the region is a non-negative `int`. -/
  fits : start + size ≤ 2 ^ 31

/-- Block `b` belongs to the log region. -/
def LogRegion.Holds (region : LogRegion) (b : Nat) : Prop :=
  region.start ≤ b ∧ b < region.start + region.size

instance (region : LogRegion) (b : Nat) : Decidable (region.Holds b) :=
  inferInstanceAs (Decidable (_ ∧ _))

/-- The value of the signed field `n` of a header as a loop bound: no iteration when negative. -/
def loopBound (n : UInt32) : Nat := if n.toNat < 2 ^ 31 then n.toNat else 0

/-- `n` of the `struct logheader` at the start of a block. -/
def headerCount (header : Block) : Nat := loopBound (header.word 0)

/-- `block[i]` of the `struct logheader` at the start of a block. -/
def headerBlock (header : Block) (i : Nat) : UInt32 := header.word (4 * (i + 1))

/-- The header block `write_head` leaves in the buffer: `n`, the first `n` block numbers, and
the old bytes after them. -/
def putHeader (header : Block) (block : List UInt32) : Block :=
  (header.setWord 0 (UInt32.ofNat block.length)).setWords 4 block

/-- The kernel as the log sees it. -/
structure Machine where
  disk : Disk
  /-- Contents `bread` returns: the cached copy of a block, or the block on disk. -/
  cache : Disk
  /-- `log.lh`: the first `n` entries of `block`, `n` being their number. -/
  lh : List UInt32
  /-- Single-block disk writes issued so far, oldest first. -/
  trace : List (Nat × Block)

namespace Machine

/-- `bread`: the data of block `b`. -/
def bread (m : Machine) (b : Nat) : Block := m.cache b

/-- Fill the buffer of block `b` and `bwrite` it: one disk write. -/
def bwrite (m : Machine) (b : Nat) (data : Block) : Machine :=
  { m with
    disk := Function.update m.disk b data
    cache := Function.update m.cache b data
    trace := m.trace ++ [(b, data)] }

/-- The loop of `install_trans` from `tail` on: copy committed blocks from log to their home
location. -/
def installTransFrom (region : LogRegion) (tail : Nat) : List UInt32 → Machine → Machine
  | [], m => m
  | b :: rest, m =>
    installTransFrom region (tail + 1) rest
      (m.bwrite b.toNat (m.bread (region.start + tail + 1)))

/-- `install_trans`. -/
def installTrans (region : LogRegion) (m : Machine) : Machine :=
  installTransFrom region 0 m.lh m

/-- `read_head`: read the log header from disk into the in-memory log header. -/
def readHead (region : LogRegion) (m : Machine) : Machine :=
  let header := m.bread region.start
  { m with lh := (List.range (headerCount header)).map (headerBlock header) }

/-- `write_head`: write in-memory log header to disk. -/
def writeHead (region : LogRegion) (m : Machine) : Machine :=
  m.bwrite region.start (putHeader (m.bread region.start) m.lh)

/-- The loop of `write_log` from `tail` on: copy modified blocks from cache to log. -/
def writeLogFrom (region : LogRegion) (tail : Nat) : List UInt32 → Machine → Machine
  | [], m => m
  | b :: rest, m =>
    writeLogFrom region (tail + 1) rest
      (m.bwrite (region.start + tail + 1) (m.bread b.toNat))

/-- `write_log`. -/
def writeLog (region : LogRegion) (m : Machine) : Machine :=
  writeLogFrom region 0 m.lh m

/-- `log.lh.n = 0`. -/
def clearHead (m : Machine) : Machine := { m with lh := [] }

/-- `commit`. -/
def commit (region : LogRegion) (m : Machine) : Machine :=
  if 0 < m.lh.length then
    ((((m.writeLog region).writeHead region).installTrans region).clearHead).writeHead region
  else m

/-- `recover_from_log`. -/
def recoverFromLog (region : LogRegion) (m : Machine) : Machine :=
  (((m.readHead region).installTrans region).clearHead).writeHead region

/-- The machine after a reboot: memory lost, every block read from disk. -/
def boot (disk : Disk) : Machine := { disk := disk, cache := disk, lh := [], trace := [] }

end Machine

/-- The disk after a crash that let the first `count` issued writes through. -/
def crashAfter (count : Nat) (disk : Disk) (m : Machine) : Disk :=
  applyWrites (m.trace.take count) disk

/-- Reboot, start recovery, and crash again after `count` of its writes. -/
def recoverPartly (region : LogRegion) (disk : Disk) (count : Nat) : Disk :=
  crashAfter count disk ((Machine.boot disk).recoverFromLog region)

/-- Reboot and recover to the end. -/
def recoverFully (region : LogRegion) (disk : Disk) : Disk :=
  ((Machine.boot disk).recoverFromLog region).disk

end Xv6
