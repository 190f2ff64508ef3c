import Mathlib.Data.List.FinRange
import Xv6.Lib.Transition
import Xv6.Kernel.Param

/-!
# Blocks and inodes

The lower layers of `fs.c`, on one device: the bitmap of free blocks, the inodes on disk and in the
inode cache, and the contents of files. Blocks are read and written through the buffer cache inside
a transaction, so a block has one content and `log_write` changes it. The operations run one after
another, so the locks are left out. A panic stops the run. Each call of `balloc` is put on record
for the specification; the code does not see the record.
-/

namespace Xv6

open Lib Function

/-- `NDIRECT`: direct blocks of an inode. -/
def nDirect : Nat := 12

/-- `NINDIRECT`: block numbers in an indirect block. -/
def nIndirect : Nat := bSize / 4

/-- `MAXFILE`: blocks of the largest file. -/
def maxFile : Nat := nDirect + nIndirect

/-- `sizeof(struct dinode)`. -/
def dinodeSize : Nat := 64

/-- `IPB`: inodes per block. -/
def ipb : Nat := bSize / dinodeSize

/-- `BPB`: bitmap bits per block. -/
def bpb : Nat := bSize * 8

/-- `NINODE`: maximum number of active i-nodes. -/
def nInode : Nat := 50

/-- There are entries. -/
theorem nInode_pos : 0 < nInode := by decide

/-- `NDEV`: maximum major device number. -/
def nDev : Nat := 10

/-- `T_DEV`: the type of a device. -/
def tDev : UInt16 := 3

/-- `struct superblock`. -/
structure Superblock where
  /-- Size of file system image (blocks). -/
  size : Nat
  /-- Number of data blocks. -/
  nblocks : Nat
  ninodes : Nat
  /-- Number of log blocks. -/
  nlog : Nat
  /-- Block number of first log block. -/
  logstart : Nat
  /-- Block number of first inode block. -/
  inodestart : Nat
  /-- Block number of first free map block. -/
  bmapstart : Nat
  deriving DecidableEq

/-- The superblock in the data of a block. -/
def getSuperblock (data : Block) : Superblock where
  size := (data.word 0).toNat
  nblocks := (data.word 4).toNat
  ninodes := (data.word 8).toNat
  nlog := (data.word 12).toNat
  logstart := (data.word 16).toNat
  inodestart := (data.word 20).toNat
  bmapstart := (data.word 24).toNat

/-- `IBLOCK`: block containing inode `i`. -/
def Superblock.iblock (sb : Superblock) (i : Nat) : Nat := i / ipb + sb.inodestart

/-- `BBLOCK`: block of free map containing bit for block `b`. -/
def Superblock.bblock (sb : Superblock) (b : Nat) : Nat := b / bpb + sb.bmapstart

/-- `struct dinode`. -/
structure Dinode where
  /-- File type; 0 if the inode is free. -/
  type : UInt16
  /-- Major device number (`T_DEV` only). -/
  major : UInt16
  /-- Minor device number (`T_DEV` only). -/
  minor : UInt16
  /-- Number of links to inode in file system. -/
  nlink : UInt16
  /-- Size of file (bytes). -/
  size : UInt32
  /-- Data block addresses. -/
  addrs : Fin (nDirect + 1) → UInt32

/-- `memset` of a `struct dinode` to zero. -/
def Dinode.zero : Dinode := ⟨0, 0, 0, 0, 0, fun _ => 0⟩

/-- The `struct dinode` at an offset of a block. -/
def getDinode (data : Block) (offset : Nat) : Dinode where
  type := data.half offset
  major := data.half (offset + 2)
  minor := data.half (offset + 4)
  nlink := data.half (offset + 6)
  size := data.word (offset + 8)
  addrs := fun i => data.word (offset + 12 + 4 * i)

/-- Store a `struct dinode` at an offset of a block. -/
def putDinode (data : Block) (offset : Nat) (d : Dinode) : Block :=
  let data := data.setHalf offset d.type
  let data := data.setHalf (offset + 2) d.major
  let data := data.setHalf (offset + 4) d.minor
  let data := data.setHalf (offset + 6) d.nlink
  let data := data.setWord (offset + 8) d.size
  data.setWords (offset + 12) (List.ofFn d.addrs)

/-- `struct inode`: in-memory copy of an inode. -/
structure Inode where
  inum : Nat
  ref : Nat
  /-- Inode has been read from disk? -/
  valid : Bool
  copy : Dinode

/-- The disk and the inode cache. -/
structure Store where
  disk : Disk
  /-- The superblock, in memory. -/
  sb : Superblock
  icache : Fin nInode → Inode

/-- The record of a call of `balloc`. -/
structure Balloc where
  block : Nat
  /-- The file system when it was called. -/
  entry : Store
  /-- The file system when it returned. -/
  exit : Store

/-- The file system with its calls of `balloc`. -/
structure Fs extends Store where
  /-- The calls of `balloc` so far, latest first. -/
  ballocs : List Balloc

/-- A computation of the file system, which may panic. -/
abbrev FsM : Type → Type := StateT Fs (Except String)

/-- `bread`. -/
def bread (b : Nat) : FsM Block := do
  return (← get).disk b

/-- Fill the buffer of block `b` and `log_write` it. -/
def logWrite (b : Nat) (data : Block) : FsM Unit :=
  modify fun s => { s with disk := update s.disk b data }

/-- Change an entry of the inode cache. -/
def setInode (ip : Fin nInode) (change : Inode → Inode) : FsM Unit :=
  modify fun s => { s with icache := update s.icache ip (change (s.icache ip)) }

/-! ## Blocks -/

/-- `readsb`. -/
def readsb : FsM Unit := do
  let bp ← bread 1
  modify fun s => { s with sb := getSuperblock bp }

/-- `bzero`: zero a block. -/
def bzero (b : Nat) : FsM Unit :=
  logWrite b Bytes.zero

/-- The outer loop of `balloc` from block `b` on. -/
def ballocFrom (size b : Nat) : FsM Nat :=
  if b < size then do
    let sb := (← get).sb
    let bp ← bread (sb.bblock b)
    match (List.range (min bpb (size - b))).find? fun bi => bp.bit bi = false with
    | some bi =>
      -- Mark block in use.
      logWrite (sb.bblock b) (bp.setBit bi)
      bzero (b + bi)
      return b + bi
    | none => ballocFrom size (b + bpb)
  else throw "balloc: out of blocks"
termination_by size - b
decreasing_by
  have : 0 < bpb := by decide
  omega

/-- `balloc`: allocate a zeroed disk block. -/
def balloc : FsM Nat := do
  let entry ← get
  let b ← ballocFrom entry.sb.size 0
  modify fun s => { s with ballocs := ⟨b, entry.toStore, s.toStore⟩ :: s.ballocs }
  return b

/-- `bfree`: free a disk block. -/
def bfree (b : Nat) : FsM Unit := do
  readsb
  let sb := (← get).sb
  let bp ← bread (sb.bblock b)
  if bp.bit (b % bpb) = false then throw "freeing free block"
  logWrite (sb.bblock b) (bp.clearBit (b % bpb))

/-! ## Inodes -/

/-- `iupdate`: copy a modified in-memory inode to disk. -/
def iupdate (ip : Fin nInode) : FsM Unit := do
  let s ← get
  let inode := s.icache ip
  let bp ← bread (s.sb.iblock inode.inum)
  logWrite (s.sb.iblock inode.inum) (putDinode bp (inode.inum % ipb * dinodeSize) inode.copy)

/-- `iget`: find the inode with number `inum` and return the in-memory copy. -/
def iget (inum : Nat) : FsM (Fin nInode) := do
  let s ← get
  match (List.finRange nInode).find? fun ip =>
      (s.icache ip).ref > 0 ∧ (s.icache ip).inum = inum with
  | some ip =>
    setInode ip fun inode => { inode with ref := inode.ref + 1 }
    return ip
  | none =>
    -- Recycle an inode cache entry.
    match (List.finRange nInode).find? fun ip => (s.icache ip).ref = 0 with
    | none => throw "iget: no inodes"
    | some ip =>
      setInode ip fun inode => { inode with inum := inum, ref := 1, valid := false }
      return ip

/-- The loop of `ialloc` over the inode numbers. -/
def iallocFrom (type : UInt16) : List Nat → FsM (Fin nInode)
  | [] => throw "ialloc: no inodes"
  | inum :: rest => do
    let sb := (← get).sb
    let bp ← bread (sb.iblock inum)
    if (getDinode bp (inum % ipb * dinodeSize)).type = 0 then
      logWrite (sb.iblock inum)
        (putDinode bp (inum % ipb * dinodeSize) { Dinode.zero with type := type })
      iget inum
    else
      iallocFrom type rest

/-- `ialloc`: allocate an inode and give it a type. -/
def ialloc (type : UInt16) : FsM (Fin nInode) := do
  iallocFrom type ((List.range (← get).sb.ninodes).drop 1)

/-- `idup`: increment reference count. -/
def idup (ip : Fin nInode) : FsM Unit :=
  setInode ip fun inode => { inode with ref := inode.ref + 1 }

/-- `ilock`, which reads the inode from disk if necessary. -/
def ilock (ip : Fin nInode) : FsM Unit := do
  let s ← get
  let inode := s.icache ip
  if inode.ref < 1 then throw "ilock"
  if inode.valid = false then
    let bp ← bread (s.sb.iblock inode.inum)
    let d := getDinode bp (inode.inum % ipb * dinodeSize)
    setInode ip fun inode => { inode with copy := d, valid := true }
    if d.type = 0 then throw "ilock: no type"

/-- Change the copy of an inode in memory. -/
def setCopy (ip : Fin nInode) (change : Dinode → Dinode) : FsM Unit :=
  setInode ip fun inode => { inode with copy := change inode.copy }

/-- Store an entry of `addrs` in memory. -/
def setAddr (ip : Fin nInode) (i : Fin (nDirect + 1)) (addr : Nat) : FsM Unit :=
  setCopy ip fun d => { d with addrs := update d.addrs i (UInt32.ofNat addr) }

/-- `ip->addrs[i]`. -/
def getAddr (ip : Fin nInode) (i : Fin (nDirect + 1)) : FsM Nat := do
  return (((← get).icache ip).copy.addrs i).toNat

/-- The first step of both cases of `bmap`: the block in `ip->addrs[i]`, allocated if necessary. -/
def bmapAddr (ip : Fin nInode) (i : Fin (nDirect + 1)) : FsM Nat := do
  let addr ← getAddr ip i
  if addr = 0 then
    let addr ← balloc
    setAddr ip i addr
    return addr
  else
    return addr

/-- `bmap`: the disk block address of the `bn`th block of an inode. -/
def bmap (ip : Fin nInode) (bn : Nat) : FsM Nat := do
  if direct : bn < nDirect then
    bmapAddr ip ⟨bn, Nat.lt_succ_of_lt direct⟩
  else
    let bn := bn - nDirect
    if bn < nIndirect then
      -- Load indirect block, allocating if necessary.
      let indirect ← bmapAddr ip (Fin.last nDirect)
      let bp ← bread indirect
      let addr := (bp.word (4 * bn)).toNat
      if addr = 0 then
        let addr ← balloc
        logWrite indirect (bp.setWord (4 * bn) (UInt32.ofNat addr))
        return addr
      else
        return addr
    else
      throw "bmap: out of range"

/-- The first loop of `itrunc`: the direct blocks. -/
def itruncDirect (ip : Fin nInode) : List (Fin nDirect) → FsM Unit
  | [] => pure ()
  | i :: rest => do
    let addr ← getAddr ip i.castSucc
    if addr ≠ 0 then
      bfree addr
      setAddr ip i.castSucc 0
    itruncDirect ip rest

/-- The second loop of `itrunc`: the blocks of an indirect block. -/
def itruncIndirect (bp : Block) : List (Fin nIndirect) → FsM Unit
  | [] => pure ()
  | j :: rest => do
    let addr := (bp.word (4 * j)).toNat
    if addr ≠ 0 then bfree addr
    itruncIndirect bp rest

/-- `itrunc`: discard contents. -/
def itrunc (ip : Fin nInode) : FsM Unit := do
  itruncDirect ip (List.finRange nDirect)
  let indirect ← getAddr ip (Fin.last nDirect)
  if indirect ≠ 0 then
    let bp ← bread indirect
    itruncIndirect bp (List.finRange nIndirect)
    bfree indirect
    setAddr ip (Fin.last nDirect) 0
  setCopy ip fun d => { d with size := 0 }
  iupdate ip

/-- `iput`: drop a reference to an in-memory inode. -/
def iput (ip : Fin nInode) : FsM Unit := do
  let inode := (← get).icache ip
  if inode.valid ∧ inode.copy.nlink = 0 then
    if inode.ref = 1 then
      -- inode has no links and no other references: truncate and free.
      itrunc ip
      setCopy ip fun d => { d with type := 0 }
      iupdate ip
      setInode ip fun inode => { inode with valid := false }
  setInode ip fun inode => { inode with ref := inode.ref - 1 }

/-- The loop of `writei`: the offset after the last byte. -/
def writeiFrom (ip : Fin nInode) (src : Nat → UInt8) (n off tot : Nat) : FsM Nat :=
  if tot < n then do
    let addr ← bmap ip (off / bSize)
    let bp ← bread addr
    let m := min (n - tot) (bSize - off % bSize)
    logWrite addr (bp.setRange (off % bSize) m fun k => src (tot + k))
    writeiFrom ip src n (off + m) (tot + m)
  else return off
termination_by n - tot
decreasing_by
  have : off % bSize < bSize := Nat.mod_lt _ (by decide)
  omega

/-- `writei`: the number of bytes, or nothing on error. The write functions of the devices are
given; they do not touch the disk. -/
def writei (devsw : Nat → Option (Nat → Option Nat)) (ip : Fin nInode) (src : Nat → UInt8)
    (off n : UInt32) : FsM (Option Nat) := do
  let d := ((← get).icache ip).copy
  if d.type = tDev then
    if d.major.toNat ≥ nDev then
      return none
    match devsw d.major.toNat with
    | none => return none
    | some write => return write n.toNat
  else if off > d.size ∨ off + n < off then
    return none
  else if (off + n).toNat > maxFile * bSize then
    return none
  else
    let off ← writeiFrom ip src n.toNat off.toNat 0
    if n > 0 ∧ off > d.size.toNat then
      setCopy ip fun d => { d with size := UInt32.ofNat off }
      iupdate ip
    return some n.toNat

/-! ## Runs -/

/-- The operations. An operation on an inode is by a caller with a reference to it. -/
inductive FsEvent where
  | iget (inum : Nat)
  | ialloc (type : UInt16)
  | idup (ip : Fin nInode)
  | iput (ip : Fin nInode)
  | bmap (ip : Fin nInode) (bn : Nat)
  | itrunc (ip : Fin nInode)
  | writei (devsw : Nat → Option (Nat → Option Nat)) (ip : Fin nInode) (src : Nat → UInt8)
      (off n : UInt32)
  /-- A change of the number of links, with `iupdate`. -/
  | link (ip : Fin nInode) (nlink : UInt16)
  | iupdate (ip : Fin nInode)

/-- The caller has a reference. -/
def referenced (ip : Fin nInode) : FsM Unit := do
  if ((← get).icache ip).ref = 0 then throw "no reference"

/-- An operation as a computation. What reads or changes an inode is between `ilock` and
`iunlock`. -/
def FsEvent.run : FsEvent → FsM Unit
  | .iget inum => do
    if inum ≥ (← get).sb.ninodes then throw "no such inode"
    let _ ← Xv6.iget inum
  | .ialloc type => do
    if type = 0 then throw "no type"
    let _ ← Xv6.ialloc type
  | .idup ip => do
    referenced ip
    Xv6.idup ip
  | .iput ip => do
    referenced ip
    Xv6.iput ip
  | .bmap ip bn => do
    ilock ip
    let _ ← Xv6.bmap ip bn
  | .itrunc ip => do
    ilock ip
    Xv6.itrunc ip
  | .writei devsw ip src off n => do
    ilock ip
    let _ ← Xv6.writei devsw ip src off n
  | .link ip nlink => do
    ilock ip
    setCopy ip fun d => { d with nlink := nlink }
    Xv6.iupdate ip
  | .iupdate ip => do
    ilock ip
    Xv6.iupdate ip

/-- The step relation: an operation that completes. -/
def Fs.step (s : Fs) (event : FsEvent) : Option Fs :=
  match event.run s with
  | .ok (_, t) => some t
  | .error _ => none

end Xv6
