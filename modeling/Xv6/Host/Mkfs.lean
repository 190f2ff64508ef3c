import Xv6.Kernel.Dir

/-!
# The program that makes the disk

`mkfs.c`, which runs on the host and writes the image of the file system: a superblock, the inodes,
a bitmap, a root directory and the files given on the command line. The image is a file of sectors.
An assertion that fails stops the program. The host's integers are little-endian, as the image's
are, so `xshort` and `xint` change nothing. The calls of the host succeed.
-/

namespace Xv6.Mkfs

open Lib

/-- `NINODES`. -/
def nInodes : Nat := 200

/-- `nbitmap`. -/
def nbitmap : Nat := fsSize / (bSize * 8) + 1

/-- `ninodeblocks`. -/
def ninodeblocks : Nat := nInodes / ipb + 1

/-- `nlog`. -/
def nlog : Nat := logSize

/-- `nmeta`: number of meta blocks (boot, sb, nlog, inode, bitmap). -/
def nmeta : Nat := 2 + nlog + ninodeblocks + nbitmap

/-- `nblocks`: number of data blocks. -/
def nblocks : Nat := fsSize - nmeta

/-- `sb`. -/
def sb : Superblock where
  size := fsSize
  nblocks := nblocks
  ninodes := nInodes
  nlog := nlog
  logstart := 2
  inodestart := 2 + nlog
  bmapstart := 2 + nlog + ninodeblocks

/-- Store a `struct superblock` at the start of a buffer. -/
def putSuperblock (data : Block) (sb : Superblock) : Block :=
  data.setWords 0
    ([sb.size, sb.nblocks, sb.ninodes, sb.nlog, sb.logstart, sb.inodestart, sb.bmapstart].map
      UInt32.ofNat)

/-- The image and what is free in it. -/
structure State where
  /-- Sectors of the image file. -/
  sectors : Nat
  disk : Disk
  /-- `freeinode`: the next inode. -/
  freeinode : Nat
  /-- `freeblock`: the next block. -/
  freeblock : Nat

/-- A computation of the program, which may stop. -/
abbrev MkfsM : Type → Type := StateT State (Except String)

/-- `wsect`. -/
def wsect (sec : Nat) (buf : Block) : MkfsM Unit :=
  modify fun s =>
    { s with sectors := max s.sectors (sec + 1), disk := Function.update s.disk sec buf }

/-- `rsect`. -/
def rsect (sec : Nat) : MkfsM Block := do
  let s ← get
  if sec < s.sectors then
    return s.disk sec
  else
    throw "read"

/-- `winode`. -/
def winode (inum : Nat) (ip : Dinode) : MkfsM Unit := do
  let bn := sb.iblock inum
  let buf ← rsect bn
  wsect bn (putDinode buf (inum % ipb * dinodeSize) ip)

/-- `rinode`. -/
def rinode (inum : Nat) : MkfsM Dinode := do
  let buf ← rsect (sb.iblock inum)
  return getDinode buf (inum % ipb * dinodeSize)

/-- `freeinode++`. -/
def takeInode : MkfsM Nat :=
  modifyGet fun s => (s.freeinode, { s with freeinode := s.freeinode + 1 })

/-- `freeblock++`. -/
def takeBlock : MkfsM Nat :=
  modifyGet fun s => (s.freeblock, { s with freeblock := s.freeblock + 1 })

/-- The inode that `ialloc` writes. -/
def newInode (type : UInt16) : Dinode := { Dinode.zero with type := type, nlink := 1, size := 0 }

/-- `ialloc`. -/
def ialloc (type : UInt16) : MkfsM Nat := do
  let inum ← takeInode
  winode inum (newInode type)
  return inum

/-- `balloc`: write the bitmap. -/
def balloc (used : Nat) : MkfsM Unit := do
  if ¬used < bSize * 8 then throw "used < BSIZE*8"
  wsect sb.bmapstart ((List.range used).foldl Bytes.setBit Bytes.zero)

/-- `din.addrs[i]`, allocated if it is 0. -/
def iappendAddr (din : Dinode) (i : Fin (nDirect + 1)) : MkfsM Dinode := do
  if din.addrs i = 0 then
    let b ← takeBlock
    return { din with addrs := Function.update din.addrs i (UInt32.ofNat b) }
  else
    return din

/-- The block number at an entry of the indirect block `x`, allocated if it is 0. -/
def iappendEntry (x j : Nat) : MkfsM Nat := do
  let indirect ← rsect x
  if indirect.word (4 * j) = 0 then
    let b ← takeBlock
    let indirect := indirect.setWord (4 * j) (UInt32.ofNat b)
    wsect x indirect
    return (indirect.word (4 * j)).toNat
  else
    return (indirect.word (4 * j)).toNat

/-- The first part of the loop of `iappend`: the block of the file at `fbn`, with the inode. -/
def iappendBlock (din : Dinode) (fbn : Nat) : MkfsM (Dinode × Nat) := do
  if direct : fbn < nDirect then
    let i : Fin (nDirect + 1) := ⟨fbn, Nat.lt_succ_of_lt direct⟩
    let din ← iappendAddr din i
    return (din, (din.addrs i).toNat)
  else
    let din ← iappendAddr din (Fin.last nDirect)
    let x ← iappendEntry (din.addrs (Fin.last nDirect)).toNat (fbn - nDirect)
    return (din, x)

/-- The loop of `iappend` from an offset on: the inode and the offset after the last byte. -/
def iappendFrom (din : Dinode) (off : Nat) (p : List UInt8) : MkfsM (Dinode × Nat) :=
  if 0 < p.length then do
    let fbn := off / bSize
    if ¬fbn < maxFile then throw "fbn < MAXFILE"
    let (din, x) ← iappendBlock din fbn
    let n1 := min p.length ((fbn + 1) * bSize - off)
    let buf ← rsect x
    wsect x (buf.setRange (off - fbn * bSize) n1 fun k => p.getD k 0)
    iappendFrom din (off + n1) (p.drop n1)
  else return (din, off)
termination_by p.length
decreasing_by
  have below := Nat.lt_div_mul_add (a := off) (show 0 < bSize by decide)
  rw [List.length_drop, Nat.succ_mul]
  omega

/-- `iappend`. -/
def iappend (inum : Nat) (xp : List UInt8) : MkfsM Unit := do
  let din ← rinode inum
  let (din, off) ← iappendFrom din din.size.toNat xp
  winode inum { din with size := UInt32.ofNat off }

/-- The code of a character of ASCII. -/
def ascii (c : Char) : UInt8 := UInt8.ofNat c.toNat

/-- The entry of a directory that `bzero` and `strncpy` make. -/
def dirent (inum : Nat) (name : List UInt8) : Dirent where
  inum := UInt16.ofNat inum
  name := strncpy name dirSiz
  length := strncpy_length name dirSiz

/-- A file given on the command line. -/
structure HostFile where
  name : List UInt8
  /-- What the calls of `read` return, up to the end of the file. -/
  reads : List (List UInt8)
  /-- A string has no zero byte. -/
  string : 0 ∉ name
  /-- A call of `read` returns some bytes, as many as it was asked for at most. -/
  pieces : ∀ piece ∈ reads, 0 < piece.length ∧ piece.length ≤ bSize

/-- The bytes of the file. -/
def HostFile.bytes (file : HostFile) : List UInt8 := file.reads.flatten

/-- Skip leading `_` in name when writing to file system. -/
def skipUnderscore (name : List UInt8) : List UInt8 :=
  if name.head? = some (ascii '_') then name.tail else name

/-- The body of the loop over the files. -/
def addFile (rootino : Nat) (file : HostFile) : MkfsM Unit := do
  if ascii '/' ∈ file.name then throw "index(argv[i], '/') == 0"
  let inum ← ialloc tFile
  iappend rootino (dirent inum (skipUnderscore file.name)).toBytes
  file.reads.forM (iappend inum)

/-- `main`, with the image file empty. -/
def main (files : List HostFile) : MkfsM Unit := do
  modify fun s => { s with freeblock := nmeta }
  (List.range fsSize).forM fun i => wsect i Bytes.zero
  wsect 1 (putSuperblock Bytes.zero sb)
  let rootino ← ialloc tDir
  if rootino ≠ rootIno then throw "rootino == ROOTINO"
  iappend rootino (dirent rootino [ascii '.']).toBytes
  iappend rootino (dirent rootino [ascii '.', ascii '.']).toBytes
  files.forM (addFile rootino)
  -- Fix size of root inode dir.
  let din ← rinode rootino
  let off := din.size.toNat
  let off := (off / bSize + 1) * bSize
  winode rootino { din with size := UInt32.ofNat off }
  balloc (← get).freeblock

/-- The program at its start, with the image truncated. -/
def start : State where
  sectors := 0
  disk := fun _ => Bytes.zero
  freeinode := 1
  freeblock := 0

end Xv6.Mkfs
