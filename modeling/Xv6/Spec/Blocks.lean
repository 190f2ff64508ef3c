import Xv6.Lib.Ledger
import Xv6.Kernel.Inode

/-!
# What the blocks of the file system are for

The meaning of a disk with its inode cache: which blocks the bitmap marks, what the inodes are, and
which blocks they refer to and from where. A file system is sound when the marks are those of the
metadata and of the references, and no two references meet.
-/

namespace Xv6

open Lib

/-- A superblock whose parts lie in order in the metadata, before the data blocks. -/
structure Superblock.WellFormed (sb : Superblock) : Prop where
  /-- The inode blocks come after the boot block and the superblock. -/
  boot : 2 ≤ sb.inodestart
  /-- The bitmap does not come before them. -/
  order : sb.inodestart ≤ sb.bmapstart
  /-- The bitmap comes after the inode blocks. -/
  inodes : ∀ i, i < sb.ninodes → sb.iblock i < sb.bmapstart
  /-- The data blocks come after the bitmap. -/
  bitmap : ∀ b, b < sb.size → sb.bblock b < sb.size - sb.nblocks
  /-- Block numbers are non-negative and fit an `int`. -/
  fits : sb.size < 2 ^ 31

/-- The first data block. -/
def Superblock.dataStart (sb : Superblock) : Nat := sb.size - sb.nblocks

/-- Where an inode refers to a block. -/
inductive Place where
  /-- `addrs[i]`, a direct block. -/
  | direct (i : Fin nDirect)
  /-- `addrs[NDIRECT]`, the indirect block. -/
  | indirect
  /-- An entry of the indirect block. -/
  | entry (j : Fin nIndirect)
  deriving DecidableEq

/-- The block number at a place of an inode; 0 if there is none. -/
def Dinode.blockAt (d : Dinode) (disk : Disk) : Place → Nat
  | .direct i => (d.addrs i.castSucc).toNat
  | .indirect => (d.addrs (Fin.last nDirect)).toNat
  | .entry j =>
    let indirect := (d.addrs (Fin.last nDirect)).toNat
    if indirect = 0 then 0 else ((disk indirect).word (4 * j)).toNat

namespace Store

/-- The bit of the bitmap for a block. -/
def mark (s : Store) (b : Nat) : Bool := (s.disk (s.sb.bblock b)).bit (b % bpb)

/-- An inode on disk. -/
def dinode (s : Store) (inum : Nat) : Dinode :=
  getDinode (s.disk (s.sb.iblock inum)) (inum % ipb * dinodeSize)

/-- A cache entry in use that has been read. -/
def Holds (s : Store) (inum : Nat) (ip : Fin nInode) : Prop :=
  0 < (s.icache ip).ref ∧ (s.icache ip).valid = true ∧ (s.icache ip).inum = inum

instance (s : Store) (inum : Nat) (ip : Fin nInode) : Decidable (s.Holds inum ip) :=
  inferInstanceAs (Decidable (_ ∧ _))

/-- The inode as the kernel sees it: the copy in memory if there is one. -/
def inode (s : Store) (inum : Nat) : Dinode :=
  match (List.finRange nInode).find? fun ip => s.Holds inum ip with
  | some ip => (s.icache ip).copy
  | none => s.dinode inum

/-- A place of an allocated inode refers to a block. -/
def Refers (s : Store) (r : Nat × Place) (b : Nat) : Prop :=
  r.1 < s.sb.ninodes ∧ (s.inode r.1).type ≠ 0 ∧ b ≠ 0 ∧ (s.inode r.1).blockAt s.disk r.2 = b

/-- The bitmap marks a block of the file system. -/
def Marked (s : Store) (b : Nat) : Prop := b < s.sb.size ∧ s.mark b = true

/-- A metadata block. -/
def Reserved (s : Store) (b : Nat) : Prop := b < s.sb.dataStart

/-- The marks are those of the metadata and of the references, and no two references meet. -/
abbrev Accounted (s : Store) : Prop := Ledger s.Marked s.Reserved s.Refers

end Store

/-- A call of `balloc` returned a zeroed block of the file system that nobody referred to. -/
structure Balloc.Fresh (call : Balloc) : Prop where
  /-- The block is one of the file system. -/
  inside : call.block < call.entry.sb.size
  unreferenced : ∀ r, ¬call.entry.Refers r call.block
  zeroed : call.exit.disk call.block = Bytes.zero

/-- The block of a file at an index, as a place. -/
def filePlace (k : Nat) : Option Place :=
  if direct : k < nDirect then some (.direct ⟨k, direct⟩)
  else if indirect : k - nDirect < nIndirect then some (.entry ⟨k - nDirect, indirect⟩)
  else none

/-- A file has all its blocks up to its size. -/
def Dinode.Full (d : Dinode) (disk : Disk) : Prop :=
  ∀ k, k * bSize < d.size.toNat → ∃ place ∈ filePlace k, d.blockAt disk place ≠ 0

/-- A well-formed image, before any inode is cached. -/
structure Fs.Image (s : Fs) : Prop where
  /-- The parts of the disk are in order. -/
  wellFormed : s.sb.WellFormed
  /-- The superblock in memory is the one on disk. -/
  sb : getSuperblock (s.disk 1) = s.sb
  /-- No inode is cached. -/
  icache : ∀ ip, (s.icache ip).ref = 0
  /-- The marks are accounted for. -/
  accounted : s.Accounted
  /-- Files have their blocks. -/
  full : ∀ inum, inum < s.sb.ninodes → (s.dinode inum).type ≠ 0 → (s.dinode inum).Full s.disk
  /-- Nothing has been allocated. -/
  ballocs : s.ballocs = []

/-- When the last reference to a linked inode is dropped, its list of blocks is the one on disk. -/
def WritesBack (s : Fs) : FsEvent → Prop
  | .iput ip => (s.icache ip).ref = 1 → (s.icache ip).valid = true → (s.icache ip).copy.nlink ≠ 0 →
      (s.dinode (s.icache ip).inum).addrs = (s.icache ip).copy.addrs
  | _ => True

end Xv6
