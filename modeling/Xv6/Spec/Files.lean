import Xv6.Kernel.Dir
import Xv6.Spec.Blocks

/-!
# What a file on disk holds

The bytes of a file are found through its inode, a block at a time. A directory holds the bytes of
its entries. A kernel that has read the superblock and has changed nothing sees the disk through an
inode cache whose copies are those on disk.
-/

namespace Xv6

open Lib

/-- Some bytes are the first bytes of the file of an inode. -/
def Dinode.Contains (d : Dinode) (disk : Disk) (bytes : List UInt8) : Prop :=
  ∀ k (inside : k < bytes.length), ∃ place ∈ filePlace (k / bSize),
    d.blockAt disk place ≠ 0 ∧ (disk (d.blockAt disk place)).byte (k % bSize) = bytes[k]

/-- The bytes of the file of an inode. -/
def Dinode.bytes (d : Dinode) (disk : Disk) : List UInt8 :=
  (List.range d.size.toNat).map fun k =>
    (filePlace (k / bSize)).elim 0 fun place => (disk (d.blockAt disk place)).byte (k % bSize)

/-- They are as many as the size says. -/
@[simp]
theorem Dinode.length_bytes (d : Dinode) (disk : Disk) :
    (d.bytes disk).length = d.size.toNat := by
  rw [Dinode.bytes, List.length_map, List.length_range]

/-- The data blocks of a file of `n` bytes. -/
def dataBlocks (n : Nat) : Nat := (n + (bSize - 1)) / bSize

/-- The blocks of a file of `n` bytes, with the indirect block. -/
def fileBlocks (n : Nat) : Nat :=
  dataBlocks n + if nDirect < dataBlocks n then 1 else 0

/-- The bytes of a directory. -/
def dirBytes (entries : List Dirent) : List UInt8 := entries.flatMap Dirent.toBytes

/-- An entry in use has a name. -/
def Dirent.Matches (de : Dirent) (name : List UInt8) : Prop :=
  de.inum ≠ 0 ∧ namecmp name de.name = 0

instance (de : Dirent) (name : List UInt8) : Decidable (de.Matches name) :=
  inferInstanceAs (Decidable (_ ∧ _))

/-- A place of an allocated inode on disk has a block. -/
def Store.Uses (s : Store) (r : Nat × Place) (b : Nat) : Prop :=
  (s.dinode r.1).type ≠ 0 ∧ b ≠ 0 ∧ (s.dinode r.1).blockAt s.disk r.2 = b

/-- The inodes with numbers below `n` have the blocks of their files, each for itself. -/
structure Store.Stocked (s : Store) (n : Nat) : Prop where
  /-- Every block below the size is there. -/
  full : ∀ i, i < n → (s.dinode i).Full s.disk
  /-- No block is there twice. -/
  once : ∀ r r' b, r.1 < n → r'.1 < n → s.Uses r b → s.Uses r' b → r = r'
  /-- The blocks are data blocks. -/
  data : ∀ r b, r.1 < n → s.Uses r b → s.sb.dataStart ≤ b ∧ b < s.sb.size
  marked : ∀ r b, r.1 < n → s.Uses r b → s.mark b = true

/-- The kernel has a disk before it and has changed nothing. -/
structure Fs.Mounted (s : Fs) (image : Disk) : Prop where
  disk : s.disk = image
  /-- The superblock in memory is the one on disk. -/
  sb : s.sb = getSuperblock (image 1)
  /-- The copies in the inode cache are the inodes on disk. -/
  copies : ∀ inum ip, s.Holds inum ip → (s.icache ip).copy = s.dinode inum

/-- `iget` finds an entry for an inode: it is cached, or there is a free entry. -/
def Fs.Room (s : Fs) (inum : Nat) : Prop :=
  ∃ ip, (s.icache ip).ref = 0 ∨ (s.icache ip).inum = inum

end Xv6
