import Mathlib.Data.Fintype.Sum
import Xv6.Spec.Files

/-!
# A file is an array of bytes

What the functions that read and write files are for. The blocks of the files of a disk are marked
data blocks, each for itself; marks without a use are allowed. The array of a file is its bytes, a
write replaces some of them or goes on behind the last one, and takes a free block for each block
that the file does not have yet.
-/

namespace Xv6

open Lib

/-- The places of an inode are finitely many. -/
instance : Fintype Place :=
  Fintype.ofEquiv (Fin nDirect ⊕ Unit ⊕ Fin nIndirect)
    { toFun := fun
        | .inl i => .direct i
        | .inr (.inl _) => .indirect
        | .inr (.inr j) => .entry j
      invFun := fun
        | .direct i => .inl i
        | .indirect => .inr (.inl ())
        | .entry j => .inr (.inr j)
      left_inv := by rintro (_ | _ | _) <;> rfl
      right_inv := by rintro (_ | _ | _) <;> rfl }

/-- A place that a file of `n` blocks uses. -/
def Place.Below (n : Nat) : Place → Prop
  | .direct i => i < n
  | .indirect => nDirect < n
  | .entry j => nDirect + j < n

instance (n : Nat) (place : Place) : Decidable (place.Below n) := by
  cases place <;> unfold Place.Below <;> infer_instance

/-- How many blocks a file lacks of its first `n`, with the indirect block. -/
def Dinode.missing (d : Dinode) (disk : Disk) (n : Nat) : Nat :=
  (Finset.univ.filter fun place : Place => place.Below n ∧ d.blockAt disk place = 0).card

/-- How many blocks are free. -/
def Store.freeBlocks (s : Store) : Nat :=
  ((Finset.range s.sb.size).filter fun b => s.mark b = false).card

/-- The bytes from an offset on are replaced, and the array goes on behind its end if it must. -/
def overwrite (old : List UInt8) (off : Nat) (data : List UInt8) : List UInt8 :=
  old.take off ++ data ++ old.drop (off + data.length)

/-- The parts of the file system are in order, and the blocks of its files are marked data blocks,
each for itself. -/
structure Store.Laid (s : Store) : Prop where
  /-- The parts of the disk are in order. -/
  wellFormed : s.sb.WellFormed
  /-- The superblock in memory is the one on disk. -/
  sb : getSuperblock (s.disk 1) = s.sb
  /-- No two entries of the inode cache are for one inode. -/
  unique : ∀ ip jp, 0 < (s.icache ip).ref → 0 < (s.icache jp).ref →
    (s.icache ip).inum = (s.icache jp).inum → ip = jp
  /-- The entries are for inodes of the file system. -/
  numbered : ∀ ip, 0 < (s.icache ip).ref → (s.icache ip).inum < s.sb.ninodes
  /-- The inodes that are cached and read are allocated. -/
  typed : ∀ inum ip, s.Holds inum ip → (s.icache ip).copy.type ≠ 0 ∧ (s.dinode inum).type ≠ 0
  /-- The marks cover the metadata and the blocks of the files. -/
  cover : Cover s.Marked s.Reserved s.Refers

end Xv6
