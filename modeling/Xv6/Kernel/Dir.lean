import Xv6.Kernel.Inode
import Xv6.Kernel.Strings

/-!
# Reading files and directories

`readi`, and `dirlookup` with the comparison of names. A file is a sequence of bytes; a directory is
a file of entries of fixed size, each an inode number and a name that ends at its first zero byte or
fills its field.
-/

namespace Xv6

open Lib

/-- `ROOTINO`: root i-number. -/
def rootIno : Nat := 1

/-- `T_DIR`: the type of a directory. -/
def tDir : UInt16 := 1

/-- `T_FILE`: the type of a file. -/
def tFile : UInt16 := 2

/-- `DIRSIZ`: bytes of a name in a directory. -/
def dirSiz : Nat := 14

/-- `struct dirent`. -/
structure Dirent where
  /-- The inode number; 0 if the entry is free. -/
  inum : UInt16
  /-- The name, padded with zeros. -/
  name : List UInt8
  /-- The size of the field. -/
  length : name.length = dirSiz

/-- `sizeof(struct dirent)`. -/
def direntSize : Nat := 2 + dirSiz

/-- An entry has some size, so that the loops over a directory end. -/
theorem direntSize_pos : 0 < direntSize := by decide

/-- The bytes of a `struct dirent`. -/
def Dirent.toBytes (de : Dirent) : List UInt8 :=
  UInt8.ofNat (de.inum.toNat % 256) :: UInt8.ofNat (de.inum.toNat / 256) :: de.name

/-- The `struct dirent` in some bytes. -/
def Dirent.ofBytes (bytes : List UInt8) : Dirent where
  inum := UInt16.ofNat ((bytes.getD 0 0).toNat + 256 * (bytes.getD 1 0).toNat)
  name := List.ofFn fun k : Fin dirSiz => bytes.getD (2 + k) 0
  length := List.length_ofFn

/-- `namecmp`. -/
def namecmp (s t : List UInt8) : Int := strncmp s t dirSiz

/-- The loop of `readi`: the bytes copied to `dst`. -/
def readiFrom (ip : Fin nInode) (n off tot : Nat) : FsM (List UInt8) :=
  if tot < n then do
    let addr ← bmap ip (off / bSize)
    let bp ← bread addr
    let m := min (n - tot) (bSize - off % bSize)
    let rest ← readiFrom ip n (off + m) (tot + m)
    return (List.range m).map (fun k => bp.byte (off % bSize + k)) ++ rest
  else return []
termination_by n - tot
decreasing_by
  have : off % bSize < bSize := Nat.mod_lt _ (by decide)
  omega

/-- `readi`: the bytes read, or nothing on error. The read functions of the devices are given; they
do not touch the disk. -/
def readi (devsw : Nat → Option (Nat → Option (List UInt8))) (ip : Fin nInode) (off n : UInt32) :
    FsM (Option (List UInt8)) := do
  let d := ((← get).icache ip).copy
  if d.type = tDev then
    if d.major.toNat ≥ nDev then
      return none
    match devsw d.major.toNat with
    | none => return none
    | some read => return read n.toNat
  else if off > d.size ∨ off + n < off then
    return none
  else
    let n := if off + n > d.size then d.size - off else n
    return some (← readiFrom ip n.toNat off.toNat 0)

/-- The loop of `dirlookup`, over a directory of `size` bytes. -/
def dirlookupFrom (devsw : Nat → Option (Nat → Option (List UInt8))) (dp : Fin nInode)
    (name : List UInt8) (size off : Nat) : FsM (Option (Fin nInode × Nat)) :=
  if off < size then do
    match ← readi devsw dp (UInt32.ofNat off) (UInt32.ofNat direntSize) with
    | none => throw "dirlookup read"
    | some bytes =>
      if bytes.length ≠ direntSize then throw "dirlookup read"
      let de := Dirent.ofBytes bytes
      if de.inum = 0 then
        dirlookupFrom devsw dp name size (off + direntSize)
      else if namecmp name de.name = 0 then
        -- The entry matches the path element.
        let ip ← iget de.inum.toNat
        return some (ip, off)
      else
        dirlookupFrom devsw dp name size (off + direntSize)
  else return none
termination_by size - off
decreasing_by
  all_goals
    have := direntSize_pos
    omega

/-- `dirlookup`: look for an entry in a directory. The inode and the offset of the entry. -/
def dirlookup (devsw : Nat → Option (Nat → Option (List UInt8))) (dp : Fin nInode)
    (name : List UInt8) : FsM (Option (Fin nInode × Nat)) := do
  let d := ((← get).icache dp).copy
  if d.type ≠ tDir then throw "dirlookup not DIR"
  dirlookupFrom devsw dp name d.size.toNat 0

end Xv6
