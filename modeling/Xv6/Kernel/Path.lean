import Xv6.Kernel.Dir
import Xv6.Lib.Zoom

/-!
# Directories and paths

The upper layers of `fs.c`: new directory entries, and the walk along a path. The inodes on the way
are locked and unlocked, so the sleep locks are part of the state here. The calls of one process run
without others in between: a lock that is taken is one that the process holds itself, and a process
that waits for it waits for ever.
-/

namespace Xv6

open Lib

/-- `devsw`: the functions of the devices. They do not touch the disk. -/
structure Devsw where
  read : Nat → Option (Nat → Option (List UInt8))
  write : Nat → Option (Nat → Option Nat)

/-- The file system with the locks of its inodes. -/
structure Walk extends Fs where
  /-- `ip->lock` is held. -/
  locked : Fin nInode → Bool

/-- A computation of the upper layers. -/
abbrev PathM : Type → Type := StateT Walk (Except String)

/-- A computation of the lower layers. -/
def fsOp {α : Type} (op : FsM α) : PathM α :=
  zoom Walk.toFs (fun w fs => { w with toFs := fs }) op

/-- The process waits for a lock that it holds. This is no message of the kernel: the call does not
return. -/
def asleep : String := "asleep"

namespace Walk

/-! ## Locks -/

/-- `acquiresleep` of the lock of an inode. -/
def acquiresleep (ip : Fin nInode) : PathM Unit := do
  if (← get).locked ip then throw asleep
  modify fun w => { w with locked := Function.update w.locked ip true }

/-- `releasesleep` of the lock of an inode. -/
def releasesleep (ip : Fin nInode) : PathM Unit :=
  modify fun w => { w with locked := Function.update w.locked ip false }

/-- `ilock`. -/
def ilock (ip : Fin nInode) : PathM Unit := do
  if ((← get).icache ip).ref < 1 then throw "ilock"
  acquiresleep ip
  fsOp (Xv6.ilock ip)

/-- `iunlock`. -/
def iunlock (ip : Fin nInode) : PathM Unit := do
  let w ← get
  if w.locked ip = false ∨ (w.icache ip).ref < 1 then throw "iunlock"
  releasesleep ip

/-- `iput`, which takes the lock of the inode. -/
def iput (ip : Fin nInode) : PathM Unit := do
  acquiresleep ip
  fsOp (Xv6.iput ip)
  releasesleep ip

/-- `iunlockput`. -/
def iunlockput (ip : Fin nInode) : PathM Unit := do
  iunlock ip
  iput ip

/-! ## Directories -/

/-- The loop of `dirlink` over a directory of `size` bytes: the offset of an empty entry, or of the
end. -/
def dirlinkFrom (dev : Devsw) (dp : Fin nInode) (size off : Nat) : FsM Nat :=
  if off < size then do
    match ← readi dev.read dp (UInt32.ofNat off) (UInt32.ofNat direntSize) with
    | none => throw "dirlink read"
    | some bytes =>
      if bytes.length ≠ direntSize then throw "dirlink read"
      if (Dirent.ofBytes bytes).inum = 0 then
        return off
      else
        dirlinkFrom dev dp size (off + direntSize)
  else return off
termination_by size - off
decreasing_by
  have := direntSize_pos
  omega

/-- The entry that `dirlink` writes. -/
def direntOf (name : List UInt8) (inum : Nat) : Dirent where
  inum := UInt16.ofNat inum
  name := strncpy name dirSiz
  length := strncpy_length name dirSiz

/-- Write a directory entry. -/
def writeDirent (dev : Devsw) (dp : Fin nInode) (bytes : List UInt8) (off : Nat) :
    FsM (Option Nat) :=
  writei dev.write dp (fun k => bytes.getD k 0) (UInt32.ofNat off) (UInt32.ofNat direntSize)

/-- `dirlink`: write a new directory entry (`name`, `inum`) into the directory `dp`. -/
def dirlink (dev : Devsw) (dp : Fin nInode) (name : List UInt8) (inum : Nat) : PathM Int := do
  -- Check that name is not present.
  match ← fsOp (dirlookup dev.read dp name) with
  | some (ip, _) =>
    iput ip
    return -1
  | none =>
    -- Look for an empty dirent.
    let size := ((← get).icache dp).copy.size.toNat
    let off ← fsOp (dirlinkFrom dev dp size 0)
    let n ← fsOp (writeDirent dev dp (direntOf name inum).toBytes off)
    if n ≠ some direntSize then throw "dirlink"
    return 0

end Walk

/-! ## Paths -/

/-- The character that separates path elements. -/
def slash : UInt8 := 47

/-- `skipelem`: copy the next path element into `name`, which has room for `DIRSIZ` bytes. The path
after it, and the new contents of `name`. -/
def skipelem (path name : List UInt8) : Option (List UInt8 × List UInt8) :=
  let path := path.dropWhile (· = slash)
  if path = [] then
    none
  else
    let s := path.takeWhile (· ≠ slash)
    let path := path.dropWhile (· ≠ slash)
    let len := s.length
    let name :=
      if len ≥ dirSiz then
        s.take dirSiz ++ name.drop dirSiz
      else
        s ++ 0 :: name.drop (len + 1)
    some (path.dropWhile (· = slash), name)

/-- `skipelem` shortens the path. -/
theorem length_skipelem {path name rest name' : List UInt8}
    (found : skipelem path name = some (rest, name')) : rest.length < path.length := by
  unfold skipelem at found
  dsimp only at found
  split at found
  · cases found
  · rename_i more
    obtain ⟨b, tail, first⟩ := List.exists_cons_of_ne_nil more
    have other : b ≠ slash := by
      have last := List.head?_dropWhile_not (· = slash) path
      rw [first] at last
      simpa using last
    rw [first, Option.some.injEq, Prod.mk.injEq] at found
    have shorter : (path.dropWhile (· = slash)).length ≤ path.length :=
      (List.dropWhile_sublist _).length_le
    rw [first, List.length_cons] at shorter
    have rest_le := (List.dropWhile_sublist (· = slash)
      (l := (b :: tail).dropWhile (· ≠ slash))).length_le
    rw [found.1, List.dropWhile_cons_of_pos (by simpa using other)] at rest_le
    have tail_le := (List.dropWhile_sublist (· ≠ slash) (l := tail)).length_le
    omega

namespace Walk

/-- The loop of `namex`: the inode with the name of the last element, or nothing. -/
def namexFrom (dev : Devsw) (nameiparent : Bool) (ip : Fin nInode) (path name : List UInt8) :
    PathM (Option (Fin nInode × List UInt8)) :=
  match _found : skipelem path name with
  | some (path, name) => do
    ilock ip
    if ((← get).icache ip).copy.type ≠ tDir then
      iunlockput ip
      return none
    if nameiparent ∧ path = [] then
      -- Stop one level early.
      iunlock ip
      return some (ip, name)
    match ← fsOp (dirlookup dev.read ip name) with
    | none =>
      iunlockput ip
      return none
    | some (next, _) =>
      iunlockput ip
      namexFrom dev nameiparent next path name
  | none => do
    if nameiparent then
      iput ip
      return none
    return some (ip, name)
termination_by path.length
decreasing_by exact length_skipelem _found

/-- `namex`: look up and return the inode for a path name, by a process in the directory `cwd`. -/
def namex (dev : Devsw) (cwd : Fin nInode) (path : List UInt8) (nameiparent : Bool)
    (name : List UInt8) : PathM (Option (Fin nInode × List UInt8)) := do
  if path.head? = some slash then
    let ip ← fsOp (iget rootIno)
    namexFrom dev nameiparent ip path name
  else
    fsOp (idup cwd)
    namexFrom dev nameiparent cwd path name

/-- `namei`, whose array for names holds `name` before. -/
def namei (dev : Devsw) (cwd : Fin nInode) (path name : List UInt8) :
    PathM (Option (Fin nInode)) := do
  return (← namex dev cwd path false name).map Prod.fst

/-- `nameiparent`. -/
def nameiparent (dev : Devsw) (cwd : Fin nInode) (path name : List UInt8) :
    PathM (Option (Fin nInode × List UInt8)) :=
  namex dev cwd path true name

end Walk

end Xv6
