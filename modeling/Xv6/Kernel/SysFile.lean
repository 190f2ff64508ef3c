import Xv6.Kernel.Path

/-!
# Directories and open files

The entries of a directory as `sys_link` and `sys_unlink` change them, and `fileread` and
`filewrite`. A call of one process runs without others in between. The transactions are left out; a
block has one content, as in the lower layers.
-/

namespace Xv6

open Lib

/-- `NOFILE`: open files per process. -/
def nOFile : Nat := 16

/-- `NFILE`: open files per system. -/
def nFile : Nat := 100

/-- There are files. -/
theorem nFile_pos : 0 < nFile := by decide

/-- The type of a `struct file`. -/
inductive FileType where
  | none
  | pipe
  | inode
  deriving DecidableEq

/-- `struct file`, without the pipe. -/
structure OpenFile where
  type : FileType
  ref : Nat
  readable : Bool
  /-- It may be written. -/
  writable : Bool
  ip : Fin nInode
  off : UInt32

/-- What a process sees: the file system, the table of open files and its own part. -/
structure Sys where
  walk : Walk
  ftable : Fin nFile → OpenFile
  /-- `ofile`: the open files of the process. -/
  ofile : Fin nOFile → Option (Fin nFile)
  /-- `cwd`: its current directory. -/
  cwd : Fin nInode

/-- A system call. -/
abbrev SysM : Type → Type := StateT Sys (Except String)

/-- A computation of the file system. -/
def walkOp {α : Type} (op : PathM α) : SysM α :=
  zoom Sys.walk (fun s walk => { s with walk := walk }) op

/-! ## Names -/

namespace Walk

/-- The name `.`. -/
def dot : List UInt8 := [46]

/-- The removal of the entry for a name, as `sys_unlink` does it in a directory that is locked. What
becomes of the inode of the entry is left out. -/
def removeEntry (dev : Devsw) (dp : Fin nInode) (name : List UInt8) : PathM Int := do
  match ← fsOp (dirlookup dev.read dp name) with
  | none => return -1
  | some (ip, off) =>
    let n ← fsOp (writeDirent dev dp (List.replicate direntSize 0) off)
    if n ≠ some direntSize then throw "unlink: writei"
    iput ip
    return 0

end Walk

/-- What happens to a directory. -/
inductive DirEvent where
  | link (name : List UInt8) (inum : Nat)
  /-- The removal of an entry. -/
  | remove (name : List UInt8)

/-- The event as a computation, between `ilock` and `iunlock` of the directory. -/
def DirEvent.run (dev : Devsw) (dp : Fin nInode) (event : DirEvent) : PathM Int := do
  Walk.ilock dp
  let r ← match event with
    | .link name inum => Walk.dirlink dev dp name inum
    | .remove name => Walk.removeEntry dev dp name
  Walk.iunlock dp
  return r

/-- The state after an event, if it returns. -/
def dirStep (dev : Devsw) (dp : Fin nInode) (w : Walk) (event : DirEvent) : Option Walk :=
  match event.run dev dp w with
  | .ok (_, w') => some w'
  | .error _ => none

/-! ## Open files -/

/-- `max` in `filewrite`: how many bytes are written in one transaction. -/
def filewriteMax : Nat := (maxOpBlocks - 1 - 1 - 2) / 2 * 512

/-- One round of `filewrite`, from `begin_op` to `end_op`, for the bytes of `data` from `i` on.
Whether the loop goes on. -/
def filewriteRound (dev : Devsw) (f : Fin nFile) (data : List UInt8) (i : Nat) : SysM Bool := do
  let n1 := min (data.length - i) filewriteMax
  let ip := ((← get).ftable f).ip
  walkOp (Walk.ilock ip)
  let off := ((← get).ftable f).off
  let r ← walkOp (fsOp (writei dev.write ip (fun k => data.getD (i + k) 0) off (UInt32.ofNat n1)))
  if r.getD 0 > 0 then
    modify fun s =>
      let file := s.ftable f
      { s with
        ftable := Function.update s.ftable f
          { file with off := file.off + UInt32.ofNat (r.getD 0) } }
  walkOp (Walk.iunlock ip)
  match r with
  | none => return false
  | some r =>
    if r ≠ n1 then throw "short filewrite"
    return true

/-- The loop of `filewrite`. -/
def filewriteFrom (dev : Devsw) (f : Fin nFile) (data : List UInt8) (i : Nat) : SysM Int :=
  if i < data.length then do
    if ← filewriteRound dev f data i then
      filewriteFrom dev f data (i + min (data.length - i) filewriteMax)
    else
      return -1
  else return data.length
termination_by data.length - i
decreasing_by
  have : 0 < filewriteMax := by decide
  omega

/-- `filewrite`: write `data` to the file `f`. What `pipewrite` does is given. -/
def filewrite (dev : Devsw) (pipewrite : SysM Int) (f : Fin nFile)
    (data : List UInt8) : SysM Int := do
  let file := (← get).ftable f
  if file.writable = false then
    return -1
  match file.type with
  | .pipe => pipewrite
  | .inode => filewriteFrom dev f data 0
  | .none => throw "filewrite"

/-- `fileread`: the bytes read, or nothing on error. What `piperead` does is given. -/
def fileread (dev : Devsw) (piperead : SysM (Option (List UInt8))) (f : Fin nFile) (n : UInt32) :
    SysM (Option (List UInt8)) := do
  let file := (← get).ftable f
  if file.readable = false then
    return none
  match file.type with
  | .pipe => piperead
  | .inode =>
    walkOp (Walk.ilock file.ip)
    let off := ((← get).ftable f).off
    let r ← walkOp (fsOp (readi dev.read file.ip off n))
    if (r.getD []).length > 0 then
      modify fun s =>
        let file := s.ftable f
        { s with
          ftable := Function.update s.ftable f
            { file with off := file.off + UInt32.ofNat (r.getD []).length } }
    walkOp (Walk.iunlock file.ip)
    return r
  | .none => throw "fileread"

/-- Several writes to one file, by any processes. -/
structure Writers (ι : Type) where
  sys : Sys
  /-- How many bytes each of them has written. -/
  written : ι → Nat
  /-- It has ended with an error. -/
  broken : ι → Bool

/-- The next round of one of the writes. -/
def Writers.step {ι : Type} [DecidableEq ι] (dev : Devsw) (f : Fin nFile) (data : ι → List UInt8)
    (s : Writers ι) (p : ι) : Option (Writers ι) :=
  if s.broken p = false ∧ s.written p < (data p).length then
    match filewriteRound dev f (data p) (s.written p) s.sys with
    | .ok (true, sys) =>
      let n1 := min ((data p).length - s.written p) filewriteMax
      some { s with sys := sys, written := Function.update s.written p (s.written p + n1) }
    | .ok (false, sys) => some { s with sys := sys, broken := Function.update s.broken p true }
    | .error _ => none
  else none

end Xv6
