import Xv6.Spec.FileTree

/-!
# Writes to an open file

What `filewrite` is for. An open file has an offset; a write replaces the bytes of its file from the
offset on and advances the offset. It is done in pieces, and the pieces of several writes to one
open file may come in any order that keeps the order of the pieces of each write.
-/

namespace Xv6

open Lib

/-- An open file of an inode that is not a device, while no inode is locked. -/
structure Sys.Opened (s : Sys) (f : Fin nFile) (inum : Nat) (file : File) : Prop where
  /-- The file system is whole. -/
  whole : s.walk.Whole
  /-- No inode is locked. -/
  unlocked : ∀ ip, s.walk.locked ip = false
  /-- The open file has a reference to its inode. -/
  used : 0 < (s.walk.icache (s.ftable f).ip).ref
  number : (s.walk.icache (s.ftable f).ip).inum = inum
  found : s.walk.files inum = some file
  /-- It is not a device. -/
  plain : file.type ≠ tDev

/-- A file with other bytes. -/
def File.withBytes (file : File) (bytes : List UInt8) : File := { file with bytes := bytes }

/-- An open file moved on to another offset, and its file has other bytes. Nothing else changed. -/
structure Sys.Advances (f : Fin nFile) (inum : Nat) (file : File) (off : UInt32)
    (s t : Sys) : Prop where
  /-- The file is open as before. -/
  opened : t.Opened f inum file
  /-- The other files stay. -/
  files : t.walk.files = Function.update s.walk.files inum (some file)
  /-- The file has its new offset, the other open files stay. -/
  ftable : t.ftable = Function.update s.ftable f { s.ftable f with off := off }
  /-- The process stays as it is. -/
  process : t.ofile = s.ofile ∧ t.cwd = s.cwd
  /-- There are free blocks as before for the rest of the file. -/
  affords : ∀ n, file.bytes.length ≤ n * bSize → (t.walk.Affords inum n ↔ s.walk.Affords inum n)

/-- A piece of a write. -/
def piece (data : List UInt8) (k : Nat) : List UInt8 :=
  (data.drop (filewriteMax * k)).take filewriteMax

/-- The pieces that are written in the rounds of a history, oldest first, each with its write. -/
def pieces {ι : Type} [DecidableEq ι] (data : ι → List UInt8) : List ι → List (ι × List UInt8)
  | [] => []
  | p :: past => pieces data past ++ [(p, piece (data p) (past.count p))]

/-- What the rounds of a history write, in one. -/
def region {ι : Type} [DecidableEq ι] (data : ι → List UInt8) (past : List ι) : List UInt8 :=
  (pieces data past).flatMap Prod.snd

/-- The rounds that write: all of them, if the offset is inside the file. -/
def Sys.rounds {ι : Type} (s : Sys) (f : Fin nFile) (file : File) (past : List ι) : List ι :=
  if (s.ftable f).off.toNat ≤ file.bytes.length then past else []

/-- The next piece of a write ends inside the longest file. -/
def Writers.Fits {ι : Type} (f : Fin nFile) (data : ι → List UInt8) (w : Writers ι)
    (p : ι) : Prop :=
  (w.sys.ftable f).off.toNat + min ((data p).length - w.written p) filewriteMax ≤ maxFile * bSize

/-- The pieces of one write. -/
def piecesOf {ι : Type} [DecidableEq ι] (data : ι → List UInt8) (past : List ι) (p : ι) :
    List (List UInt8) :=
  ((pieces data past).filter (·.1 = p)).map Prod.snd

end Xv6
