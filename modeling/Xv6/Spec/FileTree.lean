import Xv6.Kernel.SysFile
import Xv6.Spec.FileArray

/-!
# Files, directories and paths

What the file system is for, above the blocks: files with numbers, directories that give names to
numbers, and paths. A lookup goes to the first entry with the name; a walk looks up one component
after another. The inode cache is a table of references to files, and an operation that only reads
leaves everything but the references it returns.
-/

namespace Xv6

open Lib

/-! ## Files -/

/-- A file without its blocks. -/
structure File where
  type : UInt16
  /-- Major device number. -/
  major : UInt16
  /-- Minor device number. -/
  minor : UInt16
  nlink : UInt16
  bytes : List UInt8
  deriving DecidableEq

/-- The file of an inode. -/
def Dinode.file (d : Dinode) (disk : Disk) : File :=
  ⟨d.type, d.major, d.minor, d.nlink, d.bytes disk⟩

/-- The length of the file is its size. -/
@[simp]
theorem Dinode.length_file (d : Dinode) (disk : Disk) :
    (d.file disk).bytes.length = d.size.toNat := d.length_bytes disk

/-- The files of a disk, by inode number. -/
def Store.files (s : Store) (inum : Nat) : Option File :=
  if inum < s.sb.ninodes ∧ (s.dinode inum).type ≠ 0 then
    some ((s.dinode inum).file s.disk)
  else none

/-- The file system between operations: every file has its blocks, and the inode cache agrees with
the disk. -/
structure Store.Whole (s : Store) : Prop extends Store.Laid s where
  /-- Files have their blocks. -/
  full : ∀ inum, inum < s.sb.ninodes → (s.dinode inum).type ≠ 0 → (s.dinode inum).Full s.disk
  /-- The inodes in memory are those on disk. -/
  clean : ∀ inum ip, s.Holds inum ip → (s.icache ip).copy = s.dinode inum

/-- There are enough free blocks for the first `n` blocks of a file. -/
def Store.Affords (s : Store) (inum n : Nat) : Prop :=
  (s.dinode inum).missing s.disk n ≤ s.freeBlocks

instance (s : Store) (inum n : Nat) : Decidable (s.Affords inum n) :=
  inferInstanceAs (Decidable (_ ≤ _))

/-! ## Directories -/

/-- The entries in the bytes of a directory. -/
def dirents (bytes : List UInt8) : List Dirent :=
  (List.range (bytes.length / direntSize)).map fun i =>
    Dirent.ofBytes ((bytes.drop (direntSize * i)).take direntSize)

/-- The inode number and the offset of the first entry with a name, for entries that start at an
offset. -/
def lookupFrom (name : List UInt8) (off : Nat) : List Dirent → Option (Nat × Nat)
  | [] => none
  | de :: rest =>
    if de.Matches name then some (de.inum.toNat, off) else lookupFrom name (off + direntSize) rest

/-- The inode number and the offset of the first entry with a name. -/
def lookup (entries : List Dirent) (name : List UInt8) : Option (Nat × Nat) :=
  lookupFrom name 0 entries

/-- A directory with other entries. -/
def File.withEntries (file : File) (entries : List Dirent) : File :=
  { file with bytes := dirBytes entries }

/-- The entries of a directory of the disk. -/
def Store.entries (s : Store) (inum : Nat) : List Dirent :=
  (s.files inum).elim [] fun file => dirents file.bytes

/-- No two entries in use have the same name. -/
def Distinct (entries : List Dirent) : Prop :=
  entries.Pairwise fun de de' => de.inum ≠ 0 → de'.inum ≠ 0 → namecmp de.name de'.name ≠ 0

/-- An entry that is not in use. -/
def Dirent.unused : Dirent := ⟨0, List.replicate dirSiz 0, rfl⟩

/-- The entry at an index is replaced, or a new one is added behind the last. -/
def setDirent (entries : List Dirent) (i : Nat) (de : Dirent) : List Dirent :=
  entries.take i ++ de :: entries.drop (i + 1)

/-- The index of the first entry that is not in use, or the number of the entries. -/
def freeDirent (entries : List Dirent) : Nat := entries.findIdx (·.inum = 0)

/-- What a change of a directory returns and does to it. A new entry is found under its name, a
removed one is not, and every other name leads where it did. -/
def DirEvent.Changes (entries : List Dirent) (r : Int) (entries' : List Dirent) : DirEvent → Prop
  | .link name inum =>
    (r = -1 ↔ lookup entries name ≠ none) ∧ (r = -1 → entries' = entries) ∧
    (r ≠ -1 → r = 0 ∧
      (∃ i, entries'[i]? = some (Walk.direntOf name inum) ∧
        lookup entries' name = some (inum, direntSize * i)) ∧
      ∀ other, namecmp other name ≠ 0 → lookup entries' other = lookup entries other)
  | .remove name =>
    (r = 0 ↔ lookup entries name ≠ none) ∧ lookup entries' name = none ∧
    ∀ other, namecmp other name ≠ 0 → lookup entries' other = lookup entries other

/-! ## Paths -/

/-- The components of a path, between its slashes. -/
def components (path : List UInt8) : List (List UInt8) :=
  ((path.splitOn slash).filter (· ≠ [])).map (·.take dirSiz)

/-- The file at the end of a walk along some components. -/
def walk (files : Nat → Option File) : Nat → List (List UInt8) → Option Nat
  | inum, [] => some inum
  | inum, name :: rest => do
    let file ← files inum
    guard (file.type = tDir)
    let (next, _) ← lookup (dirents file.bytes) name
    walk files next rest

/-- The directory at the end of a walk along all components but the last, with the last one. -/
def walkParent (files : Nat → Option File) (inum : Nat) (names : List (List UInt8)) :
    Option (Nat × List UInt8) := do
  let last ← names.getLast?
  let parent ← walk files inum names.dropLast
  let file ← files parent
  guard (file.type = tDir)
  return (parent, last)

/-- What `skipelem` returns again and again: the rest of the path and the contents of `name`. -/
def skipelems (path name : List UInt8) : List (List UInt8 × List UInt8) :=
  match _found : skipelem path name with
  | some (rest, name) => (rest, name) :: skipelems rest name
  | none => []
termination_by path.length
decreasing_by exact length_skipelem _found

/-! ## References -/

/-- The inode cache has some more references, and nothing else has changed. -/
structure Store.Borrows (held : List (Fin nInode)) (s t : Store) : Prop where
  disk : t.disk = s.disk
  /-- The superblock stays. -/
  sb : t.sb = s.sb
  ref : ∀ jp, (t.icache jp).ref = (s.icache jp).ref + held.count jp
  /-- The entries in use stay for their inodes. -/
  inum : ∀ jp, 0 < (s.icache jp).ref → (t.icache jp).inum = (s.icache jp).inum

/-- Nothing has changed but free entries of the inode cache. -/
structure Store.Same (s t : Store) : Prop where
  disk : t.disk = s.disk
  /-- The superblock stays. -/
  sb : t.sb = s.sb
  /-- The entries in use stay. -/
  used : ∀ jp, 0 < (s.icache jp).ref → t.icache jp = s.icache jp
  /-- The free entries stay free. -/
  free : ∀ jp, (s.icache jp).ref = 0 → (t.icache jp).ref = 0

/-- How many entries of the inode cache are free. -/
def Store.freeEntries (s : Store) : Nat :=
  (Finset.univ.filter fun ip => (s.icache ip).ref = 0).card

/-- The inode cache has an entry for an inode. -/
def Store.Cached (s : Store) (inum : Nat) : Prop :=
  ∃ jp, 0 < (s.icache jp).ref ∧ (s.icache jp).inum = inum

/-- An inode is not freed when a reference to it comes and goes: it is free, or it has links, or
other references. -/
def Store.Kept (s : Store) (inum : Nat) : Prop :=
  (s.dinode inum).type = 0 ∨ (s.dinode inum).nlink ≠ 0 ∨ s.Cached inum

/-- While a process has taken a reference to the inode `i`, there is an entry for the inode `j`: it
is the same inode, or a cached one, or an entry is free besides the one for `i`. -/
def Store.RoomBeside (s : Store) (i j : Nat) : Prop :=
  j = i ∨ s.Cached j ∨ 0 < s.freeEntries ∧ (s.Cached i ∨ 1 < s.freeEntries)

/-- The walk along some components, or along all but the last one, gets through: every inode with a
component to look up is allocated, and the inode cache has room for the next one. -/
def Store.Passes (s : Store) (parent : Bool) : Nat → List (List UInt8) → Prop
  | _, [] => True
  | i, name :: rest => ∃ file, s.files i = some file ∧
      (file.type = tDir → (parent = true → rest ≠ []) →
        ∀ j off, lookup (dirents file.bytes) name = some (j, off) →
          s.RoomBeside i j ∧ s.Passes parent j rest)

/-- Directories consist of entries, which name inodes of the file system; what they name is kept. -/
structure Store.Tree (s : Store) : Prop where
  /-- Directories consist of entries. -/
  aligned : ∀ inum file, s.files inum = some file → file.type = tDir →
    direntSize ∣ file.bytes.length
  /-- The entries are for inodes of the file system. -/
  numbered : ∀ inum file, s.files inum = some file → file.type = tDir →
    ∀ de ∈ dirents file.bytes, de.inum ≠ 0 → de.inum.toNat < s.sb.ninodes
  kept : ∀ inum file, s.files inum = some file → file.type = tDir →
    ∀ de ∈ dirents file.bytes, de.inum ≠ 0 → s.Kept de.inum.toNat
  root : rootIno < s.sb.ninodes ∧ s.Kept rootIno

/-- A process in the directory `cwd` is about to make a call: no inode is locked, and it has a
reference to its directory. -/
structure Walk.Ready (w : Walk) (cwd : Fin nInode) : Prop where
  /-- The file system is whole. -/
  whole : w.Whole
  /-- Its directories are in order. -/
  tree : w.Tree
  /-- No inode is locked. -/
  unlocked : ∀ ip, w.locked ip = false
  /-- The process has a reference to its directory. -/
  cwd : 0 < (w.icache cwd).ref

/-- A directory `d`, to which there is a reference and which is not locked. -/
structure Walk.Directory (w : Walk) (dp : Fin nInode) (d : Nat) : Prop where
  /-- The file system is whole. -/
  whole : w.Whole
  /-- No inode is locked. -/
  unlocked : ∀ ip, w.locked ip = false
  /-- There is a reference to the directory. -/
  used : 0 < (w.icache dp).ref
  inum : (w.icache dp).inum = d
  /-- The directory consists of entries. -/
  file : ∃ file, w.files d = some file ∧ file.type = tDir ∧ direntSize ∣ file.bytes.length

/-- The directory can take one more entry: one is not in use, or the file may grow and there are
blocks for it. -/
def Walk.HasSlot (w : Walk) (d : Nat) : Prop :=
  freeDirent (w.entries d) < (w.entries d).length ∨
    direntSize * ((w.entries d).length + 1) ≤ maxFile * bSize ∧
      w.Affords d (dataBlocks (direntSize * ((w.entries d).length + 1)))

instance (w : Walk) (d : Nat) : Decidable (w.HasSlot d) := inferInstanceAs (Decidable (_ ∨ _))

/-- The inode that a name leads to is not the directory itself, and the inode cache has room for
it. -/
def Walk.Leads (w : Walk) (d : Nat) (name : List UInt8) : Prop :=
  ∀ i off, lookup (w.entries d) name = some (i, off) → i ≠ d ∧ w.Room i

/-- The event does not find the directory full, or the inode cache, and does not come upon the
directory itself. -/
def DirEvent.Fits (w : Walk) (d : Nat) : DirEvent → Prop
  | .link name inum => 1 ≤ inum ∧ inum < 65536 ∧ w.Leads d name ∧
      (lookup (w.entries d) name = none → w.HasSlot d)
  | .remove name => w.Leads d name

/-- Where a path starts. -/
def Walk.start (w : Walk) (cwd : Fin nInode) (path : List UInt8) : Nat :=
  if path.head? = some slash then rootIno else (w.icache cwd).inum

/-- A process in the directory `cwd` gets through a path, or to the directory before its end. -/
def Walk.Passes (w : Walk) (parent : Bool) (cwd : Fin nInode) (path : List UInt8) : Prop :=
  (path.head? = some slash → w.Room rootIno) ∧
    w.toStore.Passes parent (w.start cwd path) (components path)

/-- A call returned a reference to a file, or nothing; apart from that reference the file system and
its locks are as before. -/
def Walk.Resolved (w : Walk) (target : Option Nat) (r : Option (Fin nInode)) (w' : Walk) : Prop :=
  w'.locked = w.locked ∧
    match target with
    | none => r = none ∧ w.Borrows [] w'.toStore
    | some inum => ∃ ip, r = some ip ∧ (w'.icache ip).inum = inum ∧ w.Borrows [ip] w'.toStore

end Xv6
