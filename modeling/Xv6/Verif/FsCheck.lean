import Mathlib.Data.Fintype.Pi
import Xv6.Spec.OpenFile

/-!
# Deciding whether a file system is in order

The predicates about disks and inode caches are decidable: the references of the inodes can be
listed, and all else is said about the finitely many inodes, entries of the cache and blocks. The
small file systems of the examples are checked in this way.
-/

namespace Xv6

open Lib

variable {s : Store} {d : Dinode} {disk : Disk}

/-! ## Blocks -/

/-- Whether the parts of the disk are in order can be decided. -/
instance (sb : Superblock) : Decidable sb.WellFormed :=
  decidable_of_iff (2 ≤ sb.inodestart ∧ sb.inodestart ≤ sb.bmapstart ∧
      (∀ i, i < sb.ninodes → sb.iblock i < sb.bmapstart) ∧
      (∀ b, b < sb.size → sb.bblock b < sb.size - sb.nblocks) ∧ sb.size < 2 ^ 31)
    ⟨fun ⟨boot, order, inodes, bitmap, fits⟩ => ⟨boot, order, inodes, bitmap, fits⟩,
      fun sb => ⟨sb.boot, sb.order, sb.inodes, sb.bitmap, sb.fits⟩⟩

/-- The places of an inode that can have a block. -/
def Dinode.places (d : Dinode) : List Place :=
  (List.finRange nDirect).map .direct ++
    if (d.addrs (Fin.last nDirect)).toNat = 0 then []
    else .indirect :: (List.finRange nIndirect).map .entry

/-- A place that has a block is among them. -/
theorem Dinode.mem_places {place : Place} (taken : d.blockAt disk place ≠ 0) :
    place ∈ d.places := by
  cases place <;> simp_all [Dinode.places, Dinode.blockAt]

/-- The references of the allocated inodes, with their blocks. -/
def Store.references (s : Store) : List ((Nat × Place) × Nat) :=
  (List.range s.sb.ninodes).flatMap fun inum =>
    if (s.inode inum).type = 0 then []
    else ((s.inode inum).places.map fun place =>
      ((inum, place), (s.inode inum).blockAt s.disk place)).filter (·.2 ≠ 0)

/-- These are the references. -/
theorem Store.mem_references {r : Nat × Place} {b : Nat} :
    (r, b) ∈ s.references ↔ s.Refers r b := by
  obtain ⟨inum, place⟩ := r
  unfold Store.references Store.Refers
  rw [List.mem_flatMap]
  constructor
  · rintro ⟨i, inside, member⟩
    split at member
    · cases member
    · obtain ⟨among, taken⟩ := List.mem_filter.mp member
      obtain ⟨_, -, same⟩ := List.mem_map.mp among
      cases same
      exact ⟨List.mem_range.mp inside, ‹_›, of_decide_eq_true taken, rfl⟩
  · rintro ⟨inside, typed, taken, rfl⟩
    refine ⟨inum, List.mem_range.mpr inside, ?_⟩
    rw [if_neg typed, List.mem_filter]
    exact ⟨List.mem_map.mpr ⟨place, Dinode.mem_places taken, rfl⟩, decide_eq_true taken⟩

/-- Whether a block is marked can be decided. -/
instance (b : Nat) : Decidable (s.Marked b) := inferInstanceAs (Decidable (_ ∧ _))

/-- The marks cover the blocks in use if they do so for the listed references. -/
theorem Store.cover_iff : ((∀ b, b < s.sb.dataStart → s.Marked b) ∧
    (∀ x ∈ s.references, s.Marked x.2 ∧ s.sb.dataStart ≤ x.2) ∧
    ∀ x ∈ s.references, ∀ y ∈ s.references, x.2 = y.2 → x.1 = y.1) ↔
      Cover s.Marked s.Reserved s.Refers := by
  constructor
  · rintro ⟨reserved, listed, once⟩
    have listed' (r : Nat × Place) (b : Nat) (refers : s.Refers r b) :=
      listed (r, b) (Store.mem_references.mpr refers)
    exact ⟨reserved, fun r b refers => (listed' r b refers).1,
      fun r b refers => Nat.not_lt.mpr (listed' r b refers).2, fun r r' b refers refers' =>
        once _ (Store.mem_references.mpr refers) _ (Store.mem_references.mpr refers') rfl⟩
  · intro cover
    refine ⟨cover.marked_reserved, fun x member => ?_, fun x member y member' same => ?_⟩
    · have refers := Store.mem_references.mp member
      exact ⟨cover.marked_refs _ _ refers, Nat.not_lt.mp (cover.apart _ _ refers)⟩
    · exact cover.once _ _ _ (Store.mem_references.mp member)
        (same ▸ Store.mem_references.mp member')

/-- Whether the marks cover the blocks in use can be decided. -/
instance : Decidable (Cover s.Marked s.Reserved s.Refers) := decidable_of_iff _ Store.cover_iff

/-- The marks are accounted for if they cover the blocks in use, and every marked block is among
them. -/
theorem Store.accounted_iff : (Cover s.Marked s.Reserved s.Refers ∧ ∀ b, b < s.sb.size →
    s.mark b = true → b < s.sb.dataStart ∨ ∃ x ∈ s.references, x.2 = b) ↔ s.Accounted := by
  constructor
  · rintro ⟨cover, used⟩
    refine ⟨fun b => ⟨fun marked => ?_, cover.used⟩, cover.apart, cover.once⟩
    refine (used b marked.1 marked.2).imp id ?_
    rintro ⟨x, member, rfl⟩
    exact ⟨x.1, Store.mem_references.mp member⟩
  · intro accounted
    refine ⟨Cover.of_ledger accounted, fun b inside marked => ?_⟩
    refine ((accounted.marked_iff b).mp ⟨inside, marked⟩).imp id ?_
    exact fun ⟨r, refers⟩ => ⟨(r, b), Store.mem_references.mpr refers, rfl⟩

/-- Whether the marks are accounted for can be decided. -/
instance : Decidable s.Accounted := decidable_of_iff _ Store.accounted_iff

/-! ## Files -/

/-- A file has its blocks if it has those below its size. -/
theorem Dinode.full_iff : (∀ k, k < dataBlocks d.size.toNat → k * bSize < d.size.toNat →
    (filePlace k).any fun place => d.blockAt disk place ≠ 0) ↔ d.Full disk := by
  have below (k : Nat) (inside : k * bSize < d.size.toNat) : k < dataBlocks d.size.toNat := by
    simp only [dataBlocks, bSize] at inside ⊢
    omega
  simp only [Dinode.Full, Option.any_eq_true, decide_eq_true_eq]
  exact ⟨fun all k inside => all k (below k inside) inside, fun full k _ => full k⟩

/-- Whether a file has its blocks can be decided. -/
instance : Decidable (d.Full disk) := decidable_of_iff _ Dinode.full_iff

/-- Inodes can be compared. -/
instance : DecidableEq Dinode := fun d e =>
  decidable_of_iff (d.type = e.type ∧ d.major = e.major ∧ d.minor = e.minor ∧ d.nlink = e.nlink ∧
      d.size = e.size ∧ d.addrs = e.addrs) (by cases d; cases e; simp)

/-- Whether an image is well formed can be decided. -/
instance (s : Fs) : Decidable s.Image :=
  decidable_of_iff (s.sb.WellFormed ∧ getSuperblock (s.disk 1) = s.sb ∧
      (∀ ip, (s.icache ip).ref = 0) ∧ s.Accounted ∧
      (∀ inum, inum < s.sb.ninodes → (s.dinode inum).type ≠ 0 → (s.dinode inum).Full s.disk) ∧
      s.ballocs.isEmpty = true) <| by
    rw [List.isEmpty_iff]
    exact ⟨fun ⟨wellFormed, sb, icache, accounted, full, ballocs⟩ =>
        ⟨wellFormed, sb, icache, accounted, full, ballocs⟩,
      fun image => ⟨image.wellFormed, image.sb, image.icache, image.accounted, image.full,
        image.ballocs⟩⟩

/-- Whether an operation loses no block can be decided. -/
instance (s : Fs) (event : FsEvent) : Decidable (WritesBack s event) := by
  cases event <;> unfold WritesBack <;> infer_instance

/-- What is said of the inodes that are read is said of the entries of the cache. -/
theorem Store.forall_holds {p : Nat → Fin nInode → Prop} :
    (∀ ip, s.Holds (s.icache ip).inum ip → p (s.icache ip).inum ip) ↔
      ∀ inum ip, s.Holds inum ip → p inum ip := by
  constructor
  · rintro all _ ip ⟨used, valid, rfl⟩
    exact all ip ⟨used, valid, rfl⟩
  · exact fun all ip => all _ ip

/-- Whether the blocks of the files are laid out can be decided. -/
instance : Decidable s.Laid :=
  decidable_of_iff (s.sb.WellFormed ∧ getSuperblock (s.disk 1) = s.sb ∧
      (∀ ip, 0 < (s.icache ip).ref → (s.icache ip).inum < s.sb.ninodes ∧
        ∀ jp, 0 < (s.icache jp).ref → (s.icache ip).inum = (s.icache jp).inum → ip = jp) ∧
      (∀ ip, s.Holds (s.icache ip).inum ip →
        (s.icache ip).copy.type ≠ 0 ∧ (s.dinode (s.icache ip).inum).type ≠ 0) ∧
      Cover s.Marked s.Reserved s.Refers)
    ⟨fun ⟨wellFormed, sb, entries, typed, cover⟩ =>
        ⟨wellFormed, sb, fun ip jp used => (entries ip used).2 jp,
          fun ip used => (entries ip used).1,
          Store.forall_holds.mp typed, cover⟩,
      fun laid => ⟨laid.wellFormed, laid.sb, fun ip used => ⟨laid.numbered ip used,
        fun jp => laid.unique ip jp used⟩, Store.forall_holds.mpr laid.typed, laid.cover⟩⟩

/-- Whether the file system is whole can be decided. -/
instance : Decidable s.Whole :=
  decidable_of_iff (s.Laid ∧
      (∀ inum, inum < s.sb.ninodes → (s.dinode inum).type ≠ 0 → (s.dinode inum).Full s.disk) ∧
      ∀ ip, s.Holds (s.icache ip).inum ip → (s.icache ip).copy = s.dinode (s.icache ip).inum)
    ⟨fun ⟨laid, full, clean⟩ => ⟨laid, full, Store.forall_holds.mp clean⟩,
      fun whole => ⟨whole.toLaid, whole.full, Store.forall_holds.mpr whole.clean⟩⟩

/-! ## Directories -/

/-- What is said of the directories can be checked for one inode after another. -/
theorem Store.forall_dirs {p : File → Prop} :
    (∀ inum, inum < s.sb.ninodes → ∀ file ∈ s.files inum, file.type = tDir → p file) ↔
      ∀ inum file, s.files inum = some file → file.type = tDir → p file := by
  constructor
  · intro all inum file found
    refine all inum ?_ file found
    by_contra outside
    rw [Store.files, if_neg fun both => outside both.1] at found
    cases found
  · exact fun all inum _ file found => all inum file found

/-- Whether an inode is cached can be decided. -/
instance (inum : Nat) : Decidable (s.Cached inum) := inferInstanceAs (Decidable (∃ _, _))

/-- Whether an inode is kept can be decided. -/
instance (inum : Nat) : Decidable (s.Kept inum) := inferInstanceAs (Decidable (_ ∨ _))

/-- Whether the directories are in order can be decided. -/
instance : Decidable s.Tree :=
  decidable_of_iff ((∀ inum, inum < s.sb.ninodes → ∀ file ∈ s.files inum, file.type = tDir →
        direntSize ∣ file.bytes.length ∧ ∀ de ∈ dirents file.bytes, de.inum ≠ 0 →
          de.inum.toNat < s.sb.ninodes ∧ s.Kept de.inum.toNat) ∧
      rootIno < s.sb.ninodes ∧ s.Kept rootIno) <| by
    rw [Store.forall_dirs (p := fun file => direntSize ∣ file.bytes.length ∧
      ∀ de ∈ dirents file.bytes,
      de.inum ≠ 0 → de.inum.toNat < s.sb.ninodes ∧ s.Kept de.inum.toNat)]
    constructor
    · rintro ⟨dirs, root⟩
      exact ⟨fun i f found dir => (dirs i f found dir).1,
        fun i f found dir de member used => ((dirs i f found dir).2 de member used).1,
        fun i f found dir de member used => ((dirs i f found dir).2 de member used).2, root⟩
    · intro tree
      exact ⟨fun i f found dir => ⟨tree.aligned i f found dir, fun de member used =>
        ⟨tree.numbered i f found dir de member used, tree.kept i f found dir de member used⟩⟩,
        tree.root⟩

/-- Whether a process can make a call can be decided. -/
instance (w : Walk) (cwd : Fin nInode) : Decidable (w.Ready cwd) :=
  decidable_of_iff (w.Whole ∧ w.Tree ∧ (∀ ip, w.locked ip = false) ∧ 0 < (w.icache cwd).ref)
    ⟨fun ⟨whole, tree, unlocked, cwd⟩ => ⟨whole, tree, unlocked, cwd⟩,
      fun ready => ⟨ready.whole, ready.tree, ready.unlocked, ready.cwd⟩⟩

/-- Whether there is a directory can be decided. -/
instance (w : Walk) (dp : Fin nInode) (d : Nat) : Decidable (w.Directory dp d) :=
  decidable_of_iff (w.Whole ∧ (∀ ip, w.locked ip = false) ∧ 0 < (w.icache dp).ref ∧
      (w.icache dp).inum = d ∧ ((w.files d).any fun file =>
        file.type = tDir ∧ direntSize ∣ file.bytes.length) = true) <| by
    simp only [Option.any_eq_true, decide_eq_true_eq]
    exact ⟨fun ⟨whole, unlocked, used, inum, file⟩ => ⟨whole, unlocked, used, inum, file⟩,
      fun dir => ⟨dir.whole, dir.unlocked, dir.used, dir.inum, dir.file⟩⟩

/-- Whether no two entries in use have the same name can be decided. -/
instance (entries : List Dirent) : Decidable (Distinct entries) :=
  inferInstanceAs (Decidable (entries.Pairwise _))

/-- Whether the inode cache has room for an inode can be decided. -/
instance (s : Fs) (inum : Nat) : Decidable (s.Room inum) := inferInstanceAs (Decidable (∃ _, _))

/-- Whether there is room beside an inode can be decided. -/
instance (i j : Nat) : Decidable (s.RoomBeside i j) :=
  inferInstanceAs (Decidable (_ ∨ _ ∨ _ < Finset.card _ ∧ (_ ∨ _ < Finset.card _)))

/-- Whether a walk gets through can be decided. -/
instance Store.decidablePasses (s : Store) (parent : Bool) (i : Nat) :
    (names : List (List UInt8)) → Decidable (s.Passes parent i names)
  | [] => .isTrue trivial
  | name :: rest =>
    have := fun j => Store.decidablePasses s parent j rest
    decidable_of_iff ((s.files i).any (fun file : File => decide (file.type = tDir →
        (parent = true → rest ≠ []) → ∀ next ∈ lookup (dirents file.bytes) name,
          s.RoomBeside i next.1 ∧ s.Passes parent next.1 rest)) = true) <| by
      simp only [Option.any_eq_true, decide_eq_true_eq, Store.Passes]
      exact exists_congr fun file => and_congr_right fun _ => imp_congr_right fun _ =>
        imp_congr_right fun _ => ⟨fun all j off found => all (j, off) found,
          fun all next found => all next.1 next.2 found⟩

/-- Whether a process gets through a path can be decided. -/
instance (w : Walk) (parent : Bool) (cwd : Fin nInode) (path : List UInt8) :
    Decidable (w.Passes parent cwd path) := inferInstanceAs (Decidable (_ ∧ _))

/-- Whether a name leads to another inode can be decided. -/
instance (w : Walk) (d : Nat) (name : List UInt8) : Decidable (w.Leads d name) :=
  decidable_of_iff (∀ x ∈ lookup (w.entries d) name, x.1 ≠ d ∧ w.Room x.1)
    ⟨fun all i off found => all (i, off) found, fun leads x found => leads x.1 x.2 found⟩

/-- Whether a file is open can be decided. -/
instance (s : Sys) (f : Fin nFile) (inum : Nat) (file : File) : Decidable (s.Opened f inum file) :=
  decidable_of_iff (s.walk.Whole ∧ (∀ ip, s.walk.locked ip = false) ∧
      0 < (s.walk.icache (s.ftable f).ip).ref ∧ (s.walk.icache (s.ftable f).ip).inum = inum ∧
      s.walk.files inum = some file ∧ file.type ≠ tDev)
    ⟨fun ⟨whole, unlocked, used, number, found, plain⟩ =>
        ⟨whole, unlocked, used, number, found, plain⟩,
      fun opened => ⟨opened.whole, opened.unlocked, opened.used, opened.number, opened.found,
        opened.plain⟩⟩

/-! ## Small file systems -/

/-- A word of an inode on disk. -/
def Dinode.word (d : Dinode) (q : Nat) : Nat :=
  if q = 0 then d.type.toNat + 65536 * d.major.toNat
  else if q = 1 then d.minor.toNat + 65536 * d.nlink.toNat
  else if q = 2 then d.size.toNat
  else if inside : q - 3 < nDirect + 1 then (d.addrs ⟨q - 3, inside⟩).toNat
  else 0

/-- A block with given words. -/
def wordBlock (word : Nat → Nat) : Block := fun p => UInt8.ofNat (word (p / 4) / 256 ^ (p.val % 4))

/-- An inode with one link whose blocks follow each other. -/
def Dinode.ofBlocks (type : UInt16) (size b : Nat) : Dinode where
  type := type
  major := 0
  minor := 0
  nlink := 1
  size := UInt32.ofNat size
  addrs := fun k => if k < fileBlocks size then UInt32.ofNat (b + k) else 0

/-- A file system with `n` inodes and `room` data blocks, of which the first are marked. The first
`used` inodes are read into the inode cache. -/
def smallFs (n room marked used : Nat) (dinode : Nat → Dinode) (data : Nat → Block) : Fs where
  disk := fun b =>
    if b = 1 then
      Bytes.zero.setWords 0 ([n / 8 + 4 + room, room, n, 0, 2, 2, n / 8 + 3].map UInt32.ofNat)
    else if b < n / 8 + 3 then
      wordBlock fun q => (dinode (ipb * (b - 2) + q / 16)).word (q % 16)
    else if b = n / 8 + 3 then
      fun p => UInt8.ofNat (2 ^ (n / 8 + 4 + marked - 8 * p) - 1)
    else data (b - (n / 8 + 4))
  sb := ⟨n / 8 + 4 + room, room, n, 0, 2, 2, n / 8 + 3⟩
  icache := fun ip =>
    if ip < used then ⟨ip + 1, 1, true, dinode (ip + 1)⟩ else ⟨0, 0, false, Dinode.zero⟩
  ballocs := []

/-- The first entry of the inode cache. -/
def firstInode : Fin nInode := ⟨0, nInode_pos⟩

/-- A root directory with a few entries, and empty files with the next numbers, below `m`. -/
def rootWalk (n m room used : Nat) (entries : List Dirent) : Walk where
  toFs := smallFs n room (fileBlocks (direntSize * entries.length)) used
    (fun i =>
      if i = rootIno then .ofBlocks tDir (direntSize * entries.length) (n / 8 + 4)
      else if 0 < i ∧ i < m then .ofBlocks tFile 0 0
      else .zero)
    fun _ p => (dirBytes entries).getD p 0
  locked := fun _ => false

end Xv6
