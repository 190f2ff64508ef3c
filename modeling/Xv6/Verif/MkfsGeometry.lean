import Xv6.Verif.MkfsKernel

/-!
# The image and its geometry

`mkfs` hands out blocks and inodes by counters it never checks. Every block it takes is read at
once, so a block behind the end of the image stops it. Nothing stops it at the last inode.
-/

namespace Xv6.Mkfs

open Lib

variable {files : List HostFile} {s t : State}

/-- When `mkfs` comes to its end, it has made an image of the files. -/
theorem main_made (inodes : files.length + 1 ≤ nInodes) (ended : main files start = .ok ((), t)) :
    ∃ s, s.freeinode = 2 + files.length ∧ s.freeblock ≤ fsSize ∧ Made s (layout files) ∧
      t = s.finish := by
  have spec : Wp (fun _ => True) (main files) _ start := main_spec files inodes
    (fun _ _ => .inl trivial) (.inl trivial) fun _ _ _ => trivial
  obtain ⟨-, s, inodes, -, top, made, same⟩ := spec.ok ended
  exact ⟨s, inodes, top, made, same⟩

/-- The block numbers of an inode in use are those of the image. -/
theorem finish_blockAt (made : Made s (layout files)) {inum : Nat} (numbered : inum < table.ninodes)
    (typed : (s.finish.dinode inum).type ≠ 0) (place : Place) :
    (s.finish.dinode inum).blockAt s.finish.disk place < fsSize := by
  by_cases nonzero : (s.finish.dinode inum).blockAt s.finish.disk place = 0
  · rw [nonzero]
    decide
  · have refers : (s.finish.volume s.finish.dinode).Refers table (inum, place)
        ((s.finish.dinode inum).blockAt s.finish.disk place) := ⟨numbered, typed, nonzero, rfl⟩
    exact ((finish_laid made).accounted.data refers).2

/-! ## The inodes that are handed out -/

section

variable {α β : Type} {j k : Nat}

/-- A part of the program hands out `k` inodes if it comes to its end. -/
def HandsOut (k : Nat) (prog : MkfsM α) : Prop :=
  ∀ s, Wp (fun _ => True) prog (fun _ t => t.freeinode = s.freeinode + k) s

/-- Parts one after another. -/
theorem HandsOut.bind {prog : MkfsM α} {rest : α → MkfsM β} (first : HandsOut j prog)
    (second : ∀ a, HandsOut k (rest a)) : HandsOut (j + k) (prog >>= rest) := fun s =>
  Wp.bind (first s) fun a t mid => (second a t).mono fun _ u last => by
    rw [last, mid, Nat.add_assoc]

/-- Either of two parts. -/
theorem HandsOut.ite {condition : Prop} [Decidable condition] {first second : MkfsM α}
    (yes : HandsOut k first) (no : HandsOut k second) :
    HandsOut k (if condition then first else second) := fun s =>
  Wp.ite (fun _ => yes s) (fun _ => no s)

/-- A result. -/
theorem handsOut_pure (a : α) : HandsOut 0 (pure a : MkfsM α) := fun _ => Wp.pure rfl

/-- A failed assertion ends the program. -/
theorem handsOut_throw (message : String) (rest : α → MkfsM β) :
    HandsOut k ((throw message : MkfsM α) >>= rest) := fun _ => Wp.throw_bind trivial

/-- Writing a sector. -/
theorem wsect_handsOut (sec : Nat) (buf : Block) : HandsOut 0 (wsect sec buf) := fun s =>
  Wp.mono Wp.modify fun _ t same => by rw [same]; rfl

/-- Reading a sector. -/
theorem rsect_handsOut (sec : Nat) : HandsOut 0 (rsect sec) := fun _ =>
  Wp.get (Wp.ite (fun _ => Wp.pure rfl) fun _ => Wp.throw trivial)

/-- `winode`. -/
theorem winode_handsOut (inum : Nat) (ip : Dinode) : HandsOut 0 (winode inum ip) :=
  (rsect_handsOut _).bind fun _ => wsect_handsOut _ _

/-- `rinode`. -/
theorem rinode_handsOut (inum : Nat) : HandsOut 0 (rinode inum) :=
  (rsect_handsOut _).bind fun _ => handsOut_pure _

/-- Taking a block. -/
theorem takeBlock_handsOut : HandsOut 0 takeBlock := fun s =>
  Wp.mono Wp.modifyGet fun _ t same => by rw [same.2]; rfl

/-- The block for an address of an inode. -/
theorem iappendAddr_handsOut (din : Dinode) (i : Fin (nDirect + 1)) :
    HandsOut 0 (iappendAddr din i) :=
  .ite (takeBlock_handsOut.bind fun _ => handsOut_pure _) (handsOut_pure _)

/-- The block for an entry of the indirect block. -/
theorem iappendEntry_handsOut (x j : Nat) : HandsOut 0 (iappendEntry x j) :=
  (rsect_handsOut x).bind fun _ => .ite
    (takeBlock_handsOut.bind fun _ => (wsect_handsOut _ _).bind fun _ => handsOut_pure _)
    (handsOut_pure _)

/-- The block of a file. -/
theorem iappendBlock_handsOut (din : Dinode) (fbn : Nat) : HandsOut 0 (iappendBlock din fbn) := by
  unfold iappendBlock
  split
  · exact (iappendAddr_handsOut _ _).bind fun _ => handsOut_pure _
  · exact (iappendAddr_handsOut _ _).bind fun _ =>
      (iappendEntry_handsOut _ _).bind fun _ => handsOut_pure _

/-- The loop of `iappend`. -/
theorem iappendFrom_handsOut (din : Dinode) (off : Nat) (p : List UInt8) :
    HandsOut 0 (iappendFrom din off p) := by
  induction din, off, p using iappendFrom.induct with
  | case1 din off p more fbn past =>
    rw [iappendFrom, if_pos more, if_pos past]
    exact handsOut_throw _ _
  | case2 din off p more fbn inside ih =>
    rw [iappendFrom, if_pos more, if_neg inside]
    exact (iappendBlock_handsOut _ _).bind fun _ => (rsect_handsOut _).bind fun _ =>
      (wsect_handsOut _ _).bind fun _ => ih _
  | case3 din off p none =>
    rw [iappendFrom, if_neg none]
    exact handsOut_pure _

/-- `iappend`. -/
theorem iappend_handsOut (inum : Nat) (xp : List UInt8) : HandsOut 0 (iappend inum xp) :=
  (rinode_handsOut _).bind fun _ => (iappendFrom_handsOut _ _ _).bind fun _ => winode_handsOut _ _

/-- `ialloc` hands out one. -/
theorem ialloc_handsOut (type : UInt16) : HandsOut 1 (ialloc type) :=
  HandsOut.bind (fun s => Wp.mono Wp.modifyGet fun _ t same => by rw [same.2]) fun _ =>
    (winode_handsOut _ _).bind fun _ => handsOut_pure _

/-- A loop hands out as many for each item. -/
theorem HandsOut.forM {body : α → MkfsM PUnit} (each : ∀ a, HandsOut k (body a)) (items : List α) :
    HandsOut (items.length * k) (items.forM body) := by
  induction items with
  | nil =>
    rw [List.length_nil, Nat.zero_mul]
    exact handsOut_pure _
  | cons item items ih =>
    rw [List.length_cons, Nat.succ_mul, Nat.add_comm]
    exact (each item).bind fun _ => ih

/-- A loop hands out none if no item does. -/
theorem forM_handsOut {body : α → MkfsM PUnit} (each : ∀ a, HandsOut 0 (body a)) (items : List α) :
    HandsOut 0 (items.forM body) :=
  HandsOut.forM each items

/-- A file is handed one inode. -/
theorem addFile_handsOut (rootino : Nat) (file : HostFile) : HandsOut 1 (addFile rootino file) :=
  .ite (handsOut_throw _ _) ((ialloc_handsOut _).bind fun _ =>
    (iappend_handsOut _ _).bind fun _ => forM_handsOut (iappend_handsOut _) _)

/-- `balloc`. -/
theorem balloc_handsOut (used : Nat) : HandsOut 0 (balloc used) :=
  .ite (handsOut_throw _ _) (wsect_handsOut _ _)

end

/-- When `mkfs` comes to its end, it has handed out an inode for the root directory and for each
file. -/
theorem main_freeinode (ended : main files start = .ok ((), t)) :
    t.freeinode = 2 + files.length := by
  have all : HandsOut (0 + (0 + (0 + (1 + (0 + (0 + (files.length * 1 + (0 + (0 + 0)))))))))
      (main files) :=
    HandsOut.bind (fun _ => Wp.mono Wp.modify fun _ t same => by rw [same]; rfl) fun _ =>
      (forM_handsOut (fun _ => wsect_handsOut _ _) _).bind fun _ =>
      (wsect_handsOut _ _).bind fun _ => (ialloc_handsOut _).bind fun _ =>
      .ite (handsOut_throw _ _) <| (iappend_handsOut _ _).bind fun _ =>
      (iappend_handsOut _ _).bind fun _ => (HandsOut.forM (addFile_handsOut _) files).bind fun _ =>
      (rinode_handsOut _).bind fun _ => (winode_handsOut _ _).bind fun _ => fun s =>
      Wp.get (balloc_handsOut _ s)
  have count := (all start).ok ended
  rw [count, show start.freeinode = 1 from rfl]
  omega

/-- The inode blocks of the image. -/
def InodeBlock (b : Nat) : Prop := sb.inodestart ≤ b ∧ b < sb.inodestart + ninodeblocks

/-- `winode` writes the block of the inode. -/
theorem winode_disk {inum : Nat} {d : Dinode} {u u' : State} {b : Nat}
    (ended : winode inum d u = .ok ((), u')) (other : b ≠ sb.iblock inum) :
    u'.disk b = u.disk b := by
  have spec : Wp (fun _ => True) (winode inum d) (fun _ t => t.disk b = u.disk b) u :=
    Wp.bind (Wp.get (Wp.ite (fun _ => Wp.pure rfl) fun _ => Wp.throw trivial))
      fun buf v same => Wp.mono Wp.modify fun _ t wrote => by
        rw [wrote, show v = u from same]
        exact Function.update_of_ne other _ _
  exact spec.ok ended

/-- When `mkfs` comes to its end, it has handed out an inode for the root directory and for each
file, and it has kept to its geometry exactly if those are inodes of the image: the image has its
length, the inodes have numbers below `NINODES` and writing them leaves what is outside the inode
blocks, no other inode is in use, and the block numbers in the inodes and the indirect blocks are
below `FSSIZE`. -/
theorem mkfs_keeps_geometry (ended : main files start = .ok ((), t)) :
    t.freeinode = 2 + files.length ∧
    ((t.sectors = fsSize ∧
      (∀ inum < t.freeinode, inum < nInodes ∧ ∀ d u u', winode inum d u = .ok ((), u') →
        ∀ b, ¬InodeBlock b → u'.disk b = u.disk b) ∧
      ∀ inum < table.ninodes, (t.dinode inum).type ≠ 0 → inum < t.freeinode ∧
        ∀ place, (t.dinode inum).blockAt t.disk place < fsSize) ↔
      files.length + 1 < nInodes) := by
  have count := main_freeinode ended
  refine ⟨count, fun ⟨_, numbers, _⟩ => ?_, fun few => ?_⟩
  · by_contra many
    have last := (numbers nInodes (by omega)).1
    exact absurd last (Nat.lt_irrefl _)
  obtain ⟨s, -, -, made, rfl⟩ := main_made few.le ended
  have few' : files.length + 1 < 200 := few
  refine ⟨made.sectors, fun inum below => ?_, fun inum numbered typed => ⟨?_, ?_⟩⟩
  · have inside : inum < 200 ∧ InodeBlock (sb.iblock inum) := by
      show inum < 200 ∧ 32 ≤ inum / 8 + 32 ∧ inum / 8 + 32 < 32 + 26
      omega
    refine ⟨inside.1, fun d u u' wrote b outside => winode_disk wrote fun here => ?_⟩
    rw [here] at outside
    exact outside inside.2
  · by_contra free
    apply typed
    rw [finish_type made numbered, made.fresh inum (Nat.le_of_not_lt free)]
    rfl
  · exact finish_blockAt made numbered typed

/-- With enough inodes and blocks, and no slash in the names, `mkfs` comes to its end. -/
theorem main_ends (short : ∀ file ∈ files, file.bytes.length ≤ maxFile * bSize)
    (inodes : files.length + 1 ≤ nInodes) (blocks : imageBlocks files ≤ fsSize)
    (plain : ∀ file ∈ files, ascii '/' ∉ file.name) : ∃ t, main files start = .ok ((), t) := by
  obtain ⟨s, ended, -⟩ := (main_outcome short inodes blocks).2 plain
  exact ⟨s.finish, ended⟩

/-- An image with one file. -/
theorem mkfs_keeps_geometry_one : ∃ t, main [sampleFile] start = .ok ((), t) ∧
    t.sectors = fsSize := by
  obtain ⟨t, ended⟩ : ∃ t, main [sampleFile] start = .ok ((), t) :=
    main_ends (by decide +kernel) (by decide +kernel) (by decide +kernel) (by decide +kernel)
  exact ⟨t, ended, ((mkfs_keeps_geometry ended).2.mpr (by decide +kernel)).1⟩

/-- No pieces are of any size. -/
theorem no_pieces : ∀ piece ∈ ([] : List (List UInt8)), 0 < piece.length ∧ piece.length ≤ bSize :=
  List.forall_mem_nil _

/-- Many empty files. -/
def manyFiles : List HostFile :=
  List.replicate (nInodes - 1) { sampleFile with reads := [], pieces := no_pieces }

/-- With `NINODES - 1` files `mkfs` comes to its end, and has used the inode `NINODES`. -/
theorem mkfs_exceeds_inodes : ∃ t, main manyFiles start = .ok ((), t) ∧
    (t.dinode nInodes).type = tFile ∧ nInodes < t.freeinode := by
  obtain ⟨t, ended⟩ : ∃ t, main manyFiles start = .ok ((), t) :=
    main_ends (by decide +kernel) (by decide +kernel) (by decide +kernel) (by decide +kernel)
  obtain ⟨s, inodes, -, made, rfl⟩ := main_made (by decide +kernel) ended
  refine ⟨s.finish, ended, ?_, ?_⟩
  · rw [finish_type made (by decide)]
    decide +kernel
  · show nInodes < s.freeinode
    rw [inodes]
    decide +kernel

end Xv6.Mkfs
