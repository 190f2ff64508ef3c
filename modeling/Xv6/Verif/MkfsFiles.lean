import Xv6.Spec.Files
import Xv6.Verif.MkfsLayout

/-!
# Files of an image

`mkfs` allocates inodes one after another and appends to their files. Every block it takes is a
blank one, so the files it has laid out stay as they are.
-/

namespace Xv6.Mkfs

open Lib Function

variable {stops : String → Prop} {s t : State} {nodes : Nat → Dinode} {content : Nat → List UInt8}
  {room room' : Nat → Nat} {inum : Nat}

/-- The image as a volume, with the inodes as they are in memory. -/
def State.volume (s : State) (nodes : Nat → Dinode) : Volume where
  mark := fun b => decide (b < s.freeblock)
  node := nodes
  data := s.disk

/-- An inode of the image. -/
def State.dinode (s : State) (inum : Nat) : Dinode :=
  getDinode (s.disk (sb.iblock inum)) (inum % ipb * dinodeSize)

/-- Only data blocks have changed, and which of them are free. -/
structure Extends (s t : State) : Prop where
  sectors : t.sectors = s.sectors
  freeinode : t.freeinode = s.freeinode
  metadata : ∀ b, b < nmeta → t.disk b = s.disk b

/-- Nothing is written. -/
theorem Extends.refl (s : State) : Extends s s := ⟨rfl, rfl, fun _ _ => rfl⟩

variable {u : State} {β : Type} {sec x fbn b off m : Nat} {rest : Block → MkfsM β}
  {post : β → State → Prop} {din : Dinode} {i : Fin (nDirect + 1)} {j : Fin nIndirect}
  {place : Place}

/-- One program after another. -/
theorem Extends.trans (first : Extends s t) (second : Extends t u) : Extends s u where
  sectors := second.sectors.trans first.sectors
  freeinode := second.freeinode.trans first.freeinode
  metadata := fun b before => (second.metadata b before).trans (first.metadata b before)

/-! ## Sectors -/

/-- `rsect` reads a sector of the image. -/
theorem rsect_spec (inside : sec < s.sectors) (after : Wp stops (rest (s.disk sec)) post s) :
    Wp stops (rsect sec >>= rest) post s := by
  have read : Wp stops (rsect sec) (fun buf t => buf = s.disk sec ∧ t = s) s := by
    unfold rsect
    apply Wp.get
    rw [if_pos inside]
    exact Wp.pure ⟨rfl, rfl⟩
  apply Wp.bind read
  rintro _ _ ⟨rfl, rfl⟩
  exact after

/-- `rsect` stops at a sector that is not there. -/
theorem rsect_past (past : s.sectors ≤ sec) (stop : stops "read") :
    Wp stops (rsect sec >>= rest) post s := by
  have read : Wp stops (rsect sec) (fun _ _ => False) s := by
    unfold rsect
    apply Wp.get
    rw [if_neg (Nat.not_lt.mpr past)]
    exact Wp.throw stop
  exact Wp.bind read fun _ _ never => never.elim

/-- `wsect` replaces a sector of the image. -/
theorem wsect_spec {buf : Block} (inside : sec < s.sectors) :
    Wp stops (wsect sec buf) (fun _ t => t = { s with disk := update s.disk sec buf }) s := by
  apply Wp.mono Wp.modify
  rintro _ _ rfl
  rw [Nat.max_eq_left inside]

/-- A data block is written. -/
theorem extends_write (data : nmeta ≤ x) (buf : Block) :
    Extends s { s with disk := update s.disk x buf } where
  sectors := rfl
  freeinode := rfl
  metadata := fun _ before => update_of_ne (Nat.ne_of_lt (Nat.lt_of_lt_of_le before data)) _ _

/-! ## The blocks of a file -/

/-- One block more is in use. -/
theorem marks_succ (n : Nat) :
    (fun b => decide (b < n + 1)) = update (fun b => decide (b < n)) n true := by
  funext b
  by_cases here : b = n
  · simp [here]
  · rw [update_of_ne here]
    simp only [Nat.lt_succ_iff_lt_or_eq, here, or_false]

/-- The next block is free. -/
theorem State.next_free (s : State) : (s.volume nodes).mark s.freeblock = false := by
  simp [volume]

/-- Nobody has it. -/
theorem State.next_unmarked (s : State) : ¬(s.volume nodes).Marked table s.freeblock := by
  rintro ⟨-, marked⟩
  rw [s.next_free] at marked
  cases marked

/-- It is zero. -/
theorem Laid.blank_next (laid : Laid (s.volume nodes) content room)
    (inside : s.freeblock < fsSize) :
    s.disk s.freeblock = Bytes.zero :=
  laid.blank s.freeblock inside s.next_free

/-- An entry of `addrs` that is 0 is set. -/
theorem iappendAddr_zero (empty : din.addrs i = 0) :
    Wp stops (iappendAddr din i) (fun din' t => t = { s with freeblock := s.freeblock + 1 } ∧
      din' = din.setAddr i s.freeblock) s := by
  unfold iappendAddr
  rw [if_pos empty]
  apply Wp.bind Wp.modifyGet
  rintro _ _ ⟨rfl, rfl⟩
  exact Wp.pure ⟨rfl, rfl⟩

/-- It gets the next block, if there is one. -/
theorem iappendAddr_new (laid : Laid (s.volume nodes) content room)
    (numbered : inum < table.ninodes) (typed : (nodes inum).type ≠ 0) (start : nmeta ≤ s.freeblock)
    (inside : s.freeblock < fsSize) (empty : (nodes inum).addrs i = 0)
    (wider : ∀ j, room j ≤ room' j) (within : i.val < room' inum) :
    Wp stops (iappendAddr (nodes inum) i)
      (fun din t => t = { s with freeblock := s.freeblock + 1 } ∧
        din = (nodes inum).setAddr i s.freeblock ∧
        Laid (t.volume (update nodes inum din)) content room' ∧
        (t.volume (update nodes inum din)).Refers table (inum, .ofAddr i)
          s.freeblock) s := by
  apply Wp.mono (iappendAddr_zero empty)
  rintro _ _ ⟨rfl, rfl⟩
  refine ⟨rfl, rfl, ?_⟩
  have nonzero : s.freeblock ≠ 0 := Nat.ne_of_gt (Nat.lt_of_lt_of_le (by decide) start)
  have small : s.freeblock < 2 ^ 32 := inside.trans (by decide)
  have added := laid.addAddr numbered typed s.next_free inside nonzero empty wider within
  have refers := (Volume.refers_addAddr laid.accounted numbered typed s.next_unmarked nonzero small
    empty (inum, .ofAddr i) s.freeblock).mpr (.inr ⟨rfl, rfl⟩)
  have blank := laid.blank_next inside
  have same : (s.volume nodes).addAddr inum i s.freeblock =
      State.volume { s with freeblock := s.freeblock + 1 }
        (update nodes inum ((nodes inum).setAddr i s.freeblock)) := by
    unfold Volume.addAddr State.volume
    congr 1
    · exact (marks_succ _).symm
    · rw [← blank, update_eq_self]
  rw [same] at added refers
  exact ⟨added, refers⟩

/-- An address that is there stays. -/
theorem iappendAddr_old (there : din.addrs i ≠ 0) :
    Wp stops (iappendAddr din i) (fun din' t => t = s ∧ din' = din) s := by
  unfold iappendAddr
  rw [if_neg there]
  exact Wp.pure ⟨rfl, rfl⟩

/-- The image with an entry of an indirect block set to the next block. -/
def State.setEntry (s : State) (x j : Nat) : State :=
  { s with
    freeblock := s.freeblock + 1
    disk := update s.disk x
      ((s.disk x).setWord (4 * j) (UInt32.ofNat s.freeblock)) }

/-- An entry of an indirect block that is 0 is set. -/
theorem iappendEntry_zero (inside : x < s.sectors) (small : s.freeblock < 2 ^ 32)
    (empty : (s.disk x).word (4 * j) = 0) :
    Wp stops (iappendEntry x j) (fun b t => b = s.freeblock ∧ t = s.setEntry x j) s := by
  have fits : 4 * j.val + 4 ≤ bSize := by
    have inside : j.val < 128 := j.isLt
    simp only [bSize]
    omega
  have number : (UInt32.ofNat s.freeblock).toNat = s.freeblock := UInt32.toNat_ofNat_of_lt' small
  unfold iappendEntry
  apply rsect_spec inside
  rw [if_pos empty]
  apply Wp.bind Wp.modifyGet
  rintro _ _ ⟨rfl, rfl⟩
  apply Wp.bind (wsect_spec (by exact inside))
  rintro _ _ rfl
  rw [Bytes.word_setWord_same _ _ _ fits, number]
  exact Wp.pure ⟨rfl, rfl⟩

/-- An indirect block that is not there stops the program. -/
theorem iappendEntry_past {j : Nat} (past : s.sectors ≤ x) (stop : stops "read") :
    Wp stops (iappendEntry x j) (fun _ _ => False) s := by
  unfold iappendEntry
  exact rsect_past past stop

/-- It gets the next block, if there is one. -/
theorem iappendEntry_new (laid : Laid (s.volume nodes) content room) (sectors : s.sectors = fsSize)
    (numbered : inum < table.ninodes) (typed : (nodes inum).type ≠ 0) (start : nmeta ≤ s.freeblock)
    (inside : s.freeblock < fsSize) (present : (nodes inum).indirect ≠ 0)
    (empty : (nodes inum).blockAt s.disk (.entry j) = 0) (wider : ∀ j, room j ≤ room' j)
    (within : nDirect + j < room' inum) :
    Wp stops (iappendEntry (nodes inum).indirect j)
      (fun b t => Extends s t ∧ t.freeblock = s.freeblock + 1 ∧
        Laid (t.volume nodes) content room' ∧
          (t.volume nodes).Refers table (inum, .entry j) b) s := by
  have owned : (s.volume nodes).Refers table (inum, .indirect) (nodes inum).indirect :=
    Volume.refers_indirect numbered typed present
  obtain ⟨data, bound⟩ := laid.accounted.data owned
  have nonzero : s.freeblock ≠ 0 := Nat.ne_of_gt (Nat.lt_of_lt_of_le (by decide) start)
  have small : s.freeblock < 2 ^ 32 := inside.trans (by decide)
  have word : (s.disk (nodes inum).indirect).word (4 * j) = 0 := by
    rw [Dinode.blockAt_entry, if_neg present] at empty
    exact UInt32.toNat_inj.mp empty
  have added := laid.addEntry numbered typed s.next_free inside nonzero present empty wider within
  have refers := (Volume.refers_addEntry laid.accounted numbered typed s.next_unmarked nonzero small
    present empty (inum, .entry j) s.freeblock).mpr (.inr ⟨rfl, rfl⟩)
  have blank := laid.blank_next inside
  apply Wp.mono (iappendEntry_zero (sectors ▸ bound) small word)
  rintro _ _ ⟨rfl, rfl⟩
  have same : (s.volume nodes).addEntry (nodes inum).indirect j s.freeblock =
      (s.setEntry (nodes inum).indirect j).volume nodes := by
    unfold Volume.addEntry State.volume
    congr 1
    · exact (marks_succ _).symm
    · dsimp only [State.setEntry]
      rw [← blank, update_eq_self]
  rw [show (s.volume nodes).node inum = nodes inum from rfl, same] at added refers
  exact ⟨⟨rfl, rfl, (extends_write data _).metadata⟩, rfl, added, refers⟩

/-- So does an entry of the indirect block. -/
theorem iappendEntry_old {d : Dinode} (inside : d.indirect < s.sectors)
    (there : d.blockAt s.disk (.entry j) ≠ 0) :
    Wp stops (iappendEntry d.indirect j)
      (fun b t => t = s ∧ b = d.blockAt s.disk (.entry j)) s := by
  rw [Dinode.blockAt_entry] at there ⊢
  have present : d.indirect ≠ 0 := by
    intro none
    rw [if_pos none] at there
    exact there rfl
  rw [if_neg present] at there ⊢
  have word : (s.disk d.indirect).word (4 * j) ≠ 0 := by
    intro zero
    rw [zero] at there
    exact there rfl
  unfold iappendEntry
  apply rsect_spec inside
  rw [if_neg word]
  exact Wp.pure ⟨rfl, rfl⟩

/-- The block of a file at a place, after `mkfs` has looked for it with the inode in memory. -/
structure Placed (s t : State) (nodes : Nat → Dinode) (content : Nat → List UInt8)
    (room : Nat → Nat) (inum : Nat) (place : Place) (din : Dinode) (x : Nat) : Prop where
  ext : Extends s t
  type : din.type = (nodes inum).type
  laid : Laid (t.volume (update nodes inum din)) content room
  refers : (t.volume (update nodes inum din)).Refers table (inum, place) x

/-- A place that refers to no block has none. -/
theorem blockAt_eq_zero {v : Volume} (numbered : inum < table.ninodes)
    (typed : (v.node inum).type ≠ 0) (none : ∀ b, ¬v.Refers table (inum, place) b) :
    (v.node inum).blockAt v.data place = 0 := by
  by_contra nonzero
  exact none _ ⟨numbered, typed, nonzero, rfl⟩

section

variable (laid : Laid (s.volume nodes) content room) (numbered : inum < table.ninodes)
  (typed : (nodes inum).type ≠ 0)

include laid numbered typed

/-- The address after the last block of a file is 0. -/
theorem Laid.empty_direct (direct : fbn < nDirect) (full : room inum = fbn) :
    (nodes inum).addrs ⟨fbn, Nat.lt_succ_of_lt direct⟩ = 0 := by
  have there : Place.direct ⟨fbn, direct⟩ ∈ filePlace fbn := by simp [filePlace, direct]
  have none : (nodes inum).blockAt s.disk (.direct ⟨fbn, direct⟩) = 0 :=
    blockAt_eq_zero (v := s.volume nodes) numbered typed fun b refers => by
      have before := laid.blocks inum fbn _ b there refers
      omega
  exact UInt32.toNat_inj.mp none

/-- So is the entry of the indirect block. -/
theorem Laid.empty_entry (full : room inum = nDirect + j) :
    (nodes inum).blockAt s.disk (.entry j) = 0 := by
  have there : Place.entry j ∈ filePlace (nDirect + j) := by simp [filePlace]
  exact blockAt_eq_zero (v := s.volume nodes) numbered typed fun b refers => by
    have before := laid.blocks inum _ _ b there refers
    omega

/-- A file with direct blocks only has no indirect block. -/
theorem Laid.empty_indirect (full : room inum = nDirect) :
    (nodes inum).addrs (Fin.last nDirect) = 0 := by
  have absent : (nodes inum).blockAt s.disk .indirect = 0 :=
    blockAt_eq_zero (v := s.volume nodes) numbered typed fun b refers => by
      have before := laid.indirect inum b refers
      omega
  exact UInt32.toNat_inj.mp absent

end

/-- The loop of `iappend` finds a block that is there. -/
theorem iappendBlock_old (laid : Laid (s.volume nodes) content room) (sectors : s.sectors = fsSize)
    (there : place ∈ filePlace fbn) (refers : (s.volume nodes).Refers table (inum, place) b) :
    Wp stops (iappendBlock (nodes inum) fbn) (fun r t => t = s ∧ r = (nodes inum, b)) s := by
  obtain ⟨numbered, typed, nonzero, block⟩ := refers
  change (nodes inum).blockAt s.disk place = b at block
  unfold iappendBlock
  unfold filePlace at there
  split at there
  · rename_i direct
    cases there
    have there : (nodes inum).addrs ⟨fbn, Nat.lt_succ_of_lt direct⟩ ≠ 0 := by
      intro zero
      apply nonzero
      rw [← block]
      show ((nodes inum).addrs ⟨fbn, _⟩).toNat = 0
      rw [zero]
      rfl
    rw [dif_pos direct]
    apply Wp.bind (iappendAddr_old there)
    rintro _ _ ⟨rfl, rfl⟩
    exact Wp.pure ⟨rfl, Prod.ext rfl block⟩
  · rename_i far
    split at there
    · rename_i inside
      cases there
      have mapped : (nodes inum).blockAt s.disk (.entry ⟨fbn - nDirect, inside⟩) ≠ 0 := by
        rw [block]
        exact nonzero
      have present : (nodes inum).indirect ≠ 0 := by
        intro none
        rw [Dinode.blockAt_entry, if_pos none] at mapped
        exact mapped rfl
      have there : (nodes inum).addrs (Fin.last nDirect) ≠ 0 := by
        intro zero
        apply present
        rw [Dinode.indirect, zero]
        rfl
      have bound := (laid.accounted.data (Volume.refers_indirect numbered typed present)).2
      rw [dif_neg far]
      apply Wp.bind (iappendAddr_old there)
      rintro _ _ ⟨rfl, rfl⟩
      apply Wp.bind (iappendEntry_old (j := ⟨fbn - nDirect, inside⟩) (sectors ▸ bound) mapped)
      rintro _ _ ⟨rfl, rfl⟩
      exact Wp.pure ⟨rfl, Prod.ext rfl block⟩
    · cases there

/-- The bounds with one block more for a file. -/
theorem room_wider (full : room inum ≤ fbn) (j : Nat) : room j ≤ update room inum (fbn + 1) j := by
  rw [update_apply]
  split
  · rename_i here
    rw [here]
    exact Nat.le_succ_of_le full
  · exact Nat.le_refl _

/-- The address that is set. -/
theorem addrs_setAddr (d : Dinode) (i : Fin (nDirect + 1)) (small : b < 2 ^ 32) :
    ((d.setAddr i b).addrs i).toNat = b := by
  show (update d.addrs i (UInt32.ofNat b) i).toNat = b
  rw [update_self, UInt32.toNat_ofNat_of_lt' small]

/-- The loop of `iappend` takes a direct block after the last block of a file. -/
theorem iappendBlock_direct (laid : Laid (s.volume nodes) content room)
    (numbered : inum < table.ninodes) (typed : (nodes inum).type ≠ 0) (start : nmeta ≤ s.freeblock)
    (inside : s.freeblock < fsSize) (direct : fbn < nDirect) (full : room inum = fbn) :
    Wp stops (iappendBlock (nodes inum) fbn) (fun r t => t.freeblock = s.freeblock + 1 ∧
      Placed s t nodes content (update room inum (fbn + 1)) inum (.direct ⟨fbn, direct⟩)
        r.1 r.2) s := by
  have empty := laid.empty_direct numbered typed direct full
  have within : fbn < update room inum (fbn + 1) inum := by
    rw [update_self]
    exact Nat.lt_succ_self _
  unfold iappendBlock
  rw [dif_pos direct]
  apply Wp.bind
    (iappendAddr_new laid numbered typed start inside empty (room_wider full.le) within)
  rintro _ _ ⟨rfl, rfl, added, refers⟩
  refine Wp.pure ⟨rfl, ⟨rfl, rfl, fun _ _ => rfl⟩, rfl, added, ?_⟩
  dsimp only
  rw [addrs_setAddr _ _ (inside.trans (by decide))]
  rwa [Place.ofAddr, dif_pos direct] at refers

/-- It takes a block of the indirect block, and first the indirect block if there is none. -/
theorem iappendBlock_entry (laid : Laid (s.volume nodes) content room)
    (sectors : s.sectors = fsSize) (numbered : inum < table.ninodes) (typed : (nodes inum).type ≠ 0)
    (start : nmeta ≤ s.freeblock) (full : room inum = nDirect + j)
    (present : 0 < j.val → (nodes inum).indirect ≠ 0)
    (inside : s.freeblock + (if j.val = 0 then 2 else 1) ≤ fsSize) :
    Wp stops (iappendBlock (nodes inum) (nDirect + j)) (fun r t =>
      t.freeblock = s.freeblock + (if j.val = 0 then 2 else 1) ∧
        Placed s t nodes content (update room inum (nDirect + j + 1)) inum (.entry j)
          r.1 r.2) s := by
  have none := laid.empty_entry numbered typed full
  have far : ¬nDirect + j.val < nDirect := by omega
  have index : nDirect + j.val - nDirect = j := Nat.add_sub_cancel_left ..
  have within : nDirect + j.val < update room inum (nDirect + j + 1) inum := by
    rw [update_self]
    exact Nat.lt_succ_self _
  unfold iappendBlock
  rw [dif_neg far, index]
  by_cases first : j.val = 0
  · -- There is no indirect block yet.
    rw [if_pos first] at inside ⊢
    have empty := laid.empty_indirect numbered typed (by omega)
    apply Wp.bind (iappendAddr_new laid numbered typed start (by omega) empty
      (room_wider full.le) (by rw [update_self]; exact Nat.lt_succ_of_le (Nat.le_add_right ..)))
    rintro din _ ⟨rfl, made, added, -⟩
    have start' : nmeta ≤ s.freeblock + 1 := Nat.le_succ_of_le start
    have here : update nodes inum din inum = din := update_self ..
    have number : din.indirect = s.freeblock := by
      rw [made]
      exact addrs_setAddr _ _ (Nat.lt_of_lt_of_le (by omega) (show fsSize ≤ 2 ^ 32 by decide))
    have nonzero : s.freeblock ≠ 0 := Nat.ne_of_gt (Nat.lt_of_lt_of_le (by decide) start)
    have none' : din.blockAt s.disk (.entry j) = 0 := by
      rw [Dinode.blockAt_entry, number, if_neg nonzero, laid.blank_next (by omega), Bytes.word_zero]
      rfl
    have typed' : din.type ≠ 0 := by
      rw [made]
      exact typed
    have entry : Wp stops _ _ _ := iappendEntry_new (j := j) added sectors numbered
      (by rw [here]; exact typed') start' (show s.freeblock + 1 < fsSize by omega)
      (by rw [here, number]; exact nonzero) (by rw [here]; exact none')
        (fun _ => Nat.le_refl _) within
    rw [here] at entry
    apply Wp.bind entry
    rintro b t ⟨ext, count, added', refers⟩
    refine Wp.pure ⟨count, ⟨ext.sectors, ext.freeinode, ext.metadata⟩, ?_, added', refers⟩
    rw [made]
    rfl
  · rw [if_neg first] at inside ⊢
    have nonzero := present (Nat.pos_of_ne_zero first)
    have there : (nodes inum).addrs (Fin.last nDirect) ≠ 0 := by
      intro zero
      apply nonzero
      rw [Dinode.indirect, zero]
      rfl
    apply Wp.bind (iappendAddr_old there)
    rintro _ _ ⟨rfl, rfl⟩
    apply Wp.bind (iappendEntry_new laid sectors numbered typed start (by omega) nonzero none
      (room_wider full.le) within)
    rintro b t ⟨ext, count, added, refers⟩
    refine Wp.pure ⟨count, ext, rfl, ?_, ?_⟩
    · rw [update_eq_self]
      exact added
    · rw [update_eq_self]
      exact refers

/-- The blocks that a file takes when it goes on at an offset. -/
def blocksAt (off : Nat) : Nat :=
  if off % bSize = 0 then (if off / bSize = nDirect then 2 else 1) else 0

/-- A file that goes on within a block takes these blocks more. -/
theorem fileBlocks_add (positive : 0 < m) (fits : off % bSize + m ≤ bSize) :
    fileBlocks (off + m) = fileBlocks off + blocksAt off ∧
      dataBlocks (off + m) = off / bSize + 1 := by
  have after : dataBlocks (off + m) = off / bSize + 1 := by
    simp only [dataBlocks, bSize] at *
    omega
  have before : dataBlocks off = off / bSize + if off % bSize = 0 then 0 else 1 := by
    split
    · rename_i boundary
      simp only [dataBlocks, bSize] at *
      omega
    · rename_i inner
      simp only [dataBlocks, bSize] at *
      omega
  refine ⟨?_, after⟩
  rw [fileBlocks, fileBlocks, after, before, blocksAt]
  split_ifs <;> omega

/-- A longer file takes no fewer blocks. -/
theorem fileBlocks_mono {n : Nat} (le : n ≤ m) : fileBlocks n ≤ fileBlocks m := by
  have data : dataBlocks n ≤ dataBlocks m := Nat.div_le_div_right (Nat.add_le_add_right le _)
  unfold fileBlocks
  split_ifs <;> omega

section

variable (laid : Laid (s.volume nodes) content room)

include laid

/-- Every byte of a file is in a block of it. -/
theorem Laid.refers_of_lt {k : Nat} (inside : k < (content inum).length) :
    ∃ place ∈ filePlace (k / bSize), ∃ b, (s.volume nodes).Refers table (inum, place) b := by
  obtain ⟨place, there, b, refers, -⟩ := laid.bytes inum k _ (List.getElem?_eq_getElem inside)
  exact ⟨place, there, b, refers⟩

/-- A file that goes on behind its direct blocks has an indirect block, once it has come to its
second entry. -/
theorem Laid.indirect_present (length : (content inum).length = off) (far : nDirect < off / bSize) :
    (nodes inum).indirect ≠ 0 := by
  have before : nDirect * bSize < (content inum).length := by
    rw [length]
    exact Nat.lt_of_lt_of_le (Nat.mul_lt_mul_of_pos_right far (by decide)) (Nat.div_mul_le_self _ _)
  obtain ⟨place, there, b, refers⟩ := laid.refers_of_lt before
  rw [Nat.mul_div_cancel _ (by decide)] at there
  cases there
  intro none
  apply refers.2.2.1
  rw [← refers.2.2.2, Dinode.blockAt_entry]
  exact if_pos none

/-- The first part of the loop of `iappend` finds or takes the block for the next bytes. -/
theorem iappendBlock_spec (sectors : s.sectors = fsSize)
    (numbered : inum < table.ninodes) (typed : (nodes inum).type ≠ 0) (start : nmeta ≤ s.freeblock)
    (length : (content inum).length = off) (below : off / bSize < maxFile)
    (full : room inum = dataBlocks off) (fits : s.freeblock + blocksAt off ≤ fsSize) :
    Wp stops (iappendBlock (nodes inum) (off / bSize)) (fun r t =>
      t.freeblock = s.freeblock + blocksAt off ∧ ∃ place ∈ filePlace (off / bSize),
        Placed s t nodes content (update room inum (off / bSize + 1)) inum place r.1 r.2)
      s := by
  by_cases boundary : off % bSize = 0
  · have whole : dataBlocks off = off / bSize := by
      simp only [dataBlocks, bSize] at *
      omega
    rw [whole] at full
    rw [blocksAt, if_pos boundary] at fits ⊢
    by_cases direct : off / bSize < nDirect
    · rw [if_neg direct.ne] at fits ⊢
      apply Wp.mono (iappendBlock_direct laid numbered typed start fits direct full)
      exact fun r t placed => ⟨placed.1, _, by simp [filePlace, direct], placed.2⟩
    · have inside : off / bSize - nDirect < nIndirect := by
        rw [maxFile] at below
        omega
      obtain ⟨j, place⟩ : ∃ j : Fin nIndirect, off / bSize = nDirect + j :=
        ⟨⟨_, inside⟩, (Nat.add_sub_cancel' (Nat.le_of_not_lt direct)).symm⟩
      have first : off / bSize = nDirect ↔ j.val = 0 := by omega
      have present : 0 < j.val → (nodes inum).indirect ≠ 0 := fun later =>
        laid.indirect_present length (by omega)
      simp only [first] at fits ⊢
      rw [place]
      apply Wp.mono
        (iappendBlock_entry laid sectors numbered typed start (full.trans place) present fits)
      exact fun r t placed => ⟨placed.1, _, by simp [filePlace], placed.2⟩
  · have part : dataBlocks off = off / bSize + 1 := by
      simp only [dataBlocks, bSize] at *
      omega
    have before : off / bSize * bSize < (content inum).length := by
      rw [length]
      have := Nat.div_add_mod off bSize
      rw [Nat.mul_comm]
      omega
    obtain ⟨place, there, b, refers⟩ := laid.refers_of_lt before
    rw [Nat.mul_div_cancel _ (by decide)] at there
    rw [blocksAt, if_neg boundary, ← part, ← full, update_eq_self]
    apply Wp.mono (iappendBlock_old laid sectors there refers)
    rintro _ _ ⟨rfl, rfl⟩
    refine ⟨rfl, place, there, .refl _, rfl, ?_, ?_⟩
    · rw [update_eq_self]
      exact laid
    · rw [update_eq_self]
      exact refers

/-- It comes to a sector that is not there if there are too few blocks left. -/
theorem iappendBlock_full (sectors : s.sectors = fsSize)
    (numbered : inum < table.ninodes) (typed : (nodes inum).type ≠ 0) (start : nmeta ≤ s.freeblock)
    (length : (content inum).length = off) (below : off / bSize < maxFile)
    (full : room inum = dataBlocks off) (top : s.freeblock ≤ fsSize)
    (exceeds : fsSize < s.freeblock + blocksAt off) (stop : stops "read") :
    Wp stops (iappendBlock (nodes inum) (off / bSize)) (fun r t => t.sectors ≤ r.2) s := by
  have boundary : off % bSize = 0 := by
    by_contra inner
    rw [blocksAt, if_neg inner] at exceeds
    omega
  have whole : dataBlocks off = off / bSize := by
    simp only [dataBlocks, bSize] at *
    omega
  have small : fsSize < 2 ^ 32 := by decide
  have nonzero : s.freeblock ≠ 0 := Nat.ne_of_gt (Nat.lt_of_lt_of_le (by decide) start)
  rw [whole] at full
  rw [blocksAt, if_pos boundary] at exceeds
  unfold iappendBlock
  by_cases direct : off / bSize < nDirect
  · rw [if_neg direct.ne] at exceeds
    rw [dif_pos direct]
    apply Wp.bind (iappendAddr_zero (laid.empty_direct numbered typed direct full))
    rintro _ _ ⟨rfl, rfl⟩
    refine Wp.pure ?_
    dsimp only
    rw [addrs_setAddr _ _ (by omega), sectors]
    omega
  · rw [dif_neg direct]
    have inside : off / bSize - nDirect < nIndirect := by
      rw [maxFile] at below
      omega
    obtain ⟨j, place⟩ : ∃ j : Fin nIndirect, off / bSize = nDirect + j :=
      ⟨⟨_, inside⟩, (Nat.add_sub_cancel' (Nat.le_of_not_lt direct)).symm⟩
    rw [place] at full exceeds ⊢
    rw [Nat.add_sub_cancel_left]
    by_cases first : j.val = 0
    · -- The indirect block is taken first: it is missing itself, or it is the last block.
      rw [if_pos (by omega)] at exceeds
      apply Wp.bind (iappendAddr_zero (laid.empty_indirect numbered typed (by omega)))
      rintro _ _ ⟨rfl, rfl⟩
      have number : ((nodes inum).setAddr (Fin.last nDirect) s.freeblock).indirect = s.freeblock :=
        addrs_setAddr _ _ (by omega)
      change Wp stops (iappendEntry (Dinode.indirect _) _ >>= _) _ _
      rw [number]
      by_cases missing : s.freeblock = fsSize
      · exact Wp.bind (iappendEntry_past (by dsimp only; omega) stop) fun _ _ never => never.elim
      have blank : (s.disk s.freeblock).word (4 * j) = 0 := by
        rw [laid.blank_next (by omega), Bytes.word_zero]
      apply Wp.bind
        (iappendEntry_zero (by dsimp only; omega) (by dsimp only; omega) (by exact blank))
      rintro _ _ ⟨rfl, rfl⟩
      refine Wp.pure ?_
      show s.sectors ≤ s.freeblock + 1
      omega
    · rw [if_neg (by omega)] at exceeds
      have present := laid.indirect_present length (by omega)
      have there : (nodes inum).addrs (Fin.last nDirect) ≠ 0 := by
        intro zero
        apply present
        rw [Dinode.indirect, zero]
        rfl
      have bound := (laid.accounted.data (Volume.refers_indirect numbered typed present)).2
      have empty := laid.empty_entry numbered typed full
      rw [Dinode.blockAt_entry, if_neg present] at empty
      apply Wp.bind (iappendAddr_old there)
      rintro _ u ⟨same, rfl⟩
      rw [same]
      apply Wp.bind (iappendEntry_zero (sectors ▸ bound) (by omega) (UInt32.toNat_inj.mp empty))
      rintro _ _ ⟨rfl, rfl⟩
      refine Wp.pure ?_
      show s.sectors ≤ s.freeblock
      omega

end

/-! ## Appending -/

/-- The state after bytes have been appended to a file, with the inode in memory. -/
structure Appended (s t : State) (nodes : Nat → Dinode) (content : Nat → List UInt8)
    (room : Nat → Nat) (inum : Nat) (p : List UInt8) (din : Dinode) : Prop where
  ext : Extends s t
  type : din.type = (nodes inum).type
  count : t.freeblock + fileBlocks (content inum).length =
    s.freeblock + fileBlocks ((content inum).length + p.length)
  laid : Laid (t.volume (update nodes inum din))
    (update content inum (content inum ++ p))
    (update room inum (dataBlocks ((content inum).length + p.length)))

/-- One piece after another. -/
theorem Appended.trans {p q : List UInt8} {din' : Dinode}
    (first : Appended s t nodes content room inum p din)
    (second : Appended t u (update nodes inum din)
      (update content inum (content inum ++ p))
      (update room inum (dataBlocks ((content inum).length + p.length))) inum q din') :
    Appended s u nodes content room inum (p ++ q) din' := by
  obtain ⟨ext, type, count, laid⟩ := second
  rw [update_self] at type count laid
  rw [update_idem, update_idem, update_idem, List.append_assoc,
    List.length_append, Nat.add_assoc, ← List.length_append] at laid
  have before := first.count
  have total : (content inum ++ p).length + q.length =
      (content inum).length + (p ++ q).length := by
    simp only [List.length_append, Nat.add_assoc]
  rw [total, List.length_append] at count
  exact ⟨first.ext.trans ext, type.trans first.type, by omega, laid⟩

/-- One round of the loop of `iappend`: bytes are written to the block that was found. -/
theorem Placed.append {n1 : Nat} {p : List UInt8}
    (placed : Placed s t nodes content (update room inum (off / bSize + 1)) inum place din x)
    (there : place ∈ filePlace (off / bSize)) (length : (content inum).length = off)
    (count : t.freeblock = s.freeblock + blocksAt off) (positive : 0 < n1) (within : n1 ≤ p.length)
    (block : off % bSize + n1 ≤ bSize) :
    Appended s
      { t with
        disk := update t.disk x
          ((t.disk x).setRange (off % bSize) n1 fun k => p.getD k 0) }
      nodes content room inum (p.take n1) din := by
  have head : (p.take n1).length = n1 := List.length_take_of_le within
  obtain ⟨blocks, last⟩ := fileBlocks_add positive block
  have data := (placed.laid.accounted.data placed.refers).1
  constructor
  case ext => exact placed.ext.trans (extends_write data _)
  case type => exact placed.type
  case count =>
    rw [head, length, blocks]
    dsimp only
    omega
  case laid =>
    rw [head, length, last]
    refine placed.laid.write (length ▸ there) placed.refers ?_ ?_ ?_
    · rw [length, head]
      exact block
    · intro k c byte
      obtain ⟨inside, rfl⟩ := List.getElem?_eq_some_iff.mp byte
      rw [head] at inside
      rw [length, Bytes.byte_setRange_inside _ _ _ _ _ inside block, List.getElem_take,
        List.getD_eq_getElem?_getD, List.getElem?_eq_getElem (by omega), Option.getD_some]
    · intro k before
      rw [length] at before
      exact Bytes.byte_setRange_outside _ _ _ _ _ (.inl before)

/-- The loop of `iappend` appends its bytes, if there is room for them in the file and in the
image. -/
theorem iappendFrom_spec (laid : Laid (s.volume nodes) content room) (sectors : s.sectors = fsSize)
    (numbered : inum < table.ninodes) (typed : (nodes inum).type ≠ 0) (start : nmeta ≤ s.freeblock)
    (length : (content inum).length = off) (full : room inum = dataBlocks off)
    (top : s.freeblock ≤ fsSize) (most : off ≤ maxFile * bSize) (p : List UInt8)
    (short : stops "fbn < MAXFILE" ∨ off + p.length ≤ maxFile * bSize)
    (fits : stops "read" ∨ s.freeblock + fileBlocks (off + p.length) ≤ fsSize + fileBlocks off) :
    Wp stops (iappendFrom (nodes inum) off p) (fun r t =>
      r.2 = off + p.length ∧ off + p.length ≤ maxFile * bSize ∧ t.freeblock ≤ fsSize ∧
        Appended s t nodes content room inum p r.1) s := by
  induction size : p.length using Nat.strong_induction_on
    generalizing s nodes content room off p with
  | _ n ih =>
  unfold iappendFrom
  apply Wp.ite
  · intro more
    have split : off - off / bSize * bSize = off % bSize := by
      rw [Nat.mul_comm]
      exact (Nat.mod_eq_sub_mul_div).symm
    obtain ⟨n1, chunk⟩ : ∃ n1, n1 = min p.length ((off / bSize + 1) * bSize - off) := ⟨_, rfl⟩
    have part : 0 < n1 ∧ n1 ≤ p.length ∧ off % bSize + n1 ≤ bSize := by
      simp only [bSize] at *
      omega
    obtain ⟨positive, within, block⟩ := part
    obtain ⟨blocks, last⟩ := fileBlocks_add positive block
    have ahead := fileBlocks_mono (Nat.add_le_add_left within off)
    dsimp only
    rw [← chunk, split]
    by_cases below : off / bSize < maxFile
    case neg =>
      -- The file is full.
      have long : ¬off + p.length ≤ maxFile * bSize := by
        have := Nat.div_mul_le_self off bSize
        have := Nat.mul_le_mul_right bSize (Nat.le_of_not_lt below)
        omega
      rw [if_pos below]
      exact Wp.throw_bind (short.resolve_right long)
    rw [if_neg (not_not_intro below)]
    by_cases left : s.freeblock + blocksAt off ≤ fsSize
    case neg =>
      -- The image is full.
      have stop := fits.resolve_right (by omega)
      apply Wp.bind (iappendBlock_full laid sectors numbered typed start length below full top
        (Nat.lt_of_not_le left) stop)
      exact fun r t past => rsect_past past stop
    apply Wp.bind (iappendBlock_spec laid sectors numbered typed start length below full left)
    rintro ⟨din, x⟩ t ⟨count, place, there, placed⟩
    have sectors' : t.sectors = fsSize := placed.ext.sectors.trans sectors
    have bound := (placed.laid.accounted.data placed.refers).2
    apply rsect_spec (sectors' ▸ bound)
    apply Wp.bind (wsect_spec (sectors' ▸ bound))
    rintro _ _ rfl
    -- The rest is appended to the file as it is now.
    have first := placed.append there length count positive within block
    have head : (p.take n1).length = n1 := List.length_take_of_le within
    have total : off + n1 + (p.drop n1).length = off + p.length := by
      rw [List.length_drop]
      omega
    have here : update nodes inum din inum = din := update_self ..
    have most' : off + n1 ≤ maxFile * bSize := by
      simp only [bSize] at below block ⊢
      omega
    have rest := ih (p.drop n1).length (by rw [List.length_drop]; omega) first.laid sectors'
      (by rw [here, placed.type]; exact typed)
      (Nat.le_trans start (by dsimp only; omega))
      (by rw [update_self, List.length_append])
      (by rw [update_self]) (by dsimp only; omega) (by rw [length, head]; exact most')
      (p.drop n1) (by rw [length, head, total]; exact short)
      (by rw [length, head, total]; exact fits.imp_right fun fits => by dsimp only; omega) rfl
    rw [here, length, head] at rest
    apply Wp.mono rest
    rintro r u ⟨after, short', top', second⟩
    refine ⟨by omega, by omega, top', ?_⟩
    rw [show off + n1 = (content inum).length + (p.take n1).length by rw [length, head]] at second
    have both := first.trans second
    rwa [List.take_append_drop] at both
  · intro none
    have empty : p = [] := List.eq_nil_of_length_eq_zero (Nat.eq_zero_of_not_pos none)
    subst empty
    refine Wp.pure ⟨by rw [← size]; rfl, by rw [← size]; exact most, top, .refl s, rfl, rfl, ?_⟩
    rw [update_eq_self, List.append_nil, update_eq_self, List.length_nil,
      Nat.add_zero, length, ← full, update_eq_self]
    exact laid

end Xv6.Mkfs
