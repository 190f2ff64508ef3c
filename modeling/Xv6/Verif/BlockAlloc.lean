import Xv6.Lib.Wp
import Xv6.Verif.Volume

/-!
# Blocks are allocated and freed for one reference each

The marks of a volume are accounted for by the metadata and by the references of its inodes.
`balloc` and `bfree` change the marks, and the functions that call them change the references to
match. So every operation keeps the account, and no operation frees a free block.
-/

namespace Xv6

open Lib Function

/-! ## References of a volume -/

/-- The place of an entry of `addrs`. -/
def Place.ofAddr (i : Fin (nDirect + 1)) : Place :=
  if direct : i.val < nDirect then .direct ⟨i, direct⟩ else .indirect

/-- The block at a place is the address in the inode. -/
theorem Dinode.blockAt_ofAddr (d : Dinode) (disk : Disk) (i : Fin (nDirect + 1)) :
    d.blockAt disk (.ofAddr i) = (d.addrs i).toNat := by
  unfold Place.ofAddr
  split
  · rfl
  · rename_i last
    have same : i = Fin.last nDirect := Fin.ext (Nat.le_antisymm (Nat.le_of_lt_succ i.isLt)
      (Nat.le_of_not_lt last))
    rw [same]
    rfl

/-- The first addresses are those of direct blocks. -/
theorem Place.ofAddr_castSucc (k : Fin nDirect) : Place.ofAddr k.castSucc = .direct k :=
  dif_pos k.isLt

/-- The last one is that of the indirect block. -/
theorem Place.ofAddr_last : Place.ofAddr (Fin.last nDirect) = .indirect :=
  dif_neg (Nat.lt_irrefl _)

/-- The number of the indirect block. -/
def Dinode.indirect (d : Dinode) : Nat := (d.addrs (Fin.last nDirect)).toNat

/-- The block number at an entry of the indirect block. -/
theorem Dinode.blockAt_entry (d : Dinode) (disk : Disk) (j : Fin nIndirect) :
    d.blockAt disk (.entry j) =
      if d.indirect = 0 then 0 else ((disk d.indirect).word (4 * j)).toNat :=
  rfl

/-- The inode with an entry of `addrs` changed. -/
def Dinode.setAddr (d : Dinode) (i : Fin (nDirect + 1)) (b : Nat) : Dinode :=
  { d with addrs := update d.addrs i (UInt32.ofNat b) }

variable {disk disk' : Disk} {i : Fin (nDirect + 1)} {b inum : Nat} {stops : String → Prop}
  {β : Type} {post : β → Fs → Prop} {ip : Fin nInode} {change : Dinode → Dinode} {d : Dinode}
  {sb : Superblock}

/-- The block numbers of an inode depend on its indirect block. -/
theorem Dinode.blockAt_congr (d : Dinode)
    (same : d.indirect ≠ 0 → disk' d.indirect = disk d.indirect) (place : Place) :
    d.blockAt disk' place = d.blockAt disk place := by
  cases place with
  | direct i => rfl
  | indirect => rfl
  | entry j =>
    rw [blockAt_entry, blockAt_entry]
    by_cases none : d.indirect = 0
    · rw [if_pos none, if_pos none]
    · rw [same none]

/-- A zeroed block put into an empty entry of `addrs` adds its number there and nothing else. -/
theorem Dinode.blockAt_setAddr (d : Dinode) (empty : d.addrs i = 0) (small : b < 2 ^ 32)
    (zeroed : disk' b = Bytes.zero) (same : d.indirect ≠ 0 → disk' d.indirect = disk d.indirect)
    (place : Place) :
    (d.setAddr i b).blockAt disk' place =
      if place = .ofAddr i then b else d.blockAt disk place := by
  have number : (UInt32.ofNat b).toNat = b := UInt32.toNat_ofNat_of_lt' small
  by_cases here : place = .ofAddr i
  · rw [if_pos here, here, blockAt_ofAddr]
    show (update d.addrs i (UInt32.ofNat b) i).toNat = b
    rw [update_self, number]
  · rw [if_neg here]
    cases place with
    | direct k =>
      have apart : k.castSucc ≠ i := by
        rintro rfl
        exact here (Place.ofAddr_castSucc k).symm
      show (update d.addrs i (UInt32.ofNat b) k.castSucc).toNat = _
      rw [update_of_ne apart]
      rfl
    | indirect =>
      have apart : Fin.last nDirect ≠ i := by
        rintro rfl
        exact here Place.ofAddr_last.symm
      show (update d.addrs i (UInt32.ofNat b) (Fin.last nDirect)).toNat = _
      rw [update_of_ne apart]
      rfl
    | entry j =>
      by_cases last : Fin.last nDirect = i
      · -- A new indirect block has no entries yet.
        have none : d.indirect = 0 := by
          rw [indirect, last, empty]
          rfl
        have new : (d.setAddr i b).indirect = b := by
          show (update d.addrs i (UInt32.ofNat b) (Fin.last nDirect)).toNat = b
          rw [last, update_self, number]
        rw [blockAt_entry, blockAt_entry, if_pos none, new, zeroed, Bytes.word_zero]
        split <;> rfl
      · have kept : (d.setAddr i b).indirect = d.indirect := by
          show (update d.addrs i (UInt32.ofNat b) (Fin.last nDirect)).toNat = _
          rw [update_of_ne last]
          rfl
        rw [blockAt_entry, kept, ← blockAt_entry, blockAt_congr d same]

/-- A direct block is taken out of `addrs`. -/
theorem Dinode.blockAt_dropDirect (d : Dinode) (disk : Disk) (k : Fin nDirect) (place : Place) :
    (d.setAddr k.castSucc 0).blockAt disk place =
      if place = .direct k then 0 else d.blockAt disk place := by
  have last : update d.addrs k.castSucc 0 (Fin.last nDirect) = d.addrs (Fin.last nDirect) :=
    update_of_ne (Fin.castSucc_lt_last k).ne' _ _
  cases place with
  | direct l =>
    show (update d.addrs k.castSucc 0 l.castSucc).toNat = _
    by_cases here : l = k
    · rw [if_pos (by rw [here]), here, update_self]
      rfl
    · have apart : l.castSucc ≠ k.castSucc := fun same => here (Fin.castSucc_injective _ same)
      rw [if_neg (by simpa using here), update_of_ne apart]
      rfl
  | indirect =>
    show (update d.addrs k.castSucc 0 (Fin.last nDirect)).toNat = _
    rw [last, if_neg (by simp)]
    rfl
  | entry j =>
    have kept : (d.setAddr k.castSucc 0).indirect = d.indirect := congrArg UInt32.toNat last
    rw [if_neg (by simp), blockAt_entry, blockAt_entry, kept]

/-- The indirect block is taken out of `addrs`, with all it leads to. -/
theorem Dinode.blockAt_dropIndirect (d : Dinode) (disk : Disk) (place : Place) :
    (d.setAddr (Fin.last nDirect) 0).blockAt disk place =
      match place with
      | .direct _ => d.blockAt disk place
      | _ => 0 := by
  have gone : (d.setAddr (Fin.last nDirect) 0).indirect = 0 := by
    show (update d.addrs (Fin.last nDirect) 0 (Fin.last nDirect)).toNat = 0
    rw [update_self]
    rfl
  cases place with
  | direct l =>
    show (update d.addrs (Fin.last nDirect) 0 l.castSucc).toNat = _
    rw [update_of_ne (Fin.castSucc_lt_last l).ne]
    rfl
  | indirect => exact gone
  | entry j => rw [blockAt_entry, if_pos gone]

namespace Volume

variable {v v' : Volume} {sb : Superblock} {inum b : Nat} {i : Fin (nDirect + 1)}

/-- A block of the file system is marked. -/
def Marked (v : Volume) (sb : Superblock) (b : Nat) : Prop := b < sb.size ∧ v.mark b = true

/-- A place of an allocated inode refers to a block. -/
def Refers (v : Volume) (sb : Superblock) (r : Nat × Place) (b : Nat) : Prop :=
  r.1 < sb.ninodes ∧ (v.node r.1).type ≠ 0 ∧ b ≠ 0 ∧ (v.node r.1).blockAt v.data r.2 = b

/-- The marks are accounted for. -/
abbrev Accounted (v : Volume) (sb : Superblock) : Prop :=
  Ledger (v.Marked sb) (· < sb.dataStart) (v.Refers sb)

variable {r : Nat × Place}

/-- A block that is referred to is a data block. -/
theorem Accounted.data (accounted : v.Accounted sb) (refers : v.Refers sb r b) :
    sb.dataStart ≤ b ∧ b < sb.size :=
  ⟨Nat.le_of_not_lt (accounted.apart r b refers), (accounted.marked_of_refs refers).1⟩

/-- The indirect block of an allocated inode is referred to. -/
theorem refers_indirect (numbered : inum < sb.ninodes) (typed : (v.node inum).type ≠ 0)
    (nonzero : (v.node inum).indirect ≠ 0) : v.Refers sb (inum, .indirect) (v.node inum).indirect :=
  ⟨numbered, typed, nonzero, rfl⟩

/-- An inode that stays, with its indirect block, has the same references. -/
theorem refers_congr {k : Nat} (node : v'.node k = v.node k)
    (data : k < sb.ninodes → (v.node k).type ≠ 0 → (v.node k).indirect ≠ 0 →
      v'.data (v.node k).indirect = v.data (v.node k).indirect) (place : Place) (b : Nat) :
    v'.Refers sb (k, place) b ↔ v.Refers sb (k, place) b := by
  unfold Refers
  rw [node]
  refine and_congr_right fun numbered => and_congr_right fun typed => and_congr_right fun _ => ?_
  rw [Dinode.blockAt_congr _ (data numbered typed)]

/-- The volume in which a zeroed block is put into `addrs`. -/
def addAddr (v : Volume) (inum : Nat) (i : Fin (nDirect + 1)) (b : Nat) : Volume where
  mark := update v.mark b true
  data := update v.data b Bytes.zero
  node := update v.node inum ((v.node inum).setAddr i b)

/-- A new address adds one reference. -/
theorem refers_addAddr (accounted : v.Accounted sb) (numbered : inum < sb.ninodes)
    (typed : (v.node inum).type ≠ 0) (unmarked : ¬v.Marked sb b) (nonzero : b ≠ 0)
    (small : b < 2 ^ 32) (empty : (v.node inum).addrs i = 0) (r : Nat × Place) (c : Nat) :
    (v.addAddr inum i b).Refers sb r c ↔ v.Refers sb r c ∨ r = (inum, .ofAddr i) ∧ c = b := by
  have data {j : Nat} (numbered' : j < sb.ninodes) (typed' : (v.node j).type ≠ 0)
      (some' : (v.node j).indirect ≠ 0) :
      (v.addAddr inum i b).data (v.node j).indirect = v.data (v.node j).indirect := by
    apply update_of_ne
    intro same
    apply unmarked
    rw [← same]
    exact accounted.marked_of_refs (refers_indirect numbered' typed' some')
  obtain ⟨j, place⟩ := r
  by_cases here : j = inum
  · subst here
    have node : (v.addAddr j i b).node j = (v.node j).setAddr i b := update_self ..
    have zeroed : (v.addAddr j i b).data b = Bytes.zero := update_self ..
    have shape := (v.node j).blockAt_setAddr empty small zeroed (data numbered typed) place
    simp only [Refers, node, shape, Prod.mk.injEq, true_and]
    by_cases there : place = .ofAddr i
    · have none : (v.node j).blockAt v.data place = 0 := by
        rw [there, Dinode.blockAt_ofAddr, empty]
        rfl
      rw [none, if_pos there]
      constructor
      · rintro ⟨-, -, -, same⟩
        exact .inr ⟨there, same.symm⟩
      · rintro (⟨-, -, some', none'⟩ | ⟨-, same⟩)
        · exact absurd none'.symm some'
        · rw [same]
          exact ⟨numbered, typed, nonzero, rfl⟩
    · simp only [there, if_false, false_and, or_false]
      rfl
  · have node : (v.addAddr inum i b).node j = v.node j := update_of_ne here _ _
    simp [refers_congr node data, here]

/-- The volume in which a zeroed block is put into an entry of an indirect block. -/
def addEntry (v : Volume) (indirect : Nat) (j : Fin nIndirect) (b : Nat) : Volume where
  mark := update v.mark b true
  data := update (update v.data b Bytes.zero) indirect
    ((v.data indirect).setWord (4 * j) (UInt32.ofNat b))
  node := v.node

/-- So does a new entry of the indirect block. -/
theorem refers_addEntry (accounted : v.Accounted sb) (numbered : inum < sb.ninodes)
    (typed : (v.node inum).type ≠ 0) (unmarked : ¬v.Marked sb b) (nonzero : b ≠ 0)
    (small : b < 2 ^ 32) (present : (v.node inum).indirect ≠ 0) {j : Fin nIndirect}
    (empty : (v.node inum).blockAt v.data (.entry j) = 0) (r : Nat × Place) (c : Nat) :
    (v.addEntry (v.node inum).indirect j b).Refers sb r c ↔
      v.Refers sb r c ∨ r = (inum, .entry j) ∧ c = b := by
  have owned : v.Refers sb (inum, .indirect) (v.node inum).indirect :=
    refers_indirect numbered typed present
  obtain ⟨k, place⟩ := r
  by_cases here : k = inum
  · subst here
    generalize found : (v.node k).indirect = indirect at *
    have content : (v.addEntry indirect j b).data indirect =
        (v.data indirect).setWord (4 * j) (UInt32.ofNat b) := update_self ..
    have number : (UInt32.ofNat b).toNat = b := UInt32.toNat_ofNat_of_lt' small
    have bound (k : Fin nIndirect) : 4 * k.val + 4 ≤ bSize := by
      have inside : k.val < 128 := k.isLt
      simp only [bSize]
      omega
    have shape : (v.node k).blockAt (v.addEntry indirect j b).data place =
        if place = .entry j then b else (v.node k).blockAt v.data place := by
      cases place with
      | direct i => rfl
      | indirect => rfl
      | entry l =>
        rw [Dinode.blockAt_entry, found, if_neg present, content]
        by_cases there : l = j
        · rw [if_pos (by rw [there]), there, Bytes.word_setWord_same _ _ _ (bound j), number]
        · have apart : 4 * l.val + 4 ≤ 4 * j.val ∨ 4 * j.val + 4 ≤ 4 * l.val := by
            have distinct : l.val ≠ j.val := fun same => there (Fin.ext same)
            omega
          rw [if_neg (by simpa using there), Bytes.word_setWord_apart _ _ _ _ apart,
            Dinode.blockAt_entry, found, if_neg present]
    show k < sb.ninodes ∧ (v.node k).type ≠ 0 ∧ c ≠ 0 ∧
      (v.node k).blockAt (v.addEntry indirect j b).data place = c ↔ _
    rw [shape]
    by_cases there : place = .entry j
    · rw [if_pos there]
      constructor
      · rintro ⟨-, -, -, same⟩
        exact .inr ⟨by rw [there], same.symm⟩
      · rintro (⟨-, -, some', none'⟩ | ⟨-, same⟩)
        · rw [there] at none'
          exact absurd (empty.symm.trans none').symm some'
        · rw [same]
          exact ⟨numbered, typed, nonzero, rfl⟩
    · rw [if_neg there]
      simp only [Prod.mk.injEq, there, and_false, false_and, or_false]
      rfl
  · -- The indirect block of another inode is another block, and it is marked.
    have data (numbered' : k < sb.ninodes) (typed' : (v.node k).type ≠ 0)
        (some' : (v.node k).indirect ≠ 0) :
        (v.addEntry (v.node inum).indirect j b).data (v.node k).indirect =
          v.data (v.node k).indirect := by
      have other : v.Refers sb (k, .indirect) (v.node k).indirect :=
        refers_indirect numbered' typed' some'
      have apart : (v.node k).indirect ≠ (v.node inum).indirect := by
        intro same
        rw [same] at other
        exact here (congrArg Prod.fst (accounted.once _ _ _ other owned))
      have apart' : (v.node k).indirect ≠ b := by
        intro same
        rw [same] at other
        exact unmarked (accounted.marked_of_refs other)
      show update (update v.data b Bytes.zero) _ _ (v.node k).indirect = _
      rw [update_of_ne apart, update_of_ne apart']
    have node : (v.addEntry (v.node inum).indirect j b).node k = v.node k := rfl
    simp [refers_congr node data, here]

/-- A place has one block. -/
theorem Refers.unique {b c : Nat} (refers : v.Refers sb r b) (refers' : v.Refers sb r c) : c = b :=
  refers'.2.2.2.symm.trans refers.2.2.2

/-- The contents of a data block that is no indirect block are no references. -/
theorem Accounted.writeLeaf (accounted : v.Accounted sb) {place : Place}
    (refers : v.Refers sb (inum, place) b) (leaf : place ≠ .indirect) (data : Block) :
    Accounted { v with data := update v.data b data } sb ∧
      ∀ r c, Refers { v with data := update v.data b data } sb r c ↔ v.Refers sb r c := by
  have same (r : Nat × Place) (c : Nat) :
      Refers { v with data := update v.data b data } sb r c ↔ v.Refers sb r c := by
    obtain ⟨k, place'⟩ := r
    have node : Volume.node { v with data := update v.data b data } k = v.node k := rfl
    apply refers_congr node
    intro numbered typed present
    apply update_of_ne
    intro meet
    have other : v.Refers sb (k, .indirect) (v.node k).indirect :=
      refers_indirect numbered typed present
    rw [meet] at other
    exact leaf (congrArg Prod.snd (accounted.once _ _ _ refers other))
  exact ⟨accounted.congr (fun _ => Iff.rfl) same, same⟩

/-- One more block is marked. -/
theorem marked_set (inside : b < sb.size) (marks : v'.mark = update v.mark b true) (c : Nat) :
    v'.Marked sb c ↔ v.Marked sb c ∨ c = b := by
  unfold Marked
  rw [marks, update_apply]
  by_cases here : c = b
  · simp [here, inside]
  · simp [here]

/-- One block is not marked any more. -/
theorem marked_clear (marks : v'.mark = update v.mark b false) (c : Nat) :
    v'.Marked sb c ↔ v.Marked sb c ∧ c ≠ b := by
  unfold Marked
  rw [marks, update_apply]
  by_cases here : c = b
  · simp [here]
  · simp [here]

end Volume

/-! ## The invariant -/

/-- The only panic that is not allowed. -/
def noDoubleFree : String → Prop := fun message => message ≠ "freeing free block"

/-- The file system holds a volume whose marks are accounted for, and its allocations were good. -/
structure Sound (s : Fs) (v : Volume) : Prop where
  shows : Shows s.toStore v
  accounted : v.Accounted s.sb
  fresh : ∀ call ∈ s.ballocs, call.Fresh

/-- What a disk refers to is what its volume does. -/
theorem Shows.refers_iff {s : Store} {v : Volume} (shows : Shows s v) (accounted : v.Accounted s.sb)
    (r : Nat × Place) (b : Nat) : s.Refers r b ↔ v.Refers s.sb r b := by
  obtain ⟨k, place⟩ := r
  unfold Store.Refers Volume.Refers
  refine and_congr_right fun numbered => ?_
  rw [shows.node k numbered]
  refine and_congr_right fun typed => and_congr_right fun _ => ?_
  rw [Dinode.blockAt_congr]
  intro present
  obtain ⟨start, inside⟩ := accounted.data (Volume.refers_indirect numbered typed present)
  exact shows.data _ start inside

/-- A store is accounted if the volume it shows is. -/
theorem Shows.accounted {s : Store} {v : Volume} (shows : Shows s v)
    (accounted : v.Accounted s.sb) :
    s.Accounted := by
  apply accounted.congr
  · intro b
    unfold Store.Marked Volume.Marked
    exact and_congr_right fun inside => by rw [shows.mark b inside]
  · exact shows.refers_iff accounted

/-! ## Blocks -/

variable {s t : Fs} {v v' : Volume}

/-- `log_write` stores the block. -/
theorem logWrite_spec {data : Block} :
    Wp stops (logWrite b data) (fun _ t => t = { s with toStore := s.toStore.write b data }) s :=
  Wp.modify

/-- `bread` returns it. -/
theorem bread_spec {rest : Block → FsM β} (after : Wp stops (rest (s.disk b)) post s) :
    Wp stops (bread b >>= rest) post s :=
  Wp.get after

/-- No inode changes on disk. -/
structure Untouched (s t : Store) : Prop where
  sb : t.sb = s.sb
  dinode : ∀ i, i < s.sb.ninodes → t.dinode i = s.dinode i

/-- Two steps that leave the rest. -/
theorem Untouched.trans {s t u : Store} (first : Untouched s t) (second : Untouched t u) :
    Untouched s u := by
  refine ⟨second.sb.trans first.sb, fun i numbered => ?_⟩
  rw [second.dinode i (first.sb ▸ numbered), first.dinode i numbered]

/-- A change of a mark touches no inode. -/
theorem Shows.untouched_setMark {s : Store} (shows : Shows s v) (b : Nat) (value : Bool) :
    Untouched s (s.setMark b value) :=
  ⟨rfl, fun _ numbered => s.dinode_write_of_ne _ (shows.wellFormed.inode_ne_bitmap numbered b)⟩

/-- A data block is none of the rest. -/
theorem Shows.untouched_write {s : Store} (shows : Shows s v) (start : s.sb.dataStart ≤ b)
    (inside : b < s.sb.size) (data : Block) : Untouched s (s.write b data) :=
  ⟨rfl, fun _ numbered => s.dinode_write_of_ne _
    (shows.wellFormed.data_ne_inode start inside numbered)⟩

/-- The volume after `balloc`. -/
def Volume.grab (v : Volume) (b : Nat) : Volume where
  mark := update v.mark b true
  data := update v.data b Bytes.zero
  node := v.node

/-- `readsb` finds the superblock that is in memory. -/
theorem readsb_spec (same : getSuperblock (s.disk 1) = s.sb) :
    Wp stops readsb (fun _ t => t = s) s := by
  unfold readsb
  apply bread_spec
  apply Wp.mono Wp.modify
  rintro _ _ rfl
  rw [same]

/-- `bfree` clears the mark of a marked block. -/
theorem bfree_spec (shows : Shows s.toStore v) (marked : v.Marked s.sb b) :
    Wp noDoubleFree (bfree b)
      (fun _ t => t = { s with toStore := s.toStore.setMark b false }) s := by
  obtain ⟨inside, set⟩ := marked
  rw [← shows.mark b inside] at set
  unfold bfree
  apply Wp.bind (readsb_spec shows.sb)
  rintro _ _ rfl
  apply Wp.get
  apply bread_spec
  apply Wp.ite
  · intro clear
    rw [Store.mark, clear] at set
    cases set
  · exact fun _ => logWrite_spec

/-! ## The cache -/

/-- An entry of the cache is changed. -/
theorem setInode_spec {change : Inode → Inode} :
    Wp stops (setInode ip change)
      (fun _ t => t = { s with toStore := s.toStore.setEntry ip (change (s.icache ip)) }) s :=
  Wp.modify

/-- So is the copy in an entry. -/
theorem setCopy_spec :
    Wp stops (setCopy ip change)
      (fun _ t => t =
        { s with
          toStore := s.toStore.setEntry ip
            { s.icache ip with copy := change (s.icache ip).copy } }) s :=
  Wp.modify

/-- `setAddr` replaces one entry of `addrs`. -/
theorem setAddr_spec :
    Wp stops (setAddr ip i b)
      (fun _ t => t =
        { s with
          toStore := s.toStore.setEntry ip
            { s.icache ip with copy := (s.icache ip).copy.setAddr i b } }) s :=
  Wp.modify

/-- `iupdate` stores the copy of an entry. -/
theorem iupdate_run :
    Wp stops (iupdate ip)
      (fun _ t => t =
        { s with toStore := s.toStore.setDinode (s.icache ip).inum (s.icache ip).copy }) s := by
  unfold iupdate
  apply Wp.get
  apply bread_spec
  exact logWrite_spec

/-- Only the copy of one inode changes in the cache, and no inode on disk. -/
structure Touches (ip : Fin nInode) (s t : Store) : Prop extends Untouched s t where
  others : ∀ jp, jp ≠ ip → t.icache jp = s.icache jp
  inum : (t.icache ip).inum = (s.icache ip).inum
  ref : (t.icache ip).ref = (s.icache ip).ref
  valid : (t.icache ip).valid = (s.icache ip).valid

/-- The file system changes outside the inodes. -/
theorem Untouched.touches {s t : Store} (untouched : Untouched s t) (icache : t.icache = s.icache)
    (ip : Fin nInode) : Touches ip s t :=
  { untouched with
    others := fun _ _ => by rw [icache]
    inum := by rw [icache]
    ref := by rw [icache]
    valid := by rw [icache] }

/-- Two steps on one inode. -/
theorem Touches.trans {s t u : Store} (first : Touches ip s t) (second : Touches ip t u) :
    Touches ip s u :=
  { first.toUntouched.trans second.toUntouched with
    others := fun jp apart => (second.others jp apart).trans (first.others jp apart)
    inum := second.inum.trans first.inum
    ref := second.ref.trans first.ref
    valid := second.valid.trans first.valid }

/-- The inode is held as before. -/
theorem Touches.holds {s t : Store} (touches : Touches ip s t) :
    t.Holds inum ip ↔ s.Holds inum ip := by
  unfold Store.Holds
  rw [touches.ref, touches.valid, touches.inum]

/-- A change of the copy shows in the volume. -/
theorem Shows.setCopy {s : Store} (shows : Shows s v) (holds : s.Holds inum ip)
    (typed : d.type ≠ 0) :
    Shows (s.setEntry ip { s.icache ip with copy := d })
        { v with node := update v.node inum d } ∧
      Touches ip s (s.setEntry ip { s.icache ip with copy := d }) := by
  obtain ⟨inUse, valid, rfl⟩ := holds
  have typed' := (shows.typed _ ip ⟨inUse, valid, rfl⟩).2
  have entry := s.setEntry_same ip { s.icache ip with copy := d }
  refine ⟨shows.enter inUse inUse rfl valid typed typed', ⟨rfl, fun _ _ => rfl⟩, ?_, ?_, ?_, ?_⟩
  · exact fun jp apart => s.setEntry_of_ne _ apart
  all_goals rw [entry]

/-- The copy is the node of the volume. -/
theorem Shows.copy_eq {s : Store} (shows : Shows s v) (holds : s.Holds inum ip) :
    (s.icache ip).copy = v.node inum := by
  have numbered : inum < s.sb.ninodes := holds.2.2 ▸ shows.numbered ip holds.1
  rw [← Store.inode_of_holds shows.unique holds, shows.node inum numbered]

/-- An inode that is held is an allocated one of the file system. -/
theorem Shows.held {s : Store} (shows : Shows s v) (holds : s.Holds inum ip) :
    inum < s.sb.ninodes ∧ (v.node inum).type ≠ 0 := by
  refine ⟨holds.2.2 ▸ shows.numbered ip holds.1, ?_⟩
  rw [← shows.copy_eq holds]
  exact (shows.typed inum ip holds).1

/-! ## `bmap` -/

/-- An inode gets more blocks and loses none. -/
structure Grows (sb : Superblock) (inum : Nat) (v v' : Volume) : Prop where
  others : ∀ i, i ≠ inum → v'.node i = v.node i
  node : { v'.node inum with addrs := (v.node inum).addrs } = v.node inum
  keeps : ∀ r b, v.Refers sb r b → v'.Refers sb r b

/-- Nothing is added. -/
theorem Grows.refl (sb : Superblock) (inum : Nat) (v : Volume) : Grows sb inum v v :=
  ⟨fun _ _ => rfl, rfl, fun _ _ refers => refers⟩

/-- Two additions in a row. -/
theorem Grows.trans {v v' v'' : Volume} (first : Grows sb inum v v')
    (second : Grows sb inum v' v'') : Grows sb inum v v'' := by
  refine ⟨fun i apart => (second.others i apart).trans (first.others i apart), ?_,
    fun r b refers => second.keeps r b (first.keeps r b refers)⟩
  rw [← first.node, ← second.node]

/-! ## `writei` -/

/-- The blocks of a file below an offset are there. -/
def Volume.MappedTo (v : Volume) (sb : Superblock) (inum off : Nat) : Prop :=
  ∀ k, k * bSize < off → ∃ place ∈ filePlace k, ∃ b, v.Refers sb (inum, place) b

/-- A file keeps the blocks it has. -/
theorem Grows.mappedTo {i off : Nat} (grows : Grows sb i v v') (mapped : v.MappedTo sb inum off) :
    v'.MappedTo sb inum off := by
  intro k below
  obtain ⟨place, isPlace, b, refers⟩ := mapped k below
  exact ⟨place, isPlace, b, grows.keeps _ _ refers⟩

/-- A place of a file is not that of the indirect block. -/
theorem filePlace_ne_indirect {k : Nat} {place : Place} (isPlace : place ∈ filePlace k) :
    place ≠ .indirect := by
  rintro rfl
  unfold filePlace at isPlace
  split at isPlace
  · cases isPlace
  · split at isPlace
    · cases isPlace
    · cases isPlace

/-- An entry that has been read agrees with the disk, in a part of the inode. -/
def Store.Agrees (s : Store) (part : Dinode → Dinode) (ip : Fin nInode) : Prop :=
  ∀ inum, s.Holds inum ip → part (s.dinode inum) = part (s.icache ip).copy

/-- It agrees with the disk as a whole. -/
abbrev Store.Clean (s : Store) (ip : Fin nInode) : Prop := s.Agrees id ip

/-- The parts of an inode other than its list of blocks. -/
def Dinode.unmapped (d : Dinode) : Dinode := { d with addrs := fun _ => 0 }

/-- What agrees as a whole agrees in every part. -/
theorem Store.Clean.agrees {s : Store} (clean : s.Clean ip) (part : Dinode → Dinode) :
    s.Agrees part ip :=
  fun inum holds => congrArg part (clean inum holds)

/-- An entry that stays, with its inode on disk, agrees as before. -/
theorem Store.Agrees.congr {s t : Store} {part : Dinode → Dinode} (agrees : s.Agrees part ip)
    (entry : t.icache ip = s.icache ip)
    (dinode : ∀ inum, s.Holds inum ip → t.dinode inum = s.dinode inum) : t.Agrees part ip := by
  intro inum holds
  have holds' : s.Holds inum ip := by
    unfold Store.Holds at holds ⊢
    rwa [entry] at holds
  rw [dinode inum holds', entry]
  exact agrees inum holds'

/-- No entry gets to disagree with the disk. -/
def CleanKept (s t : Store) : Prop := ∀ part ip, s.Agrees part ip → t.Agrees part ip

/-- The inode is changed in memory and stored. -/
def Store.save (s : Store) (ip : Fin nInode) (d : Dinode) : Store :=
  (s.setEntry ip { s.icache ip with copy := d }).setDinode (s.icache ip).inum d

/-- A change in memory followed by `iupdate`. -/
theorem save_run :
    Wp stops (setCopy ip change >>= fun _ => iupdate ip)
      (fun _ t => t = { s with toStore := s.toStore.save ip (change (s.icache ip).copy) }) s := by
  apply Wp.bind setCopy_spec
  rintro _ _ rfl
  apply Wp.mono iupdate_run
  rintro _ _ rfl
  have entry := s.setEntry_same ip { s.icache ip with copy := change (s.icache ip).copy }
  simp only [Store.save, entry]

/-- The copy is changed and stored. -/
theorem save_bind {rest : FsM β} (after : Wp stops rest post
      { s with toStore := s.toStore.save ip (change (s.icache ip).copy) }) :
    Wp stops (setCopy ip change >>= fun _ => iupdate ip >>= fun _ => rest) post s := by
  rw [← bind_assoc]
  apply Wp.bind save_run
  rintro _ _ rfl
  exact after

/-- The volume with an inode replaced. -/
def Volume.setNode (v : Volume) (inum : Nat) (d : Dinode) : Volume :=
  { v with node := update v.node inum d }

/-- What saving an inode does. -/
structure Saved (s : Store) (ip : Fin nInode) (inum : Nat) (d : Dinode) (v : Volume) (t : Store) :
    Prop where
  shows : Shows t (v.setNode inum d)
  sb : t.sb = s.sb
  holds : t.Holds inum ip
  clean : t.Clean ip
  others : ∀ part jp, jp ≠ ip → s.Agrees part jp → t.Agrees part jp

/-- A copy that is stored shows in the volume. -/
theorem Shows.save {s : Store} (shows : Shows s v) (holds : s.Holds inum ip) (typed : d.type ≠ 0) :
    Saved s ip inum d v (s.save ip d) := by
  obtain ⟨entered, touches⟩ := shows.setCopy holds typed
  have holds₁ := touches.holds.mpr holds
  have stored := entered.iupdate holds₁ typed
  have entry := s.setEntry_same ip { s.icache ip with copy := d }
  have same := holds.2.2
  have shape : s.save ip d = (s.setEntry ip { s.icache ip with copy := d }).setDinode inum d := by
    rw [Store.save, same]
  rw [shape]
  refine ⟨stored, rfl, holds₁, ?_, ?_⟩
  · intro i holds'
    have number : i = inum := holds'.2.2.symm.trans holds₁.2.2
    rw [number, Store.dinode_setDinode, if_pos rfl]
    show d = ((s.setEntry ip { s.icache ip with copy := d }).icache ip).copy
    rw [entry]
  · intro part jp apart agrees
    have entry' : (s.setEntry ip { s.icache ip with copy := d }).icache jp = s.icache jp :=
      s.setEntry_of_ne _ apart
    refine Store.Agrees.congr agrees entry' fun i holds' => ?_
    have other : i ≠ inum := by
      intro number
      exact apart (shows.unique jp ip holds'.1 holds.1
        (holds'.2.2.trans (number.trans same.symm)))
    rw [Store.dinode_setDinode, if_neg other]
    rfl

/-- Every file has all its blocks up to its size. -/
def Volume.Full (v : Volume) (sb : Superblock) : Prop :=
  ∀ inum, inum < sb.ninodes → (v.node inum).type ≠ 0 →
    v.MappedTo sb inum (v.node inum).size.toNat

/-- The invariant between operations. -/
structure Good (s : Fs) (v : Volume) : Prop extends Sound s v where
  full : v.Full s.sb

/-- The references of the volume with an inode replaced by one with the same blocks. -/
theorem Volume.refers_setNode (typed : (v.node inum).type ≠ 0) (typed' : d.type ≠ 0)
    (addrs : d.addrs = (v.node inum).addrs) (r : Nat × Place) (b : Nat) :
    (v.setNode inum d).Refers sb r b ↔ v.Refers sb r b := by
  obtain ⟨k, place⟩ := r
  by_cases here : k = inum
  · subst here
    have node : (v.setNode k d).node k = d := update_self ..
    have block : d.blockAt v.data place = (v.node k).blockAt v.data place := by
      cases place <;> simp only [Dinode.blockAt, addrs]
    unfold Refers
    simp only [node, typed, typed', ne_eq, not_false_iff, true_and]
    exact and_congr_right fun _ => and_congr_right fun _ => by rw [← block]; rfl
  · have node : (v.setNode inum d).node k = v.node k := update_of_ne here _ _
    exact refers_congr node (fun _ _ _ => rfl) place b

/-- A change of an inode that leaves its blocks and its type. -/
theorem Good.setNode (good : Good s v) (numbered : inum < s.sb.ninodes)
    (typed : (v.node inum).type ≠ 0) (typed' : d.type ≠ 0) (addrs : d.addrs = (v.node inum).addrs)
    (size : v.MappedTo s.sb inum d.size.toNat) :
    (v.setNode inum d).Accounted s.sb ∧ (v.setNode inum d).Full s.sb := by
  have refers (r : Nat × Place) (b : Nat) :
      (v.setNode inum d).Refers s.sb r b ↔ v.Refers s.sb r b :=
    Volume.refers_setNode typed typed' addrs r b
  refine ⟨good.accounted.congr (fun _ => Iff.rfl) refers, fun i numbered' allocated => ?_⟩
  have keeps {off : Nat} (mapped : v.MappedTo s.sb i off) :
      (v.setNode inum d).MappedTo s.sb i off := by
    intro k below
    obtain ⟨place, isPlace, b, old⟩ := mapped k below
    exact ⟨place, isPlace, b, (refers _ _).mpr old⟩
  by_cases here : i = inum
  · subst here
    have node : (v.setNode i d).node i = d := update_self ..
    rw [node]
    exact keeps size
  · have node : (v.setNode inum d).node i = v.node i := update_of_ne here _ _
    rw [node] at allocated ⊢
    exact keeps (good.full i numbered' allocated)

/-- Files keep their blocks when one grows. -/
theorem Grows.full (grows : Grows sb inum v v') (full : v.Full sb) : v'.Full sb := by
  intro i numbered allocated
  have same : (v'.node i).size = (v.node i).size ∧ (v'.node i).type = (v.node i).type := by
    by_cases here : i = inum
    · rw [here, ← grows.node]
      exact ⟨rfl, rfl⟩
    · rw [grows.others i here]
      exact ⟨rfl, rfl⟩
  rw [same.1]
  rw [same.2] at allocated
  exact grows.mappedTo (full i numbered allocated)

end Xv6
