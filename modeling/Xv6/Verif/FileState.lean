import Xv6.Spec.FileTree
import Xv6.Verif.FileBytes

/-!
# The file system between operations

The operations on the inode cache change one entry and leave the disk, so a file system that is
whole stays whole and its files stay as they are. A write changes one file. A computation of the
upper layers is described by the references it holds, with the inodes they are for, and by its
locks.
-/

namespace Xv6

open Lib Function

/-! ## One entry of the inode cache changes -/

namespace Store

variable {s t : Store} {ip : Fin nInode} {inum : Nat}

/-- If the inodes in memory are those on disk, so is what the kernel sees. -/
theorem inode_of_clean (clean : ∀ inum ip, s.Holds inum ip → (s.icache ip).copy = s.dinode inum)
    (inum : Nat) : s.inode inum = s.dinode inum := by
  unfold inode
  split
  · rename_i ip found
    exact clean inum ip (by simpa using List.find?_some found)
  · rfl

/-- What a file is made of. -/
theorem files_eq_some {file : File} (found : s.files inum = some file) :
    inum < s.sb.ninodes ∧ (s.dinode inum).type ≠ 0 ∧ file = (s.dinode inum).file s.disk := by
  unfold files at found
  split at found
  · rename_i allocated
    exact ⟨allocated.1, allocated.2, (Option.some.inj found).symm⟩
  · cases found

/-- An inode with a type has a file. -/
theorem files_of_typed {i : Nat} (numbered : i < s.sb.ninodes)
    (typed : (s.dinode i).type ≠ 0) : s.files i = some ((s.dinode i).file s.disk) :=
  if_pos ⟨numbered, typed⟩

/-- Files depend on the disk. -/
theorem files_congr (disk : t.disk = s.disk) (sb : t.sb = s.sb) : t.files = s.files := by
  funext i
  rw [files, dinode, disk, sb, ← dinode, ← files]

/-- So does the room for them. -/
theorem affords_congr (disk : t.disk = s.disk) (sb : t.sb = s.sb) (n : Nat) :
    t.Affords inum n ↔ s.Affords inum n := by
  unfold Affords freeBlocks mark dinode
  rw [disk, sb]

/-- The inode cache changes, and agrees with the disk. -/
theorem Whole.recache (whole : s.Whole) (disk : t.disk = s.disk) (sb : t.sb = s.sb)
    (unique : t.Unique) (numbered : ∀ ip, 0 < (t.icache ip).ref → (t.icache ip).inum < s.sb.ninodes)
    (read : ∀ inum ip, t.Holds inum ip →
      (t.icache ip).copy = s.dinode inum ∧ (s.dinode inum).type ≠ 0) : t.Whole := by
  have dinode (i : Nat) : t.dinode i = s.dinode i := by rw [Store.dinode, disk, sb, ← Store.dinode]
  have clean (i : Nat) (jp : Fin nInode) (holds : t.Holds i jp) :
      (t.icache jp).copy = t.dinode i := by
    rw [dinode]
    exact (read i jp holds).1
  have inode (i : Nat) : t.inode i = s.inode i := by
    rw [inode_of_clean clean, dinode, inode_of_clean whole.clean]
  constructor
  case full =>
    intro i bound typed
    rw [sb] at bound
    rw [dinode] at typed ⊢
    rw [disk]
    exact whole.full i bound typed
  case clean => exact clean
  case toLaid =>
    constructor
    case wellFormed => exact sb ▸ whole.wellFormed
    case sb =>
      rw [disk, sb]
      exact whole.sb
    case unique => exact unique
    case numbered => exact sb ▸ numbered
    case typed =>
      intro i jp holds
      obtain ⟨same, typed⟩ := read i jp holds
      rw [same, dinode]
      exact ⟨typed, typed⟩
    case cover =>
      have marks (b : Nat) : t.Marked b ↔ s.Marked b := by
        unfold Marked mark
        rw [disk, sb]
      have refs (r : Nat × Place) (b : Nat) : t.Refers r b ↔ s.Refers r b := by
        unfold Refers
        rw [disk, sb, inode]
      have reserved : t.Reserved = s.Reserved := funext fun b => by rw [Reserved, Reserved, sb]
      rw [reserved]
      exact whole.cover.sub marks fun r b => (refs r b).mp

/-- An entry of an intact file system changes. -/
theorem Whole.setEntry (whole : s.Whole) {x : Inode} (numbered : 0 < x.ref → x.inum < s.sb.ninodes)
    (unique : 0 < x.ref → ∀ jp, jp ≠ ip → 0 < (s.icache jp).ref → (s.icache jp).inum ≠ x.inum)
    (read : 0 < x.ref → x.valid = true → x.copy = s.dinode x.inum ∧ (s.dinode x.inum).type ≠ 0) :
    (s.setEntry ip x).Whole := by
  have alone : (s.setEntry ip x).Unique := Unique.setEntry whole.unique unique
  apply whole.recache (t := s.setEntry ip x) rfl rfl alone
  · intro jp used
    by_cases here : jp = ip
    · rw [here, setEntry_same] at used ⊢
      exact numbered used
    · rw [setEntry_of_ne s x here] at used ⊢
      exact whole.numbered jp used
  · intro i jp holds
    by_cases here : jp = ip
    · obtain ⟨used, valid, rfl⟩ := holds
      rw [here, setEntry_same] at used valid ⊢
      exact read used valid
    · rw [holds_setEntry_of_ne s x here] at holds
      rw [setEntry_of_ne s x here]
      refine ⟨whole.clean i jp holds, ?_⟩
      exact (whole.typed i jp holds).2

/-- An entry in use changes its references. -/
theorem Whole.setRef (whole : s.Whole) (used : 0 < (s.icache ip).ref) (n : Nat) :
    (s.setEntry ip { s.icache ip with ref := n }).Whole := by
  refine whole.setEntry (fun _ => whole.numbered ip used) (fun _ jp apart used' same => ?_)
    fun _ valid => ?_
  · exact apart (whole.unique jp ip used' used same)
  · have holds : s.Holds (s.icache ip).inum ip := ⟨used, valid, rfl⟩
    exact ⟨whole.clean _ ip holds, (whole.typed _ ip holds).2⟩

end Store

/-! ## The operations of the lower layer -/

variable {s t : Fs} {stops : String → Prop} {ip : Fin nInode} {inum : Nat}

/-- The file system with one entry of the inode cache replaced. -/
def Fs.withEntry (s : Fs) (ip : Fin nInode) (x : Inode) : Fs :=
  { s with toStore := s.toStore.setEntry ip x }

/-- What `iget` says when the inode cache is full. -/
def noInodes : String := "iget: no inodes"

/-- What `ilock` says of an inode that is free on disk. -/
def noType : String := "ilock: no type"

/-- An entry of the inode cache has one more reference, for an inode. -/
structure Gets (i : Nat) (ip : Fin nInode) (s t : Fs) : Prop where
  entry : t = s.withEntry ip (t.icache ip)
  inum : (t.icache ip).inum = i
  hit : 0 < (s.icache ip).ref → t.icache ip = { s.icache ip with ref := (s.icache ip).ref + 1 }
  /-- Or it was free, and there was none for the inode. -/
  miss : (s.icache ip).ref = 0 → (t.icache ip).ref = 1 ∧ (t.icache ip).valid = false ∧
    ∀ jp, 0 < (s.icache jp).ref → (s.icache jp).inum ≠ i

/-- `iget` finds an entry for the inode, or a free one. -/
theorem iget_gets (room : ¬stops noInodes → s.Room inum) :
    Wp stops (iget inum) (fun ip t => Gets inum ip s t) s := by
  have entry (ip : Fin nInode) (x : Inode) : (s.withEntry ip x).icache ip = x :=
    Store.setEntry_same _ _ _
  unfold iget
  apply Wp.get
  split
  · rename_i ip found
    have hit : (s.icache ip).ref > 0 ∧ (s.icache ip).inum = inum := by
      simpa using List.find?_some found
    apply Wp.bind setInode_spec
    rintro _ _ rfl
    apply Wp.pure
    have here := entry ip { s.icache ip with ref := (s.icache ip).ref + 1 }
    refine ⟨congrArg (s.withEntry ip) here.symm, (congrArg Inode.inum here).trans hit.2,
      fun _ => here, fun free => ?_⟩
    omega
  · rename_i absent
    have missing (jp : Fin nInode) (used : 0 < (s.icache jp).ref) : (s.icache jp).inum ≠ inum := by
      intro same
      have missed := List.find?_eq_none.mp absent jp (List.mem_finRange jp)
      simp only [decide_eq_true_eq, not_and] at missed
      exact missed used same
    split
    · rename_i full
      apply Wp.throw
      by_contra total
      have taken (jp : Fin nInode) : 0 < (s.icache jp).ref := by
        have used := List.find?_eq_none.mp full jp (List.mem_finRange jp)
        simp only [decide_eq_true_eq] at used
        omega
      obtain ⟨jp, free | same⟩ := room total
      · have used := taken jp
        omega
      · exact missing jp (taken jp) same
    · rename_i ip found
      have free : (s.icache ip).ref = 0 := by simpa using List.find?_some found
      apply Wp.bind setInode_spec
      rintro _ _ rfl
      apply Wp.pure
      have here := entry ip { s.icache ip with inum := inum, ref := 1, valid := false }
      refine ⟨congrArg (s.withEntry ip) here.symm, congrArg Inode.inum here, fun used => ?_,
        fun _ => ⟨congrArg Inode.ref here, congrArg Inode.valid here, missing⟩⟩
      omega

/-- The file system is whole with one more reference. -/
theorem Gets.whole (gets : Gets inum ip s t) (whole : s.Whole) (numbered : inum < s.sb.ninodes) :
    ∃ x : Inode, t = s.withEntry ip x ∧ (s.withEntry ip x).Whole ∧ x.inum = inum ∧
      x.ref = (s.icache ip).ref + 1 ∧
      (0 < (s.icache ip).ref → x.inum = (s.icache ip).inum ∧ x.valid = (s.icache ip).valid) := by
  obtain ⟨x, here⟩ : ∃ x, x = t.icache ip := ⟨_, rfl⟩
  obtain ⟨entry, number, hit, miss⟩ := gets
  rw [← here] at entry number hit miss
  rcases Nat.eq_zero_or_pos (s.icache ip).ref with free | used
  · obtain ⟨one, unread, missing⟩ := miss free
    refine ⟨x, entry, whole.setEntry (fun _ => number ▸ numbered)
      (fun _ jp _ used => number ▸ missing jp used) (fun _ valid => ?_), number, ?_, fun used => ?_⟩
    · rw [unread] at valid
      cases valid
    · rw [one, free]
    · omega
  · have same := hit used
    refine ⟨x, entry, ?_, number, ?_, fun _ => ?_⟩
    · rw [same]
      exact whole.setRef used _
    · rw [same]
    · rw [same]
      exact ⟨rfl, rfl⟩

/-- `iget` adds a reference to an entry for the inode. -/
theorem iget_whole (whole : s.Whole) (numbered : inum < s.sb.ninodes)
    (room : ¬stops noInodes → s.Room inum) :
    Wp stops (iget inum) (fun ip t => ∃ x : Inode, t = s.withEntry ip x ∧
      (s.withEntry ip x).Whole ∧ x.inum = inum ∧ x.ref = (s.icache ip).ref + 1 ∧
      (0 < (s.icache ip).ref → x.inum = (s.icache ip).inum ∧ x.valid = (s.icache ip).valid)) s :=
  Wp.mono (iget_gets room) fun _ _ gets => gets.whole whole numbered

/-- The inode of an entry, read from disk. -/
def Store.readEntry (s : Store) (ip : Fin nInode) : Inode :=
  { s.icache ip with copy := s.dinode (s.icache ip).inum, valid := true }

/-- `ilock` reads the inode if necessary. -/
theorem ilock_whole (whole : s.Whole) (used : 0 < (s.icache ip).ref)
    (typed : ¬stops noType → (s.dinode (s.icache ip).inum).type ≠ 0) :
    Wp stops (ilock ip) (fun _ t => t = s.withEntry ip (s.readEntry ip) ∧
      (s.dinode (s.icache ip).inum).type ≠ 0) s := by
  unfold ilock
  apply Wp.get
  dsimp only
  rw [if_neg (by omega)]
  apply Wp.ite
  · intro unread
    apply bread_spec
    apply Wp.bind setInode_spec
    rintro _ _ rfl
    apply Wp.ite
    · intro free
      apply Wp.throw
      by_contra total
      exact typed total free
    · exact fun allocated => Wp.pure ⟨rfl, allocated⟩
  · intro read
    have valid : (s.icache ip).valid = true := by simpa using read
    have holds : s.Holds (s.icache ip).inum ip := ⟨used, valid, rfl⟩
    apply Wp.pure
    refine ⟨?_, (whole.typed _ ip holds).2⟩
    have same : s.readEntry ip = s.icache ip := by
      rw [Store.readEntry, ← whole.clean _ ip holds, ← valid]
    rw [same]
    simp only [Fs.withEntry, Store.setEntry, update_eq_self]

/-- An inode is read from the disk. -/
theorem Store.Whole.setRead {s : Store} (whole : s.Whole) (used : 0 < (s.icache ip).ref)
    (typed : (s.dinode (s.icache ip).inum).type ≠ 0) : (s.setEntry ip (s.readEntry ip)).Whole := by
  refine whole.setEntry (fun _ => whole.numbered ip used) (fun _ jp apart used' same => ?_)
    fun _ _ => ⟨rfl, typed⟩
  exact apart (whole.unique jp ip used' used same)

/-- An entry with one reference less. -/
def Store.dropEntry (s : Store) (ip : Fin nInode) : Inode :=
  { s.icache ip with ref := (s.icache ip).ref - 1 }

/-- `iput` drops a reference that is not the last one to an inode without links. -/
theorem iput_whole
    (kept : (s.icache ip).valid = true → (s.icache ip).copy.nlink = 0 → (s.icache ip).ref ≠ 1) :
    Wp stops (iput ip) (fun _ t => t = s.withEntry ip (s.dropEntry ip)) s := by
  unfold iput
  apply Wp.get
  dsimp only
  apply Wp.ite
  · rintro ⟨valid, unlinked⟩
    rw [if_neg (kept valid unlinked)]
    exact setInode_spec
  · exact fun _ => setInode_spec

/-- A computation of the lower layers leaves the locks. -/
theorem fsOp_spec {α : Type} {op : FsM α} {post : α → Fs → Prop} {w : Walk}
    (wp : Wp stops op post w.toFs) :
    Wp stops (fsOp op) (fun a w' => ∃ fs, post a fs ∧ w' = { w with toFs := fs }) w :=
  Wp.zoom wp

/-- A computation of the file system leaves the open files. -/
theorem walkOp_spec {α : Type} {op : PathM α} {post : α → Walk → Prop} {s : Sys}
    (wp : Wp stops op post s.walk) :
    Wp stops (walkOp op) (fun a t => ∃ walk, post a walk ∧ t = { s with walk := walk }) s :=
  Wp.zoom wp

/-! ## Locks -/

section

variable {w : Walk}

/-- `acquiresleep` takes a lock that is free. -/
theorem acquiresleep_takes (free : w.locked ip = false) :
    Wp stops (Walk.acquiresleep ip)
      (fun _ w' => w' = { w with locked := update w.locked ip true }) w := by
  unfold Walk.acquiresleep
  apply Wp.get
  rw [if_neg (by simp [free])]
  exact Wp.modify

/-- A process does not get a lock that it holds. -/
theorem acquiresleep_sleeps (locked : w.locked ip = true) (allowed : stops asleep) :
    Wp stops (Walk.acquiresleep ip) (fun _ _ => False) w := by
  unfold Walk.acquiresleep
  apply Wp.get
  rw [if_pos (by simp [locked])]
  exact Wp.throw_bind allowed

/-- So `iput` of an inode that it has locked does not return. -/
theorem iput_sleeps (locked : w.locked ip = true) (allowed : stops asleep) :
    Wp stops (Walk.iput ip) (fun _ _ => False) w :=
  Wp.bind (acquiresleep_sleeps locked allowed) fun _ _ impossible => impossible.elim

/-- `ilock` takes the lock of an inode and reads it if necessary. -/
theorem ilock_reads (whole : w.Whole) (used : 0 < (w.icache ip).ref) (free : w.locked ip = false)
    (typed : ¬stops noType → (w.dinode (w.icache ip).inum).type ≠ 0) :
    Wp stops (Walk.ilock ip) (fun _ w' =>
      w' = ⟨w.toFs.withEntry ip (w.readEntry ip), update w.locked ip true⟩ ∧
        (w.dinode (w.icache ip).inum).type ≠ 0) w := by
  unfold Walk.ilock
  apply Wp.get
  rw [if_neg (by omega)]
  apply Wp.bind (acquiresleep_takes free)
  rintro _ _ rfl
  refine Wp.mono (fsOp_spec (ilock_whole whole used typed)) ?_
  rintro _ _ ⟨_, ⟨rfl, allocated⟩, rfl⟩
  exact ⟨rfl, allocated⟩

/-- An inode is locked and has been read, and nothing else has changed. -/
structure Reads (ip : Fin nInode) (inum : Nat) (w w' : Walk) : Prop where
  whole : w'.Whole
  holds : w'.Holds inum ip
  disk : w'.disk = w.disk
  sb : w'.sb = w.sb
  locked : w'.locked = update w.locked ip true
  others : ∀ jp, jp ≠ ip → w'.icache jp = w.icache jp
  ref : (w'.icache ip).ref = (w.icache ip).ref

/-- `ilock` of a reference to an allocated inode. -/
theorem ilock_spec_reads (whole : w.Whole) (used : 0 < (w.icache ip).ref)
    (number : (w.icache ip).inum = inum) (free : w.locked ip = false)
    (typed : ¬stops noType → (w.dinode inum).type ≠ 0) :
    Wp stops (Walk.ilock ip) (fun _ w' => Reads ip inum w w' ∧ (w.dinode inum).type ≠ 0) w := by
  subst number
  apply Wp.mono (ilock_reads whole used free typed)
  rintro _ _ ⟨rfl, typed⟩
  have entry : (w.toFs.withEntry ip (w.readEntry ip)).icache ip = w.readEntry ip :=
    Store.setEntry_same _ _ _
  refine ⟨⟨whole.setRead used typed, ?_, rfl, rfl, rfl, fun jp apart => ?_, ?_⟩, typed⟩
  · unfold Store.Holds
    rw [entry]
    exact ⟨used, rfl, rfl⟩
  · exact Store.setEntry_of_ne _ _ apart
  · show ((w.toFs.withEntry ip (w.readEntry ip)).icache ip).ref = _
    rw [entry]
    rfl

namespace Reads

variable {w' : Walk}

/-- Reading an inode leaves the files. -/
theorem files (reads : Reads ip inum w w') : w'.files = w.files :=
  Store.files_congr reads.disk reads.sb

/-- It is locked then. -/
theorem locked_self (reads : Reads ip inum w w') : w'.locked ip = true := by
  rw [reads.locked, update_self]

end Reads

/-- `iunlock` frees the lock. -/
theorem iunlock_frees (used : 0 < (w.icache ip).ref) (locked : w.locked ip = true) :
    Wp stops (Walk.iunlock ip)
      (fun _ w' => w' = { w with locked := update w.locked ip false }) w := by
  unfold Walk.iunlock Walk.releasesleep
  apply Wp.get
  rw [if_neg (by rw [locked]; simp; omega)]
  exact Wp.modify

/-- `iput` drops a reference that is not the last one to an inode without links. -/
theorem iput_drops (free : w.locked ip = false)
    (kept : (w.icache ip).valid = true → (w.icache ip).copy.nlink = 0 → (w.icache ip).ref ≠ 1) :
    Wp stops (Walk.iput ip)
      (fun _ w' => w' = { w with toFs := w.toFs.withEntry ip (w.dropEntry ip) }) w := by
  unfold Walk.iput
  apply Wp.bind (acquiresleep_takes free)
  rintro _ _ rfl
  refine Wp.bind (fsOp_spec (iput_whole kept)) ?_
  rintro _ _ ⟨_, rfl, rfl⟩
  apply Wp.mono Wp.modify
  rintro _ _ rfl
  have unlocked : update (update w.locked ip true) ip false = w.locked := by
    rw [update_idem, update_eq_self_iff, free]
  dsimp only
  rw [unlocked]

end

/-! ## References and locks of a computation -/

/-- The references after a change of one entry. -/
theorem Store.Borrows.setEntry {s t : Store} {held held' : List (Fin nInode)}
    (borrows : s.Borrows held t) {x : Inode}
    (others : ∀ jp, jp ≠ ip → held'.count jp = held.count jp)
    (ref : x.ref = (s.icache ip).ref + held'.count ip)
    (inum : 0 < (s.icache ip).ref → x.inum = (t.icache ip).inum) :
    s.Borrows held' (t.setEntry ip x) := by
  refine ⟨borrows.disk, borrows.sb, fun jp => ?_, fun jp used => ?_⟩
  · by_cases here : jp = ip
    · rw [here, Store.setEntry_same]
      exact ref
    · rw [Store.setEntry_of_ne t x here, others jp here]
      exact borrows.ref jp
  · by_cases here : jp = ip
    · rw [here] at used ⊢
      rw [Store.setEntry_same, inum used]
      exact borrows.inum ip used
    · rw [Store.setEntry_of_ne t x here]
      exact borrows.inum jp used

/-- A computation that started in `s` holds some references, each for an inode, and some locks. -/
structure At (s : Store) (held : List (Fin nInode × Nat)) (locks : Fin nInode → Bool) (w : Walk) :
    Prop where
  whole : w.Whole
  borrows : s.Borrows (held.map Prod.fst) w.toStore
  inum : ∀ p ∈ held, (w.icache p.1).inum = p.2
  locked : w.locked = locks
  read : ∀ jp, locks jp = true → 0 < (w.icache jp).ref ∧ (w.icache jp).valid = true

namespace At

variable {s : Store} {held held' : List (Fin nInode × Nat)} {locks : Fin nInode → Bool} {w : Walk}

section

variable (state : At s held locks w)

include state

/-- The order of the references does not matter. -/
theorem perm (same : held.Perm held') : At s held' locks w := by
  have counts : s.Borrows (held'.map Prod.fst) w.toStore := by
    refine ⟨state.borrows.disk, state.borrows.sb, fun jp => ?_, state.borrows.inum⟩
    rw [state.borrows.ref jp, (same.map Prod.fst).count_eq]
  exact ⟨state.whole, counts, fun p member => state.inum p (same.symm.subset member), state.locked,
    state.read⟩

/-- An inode that is held is in use. -/
theorem used {i : Nat} (member : (ip, i) ∈ held) : 0 < (w.icache ip).ref := by
  have counted : 0 < (held.map Prod.fst).count ip :=
    List.count_pos_iff.mpr (List.mem_map.mpr ⟨(ip, i), member, rfl⟩)
  rw [state.borrows.ref ip]
  omega

/-- The inodes on disk stay. -/
theorem dinode (i : Nat) : w.dinode i = s.dinode i := by
  rw [Store.dinode, state.borrows.disk, state.borrows.sb, ← Store.dinode]

/-- An entry that is held and locked holds its inode. -/
theorem holds {i : Nat} (member : (ip, i) ∈ held) (locked : locks ip = true) : w.Holds i ip :=
  ⟨state.used member, (state.read ip locked).2, state.inum _ member⟩

/-- The copy of an inode that is held and locked. -/
theorem copy {i : Nat} (member : (ip, i) ∈ held)
    (locked : locks ip = true) : (w.icache ip).copy = s.dinode i := by
  rw [state.whole.clean i ip (state.holds member locked), state.dinode]

/-- An entry changes. -/
theorem setEntry {x : Inode} (whole : (w.toFs.withEntry ip x).Whole)
    (others : ∀ jp, jp ≠ ip → (held'.map Prod.fst).count jp = (held.map Prod.fst).count jp)
    (ref : x.ref = (s.icache ip).ref + (held'.map Prod.fst).count ip)
    (inum : 0 < (s.icache ip).ref → x.inum = (w.icache ip).inum)
    (inums : ∀ p ∈ held', (p.1 = ip → x.inum = p.2) ∧ (p.1 ≠ ip → (w.icache p.1).inum = p.2))
    (read : locks ip = true → 0 < x.ref ∧ x.valid = true) :
    At s held' locks { w with toFs := w.toFs.withEntry ip x } := by
  have entry : (w.toFs.withEntry ip x).icache ip = x := Store.setEntry_same _ _ _
  have other (jp : Fin nInode) (apart : jp ≠ ip) :
      (w.toFs.withEntry ip x).icache jp = w.icache jp := Store.setEntry_of_ne _ _ apart
  refine ⟨whole, state.borrows.setEntry others ref inum, fun p member => ?_, state.locked,
    fun jp locked => ?_⟩
  · by_cases here : p.1 = ip
    · rw [here, entry]
      exact (inums p member).1 here
    · rw [other _ here]
      exact (inums p member).2 here
  · by_cases here : jp = ip
    · rw [here, entry]
      exact read (here ▸ locked)
    · rw [other jp here]
      exact state.read jp locked

/-- The computation takes a lock or releases one. -/
theorem setLock {value : Bool}
    (read : value = true → 0 < (w.icache ip).ref ∧ (w.icache ip).valid = true) :
    At s held (update locks ip value) { w with locked := update w.locked ip value } := by
  refine ⟨state.whole, state.borrows, state.inum, ?_, fun jp locked => ?_⟩
  · show update w.locked ip value = _
    rw [state.locked]
  · by_cases here : jp = ip
    · rw [here, update_self] at locked
      rw [here]
      exact read locked
    · rw [update_of_ne here] at locked
      exact state.read jp locked

/-- `iget` takes a reference to an inode for which the inode cache has room. -/
theorem iget (numbered : inum < s.sb.ninodes) (room : ¬stops noInodes → w.Room inum) :
    Wp stops (Xv6.iget inum)
      (fun ip fs => At s ((ip, inum) :: held) locks { w with toFs := fs } ∧ w.Room inum)
      w.toFs := by
  have numbered' : inum < w.sb.ninodes := state.borrows.sb ▸ numbered
  apply Wp.mono (iget_whole state.whole numbered' room)
  rintro ip _ ⟨x, rfl, whole, number, ref, same⟩
  have roomy : w.Room inum := by
    rcases Nat.eq_zero_or_pos (w.icache ip).ref with unused | used
    · exact ⟨ip, .inl unused⟩
    · exact ⟨ip, .inr ((same used).1.symm.trans number)⟩
  refine ⟨?_, roomy⟩
  have count : (((ip, inum) :: held).map Prod.fst).count ip = (held.map Prod.fst).count ip + 1 := by
    rw [List.map_cons, List.count_cons_self]
  refine state.setEntry whole (fun jp apart => ?_) ?_ (fun used => ?_) (fun p member => ?_)
    fun locked => ?_
  · rw [List.map_cons, List.count_cons_of_ne (Ne.symm apart)]
  · rw [count, ref, state.borrows.ref ip, Nat.add_assoc]
  · have used' : 0 < (w.icache ip).ref := by
      rw [state.borrows.ref ip]
      omega
    exact (same used').1
  · rcases List.mem_cons.mp member with rfl | old
    · exact ⟨fun _ => number, fun apart => absurd rfl apart⟩
    · refine ⟨fun here => ?_, fun _ => state.inum p old⟩
      have used : 0 < (w.icache ip).ref := by
        rw [← here]
        exact state.used (i := p.2) old
      rw [(same used).1, ← here]
      exact state.inum p old
  · obtain ⟨used, valid⟩ := state.read ip locked
    rw [(same used).2]
    exact ⟨by omega, valid⟩

/-- `idup` adds a reference to an entry in use. -/
theorem idup (used : 0 < (w.icache ip).ref) (number : (w.icache ip).inum = inum) :
    Wp stops (fsOp (Xv6.idup ip)) (fun _ w' => At s ((ip, inum) :: held) locks w') w := by
  apply Wp.mono (fsOp_spec setInode_spec)
  rintro _ _ ⟨_, rfl, rfl⟩
  have count : (((ip, inum) :: held).map Prod.fst).count ip = (held.map Prod.fst).count ip + 1 := by
    rw [List.map_cons, List.count_cons_self]
  refine state.setEntry (state.whole.setRef used _) (fun jp apart => ?_) ?_ (fun _ => rfl)
    (fun p member => ?_) fun locked => ⟨Nat.succ_pos _, (state.read ip locked).2⟩
  · rw [List.map_cons, List.count_cons_of_ne (Ne.symm apart)]
  · rw [count, ← Nat.add_assoc, ← state.borrows.ref ip]
  · rcases List.mem_cons.mp member with rfl | old
    · exact ⟨fun _ => number, fun apart => absurd rfl apart⟩
    · exact ⟨fun here => here ▸ state.inum p old, fun _ => state.inum p old⟩

/-- `ilock` takes the lock of an inode and reads it if necessary. -/
theorem ilock (member : (ip, inum) ∈ held) (free : locks ip = false)
    (typed : ¬stops noType → (s.dinode inum).type ≠ 0) :
    Wp stops (Walk.ilock ip) (fun _ w' => At s held (update locks ip true) w' ∧
      (s.dinode inum).type ≠ 0) w := by
  have used := state.used member
  have number : (w.icache ip).inum = inum := state.inum _ member
  have same : w.dinode (w.icache ip).inum = s.dinode inum := by rw [number, state.dinode]
  apply Wp.mono (ilock_reads state.whole used (by rw [state.locked, free])
    (by rw [same]; exact typed))
  rintro _ _ ⟨rfl, allocated⟩
  refine ⟨?_, same ▸ allocated⟩
  have entered : At s held locks { w with toFs := w.toFs.withEntry ip (w.readEntry ip) } := by
    refine state.setEntry (state.whole.setRead used allocated) (fun _ _ => rfl)
      (state.borrows.ref ip)
      (fun _ => rfl) (fun p old => ⟨fun here => ?_, fun _ => state.inum p old⟩)
      fun _ => ⟨used, rfl⟩
    rw [← here] at number ⊢
    exact state.inum p old
  refine entered.setLock fun _ => ?_
  have entry : (w.toFs.withEntry ip (w.readEntry ip)).icache ip = w.readEntry ip :=
    Store.setEntry_same _ _ _
  dsimp only
  rw [entry]
  exact ⟨used, rfl⟩

/-- `iunlock` releases the lock of an inode. -/
theorem iunlock (member : (ip, inum) ∈ held) (locked : locks ip = true) :
    Wp stops (Walk.iunlock ip) (fun _ w' => At s held (update locks ip false) w') w := by
  apply Wp.mono (iunlock_frees (state.used member) (by rw [state.locked, locked]))
  rintro _ _ rfl
  exact state.setLock fun impossible => absurd impossible Bool.false_ne_true

end

/-- How the inode cache has room for another inode beside one reference. -/
theorem room_iff {i j : Nat} (state : At s [(ip, i)] locks w) : w.Room j ↔ s.RoomBeside i j := by
  have ref (kp : Fin nInode) (other : kp ≠ ip) : (w.icache kp).ref = (s.icache kp).ref := by
    rw [state.borrows.ref kp, List.map_singleton, List.count_singleton,
      if_neg (by simpa using other.symm), Nat.add_zero]
  have used := state.used (List.mem_singleton.mpr rfl)
  have number : (w.icache ip).inum = i := state.inum _ (List.mem_singleton.mpr rfl)
  have free {kp : Fin nInode} : (s.icache kp).ref = 0 ↔
      kp ∈ Finset.univ.filter fun ip => (s.icache ip).ref = 0 := by
    rw [Finset.mem_filter, and_iff_right (Finset.mem_univ kp)]
  constructor
  · rintro ⟨kp, room⟩
    rcases Nat.eq_zero_or_pos (w.icache kp).ref with unused | used'
    · -- The entry is free besides the one of the reference.
      have other : kp ≠ ip := by
        rintro rfl
        omega
      rw [ref kp other] at unused
      refine .inr (.inr ⟨Finset.card_pos.mpr ⟨kp, free.mp unused⟩, ?_⟩)
      rcases Nat.eq_zero_or_pos (s.icache ip).ref with unused' | used
      · exact .inr (Finset.one_lt_card.mpr ⟨kp, free.mp unused, ip, free.mp unused', other⟩)
      · exact .inl ⟨ip, used, (state.borrows.inum ip used).symm.trans number⟩
    · have here : (w.icache kp).inum = j := room.resolve_left (by omega)
      by_cases same : kp = ip
      · exact .inl (here.symm.trans (same ▸ number))
      · rw [ref kp same] at used'
        exact .inr (.inl ⟨kp, used', (state.borrows.inum kp used').symm.trans here⟩)
  · rintro (rfl | ⟨kp, used', here⟩ | ⟨spare, room⟩)
    · exact ⟨ip, .inr number⟩
    · exact ⟨kp, .inr ((state.borrows.inum kp used').trans here)⟩
    · -- There is a free entry that is not the one of the reference.
      obtain ⟨kp, unused, other⟩ : ∃ kp, (s.icache kp).ref = 0 ∧ kp ≠ ip := by
        rcases room with ⟨jp, used', here⟩ | two
        · obtain ⟨kp, member⟩ := Finset.card_pos.mp spare
          refine ⟨kp, free.mpr member, ?_⟩
          have same : jp = ip := by
            apply state.whole.unique jp ip _ used
            · rw [state.borrows.inum jp used', here, number]
            · rw [state.borrows.ref jp]
              omega
          rintro rfl
          have unused := free.mpr member
          rw [same] at used'
          omega
        · obtain ⟨kp, member, other⟩ := Finset.exists_mem_ne two ip
          exact ⟨kp, free.mpr member, other⟩
      exact ⟨kp, .inl ((ref kp other).trans unused)⟩

variable (state : At s ((ip, inum) :: held) locks w)

include state

/-- There is another reference to an inode that is kept without links. -/
theorem kept_ref (kept : s.Kept inum) (typed : (s.dinode inum).type ≠ 0)
    (unlinked : (s.dinode inum).nlink = 0) : 1 < (w.icache ip).ref := by
  have used := state.used List.mem_cons_self
  have number : (w.icache ip).inum = inum := state.inum _ List.mem_cons_self
  obtain ⟨jp, used', number'⟩ := (kept.resolve_left typed).resolve_left (not_not_intro unlinked)
  have same : jp = ip := by
    apply state.whole.unique jp ip _ used
    · rw [state.borrows.inum jp used', number', number]
    · rw [state.borrows.ref jp]
      omega
  rw [same] at used'
  rw [state.borrows.ref ip, List.map_cons, List.count_cons_self]
  omega

/-- `iput` drops a reference to an inode that is kept. -/
theorem iput (free : locks ip = false)
    (kept : s.Kept inum) : Wp stops (Walk.iput ip) (fun _ w' => At s held locks w') w := by
  have member : (ip, inum) ∈ (ip, inum) :: held := List.mem_cons_self
  have used := state.used member
  have number : (w.icache ip).inum = inum := state.inum _ member
  have count : (((ip, inum) :: held).map Prod.fst).count ip = (held.map Prod.fst).count ip + 1 := by
    rw [List.map_cons, List.count_cons_self]
  have ref := state.borrows.ref ip
  rw [count] at ref
  have safe : (w.icache ip).valid = true → (w.icache ip).copy.nlink = 0 →
      (w.icache ip).ref ≠ 1 := by
    intro valid unlinked
    have holds : w.Holds inum ip := ⟨used, valid, number⟩
    have typed := (state.whole.typed inum ip holds).2
    rw [state.dinode] at typed
    rw [state.whole.clean inum ip holds, state.dinode] at unlinked
    exact (state.kept_ref kept typed unlinked).ne'
  apply Wp.mono (iput_drops (by rw [state.locked, free]) safe)
  rintro _ _ rfl
  refine state.setEntry (state.whole.setRef used _) (fun jp apart => ?_) ?_ (fun _ => rfl)
    (fun p old => ⟨fun here => ?_, fun _ => state.inum p (List.mem_cons_of_mem _ old)⟩)
    fun locked => ?_
  · rw [List.map_cons, List.count_cons_of_ne (Ne.symm apart)]
  · show (w.icache ip).ref - 1 = _
    omega
  · rw [← here]
    exact state.inum p (List.mem_cons_of_mem _ old)
  · rw [free] at locked
    cases locked

/-- `iunlockput` releases the lock and drops the reference. -/
theorem iunlockput (locked : locks ip = true) (kept : s.Kept inum) :
    Wp stops (Walk.iunlockput ip) (fun _ w' => At s held (update locks ip false) w') w := by
  unfold Walk.iunlockput
  apply Wp.bind (state.iunlock List.mem_cons_self locked)
  intro _ w' unlocked
  exact unlocked.iput (update_self ..) kept

end At

end Xv6
