import Xv6.Verif.BlockFree
import Xv6.Verif.FileStore
import Xv6.Verif.FsCheck

/-!
# The account of blocks in every run

The operations on the inode cache leave the volume as it is, but for `ialloc` and the last `iput`
of an unlinked inode. An entry of the cache can disagree with the disk in its list of blocks alone,
after a call of `bmap` on its own; as long as such an entry is stored before it is given up, the
account holds in every run.
-/

namespace Xv6

open Lib Function

variable {s t : Fs} {v v' : Volume}

/-! ## The inode cache -/

/-- The volume stays while entries of the cache change. -/
theorem Good.of_shows (good : Good s v) {t : Store} (shows : Shows t v) (sb : t.sb = s.sb) :
    Good { s with toStore := t } v := by
  refine ⟨⟨shows, ?_, good.fresh⟩, ?_⟩
  · show v.Accounted t.sb
    exact sb ▸ good.accounted
  · show v.Full t.sb
    exact sb ▸ good.full

variable {ip : Fin nInode} {x : Inode} {inum : Nat} {sb : Superblock} {d : Dinode}
  {past : List FsEvent} {event : FsEvent}

/-- A changed entry agrees with the disk if it does where it holds an inode. -/
theorem Store.cleanKept_setEntry (s : Store)
    (agrees : 0 < x.ref → x.valid = true → ∀ part : Dinode → Dinode, s.Agrees part ip →
      part (s.dinode x.inum) = part x.copy) : CleanKept s (s.setEntry ip x) := by
  intro part jp clean inum holds
  by_cases here : jp = ip
  · subst here
    obtain ⟨inUse, valid, rfl⟩ := holds
    rw [Store.setEntry_same] at inUse valid ⊢
    exact agrees inUse valid part clean
  · rw [Store.holds_setEntry_of_ne s x here] at holds
    rw [Store.setEntry_of_ne s x here]
    exact clean inum holds

/-- An entry in use either holds its inode or holds none. -/
theorem Store.holds_or_idle (s : Store) (ip : Fin nInode) :
    s.Holds (s.icache ip).inum ip ∨ ∀ i, ¬s.Holds i ip := by
  by_cases holds : s.Holds (s.icache ip).inum ip
  · exact .inl holds
  · exact .inr fun i held => holds ⟨held.1, held.2.1, rfl⟩

/-- What leaves the volume alone. -/
structure Kept (s : Fs) (v : Volume) (t : Fs) : Prop where
  good : Good t v
  clean : CleanKept s.toStore t.toStore
  sb : t.sb = s.sb

/-- An entry changes its number of references. -/
theorem Good.setRef (good : Good s v) (inUse : 0 < (s.icache ip).ref) {n : Nat} (inUse' : 0 < n) :
    Kept s v { s with toStore := s.toStore.setEntry ip { s.icache ip with ref := n } } := by
  have shows := good.shows
  refine ⟨good.of_shows ?_ rfl, s.cleanKept_setEntry ?_, rfl⟩
  · rcases s.holds_or_idle ip with holds | idle
    · have copy := shows.copy_eq holds
      have entered := shows.enter inUse (x := { s.icache ip with ref := n }) inUse' rfl holds.2.1
        (shows.typed _ ip holds).1 (shows.typed _ ip holds).2
      rw [copy, update_eq_self] at entered
      exact entered
    · refine shows.idle idle (fun _ => ?_) (fun _ => shows.numbered ip inUse)
        (fun _ => shows.others inUse)
      cases valid : (s.icache ip).valid with
      | false => rfl
      | true => exact absurd ⟨inUse, valid, rfl⟩ (idle _)
  · exact fun _ valid part agrees => agrees _ ⟨inUse, valid, rfl⟩

/-- An entry is given up that agrees with the disk. -/
theorem Good.drop (good : Good s v) (clean : s.Clean ip) (unused : x.ref = 0) :
    Kept s v { s with toStore := s.toStore.setEntry ip x } := by
  have shows := good.shows
  have never : ¬0 < x.ref := by omega
  refine ⟨good.of_shows ?_ rfl, s.cleanKept_setEntry fun inUse => absurd inUse never, rfl⟩
  rcases s.holds_or_idle ip with holds | idle
  · have left := shows.leave (x := x) holds fun inUse => absurd inUse never
    rw [show s.dinode _ = (s.icache ip).copy from clean _ holds, shows.copy_eq holds,
      update_eq_self] at left
    exact left
  · exact shows.idle idle (fun inUse => absurd inUse never) (fun inUse => absurd inUse never)
      (fun inUse => absurd inUse never)

/-- `idup` adds a reference. -/
theorem idup_spec (good : Good s v) (inUse : 0 < (s.icache ip).ref) :
    Wp noDoubleFree (idup ip) (fun _ t => Kept s v t) s := by
  apply Wp.mono setInode_spec
  rintro _ _ rfl
  exact good.setRef inUse (Nat.succ_pos _)

/-- `iget` finds an entry or takes one. -/
theorem iget_spec (good : Good s v) (numbered : inum < s.sb.ninodes) :
    Wp noDoubleFree (iget inum) (fun _ t => Kept s v t) s := by
  have shows := good.shows
  unfold iget
  apply Wp.get
  split
  · rename_i ip found
    have hit : (s.icache ip).ref > 0 ∧ (s.icache ip).inum = inum := by
      simpa using List.find?_some found
    apply Wp.bind setInode_spec
    rintro _ _ rfl
    exact Wp.pure (good.setRef hit.1 (Nat.succ_pos _))
  · rename_i absent
    split
    · exact Wp.throw (by simp [noDoubleFree])
    rename_i ip found
    have free : (s.icache ip).ref = 0 := by simpa using List.find?_some found
    have idle (i : Nat) : ¬s.Holds i ip := fun holds => absurd holds.1 (by omega)
    have unique (jp : Fin nInode) (inUse : 0 < (s.icache jp).ref) : (s.icache jp).inum ≠ inum := by
      intro same
      have missed := List.find?_eq_none.mp absent jp (List.mem_finRange jp)
      simp only [decide_eq_true_eq, not_and] at missed
      exact missed inUse same
    apply Wp.bind setInode_spec
    rintro _ _ rfl
    apply Wp.pure
    refine ⟨good.of_shows ?_ rfl, s.cleanKept_setEntry fun _ valid => absurd valid (by simp), rfl⟩
    exact shows.idle idle (fun _ => rfl) (fun _ => numbered) fun _ jp _ inUse => unique jp inUse

/-- A free or empty inode. -/
def Dinode.Bare (d : Dinode) : Prop := d.type = 0 ∨ (∀ i, d.addrs i = 0) ∧ d.size = 0

/-- A bare inode has no blocks. -/
theorem Volume.not_refers_of_bare (bare : (v.node inum).Bare) (place : Place) (b : Nat) :
    ¬v.Refers sb (inum, place) b := by
  rintro ⟨-, typed, nonzero, block⟩
  rcases bare with free | ⟨addrs, -⟩
  · exact typed free
  · apply nonzero
    rw [← block]
    cases place <;> simp [Dinode.blockAt, addrs]

/-- A bare inode in place of a bare inode refers to as little. -/
theorem Volume.refers_setBare (before : (v.node inum).Bare) (after : d.Bare) (r : Nat × Place)
    (b : Nat) : (v.setNode inum d).Refers sb r b ↔ v.Refers sb r b := by
  have here : (v.setNode inum d).node inum = d := update_self ..
  obtain ⟨i, place⟩ := r
  by_cases same : i = inum
  · subst same
    exact iff_of_false (not_refers_of_bare (by rw [here]; exact after) place b)
      (not_refers_of_bare before place b)
  · have node : (v.setNode inum d).node i = v.node i := update_of_ne same _ _
    exact refers_congr node (fun _ _ _ => rfl) place b

/-- A bare inode in place of a bare inode. -/
theorem Good.setBare (good : Good s v) (before : (v.node inum).Bare) (after : d.Bare) :
    (v.setNode inum d).Accounted s.sb ∧ (v.setNode inum d).Full s.sb := by
  have here : (v.setNode inum d).node inum = d := update_self ..
  have refers (r : Nat × Place) (b : Nat) :
      (v.setNode inum d).Refers s.sb r b ↔ v.Refers s.sb r b :=
    Volume.refers_setBare before after r b
  refine ⟨good.accounted.congr (fun _ => Iff.rfl) refers, fun i numbered allocated k below => ?_⟩
  by_cases same : i = inum
  · rw [same, here] at allocated below
    rcases after with free | ⟨-, size⟩
    · exact absurd free allocated
    · rw [size] at below
      exact absurd below (Nat.not_lt_zero _)
  · have node : (v.setNode inum d).node i = v.node i := update_of_ne same _ _
    rw [node] at allocated below
    obtain ⟨place, isPlace, b, old⟩ := good.full i numbered allocated k below
    exact ⟨place, isPlace, b, (refers _ _).mpr old⟩

/-- A bare inode is stored in place of a bare inode that is not cached. -/
theorem Good.setDinode (good : Good s v) (numbered : inum < s.sb.ninodes)
    (none : ∀ ip, ¬s.Holds inum ip) (before : (v.node inum).Bare) (after : d.Bare) :
    Kept s (v.setNode inum d) { s with toStore := s.toStore.setDinode inum d } := by
  obtain ⟨accounted, full⟩ := good.setBare before after
  refine ⟨⟨⟨good.shows.setDinode_of_none numbered none d, accounted, good.fresh⟩, full⟩, ?_, rfl⟩
  intro part ip agrees i holds
  have apart : i ≠ inum := by
    rintro rfl
    exact none ip holds
  rw [Store.dinode_setDinode, if_neg apart]
  exact agrees i holds

/-- The loop of `ialloc` takes the first free inode. -/
theorem iallocFrom_spec (good : Good s v) (type : UInt16) (inums : List Nat)
    (numbered : ∀ inum ∈ inums, inum < s.sb.ninodes) :
    Wp noDoubleFree (iallocFrom type inums)
      (fun _ t => ∃ v', Good t v' ∧ CleanKept s.toStore t.toStore) s := by
  induction inums with
  | nil => exact Wp.throw (by simp [noDoubleFree])
  | cons inum rest ih =>
    have bound := numbered inum (List.mem_cons_self ..)
    unfold iallocFrom
    apply Wp.get
    apply bread_spec
    apply Wp.ite
    · intro free
      have none := good.shows.not_holds_of_free free
      have before : (v.node inum).Bare := by
        rw [← good.shows.node inum bound, Store.inode_of_none none]
        exact .inl free
      have allocated := good.setDinode (d := { Dinode.zero with type := type }) bound none before
        (.inr ⟨fun _ => rfl, rfl⟩)
      apply Wp.bind logWrite_spec
      rintro _ _ rfl
      apply Wp.mono (iget_spec allocated.good bound)
      intro _ t kept
      exact ⟨_, kept.good, fun part ip agrees =>
        kept.clean part ip (allocated.clean part ip agrees)⟩
    · intro _
      exact ih fun i member => numbered i (List.mem_cons_of_mem _ member)

/-- `ilock` returns with the inode in the cache. -/
theorem ilock_spec (good : Good s v) (ip : Fin nInode) {β : Type} {rest : FsM β}
    {post : β → Fs → Prop}
    (after : ∀ t inum, Kept s v t → t.Holds inum ip → Wp noDoubleFree rest post t) :
    Wp noDoubleFree (ilock ip >>= fun _ => rest) post s := by
  have shows := good.shows
  have locks : Wp noDoubleFree (ilock ip) (fun _ t => Kept s v t ∧ ∃ inum, t.Holds inum ip) s := by
    unfold ilock
    apply Wp.get
    apply Wp.ite
    · exact fun _ => Wp.throw_bind (by simp [noDoubleFree])
    intro nonzero
    have inUse : 0 < (s.icache ip).ref := by omega
    apply Wp.ite
    · intro unread
      apply bread_spec
      apply Wp.bind setInode_spec
      rintro _ _ rfl
      apply Wp.ite
      · exact fun _ => Wp.throw (by simp [noDoubleFree])
      intro typed
      apply Wp.pure
      have none (jp : Fin nInode) : ¬s.Holds (s.icache ip).inum jp := by
        intro holds
        have same := shows.unique jp ip holds.1 inUse holds.2.2
        have read := holds.2.1
        rw [same, unread] at read
        cases read
      have node : v.node (s.icache ip).inum = s.dinode (s.icache ip).inum := by
        rw [← shows.node _ (shows.numbered ip inUse), Store.inode_of_none none]
      have same : update v.node (s.icache ip).inum (s.dinode (s.icache ip).inum) =
          v.node := by
        rw [← node, update_eq_self]
      have entered := shows.enter (x := { s.icache ip with
        copy := s.dinode (s.icache ip).inum, valid := true }) inUse inUse rfl rfl typed typed
      rw [same] at entered
      refine ⟨⟨good.of_shows entered rfl, s.cleanKept_setEntry fun _ _ _ _ => rfl, rfl⟩,
        (s.icache ip).inum, ?_⟩
      show Store.Holds (s.setEntry ip _) _ ip
      unfold Store.Holds
      rw [Store.setEntry_same]
      exact ⟨inUse, rfl, rfl⟩
    · intro read
      exact Wp.pure ⟨⟨good, fun _ _ agrees => agrees, rfl⟩, _, inUse, by simpa using read, rfl⟩
  apply Wp.bind locks
  rintro _ t ⟨kept, inum, holds⟩
  exact after t inum kept holds

/-- An entry after its inode has been freed. -/
def Inode.freed (x : Inode) : Inode where
  inum := x.inum
  ref := x.ref - 1
  valid := false
  copy := { x.copy with type := 0 }

/-- The writes to the entry and to the disk commute, so the entry may be dropped first. -/
theorem free_run {stops : String → Prop} :
    Wp stops
      (do
        setCopy ip fun d => { d with type := 0 }
        iupdate ip
        setInode ip fun inode => { inode with valid := false }
        setInode ip fun inode => { inode with ref := inode.ref - 1 })
      (fun _ t => t =
        { s with
          toStore := (s.toStore.setEntry ip (s.icache ip).freed).setDinode (s.icache ip).inum
            (s.icache ip).freed.copy }) s := by
  apply save_bind
  apply Wp.bind setInode_spec
  rintro _ _ rfl
  apply Wp.mono setInode_spec
  rintro _ _ rfl
  simp only [Store.save, Store.setEntry, Store.setDinode, Store.write, update_idem,
    update_self]
  rfl

/-- The last reference to an unlinked inode goes, and the inode with it. -/
theorem iputFree_spec (good : Good s v) (holds : s.Holds inum ip) (last : (s.icache ip).ref = 1) :
    Wp noDoubleFree
      (do
        itrunc ip
        setCopy ip fun d => { d with type := 0 }
        iupdate ip
        setInode ip fun inode => { inode with valid := false }
        setInode ip fun inode => { inode with ref := inode.ref - 1 })
      (fun _ t => ∃ v', Good t v' ∧ CleanKept s.toStore t.toStore) s := by
  apply Wp.bind (itrunc_spec good holds)
  rintro _ t ⟨v₁, truncated⟩
  have shows := truncated.good.shows
  have unused : (t.icache ip).freed.ref = 0 := by
    show (t.icache ip).ref - 1 = 0
    rw [truncated.ref, last]
  have dropped := truncated.good.drop truncated.clean unused
  have none (jp : Fin nInode) : ¬(t.setEntry ip (t.icache ip).freed).Holds inum jp := by
    by_cases here : jp = ip
    · rintro ⟨inUse, -, -⟩
      rw [here, Store.setEntry_same] at inUse
      omega
    · intro holds'
      rw [Store.holds_setEntry_of_ne _ _ here] at holds'
      exact here (shows.unique jp ip holds'.1 truncated.holds.1
        (holds'.2.2.trans truncated.holds.2.2.symm))
  have bare : (v₁.node inum).Bare := by
    rw [truncated.node]
    exact .inr ⟨fun _ => rfl, rfl⟩
  have freed := dropped.good.setDinode (d := (t.icache ip).freed.copy)
    (shows.held truncated.holds).1 none bare (.inl rfl)
  have cleans : CleanKept s.toStore t.toStore := by
    intro part jp agrees
    by_cases here : jp = ip
    · exact here ▸ truncated.clean.agrees part
    · exact truncated.others good holds here agrees
  apply Wp.mono free_run
  rintro _ _ rfl
  rw [truncated.holds.2.2]
  exact ⟨_, freed.good, fun part jp agrees =>
    freed.clean part jp (dropped.clean part jp (cleans part jp agrees))⟩

/-- `iput` drops a reference; a linked inode that goes with it agrees with the disk. -/
theorem iput_spec (good : Good s v) (inUse : 0 < (s.icache ip).ref)
    (stored : (s.icache ip).ref = 1 → (s.icache ip).valid = true → (s.icache ip).copy.nlink ≠ 0 →
      s.Clean ip) :
    Wp noDoubleFree (iput ip) (fun _ t => ∃ v', Good t v' ∧ CleanKept s.toStore t.toStore) s := by
  -- The last step on its own, for the branches that do not free the inode.
  have drops (agrees : (s.icache ip).ref = 1 → s.Clean ip) :
      Wp noDoubleFree (setInode ip fun inode => { inode with ref := inode.ref - 1 })
        (fun _ t => ∃ v', Good t v' ∧ CleanKept s.toStore t.toStore) s := by
    apply Wp.mono setInode_spec
    rintro _ _ rfl
    by_cases last : (s.icache ip).ref = 1
    · have kept := good.drop (agrees last)
        (x := { s.icache ip with ref := (s.icache ip).ref - 1 }) (by show _ - 1 = 0; omega)
      exact ⟨v, kept.good, kept.clean⟩
    · have more : 0 < (s.icache ip).ref - 1 := by omega
      have kept := good.setRef inUse more
      exact ⟨v, kept.good, kept.clean⟩
  unfold iput
  apply Wp.get
  apply Wp.ite
  · rintro ⟨valid, unlinked⟩
    apply Wp.ite
    · exact fun last => iputFree_spec good ⟨inUse, valid, rfl⟩ last
    · exact fun more => drops fun last => absurd last more
  · intro keep
    apply drops
    intro last inum holds
    exact stored last holds.2.1 (fun unlinked => keep ⟨holds.2.1, unlinked⟩) inum holds

/-! ## Runs -/

/-- The invariant of runs: an entry disagrees with the disk in its list of blocks alone. -/
def Stands (s : Fs) : Prop := ∃ v, Good s v ∧ ∀ ip, s.Agrees Dinode.unmapped ip

/-- An entry agrees with the disk as a whole if its list of blocks does. -/
theorem Store.Agrees.clean {s : Store} (agrees : s.Agrees Dinode.unmapped ip)
    (addrs : (s.icache ip).valid = true →
      (s.dinode (s.icache ip).inum).addrs = (s.icache ip).copy.addrs) : s.Clean ip := by
  rintro inum ⟨used, valid, rfl⟩
  have rest := agrees _ ⟨used, valid, rfl⟩
  have same := addrs valid
  cases d : s.dinode (s.icache ip).inum
  cases e : (s.icache ip).copy
  simp_all [Dinode.unmapped]

/-- An inode is stored, with its type, size and blocks as they are. -/
theorem Stands.of_save (good : Good s v) (holds : s.Holds inum ip)
    (type : d.type = (v.node inum).type) (size : d.size = (v.node inum).size)
    (addrs : d.addrs = (v.node inum).addrs) (agree : ∀ jp, s.Agrees Dinode.unmapped jp) :
    Stands { s with toStore := s.toStore.save ip d } := by
  obtain ⟨numbered, typed⟩ := good.shows.held holds
  have typed' : d.type ≠ 0 := type ▸ typed
  have saved := good.shows.save holds typed'
  obtain ⟨accounted, full⟩ := good.setNode numbered typed typed' addrs
    (size ▸ good.full inum numbered typed)
  refine ⟨v.setNode inum d, ⟨⟨saved.shows, saved.sb ▸ accounted, good.fresh⟩, saved.sb ▸ full⟩,
    fun jp => ?_⟩
  by_cases here : jp = ip
  · exact here ▸ saved.clean.agrees _
  · exact saved.others _ jp here (agree jp)

/-- `bmap` changes the list of blocks alone. -/
theorem Located.agrees {place : Place} {b : Nat} (located : Located ip inum place s v b t v')
    (shows : Shows s.toStore v) (holds : s.Holds inum ip)
    (agree : ∀ jp, s.Agrees Dinode.unmapped jp)
    (jp : Fin nInode) : t.Agrees Dinode.unmapped jp := by
  have touches := located.touches
  by_cases here : jp = ip
  · subst here
    intro i holds'
    obtain rfl : i = inum := (touches.holds.mp holds').2.2.symm.trans holds.2.2
    have node : (v'.node i).unmapped = (v.node i).unmapped := by
      rw [← located.extended.node]
      rfl
    rw [touches.dinode i (shows.held holds).1, located.shows.copy_eq holds', node,
      ← shows.copy_eq holds]
    exact agree jp i holds
  · exact touches.agrees shows here (agree jp)

/-- A call is made with a reference. -/
theorem referenced_bind {rest : FsM Unit} {post : Unit → Fs → Prop}
    (after : 0 < (s.icache ip).ref → Wp noDoubleFree rest post s) :
    Wp noDoubleFree (referenced ip >>= fun _ => rest) post s := by
  have checks : Wp noDoubleFree (referenced ip) (fun _ t => t = s ∧ 0 < (s.icache ip).ref) s := by
    unfold referenced
    apply Wp.get
    apply Wp.ite
    · exact fun _ => Wp.throw (by simp [noDoubleFree])
    · exact fun nonzero => Wp.pure ⟨rfl, by omega⟩
  apply Wp.bind checks
  rintro _ _ ⟨rfl, inUse⟩
  exact after inUse

/-- Every operation keeps the invariant, and none frees a free block. -/
theorem FsEvent.run_spec (stands : Stands s) (meets : WritesBack s event) :
    Wp noDoubleFree event.run (fun _ t => Stands t) s := by
  obtain ⟨v, good, agree⟩ := stands
  cases event with
  | iget inum =>
    apply Wp.get
    apply Wp.ite
    · exact fun _ => Wp.throw_bind (by simp [noDoubleFree])
    · intro numbered
      apply Wp.bind (iget_spec good (Nat.lt_of_not_le numbered))
      intro _ t kept
      exact Wp.pure ⟨v, kept.good, fun ip => kept.clean _ ip (agree ip)⟩
  | ialloc type =>
    apply Wp.ite
    · exact fun _ => Wp.throw_bind (by simp [noDoubleFree])
    intro _
    unfold Xv6.ialloc
    rw [bind_assoc]
    apply Wp.get
    apply Wp.bind (iallocFrom_spec good type _ fun inum member =>
      List.mem_range.mp (List.mem_of_mem_drop member))
    rintro _ t ⟨v', good', clean⟩
    exact Wp.pure ⟨v', good', fun ip => clean _ ip (agree ip)⟩
  | idup ip =>
    apply referenced_bind
    intro inUse
    apply Wp.mono (idup_spec good inUse)
    intro _ t kept
    exact ⟨v, kept.good, fun jp => kept.clean _ jp (agree jp)⟩
  | iput ip =>
    apply referenced_bind
    intro inUse
    apply Wp.mono (iput_spec good inUse fun last valid linked =>
      (agree ip).clean fun _ => meets last valid linked)
    rintro _ t ⟨v', good', clean⟩
    exact ⟨v', good', fun jp => clean _ jp (agree jp)⟩
  | bmap ip bn =>
    apply ilock_spec good
    intro s₁ inum kept holds
    apply Wp.bind (bmap_spec kept.good.toSound holds bn)
    rintro b t ⟨place, v', located⟩
    apply Wp.pure
    have full : v'.Full t.sb := by
      rw [located.touches.sb]
      exact located.extended.full kept.good.full
    exact ⟨v', ⟨located.sound kept.good.toSound, full⟩,
      located.agrees kept.good.shows holds fun jp => kept.clean _ jp (agree jp)⟩
  | itrunc ip =>
    apply ilock_spec good
    intro s₁ inum kept holds
    apply Wp.mono (itrunc_spec kept.good holds)
    rintro _ t ⟨v', truncated⟩
    refine ⟨v', truncated.good, fun jp => ?_⟩
    by_cases here : jp = ip
    · exact here ▸ truncated.clean.agrees _
    · exact truncated.others kept.good holds here (kept.clean _ jp (agree jp))
  | writei devsw ip src off n =>
    apply ilock_spec good
    intro s₁ inum kept holds
    apply Wp.bind (writei_spec kept.good holds devsw src off n)
    rintro _ t ⟨v', good', clean⟩
    exact Wp.pure ⟨v', good', fun jp => clean _ jp (kept.clean _ jp (agree jp))⟩
  | link ip nlink =>
    apply ilock_spec good
    intro s₁ inum kept holds
    have copy := kept.good.shows.copy_eq holds
    apply Wp.mono save_run
    rintro _ _ rfl
    rw [copy]
    exact .of_save kept.good holds rfl rfl rfl fun jp => kept.clean _ jp (agree jp)
  | iupdate ip =>
    apply ilock_spec good
    intro s₁ inum kept holds
    have copy := kept.good.shows.copy_eq holds
    have shape : s₁.save ip (s₁.icache ip).copy =
        s₁.setDinode (s₁.icache ip).inum (s₁.icache ip).copy := by
      simp only [Store.save, Store.setEntry, update_eq_self]
    apply Wp.mono iupdate_run
    rintro _ _ rfl
    rw [← shape]
    rw [copy]
    exact .of_save kept.good holds rfl rfl rfl fun jp => kept.clean _ jp (agree jp)

/-- A well-formed image has an account. -/
theorem Fs.Image.stands (image : s.Image) : Stands s := by
  have none (inum : Nat) (ip : Fin nInode) : ¬s.Holds inum ip := by
    intro holds
    have unused := image.icache ip
    have inUse := holds.1
    omega
  have unused (ip : Fin nInode) : ¬0 < (s.icache ip).ref := by
    rw [image.icache ip]
    omega
  have shows : Shows s.toStore ⟨s.mark, s.inode, s.disk⟩ :=
    { wellFormed := image.wellFormed
      sb := image.sb
      mark := fun _ _ => rfl
      data := fun _ _ _ => rfl
      node := fun _ _ => rfl
      unique := fun ip _ inUse => absurd inUse (unused ip)
      numbered := fun ip inUse => absurd inUse (unused ip)
      typed := fun inum ip holds => absurd holds (none inum ip) }
  refine ⟨_, ⟨⟨shows, image.accounted, ?_⟩, ?_⟩, fun ip inum holds => absurd holds (none inum ip)⟩
  · rw [image.ballocs]
    exact fun _ member => absurd member (List.not_mem_nil)
  · intro inum numbered allocated k below
    have node : s.inode inum = s.dinode inum := Store.inode_of_none (none inum)
    have typed : (s.dinode inum).type ≠ 0 := node ▸ allocated
    obtain ⟨place, isPlace, nonzero⟩ := image.full inum numbered typed k (node ▸ below)
    refine ⟨place, isPlace, _, numbered, allocated, nonzero, ?_⟩
    show (s.inode inum).blockAt s.disk place = _
    rw [node]

/-- The runs of the operations from a well-formed image that write back what `bmap` adds. -/
abbrev Fs.Ran : List FsEvent → Fs → Prop := Within Fs.Image Fs.step fun _ => WritesBack

/-- The invariant holds after every run. -/
theorem Fs.Ran.stands (ran : Fs.Ran past s) : Stands s := by
  refine ran.invariant (fun _ => Stands) (fun _ image => image.stands)
    fun past s t event stands met taken => ?_
  have wp := FsEvent.run_spec stands met
  unfold Fs.step at taken
  split at taken
  · rename_i done
    cases taken
    exact wp.ok done
  · cases taken

/-- **Block allocation invariant.** In every run: a bit of the bitmap is set if and only if the
block is a metadata block or an allocated inode refers to it; references are to data blocks, and no
two are to the same block; what `balloc` returned was a block of the file system that nobody
referred to, zeroed; and no operation frees a free block. -/
theorem blocks_accounted {past : List FsEvent} (ran : Fs.Ran past s) :
    (∀ b, b < s.sb.size → (s.mark b = true ↔ b < s.sb.dataStart ∨ ∃ r, s.Refers r b)) ∧
    (∀ r b, s.Refers r b → s.sb.dataStart ≤ b ∧ b < s.sb.size ∧ ∀ r', s.Refers r' b → r' = r) ∧
    (∀ call ∈ s.ballocs, call.Fresh) ∧
    ∀ event, WritesBack s event → event.run s ≠ .error "freeing free block" := by
  obtain ⟨v, good, agree⟩ := ran.stands
  have accounted := good.shows.accounted good.accounted
  refine ⟨fun b inside => ?_, fun r b refers => ⟨?_, ?_, fun r' refers' => ?_⟩, good.fresh,
    fun event met panics => ?_⟩
  · rw [← show s.Reserved b ↔ b < s.sb.dataStart from Iff.rfl, ← accounted.marked_iff]
    exact ⟨fun set => ⟨inside, set⟩, fun marked => marked.2⟩
  · exact Nat.le_of_not_lt (accounted.apart r b refers)
  · exact (accounted.marked_of_refs refers).1
  · exact accounted.once r' r b refers' refers
  · exact (FsEvent.run_spec ⟨v, good, agree⟩ met).error panics rfl

/-- A small file system with one empty file, inode 1. -/
def smallImage : Fs :=
  smallFs 8 4 0 0 (fun i => if i = 1 then .ofBlocks tFile 0 0 else .zero) fun _ => Bytes.zero

/-- The small file system is well formed. -/
theorem smallImage_image : smallImage.Image := by decide +kernel

/-- Three bytes are written to the file, which gets block 5 for them; a look-up of the block between
the write and the last `iput` adds nothing. -/
theorem blocks_accounted_write : ∃ past s, Fs.Ran past s ∧ s.mark 5 = true ∧ ∃ r, s.Refers r 5 := by
  have runs : (replayWithin Fs.step (fun _ => WritesBack)
      [.iget 1, .writei (fun _ => none) firstInode (fun _ => 7) 0 3, .bmap firstInode 0,
        .iput firstInode] [] smallImage).any
      (fun s => s.mark 5 = true ∧ 5 < s.sb.size ∧ ¬5 < s.sb.dataStart) = true := by
    decide +kernel
  obtain ⟨s, ran, holds⟩ := Within.of_replay smallImage_image runs
  obtain ⟨marked, inside, data⟩ := of_decide_eq_true holds
  exact ⟨_, s, ran, marked, (((blocks_accounted ran).1 5 inside).mp marked).resolve_left data⟩

/-- A block given by `bmap` alone is lost with the last reference to the inode: its bit stays set,
and nobody refers to it. -/
theorem bmap_loses_block : ∃ past s, History Fs.Image Fs.step past s ∧ 5 < s.sb.size ∧
    s.mark 5 = true ∧ ¬5 < s.sb.dataStart ∧ ∀ r, ¬s.Refers r 5 := by
  have runs : (replay Fs.step [.iget 1, .bmap firstInode 0, .iput firstInode] smallImage).any
      (fun s => 5 < s.sb.size ∧ s.mark 5 = true ∧ ¬5 < s.sb.dataStart ∧
        ∀ x ∈ s.references, x.2 ≠ 5) = true := by
    decide +kernel
  obtain ⟨s, history, holds⟩ := History.of_replay smallImage_image runs
  obtain ⟨inside, marked, data, none⟩ := of_decide_eq_true holds
  exact ⟨_, s, history, inside, marked, data, fun r refers =>
    none (r, 5) (Store.mem_references.mpr refers) rfl⟩

end Xv6
