import Xv6.Lib.Sim
import Xv6.Verif.FileState

/-!
# A write to a file

`writei` replaces a part of one file, or adds to its end, and leaves the other files. It looks at no
entry of the inode cache but its own, so it does the same whatever the other entries are.
-/

namespace Xv6

open Lib Function

/-! ## Files with their blocks -/

namespace Dinode

variable {d : Dinode} {disk : Disk} {bytes : List UInt8}

/-- A file that contains as many bytes as it has is full. -/
theorem Contains.full (contains : d.Contains disk bytes) (length : bytes.length = d.size.toNat) :
    d.Full disk := by
  intro k below
  obtain ⟨place, isPlace, nonzero, -⟩ := contains (k * bSize) (length ▸ below)
  rw [Nat.mul_div_cancel k (by decide : 0 < bSize)] at isPlace
  exact ⟨place, isPlace, nonzero⟩

/-- What a file contains is its bytes. -/
theorem Contains.bytes_eq (contains : d.Contains disk bytes)
    (length : bytes.length = d.size.toNat) : d.bytes disk = bytes := by
  apply List.ext_getElem
  · rw [Dinode.length_bytes, length]
  · intro k _ inside
    obtain ⟨place, isPlace, -, byte⟩ := contains k inside
    have here : filePlace (k / bSize) = some place := isPlace
    simp only [Dinode.bytes, List.getElem_map, List.getElem_range, here, Option.elim_some]
    exact byte

/-- A file is not longer than its blocks reach. -/
theorem Full.size_le (full : d.Full disk) : d.size.toNat ≤ maxFile * bSize := by
  by_contra longer
  obtain ⟨place, isPlace, -⟩ := full maxFile (Nat.lt_of_not_le longer)
  have none : filePlace maxFile = none := by decide
  rw [none] at isPlace
  cases isPlace

/-- A file lacks no block of what it has. -/
theorem Full.missing (full : d.Full disk) {n : Nat} (within : n ≤ d.size.toNat) :
    d.missing disk (dataBlocks n) = 0 := by
  have block {k : Nat} (below : k < dataBlocks n) : k * bSize < d.size.toNat := by
    simp only [dataBlocks, bSize] at *
    omega
  rw [Dinode.missing, Finset.card_eq_zero, Finset.filter_eq_empty_iff]
  rintro place - ⟨below, none⟩
  have entry {j : Fin nIndirect} (inside : nDirect + j < dataBlocks n) :
      d.blockAt disk (.entry j) ≠ 0 := by
    obtain ⟨place', isPlace, nonzero⟩ := full _ (block inside)
    have here : filePlace (nDirect + j) = some (.entry j) := by
      unfold filePlace
      have index : nDirect + j.val - nDirect = j := Nat.add_sub_cancel_left ..
      rw [dif_neg (by omega), dif_pos (by rw [index]; exact j.isLt)]
      simp only [index]
    have same : Place.entry j = place' := Option.some.inj (here.symm.trans isPlace)
    rw [same]
    exact nonzero
  cases place with
  | direct i =>
    obtain ⟨place', isPlace, nonzero⟩ := full i (block below)
    have here : filePlace i = some (.direct i) := dif_pos i.isLt
    have same : Place.direct i = place' := Option.some.inj (here.symm.trans isPlace)
    exact nonzero (same ▸ none)
  | indirect =>
    have first := entry (j := ⟨0, by decide⟩) below
    rw [Dinode.blockAt_entry] at first
    exact first (if_pos none)
  | entry j => exact entry below none

/-- A longer file lacks more blocks. -/
theorem missing_mono (d : Dinode) (disk : Disk) {m n : Nat} (le : m ≤ n) :
    d.missing disk m ≤ d.missing disk n := by
  apply Finset.card_le_card
  intro place
  simp only [Finset.mem_filter]
  rintro ⟨member, below, empty⟩
  refine ⟨member, ?_, empty⟩
  cases place <;> exact Nat.lt_of_lt_of_le below le

end Dinode

/-- A file has the blocks below its length. -/
theorem Store.Whole.affords {s : Store} {inum n : Nat} {file : File} (whole : s.Whole)
    (found : s.files inum = some file) (within : n ≤ file.bytes.length) :
    s.Affords inum (dataBlocks n) := by
  obtain ⟨numbered, typed, rfl⟩ := Store.files_eq_some found
  rw [Dinode.length_file] at within
  rw [Store.Affords, (whole.full inum numbered typed).missing within]
  exact Nat.zero_le _

/-- Free blocks that are enough for a write are enough for the file with what is written. -/
theorem Store.Affords.max {s : Store} {inum n : Nat} {file : File}
    (enough : s.Affords inum (dataBlocks n)) (whole : s.Whole) (found : s.files inum = some file) :
    s.Affords inum (dataBlocks (max file.bytes.length n)) := by
  rcases Nat.le_total n file.bytes.length with within | longer
  · rw [Nat.max_eq_left within]
    exact whole.affords found (Nat.le_refl _)
  · rw [Nat.max_eq_right longer]
    exact enough

/-! ## The same file system -/

namespace Store

variable {s t : Store}

/-- An entry in use was so before. -/
theorem Same.of_used (same : s.Same t) {jp : Fin nInode} (used : 0 < (t.icache jp).ref) :
    0 < (s.icache jp).ref := by
  by_contra free
  rw [same.free jp (by omega)] at used
  exact Nat.lt_irrefl 0 used

/-- An intact file system stays so. -/
theorem Whole.same (whole : s.Whole) (same : s.Same t) : t.Whole := by
  have entry (jp : Fin nInode) (used : 0 < (t.icache jp).ref) : t.icache jp = s.icache jp :=
    same.used jp (same.of_used used)
  apply whole.recache same.disk same.sb
  · intro ip jp used used' number
    rw [entry ip used, entry jp used'] at number
    exact whole.unique ip jp (same.of_used used) (same.of_used used') number
  · intro ip used
    rw [entry ip used]
    exact whole.numbered ip (same.of_used used)
  · rintro inum ip ⟨used, valid, number⟩
    rw [entry ip used] at valid number ⊢
    have holds : s.Holds inum ip := ⟨same.of_used used, valid, number⟩
    exact ⟨whole.clean inum ip holds, (whole.typed inum ip holds).2⟩

end Store

/-! ## `writei` -/

variable {s t : Fs} {stops : String → Prop} {ip : Fin nInode} {inum : Nat} {file : File}
  {devsw : Nat → Option (Nat → Option Nat)} {src : Nat → UInt8}

/-- One file is a new one, and the rest of the file system stays. -/
structure Wrote (ip : Fin nInode) (inum : Nat) (file : File) (s t : Store) : Prop where
  whole : t.Whole
  rewrites : Rewrites ip inum s t
  files : t.files = update s.files inum (some file)
  /-- There are free blocks as before for the rest of the file. -/
  affords : ∀ n, file.bytes.length ≤ n * bSize → (t.Affords inum n ↔ s.Affords inum n)

/-- The entry holds its inode as before. -/
theorem Rewrites.holds {s t : Store} (rewrites : Rewrites ip inum s t) :
    t.Holds inum ip ↔ s.Holds inum ip := by
  unfold Store.Holds
  rw [rewrites.ref, rewrites.valid, rewrites.inum]

variable {i off len : Nat} {v v' : Volume} {type : UInt16}

/-- The files other than one that is changed. -/
theorem Rewrites.files_of_ne {s t : Store} (rewrites : Rewrites ip inum s t) (apart : i ≠ inum)
    (bytes : i < s.sb.ninodes → (s.dinode i).type ≠ 0 →
      (t.dinode i).bytes t.disk = (s.dinode i).bytes s.disk) : t.files i = s.files i := by
  unfold Store.files
  rw [rewrites.sb]
  refine if_ctx_congr ?_ ?_ fun _ => rfl
  · exact and_congr_right fun inside => by rw [rewrites.dinode i inside apart]
  · rintro ⟨inside, allocated⟩
    have same := bytes inside allocated
    rw [rewrites.dinode i inside apart] at same
    rw [Dinode.file, Dinode.file, rewrites.dinode i inside apart, same]

/-- A file system after a write is whole. -/
theorem Filed.whole (filed : Filed ip inum off len src s v t v') (whole : s.Whole)
    (shows : Shows s.toStore v) (covered : v.Covered s.sb) (holds : s.Holds inum ip) : t.Whole := by
  have sb := filed.rewrites.sb
  have holds' : t.Holds inum ip := filed.rewrites.holds.mpr holds
  have laid : t.Laid := filed.shows.laid (sb ▸ filed.covered)
  have clean : ∀ i jp, t.Holds i jp → (t.icache jp).copy = t.dinode i := by
    intro i jp held
    by_cases here : jp = ip
    · subst here
      exact (filed.agrees id (fun k other => (whole.clean k jp other).symm) i held).symm
    have entry := filed.rewrites.others jp here
    have held' : s.Holds i jp := by
      unfold Store.Holds at held ⊢
      rw [entry] at held
      exact held
    have apart : i ≠ inum := by
      rintro rfl
      exact here (whole.unique jp ip held'.1 holds.1 (held'.2.2.trans holds.2.2.symm))
    have numbered : i < s.sb.ninodes := held'.2.2 ▸ whole.numbered jp held'.1
    rw [entry, filed.rewrites.dinode i numbered apart]
    exact whole.clean i jp held'
  refine ⟨laid, fun i numbered typed => ?_, clean⟩
  have numbered' : i < s.sb.ninodes := sb ▸ numbered
  by_cases here : i = inum
  · subst here
    rw [← Store.inode_of_clean clean] at typed ⊢
    rw [filed.shows.node i numbered] at typed
    rw [filed.shows.full_iff (sb ▸ filed.covered) numbered typed]
    exact sb ▸ filed.mapped
  · have dinode := filed.rewrites.dinode i numbered' here
    rw [dinode] at typed
    have full := whole.full i numbered' typed
    have inode : s.inode i = s.dinode i := Store.inode_of_clean whole.clean i
    have inode' : t.inode i = s.dinode i := (Store.inode_of_clean clean i).trans dinode
    have contains := (filed.contains shows covered numbered' (inode ▸ typed) here).2
    rw [inode, inode'] at contains
    rw [dinode]
    exact (contains _ full.contains).full (Dinode.length_bytes _ _)

/-- A file that is stored to has its new bytes, and the others stay. -/
theorem Filed.files (filed : Filed ip inum off len src s v t v') (whole : s.Whole)
    (shows : Shows s.toStore v) (covered : v.Covered s.sb) (holds : s.Holds inum ip)
    (full : v.MappedTo s.sb inum (v.node inum).size.toNat) (found : s.files inum = some file)
    (start : off ≤ (v.node inum).size.toNat) :
    t.files = update s.files inum
      (some { file with bytes := overwrite file.bytes off ((List.range len).map src) }) := by
  have after := filed.whole whole shows covered holds
  have sb := filed.rewrites.sb
  obtain ⟨numbered, typed, rfl⟩ := Store.files_eq_some found
  have inode (i : Nat) : s.inode i = s.dinode i := Store.inode_of_clean whole.clean i
  have inode' (i : Nat) : t.inode i = t.dinode i := Store.inode_of_clean after.clean i
  have node : v.node inum = s.dinode inum := by rw [← shows.node inum numbered, inode]
  have node' : v'.node inum = t.dinode inum := by
    rw [← filed.shows.node inum (sb ▸ numbered), inode']
  funext i
  by_cases here : i = inum
  · subst here
    have same := filed.node
    rw [node, node'] at same
    have typed' : (t.dinode i).type ≠ 0 := by
      rw [← same] at typed
      exact typed
    have bytes := filed.bytes shows covered holds full start
    rw [inode, inode'] at bytes
    rw [update_self, Store.files_of_typed (sb ▸ numbered) typed', Dinode.file, bytes]
    have type := congrArg Dinode.type same
    have major := congrArg Dinode.major same
    have minor := congrArg Dinode.minor same
    have nlink := congrArg Dinode.nlink same
    dsimp only at type major minor nlink
    rw [type, major, minor, nlink]
    rfl
  · rw [update_of_ne here]
    refine filed.rewrites.files_of_ne here fun inside allocated => ?_
    have dinode := filed.rewrites.dinode i inside here
    have contains := (filed.contains shows covered inside (inode i ▸ allocated) here).2
    rw [inode, inode', dinode] at contains
    rw [dinode]
    exact (contains _ (whole.full i inside allocated).contains).bytes_eq
      (Dinode.length_bytes _ _)

/-- `writei` returns, and does this. -/
theorem writei_whole {off n : UInt32} (whole : s.Whole) (holds : s.Holds inum ip)
    (found : s.files inum = some file) (plain : file.type ≠ tDev)
    (start : off.toNat ≤ file.bytes.length) (range : off.toNat + n.toNat ≤ maxFile * bSize)
    (enough : ¬stops outOfBlocks → s.Affords inum (dataBlocks (off.toNat + n.toNat))) :
    Wp stops (writei devsw ip src off n)
      (fun r t => r = some n.toNat ∧ Wrote ip inum
        { file with bytes := overwrite file.bytes off.toNat ((List.range n.toNat).map src) }
        s.toStore t.toStore) s := by
  have shows := whole.shows
  have covered := whole.covered
  obtain ⟨numbered, typed, rfl⟩ := Store.files_eq_some found
  have node : s.volume.node inum = s.dinode inum := Store.inode_of_clean whole.clean inum
  have size : ((s.dinode inum).file s.disk).bytes.length = (s.dinode inum).size.toNat :=
    Dinode.length_bytes _ _
  have mapped : s.volume.MappedTo s.sb inum (s.volume.node inum).size.toNat := by
    rw [← shows.full_iff covered numbered (node ▸ typed), Store.inode_of_clean whole.clean]
    exact whole.full inum numbered typed
  have copy := whole.clean inum ip holds
  have good : ¬WriteBad (s.volume.node inum).size off n := by
    rw [node]
    unfold WriteBad
    rw [size] at start
    simp only [maxFile, nDirect, nIndirect, bSize] at *
    omega
  have start' : off.toNat ≤ (s.volume.node inum).size.toNat := by rw [node, ← size]; exact start
  apply Wp.mono (writei_files shows covered holds (node ▸ plain) mapped good
    (fun total => ⟨_, le_dataBlocks _,
      (shows.budget covered holds _).mpr (copy ▸ enough total)⟩))
  rintro r t ⟨rfl, v', filed⟩
  have after := filed.whole whole shows covered holds
  have sb := filed.rewrites.sb
  refine ⟨rfl, after, filed.rewrites, filed.files whole shows covered holds mapped found start', ?_⟩
  intro k bound
  have holds' : t.Holds inum ip := filed.rewrites.holds.mpr holds
  have copy' := after.clean inum ip holds'
  have reach : off.toNat + n.toNat ≤ k * bSize := by
    simp only [overwrite, List.length_append, List.length_take, List.length_drop, List.length_map,
      List.length_range] at bound
    omega
  unfold Store.Affords
  rw [← copy, ← copy', ← shows.budget covered holds k, ← filed.budget k reach, ← sb]
  exact (filed.shows.budget (sb ▸ filed.covered) holds' k).symm

/-! ## Beside other entries -/

/-- Two states differ at one entry of the inode cache, which is `y` in the second. -/
def Beside (jp : Fin nInode) (y : Inode) (s t : Fs) : Prop := t.toStore = s.toStore.setEntry jp y

namespace Beside

variable {jp : Fin nInode} {y : Inode}

/-- The disk is the same. -/
theorem disk (beside : Beside jp y s t) : t.disk = s.disk := by
  rw [show t.toStore = _ from beside]
  rfl

/-- So is the super block. -/
theorem sb (beside : Beside jp y s t) : t.sb = s.sb := by
  rw [show t.toStore = _ from beside]
  rfl

/-- So is every other entry. -/
theorem icache (beside : Beside jp y s t) (apart : ip ≠ jp) : t.icache ip = s.icache ip :=
  (congrArg (Store.icache · ip) beside).trans (Store.setEntry_of_ne _ _ apart)

/-- `bread` does the same beside another entry. -/
theorem bread (b : Nat) : Sim (Beside jp y) (bread b) (bread b) := by
  refine Sim.get fun s t beside => ?_
  rw [beside.disk]
  exact Sim.pure

/-- So does `log_write`. -/
theorem logWrite (b : Nat) (data : Block) :
    Sim (Beside jp y) (logWrite b data) (logWrite b data) := by
  refine Sim.modify fun s t beside => ?_
  show t.toStore.write b data = (s.toStore.write b data).setEntry jp y
  rw [show t.toStore = _ from beside]
  rfl

/-- So does a change of an entry. -/
theorem setInode (apart : ip ≠ jp) (change : Inode → Inode) :
    Sim (Beside jp y) (setInode ip change) (setInode ip change) := by
  refine Sim.modify fun s t beside => ?_
  show t.toStore.setEntry ip (change (t.icache ip)) =
    (s.toStore.setEntry ip (change (s.icache ip))).setEntry jp y
  rw [beside.icache apart, show t.toStore = _ from beside]
  unfold Store.setEntry
  rw [update_comm apart]

/-- So does a change of its copy. -/
theorem setCopy (apart : ip ≠ jp) (change : Dinode → Dinode) :
    Sim (Beside jp y) (setCopy ip change) (setCopy ip change) :=
  setInode apart _

/-- So does reading an address. -/
theorem getAddr (apart : ip ≠ jp) (i : Fin (nDirect + 1)) :
    Sim (Beside jp y) (getAddr ip i) (getAddr ip i) := by
  refine Sim.get fun s t beside => ?_
  rw [beside.icache apart]
  exact Sim.pure

/-- So does the loop of `balloc`. -/
theorem ballocFrom (size b : Nat) : Sim (Beside jp y) (ballocFrom size b) (ballocFrom size b) := by
  induction gap : size - b using Nat.strong_induction_on generalizing b with
  | _ n ih =>
  unfold Xv6.ballocFrom
  refine Sim.ite (fun more => Sim.get fun s t beside => ?_) fun _ => Sim.throw
  rw [beside.sb]
  refine Sim.bind (bread _) fun bp => ?_
  split
  · exact Sim.bind (logWrite _ _) fun _ => Sim.bind (logWrite _ _) fun _ => Sim.pure
  · have positive : 0 < bpb := by decide
    exact ih (size - (b + bpb)) (by omega) (b + bpb) rfl

/-- So does `balloc`. -/
theorem balloc : Sim (Beside jp y) balloc balloc := by
  refine Sim.get fun s t beside => ?_
  rw [beside.sb]
  refine Sim.bind (ballocFrom _ _) fun b => Sim.bind (Sim.modify ?_) fun _ => Sim.pure
  exact fun _ _ beside' => beside'

variable (apart : ip ≠ jp)

include apart

/-- So does finding a block for an address. -/
theorem bmapAddr (i : Fin (nDirect + 1)) : Sim (Beside jp y) (bmapAddr ip i) (bmapAddr ip i) := by
  refine Sim.bind (getAddr apart i) fun addr => Sim.ite (fun _ => ?_) fun _ => Sim.pure
  exact Sim.bind balloc fun addr => Sim.bind (setCopy apart _) fun _ => Sim.pure

/-- So does `bmap`. -/
theorem bmap (bn : Nat) : Sim (Beside jp y) (bmap ip bn) (bmap ip bn) := by
  unfold Xv6.bmap
  split
  · exact bmapAddr apart _
  · refine Sim.ite (fun _ => ?_) fun _ => Sim.throw
    refine Sim.bind (bmapAddr apart _) fun indirect => Sim.bind (bread _) fun bp => ?_
    refine Sim.ite (fun _ => ?_) fun _ => Sim.pure
    exact Sim.bind balloc fun addr => Sim.bind (logWrite _ _) fun _ => Sim.pure

/-- So does `iupdate`. -/
theorem iupdate : Sim (Beside jp y) (iupdate ip) (iupdate ip) := by
  refine Sim.get fun s t beside => ?_
  dsimp only
  rw [beside.icache apart, beside.sb]
  exact Sim.bind (bread _) fun bp => logWrite _ _

/-- So does the loop of `writei`. -/
theorem writeiFrom (n off tot : Nat) :
    Sim (Beside jp y) (writeiFrom ip src n off tot) (writeiFrom ip src n off tot) := by
  induction gap : n - tot using Nat.strong_induction_on generalizing off tot with
  | _ left ih =>
  unfold Xv6.writeiFrom
  refine Sim.ite (fun more => ?_) fun _ => Sim.pure
  refine Sim.bind (bmap apart _) fun addr => Sim.bind (bread _) fun bp => ?_
  refine Sim.bind (logWrite _ _) fun _ => ?_
  have inside : off % bSize < bSize := Nat.mod_lt _ (by decide)
  exact ih _ (by omega) _ _ rfl

/-- `writei` runs alike beside any other entry. -/
theorem writei (off n : UInt32) :
    Sim (Beside jp y) (writei devsw ip src off n) (writei devsw ip src off n) := by
  refine Sim.get fun s t beside => ?_
  dsimp only
  rw [beside.icache apart]
  refine Sim.ite (fun _ => ?_) fun _ => ?_
  · refine Sim.ite (fun _ => Sim.pure) fun _ => ?_
    split
    · exact Sim.pure
    · exact Sim.pure
  · refine Sim.ite (fun _ => Sim.pure) fun _ => Sim.ite (fun _ => Sim.pure) fun _ => ?_
    refine Sim.bind (writeiFrom apart _ _ _) fun off => ?_
    refine Sim.ite (fun _ => ?_) fun _ => Sim.pure
    exact Sim.bind (setCopy apart _) fun _ => Sim.bind (iupdate apart) fun _ => Sim.pure

end Beside

end Xv6
