import Xv6.Lib.Wp
import Xv6.Spec.Files
import Xv6.Verif.BlockAlloc
import Xv6.Verif.StringOps

/-!
# Reading what a disk holds

`bmap` finds the blocks a file has without changing anything, so `readi` returns the bytes of the
file, and `dirlookup` returns the inode of the first entry with the name it is given.
-/

namespace Xv6

open Lib

/-! ## Entries -/

/-- An entry is as long as its structure. -/
@[simp] theorem Dirent.length_toBytes (de : Dirent) : de.toBytes.length = direntSize := by
  rw [toBytes, List.length_cons, List.length_cons, de.length]
  rfl

/-- An entry is read as it was stored. -/
theorem Dirent.ofBytes_toBytes (de : Dirent) : ofBytes de.toBytes = de := by
  have bound := de.inum.toNat_lt
  have number : UInt16.ofNat ((de.toBytes.getD 0 0).toNat + 256 * (de.toBytes.getD 1 0).toNat) =
      de.inum := by
    apply UInt16.toNat_inj.mp
    simp only [toBytes, List.getD_cons_zero, List.getD_cons_succ, UInt8.toNat_ofNat',
      UInt16.toNat_ofNat']
    omega
  have name : (List.ofFn fun k : Fin dirSiz => de.toBytes.getD (2 + k) 0) = de.name := by
    apply List.ext_getElem
    · rw [List.length_ofFn, de.length]
    · intro k inside inside'
      have shifted : de.toBytes.getD (2 + k) 0 = de.name.getD k 0 := by
        rw [Nat.add_comm]
        rfl
      rw [List.getElem_ofFn, shifted, List.getD_eq_getElem?_getD, List.getElem?_eq_getElem inside',
        Option.getD_some]
  unfold ofBytes
  congr 1

/-- The entries of a directory lie one after another. -/
theorem dirBytes_slice (entries : List Dirent) (i : Nat) (inside : i < entries.length) :
    ((dirBytes entries).drop (direntSize * i)).take direntSize = entries[i].toBytes := by
  induction entries generalizing i with
  | nil => cases inside
  | cons de rest ih =>
    have length := de.length_toBytes
    rw [dirBytes, List.flatMap_cons]
    cases i with
    | zero =>
      rw [Nat.mul_zero, List.drop_zero, List.getElem_cons_zero, ← length, List.take_left]
    | succ i =>
      have shift : direntSize * (i + 1) = de.toBytes.length + direntSize * i := by
        rw [length, Nat.mul_succ, Nat.add_comm]
      rw [shift, ← List.drop_drop, List.drop_left, List.getElem_cons_succ]
      exact ih i (Nat.lt_of_succ_lt_succ inside)

/-- The size of a directory. -/
theorem length_dirBytes (entries : List Dirent) :
    (dirBytes entries).length = direntSize * entries.length := by
  induction entries with
  | nil => rfl
  | cons de rest ih =>
    rw [dirBytes, List.flatMap_cons, List.length_append, de.length_toBytes, List.length_cons,
      Nat.mul_succ, Nat.add_comm]
    exact congrArg (· + direntSize) ih

variable {name : List UInt8} {k i j : Nat} {stops : String → Prop} {d : Dinode} {disk : Disk}
  {entries : List Dirent} {post : Option (Fin nInode × Nat) → Fs → Prop}

/-! ## Files -/

variable {s : Fs} {ip : Fin nInode} {bytes : List UInt8}

/-- `bmap` allocates a direct block that is not there. -/
theorem bmap_hole (direct : k < nDirect)
    (none : ((s.icache ip).copy.addrs ⟨k, Nat.lt_succ_of_lt direct⟩).toNat = 0) :
    bmap ip k s = (do
      let addr ← balloc
      setAddr ip ⟨k, Nat.lt_succ_of_lt direct⟩ addr
      return addr) s := by
  unfold bmap bmapAddr getAddr
  rw [dif_pos direct]
  show (if ((s.icache ip).copy.addrs ⟨k, _⟩).toNat = 0 then _ else _ : FsM Nat) s = _
  rw [if_pos none]

/-- `bmap` finds a block that is there. -/
theorem bmap_found {place : Place} (there : place ∈ filePlace k)
    (nonzero : (s.icache ip).copy.blockAt s.disk place ≠ 0) :
    Wp stops (bmap ip k) (fun b t => b = (s.icache ip).copy.blockAt s.disk place ∧ t = s) s := by
  have addr (i : Fin (nDirect + 1)) (nonzero : ((s.icache ip).copy.addrs i).toNat ≠ 0) :
      Wp stops (bmapAddr ip i) (fun b t => b = ((s.icache ip).copy.addrs i).toNat ∧ t = s) s := by
    unfold bmapAddr getAddr
    apply Wp.get
    apply Wp.ite
    · exact fun none => absurd none nonzero
    · exact fun _ => Wp.pure ⟨rfl, rfl⟩
  unfold bmap
  unfold filePlace at there
  split at there
  · rename_i direct
    cases there
    rw [dif_pos direct]
    exact addr _ nonzero
  · rename_i far
    rw [dif_neg far]
    split at there
    · rename_i inside
      cases there
      rw [Dinode.blockAt_entry] at nonzero ⊢
      have present : (s.icache ip).copy.indirect ≠ 0 := by
        intro none
        rw [if_pos none] at nonzero
        exact nonzero rfl
      rw [if_neg present] at nonzero ⊢
      dsimp only
      rw [if_pos inside]
      apply Wp.bind (addr _ present)
      rintro _ _ ⟨rfl, rfl⟩
      apply bread_spec
      apply Wp.ite
      · exact fun none => absurd none nonzero
      · exact fun _ => Wp.pure ⟨rfl, rfl⟩
    · cases there

/-- The part of a file that is in one block. -/
theorem Dinode.Contains.chunk (contains : d.Contains disk bytes) {off m : Nat} (positive : 0 < m)
    (within : off + m ≤ bytes.length) (block : off % bSize + m ≤ bSize) :
    ∃ place ∈ filePlace (off / bSize), d.blockAt disk place ≠ 0 ∧
      (List.range m).map (fun k => (disk (d.blockAt disk place)).byte (off % bSize + k)) =
        (bytes.drop off).take m := by
  obtain ⟨place, there, mapped, -⟩ := contains off (by omega)
  refine ⟨place, there, mapped, ?_⟩
  apply List.ext_getElem
  · simp only [List.length_map, List.length_range, List.length_take, List.length_drop]
    omega
  intro k inside _
  rw [List.length_map, List.length_range] at inside
  have split : off / bSize = (off + k) / bSize ∧ (off + k) % bSize = off % bSize + k := by
    simp only [bSize] at *
    omega
  obtain ⟨place', there', -, byte⟩ := contains (off + k) (by omega)
  rw [← split.1] at there'
  have same : place' = place := Option.some.inj (there'.symm.trans there)
  rw [List.getElem_map, List.getElem_range, List.getElem_take, List.getElem_drop, ← byte, same,
    split.2]

/-- The loop of `readi` returns the bytes of the file. -/
theorem readiFrom_spec (contains : (s.icache ip).copy.Contains s.disk bytes) (n off tot : Nat)
    (within : off + (n - tot) ≤ bytes.length) :
    Wp stops (readiFrom ip n off tot)
      (fun read t => read = (bytes.drop off).take (n - tot) ∧ t = s) s := by
  induction gap : n - tot using Nat.strong_induction_on generalizing off tot with
  | _ left ih =>
  unfold readiFrom
  apply Wp.ite
  · intro more
    have inside : off % bSize < bSize := Nat.mod_lt _ (by decide)
    obtain ⟨m, chunk⟩ : ∃ m, m = min (n - tot) (bSize - off % bSize) := ⟨_, rfl⟩
    have within' : off + m ≤ bytes.length := by omega
    obtain ⟨place, there, mapped, copied⟩ := contains.chunk (by omega) within' (by omega)
    apply Wp.bind (bmap_found there mapped)
    rintro _ _ ⟨rfl, rfl⟩
    apply bread_spec
    dsimp only
    rw [← chunk]
    apply Wp.bind (ih _ (by omega) (off + m) (tot + m) (by omega) rfl)
    rintro _ _ ⟨rfl, rfl⟩
    refine Wp.pure ⟨?_, rfl⟩
    have rest : left = m + (n - (tot + m)) := by omega
    rw [copied, rest, List.take_add, List.drop_drop]
  · intro done
    have none : left = 0 := by omega
    exact Wp.pure ⟨by rw [none, List.take_zero], rfl⟩

variable {devsw : Nat → Option (Nat → Option (List UInt8))}

/-- `readi` inside a file returns the bytes there. -/
theorem readi_spec (contains : (s.icache ip).copy.Contains s.disk bytes)
    (plain : (s.icache ip).copy.type ≠ tDev) {off n : UInt32}
    (within : off.toNat + n.toNat ≤ bytes.length)
    (size : off.toNat + n.toNat ≤ (s.icache ip).copy.size.toNat) :
    Wp stops (readi devsw ip off n)
      (fun read t => read = some ((bytes.drop off.toNat).take n.toNat) ∧ t = s) s := by
  have bound := (s.icache ip).copy.size.toNat_lt
  have sum : (off + n).toNat = off.toNat + n.toNat := by
    rw [UInt32.toNat_add]
    omega
  have inside : ¬(off > (s.icache ip).copy.size ∨ off + n < off) := by
    simp only [gt_iff_lt, UInt32.lt_iff_toNat_lt, sum]
    omega
  have whole : ¬off + n > (s.icache ip).copy.size := by
    simp only [gt_iff_lt, UInt32.lt_iff_toNat_lt, sum]
    omega
  unfold readi
  apply Wp.get
  dsimp only
  rw [if_neg plain, if_neg inside, if_neg whole]
  apply Wp.bind (readiFrom_spec contains n.toNat off.toNat 0 within)
  rintro _ _ ⟨rfl, rfl⟩
  exact Wp.pure ⟨rfl, rfl⟩

/-- A file that has its blocks contains its bytes. -/
theorem Dinode.Full.contains (full : d.Full disk) : d.Contains disk (d.bytes disk) := by
  intro k inside
  rw [bytes, List.length_map, List.length_range] at inside
  obtain ⟨place, there, mapped⟩ :=
    full (k / bSize) (Nat.lt_of_le_of_lt (Nat.div_mul_le_self k bSize) inside)
  refine ⟨place, there, mapped, ?_⟩
  simp only [bytes, List.getElem_map, List.getElem_range]
  rw [show filePlace (k / bSize) = some place from there]
  rfl

/-- `readi` on a file that has its blocks changes nothing. -/
theorem readi_full (full : (s.icache ip).copy.Full s.disk) (plain : (s.icache ip).copy.type ≠ tDev)
    (off n : UInt32) : Wp stops (readi devsw ip off n) (fun _ t => t = s) s := by
  have length : ((s.icache ip).copy.bytes s.disk).length = (s.icache ip).copy.size.toNat :=
    Dinode.length_bytes _ _
  unfold readi
  apply Wp.get
  dsimp only
  rw [if_neg plain]
  apply Wp.ite
  · exact fun _ => Wp.pure rfl
  intro inside
  simp only [gt_iff_lt, UInt32.lt_iff_toNat_lt, not_or, Nat.not_lt] at inside
  have within : off.toNat +
      (if off + n > (s.icache ip).copy.size then (s.icache ip).copy.size - off else n).toNat ≤
        (s.icache ip).copy.size.toNat := by
    split
    · rw [UInt32.toNat_sub_of_le _ _ (UInt32.le_iff_toNat_le.mpr inside.1)]
      omega
    · rename_i whole
      simp only [gt_iff_lt, UInt32.lt_iff_toNat_lt, Nat.not_lt] at whole
      rw [UInt32.toNat_add] at whole inside
      have bound := (s.icache ip).copy.size.toNat_lt
      have bound' := off.toNat_lt
      have bound'' := n.toNat_lt
      omega
  apply Wp.bind (readiFrom_spec full.contains _ off.toNat 0 (by rw [length]; exact within))
  rintro _ _ ⟨-, rfl⟩
  exact Wp.pure rfl

/-! ## Directories -/

section

variable (contains : (s.icache ip).copy.Contains s.disk (dirBytes entries))
  (dir : (s.icache ip).copy.type = tDir)
  (size : direntSize * entries.length ≤ (s.icache ip).copy.size.toNat)

include contains dir size

/-- `readi` at the place of an entry returns the entry. -/
theorem readi_dirent (inside : i < entries.length) :
    Wp stops (readi devsw ip (UInt32.ofNat (direntSize * i)) (UInt32.ofNat direntSize))
      (fun read t => read = some entries[i].toBytes ∧ t = s) s := by
  have bound := (s.icache ip).copy.size.toNat_lt
  have after : direntSize * i + direntSize ≤ direntSize * entries.length := by
    rw [← Nat.mul_succ]
    exact Nat.mul_le_mul_left _ inside
  have off : (UInt32.ofNat (direntSize * i)).toNat = direntSize * i :=
    UInt32.toNat_ofNat_of_lt' (by simp only [UInt32.size]; omega)
  have n : (UInt32.ofNat direntSize).toNat = direntSize := rfl
  have plain : (s.icache ip).copy.type ≠ tDev := by
    rw [dir]
    decide
  apply Wp.mono (readi_spec contains plain (by rw [off, n, length_dirBytes]; exact after)
    (by rw [off, n]; exact after.trans size))
  rintro _ _ ⟨rfl, rfl⟩
  refine ⟨?_, rfl⟩
  rw [off, n, dirBytes_slice entries i inside]

/-- A round of the loop of `dirlookup`. -/
theorem dirlookupFrom_round (inside : i < entries.length)
    (found : entries[i].Matches name → Wp stops (iget entries[i].inum.toNat)
      (fun jp t => post (some (jp, direntSize * i)) t) s)
    (next : ¬entries[i].Matches name → Wp stops (dirlookupFrom devsw ip name
      (s.icache ip).copy.size.toNat (direntSize * (i + 1))) post s) :
    Wp stops (dirlookupFrom devsw ip name (s.icache ip).copy.size.toNat
      (direntSize * i)) post s := by
  have more : direntSize * i < (s.icache ip).copy.size.toNat :=
    Nat.lt_of_lt_of_le (Nat.mul_lt_mul_of_pos_left inside direntSize_pos) size
  unfold dirlookupFrom
  rw [if_pos more]
  apply Wp.bind (readi_dirent contains dir size inside)
  rintro _ _ ⟨rfl, rfl⟩
  dsimp only
  rw [if_neg (by simp), Dirent.ofBytes_toBytes]
  apply Wp.ite
  · exact fun unused => next fun matched => matched.1 unused
  · intro used
    apply Wp.ite
    · intro same
      apply Wp.bind (found ⟨used, same⟩)
      exact fun _ _ done => Wp.pure done
    · exact fun other => next fun matched => other matched.2

/-- The loop of `dirlookup` goes to the first entry with the name. -/
theorem dirlookupFrom_spec (inside : j < entries.length)
    (others : ∀ i (before : i < j), ¬(entries[i]).Matches name) (here : entries[j].Matches name)
    (found : Wp stops (iget entries[j].inum.toNat)
      (fun jp t => post (some (jp, direntSize * j)) t) s) (i : Nat) (le : i ≤ j) :
    Wp stops (dirlookupFrom devsw ip name (s.icache ip).copy.size.toNat
      (direntSize * i)) post s := by
  induction gap : j - i generalizing i with
  | zero =>
    obtain rfl : i = j := by omega
    exact dirlookupFrom_round contains dir size inside (fun _ => found) (absurd here)
  | succ n ih =>
    have before : i < j := by omega
    exact dirlookupFrom_round contains dir size (before.trans inside)
      (fun matched => absurd matched (others i before)) fun _ => ih (i + 1) before (by omega)

/-- `dirlookup` returns what `iget` returns for the first entry with the name. -/
theorem dirlookup_spec (inside : j < entries.length)
    (others : ∀ i (before : i < j), ¬(entries[i]).Matches name) (here : entries[j].Matches name)
    (found : Wp stops (iget entries[j].inum.toNat)
      (fun jp t => post (some (jp, direntSize * j)) t) s) :
    Wp stops (dirlookup devsw ip name) post s := by
  unfold dirlookup
  apply Wp.get
  dsimp only
  rw [if_neg (not_not_intro dir)]
  exact dirlookupFrom_spec contains dir size inside others here found 0 (Nat.zero_le j)

end

/-! ## A disk that nobody has changed -/

variable {image : Disk} {inum : Nat}

/-- A change of an entry of the inode cache. -/
theorem Fs.Mounted.setEntry (mounted : s.Mounted image) {x : Inode}
    (copy : 0 < x.ref → x.valid = true → x.copy = s.dinode x.inum) :
    Fs.Mounted { s with toStore := s.toStore.setEntry ip x } image where
  disk := mounted.disk
  sb := mounted.sb
  copies := by
    intro i jp holds
    by_cases same : jp = ip
    · subst same
      have entry : (s.toStore.setEntry jp x).icache jp = x := Store.setEntry_same ..
      obtain ⟨used, read, rfl⟩ := holds
      rw [entry] at used read ⊢
      exact copy used read
    · have entry : (s.toStore.setEntry ip x).icache jp = s.icache jp :=
        Store.setEntry_of_ne _ _ same
      rw [entry]
      exact mounted.copies i jp ((Store.holds_setEntry_of_ne _ _ same).mp holds)

/-- `iget` returns an entry for the inode. -/
theorem iget_mounted (mounted : s.Mounted image) (room : s.Room inum) :
    Wp (fun _ => False) (iget inum)
      (fun jp t => t.Mounted image ∧ 0 < (t.icache jp).ref ∧ (t.icache jp).inum = inum) s := by
  unfold iget
  apply Wp.get
  split
  · rename_i jp found
    have hit : (s.icache jp).ref > 0 ∧ (s.icache jp).inum = inum := by
      simpa using List.find?_some found
    apply Wp.bind setInode_spec
    rintro _ _ rfl
    apply Wp.pure
    refine ⟨mounted.setEntry fun _ read => mounted.copies _ jp ⟨hit.1, read, rfl⟩, ?_⟩
    dsimp only
    rw [Store.setEntry_same]
    exact ⟨Nat.succ_pos _, hit.2⟩
  · rename_i absent
    split
    · -- An entry for the inode would have been found first.
      rename_i full
      obtain ⟨jp, free | same⟩ := room
      · have taken := List.find?_eq_none.mp full jp (List.mem_finRange jp)
        simp [free] at taken
      · have missed := List.find?_eq_none.mp absent jp (List.mem_finRange jp)
        have taken := List.find?_eq_none.mp full jp (List.mem_finRange jp)
        simp only [decide_eq_true_eq] at missed taken
        exact absurd ⟨Nat.pos_of_ne_zero taken, same⟩ missed
    · rename_i jp found
      apply Wp.bind setInode_spec
      rintro _ _ rfl
      apply Wp.pure
      refine ⟨mounted.setEntry fun _ read => absurd read Bool.false_ne_true, ?_⟩
      dsimp only
      rw [Store.setEntry_same]
      exact ⟨Nat.one_pos, rfl⟩

/-- `ilock` reads an inode that is allocated. -/
theorem ilock_mounted (mounted : s.Mounted image) (used : 0 < (s.icache ip).ref)
    (number : (s.icache ip).inum = inum) (typed : (s.dinode inum).type ≠ 0) :
    Wp (fun _ => False) (ilock ip) (fun _ t => t.Mounted image ∧ t.Holds inum ip) s := by
  unfold ilock
  apply Wp.get
  dsimp only
  rw [if_neg (by omega)]
  apply Wp.ite
  · intro unread
    apply bread_spec
    apply Wp.bind setInode_spec
    rintro _ _ rfl
    subst number
    apply Wp.ite
    · exact fun untyped => absurd untyped typed
    · intro _
      apply Wp.pure
      refine ⟨mounted.setEntry fun _ _ => rfl, ?_⟩
      unfold Store.Holds
      dsimp only
      rw [Store.setEntry_same]
      exact ⟨used, rfl, rfl⟩
  · intro read
    exact Wp.pure ⟨mounted, used, by simpa using read, number⟩

end Xv6
