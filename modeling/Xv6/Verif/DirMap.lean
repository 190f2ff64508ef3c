import Xv6.Verif.DirEntries
import Xv6.Verif.FileWrite
import Xv6.Verif.FsCheck

/-!
# A directory is a map from names to inode numbers

`dirlink` puts an entry where none is in use, or behind the last one; a removal zeroes an entry. No
two entries in use have the same name, so a lookup finds the only entry with its name, and a change
of one entry is seen under one name only.
-/

namespace Xv6

open Lib Function

/-! ## Entries in the bytes -/

variable {entries : List Dirent} {name : List UInt8} {de : Dirent} {i : Nat}

/-- The first entries are in the first bytes. -/
theorem take_dirBytes (entries : List Dirent) (i : Nat) :
    (dirBytes entries).take (direntSize * i) = dirBytes (entries.take i) := by
  induction entries generalizing i with
  | nil => simp [dirBytes]
  | cons de rest ih =>
    cases i with
    | zero => rw [Nat.mul_zero, List.take_zero, List.take_zero]; rfl
    | succ i =>
      have shift : direntSize * (i + 1) = de.toBytes.length + direntSize * i := by
        rw [de.length_toBytes, Nat.mul_succ, Nat.add_comm]
      show (de.toBytes ++ dirBytes rest).take (direntSize * (i + 1)) = _
      rw [shift, List.take_length_add_append, ih]
      rfl

/-- The other entries are in the other bytes. -/
theorem drop_dirBytes (entries : List Dirent) (i : Nat) :
    (dirBytes entries).drop (direntSize * i) = dirBytes (entries.drop i) := by
  have parts : dirBytes (entries.take i) ++ dirBytes (entries.drop i) = dirBytes entries := by
    rw [dirBytes, dirBytes, ← List.flatMap_append, List.take_append_drop]
    rfl
  have whole := List.take_append_drop (direntSize * i) (dirBytes entries)
  rw [take_dirBytes] at whole
  exact List.append_cancel_left (whole.trans parts.symm)

/-- An entry is written over another, or behind the last. -/
theorem overwrite_dirBytes (entries : List Dirent) (i : Nat) (de : Dirent) :
    overwrite (dirBytes entries) (direntSize * i) de.toBytes =
      dirBytes (setDirent entries i de) := by
  have after : direntSize * i + de.toBytes.length = direntSize * (i + 1) := by
    rw [de.length_toBytes, Nat.mul_succ]
  rw [overwrite, take_dirBytes, after, drop_dirBytes, List.append_assoc]
  show _ = (entries.take i ++ de :: entries.drop (i + 1)).flatMap Dirent.toBytes
  rw [List.flatMap_append, List.flatMap_cons]
  rfl

/-- The bytes of an entry, one by one. -/
theorem Dirent.map_getD (de : Dirent) :
    (List.range direntSize).map (fun k => de.toBytes.getD k 0) = de.toBytes := by
  apply List.ext_getElem
  · rw [List.length_map, List.length_range, de.length_toBytes]
  · intro k _ inside
    rw [List.getElem_map, List.getElem_range, List.getElem_eq_getD 0]

/-! ## Lookups -/

/-- An entry has a name when it is in use and holds the same string. -/
theorem Dirent.matches_iff :
    de.Matches name ↔ de.inum ≠ 0 ∧ cstr dirSiz name = cstr dirSiz de.name :=
  and_congr_right fun _ => strncmp_eq_zero _ _ _

/-- Equal names compare equal from either side. -/
theorem namecmp_comm {p q : List UInt8} : namecmp p q = 0 ↔ namecmp q p = 0 := by
  unfold namecmp
  rw [strncmp_eq_zero, strncmp_eq_zero, eq_comm]

/-- A lookup finds nothing when no entry has the name. -/
theorem lookupFrom_eq_none {off : Nat} :
    lookupFrom name off entries = none ↔ ∀ de ∈ entries, ¬de.Matches name := by
  induction entries generalizing off with
  | nil => simp [lookupFrom]
  | cons de rest ih =>
    rw [lookupFrom, List.forall_mem_cons]
    split
    · rename_i here
      exact iff_of_false (Option.some_ne_none _) fun both => both.1 here
    · rename_i other
      rw [ih]
      exact (and_iff_right other).symm

/-- A lookup goes through the first entries, and then through the others. -/
theorem lookupFrom_append (name : List UInt8) (off : Nat) (first rest : List Dirent) :
    lookupFrom name off (first ++ rest) =
      (lookupFrom name off first).or (lookupFrom name (off + direntSize * first.length) rest) := by
  induction first generalizing off with
  | nil => rfl
  | cons de first ih =>
    rw [List.cons_append, lookupFrom, lookupFrom]
    split
    · rfl
    · have after : off + direntSize + direntSize * first.length =
          off + direntSize * (de :: first).length := by
        rw [List.length_cons, Nat.mul_succ]
        omega
      rw [ih, after]

/-- What a lookup finds is the first entry with the name. -/
theorem lookupFrom_eq_some {off inum place : Nat}
    (found : lookupFrom name off entries = some (inum, place)) :
    ∃ i de, entries[i]? = some de ∧ de.Matches name ∧ inum = de.inum.toNat ∧
      place = off + direntSize * i := by
  induction entries generalizing off with
  | nil => cases found
  | cons de rest ih =>
    rw [lookupFrom] at found
    split at found
    · rename_i here
      cases found
      exact ⟨0, de, rfl, here, rfl, rfl⟩
    · obtain ⟨i, de', there, named, number, place⟩ := ih found
      refine ⟨i + 1, de', by rw [List.getElem?_cons_succ]; exact there, named, number, ?_⟩
      rw [place, Nat.mul_succ]
      omega

/-- A change of an entry is not seen under a name that it has neither before nor after. -/
theorem lookup_setDirent_other (before : ∀ old, entries[i]? = some old → ¬old.Matches name)
    (after : ¬de.Matches name) : lookup (setDirent entries i de) name = lookup entries name := by
  have rest (off : Nat) : lookupFrom name off (de :: entries.drop (i + 1)) =
      lookupFrom name off (entries.drop i) := by
    rw [lookupFrom, if_neg after]
    by_cases inside : i < entries.length
    · rw [List.drop_eq_getElem_cons inside, lookupFrom,
        if_neg (before _ (List.getElem?_eq_getElem inside))]
    · rw [List.drop_eq_nil_of_le (by omega), List.drop_eq_nil_of_le (by omega)]
      rfl
  have whole := lookupFrom_append name 0 (entries.take i) (entries.drop i)
  rw [List.take_append_drop] at whole
  rw [lookup, setDirent, lookupFrom_append, rest, ← whole]
  rfl

/-- A new entry is found under its name. -/
theorem lookup_setDirent_same (inside : i ≤ entries.length) (absent : lookup entries name = none)
    (named : de.Matches name) :
    lookup (setDirent entries i de) name = some (de.inum.toNat, direntSize * i) := by
  have none : lookupFrom name 0 (entries.take i) = none :=
    lookupFrom_eq_none.mpr fun old member =>
      lookupFrom_eq_none.mp absent old (List.mem_of_mem_take member)
  rw [lookup, setDirent, lookupFrom_append, none, Option.none_or, lookupFrom, if_pos named,
    List.length_take, Nat.min_eq_left inside, Nat.zero_add]

/-- The entry is there then. -/
theorem getElem?_setDirent (inside : i ≤ entries.length) :
    (setDirent entries i de)[i]? = some de := by
  have length : (entries.take i).length = i := by
    rw [List.length_take, Nat.min_eq_left inside]
  rw [setDirent, List.getElem?_append_right (Nat.le_of_eq length), length, Nat.sub_self,
    List.getElem?_cons_zero]

/-- There may be one more. -/
theorem length_setDirent (inside : i ≤ entries.length) :
    (setDirent entries i de).length = max entries.length (i + 1) := by
  rw [setDirent, List.length_append, List.length_take, List.length_cons, List.length_drop]
  omega

/-- Names stay different when the new entry has none of them. -/
theorem Distinct.setDirent (distinct : Distinct entries)
    (apart : ∀ old ∈ entries, de.inum ≠ 0 → old.inum ≠ 0 → namecmp old.name de.name ≠ 0) :
    Distinct (setDirent entries i de) := by
  have whole : Distinct (entries.take i ++ entries.drop i) := by
    rw [List.take_append_drop]
    exact distinct
  obtain ⟨first, second, cross⟩ := List.pairwise_append.mp whole
  have rest : (entries.drop (i + 1)).Sublist (entries.drop i) :=
    List.drop_sublist_drop_left _ (Nat.le_succ i)
  refine List.pairwise_append.mpr ⟨first, List.pairwise_cons.mpr ⟨?_, second.sublist rest⟩, ?_⟩
  · intro old member used used' same
    exact apart old (List.mem_of_mem_drop member) used used' (namecmp_comm.mp same)
  · intro old member other member'
    rcases List.mem_cons.mp member' with rfl | later
    · exact fun used used' => apart old (List.mem_of_mem_take member) used' used
    · exact cross old member other (rest.subset later)

/-- Where names are different, an entry is the only one with its name. -/
theorem Distinct.unique (distinct : Distinct entries) {j k : Nat} {de' : Dirent}
    (first : entries[j]? = some de) (second : entries[k]? = some de') (named : de.Matches name)
    (named' : de'.Matches name) : j = k := by
  have apart {a b : Nat} {x y : Dirent} (here : entries[a]? = some x) (there : entries[b]? = some y)
      (order : a < b) (matched : x.Matches name) (matched' : y.Matches name) : False := by
    obtain ⟨bound, rfl⟩ := List.getElem?_eq_some_iff.mp here
    obtain ⟨bound', rfl⟩ := List.getElem?_eq_some_iff.mp there
    have differ := List.pairwise_iff_getElem.mp distinct a b bound bound' order matched.1 matched'.1
    rw [Dirent.matches_iff] at matched matched'
    exact differ ((strncmp_eq_zero _ _ _).mpr (matched.2.symm.trans matched'.2))
  rcases Nat.lt_trichotomy j k with less | same | more
  · exact (apart first second less named named').elim
  · exact same
  · exact (apart second first more named' named).elim

/-! ## The calls -/

variable {s t : Fs} {stops : String → Prop} {dp ip : Fin nInode} {d inum : Nat} {file : File}
  {dev : Devsw}

/-- What `dirlink` says when the directory is full. -/
def dirFull : String := "dirlink"

section

variable (contains : (s.icache dp).copy.Contains s.disk (dirBytes entries))
  (dir : (s.icache dp).copy.type = tDir)
  (size : (s.icache dp).copy.size.toNat = direntSize * entries.length)

include contains dir size

/-- The loop of `dirlink` goes to the first entry that is not in use, or to the end. -/
theorem dirlinkFrom_free (before : i ≤ freeDirent entries) :
    Wp stops (Walk.dirlinkFrom dev dp (s.icache dp).copy.size.toNat (direntSize * i))
      (fun off t => off = direntSize * freeDirent entries ∧ t = s) s := by
  have last : freeDirent entries ≤ entries.length := List.findIdx_le_length
  induction gap : entries.length - i generalizing i with
  | zero =>
    have done : i = entries.length := by omega
    have here : freeDirent entries = i := by omega
    unfold Walk.dirlinkFrom
    rw [size, done, if_neg (Nat.lt_irrefl _), ← done, here]
    exact Wp.pure ⟨rfl, rfl⟩
  | succ n ih =>
    have inside : i < entries.length := by omega
    have more : direntSize * i < (s.icache dp).copy.size.toNat :=
      size ▸ Nat.mul_lt_mul_of_pos_left inside direntSize_pos
    unfold Walk.dirlinkFrom
    rw [if_pos more]
    apply Wp.bind (readi_dirent contains dir (Nat.le_of_eq size.symm) inside)
    rintro _ _ ⟨rfl, rfl⟩
    dsimp only
    rw [if_neg (by simp), Dirent.ofBytes_toBytes]
    apply Wp.ite
    · intro free
      have here : freeDirent entries ≤ i := by
        by_contra later
        have used := List.not_of_lt_findIdx (Nat.lt_of_not_le later)
        simp only [decide_eq_false_iff_not] at used
        exact used free
      have same : freeDirent entries = i := by omega
      rw [same]
      exact Wp.pure ⟨rfl, rfl⟩
    · intro used
      have later : i ≠ freeDirent entries := by
        rintro rfl
        have free := List.findIdx_getElem (w := inside)
        simp only [decide_eq_true_eq] at free
        exact used free
      rw [← Nat.mul_succ]
      exact ih (by omega) (by omega)

/-- `dirlookup` takes a reference to the inode of the first entry with the name. -/
theorem dirlookup_gets {devsw : Nat → Option (Nat → Option (List UInt8))}
    (room : ∀ i off, lookup entries name = some (i, off) → ¬stops noInodes → s.Room i) :
    Wp stops (dirlookup devsw dp name) (fun r t => match lookup entries name with
      | none => r = none ∧ t = s
      | some (i, off) => ∃ ip, r = some (ip, off) ∧ Gets i ip s t) s := by
  unfold dirlookup
  apply Wp.get
  dsimp only
  rw [if_neg (not_not_intro dir)]
  apply dirlookupFrom_lookup contains dir size (Nat.zero_le _)
  · intro i off found
    rw [Nat.mul_zero, List.drop_zero] at found
    have here : lookup entries name = some (i, off) := found
    rw [here]
    apply Wp.mono (iget_gets (room i off here))
    exact fun ip t gets => ⟨ip, rfl, gets⟩
  · intro none
    rw [Nat.mul_zero, List.drop_zero] at none
    have here : lookup entries name = Option.none := none
    rw [here]
    exact ⟨rfl, rfl⟩

end

/-- The offset of an entry in the longest directory is a machine word. -/
theorem toNat_offset (bound : direntSize * i ≤ maxFile * bSize) :
    (UInt32.ofNat (direntSize * i)).toNat = direntSize * i := by
  refine UInt32.toNat_ofNat_of_lt' ?_
  simp only [UInt32.size, direntSize, dirSiz, maxFile, nDirect, nIndirect, bSize] at *
  omega

/-- A directory whose inode has been read. -/
structure InCache (dp : Fin nInode) (d : Nat) (entries : List Dirent) (file : File) (s : Fs) :
    Prop where
  whole : s.Whole
  /-- The entry of the inode cache is for the directory. -/
  holds : s.Holds d dp
  found : s.files d = some file
  dir : file.type = tDir
  bytes : file.bytes = dirBytes entries

namespace InCache

variable (cached : InCache dp d entries file s)

include cached

/-- The inode of a directory in the cache. -/
theorem copy :
    (s.icache dp).copy.Contains s.disk (dirBytes entries) ∧ (s.icache dp).copy.type = tDir ∧
      (s.icache dp).copy.size.toNat = direntSize * entries.length := by
  obtain ⟨numbered, typed, here⟩ := Store.files_eq_some cached.found
  have contains := (cached.whole.full d numbered typed).contains
  have bytes : (s.dinode d).bytes s.disk = dirBytes entries := by
    rw [← cached.bytes, here]
    rfl
  have size : ((s.dinode d).bytes s.disk).length = (s.dinode d).size.toNat :=
    Dinode.length_bytes _ _
  rw [cached.whole.clean d dp cached.holds]
  refine ⟨bytes ▸ contains, ?_, ?_⟩
  · rw [← cached.dir, here]
    rfl
  · rw [← size, bytes, length_dirBytes]

/-- A directory is a file, and no longer than one. -/
theorem length_le : direntSize * entries.length ≤ maxFile * bSize := by
  obtain ⟨numbered, typed, -⟩ := Store.files_eq_some cached.found
  have bound := (cached.whole.full d numbered typed).size_le
  rw [← cached.whole.clean d dp cached.holds, cached.copy.2.2] at bound
  exact bound

/-- An entry is written into a directory. -/
theorem writeDirent (inside : i ≤ entries.length) (short : direntSize * (i + 1) ≤ maxFile * bSize)
    (enough : ¬stops outOfBlocks → s.Affords d (dataBlocks (direntSize * (i + 1)))) :
    Wp stops (Walk.writeDirent dev dp de.toBytes (direntSize * i))
      (fun r t => r = some direntSize ∧
        Wrote dp d (file.withEntries (setDirent entries i de)) s.toStore t.toStore)
      s := by
  have sum : direntSize * i + direntSize = direntSize * (i + 1) := (Nat.mul_succ _ _).symm
  have off := toNat_offset (Nat.le_trans (Nat.mul_le_mul_left _ (Nat.le_succ i)) short)
  have n : (UInt32.ofNat direntSize).toNat = direntSize := rfl
  have plain : file.type ≠ tDev := by
    rw [cached.dir]
    decide
  have start : (UInt32.ofNat (direntSize * i)).toNat ≤ file.bytes.length := by
    rw [off, cached.bytes, length_dirBytes]
    exact Nat.mul_le_mul_left _ inside
  apply Wp.mono (writei_whole cached.whole cached.holds cached.found plain start
    (by rw [off, n, sum]; exact short) (by rw [off, n, sum]; exact enough))
  rintro r t ⟨rfl, wrote⟩
  refine ⟨rfl, ?_⟩
  rw [off, n, de.map_getD, cached.bytes, overwrite_dirBytes] at wrote
  exact wrote

/-- No entry is written behind the last one of the longest directory. -/
theorem writeDirent_full (long : maxFile * bSize < direntSize * (entries.length + 1)) :
    Wp stops (Walk.writeDirent dev dp de.toBytes (direntSize * entries.length))
      (fun r _ => r = none) s := by
  obtain ⟨-, type, size⟩ := cached.copy
  have plain : (s.icache dp).copy.type ≠ tDev := by
    rw [type]
    decide
  have off := toNat_offset cached.length_le
  have n : (UInt32.ofNat direntSize).toNat = direntSize := rfl
  refine Wp.of_ok (writei_bad plain (.inr (.inr ?_))) rfl
  rw [off, n, ← Nat.mul_succ]
  exact long

/-- An entry that is not in use can be overwritten. -/
theorem slot (inside : i < entries.length) :
    direntSize * (i + 1) ≤ maxFile * bSize ∧ s.Affords d (dataBlocks (direntSize * (i + 1))) := by
  have within : direntSize * (i + 1) ≤ direntSize * entries.length := Nat.mul_le_mul_left _ inside
  obtain ⟨numbered, typed, -⟩ := Store.files_eq_some cached.found
  have size := cached.copy.2.2
  rw [cached.whole.clean d dp cached.holds] at size
  refine ⟨within.trans cached.length_le, ?_⟩
  unfold Store.Affords
  rw [(cached.whole.full d numbered typed).missing (size ▸ within)]
  exact Nat.zero_le _

end InCache

/-- The reference of a lookup is dropped, after a change that left its entry alone: the file system
is the same but for free entries of the inode cache. -/
theorem Gets.iput {w : Walk} (gets : Gets i ip s t) {u : Fs} (entry : u.icache ip = s.icache ip)
    (beside : Beside ip (t.icache ip) u w.toFs) (free : w.locked ip = false) :
    Wp stops (Walk.iput ip) (fun _ w' => w'.locked = w.locked ∧ u.Same w'.toStore) w := by
  have here : w.icache ip = t.icache ip := by
    rw [show w.toStore = _ from beside, Store.setEntry_same]
  have kept : (w.icache ip).valid = true → (w.icache ip).copy.nlink = 0 →
      (w.icache ip).ref ≠ 1 := by
    rw [here]
    intro valid _ last
    rcases Nat.eq_zero_or_pos (s.icache ip).ref with unused | used
    · rw [(gets.miss unused).2.1] at valid
      cases valid
    · rw [gets.hit used] at last
      have one : (s.icache ip).ref + 1 = 1 := last
      omega
  apply Wp.mono (iput_drops free kept)
  rintro _ _ rfl
  refine ⟨rfl, beside.disk, beside.sb, fun jp used => ?_, fun jp unused => ?_⟩
  · show (w.toStore.setEntry ip (w.dropEntry ip)).icache jp = u.icache jp
    by_cases same : jp = ip
    · rw [same] at used ⊢
      rw [entry] at used
      rw [Store.setEntry_same, Store.dropEntry, here, gets.hit used, entry]
      rfl
    · rw [Store.setEntry_of_ne _ _ same]
      exact beside.icache same
  · show ((w.toStore.setEntry ip (w.dropEntry ip)).icache jp).ref = 0
    by_cases same : jp = ip
    · rw [same] at unused ⊢
      rw [entry] at unused
      rw [Store.setEntry_same, Store.dropEntry, here]
      show (t.icache ip).ref - 1 = 0
      rw [(gets.miss unused).1]
    · rw [Store.setEntry_of_ne _ _ same, beside.icache same]
      exact unused

/-- The reference is to the entry of an inode in use exactly when it is for that inode. -/
theorem Gets.eq_iff (gets : Gets i ip s t) (whole : s.Whole) (used : 0 < (s.icache dp).ref) :
    ip = dp ↔ i = (s.icache dp).inum := by
  have number := gets.inum
  constructor
  · rintro rfl
    rw [gets.hit used] at number
    exact number.symm
  · intro same
    rcases Nat.eq_zero_or_pos (s.icache ip).ref with unused | used'
    · exact absurd same.symm ((gets.miss unused).2.2 dp used)
    · rw [gets.hit used'] at number
      exact whole.unique ip dp used' used (number.trans same)

/-- The rest of the file system stays beside the entry of a reference. -/
theorem Gets.beside (gets : Gets i ip s t) : Beside ip (t.icache ip) s t :=
  congrArg Fs.toStore gets.entry

/-- The inode of a reference was cached, or an entry was free. -/
theorem Gets.room (gets : Gets i ip s t) : s.Room i := by
  rcases Nat.eq_zero_or_pos (s.icache ip).ref with unused | used
  · exact ⟨ip, .inl unused⟩
  · have number := gets.inum
    rw [gets.hit used] at number
    exact ⟨ip, .inr number⟩

/-- The place of a new entry is inside the longest file, and there are free blocks for it. -/
def Store.Takes (s : Store) (d : Nat) (entries : List Dirent) : Prop :=
  direntSize * (freeDirent entries + 1) ≤ maxFile * bSize ∧
    s.Affords d (dataBlocks (direntSize * (freeDirent entries + 1)))

/-- There were free blocks for an entry that has been written. -/
theorem InCache.affords (cached : InCache dp d entries file s) {t : Store}
    (wrote :
      Wrote dp d (file.withEntries (setDirent entries (freeDirent entries) de)) s.toStore t) :
    s.Affords d (dataBlocks (direntSize * (freeDirent entries + 1))) := by
  have within : freeDirent entries ≤ entries.length := List.findIdx_le_length
  rcases Nat.lt_or_eq_of_le within with inside | last
  · exact (cached.slot inside).2
  · have length : (file.withEntries (setDirent entries (freeDirent entries) de)).bytes.length =
        direntSize * (freeDirent entries + 1) := by
      show (dirBytes _).length = _
      rw [length_dirBytes, length_setDirent last.le, last, Nat.max_eq_right (Nat.le_succ _)]
    have after := wrote.whole.affords (by rw [wrote.files, update_self]) (Nat.le_refl _)
    rw [wrote.affords _ (le_dataBlocks _), length] at after
    exact after

/-- `dirlink` adds an entry to a directory that has not the name. -/
theorem InCache.dirlink {w : Walk} (cached : InCache dp d entries file w.toFs)
    (absent : lookup entries name = none)
    (takes : ¬stops dirFull ∨ ¬stops outOfBlocks → w.Takes d entries) :
    Wp stops (Walk.dirlink dev dp name inum) (fun r w' => w'.locked = w.locked ∧ r = 0 ∧
      w.Takes d entries ∧ Wrote dp d (file.withEntries
          (setDirent entries (freeDirent entries) (Walk.direntOf name inum)))
          w.toStore w'.toStore) w := by
  obtain ⟨contains, dir, size⟩ := cached.copy
  have last : freeDirent entries ≤ entries.length := List.findIdx_le_length
  unfold Walk.dirlink
  refine Wp.bind (fsOp_spec (dirlookup_gets contains dir size fun i off found => ?_)) ?_
  · rw [absent] at found
    cases found
  rintro r _ ⟨t, result, rfl⟩
  rw [absent] at result
  obtain ⟨rfl, rfl⟩ := result
  dsimp only
  apply Wp.get
  apply Wp.bind (fsOp_spec (dirlinkFrom_free contains dir size (i := 0) (Nat.zero_le _)))
  rintro off _ ⟨_, ⟨rfl, rfl⟩, rfl⟩
  by_cases fits : direntSize * (freeDirent entries + 1) ≤ maxFile * bSize
  · apply Wp.bind (fsOp_spec (cached.writeDirent last fits fun total => (takes (.inr total)).2))
    rintro r _ ⟨t, ⟨rfl, wrote⟩, rfl⟩
    rw [if_neg (not_not_intro rfl)]
    exact Wp.pure ⟨rfl, rfl, ⟨fits, cached.affords wrote⟩, wrote⟩
  · have full : freeDirent entries = entries.length := by
      by_contra inside
      exact fits (cached.slot (Nat.lt_of_le_of_ne last inside)).1
    rw [full] at fits
    rw [full]
    apply Wp.bind (fsOp_spec (cached.writeDirent_full (Nat.lt_of_not_le fits)))
    rintro r _ ⟨t, rfl, rfl⟩
    rw [if_pos (Option.some_ne_none _).symm]
    apply Wp.throw_bind
    by_contra total
    exact fits (full ▸ (takes (.inl total)).1)

/-- A directory whose inode the process has locked. -/
structure Locked (dp : Fin nInode) (d : Nat) (entries : List Dirent) (file : File) (w : Walk) :
    Prop extends InCache dp d entries file w.toFs where
  locks : ∀ jp, w.locked jp = true ↔ jp = dp

namespace Locked

variable {w : Walk}

variable (locked : Locked dp d entries file w)
  (room : ∀ i off, lookup entries name = some (i, off) → ¬stops noInodes → w.Room i)

include locked room

/-- `dirlink` leaves a directory that has the name, and adds an entry to one that has not. -/
theorem dirlink (other : ∀ i off, lookup entries name = some (i, off) → ¬stops asleep → i ≠ d)
    (takes : lookup entries name = none → ¬stops dirFull ∨ ¬stops outOfBlocks →
      w.Takes d entries) :
    Wp stops (Walk.dirlink dev dp name inum) (fun r w' => w'.locked = w.locked ∧
      match lookup entries name with
      | some (i, _) => (i ≠ d ∧ w.Room i) ∧ r = -1 ∧ w.Same w'.toStore
      | none => r = 0 ∧ w.Takes d entries ∧ Wrote dp d (file.withEntries
          (setDirent entries (freeDirent entries) (Walk.direntOf name inum)))
          w.toStore w'.toStore) w := by
  cases found : lookup entries name with
  | none => exact locked.toInCache.dirlink found (takes found)
  | some place =>
    obtain ⟨i, off⟩ := place
    obtain ⟨contains, dir, size⟩ := locked.copy
    unfold Walk.dirlink
    apply Wp.bind (fsOp_spec (dirlookup_gets contains dir size room))
    rintro r _ ⟨t, result, rfl⟩
    rw [found] at result
    obtain ⟨ip, rfl, gets⟩ := result
    have here := gets.eq_iff locked.whole locked.holds.1
    rw [locked.holds.2.2] at here
    dsimp only
    by_cases self : ip = dp
    · -- The entry names the directory, whose lock is held.
      have locked' : w.locked ip = true := (locked.locks ip).mpr self
      have allowed : stops asleep := by
        by_contra total
        exact other i off found total (here.mp self)
      exact Wp.bind (iput_sleeps locked' allowed) fun _ _ impossible => impossible.elim
    · have free : w.locked ip = false := by
        rw [← Bool.not_eq_true, locked.locks]
        exact self
      refine Wp.bind (gets.iput rfl gets.beside free) fun _ w' same => ?_
      exact Wp.pure ⟨same.1, ⟨fun equal => self (here.mpr equal), gets.room⟩, rfl, same.2⟩

/-- `sys_unlink` clears the entry of a name. -/
theorem removeEntry (other : ∀ i off, lookup entries name = some (i, off) → i ≠ d) :
    Wp stops (Walk.removeEntry dev dp name) (fun r w' => w'.locked = w.locked ∧
      match lookup entries name with
      | none => r = -1 ∧ w' = w
      | some _ => r = 0 ∧ ∃ k de, entries[k]? = some de ∧ de.Matches name ∧ ∃ u : Store,
          Wrote dp d (file.withEntries (setDirent entries k Dirent.unused)) w.toStore u ∧
          u.Same w'.toStore) w := by
  obtain ⟨contains, dir, size⟩ := locked.copy
  unfold Walk.removeEntry
  apply Wp.bind (fsOp_spec (dirlookup_gets contains dir size room))
  rintro r _ ⟨t, result, rfl⟩
  cases found : lookup entries name with
  | none =>
    rw [found] at result
    obtain ⟨rfl, rfl⟩ := result
    exact Wp.pure ⟨rfl, rfl, rfl⟩
  | some place =>
    obtain ⟨i, off⟩ := place
    rw [found] at result
    obtain ⟨ip, rfl, gets⟩ := result
    have here := gets.eq_iff locked.whole locked.holds.1
    rw [locked.holds.2.2] at here
    have apart : dp ≠ ip := fun self => other i off found (here.mp self.symm)
    obtain ⟨k, de, there, named, -, place⟩ := lookupFrom_eq_some found
    obtain ⟨inside, -⟩ := List.getElem?_eq_some_iff.mp there
    have fits := locked.slot inside
    rw [Nat.zero_add] at place
    rw [place]
    dsimp only
    have zeros : List.replicate direntSize 0 = Dirent.unused.toBytes := by decide
    rw [zeros]
    -- The write does not look at the entry of the reference.
    have alike : Sim (Beside ip (t.icache ip))
        (Walk.writeDirent dev dp Dirent.unused.toBytes (direntSize * k))
        (Walk.writeDirent dev dp Dirent.unused.toBytes (direntSize * k)) :=
      Beside.writei apart _ _
    refine Wp.bind (fsOp_spec ((locked.writeDirent (Nat.le_of_lt inside) fits.1
      fun _ => fits.2).sim alike gets.beside)) ?_
    rintro r _ ⟨u', ⟨u, ⟨rfl, wrote⟩, beside⟩, rfl⟩
    rw [if_neg (not_not_intro rfl)]
    have free : w.locked ip = false := by
      rw [← Bool.not_eq_true, locked.locks]
      exact apart.symm
    have entry : u.icache ip = w.icache ip := wrote.rewrites.others ip apart.symm
    refine Wp.bind (gets.iput entry beside free) fun _ w' same => ?_
    exact Wp.pure ⟨same.1, rfl, k, de, there, named, u.toStore, wrote, same.2⟩

end Locked

/-! ## What the changes are -/

/-- An entry has the number it is made for. -/
theorem direntOf_inum (small : inum < 65536) : (Walk.direntOf name inum).inum.toNat = inum := by
  show (UInt16.ofNat inum).toNat = inum
  rw [UInt16.toNat_ofNat', Nat.mod_eq_of_lt small]

/-- It has the name. -/
theorem direntOf_matches {other : List UInt8} (positive : 1 ≤ inum) (small : inum < 65536) :
    (Walk.direntOf name inum).Matches other ↔ namecmp other name = 0 := by
  have number : (Walk.direntOf name inum).inum.toNat = inum := direntOf_inum small
  have used : (Walk.direntOf name inum).inum ≠ 0 := by
    intro zero
    rw [zero] at number
    have zero' : 0 = inum := number
    omega
  rw [Dirent.matches_iff, and_iff_right used]
  show cstr dirSiz other = cstr dirSiz (strncpy name dirSiz) ↔ _
  rw [cstr_strncpy]
  exact (strncmp_eq_zero _ _ _).symm

/-- An entry without a name matches nothing. -/
theorem Dirent.unused_matches : ¬Dirent.unused.Matches name := fun named => named.1 rfl

/-- A new entry for a name that is not there. -/
theorem link_changes (distinct : Distinct entries) (absent : lookup entries name = none)
    (positive : 1 ≤ inum) (small : inum < 65536) :
    DirEvent.Changes entries 0
        (setDirent entries (freeDirent entries) (Walk.direntOf name inum)) (.link name inum) ∧
      Distinct (setDirent entries (freeDirent entries) (Walk.direntOf name inum)) := by
  have last : freeDirent entries ≤ entries.length := List.findIdx_le_length
  have named : (Walk.direntOf name inum).Matches name :=
    (direntOf_matches positive small).mpr ((strncmp_eq_zero _ _ _).mpr rfl)
  have free (old : Dirent) (there : entries[freeDirent entries]? = some old) : old.inum = 0 := by
    obtain ⟨inside, rfl⟩ := List.getElem?_eq_some_iff.mp there
    have first := List.findIdx_getElem (w := inside)
    simp only [decide_eq_true_eq] at first
    exact first
  refine ⟨⟨?returns, ?failed, fun _ => ⟨rfl, ⟨freeDirent entries, ?entry, ?lookup⟩, ?others⟩⟩,
    distinct.setDirent ?apart⟩
  case returns => exact iff_of_false (by decide) (not_not_intro absent)
  case failed => exact fun failed => absurd failed (by decide)
  case entry => exact getElem?_setDirent last
  case lookup =>
    rw [lookup_setDirent_same last absent named, direntOf_inum small]
  case others =>
    intro other differs
    refine lookup_setDirent_other (fun old there matched => matched.1 (free old there)) ?_
    rw [direntOf_matches positive small]
    exact differs
  case apart =>
    intro old member _ used same
    refine lookupFrom_eq_none.mp absent old member ⟨used, ?_⟩
    rw [namecmp_comm]
    exact (direntOf_matches positive small).mp ⟨named.1, same⟩

/-- A name that is there is not linked again. -/
theorem link_present (present : lookup entries name ≠ none) :
    DirEvent.Changes entries (-1) entries (.link name inum) :=
  ⟨iff_of_true rfl present, fun _ => rfl, fun other => absurd rfl other⟩

/-- The only entry with a name is removed. -/
theorem remove_changes (distinct : Distinct entries) (there : entries[i]? = some de)
    (named : de.Matches name) :
    DirEvent.Changes entries 0 (setDirent entries i Dirent.unused) (.remove name) ∧
      Distinct (setDirent entries i Dirent.unused) := by
  obtain ⟨inside, here⟩ := List.getElem?_eq_some_iff.mp there
  have present : lookup entries name ≠ none := fun absent =>
    lookupFrom_eq_none.mp absent de (List.mem_of_getElem? there) named
  refine ⟨⟨iff_of_true rfl present, ?gone, ?others⟩,
    distinct.setDirent fun _ _ used => absurd rfl used⟩
  case gone =>
    rw [lookup, lookupFrom_eq_none]
    intro old member matched
    obtain ⟨k, at_k⟩ := List.mem_iff_getElem?.mp member
    by_cases same : k = i
    · rw [same, getElem?_setDirent (Nat.le_of_lt inside)] at at_k
      rw [← Option.some.inj at_k] at matched
      exact Dirent.unused_matches matched
    · have old_there : entries[k]? = some old := by
        have set : entries.set i Dirent.unused = setDirent entries i Dirent.unused := by
          rw [List.set_eq_take_append_cons_drop, if_pos inside, setDirent]
        rw [← set, List.getElem?_set_ne (Ne.symm same)] at at_k
        exact at_k
      exact same (distinct.unique old_there there matched named)
  case others =>
    intro other differs
    refine lookup_setDirent_other (fun old old_there matched => ?_) Dirent.unused_matches
    rw [there] at old_there
    rw [← Option.some.inj old_there] at matched
    rw [Dirent.matches_iff] at matched named
    exact differs ((strncmp_eq_zero _ _ _).mpr (matched.2.trans named.2.symm))

/-- A name that is not there is not removed. -/
theorem remove_absent (absent : lookup entries name = none) :
    DirEvent.Changes entries (-1) entries (.remove name) :=
  ⟨iff_of_false (by decide) (not_not_intro absent), absent, fun _ _ => rfl⟩

/-! ## Runs -/

section

variable {w w' : Walk}

/-- The entries of a directory. -/
theorem Store.entries_eq {s : Store} (found : s.files d = some file)
    (bytes : file.bytes = dirBytes entries) : s.entries d = entries := by
  rw [Store.entries, found, Option.elim_some, bytes, dirents_dirBytes]

/-- The directory is locked for a change. -/
theorem Walk.Directory.ilock (directory : w.Directory dp d) :
    Wp stops (Walk.ilock dp) (fun _ w₁ => (∃ file, Locked dp d (w.entries d) file w₁) ∧
      w₁.files = w.files ∧ (∀ i, w₁.Room i ↔ w.Room i) ∧
      ∀ n, w₁.Affords d n ↔ w.Affords d n) w := by
  obtain ⟨file, found, dir, aligned⟩ := directory.file
  obtain ⟨numbered, typed, -⟩ := Store.files_eq_some found
  apply Wp.mono (ilock_spec_reads directory.whole directory.used directory.inum
    (directory.unlocked dp) fun _ => typed)
  rintro _ w₁ ⟨reads, -⟩
  have entries : w.entries d = dirents file.bytes := by rw [Store.entries, found, Option.elim_some]
  refine ⟨⟨file, ⟨reads.whole, reads.holds, reads.files ▸ found, dir, ?_⟩, fun jp => ?_⟩,
    reads.files,
    fun i => exists_congr fun jp => ?_, fun n => Store.affords_congr reads.disk reads.sb n⟩
  · rw [entries, dirBytes_dirents aligned]
  · by_cases same : jp = dp
    · rw [same]
      exact iff_of_true reads.locked_self rfl
    · refine iff_of_false ?_ same
      rw [reads.locked, update_of_ne same, directory.unlocked jp]
      exact Bool.false_ne_true
  · by_cases same : jp = dp
    · rw [same, reads.ref, reads.holds.2.2, ← directory.inum]
    · rw [reads.others jp same]

namespace Locked

variable (locked : Locked dp d entries file w)

include locked

/-- `iunlock` leaves the directory. -/
theorem iunlock :
    Wp stops (Walk.iunlock dp)
      (fun _ w' => w'.Directory dp d ∧ w'.entries d = entries ∧ w'.files = w.files) w := by
  apply Wp.mono (iunlock_frees locked.holds.1 ((locked.locks dp).mpr rfl))
  rintro _ _ rfl
  refine ⟨⟨locked.whole, fun jp => ?_, locked.holds.1, locked.holds.2.2, file, locked.found,
    locked.dir, ?_⟩, Store.entries_eq locked.found locked.bytes, rfl⟩
  · by_cases same : jp = dp
    · rw [same]
      exact update_self ..
    · show update w.locked dp false jp = false
      rw [update_of_ne same, ← Bool.not_eq_true, locked.locks]
      exact same
  · rw [locked.bytes, length_dirBytes]
    exact Nat.dvd_mul_right _ _

/-- The lock is held while nothing of the file system changes. -/
theorem same (locks : w'.locked = w.locked) (same : w.Same w'.toStore) :
    Locked dp d entries file w' where
  whole := locked.whole.same same
  holds := by
    unfold Store.Holds
    rw [same.used dp locked.holds.1]
    exact locked.holds
  found := by
    rw [Store.files_congr same.disk same.sb]
    exact locked.found
  dir := locked.dir
  bytes := locked.bytes
  locks := by
    rw [locks]
    exact locked.locks

/-- So it is when the directory is written. -/
theorem wrote {entries' : List Dirent} (locks : w'.locked = w.locked)
    (wrote : Wrote dp d (file.withEntries entries') w.toStore w'.toStore) :
    Locked dp d entries' (file.withEntries entries') w' where
  whole := wrote.whole
  holds := wrote.rewrites.holds.mpr locked.holds
  found := by
    rw [wrote.files]
    exact update_self ..
  dir := locked.dir
  bytes := rfl
  locks := by
    rw [locks]
    exact locked.locks

end Locked

/-- A directory can take an entry when there is a place for it. -/
theorem Locked.takes_iff (locked : Locked dp d (w.entries d) file w')
    (affords : ∀ n, w'.Affords d n ↔ w.Affords d n) :
    w'.Takes d (w.entries d) ↔ w.HasSlot d := by
  unfold Store.Takes Walk.HasSlot
  rcases Nat.lt_or_ge (freeDirent (w.entries d)) (w.entries d).length with inside | outside
  · exact iff_of_true (locked.slot inside) (.inl inside)
  · have full : freeDirent (w.entries d) = (w.entries d).length :=
      Nat.le_antisymm List.findIdx_le_length outside
    rw [full, affords, or_iff_right (Nat.lt_irrefl _)]

/-- An entry for a new name is added and the directory unlocked; one for a name that is there is
not. If the computation returns at all, there was room. -/
theorem DirEvent.link_run (directory : w.Directory dp d)
    (fits : (∀ e, stops e) ∨
      w.Leads d name ∧ (lookup (w.entries d) name = none → w.HasSlot d)) :
    Wp stops ((DirEvent.link name inum).run dev dp) (fun r w' =>
      (w.Leads d name ∧ (lookup (w.entries d) name = none → w.HasSlot d)) ∧ w'.Directory dp d ∧
      (r = -1 ∧ lookup (w.entries d) name ≠ none ∧ w'.files = w.files ∨
        r = 0 ∧ lookup (w.entries d) name = none ∧ (∀ i, i ≠ d → w'.files i = w.files i) ∧
          w'.entries d = setDirent (w.entries d) (freeDirent (w.entries d))
            (Walk.direntOf name inum))) w := by
  have fits' {e : String} (total : ¬stops e) := fits.resolve_left fun all => total (all e)
  unfold DirEvent.run
  apply Wp.bind directory.ilock
  rintro _ w₁ ⟨⟨file, locked⟩, files, room, affords⟩
  apply Wp.bind (locked.dirlink
    (fun i off found total => (room i).mpr ((fits' total).1 i off found).2)
    (fun i off found total => ((fits' total).1 i off found).1)
    fun absent total => (locked.takes_iff affords).mpr
      (total.elim (fun total => (fits' total).2 absent) fun total => (fits' total).2 absent))
  rintro r w₂ ⟨locks, result⟩
  unfold Walk.Leads
  cases found : lookup (w.entries d) name with
  | some place =>
    rw [found] at result
    obtain ⟨leads, rfl, same⟩ := result
    apply Wp.bind (locked.same locks same).iunlock
    rintro _ w₃ ⟨directory', -, files'⟩
    refine Wp.pure ⟨⟨?_, fun absent => ?_⟩, directory', .inl ⟨rfl, Option.some_ne_none _, ?_⟩⟩
    · rintro i off ⟨⟩
      exact ⟨leads.1, (room _).mp leads.2⟩
    · cases absent
    · rw [files', Store.files_congr same.disk same.sb, files]
  | none =>
    rw [found] at result
    obtain ⟨rfl, takes, wrote⟩ := result
    apply Wp.bind (locked.wrote locks wrote).iunlock
    rintro _ w₃ ⟨directory', entries', files'⟩
    refine Wp.pure ⟨⟨fun i off absent => ?_, fun _ => (locked.takes_iff affords).mp takes⟩,
      directory',
      .inr ⟨rfl, rfl, fun i apart => ?_, entries'⟩⟩
    · cases absent
    · rw [files', wrote.files, update_of_ne apart, files]

variable {event : DirEvent}

/-- An event keeps the directory, and does what it should. -/
theorem DirEvent.run_changes (directory : w.Directory dp d) (distinct : Distinct (w.entries d))
    (fits : event.Fits w d) :
    Wp (fun _ => False) (event.run dev dp) (fun r w' => (w'.Directory dp d ∧
      Distinct (w'.entries d)) ∧ event.Changes (w.entries d) r (w'.entries d)) w := by
  cases event with
  | link name inum =>
    obtain ⟨positive, small, leads, slot⟩ := fits
    apply Wp.mono (DirEvent.link_run directory (.inr ⟨leads, slot⟩))
    rintro r w' ⟨-, directory', ⟨rfl, present, files⟩ | ⟨rfl, absent, -, entries⟩⟩
    · have same : w'.entries d = w.entries d := by rw [Store.entries, files, Store.entries]
      rw [same]
      exact ⟨⟨directory', distinct⟩, link_present present⟩
    · have changes := link_changes distinct absent positive small
      rw [entries]
      exact ⟨⟨directory', changes.2⟩, changes.1⟩
  | remove name =>
    unfold DirEvent.run
    apply Wp.bind directory.ilock
    rintro _ w₁ ⟨⟨file, locked⟩, -, room, affords⟩
    -- The end of a removal, when the directory has the entries that it should have.
    have ends {r : Int} {w₂ : Walk} {file' : File} {entries' : List Dirent}
        (locked' : Locked dp d entries' file' w₂)
        (changes : DirEvent.Changes (w.entries d) r entries' (.remove name) ∧ Distinct entries') :
        Wp (fun _ => False) (Walk.iunlock dp >>= fun _ => pure r) (fun r w' => (w'.Directory dp d ∧
          Distinct (w'.entries d)) ∧
          DirEvent.Changes (w.entries d) r (w'.entries d) (.remove name)) w₂ := by
      apply Wp.bind locked'.iunlock
      rintro _ w₃ ⟨directory', here, -⟩
      apply Wp.pure
      rw [here]
      exact ⟨⟨directory', changes.2⟩, changes.1⟩
    apply Wp.bind (locked.removeEntry (fun i off found _ => (room i).mpr (fits i off found).2)
      fun i off found => (fits i off found).1)
    rintro r w₂ ⟨locks, result⟩
    cases found : lookup (w.entries d) name with
    | none =>
      rw [found] at result
      obtain ⟨rfl, rfl⟩ := result
      exact ends locked ⟨remove_absent found, distinct⟩
    | some place =>
      rw [found] at result
      obtain ⟨rfl, k, de, there, named, u, wrote, same⟩ := result
      have written : Locked dp d _ _ ⟨⟨u, []⟩, w₁.locked⟩ := locked.wrote rfl wrote
      exact ends (written.same locks same) (remove_changes distinct there named)

/-- A directory is a map from names to inode numbers, in every state that `dirlink` and removals
lead to as long as each of them finds room and does not come upon the directory itself. No two
entries in use have the same name. `dirlookup` computes the map. `dirlink` fails exactly when the
name is there, and then leaves the directory; otherwise the name leads to the new inode number.
After a removal the name leads nowhere. All other names lead where they did. -/
theorem directory_is_map {past : List DirEvent}
    (run : Within (fun w : Walk => w.Directory dp d ∧ Distinct (w.entries d)) (dirStep dev dp)
      (fun _ w event => event.Fits w d) past w) :
    Distinct (w.entries d) ∧
    (∀ name, (∀ i off, lookup (w.entries d) name = some (i, off) → w.Room i) →
      ∃ r w', (Walk.ilock dp >>= fun _ => fsOp (dirlookup dev.read dp name)) w = .ok (r, w') ∧
        r.map (fun p => ((w'.icache p.1).inum, p.2)) = lookup (w.entries d) name) ∧
    ∀ event : DirEvent, event.Fits w d → ∃ r w', event.run dev dp w = .ok (r, w') ∧
      event.Changes (w.entries d) r (w'.entries d) := by
  have keep (past : List DirEvent) (s t : Walk) (event : DirEvent)
      (before : s.Directory dp d ∧ Distinct (s.entries d)) (fits : event.Fits s d)
      (taken : dirStep dev dp s event = some t) : t.Directory dp d ∧ Distinct (t.entries d) := by
    have wp : Wp (fun _ => False) (event.run dev dp) _ s :=
      DirEvent.run_changes before.1 before.2 fits
    obtain ⟨r, w', ends, after, -⟩ := wp.ends
    rw [dirStep, ends] at taken
    rw [← Option.some.inj taken]
    exact after
  obtain ⟨directory, distinct⟩ :=
    run.invariant (fun _ (w : Walk) => w.Directory dp d ∧ Distinct (w.entries d))
      (fun _ start => start) keep
  refine ⟨distinct, fun name room => ?_, fun event fits => ?_⟩
  · have wp : Wp (fun _ => False)
        (Walk.ilock dp >>= fun _ => fsOp (dirlookup dev.read dp name))
        (fun r w' =>
          r.map (fun p => ((w'.icache p.1).inum, p.2)) = lookup (w.entries d) name) w := by
      apply Wp.bind directory.ilock
      rintro _ w₁ ⟨⟨file, locked⟩, -, roomy, -⟩
      obtain ⟨contains, dir, size⟩ := locked.copy
      apply Wp.mono (fsOp_spec (dirlookup_gets contains dir size
        fun i off found _ => (roomy i).mpr (room i off found)))
      rintro r _ ⟨t, result, rfl⟩
      cases found : lookup (w.entries d) name with
      | none =>
        rw [found] at result
        rw [result.1]
        rfl
      | some place =>
        rw [found] at result
        obtain ⟨ip, rfl, gets⟩ := result
        rw [Option.map_some, gets.inum]
    obtain ⟨r, w', ends, result⟩ := wp.ends
    exact ⟨r, w', ends, result⟩
  · have wp : Wp (fun _ => False) (event.run dev dp) _ w :=
      DirEvent.run_changes directory distinct fits
    obtain ⟨r, w', ends, -, changes⟩ := wp.ends
    exact ⟨r, w', ends, changes⟩

/-- `dirlink` returns exactly in a directory that has the name already, as the name of another inode
for which the inode cache has room, or that can take another entry. It returns -1 in the first case,
and no file changes. It returns 0 in the second case, and only the directory changes, by one entry.
-/
theorem dirlink_returns (dev : Devsw) (directory : w.Directory dp d) (name : List UInt8)
    (inum : Nat) :
    ((∃ r w', (DirEvent.link name inum).run dev dp w = .ok (r, w')) ↔
      w.Leads d name ∧ (lookup (w.entries d) name = none → w.HasSlot d)) ∧
    ∀ r w', (DirEvent.link name inum).run dev dp w = .ok (r, w') → w'.Directory dp d ∧
      (r = -1 ∧ lookup (w.entries d) name ≠ none ∧ w'.files = w.files ∨
        r = 0 ∧ lookup (w.entries d) name = none ∧ (∀ i, i ≠ d → w'.files i = w.files i) ∧
          w'.entries d =
            setDirent (w.entries d) (freeDirent (w.entries d)) (Walk.direntOf name inum)) := by
  have wp : Wp (fun _ => True) ((DirEvent.link name inum).run dev dp) _ w :=
    DirEvent.link_run directory (.inl fun _ => trivial)
  refine ⟨⟨fun ⟨r, w', ends⟩ => (wp.ok ends).1, fun fits => ?_⟩, fun r w' ends => (wp.ok ends).2⟩
  have total : Wp (fun _ => False) ((DirEvent.link name inum).run dev dp) _ w :=
    DirEvent.link_run directory (.inr fits)
  obtain ⟨r, w', ends, -⟩ := total.ends
  exact ⟨r, w', ends⟩

end

/-- A root directory without entries, on a disk with `room` data blocks. -/
def emptyRoot (room : Nat) : Walk := rootWalk 3 3 room 1 []

/-- Without a free block `dirlink` panics instead of returning -1. -/
theorem dirlink_no_blocks : (emptyRoot 0).Directory firstInode rootIno ∧
    lookup ((emptyRoot 0).entries rootIno) [120] = none ∧
    (DirEvent.link [120] 2).run ⟨fun _ => none, fun _ => none⟩ firstInode (emptyRoot 0) =
      .error outOfBlocks :=
  ⟨by decide +kernel, by decide +kernel, Wp.eq_error (by decide +kernel)⟩

/-- The name `x` is put into an empty directory and leads to inode 2. -/
theorem directory_is_map_x : ∃ w, Within (fun w : Walk => w.Directory firstInode rootIno ∧
      Distinct (w.entries rootIno)) (dirStep ⟨fun _ => none, fun _ => none⟩ firstInode)
      (fun _ w event => event.Fits w rootIno) [.link [120] 2] w ∧
    Distinct (w.entries rootIno) ∧ ∃ off, lookup (w.entries rootIno) [120] = some (2, off) := by
  have start : Within
      (fun w : Walk => w.Directory firstInode rootIno ∧ Distinct (w.entries rootIno))
      (dirStep ⟨fun _ => none, fun _ => none⟩ firstInode)
      (fun _ w event => event.Fits w rootIno) [] (emptyRoot 1) :=
    .nil ⟨by decide +kernel, by decide +kernel⟩
  have fits : (DirEvent.link [120] 2).Fits (emptyRoot 1) rootIno :=
    ⟨by decide, by decide, by decide +kernel, fun _ => by decide +kernel⟩
  obtain ⟨r, w, ends, fails, -, links⟩ := (directory_is_map start).2.2 _ fits
  have linked : r ≠ -1 := by
    rw [ne_eq, fails]
    decide +kernel
  have after := start.cons fits (show dirStep _ _ (emptyRoot 1) _ = some w by rw [dirStep, ends])
  obtain ⟨-, ⟨i, -, found⟩, -⟩ := links linked
  exact ⟨w, after, (directory_is_map after).1, _, found⟩

/-- A directory whose entry `.` names the directory. -/
def dotRoot : Walk := rootWalk 3 3 1 1 [Walk.direntOf Walk.dot 1]

/-- `dirlink` of `.` in a directory with that entry does not return: it drops the reference to the
directory that it found, and waits for the lock of the directory, which its caller holds. -/
theorem dirlink_dot_sleeps : dotRoot.Directory firstInode rootIno ∧
    Distinct (dotRoot.entries rootIno) ∧ lookup (dotRoot.entries rootIno) Walk.dot ≠ none ∧
    ∀ dev, (DirEvent.link Walk.dot 2).run dev firstInode dotRoot = .error asleep := by
  have directory : dotRoot.Directory firstInode rootIno := by decide +kernel
  have found : lookup (dotRoot.entries rootIno) Walk.dot = some (rootIno, 0) := by decide +kernel
  refine ⟨directory, by decide +kernel, by decide +kernel, fun dev => ?_⟩
  have wp : Wp (· = asleep) ((DirEvent.link Walk.dot 2).run dev firstInode) (fun _ _ => False)
      dotRoot := by
    unfold DirEvent.run
    apply Wp.bind directory.ilock
    rintro _ w₁ ⟨⟨file, locked⟩, -, room, -⟩
    refine Wp.bind (locked.dirlink (fun i off here _ => ?_) (fun _ _ _ total => absurd rfl total)
      fun absent => ?_) ?_
    · rw [found] at here
      cases here
      exact ⟨firstInode, .inr locked.holds.2.2⟩
    · rw [found] at absent
      cases absent
    · rintro r w₂ ⟨-, result⟩
      rw [found] at result
      exact absurd rfl result.1.1
  exact wp.stopped

/-- The name `x` is put into an empty directory. -/
theorem dirlink_returns_x : ∃ w', (DirEvent.link [120] 2).run ⟨fun _ => none, fun _ => none⟩
    firstInode (emptyRoot 1) = .ok (0, w') := by
  have directory : (emptyRoot 1).Directory firstInode rootIno := by decide +kernel
  obtain ⟨returns, result⟩ := dirlink_returns ⟨fun _ => none, fun _ => none⟩ directory [120] 2
  obtain ⟨r, w', ends⟩ := returns.mpr ⟨by decide +kernel, fun _ => by decide +kernel⟩
  obtain ⟨-, ⟨-, present, -⟩ | ⟨rfl, -⟩⟩ := result r w' ends
  · exact absurd (by decide +kernel) present
  · exact ⟨w', ends⟩

end Xv6
