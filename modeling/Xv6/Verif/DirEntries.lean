import Xv6.Verif.FileState

/-!
# Entries of directories

A directory is a list of entries. `dirlookup` goes through it to the first entry with the name, and
takes a reference to the inode of that entry.
-/

namespace Xv6

open Lib

/-! ## Entries and bytes -/

/-- Bytes of the right number are those of the entry in them. -/
theorem Dirent.toBytes_ofBytes {bytes : List UInt8} (length : bytes.length = direntSize) :
    (ofBytes bytes).toBytes = bytes := by
  have get (k : Nat) (inside : k < bytes.length) : bytes.getD k 0 = bytes[k] :=
    (List.getElem_eq_getD 0).symm
  have size : direntSize = 2 + dirSiz := rfl
  apply List.ext_getElem
  · rw [length_toBytes, length]
  intro k inside inside'
  have low := (bytes.getD 0 0).toNat_lt
  have high := (bytes.getD 1 0).toNat_lt
  have number : (UInt16.ofNat ((bytes.getD 0 0).toNat + 256 * (bytes.getD 1 0).toNat)).toNat =
      (bytes.getD 0 0).toNat + 256 * (bytes.getD 1 0).toNat := by
    rw [UInt16.toNat_ofNat']
    omega
  rw [← get k inside']
  match k with
  | 0 =>
    show UInt8.ofNat ((UInt16.ofNat _).toNat % 256) = _
    apply UInt8.toNat_inj.mp
    rw [number, UInt8.toNat_ofNat']
    omega
  | 1 =>
    show UInt8.ofNat ((UInt16.ofNat _).toNat / 256) = _
    apply UInt8.toNat_inj.mp
    rw [number, UInt8.toNat_ofNat']
    omega
  | k + 2 =>
    have bound : k < (List.ofFn fun j : Fin dirSiz => bytes.getD (2 + j) 0).length := by
      rw [List.length_ofFn]
      omega
    show (List.ofFn fun j : Fin dirSiz => bytes.getD (2 + j) 0)[k] = _
    rw [List.getElem_ofFn, Nat.add_comm]

/-- The first entry of a directory. -/
theorem dirents_append {first rest : List UInt8} (length : first.length = direntSize) :
    dirents (first ++ rest) = Dirent.ofBytes first :: dirents rest := by
  have count : (first ++ rest).length / direntSize = rest.length / direntSize + 1 := by
    rw [List.length_append, length, Nat.add_comm, Nat.add_div_right _ direntSize_pos]
  unfold dirents
  rw [count, List.range_succ_eq_map, List.map_cons, List.map_map, Nat.mul_zero, List.drop_zero,
    ← length, List.take_left]
  congr 1
  apply List.map_congr_left
  intro i _
  have after : first.length * (i + 1) = first.length + first.length * i := by
    rw [Nat.mul_succ, Nat.add_comm]
  show Dirent.ofBytes (((first ++ rest).drop (first.length * (i + 1))).take first.length) = _
  rw [after, ← List.drop_drop, List.drop_left]

/-- The entries are read as they were stored. -/
theorem dirents_dirBytes (entries : List Dirent) : dirents (dirBytes entries) = entries := by
  induction entries with
  | nil => rfl
  | cons de rest ih =>
    have split : dirBytes (de :: rest) = de.toBytes ++ dirBytes rest := List.flatMap_cons
    rw [split, dirents_append de.length_toBytes, ih, Dirent.ofBytes_toBytes]

/-- Bytes that consist of entries are those of the entries. -/
theorem dirBytes_dirents {bytes : List UInt8} (aligned : direntSize ∣ bytes.length) :
    dirBytes (dirents bytes) = bytes := by
  obtain ⟨n, length⟩ := aligned
  induction n generalizing bytes with
  | zero =>
    have empty : bytes = [] := List.eq_nil_of_length_eq_zero length
    rw [empty]
    rfl
  | succ n ih =>
    have first : (bytes.take direntSize).length = direntSize := by
      rw [List.length_take, length, Nat.mul_succ]
      omega
    have rest : (bytes.drop direntSize).length = direntSize * n := by
      rw [List.length_drop, length, Nat.mul_succ]
      omega
    have split : dirBytes
        (Dirent.ofBytes (bytes.take direntSize) :: dirents (bytes.drop direntSize)) =
        bytes := by
      show (Dirent.ofBytes (bytes.take direntSize)).toBytes ++ dirBytes _ = bytes
      rw [Dirent.toBytes_ofBytes first, ih rest, List.take_append_drop]
    rw [← dirents_append first, List.take_append_drop] at split
    exact split

/-- There is one for every sixteen bytes. -/
theorem length_dirents (bytes : List UInt8) :
    (dirents bytes).length = bytes.length / direntSize := by
  rw [dirents, List.length_map, List.length_range]

/-! ## `dirlookup` -/

variable {s : Fs} {stops : String → Prop} {ip : Fin nInode} {inum : Nat} {entries : List Dirent}
  {name : List UInt8} {devsw : Nat → Option (Nat → Option (List UInt8))}

/-- The loop of `dirlookup` goes through the rest of the entries. -/
theorem dirlookupFrom_lookup {post : Option (Fin nInode × Nat) → Fs → Prop}
    (contains : (s.icache ip).copy.Contains s.disk (dirBytes entries))
    (dir : (s.icache ip).copy.type = tDir)
    (size : (s.icache ip).copy.size.toNat = direntSize * entries.length) {i : Nat}
    (inside : i ≤ entries.length)
    (found : ∀ inum off, lookupFrom name (direntSize * i) (entries.drop i) = some (inum, off) →
      Wp stops (iget inum) (fun jp t => post (some (jp, off)) t) s)
    (absent : lookupFrom name (direntSize * i) (entries.drop i) = none → post none s) :
    Wp stops (dirlookupFrom devsw ip name (s.icache ip).copy.size.toNat
      (direntSize * i)) post s := by
  induction gap : entries.length - i generalizing i with
  | zero =>
    have last : i = entries.length := by omega
    unfold dirlookupFrom
    rw [size, last, if_neg (Nat.lt_irrefl _)]
    apply Wp.pure
    apply absent
    rw [last, List.drop_length]
    rfl
  | succ n ih =>
    have more : i < entries.length := by omega
    have after : direntSize * i + direntSize = direntSize * (i + 1) := (Nat.mul_succ _ _).symm
    rw [List.drop_eq_getElem_cons more, lookupFrom, after] at found absent
    apply dirlookupFrom_round contains dir (Nat.le_of_eq size.symm) more
    · intro here
      rw [if_pos here] at found
      exact found _ _ rfl
    · intro other
      rw [if_neg other] at found absent
      exact ih more found absent (by omega)

/-- A lookup returns the number of an entry. -/
theorem lookupFrom_mem {off i place : Nat} (found : lookupFrom name off entries = some (i, place)) :
    ∃ de ∈ entries, de.Matches name ∧ i = de.inum.toNat := by
  induction entries generalizing off with
  | nil => cases found
  | cons de rest ih =>
    rw [lookupFrom] at found
    split at found
    · rename_i here
      cases found
      exact ⟨de, List.mem_cons_self, here, rfl⟩
    · obtain ⟨de', member, named⟩ := ih found
      exact ⟨de', List.mem_cons_of_mem _ member, named⟩

namespace At

variable {s : Store} {held : List (Fin nInode × Nat)} {locks : Fin nInode → Bool} {w : Walk}
  {file : File} {dp : Fin nInode} {d : Nat}

variable (state : At s held locks w) (member : (dp, d) ∈ held) (locked : locks dp = true)
  (found : s.files d = some file)

include state member locked found

/-- The file of an inode that is held and locked. -/
theorem contains :
    (w.icache dp).copy.Contains w.disk file.bytes ∧ (w.icache dp).copy.type = file.type ∧
      (w.icache dp).copy.size.toNat = file.bytes.length := by
  obtain ⟨numbered, typed, rfl⟩ := Store.files_eq_some found
  have full := state.whole.full d (state.borrows.sb ▸ numbered) (by rw [state.dinode]; exact typed)
  rw [state.dinode] at full
  rw [state.copy member locked]
  refine ⟨?_, rfl, ?_⟩
  · have contains := full.contains
    rw [state.borrows.disk] at contains ⊢
    exact contains
  · exact (Dinode.length_bytes _ _).symm

/-- `dirlookup` takes a reference to the inode of the first entry with the name. -/
theorem dirlookup (dir : file.type = tDir) (aligned : direntSize ∣ file.bytes.length)
    (numbered : ∀ de ∈ dirents file.bytes, de.inum ≠ 0 → de.inum.toNat < s.sb.ninodes)
    (room : ∀ i off, lookup (dirents file.bytes) name = some (i, off) → ¬stops noInodes →
      w.Room i) :
    Wp stops (fsOp (Xv6.dirlookup devsw dp name))
      (fun r w' => match lookup (dirents file.bytes) name with
        | none => r = none ∧ w' = w
        | some (i, off) => ∃ ip, r = some (ip, off) ∧ At s ((ip, i) :: held) locks w' ∧
            w.Room i) w := by
  obtain ⟨contains, type, size⟩ := state.contains member locked found
  have entries := dirBytes_dirents aligned
  rw [← entries] at contains
  have length : (w.icache dp).copy.size.toNat = direntSize * (dirents file.bytes).length := by
    rw [size, length_dirents, Nat.mul_div_cancel' aligned]
  have reads : Wp stops (Xv6.dirlookup devsw dp name)
      (fun r fs => match lookup (dirents file.bytes) name with
        | none => r = none ∧ fs = w.toFs
        | some (i, off) => ∃ ip, r = some (ip, off) ∧
            At s ((ip, i) :: held) locks { w with toFs := fs } ∧ w.Room i) w.toFs := by
    unfold Xv6.dirlookup
    apply Wp.get
    dsimp only
    rw [if_neg (not_not_intro (type.trans dir))]
    apply dirlookupFrom_lookup contains (type.trans dir) length (Nat.zero_le _)
    · intro i off here
      rw [Nat.mul_zero, List.drop_zero] at here
      have room' := room i off here
      rw [lookup, here]
      obtain ⟨de, among, named, rfl⟩ := lookupFrom_mem here
      apply Wp.mono (state.iget (numbered de among named.1) room')
      exact fun ip fs more => ⟨ip, rfl, more⟩
    · intro none
      rw [Nat.mul_zero, List.drop_zero] at none
      rw [lookup, none]
      exact ⟨rfl, rfl⟩
  apply Wp.mono (fsOp_spec reads)
  rintro r _ ⟨fs, post, rfl⟩
  cases result : lookup (dirents file.bytes) name with
  | none =>
    rw [result] at post
    obtain ⟨rfl, rfl⟩ := post
    exact ⟨rfl, rfl⟩
  | some place =>
    rw [result] at post
    exact post

end At

end Xv6
