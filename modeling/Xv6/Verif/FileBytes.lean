import Xv6.Verif.BlockAccount
import Xv6.Verif.DirRead

/-!
# `readi` and `writei` on an array of bytes

The bytes of a file up to its size are an array. `readi` returns a range of it, and `writei`
replaces a range and makes the array longer if need be.
-/

namespace Xv6

open Lib

variable {s t u : Fs} {v v' v'' : Volume} {stops : String → Prop} {ip : Fin nInode}
  {inum off len : Nat} {src : Nat → UInt8} {devsw : Nat → Option (Nat → Option Nat)}

/-! ## The file system and its volume -/

/-- The volume that a disk with its inode cache holds. -/
def Store.volume (s : Store) : Volume := ⟨s.mark, s.inode, s.disk⟩

/-- A file system that is in order holds its volume. -/
theorem Store.Laid.shows {s : Store} (laid : s.Laid) : Shows s s.volume :=
  ⟨laid.wellFormed, laid.sb, fun _ _ => rfl, fun _ _ _ => rfl, fun _ _ => rfl, laid.unique,
    laid.numbered, laid.typed⟩

/-- The marks of the volume cover its files. -/
theorem Store.Laid.covered {s : Store} (laid : s.Laid) : s.volume.Covered s.sb := laid.cover

namespace Shows

variable {s : Store} {v : Volume} {inum : Nat}

variable (shows : Shows s v) (covered : v.Covered s.sb)

include shows covered

/-- The blocks of a file in the store are those in the volume. -/
theorem blockAt_eq (numbered : inum < s.sb.ninodes) (typed : (v.node inum).type ≠ 0)
    (place : Place) : (s.inode inum).blockAt s.disk place = (v.node inum).blockAt v.data place := by
  rw [shows.node inum numbered]
  apply Dinode.blockAt_congr
  intro present
  obtain ⟨start, inside⟩ := covered.data (Volume.refers_indirect numbered typed present)
  exact shows.data _ start inside

/-- What a disk refers to is what its volume does. -/
theorem refers_covered (r : Nat × Place) (b : Nat) : s.Refers r b ↔ v.Refers s.sb r b := by
  unfold Store.Refers Volume.Refers
  refine and_congr_right fun numbered => ?_
  rw [shows.node r.1 numbered]
  refine and_congr_right fun typed => and_congr_right fun _ => ?_
  have block := shows.blockAt_eq covered numbered typed r.2
  rw [shows.node r.1 numbered] at block
  rw [block]

/-- A file system that holds such a volume is in order. -/
theorem laid : s.Laid := by
  refine ⟨shows.wellFormed, shows.sb, shows.unique, shows.numbered, shows.typed, ?_⟩
  have marks (b : Nat) : s.Marked b ↔ v.Marked s.sb b := by
    unfold Store.Marked Volume.Marked
    exact and_congr_right fun inside => by rw [shows.mark b inside]
  exact covered.sub marks fun r b => (shows.refers_covered covered r b).mp

/-- A file has its blocks when the volume does. -/
theorem full_iff (numbered : inum < s.sb.ninodes) (typed : (v.node inum).type ≠ 0) :
    (s.inode inum).Full s.disk ↔ v.MappedTo s.sb inum (v.node inum).size.toNat := by
  have blocks := shows.blockAt_eq covered numbered typed
  rw [shows.node inum numbered] at blocks ⊢
  unfold Dinode.Full Volume.MappedTo
  simp only [blocks]
  refine forall_congr' fun k => imp_congr_right fun _ => exists_congr fun place =>
    and_congr_right fun _ => ?_
  constructor
  · exact fun nonzero => ⟨_, numbered, typed, nonzero, rfl⟩
  · rintro ⟨b, -, -, nonzero, same⟩
    have same' : (v.node inum).blockAt v.data place = b := same
    rw [same']
    exact nonzero

/-- The bytes of a file that the volume has at a place. -/
theorem contains_iff (numbered : inum < s.sb.ninodes)
    (typed : (v.node inum).type ≠ 0) (bytes : List UInt8) :
    (s.inode inum).Contains s.disk bytes ↔ ∀ k (inside : k < bytes.length),
      ∃ place ∈ filePlace (k / bSize), ∃ b, v.Refers s.sb (inum, place) b ∧
        v.byte inum k = bytes[k] := by
  refine forall_congr' fun k => forall_congr' fun inside => exists_congr fun place =>
    and_congr_right fun isPlace => ?_
  rw [shows.blockAt_eq covered numbered typed place]
  have here {b : Nat} (refers : v.Refers s.sb (inum, place) b) :
      v.byte inum k = (s.disk b).byte (k % bSize) := by
    obtain ⟨start, bound⟩ := covered.data refers
    rw [refers.byte isPlace, shows.data b start bound]
  constructor
  · rintro ⟨nonzero, same⟩
    have refers : v.Refers s.sb (inum, place) _ := ⟨numbered, typed, nonzero, rfl⟩
    exact ⟨_, refers, (here refers).trans same⟩
  · rintro ⟨b, refers, same⟩
    have block : (v.node inum).blockAt v.data place = b := refers.2.2.2
    rw [block, ← here refers]
    exact ⟨refers.2.2.1, same⟩

/-- The bytes of a file that has its blocks. -/
theorem bytes_eq (numbered : inum < s.sb.ninodes)
    (typed : (v.node inum).type ≠ 0) (full : v.MappedTo s.sb inum (v.node inum).size.toNat) :
    (s.inode inum).bytes s.disk = (List.range (v.node inum).size.toNat).map (v.byte inum) := by
  have contains := ((shows.full_iff covered numbered typed).mpr full).contains
  rw [shows.contains_iff covered numbered typed] at contains
  have length : ((s.inode inum).bytes s.disk).length = (v.node inum).size.toNat := by
    rw [Dinode.length_bytes, shows.node inum numbered]
  apply List.ext_getElem
  · rw [length, List.length_map, List.length_range]
  · intro k inside _
    obtain ⟨_, -, _, -, byte⟩ := contains k inside
    rw [List.getElem_map, List.getElem_range, byte]

end Shows

/-! ## The array -/

/-- An array is overwritten when the bytes of the range are new and the others are old. -/
theorem overwrite_eq {old new src : Nat → UInt8} {size off n : Nat} (start : off ≤ size)
    (inside : ∀ k, k < n → new (off + k) = src k)
    (outside : ∀ k, k < size → k < off ∨ off + n ≤ k → new k = old k) :
    (List.range (max size (off + n))).map new =
      overwrite ((List.range size).map old) off ((List.range n).map src) := by
  unfold overwrite
  apply List.ext_getElem
  · simp only [List.length_map, List.length_range, List.length_append, List.length_take,
      List.length_drop]
    omega
  · intro k bound _
    simp only [List.length_map, List.length_range] at bound
    rw [List.getElem_map, List.getElem_range]
    by_cases early : k < off
    · rw [List.getElem_append_left (by simp; omega), List.getElem_append_left (by simp; omega),
        List.getElem_take, List.getElem_map, List.getElem_range]
      exact outside k (by omega) (.inl early)
    · by_cases middle : k < off + n
      · rw [List.getElem_append_left (by simp; omega), List.getElem_append_right (by simp; omega),
          List.getElem_map, List.getElem_range, ← inside _ (by simp; omega)]
        congr 1
        simp
        omega
      · rw [List.getElem_append_right (by simp; omega), List.getElem_drop, List.getElem_map,
          List.getElem_range, outside k (by omega) (.inr (by omega))]
        congr 1
        simp
        omega

section

variable (filed : Filed ip inum off len src s v t v') (shows : Shows s.toStore v)
  (covered : v.Covered s.sb)

include filed shows covered

/-- The file has its new bytes. -/
theorem Filed.bytes (holds : s.Holds inum ip) (full : v.MappedTo s.sb inum (v.node inum).size.toNat)
    (start : off ≤ (v.node inum).size.toNat) :
    (t.inode inum).bytes t.disk =
      overwrite ((s.inode inum).bytes s.disk) off ((List.range len).map src) := by
  obtain ⟨numbered, typed⟩ := shows.held holds
  have sb := filed.rewrites.sb
  have typed' : (v'.node inum).type ≠ 0 := by
    rw [← filed.node] at typed
    exact typed
  rw [filed.shows.bytes_eq (sb ▸ filed.covered) (sb ▸ numbered) typed' (sb ▸ filed.mapped),
    shows.bytes_eq covered numbered typed full, filed.size]
  apply overwrite_eq start filed.inside
  intro k small apart
  obtain ⟨place, isPlace, b, refers⟩ := full.block small
  exact filed.outside inum k place b isPlace refers fun _ => apart

/-- The other files stay. -/
theorem Filed.contains {i : Nat} (numbered : i < s.sb.ninodes) (typed : (s.inode i).type ≠ 0)
    (apart : i ≠ inum) :
    t.inode i = s.inode i ∧
      ∀ bytes, (s.inode i).Contains s.disk bytes → (t.inode i).Contains t.disk bytes := by
  have sb := filed.rewrites.sb
  have node := filed.others i apart
  have numbered' : i < t.sb.ninodes := sb ▸ numbered
  have same : t.inode i = s.inode i := by
    rw [filed.shows.node i numbered', node, shows.node i numbered]
  rw [shows.node i numbered] at typed
  refine ⟨same, fun bytes contains => ?_⟩
  rw [shows.contains_iff covered numbered typed] at contains
  rw [filed.shows.contains_iff (sb ▸ filed.covered) numbered' (node ▸ typed)]
  intro k inside
  obtain ⟨place, isPlace, b, refers, byte⟩ := contains k inside
  refine ⟨place, isPlace, b, sb ▸ filed.keeps _ _ refers, ?_⟩
  rw [filed.outside i k place b isPlace refers fun here => absurd here apart]
  exact byte

end

/-- `readi` refuses to read there. -/
def ReadBad (size off n : UInt32) : Prop :=
  size.toNat < off.toNat ∨ 2 ^ 32 ≤ off.toNat + n.toNat

instance (size off n : UInt32) : Decidable (ReadBad size off n) :=
  inferInstanceAs (Decidable (_ ∨ _))

/-- `readi` returns the bytes from the offset on, up to the end of the file. -/
theorem readi_array {devsw : Nat → Option (Nat → Option (List UInt8))} {off n : UInt32}
    (plain : (s.icache ip).copy.type ≠ tDev) (full : (s.icache ip).copy.Full s.disk) :
    readi devsw ip off n s =
      .ok (if ReadBad (s.icache ip).copy.size off n then none
        else some ((((s.icache ip).copy.bytes s.disk).drop off.toNat).take n.toNat), s) := by
  have small := off.toNat_lt
  have small' := n.toNat_lt
  have small'' := (s.icache ip).copy.size.toNat_lt
  have length : ((s.icache ip).copy.bytes s.disk).length = (s.icache ip).copy.size.toNat :=
    Dinode.length_bytes _ _
  have refuses : ReadBad (s.icache ip).copy.size off n ↔
      off > (s.icache ip).copy.size ∨ off + n < off := by
    simp only [ReadBad, gt_iff_lt, UInt32.lt_iff_toNat_lt, UInt32.toNat_add]
    omega
  have wp : Wp (fun _ => False) (readi devsw ip off n)
      (fun r t => r = (if ReadBad (s.icache ip).copy.size off n then none
        else some ((((s.icache ip).copy.bytes s.disk).drop off.toNat).take n.toNat)) ∧
          t = s) s := by
    unfold readi
    apply Wp.get
    dsimp only
    rw [if_neg plain]
    apply Wp.ite
    · intro bad
      rw [if_pos (refuses.mpr bad)]
      exact Wp.pure ⟨rfl, rfl⟩
    · intro good
      rw [if_neg fun bad => good (refuses.mp bad)]
      simp only [gt_iff_lt, UInt32.lt_iff_toNat_lt, UInt32.toNat_add, not_or, Nat.not_lt] at good
      -- What is left of the file bounds what is read.
      have amount : (if off + n > (s.icache ip).copy.size then (s.icache ip).copy.size - off
          else n).toNat = min n.toNat ((s.icache ip).copy.size.toNat - off.toNat) := by
        split
        · rename_i longer
          rw [gt_iff_lt, UInt32.lt_iff_toNat_lt, UInt32.toNat_add] at longer
          rw [UInt32.toNat_sub_of_le _ _ (UInt32.le_iff_toNat_le.mpr good.1)]
          omega
        · rename_i within
          rw [gt_iff_lt, UInt32.lt_iff_toNat_lt, UInt32.toNat_add] at within
          omega
      rw [amount]
      apply Wp.bind (readiFrom_spec full.contains _ off.toNat 0 (by rw [length]; omega))
      rintro _ _ ⟨rfl, rfl⟩
      refine Wp.pure ⟨?_, rfl⟩
      rw [Nat.sub_zero, ← length, ← List.length_drop, ← List.take_eq_take_min]
  obtain ⟨r, t, ends, rfl, rfl⟩ := wp.ends
  exact ends

/-- The blocks that a file lacks for a length. -/
theorem Shows.budget {s : Store} (shows : Shows s v) (covered : v.Covered s.sb)
    (holds : s.Holds inum ip) (n : Nat) :
    v.Budget s.sb inum n ↔ (s.icache ip).copy.missing s.disk n ≤ s.freeBlocks := by
  obtain ⟨numbered, typed⟩ := shows.held holds
  have blocks := shows.blockAt_eq covered numbered typed
  rw [Store.inode_of_holds shows.unique holds] at blocks
  have free : v.free s.sb = s.freeBlocks := by
    unfold Volume.free Store.freeBlocks
    congr 1
    apply Finset.filter_congr
    intro b inside
    rw [shows.mark b (Finset.mem_range.mp inside)]
  unfold Volume.Budget
  rw [free]
  unfold Dinode.missing
  simp only [blocks]

/-- The blocks of a file hold it. -/
theorem le_dataBlocks (n : Nat) : n ≤ dataBlocks n * bSize := by
  simp only [dataBlocks, bSize]
  omega

/-- Whether the entry that holds an inode agrees with the disk. -/
theorem Store.clean_iff {s : Store} (holds : s.Holds inum ip) :
    s.Clean ip ↔ s.dinode inum = (s.icache ip).copy := by
  refine ⟨fun clean => clean inum holds, fun same i other => ?_⟩
  rw [← other.2.2, holds.2.2]
  exact same

/-- `readi` and `writei` work on the array of bytes of a file. `writei` refuses exactly the ranges
that start behind the end, wrap or are too long for a file, and then changes nothing; otherwise the
range is overwritten, the size is that of the longer array, and the other files stay. The inode is
the one on disk afterwards exactly if it was before or the file has got longer. `readi` refuses the
ranges that start behind the end or wrap, and otherwise returns the bytes of the range up to the
end. -/
theorem readi_writei_array (laid : s.Laid) (holds : s.Holds inum ip)
    (plain : (s.icache ip).copy.type ≠ tDev) (full : (s.icache ip).copy.Full s.disk)
    (off n : UInt32) (src : Nat → UInt8) (devsw : Nat → Option (Nat → Option Nat))
    (devsw' : Nat → Option (Nat → Option (List UInt8))) :
    (WriteBad (s.icache ip).copy.size off n → writei devsw ip src off n s = .ok (none, s)) ∧
    (¬WriteBad (s.icache ip).copy.size off n →
      (s.icache ip).copy.missing s.disk (dataBlocks (off.toNat + n.toNat)) ≤ s.freeBlocks →
      ∃ t : Fs, writei devsw ip src off n s = .ok (some n.toNat, t) ∧
        t.Laid ∧ t.Holds inum ip ∧ (t.icache ip).copy.Full t.disk ∧
        (t.icache ip).copy.bytes t.disk = overwrite ((s.icache ip).copy.bytes s.disk) off.toNat
          ((List.range n.toNat).map src) ∧
        (t.icache ip).copy.size.toNat =
          max (s.icache ip).copy.size.toNat (off.toNat + n.toNat) ∧
        (t.dinode inum = (t.icache ip).copy ↔ s.dinode inum = (s.icache ip).copy ∨
          (s.icache ip).copy.size.toNat < off.toNat + n.toNat) ∧
        ∀ i, i < s.sb.ninodes → i ≠ inum → (s.inode i).type ≠ 0 →
          t.inode i = s.inode i ∧
            ∀ bytes, (s.inode i).Contains s.disk bytes → (t.inode i).Contains t.disk bytes) ∧
    readi devsw' ip off n s =
      .ok (if ReadBad (s.icache ip).copy.size off n then none
        else some ((((s.icache ip).copy.bytes s.disk).drop off.toNat).take n.toNat), s) := by
  refine ⟨writei_bad plain, fun good enough => ?_, readi_array plain full⟩
  have shows := laid.shows
  have covered := laid.covered
  have copy := shows.copy_eq holds
  obtain ⟨numbered, typed⟩ := shows.held holds
  have mapped : s.volume.MappedTo s.sb inum (s.volume.node inum).size.toNat := by
    rw [← shows.full_iff covered numbered typed, Store.inode_of_holds shows.unique holds]
    exact full
  have budget := (shows.budget covered holds _).mpr enough
  have wp : Wp (fun _ => False) (writei devsw ip src off n) _ s :=
    writei_files shows covered holds (copy ▸ plain) mapped (copy ▸ good)
      (fun _ => ⟨_, le_dataBlocks _, budget⟩)
  obtain ⟨r, t, ends, rfl, v', filed⟩ := wp.ends
  have start : off.toNat ≤ (s.volume.node inum).size.toNat := by
    rw [← copy]
    exact Nat.le_of_not_lt fun past => good (.inl past)
  have sb := filed.rewrites.sb
  have holds' : t.Holds inum ip := by
    unfold Store.Holds
    rw [filed.rewrites.ref, filed.rewrites.valid, filed.rewrites.inum]
    exact holds
  have typed' := (filed.shows.held holds').2
  have here := Store.inode_of_holds filed.shows.unique holds'
  have here₀ := Store.inode_of_holds shows.unique holds
  refine ⟨t, ends, filed.shows.laid (sb ▸ filed.covered), holds', ?full, ?bytes, ?size, ?clean,
    fun i inside apart allocated => filed.contains shows covered inside allocated apart⟩
  case full =>
    rw [← here, filed.shows.full_iff (sb ▸ filed.covered) (sb ▸ numbered) typed']
    exact sb ▸ filed.mapped
  case bytes =>
    rw [← here, ← here₀]
    exact filed.bytes shows covered holds mapped start
  case size =>
    rw [filed.shows.copy_eq holds', copy]
    exact filed.size
  case clean => rw [← Store.clean_iff holds', filed.clean, Store.clean_iff holds, copy]

/-- The small image with its file read into the inode cache. -/
def smallOpen : Fs :=
  smallFs 8 4 0 1 (fun i => if i = 1 then .ofBlocks tFile 0 0 else .zero) fun _ => Bytes.zero

/-- Three bytes are written to the empty file. -/
theorem readi_writei_array_small : ∃ t : Fs,
    writei (fun _ => none) firstInode (fun _ => 7) 0 3 smallOpen = .ok (some 3, t) ∧
      (t.icache firstInode).copy.bytes t.disk = [7, 7, 7] := by
  have laid : smallOpen.Laid := by decide +kernel
  have holds : smallOpen.Holds 1 firstInode := by decide
  have array := readi_writei_array laid holds (by decide) (by decide +kernel) 0 3 (fun _ => 7)
    (fun _ => none) (fun _ => none)
  obtain ⟨t, ends, -, -, -, bytes, -⟩ := array.2.1 (by decide) (by decide +kernel)
  exact ⟨t, ends, bytes.trans (by decide +kernel)⟩

/-- A file of one byte, whose number of links has been changed in the inode cache alone. -/
def relinked : Fs :=
  { smallFs 8 1 1 1 (fun i => if i = 1 then .ofBlocks tFile 1 5 else .zero)
    (fun _ => Bytes.zero) with
    icache := fun ip =>
      if ip = firstInode then ⟨1, 1, true, { Dinode.ofBlocks tFile 1 5 with nlink := 2 }⟩
      else ⟨0, 0, false, Dinode.zero⟩ }

/-- A write inside the file does not store the inode. -/
theorem writei_inside_stores_nothing : relinked.Laid ∧ relinked.Holds 1 firstInode ∧
    (relinked.icache firstInode).copy.type ≠ tDev ∧
    (relinked.icache firstInode).copy.Full relinked.disk ∧ ∃ t : Fs,
      writei (fun _ => none) firstInode (fun _ => 7) 0 1 relinked = .ok (some 1, t) ∧
        t.dinode 1 ≠ (t.icache firstInode).copy := by
  have runs : (writei (fun _ => none) firstInode (fun _ => 7) 0 1 relinked).toOption.any
      (fun (r, t) => r = some 1 ∧ t.dinode 1 ≠ (t.icache firstInode).copy) = true := by
    decide +kernel
  obtain ⟨r, t, ends, holds⟩ := Wp.exists_ok runs
  obtain ⟨rfl, differs⟩ := of_decide_eq_true holds
  exact ⟨by decide +kernel, by decide, by decide, by decide +kernel, t, ends, differs⟩

end Xv6
