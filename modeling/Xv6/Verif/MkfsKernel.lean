import Xv6.Verif.MkfsImage

/-!
# The kernel on an image of `mkfs`

The files of the image are found and read by the kernel. The inodes have the blocks of their files,
except that the size of the root directory is always rounded up to the next block: a directory that
fills its blocks gets a size for which it lacks a block.
-/

namespace Xv6.Mkfs

open Lib Function

variable {s : State} {files : List HostFile}

/-! ## The finished image -/

variable {b i k : Nat} {name : List UInt8}

/-- The end of `main` writes the root inode and the bitmap. -/
theorem finish_disk (other : b ≠ sb.bmapstart) :
    s.finish.disk b = (s.setDinode rootIno (fixedRoot (s.dinode rootIno))).disk b :=
  update_of_ne other _ _

/-- Finishing the image leaves the data blocks. -/
theorem finish_data (data : nmeta ≤ b) : s.finish.disk b = s.disk b := by
  have after : sb.bmapstart < b := Nat.lt_of_lt_of_le (by decide) data
  rw [finish_disk (Nat.ne_of_gt after), s.disk_setDinode (by decide) _ (.inr (Nat.le_of_lt after))]

/-- The super block is there. -/
theorem finish_super (made : Made s (layout files)) : getSuperblock (s.finish.disk 1) = sb := by
  rw [finish_disk (by decide), s.disk_setDinode (by decide) _ (.inl (by decide))]
  exact made.super

/-- The inodes stay, except for the size of the root directory. -/
theorem finish_dinode (numbered : i < table.ninodes) :
    s.finish.dinode i = update s.dinode rootIno (fixedRoot (s.dinode rootIno)) i := by
  have before : sb.iblock i ≠ sb.bmapstart := Nat.ne_of_lt (iblock_lt numbered).2
  rw [State.dinode, finish_disk before, update_apply, ← State.dinode_setDinode]
  rfl

section

variable (made : Made s (layout files))

include made

/-- The files are laid out in the finished image. -/
theorem finish_laid :
    Laid (s.finish.volume s.finish.dinode) (fun i => (layout files i).bytes)
      (fun i => dataBlocks (layout files i).bytes.length) := by
  have typed : (s.dinode rootIno).type ≠ 0 := by
    rw [made.types rootIno (by decide)]
    exact (by decide : tDir ≠ 0)
  have fixed := made.laid.resize (d := fixedRoot (s.dinode rootIno)) typed rfl rfl
  exact fixed.congr_nodes (fun i numbered => finish_dinode numbered) rfl fun _ => finish_data

/-- The inodes have their types. -/
theorem finish_type (numbered : i < table.ninodes) :
    (s.finish.dinode i).type = (layout files i).type := by
  rw [finish_dinode numbered, ← made.types i numbered, update_apply]
  split
  · rename_i here
    rw [here]
    rfl
  · rfl

/-- The size of an inode other than the root directory. -/
theorem finish_size (numbered : i < table.ninodes)
    (other : i ≠ rootIno) : (s.finish.dinode i).size.toNat = (layout files i).bytes.length := by
  rw [finish_dinode numbered, update_of_ne other, made.sizes i numbered]

/-- The size of the root directory is rounded up. -/
theorem finish_root (bound : files.length + 1 ≤ nInodes) :
    (s.finish.dinode rootIno).size.toNat =
      (direntSize * (2 + files.length) / bSize + 1) * bSize := by
  have length : (s.dinode rootIno).size.toNat = direntSize * (2 + files.length) := by
    rw [made.sizes rootIno (by decide)]
    exact length_rootEntries files
  have bound' : files.length + 1 ≤ 200 := bound
  rw [finish_dinode (by decide), update_self, fixedRoot, length]
  apply UInt32.toNat_ofNat_of_lt'
  show (16 * (2 + files.length) / 512 + 1) * 512 < 2 ^ 32
  omega

/-- The inodes as the kernel finds them. -/
theorem mounted_dinode {fs : Fs} (mounted : fs.Mounted s.finish.disk)
    (i : Nat) : fs.dinode i = s.finish.dinode i := by
  have sb_eq : fs.sb = sb := mounted.sb.trans (finish_super made)
  rw [Store.dinode, State.dinode, mounted.disk, sb_eq]

end

/-! ## The root directory -/

/-- The name of a file in the root directory. -/
def HostFile.entryName (file : HostFile) : List UInt8 := (skipUnderscore file.name).take dirSiz

/-- A name without its first byte is a string. -/
theorem skipUnderscore_string (file : HostFile) : 0 ∉ skipUnderscore file.name := by
  unfold skipUnderscore
  split
  · exact fun zero => file.string (List.mem_of_mem_tail zero)
  · exact file.string

/-- An entry of the image matches its name. -/
theorem dirent_matches {inum : Nat} {stored : List UInt8} (string : 0 ∉ name) (string' : 0 ∉ stored)
    (positive : 0 < inum) (small : inum < 2 ^ 16) :
    (dirent inum stored).Matches name ↔ name.take dirSiz = stored.take dirSiz := by
  have used : (dirent inum stored).inum ≠ 0 := by
    intro zero
    have number := congrArg UInt16.toNat zero
    rw [show (dirent inum stored).inum.toNat = inum from UInt16.toNat_ofNat_of_lt' small] at number
    exact absurd number (Nat.ne_of_gt positive)
  unfold Dirent.Matches
  rw [and_iff_right used]
  exact strncmp_strncpy name stored dirSiz string string'

/-- The entry of a file. -/
theorem rootEntries_file (inside : k < files.length) :
    (rootEntries files)[2 + k]? = some (dirent (2 + k) (skipUnderscore files[k].name)) := by
  rw [Nat.add_comm, rootEntries, List.getElem?_cons_succ, List.getElem?_cons_succ,
    List.getElem?_mapIdx, List.getElem?_eq_getElem inside, Nat.add_comm]
  rfl

/-- The first entry that matches the name of a file is the entry of the file. -/
theorem rootEntries_first (bound : files.length + 1 ≤ nInodes)
    (distinct : (files.map HostFile.entryName).Nodup)
    (dots : ∀ file ∈ files, file.entryName ≠ [ascii '.'] ∧ file.entryName ≠ [ascii '.', ascii '.'])
    (inside : k < files.length) (string : 0 ∉ name) (named : name.take dirSiz = files[k].entryName)
    {de : Dirent} (there : (rootEntries files)[i]? = some de) (before : i ≤ 2 + k) :
    de.Matches name ↔ i = 2 + k := by
  have bound' : files.length + 1 ≤ 200 := bound
  have other := dots files[k] (List.getElem_mem inside)
  rcases i with _ | _ | j
  · cases there
    rw [dirent_matches string (by decide) (by decide) (by decide), named]
    exact iff_of_false other.1 (by omega)
  · cases there
    rw [dirent_matches string (by decide) (by decide) (by decide), named]
    exact iff_of_false other.2 (by omega)
  · have inside' : j < files.length := by omega
    rw [Nat.add_comm j 2, rootEntries_file inside'] at there
    cases there
    rw [dirent_matches string (skipUnderscore_string _) (by omega) (by omega), named]
    have same : files[k].entryName = (skipUnderscore files[j].name).take dirSiz ↔ k = j := by
      have inList : k < (files.map HostFile.entryName).length := by
        rw [List.length_map]
        exact inside
      have inList' : j < (files.map HostFile.entryName).length := by
        rw [List.length_map]
        exact inside'
      have index : (files.map HostFile.entryName)[k] = (files.map HostFile.entryName)[j] ↔ k = j :=
        distinct.getElem_inj_iff
      rw [List.getElem_map, List.getElem_map] at index
      exact index
    rw [same]
    omega

/-! ## Finding and reading files -/

variable {devsw : Nat → Option (Nat → Option (List UInt8))} {fs : Fs}

/-- On the finished image, the kernel finds a file by its name. -/
theorem finish_lookup (made : Made s (layout files)) (bound : files.length + 1 ≤ nInodes)
    (distinct : (files.map HostFile.entryName).Nodup)
    (dots : ∀ file ∈ files, file.entryName ≠ [ascii '.'] ∧ file.entryName ≠ [ascii '.', ascii '.'])
    (inside : k < files.length) (string : 0 ∉ name) (named : name.take dirSiz = files[k].entryName)
    {dp : Fin nInode} (mounted : fs.Mounted s.finish.disk) (root : fs.Holds rootIno dp)
    (room : fs.Room (2 + k)) :
    Wp (fun _ => False) (dirlookup devsw dp name)
      (fun r t => ∃ ip off, r = some (ip, off) ∧ t.Mounted s.finish.disk ∧
        0 < (t.icache ip).ref ∧ (t.icache ip).inum = 2 + k) fs := by
  have bound' : files.length + 1 ≤ 200 := bound
  have copy : (fs.icache dp).copy = s.finish.dinode rootIno := by
    rw [mounted.copies _ _ root, mounted_dinode made mounted]
  have contains : (fs.icache dp).copy.Contains fs.disk (dirBytes (rootEntries files)) := by
    rw [copy, mounted.disk]
    exact (finish_laid made).contains rootIno
  have dir : (fs.icache dp).copy.type = tDir := by
    rw [copy, finish_type made (by decide)]
    rfl
  have size : direntSize * (rootEntries files).length ≤ (fs.icache dp).copy.size.toNat := by
    rw [copy, finish_root made bound, ← length_dirBytes, length_rootEntries]
    show 16 * (2 + files.length) ≤ (16 * (2 + files.length) / 512 + 1) * 512
    omega
  obtain ⟨within, entry⟩ := List.getElem?_eq_some_iff.mp (rootEntries_file inside)
  have number : (rootEntries files)[2 + k].inum.toNat = 2 + k := by
    rw [entry]
    exact UInt16.toNat_ofNat_of_lt' (show 2 + k < 2 ^ 16 by omega)
  have first {i : Nat} (before : i ≤ 2 + k) :
      ((rootEntries files)[i]).Matches name ↔ i = 2 + k :=
    rootEntries_first bound distinct dots inside string named
      (List.getElem?_eq_getElem (Nat.lt_of_le_of_lt before within)) before
  refine dirlookup_spec contains dir size within ?_ ((first (Nat.le_refl _)).mpr rfl) ?_
  · intro i before matched
    exact absurd ((first (Nat.le_of_lt before)).mp matched) (Nat.ne_of_lt before)
  · rw [number]
    apply Wp.mono (iget_mounted mounted room)
    exact fun jp t got => ⟨jp, _, rfl, got⟩

/-- On the finished image, the kernel reads the bytes of a file. -/
theorem finish_read (made : Made s (layout files)) (bound : files.length + 1 ≤ nInodes)
    (inside : k < files.length) {ip : Fin nInode} (mounted : fs.Mounted s.finish.disk)
    (holds : fs.Holds (2 + k) ip) :
    Wp (fun _ => False) (readi devsw ip 0 (fs.icache ip).copy.size)
      (fun r t => r = some files[k].bytes ∧ t = fs) fs := by
  have bound' : files.length + 1 ≤ 200 := bound
  have numbered : 2 + k < table.ninodes := by
    show 2 + k < 208
    omega
  have stored : layout files (2 + k) = ⟨tFile, files[k].bytes⟩ := by
    rw [Nat.add_comm, layout, List.getElem?_eq_getElem inside]
    rfl
  have copy : (fs.icache ip).copy = s.finish.dinode (2 + k) := by
    rw [mounted.copies _ _ holds, mounted_dinode made mounted]
  have contains : (fs.icache ip).copy.Contains fs.disk files[k].bytes := by
    have laid := (finish_laid made).contains (2 + k)
    rw [stored] at laid
    rw [copy, mounted.disk]
    exact laid
  have plain : (fs.icache ip).copy.type ≠ tDev := by
    rw [copy, finish_type made numbered, stored]
    exact (by decide : tFile ≠ tDev)
  have size : (fs.icache ip).copy.size.toNat = files[k].bytes.length := by
    rw [copy, finish_size made numbered (by simp only [rootIno]; omega), stored]
  have zero : (0 : UInt32).toNat = 0 := rfl
  apply Wp.mono (readi_spec contains plain (by rw [zero, size, Nat.zero_add])
    (by rw [zero, Nat.zero_add]))
  rintro _ _ ⟨rfl, rfl⟩
  rw [zero, List.drop_zero, size, List.take_length]
  exact ⟨rfl, rfl⟩

/-- A name with a slash stops `mkfs`; else it writes an image. -/
theorem main_outcome (short : ∀ file ∈ files, file.bytes.length ≤ maxFile * bSize)
    (inodes : files.length + 1 ≤ nInodes) (blocks : imageBlocks files ≤ fsSize) :
    ((∃ file ∈ files, ascii '/' ∈ file.name) → main files start = .error slashMessage) ∧
    ((∀ file ∈ files, ascii '/' ∉ file.name) → ∃ s, main files start = .ok ((), s.finish) ∧
      s.freeblock = imageBlocks files ∧ Made s (layout files)) := by
  have spec : Wp (fun message => message = slashMessage ∧ ∃ file ∈ files, ascii '/' ∈ file.name)
      (main files) _ start :=
    main_spec files inodes (fun file member => .inr (short file member)) (.inr blocks)
      fun file member slash => ⟨rfl, file, member, slash⟩
  cases ended : main files start with
  | ok result =>
    obtain ⟨⟨⟩, t⟩ := result
    obtain ⟨plain, s, -, used, -, made, rfl⟩ := spec.ok ended
    refine ⟨?_, fun _ => ⟨s, rfl, used, made⟩⟩
    rintro ⟨file, member, slash⟩
    exact absurd slash (plain file member)
  | error message =>
    obtain ⟨rfl, file, member, slash⟩ := spec.error ended
    exact ⟨fun _ => rfl, fun plain => absurd slash (plain file member)⟩

/-- `mkfs` and the kernel agree on the format of the disk. A name with a slash stops `mkfs`; else it
writes an image on which the kernel finds every file by its name and reads its bytes. -/
theorem mkfs_kernel_agree (files : List HostFile)
    (short : ∀ file ∈ files, file.bytes.length ≤ maxFile * bSize)
    (distinct : (files.map HostFile.entryName).Nodup)
    (dots : ∀ file ∈ files, file.entryName ≠ [ascii '.'] ∧ file.entryName ≠ [ascii '.', ascii '.'])
    (inodes : files.length + 1 ≤ nInodes) (blocks : imageBlocks files ≤ fsSize) :
    ((∃ file ∈ files, ascii '/' ∈ file.name) → main files start = .error slashMessage) ∧
    ((∀ file ∈ files, ascii '/' ∉ file.name) → ∃ t, main files start = .ok ((), t) ∧
      ∀ k (inside : k < files.length) devsw (fs : Fs) dp name, fs.Mounted t.disk →
        fs.Holds rootIno dp → fs.Room (2 + k) → 0 ∉ name →
        name.take dirSiz = files[k].entryName →
        ∃ ip off fs', dirlookup devsw dp name fs = .ok (some (ip, off), fs') ∧
          (fs'.icache ip).inum = 2 + k ∧
          ∃ fs'', ilock ip fs' = .ok ((), fs'') ∧
            readi devsw ip 0 (fs''.icache ip).copy.size fs'' =
              .ok (some files[k].bytes, fs'')) := by
  obtain ⟨slash, image⟩ := main_outcome short inodes blocks
  refine ⟨slash, fun plain => ?_⟩
  obtain ⟨s, ended, -, made⟩ := image plain
  refine ⟨s.finish, ended, ?_⟩
  intro k inside devsw fs dp name mounted root room string named
  obtain ⟨_, fs', looked, ip, off, rfl, mounted', used, number⟩ :=
    (finish_lookup made inodes distinct dots inside string named mounted root room).ends
  have bound' : files.length + 1 ≤ 200 := inodes
  have numbered : 2 + k < table.ninodes := by
    show 2 + k < 208
    omega
  have typed : (fs'.dinode (2 + k)).type ≠ 0 := by
    rw [mounted_dinode made mounted', finish_type made numbered, Nat.add_comm, layout,
      List.getElem?_eq_getElem inside]
    exact (by decide : tFile ≠ 0)
  obtain ⟨⟨⟩, fs'', locked, mounted'', holds⟩ := (ilock_mounted mounted' used number typed).ends
  obtain ⟨_, _, ended', rfl, rfl⟩ := (finish_read made inodes inside mounted'' holds).ends
  exact ⟨ip, off, fs', looked, number, _, locked, ended'⟩

/-- A file `_a` whose three bytes are read in two pieces. -/
def sampleFile : HostFile where
  name := [ascii '_', ascii 'a']
  reads := [[1, 2], [3]]
  string := by decide
  pieces := by decide

/-- A kernel that has read the root inode of a disk and nothing else. -/
def rootedFs (image : Disk) : Fs where
  disk := image
  sb := getSuperblock (image 1)
  icache := fun ip =>
    ⟨rootIno, if ip.val = 0 then 1 else 0, true,
      getDinode (image ((getSuperblock (image 1)).iblock rootIno)) (rootIno % ipb * dinodeSize)⟩
  ballocs := []

/-- It is mounted. -/
theorem rootedFs_mounted (image : Disk) : (rootedFs image).Mounted image where
  disk := rfl
  sb := rfl
  copies := by
    rintro _ ip ⟨-, -, rfl⟩
    rfl

/-- The kernel reads back a file of three bytes. -/
theorem mkfs_kernel_agree_sample : ∃ t ip off fs' fs'',
    main [sampleFile] start = .ok ((), t) ∧
    dirlookup (fun _ => none) ⟨0, by decide⟩ [ascii 'a'] (rootedFs t.disk) =
      .ok (some (ip, off), fs') ∧
    ilock ip fs' = .ok ((), fs'') ∧
    readi (fun _ => none) ip 0 (fs''.icache ip).copy.size fs'' = .ok (some [1, 2, 3], fs'') := by
  obtain ⟨-, image⟩ := mkfs_kernel_agree [sampleFile] (by decide) (by decide)
    (by decide) (by decide)
    (by decide)
  obtain ⟨t, ended, reads⟩ := image (by decide)
  obtain ⟨ip, off, fs', looked, -, fs'', locked, read⟩ := reads 0 (by decide) (fun _ => none)
    (rootedFs t.disk) ⟨0, by decide⟩ [ascii 'a'] (rootedFs_mounted t.disk) ⟨Nat.one_pos, rfl, rfl⟩
    ⟨⟨1, by decide⟩, .inl rfl⟩ (by decide) (by decide)
  exact ⟨t, ip, off, fs', fs'', ended, looked, locked, read⟩

/-! ## The blocks of the inodes -/

/-- The bits of the bitmap. -/
theorem bit_bitmap {n : Nat} (fits : n ≤ bSize * 8) (b : Nat) :
    (bitmap n).bit b = decide (b < n) := by
  induction n with
  | zero => exact Bytes.bit_zero b
  | succ n ih =>
    have inside : n / 8 < bSize := by
      simp only [bSize] at fits ⊢
      omega
    rw [bitmap, List.range_succ, List.foldl_append, List.foldl_cons, List.foldl_nil,
      Bytes.bit_setBit _ _ _ inside]
    split
    · rename_i here
      simp [here]
    · rename_i other
      rw [← bitmap, ih (Nat.le_of_succ_le fits)]
      simp only [Nat.lt_succ_iff_lt_or_eq, other, or_false]

/-- What the inodes on the finished image use. -/
theorem uses_iff (made : Made s (layout files)) (mounted : fs.Mounted s.finish.disk)
    {r : Nat × Place} (numbered : r.1 < table.ninodes) (b : Nat) :
    fs.Uses r b ↔ (s.finish.volume s.finish.dinode).Refers table r b := by
  unfold Store.Uses Volume.Refers
  rw [mounted_dinode made mounted, mounted.disk]
  exact (and_iff_right numbered).symm

/-- A block is marked in the kernel when `mkfs` has used it. -/
theorem mounted_mark (made : Made s (layout files)) (mounted : fs.Mounted s.finish.disk)
    (used : s.freeblock ≤ fsSize) (inside : b < fsSize) : fs.mark b = decide (b < s.freeblock) := by
  have sb_eq : fs.sb = sb := mounted.sb.trans (finish_super made)
  have block : sb.bblock b = sb.bmapstart := by
    have inside' : b < 2000 := inside
    show b / 4096 + 58 = 58
    omega
  have place : b % bpb = b := Nat.mod_eq_of_lt (inside.trans (by decide))
  have written : s.finish.disk sb.bmapstart = bitmap s.freeblock := by
    unfold State.finish
    dsimp only
    rw [update_self]
  rw [Store.mark, sb_eq, block, place, mounted.disk, written,
    bit_bitmap (used.trans (by decide))]

/-- There are no devices on the image. -/
theorem layout_type (files : List HostFile) (i : Nat) : (layout files i).type ≠ tDev := by
  rcases i with _ | _ | k
  · exact (by decide : (0 : UInt16) ≠ tDev)
  · exact (by decide : tDir ≠ tDev)
  · rw [layout]
    cases files[k]? with
    | none => exact (by decide : (0 : UInt16) ≠ tDev)
    | some file => exact (by decide : tFile ≠ tDev)

/-- An inode has the blocks of its file, if the root directory does not fill its blocks. -/
theorem finish_full (made : Made s (layout files)) (bound : files.length + 1 ≤ nInodes)
    (spills : direntSize * (2 + files.length) % bSize ≠ 0) (numbered : i < table.ninodes) :
    (s.finish.dinode i).Full s.finish.disk := by
  intro k below
  have inside : k * bSize < (layout files i).bytes.length := by
    by_cases root : i = rootIno
    · subst root
      rw [finish_root made bound] at below
      show k * bSize < (dirBytes (rootEntries files)).length
      rw [length_rootEntries]
      have le : k ≤ direntSize * (2 + files.length) / bSize :=
        Nat.le_of_lt_succ (Nat.lt_of_mul_lt_mul_right below)
      have whole := Nat.div_add_mod (direntSize * (2 + files.length)) bSize
      have scaled := Nat.mul_le_mul_right bSize le
      rw [Nat.mul_comm bSize] at whole
      omega
    · rwa [finish_size made numbered root] at below
  obtain ⟨place, there, mapped, -⟩ := (finish_laid made).contains i (k * bSize) inside
  rw [Nat.mul_div_cancel _ (by decide)] at there
  exact ⟨place, there, mapped⟩

/-- The root directory has no block after those of its entries. -/
theorem finish_hole (made : Made s (layout files)) {place : Place} (there : place ∈ filePlace k)
    (after : dataBlocks (direntSize * (2 + files.length)) ≤ k) :
    (s.finish.dinode rootIno).blockAt s.finish.disk place = 0 := by
  by_contra present
  have typed : (s.finish.dinode rootIno).type ≠ 0 := by
    rw [finish_type made (by decide)]
    exact (by decide : tDir ≠ 0)
  have below := (finish_laid made).blocks rootIno k place _ there
    ⟨(by decide : rootIno < table.ninodes), typed, present, rfl⟩
  have room : dataBlocks (layout files rootIno).bytes.length =
      dataBlocks (direntSize * (2 + files.length)) :=
    congrArg dataBlocks (length_rootEntries files)
  rw [room] at below
  exact absurd below (Nat.not_lt.mpr after)

/-- A root directory that fills its blocks lacks the block after them. -/
theorem finish_lacks (made : Made s (layout files)) (bound : files.length + 1 ≤ nInodes)
    (fills : direntSize * (2 + files.length) % bSize = 0) :
    ¬(rootedFs s.finish.disk).Stocked table.ninodes := by
  intro stocked
  have mounted := rootedFs_mounted s.finish.disk
  have size := finish_root made bound
  obtain ⟨place, there, present⟩ := stocked.full rootIno (by decide)
    (direntSize * (2 + files.length) / bSize) (by
      rw [mounted_dinode made mounted, size]
      exact Nat.mul_lt_mul_of_pos_right (Nat.lt_succ_self _) (by decide))
  rw [mounted_dinode made mounted, mounted.disk] at present
  refine present (finish_hole made there ?_)
  simp only [dataBlocks, bSize] at fills ⊢
  omega

/-- On an image of `mkfs` every inode has the blocks of its file, each for itself and marked, and no
read allocates a block, exactly if the entries of the root directory do not fill its blocks. -/
theorem mkfs_inodes_stocked (files : List HostFile)
    (short : ∀ file ∈ files, file.bytes.length ≤ maxFile * bSize)
    (inodes : files.length + 1 ≤ nInodes) (blocks : imageBlocks files ≤ fsSize) :
    ((∃ file ∈ files, ascii '/' ∈ file.name) → main files start = .error slashMessage) ∧
    ((∀ file ∈ files, ascii '/' ∉ file.name) → ∃ t, main files start = .ok ((), t) ∧
      ((∀ fs : Fs, fs.Mounted t.disk → fs.Stocked table.ninodes ∧
        ∀ inum ip devsw off n, inum < table.ninodes → fs.Holds inum ip →
          ∃ read, readi devsw ip off n fs = .ok (read, fs)) ↔
        direntSize * (2 + files.length) % bSize ≠ 0)) := by
  obtain ⟨slash, image⟩ := main_outcome short inodes blocks
  refine ⟨slash, fun plain => ?_⟩
  obtain ⟨s, ended, used, made⟩ := image plain
  refine ⟨s.finish, ended, fun all fills => ?_, fun spills fs mounted => ?_⟩
  · exact finish_lacks made inodes fills (all _ (rootedFs_mounted _)).1
  have sb_eq : fs.sb = sb := mounted.sb.trans (finish_super made)
  have accounted := (finish_laid made).accounted
  have full (i : Nat) (numbered : i < table.ninodes) : (fs.dinode i).Full fs.disk := by
    rw [mounted_dinode made mounted, mounted.disk]
    exact finish_full made inodes spills numbered
  refine ⟨⟨full, ?_, ?_, ?_⟩, ?_⟩
  · intro r r' b numbered numbered' uses uses'
    exact accounted.once r r' b ((uses_iff made mounted numbered b).mp uses)
      ((uses_iff made mounted numbered' b).mp uses')
  · intro r b numbered uses
    rw [sb_eq]
    exact accounted.data ((uses_iff made mounted numbered b).mp uses)
  · intro r b numbered uses
    have marked := accounted.marked_of_refs ((uses_iff made mounted numbered b).mp uses)
    rw [mounted_mark made mounted (by rw [used]; exact blocks) marked.1]
    exact marked.2
  · intro inum ip devsw off n numbered holds
    have copy := mounted.copies _ _ holds
    have plain : (fs.icache ip).copy.type ≠ tDev := by
      rw [copy, mounted_dinode made mounted, finish_type made numbered]
      exact layout_type files inum
    obtain ⟨read, _, ended', rfl⟩ := (readi_full (by rw [copy]; exact full inum numbered) plain off
      n).ends
    exact ⟨read, ended'⟩

/-- The blocks of the image with one file. -/
theorem mkfs_inodes_stocked_sample : ∃ t, main [sampleFile] start = .ok ((), t) ∧
    (rootedFs t.disk).Stocked table.ninodes ∧
    ∃ read, readi (fun _ => none) ⟨0, by decide⟩ 48 4096 (rootedFs t.disk) =
      .ok (read, rootedFs t.disk) := by
  obtain ⟨-, image⟩ := mkfs_inodes_stocked [sampleFile] (by decide) (by decide) (by decide)
  obtain ⟨t, ended, condition⟩ := image (by decide)
  obtain ⟨stocked, reads⟩ := condition.mpr (by decide) (rootedFs t.disk) (rootedFs_mounted t.disk)
  exact ⟨t, ended, stocked, reads rootIno ⟨0, by decide⟩ (fun _ => none) 48 4096 (by decide)
    ⟨Nat.one_pos, rfl, rfl⟩⟩

/-- Thirty empty files, whose entries fill the first block of the root directory with the first
two. -/
def thirtyFiles : List HostFile :=
  (List.finRange 30).map fun k =>
    { name := [UInt8.ofNat (97 + k.val)]
      reads := []
      string := by
        revert k
        decide
      pieces := by decide }

/-- With thirty files, the root directory has two blocks by its size and one on the disk, and
`bmap` allocates the second one when the directory is read. -/
theorem mkfs_root_lacks_block : ∃ t, main thirtyFiles start = .ok ((), t) ∧
    (t.dinode rootIno).size.toNat = 2 * bSize ∧
    ¬(rootedFs t.disk).Stocked table.ninodes ∧
    bmap ⟨0, by decide⟩ 1 (rootedFs t.disk) =
      (do let addr ← Xv6.balloc; setAddr ⟨0, by decide⟩ 1 addr; return addr) (rootedFs t.disk) := by
  have inodes : thirtyFiles.length + 1 ≤ nInodes := by decide +kernel
  have blocks : imageBlocks thirtyFiles ≤ fsSize := by decide +kernel
  obtain ⟨-, image⟩ := main_outcome (by decide +kernel) inodes blocks
  obtain ⟨s, ended, -, made⟩ := image (by decide +kernel)
  have mounted := rootedFs_mounted s.finish.disk
  have size := finish_root made inodes
  have copy : ((rootedFs s.finish.disk).icache ⟨0, by decide⟩).copy = s.finish.dinode rootIno := by
    rw [mounted.copies rootIno ⟨0, by decide⟩ ⟨Nat.one_pos, rfl, rfl⟩, mounted_dinode made mounted]
  refine ⟨s.finish, ended, size.trans (by decide +kernel),
    finish_lacks made inodes (by decide +kernel), bmap_hole (by decide) ?_⟩
  rw [copy]
  exact finish_hole made (show .direct ⟨1, by decide⟩ ∈ filePlace 1 from rfl) (by decide +kernel)

end Xv6.Mkfs
