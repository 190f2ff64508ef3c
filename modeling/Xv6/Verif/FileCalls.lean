import Xv6.Spec.OpenFile
import Xv6.Verif.FileWrite
import Xv6.Verif.FsCheck

/-!
# Reads and writes of open files

A round of `filewrite` writes a piece at the offset of the open file and advances the offset, all
with the inode locked. So the loop writes the whole data, unless a later piece is refused, and the
pieces of several writes lie one after another.
-/

namespace Xv6

open Lib Function

/-! ## Bytes -/

/-- Nothing is written. -/
theorem overwrite_nil (old : List UInt8) (off : Nat) : overwrite old off [] = old := by
  simp [overwrite]

/-- A file grows as far as it is written. -/
theorem length_overwrite {old data : List UInt8} {off : Nat} (start : off ≤ old.length) :
    (overwrite old off data).length = max old.length (off + data.length) := by
  simp only [overwrite, List.length_append, List.length_take, List.length_drop]
  omega

/-- A write and one that goes on behind it are one write. -/
theorem overwrite_append {old first second : List UInt8} {off : Nat} (start : off ≤ old.length) :
    overwrite (overwrite old off first) (off + first.length) second =
      overwrite old off (first ++ second) := by
  have length : (old.take off ++ first).length = off + first.length := by
    rw [List.length_append, List.length_take, Nat.min_eq_left start]
  have before : (overwrite old off first).take (off + first.length) = old.take off ++ first := by
    rw [overwrite, ← length, List.take_left]
  have after : (overwrite old off first).drop (off + first.length + second.length) =
      old.drop (off + (first ++ second).length) := by
    rw [overwrite, ← List.drop_drop, ← length, List.drop_left, length, List.drop_drop,
      List.length_append, Nat.add_assoc]
  rw [overwrite, before, after, List.append_assoc, overwrite, List.append_assoc, List.append_assoc]
  simp only [List.append_assoc]

/-- What has been written is there. -/
theorem drop_overwrite {old data : List UInt8} {off : Nat} (start : off ≤ old.length) :
    ((overwrite old off data).drop off).take data.length = data := by
  have length : (old.take off).length = off := by rw [List.length_take, Nat.min_eq_left start]
  rw [overwrite, List.append_assoc, List.drop_left' length, List.take_left]

/-- A piece of the data, byte by byte. -/
theorem map_getD_drop {data : List UInt8} {i n : Nat} (inside : i + n ≤ data.length) :
    (List.range n).map (fun k => data.getD (i + k) 0) = (data.drop i).take n := by
  apply List.ext_getElem
  · rw [List.length_map, List.length_range, List.length_take, List.length_drop]
    omega
  · intro k small _
    rw [List.getElem_map, List.getElem_range, List.getElem_take, List.getElem_drop,
      List.getElem_eq_getD 0]

/-- The piece of one round, and the rest. -/
theorem drop_piece (data : List UInt8) (i : Nat) :
    (data.drop i).take filewriteMax ++
      data.drop (i + ((data.drop i).take filewriteMax).length) = data.drop i := by
  rw [← List.drop_drop]
  conv_rhs => rw [← List.take_append_drop filewriteMax (data.drop i)]
  congr 1
  rw [List.length_take]
  rcases Nat.le_total filewriteMax (data.drop i).length with long | short
  · rw [Nat.min_eq_left long]
  · rw [Nat.min_eq_right short, List.drop_length, List.drop_eq_nil_of_le short]

/-! ## A round -/

variable {s t u : Sys} {stops : String → Prop} {f : Fin nFile} {inum : Nat} {file file' : File}
  {off off' : UInt32} {dev : Devsw} {data : List UInt8} {i : Nat}

/-- Nothing is written. -/
theorem Sys.Advances.refl (opened : s.Opened f inum file) :
    Sys.Advances f inum file (s.ftable f).off s s where
  opened := opened
  files := by rw [← opened.found, update_eq_self]
  ftable := (update_eq_self f s.ftable).symm
  process := ⟨rfl, rfl⟩
  affords := fun _ _ => Iff.rfl

/-- One round after another. -/
theorem Sys.Advances.trans (first : Sys.Advances f inum file off s t)
    (second : Sys.Advances f inum file' off' t u)
    (longer : file.bytes.length ≤ file'.bytes.length) : Sys.Advances f inum file' off' s u where
  opened := second.opened
  files := by rw [second.files, first.files, update_idem]
  ftable := by rw [second.ftable, first.ftable, update_self, update_idem]
  process := ⟨second.process.1.trans first.process.1, second.process.2.trans first.process.2⟩
  affords := fun n bound => (second.affords n bound).trans (first.affords n (longer.trans bound))

/-- A piece starts inside the file and does not go beyond the longest file. -/
def Sys.Accepts (s : Sys) (f : Fin nFile) (file : File) (n : Nat) : Prop :=
  (s.ftable f).off.toNat ≤ file.bytes.length ∧ (s.ftable f).off.toNat + n ≤ maxFile * bSize

/-- The open file has its inode locked and read. -/
structure Busy (s : Sys) (f : Fin nFile) (inum : Nat) (file : File) (walk : Walk) : Prop where
  whole : walk.Whole
  holds : walk.Holds inum (s.ftable f).ip
  found : walk.files inum = some file
  locked : walk.locked = update (fun _ => false) (s.ftable f).ip true

/-- The inode of an open file is locked. -/
theorem Sys.Opened.ilock (opened : s.Opened f inum file) :
    Wp stops (Walk.ilock (s.ftable f).ip) (fun _ walk => Busy s f inum file walk ∧
      walk.files = s.walk.files ∧ ∀ n, walk.Affords inum n ↔ s.walk.Affords inum n) s.walk := by
  obtain ⟨numbered, typed, -⟩ := Store.files_eq_some opened.found
  apply Wp.mono (ilock_spec_reads opened.whole opened.used opened.number (opened.unlocked _)
    fun _ => typed)
  rintro _ walk ⟨reads, -⟩
  have free : s.walk.locked = fun _ => false := funext opened.unlocked
  exact ⟨⟨reads.whole, reads.holds, reads.files ▸ opened.found, free ▸ reads.locked⟩, reads.files,
    fun n => Store.affords_congr reads.disk reads.sb n⟩

/-- The end of a round: the inode is unlocked, and the offset is a new one. -/
theorem Busy.advances {walk : Walk} (busy : Busy s f inum file' walk) (plain : file'.type ≠ tDev)
    (files : walk.files = update s.walk.files inum (some file'))
    (affords : ∀ n, file'.bytes.length ≤ n * bSize → (walk.Affords inum n ↔ s.walk.Affords inum n))
    (off : UInt32) :
    Wp stops (walkOp (Walk.iunlock (s.ftable f).ip))
      (fun _ t => Sys.Advances f inum file' off s t)
      ⟨walk, update s.ftable f { s.ftable f with off := off }, s.ofile, s.cwd⟩ := by
  have locked : walk.locked (s.ftable f).ip = true := by
    rw [busy.locked]
    exact update_self ..
  refine Wp.mono (walkOp_spec (iunlock_frees busy.holds.1 locked)) ?_
  rintro _ _ ⟨_, rfl, rfl⟩
  have same : (update s.ftable f { s.ftable f with off := off } f).ip = (s.ftable f).ip := by
    rw [update_self]
  refine ⟨⟨busy.whole, fun jp => ?_, ?_, ?_, busy.found, plain⟩, files, rfl, ⟨rfl, rfl⟩, affords⟩
  · show update walk.locked (s.ftable f).ip false jp = false
    rw [busy.locked, update_idem]
    by_cases here : jp = (s.ftable f).ip
    · rw [here, update_self]
    · rw [update_of_ne here]
  · show 0 < (walk.icache _).ref
    rw [same]
    exact busy.holds.1
  · show (walk.icache _).inum = inum
    rw [same]
    exact busy.holds.2.2

/-- A round writes its piece and advances the offset, or is refused and changes nothing. -/
theorem filewriteRound_spec (opened : s.Opened f inum file) (more : i < data.length)
    (enough : ¬stops outOfBlocks → s.Accepts f file (min (data.length - i) filewriteMax) →
      s.walk.Affords inum
        (dataBlocks ((s.ftable f).off.toNat + min (data.length - i) filewriteMax))) :
    Wp stops (filewriteRound dev f data i) (fun r t =>
      s.Accepts f file (min (data.length - i) filewriteMax) ∧ r = true ∧
        Sys.Advances f inum (file.withBytes (overwrite file.bytes (s.ftable f).off.toNat
          ((data.drop i).take filewriteMax)))
          ((s.ftable f).off + UInt32.ofNat (min (data.length - i) filewriteMax)) s t ∨
      ¬s.Accepts f file (min (data.length - i) filewriteMax) ∧ r = false ∧
        Sys.Advances f inum file (s.ftable f).off s t) s := by
  obtain ⟨n1, amount⟩ : ∃ n1, n1 = min (data.length - i) filewriteMax := ⟨_, rfl⟩
  have limit : filewriteMax = 1536 := rfl
  have positive : 0 < n1 := by omega
  have number : (UInt32.ofNat n1).toNat = n1 :=
    UInt32.toNat_ofNat_of_lt' (by simp only [UInt32.size]; omega)
  have part : (data.drop i).take n1 = (data.drop i).take filewriteMax := by
    rw [amount, ← List.length_drop, Nat.min_comm, ← List.take_eq_take_min]
  unfold filewriteRound
  dsimp only
  rw [← amount] at enough ⊢
  apply Wp.get
  apply Wp.bind (walkOp_spec opened.ilock)
  rintro _ _ ⟨walk, ⟨busy, files, affords⟩, rfl⟩
  apply Wp.get
  by_cases accepts : s.Accepts f file n1
  · refine Wp.bind (walkOp_spec (fsOp_spec
      (writei_whole busy.whole busy.holds busy.found opened.plain
      accepts.1 (by rw [number]; exact accepts.2)
      fun total => by rw [number, affords]; exact enough total accepts))) ?_
    rintro _ _ ⟨_, ⟨fs, ⟨rfl, wrote⟩, rfl⟩, rfl⟩
    rw [number, map_getD_drop (by omega), part] at wrote
    rw [number]
    rw [if_pos (show (some n1).getD 0 > 0 from positive)]
    apply Wp.bind Wp.modify
    rintro _ _ rfl
    have busy' : Busy s f inum (file.withBytes (overwrite file.bytes (s.ftable f).off.toNat
        ((data.drop i).take filewriteMax))) { walk with toFs := fs } := by
      refine ⟨wrote.whole, wrote.rewrites.holds.mpr busy.holds, ?_, busy.locked⟩
      show fs.files inum = _
      rw [wrote.files]
      exact update_self ..
    refine Wp.bind (busy'.advances opened.plain ?_ ?_ _) ?_
    · show fs.files = _
      rw [wrote.files, files]
      rfl
    · exact fun n bound => (wrote.affords n bound).trans (affords n)
    · intro _ t advances
      dsimp only
      rw [if_neg (not_not_intro rfl)]
      exact Wp.pure (.inl ⟨accepts, rfl, advances⟩)
  · have contents : file.bytes.length = (walk.icache (s.ftable f).ip).copy.size.toNat ∧
        (walk.icache (s.ftable f).ip).copy.type ≠ tDev := by
      obtain ⟨-, -, here⟩ := Store.files_eq_some busy.found
      rw [busy.whole.clean _ _ busy.holds, here]
      refine ⟨?_, ?_⟩
      · exact Dinode.length_bytes _ _
      · have plain := opened.plain
        rw [here] at plain
        exact plain
    have bad : WriteBad (walk.icache (s.ftable f).ip).copy.size (s.ftable f).off
      (UInt32.ofNat n1) := by
      unfold Sys.Accepts at accepts
      unfold WriteBad
      rw [number, ← contents.1]
      omega
    have refused : Wp stops (writei dev.write (s.ftable f).ip (fun k => data.getD (i + k) 0)
        (s.ftable f).off (UInt32.ofNat n1)) (fun r fs => r = none ∧ fs = walk.toFs) walk.toFs :=
      Wp.of_ok (writei_bad contents.2 bad) ⟨rfl, rfl⟩
    refine Wp.bind (walkOp_spec (fsOp_spec refused)) ?_
    rintro _ _ ⟨_, ⟨_, ⟨rfl, rfl⟩, rfl⟩, rfl⟩
    rw [if_neg (show ¬(none : Option Nat).getD 0 > 0 from Nat.lt_irrefl 0)]
    have stays : update s.ftable f { s.ftable f with off := (s.ftable f).off } = s.ftable :=
      update_eq_self f s.ftable
    have done : Wp stops _ (fun _ t => Sys.Advances f inum file (s.ftable f).off s t) _ :=
      busy.advances opened.plain (by rw [files, ← opened.found, update_eq_self])
        (fun n _ => affords n) (s.ftable f).off
    rw [stays] at done
    refine Wp.bind done fun _ t advances => ?_
    exact Wp.pure (.inr ⟨accepts, rfl, advances⟩)

/-! ## The loop -/

/-- The offset does not overflow. -/
theorem toNat_add_offset {off : UInt32} {n : Nat} (short : off.toNat + n ≤ maxFile * bSize) :
    (off + UInt32.ofNat n).toNat = off.toNat + n := by
  have bound : off.toNat + n ≤ 71680 := short
  rw [UInt32.toNat_add, UInt32.toNat_ofNat']
  omega

/-- The loop writes the rest of the data, when there is room for it in the file. -/
theorem filewriteFrom_spec (opened : s.Opened f inum file)
    (accepts : s.Accepts f file (data.length - i)) (inside : i ≤ data.length)
    (enough : ¬stops outOfBlocks → s.walk.Affords inum
      (dataBlocks (max file.bytes.length ((s.ftable f).off.toNat + (data.length - i))))) :
    Wp stops (filewriteFrom dev f data i) (fun r t => r = data.length ∧
      Sys.Advances f inum (file.withBytes (overwrite file.bytes (s.ftable f).off.toNat
        (data.drop i))) ((s.ftable f).off + UInt32.ofNat (data.length - i)) s t) s := by
  induction gap : data.length - i using Nat.strong_induction_on generalizing s i file with
  | _ left ih =>
  subst gap
  have limit : filewriteMax = 1536 := rfl
  unfold filewriteFrom
  apply Wp.ite
  · intro more
    obtain ⟨n1, amount⟩ : ∃ n1, n1 = min (data.length - i) filewriteMax := ⟨_, rfl⟩
    have whole := accepts.2
    have first : s.Accepts f file n1 := ⟨accepts.1, by omega⟩
    have enough₁ (total : ¬stops outOfBlocks) :
        s.walk.Affords inum (dataBlocks ((s.ftable f).off.toNat + n1)) :=
      (Dinode.missing_mono _ _ (Nat.div_le_div_right (by omega))).trans (enough total)
    apply Wp.bind (filewriteRound_spec opened more (amount ▸ fun total _ => enough₁ total))
    rw [← amount]
    rintro r t (⟨-, rfl, advances⟩ | ⟨refused, -⟩)
    · obtain ⟨file₁, made⟩ : ∃ file₁, file₁ = file.withBytes (overwrite file.bytes
          (s.ftable f).off.toNat ((data.drop i).take filewriteMax)) := ⟨_, rfl⟩
      have taken : ((data.drop i).take filewriteMax).length = n1 := by
        rw [List.length_take, List.length_drop, Nat.min_comm, amount]
      have length : file₁.bytes.length = max file.bytes.length ((s.ftable f).off.toNat + n1) := by
        rw [made]
        exact (length_overwrite accepts.1).trans (by rw [taken])
      rw [← made] at advances
      have off : (t.ftable f).off = (s.ftable f).off + UInt32.ofNat n1 := by
        rw [advances.ftable, update_self]
      have offset : (t.ftable f).off.toNat = (s.ftable f).off.toNat + n1 := by
        rw [off, toNat_add_offset first.2]
      have accepts₁ : t.Accepts f file₁ (data.length - (i + n1)) := by
        refine ⟨?_, ?_⟩
        · rw [offset, length]
          omega
        · rw [offset]
          omega
      have reach : max file₁.bytes.length ((t.ftable f).off.toNat + (data.length - (i + n1))) =
          max file.bytes.length ((s.ftable f).off.toNat + (data.length - i)) := by
        rw [length, offset]
        omega
      have enough' (total : ¬stops outOfBlocks) : t.walk.Affords inum (dataBlocks
          (max file₁.bytes.length ((t.ftable f).off.toNat + (data.length - (i + n1))))) := by
        rw [reach]
        refine (advances.affords _ (Nat.le_trans ?_ (le_dataBlocks _))).mpr (enough total)
        rw [length]
        omega
      refine Wp.mono (ih _ (by omega) advances.opened accepts₁ (by omega) enough' rfl) ?_
      rintro r u ⟨rfl, rest⟩
      have bytes : overwrite file₁.bytes (t.ftable f).off.toNat (data.drop (i + n1)) =
          overwrite file.bytes (s.ftable f).off.toNat (data.drop i) := by
        rw [offset, ← taken, made]
        exact (overwrite_append accepts.1).trans (by rw [drop_piece])
      have sum : (t.ftable f).off + UInt32.ofNat (data.length - (i + n1)) =
          (s.ftable f).off + UInt32.ofNat (data.length - i) := by
        rw [off, UInt32.add_assoc, ← UInt32.ofNat_add]
        congr 2
        omega
      have same : file₁.withBytes (overwrite file.bytes (s.ftable f).off.toNat (data.drop i)) =
          file.withBytes (overwrite file.bytes (s.ftable f).off.toNat (data.drop i)) := by
        rw [made]
        rfl
      rw [bytes, sum, same] at rest
      refine ⟨rfl, advances.trans rest ?_⟩
      rw [length]
      refine Nat.le_trans ?_ (length_overwrite accepts.1).ge
      rw [List.length_drop]
      omega
    · exact absurd first refused
  · intro done
    have none : data.length - i = 0 := by omega
    have rest : data.drop i = [] := List.drop_eq_nil_of_le (by omega)
    apply Wp.pure
    rw [rest, overwrite_nil, none, show UInt32.ofNat 0 = 0 from rfl, UInt32.add_zero]
    exact ⟨rfl, Sys.Advances.refl opened⟩

/-- The loop ends with an error at a piece that is refused, and leaves what has been written. -/
theorem filewriteFrom_refused (opened : s.Opened f inum file) (more : i < data.length)
    (refused : ¬s.Accepts f file (min (data.length - i) filewriteMax)) :
    Wp stops (filewriteFrom dev f data i)
      (fun r t => r = -1 ∧ Sys.Advances f inum file (s.ftable f).off s t) s := by
  rw [filewriteFrom, if_pos more]
  apply Wp.bind (filewriteRound_spec opened more fun _ accepts => absurd accepts refused)
  rintro r t (⟨accepts, -⟩ | ⟨-, rfl, advances⟩)
  · exact absurd accepts refused
  · exact Wp.pure ⟨rfl, advances⟩

/-- The loop ends with an error behind its first piece when the data do not fit, and the offset has
moved. -/
theorem filewriteFrom_cut (opened : s.Opened f inum file) (more : i < data.length)
    (first : s.Accepts f file (min (data.length - i) filewriteMax))
    (long : ¬s.Accepts f file (data.length - i)) (full : stops outOfBlocks) :
    Wp stops (filewriteFrom dev f data i)
      (fun r t => r = -1 ∧ (s.ftable f).off.toNat < (t.ftable f).off.toNat) s := by
  induction gap : data.length - i using Nat.strong_induction_on generalizing s i file with
  | _ left ih =>
  subst gap
  have limit : filewriteMax = 1536 := rfl
  obtain ⟨n1, amount⟩ : ∃ n1, n1 = min (data.length - i) filewriteMax := ⟨_, rfl⟩
  rw [filewriteFrom, if_pos more]
  apply Wp.bind (filewriteRound_spec opened more fun total => absurd full total)
  rw [← amount] at first ⊢
  rintro r t (⟨-, rfl, advances⟩ | ⟨refused, -⟩)
  · have off : (t.ftable f).off.toNat = (s.ftable f).off.toNat + n1 := by
      rw [advances.ftable, update_self, toNat_add_offset first.2]
    have more' : i + n1 < data.length := by
      by_contra done
      have whole : n1 = data.length - i := by omega
      exact long (whole ▸ first)
    have long' {file' : File} : ¬t.Accepts f file' (data.length - (i + n1)) := fun accepts =>
      long ⟨first.1, by have := accepts.2; omega⟩
    by_cases next : t.Accepts f (file.withBytes (overwrite file.bytes (s.ftable f).off.toNat
        ((data.drop i).take filewriteMax))) (min (data.length - (i + n1)) filewriteMax)
    · apply Wp.mono (ih _ (by omega) advances.opened more' next long' rfl)
      rintro r u ⟨rfl, moved⟩
      exact ⟨rfl, by omega⟩
    · apply Wp.mono (filewriteFrom_refused advances.opened more' next)
      rintro r u ⟨rfl, stays⟩
      rw [stays.ftable, update_self]
      refine ⟨rfl, ?_⟩
      show _ < (t.ftable f).off.toNat
      omega
  · exact absurd first refused

/-- The data are written, and the offset is behind them. -/
def Sys.Writes (f : Fin nFile) (inum : Nat) (file : File) (data : List UInt8) (s t : Sys) : Prop :=
  Sys.Advances f inum (file.withBytes (overwrite file.bytes (s.ftable f).off.toNat data))
    ((s.ftable f).off + UInt32.ofNat data.length) s t

/-- There were free blocks for what has been written. -/
theorem Sys.Writes.afforded (writes : Sys.Writes f inum file data s t)
    (start : (s.ftable f).off.toNat ≤ file.bytes.length) :
    s.walk.Affords inum (dataBlocks ((s.ftable f).off.toNat + data.length)) := by
  have length : (overwrite file.bytes _ data).length = _ := length_overwrite start
  have after := writes.opened.whole.affords writes.opened.found (Nat.le_refl _)
  rw [writes.affords _ (le_dataBlocks _)] at after
  exact (Dinode.missing_mono _ _
    (Nat.div_le_div_right
      (Nat.add_le_add_right ((Nat.le_max_right ..).trans_eq length.symm) _))).trans
    after

/-- How the loop ends: the data are written, or nothing, or some pieces of them. -/
theorem filewriteFrom_ends (opened : s.Opened f inum file)
    (enough : ¬stops outOfBlocks → data ≠ [] → s.Accepts f file (min data.length filewriteMax) →
      s.Accepts f file data.length ∧
        s.walk.Affords inum (dataBlocks ((s.ftable f).off.toNat + data.length))) :
    Wp stops (filewriteFrom dev f data 0) (fun r t =>
      (data = [] ∨ s.Accepts f file data.length) ∧ r = data.length ∧
        Sys.Writes f inum file data s t ∨
      (data ≠ [] ∧ ¬s.Accepts f file data.length) ∧ r = -1 ∧
        ((¬s.Accepts f file (min data.length filewriteMax) ∧
            Sys.Advances f inum file (s.ftable f).off s t) ∨
          s.Accepts f file (min data.length filewriteMax) ∧
            (s.ftable f).off.toNat < (t.ftable f).off.toNat)) s := by
  by_cases empty : data = []
  · subst empty
    rw [filewriteFrom, if_neg (show ¬0 < ([] : List UInt8).length from Nat.lt_irrefl 0)]
    refine Wp.pure (.inl ⟨.inl rfl, rfl, ?_⟩)
    have advances := Sys.Advances.refl opened
    rw [← UInt32.add_zero (s.ftable f).off] at advances
    rw [Sys.Writes, overwrite_nil]
    exact advances
  have more : 0 < data.length := List.length_pos_of_ne_nil empty
  by_cases accepts : s.Accepts f file data.length
  · have first : s.Accepts f file (min data.length filewriteMax) :=
      ⟨accepts.1, (Nat.add_le_add_left (Nat.min_le_left ..) _).trans accepts.2⟩
    refine Wp.mono (filewriteFrom_spec opened accepts (Nat.zero_le _) fun total =>
      (enough total empty first).2.max opened.whole opened.found) ?_
    rintro r t ⟨rfl, writes⟩
    exact .inl ⟨.inr accepts, rfl, writes⟩
  by_cases first : s.Accepts f file (min data.length filewriteMax)
  · have full : stops outOfBlocks := by
      by_contra total
      exact accepts (enough total empty first).1
    apply Wp.mono (filewriteFrom_cut opened more first accepts full)
    rintro r t ⟨rfl, moved⟩
    exact .inr ⟨⟨empty, accepts⟩, rfl, .inr ⟨first, moved⟩⟩
  · apply Wp.mono (filewriteFrom_refused opened more first)
    rintro r t ⟨rfl, stays⟩
    exact .inr ⟨⟨empty, accepts⟩, rfl, .inl ⟨first, stays⟩⟩

/-- A write to an open file has an effect on the whole data or none exactly when it is not cut after
its first piece: there is nothing to write, or the first piece is refused, or the file may get as
long as it will be and there are free blocks for it. A call that returns fails exactly when the data
do not fit. -/
theorem filewrite_all_or_nothing (dev : Devsw) (pipewrite : SysM Int) (data : List UInt8)
    (opened : s.Opened f inum file) (inode : (s.ftable f).type = .inode)
    (writable : (s.ftable f).writable = true) :
    ((∃ r t, filewrite dev pipewrite f data s = .ok (r, t) ∧
      (r = data.length ∧ Sys.Writes f inum file data s t ∨
        r = -1 ∧ Sys.Advances f inum file (s.ftable f).off s t)) ↔
      (data ≠ [] → s.Accepts f file (min data.length filewriteMax) →
        s.Accepts f file data.length ∧
          s.walk.Affords inum (dataBlocks ((s.ftable f).off.toNat + data.length)))) ∧
    ∀ r t, filewrite dev pipewrite f data s = .ok (r, t) →
      (r = -1 ↔ data ≠ [] ∧ ¬s.Accepts f file data.length) := by
  have loop : filewrite dev pipewrite f data s = filewriteFrom dev f data 0 s := by
    show (if (s.ftable f).writable = false then _ else _ : SysM Int) s = _
    rw [if_neg (by rw [writable]; decide), inode]
  rw [loop]
  have wp : Wp (fun _ => True) (filewriteFrom dev f data 0) _ s :=
    filewriteFrom_ends opened fun total => absurd trivial total
  refine ⟨⟨?_, fun fits => ?_⟩, fun r t ends => ?_⟩
  · rintro ⟨r, t, ends, effect⟩ some first
    rcases wp.ok ends with ⟨accepts, rfl, writes⟩ | ⟨-, rfl, ⟨refused, -⟩ | ⟨-, moved⟩⟩
    · have whole := accepts.resolve_left some
      exact ⟨whole, writes.afforded whole.1⟩
    · exact absurd first refused
    · -- The offset has moved, so the call has not failed without an effect.
      rcases effect with ⟨impossible, -⟩ | ⟨-, stays⟩
      · omega
      · rw [stays.ftable, update_self] at moved
        exact absurd moved (Nat.lt_irrefl _)
  · have total : Wp (fun _ => False) (filewriteFrom dev f data 0) _ s :=
      filewriteFrom_ends opened fun _ => fits
    obtain ⟨r, t, ends, ⟨-, rfl, writes⟩ | ⟨⟨some, long⟩, rfl, ⟨-, stays⟩ | ⟨first, -⟩⟩⟩ :=
      total.ends
    · exact ⟨_, t, ends, .inl ⟨rfl, writes⟩⟩
    · exact ⟨_, t, ends, .inr ⟨rfl, stays⟩⟩
    · exact absurd (fits some first).1 long
  · rcases wp.ok ends with ⟨accepts, rfl, -⟩ | ⟨long, rfl, -⟩
    · exact iff_of_false (by omega) fun both => accepts.elim both.1 both.2
    · exact iff_of_true rfl long

/-! ## An open file -/

/-- A system with one regular file of `size` bytes, open for writing at an offset. -/
def openedFile (size room : Nat) (off : UInt32) : Sys where
  walk :=
    { toFs := smallFs 3 room (fileBlocks size) 2
        (fun i => if i = rootIno then .ofBlocks tDir 0 0 else if i = 2 then .ofBlocks tFile size 4
          else .zero)
        fun b =>
          if b = nDirect then
            wordBlock fun q => if nDirect + 1 + q < fileBlocks size then 4 + nDirect + 1 + q else 0
          else fun p => UInt8.ofNat (97 + p)
      locked := fun _ => false }
  ftable := fun _ => ⟨.inode, 1, true, true, ⟨1, by decide⟩, off⟩
  ofile := fun _ => none
  cwd := firstInode

/-- The first entry of the table of open files. -/
def firstFile : Fin nFile := ⟨0, nFile_pos⟩

/-- A byte is written to an empty file. -/
theorem filewrite_a : ∃ t, filewrite ⟨fun _ => none, fun _ => none⟩ (pure 0) firstFile [97]
      (openedFile 0 1 0) = .ok (1, t) ∧
    t.walk.files 2 = some ⟨tFile, 0, 0, 1, [97]⟩ ∧ (t.ftable firstFile).off = 1 := by
  have opened : (openedFile 0 1 0).Opened firstFile 2 ⟨tFile, 0, 0, 1, []⟩ := by decide +kernel
  have accepts : (openedFile 0 1 0).Accepts firstFile ⟨tFile, 0, 0, 1, []⟩ [97].length :=
    ⟨by decide, by decide⟩
  obtain ⟨writes, fails⟩ := filewrite_all_or_nothing ⟨fun _ => none, fun _ => none⟩ (pure 0) [97]
    opened rfl rfl
  obtain ⟨r, t, ends, ⟨rfl, writes⟩ | ⟨failed, -⟩⟩ :=
    writes.mpr fun _ _ => ⟨accepts, by decide +kernel⟩
  · refine ⟨t, ends, ?_, ?_⟩
    · rw [writes.files]
      exact update_self ..
    · rw [writes.ftable, update_self]
      rfl
  · exact absurd accepts ((fails r t ends).mp failed).2

/-- A write of one byte more than a piece, a piece before the end of the longest file, fails and
leaves the first piece in the file and the offset behind it. -/
theorem filewrite_cut : (∃ file, (openedFile 70144 144 70144).Opened firstFile 2 file ∧
      file.bytes.length = 70144) ∧
    ∃ t, filewrite ⟨fun _ => none, fun _ => none⟩ (pure 0) firstFile (List.replicate 1537 1)
        (openedFile 70144 144 70144) = .ok (-1, t) ∧
      (t.walk.dinode 2).size = 71680 ∧ (t.ftable firstFile).off = 71680 := by
  have size : ((openedFile 70144 144 70144).walk.dinode 2).size.toNat = 70144 := by decide +kernel
  refine ⟨⟨((openedFile 70144 144 70144).walk.dinode 2).file _, ⟨by decide +kernel, fun _ => rfl,
    by decide, rfl, Store.files_of_typed (by decide) (by decide +kernel), by decide +kernel⟩, ?_⟩,
      ?_⟩
  · rw [Dinode.length_file, size]
  · have runs : (filewrite ⟨fun _ => none, fun _ => none⟩ (pure 0) firstFile (List.replicate 1537 1)
        (openedFile 70144 144 70144)).toOption.any (fun (r, t) => r = -1 ∧
          (t.walk.dinode 2).size = 71680 ∧ (t.ftable firstFile).off = 71680) = true := by
      decide +kernel
    obtain ⟨r, t, ends, holds⟩ := Wp.exists_ok runs
    obtain ⟨rfl, size, off⟩ := of_decide_eq_true holds
    exact ⟨t, ends, size, off⟩

/-! ## Reads -/

/-- A file that is open for reading, at an offset inside it. -/
structure Sys.Reading (s : Sys) (f : Fin nFile) (inum : Nat) (file : File) : Prop extends
    s.Opened f inum file where
  readable : (s.ftable f).readable = true
  inode : (s.ftable f).type = .inode
  inside : (s.ftable f).off.toNat ≤ file.bytes.length

/-- An open file is a file, and no longer than one. -/
theorem Sys.Opened.length_le (opened : s.Opened f inum file) :
    file.bytes.length ≤ maxFile * bSize := by
  obtain ⟨numbered, typed, rfl⟩ := Store.files_eq_some opened.found
  have size := (opened.whole.full inum numbered typed).size_le
  rwa [← List.length_range (n := (s.walk.dinode inum).size.toNat), ← List.length_map] at size

variable {piperead : SysM (Option (List UInt8))}

/-- A read returns the bytes behind the offset, and moves it behind them. -/
theorem fileread_spec (reading : s.Reading f inum file) {n : UInt32}
    (small : n.toNat < 0x80000000) :
    Wp stops (fileread dev piperead f n) (fun r t => ∃ bytes, r = some bytes ∧
      bytes = (file.bytes.drop (s.ftable f).off.toNat).take n.toNat ∧
      Sys.Advances f inum file ((s.ftable f).off + UInt32.ofNat bytes.length) s t) s := by
  unfold fileread
  apply Wp.get
  dsimp only
  rw [if_neg (by simp [reading.readable]), reading.inode]
  apply Wp.bind (walkOp_spec reading.ilock)
  rintro _ _ ⟨walk, ⟨busy, files, affords⟩, rfl⟩
  apply Wp.get
  obtain ⟨numbered, typed, here⟩ := Store.files_eq_some busy.found
  have copy := busy.whole.clean _ _ busy.holds
  have full := busy.whole.full inum numbered typed
  have plain : (walk.dinode inum).type ≠ tDev := by
    have plain := reading.plain
    rwa [here] at plain
  have contents : (walk.dinode inum).bytes walk.disk = file.bytes := by rw [here]; rfl
  have good : ¬ReadBad (walk.dinode inum).size (s.ftable f).off n := by
    have inside := reading.inside
    have size := full.size_le
    rw [← contents, Dinode.length_bytes] at inside
    rw [show maxFile * bSize = 71680 from rfl] at size
    unfold ReadBad
    omega
  have read : readi dev.read (s.ftable f).ip (s.ftable f).off n walk.toFs = _ :=
    readi_array (copy ▸ plain) (copy ▸ full)
  rw [copy, if_neg good, contents] at read
  generalize (file.bytes.drop (s.ftable f).off.toNat).take n.toNat = bytes at read ⊢
  have wp : Wp stops (readi dev.read (s.ftable f).ip (s.ftable f).off n)
      (fun r fs => r = some bytes ∧ fs = walk.toFs) walk.toFs := Wp.of_ok read ⟨rfl, rfl⟩
  apply Wp.bind (walkOp_spec (fsOp_spec wp))
  rintro _ _ ⟨_, ⟨_, ⟨rfl, rfl⟩, rfl⟩, rfl⟩
  have done : Wp stops _ (fun _ t => Sys.Advances f inum file _ s t) _ :=
    busy.advances reading.plain (by rw [files, ← reading.found, update_eq_self])
      (fun n _ => affords n) ((s.ftable f).off + UInt32.ofNat bytes.length)
  apply Wp.ite
  · intro _
    apply Wp.bind Wp.modify
    rintro _ _ rfl
    exact Wp.bind done fun _ _ advances => Wp.pure ⟨_, rfl, rfl, advances⟩
  · intro none
    obtain rfl := List.length_eq_zero_iff.mp (Nat.eq_zero_of_not_pos none)
    simp only [List.length_nil, UInt32.reduceOfNat, UInt32.add_zero, update_eq_self] at done
    exact Wp.bind done fun _ _ advances => Wp.pure ⟨_, rfl, rfl, by simpa using advances⟩

/-- **Reads in a row.** Calls of `fileread` with any counts return the bytes of the file one after
another, from the offset up to the end of the file, and leave the offset behind them. -/
theorem filereads_consecutive (dev : Devsw) (piperead : SysM (Option (List UInt8)))
    (reading : s.Reading f inum file) (counts : List UInt32)
    (small : ∀ n ∈ counts, n.toNat < 0x80000000) :
    ∃ r t, counts.mapM (fileread dev piperead f) s = .ok (r, t) ∧
      ∃ parts : List (List UInt8), r = parts.map some ∧ parts.flatten =
        (file.bytes.drop (s.ftable f).off.toNat).take (counts.map UInt32.toNat).sum ∧
      Sys.Advances f inum file ((s.ftable f).off + UInt32.ofNat parts.flatten.length) s t := by
  apply Wp.ends
  induction counts generalizing s with
  | nil => exact Wp.pure ⟨[], rfl, by simp, by simpa using Sys.Advances.refl reading.toOpened⟩
  | cons n counts ih =>
    rw [List.mapM_cons]
    apply Wp.bind (fileread_spec reading (small n (.head _)))
    rintro _ t ⟨bytes, rfl, part, first⟩
    have inside := reading.inside
    have length : bytes.length ≤ file.bytes.length - (s.ftable f).off.toNat := by
      rw [part, List.length_take, List.length_drop]
      omega
    have moved : ((s.ftable f).off + UInt32.ofNat bytes.length).toNat = _ :=
      toNat_add_offset (by have := reading.length_le; omega)
    have table := congrFun first.ftable f
    rw [update_self] at table
    have again : t.Reading f inum file := by
      constructor
      case toOpened => exact first.opened
      all_goals rw [table]
      · exact reading.readable
      · exact reading.inode
      · rw [moved]
        omega
    apply Wp.bind (ih again fun m member => small m (.tail _ member))
    rintro _ u ⟨parts, rfl, flat, second⟩
    rw [table] at flat second
    rw [moved] at flat
    refine Wp.pure ⟨bytes :: parts, rfl, ?_, ?_⟩
    · have behind (l : List UInt8) : l.drop (l.take n.toNat).length = l.drop n.toNat := by simp
      rw [List.flatten_cons, flat, part, ← List.drop_drop, behind, ← List.take_add]
      rfl
    · have both := first.trans second (Nat.le_refl _)
      rwa [UInt32.add_assoc, ← UInt32.ofNat_add, ← List.length_append] at both

/-- Two reads of a file of two bytes. -/
theorem filereads_consecutive_ab : ∃ r t,
    [1, 5].mapM (fileread ⟨fun _ => none, fun _ => none⟩ (pure none) firstFile)
      (openedFile 2 1 0) = .ok (r, t) ∧
    ∃ parts : List (List UInt8), r = parts.map some ∧ parts.flatten = [97, 98] := by
  have reading : (openedFile 2 1 0).Reading firstFile 2 ⟨tFile, 0, 0, 1, [97, 98]⟩ :=
    ⟨by decide +kernel, rfl, rfl, by decide⟩
  obtain ⟨r, t, ends, parts, same, flat, -⟩ := filereads_consecutive _ _ reading [1, 5] (by simp)
  exact ⟨r, t, ends, parts, same, flat⟩

end Xv6
