import Xv6.Kernel.IdeError
import Xv6.Verif.BufferCache

/-!
# Buffers and a disk that fails

As long as no command ends with an error the driver of `ide.c` does what the buffer cache expects,
and a buffer that is valid and clean has the contents of its block. After an error it has not:
`ideintr` marks the buffer valid with whatever was in it.
-/

namespace Xv6

open Lib

namespace CacheState

/-- There are buffers. -/
theorem nBuf_pos : 0 < nBuf := by decide

variable {Client : Type} [DecidableEq Client] {havedisk1 : Bool} {s t : CacheState Client}
  {i : Fin nBuf} {status : UInt8} {event : CacheEvent Client}
  {disk : UInt32 × UInt32 → Block} {past : List (CacheEvent Client × UInt8)}

/-- `idewait` does not fail on a disk that works. -/
theorem idewait_nonneg {checkerr : Bool} {r : Int} (well : Ide.failed status = false)
    (waited : Ide.idewait checkerr status = some r) : 0 ≤ r := by
  unfold Ide.idewait at waited
  rw [well, Bool.and_false] at waited
  split at waited
  · contradiction
  · exact (Option.some.inj waited).le

omit [DecidableEq Client] in
/-- A request that ends without an error is one the cache expects. -/
theorem iderw_of_iderwOver (well : Ide.failed status = false)
    (ends : s.iderwOver havedisk1 i status = some t) : s.iderw (Ide.driver havedisk1) i = t := by
  unfold iderwOver at ends
  unfold iderw
  simp only at ends ⊢
  by_cases unlocked : (s.buf i).locked = false
  · rw [if_pos unlocked] at ends ⊢
    exact Option.some.inj ends
  rw [if_neg unlocked] at ends ⊢
  by_cases done : (s.buf i).valid = true ∧ (s.buf i).dirty = false
  · rw [if_pos done] at ends ⊢
    exact Option.some.inj ends
  rw [if_neg done] at ends ⊢
  cases checks : Ide.driver havedisk1 (s.buf i).dev (s.buf i).blockno with
  | some message =>
    rw [checks] at ends
    exact Option.some.inj ends
  | none =>
    rw [checks] at ends
    cases dirty : (s.buf i).dirty with
    | true =>
      simp only [Ide.ideintr, dirty, well] at ends
      exact Option.some.inj ends
    | false =>
      simp only [Ide.ideintr, dirty, Bool.false_eq_true, if_false, Bool.false_and,
        Option.map_map] at ends
      obtain ⟨r, waited, rfl⟩ := Option.map_eq_some_iff.mp ends
      have fine : 0 ≤ r := idewait_nonneg well waited
      simp [fine, setBuf]

omit [DecidableEq Client] in
/-- Without errors, `bread` is that of the buffer cache. -/
theorem bread_of_breadOver (well : Ide.failed status = false)
    (ends : s.breadOver havedisk1 i status = some t) : s.bread (Ide.driver havedisk1) i = t := by
  unfold breadOver at ends
  unfold bread
  split_ifs at ends ⊢
  · exact iderw_of_iderwOver well ends
  · exact Option.some.inj ends

omit [DecidableEq Client] in
/-- So is `bwrite`. -/
theorem bwrite_of_bwriteOver (well : Ide.failed status = false)
    (ends : s.bwriteOver havedisk1 i status = some t) : s.bwrite (Ide.driver havedisk1) i = t := by
  unfold bwriteOver at ends
  unfold bwrite
  split_ifs at ends ⊢
  · exact Option.some.inj ends
  · exact iderw_of_iderwOver well ends

/-- So is every step. -/
theorem step_of_stepOver (well : Ide.failed status = false)
    (taken : s.stepOver havedisk1 (event, status) = some t) :
    s.step (Ide.driver havedisk1) event = some t := by
  unfold stepOver at taken
  obtain ⟨running, taken⟩ := Option.ite_none_left_eq_some.mp taken
  cases event with
  | read c dev blockno data =>
    rw [step, if_neg running]
    cases found : s.session c with
    | locked r =>
      simp only [found] at taken ⊢
      obtain ⟨asked, taken⟩ := Option.ite_none_right_eq_some.mp taken
      obtain ⟨u, reads, taken⟩ := Option.bind_eq_some_iff.mp taken
      simp only [if_pos asked, bread_of_breadOver well reads]
      exact taken
    | _ => simp [found] at taken
  | bwrite c =>
    rw [step, if_neg running]
    cases found : s.session c with
    | holding r saved =>
      simp only [found] at taken ⊢
      obtain ⟨u, writes, rfl⟩ := Option.map_eq_some_iff.mp taken
      simp only [bwrite_of_bwriteOver well writes]
    | _ => simp [found] at taken
  | get | lock | store | logWrite | release | drop => exact taken

/-- Runs over `ide.c`. -/
abbrev RanOver (havedisk1 : Bool) (disk : UInt32 × UInt32 → Block) :
    List (CacheEvent Client × UInt8) → CacheState Client → Prop :=
  History (fun s => s = booted Client disk) (stepOver havedisk1)

/-- Runs over `ide.c` in which no command ends with an error. -/
abbrev RanWell (havedisk1 : Bool) (disk : UInt32 × UInt32 → Block) :
    List (CacheEvent Client × UInt8) → CacheState Client → Prop :=
  Within (fun s => s = booted Client disk) (stepOver havedisk1)
    fun _ _ label => Ide.failed label.2 = false

/-- So is every run. -/
theorem ran_of_ranWell (history : RanWell havedisk1 disk past s) :
    Ran (Ide.driver havedisk1) disk (past.map Prod.fst) s := by
  induction history with
  | nil start => exact .nil start
  | cons before well taken ih => exact ih.cons (step_of_stepOver well taken)

omit [DecidableEq Client] in
/-- In a coherent cache a valid, clean buffer whose contents no client is changing has the contents
of its block. -/
theorem Coherent.own [Fintype Client] {past : List (CacheEvent Client)} (inv : Coherent disk past s)
    (valid : (s.buf i).valid = true) (clean : (s.buf i).dirty = false)
    (saved : ∀ c, ¬(s.session c).Unsaved i) : (s.buf i).data = s.disk (s.buf i).key := by
  rw [inv.fresh i valid, inv.backed]
  intro j same
  rw [← inv.unique i j (inv.named i valid) same.symm]
  exact ⟨clean, saved⟩

/-- A buffer that is valid and clean has the contents of its own block, in every state of a run in
which no command of the disk ends with an error. -/
theorem valid_clean_own [Fintype Client] (history : RanWell havedisk1 disk past s)
    (valid : (s.buf i).valid = true) (clean : (s.buf i).dirty = false)
    (saved : ∀ c, ¬(s.session c).Unsaved i) : (s.buf i).data = s.disk (s.buf i).key :=
  (Coherent.ran (ran_of_ranWell history)).own valid clean saved

/-- Block 0 holds sevens, the other blocks zeros. -/
def sevens : UInt32 × UInt32 → Block := fun key => fun _ => if key.2 = 0 then 7 else 0

/-- One client uses block 0; then the others take all buffers but the one that was used. -/
def takeOthers (client : Nat → Client) : List (CacheEvent Client × UInt8) :=
  [(.get (client 0) 1 0, 0x40), (.lock (client 0), 0x40),
    (.read (client 0) 1 0 (sevens (1, 0)), 0x40), (.release (client 0), 0x40),
    (.drop (client 0), 0x40)] ++
  (List.range (nBuf - 1)).map fun k => (.get (client (k + 1)) 1 (k + 1).toUInt32, 0x40)

/-- The read of block 30 into a recycled buffer. -/
theorem valid_clean_own_recycled : ∃ past, ∃ s : CacheState (Fin 31), RanWell true sevens past s ∧
    (s.buf ⟨0, nBuf_pos⟩).valid = true ∧ (s.buf ⟨0, nBuf_pos⟩).key = (1, 30) ∧
    (s.buf ⟨0, nBuf_pos⟩).data = s.disk (s.buf ⟨0, nBuf_pos⟩).key := by
  have runs : (replayWithin (stepOver true) (fun _ _ label => Ide.failed label.2 = false)
      (takeOthers (Fin.ofNat 31) ++
        [(.get 0 1 30, 0x40), (.lock 0, 0x40), (.read 0 1 30 (sevens (1, 30)), 0x40)]) []
      (booted (Fin 31) sevens)).any
      (fun s => (∀ c, ¬(s.session c).Unsaved ⟨0, nBuf_pos⟩) ∧ (s.buf ⟨0, nBuf_pos⟩).valid = true ∧
        (s.buf ⟨0, nBuf_pos⟩).key = (1, 30) ∧ (s.buf ⟨0, nBuf_pos⟩).dirty = false) = true := by
    decide +kernel
  obtain ⟨s, within, holds⟩ : ∃ s, RanWell true sevens _ s ∧ _ := Within.of_replay rfl runs
  obtain ⟨saved, valid, key, clean⟩ := of_decide_eq_true holds
  exact ⟨_, s, within, valid, key, valid_clean_own within valid clean saved⟩

/-- The status `IDE_DRDY | IDE_ERR` at the read of block 30 into a recycled buffer: the buffer is
valid and clean, and holds the contents of the block it was for before. -/
theorem failed_read_stale : ∃ past, ∃ s : CacheState Nat,
    RanOver true sevens ((.read 0 1 30 (sevens (1, 0)), 0x41) :: past) s ∧
    (s.buf ⟨0, nBuf_pos⟩).valid = true ∧ (s.buf ⟨0, nBuf_pos⟩).dirty = false ∧
    (s.buf ⟨0, nBuf_pos⟩).data ≠ s.disk (s.buf ⟨0, nBuf_pos⟩).key := by
  have runs : (replay (stepOver true)
      (takeOthers id ++ [(.get 0 1 30, 0x40), (.lock 0, 0x40), (.read 0 1 30 (sevens (1, 0)), 0x41)])
      (booted Nat sevens)).any
      (fun s => (s.buf ⟨0, nBuf_pos⟩).valid = true ∧ (s.buf ⟨0, nBuf_pos⟩).dirty = false ∧
        (s.buf ⟨0, nBuf_pos⟩).data ≠ s.disk (s.buf ⟨0, nBuf_pos⟩).key) = true := by
    decide +kernel
  obtain ⟨s, history, stale⟩ : ∃ s, RanOver true sevens _ s ∧ _ := History.of_replay rfl runs
  rw [List.reverse_append] at history
  exact ⟨_, s, history, of_decide_eq_true stale⟩

end CacheState

end Xv6
