import Mathlib.Data.Fintype.Card
import Xv6.Kernel.FsLoad
import Xv6.Verif.BufferCache

/-!
# Whether `bget` finds a buffer

A buffer cannot be recycled while a client uses it or while the log has it pinned. The buffers that
the log has pinned are for blocks of `log.lh`, so `bget` finds a buffer as long as the logged blocks
and the other buffers in use are fewer than the buffers. Nothing in the kernel keeps them so.
-/

namespace Xv6

open Lib Function

/-- The buffer is for a logged block. -/
abbrev Buf.Logged (lh : List UInt32) (b : Buf) : Prop := b.dev = rootDev ∧ b.blockno ∈ lh

namespace CacheState

variable {Client : Type} [DecidableEq Client] {driver : Driver} {disk : UInt32 × UInt32 → Block}
  {past : List (CacheEvent Client)} {s t : CacheState Client}

/-- A buffer is for a block. -/
abbrev Cached (s : CacheState Client) (dev blockno : UInt32) : Prop :=
  ∃ i, (s.buf i).key = (dev, blockno)

/-- How many buffers are in use for blocks that are not logged. -/
def inUse (lh : List UInt32) (s : CacheState Client) : Nat :=
  tally (fun b : Buf => b.refcnt ≠ 0 ∧ ¬b.Logged lh) s.buf

/-! ## Dirty buffers -/

variable {i : Fin nBuf} {event : CacheEvent Client} {lh : List UInt32} {disksize : Nat}

/-- A step is made in a machine that runs. -/
theorem runs_of_step (taken : s.step driver event = some t) : s.panicked = none := by
  unfold step at taken
  split at taken
  · cases taken
  · rename_i running
    simpa using running

variable [Fintype Client]

/-- Only `log_write` makes a buffer dirty, and `bwrite` makes one clean. -/
theorem dirty_of_step (inv : Coherent disk past s) (taken : s.step driver event = some t)
    (runs : t.panicked = none) (dirty : (t.buf i).dirty = true) :
    ((s.buf i).dirty = true ∧ ∀ c, event = .bwrite c → (s.session c).buf ≠ some i) ∨
    ∃ c, event = .logWrite c ∧ (s.session c).buf = some i := by
  cases inv.move_of_step taken with
  | halt => cases runs
  | @touch _ j b _ at_j marks _ =>
    rw [at_j.buf] at dirty
    by_cases here : i = j
    · rw [here, update_self] at dirty
      rw [here]
      rcases marks runs dirty with ⟨before, other⟩ | log
      · exact .inl ⟨before, fun c is => absurd is (other c)⟩
      · exact .inr log
    · rw [update_of_ne here] at dirty
      refine .inl ⟨dirty, ?_⟩
      rintro c rfl
      exact (at_j.uses i here).1

omit [DecidableEq Client] in
/-- A panic leaves the cache as it is. -/
theorem Coherent.panic (inv : Coherent disk past s) (message : String) :
    Coherent disk past (s.panic message) :=
  ⟨inv.ring, inv.counted, inv.matched, inv.locked, inv.alone, inv.unique, inv.named, inv.filled,
    inv.returned, inv.fresh, inv.backed⟩

omit [DecidableEq Client] in
/-- A buffer that a client uses is counted. -/
theorem Coherent.used (inv : Coherent disk past s) {c : Client}
    (uses : (s.session c).buf = some i) : 0 < (s.buf i).refcnt := by
  rw [inv.counted]
  exact tally_pos (fun session : Session => session.buf = some i) uses

/-! ## Room -/

omit [DecidableEq Client] in
/-- The buffers for logged blocks are no more than these blocks. -/
theorem logged_le (inv : Coherent disk past s) (lh : List UInt32) :
    tally (Buf.Logged lh) s.buf ≤ lh.length := by
  rw [tally_eq_card]
  refine Nat.le_trans (Finset.card_le_card_of_injOn (t := lh.toFinset)
    (fun i => (s.buf i).blockno) ?_ ?_) lh.toFinset_card_le
  · intro i member
    exact List.mem_toFinset.mpr (Finset.mem_filter.mp member).2.2
  · intro i first j second same
    have first := (Finset.mem_filter.mp first).2.1
    have second := (Finset.mem_filter.mp second).2.1
    apply inv.unique i j
    · rw [first]
      decide
    · exact Prod.ext (first.trans second.symm) same

omit [DecidableEq Client] in
/-- `bget` finds the block, or a buffer as long as the logged blocks and the other buffers in use
are fewer than the buffers. -/
theorem bget_finds (inv : Coherent disk past s)
    (logged : ∀ i, (s.buf i).dirty = true → (s.buf i).Logged lh) {dev blockno : UInt32}
    (room : s.Cached dev blockno ∨ s.inUse lh + lh.length < nBuf) :
    s.bget dev blockno ≠ some none := by
  intro none
  rcases bget_spec inv.ring dev blockno with ⟨j, found, -⟩ | ⟨away, ⟨j, found, -⟩ | ⟨-, busy⟩⟩
  · rw [found] at none
    cases none
  · rw [found] at none
    cases none
  rcases room with ⟨i, cached⟩ | room
  · exact away i cached
  have cover : (Finset.univ : Finset (Fin nBuf)) ⊆
      (Finset.univ.filter fun i => (s.buf i).refcnt ≠ 0 ∧ ¬(s.buf i).Logged lh) ∪
        Finset.univ.filter fun i => (s.buf i).Logged lh := by
    intro i _
    by_cases member : (s.buf i).Logged lh
    · exact Finset.mem_union_right _ (Finset.mem_filter.mpr ⟨Finset.mem_univ i, member⟩)
    · refine Finset.mem_union_left _ (Finset.mem_filter.mpr ⟨Finset.mem_univ i, ?_, member⟩)
      exact fun unused => busy i ⟨unused, by simpa using mt (logged i) member⟩
  have total := (Finset.card_le_card cover).trans (Finset.card_union_le _ _)
  rw [Finset.card_univ, Fintype.card_fin] at total
  have logged := logged_le inv lh
  rw [tally_eq_card] at logged
  rw [inUse, tally_eq_card] at room
  omega

/-- Only `bget` panics for want of a buffer. -/
theorem out_of_buffers (inv : Coherent disk past s)
    (taken : s.step (memide disksize) event = some t)
    (panics : t.panicked = some "bget: no buffers") :
    ∃ c dev blockno, event = .get c dev blockno ∧ s.bget dev blockno = some none := by
  have refuses (dev blockno : UInt32) : memide disksize dev blockno ≠ some "bget: no buffers" := by
    unfold memide
    split
    · decide
    · split
      · decide
      · simp
  cases inv.move_of_step taken with
  | halt message _ cause =>
    rcases cause (Option.some.inj panics) with ⟨dev, blockno, refused⟩ | got
    · exact absurd (refused.trans panics) (refuses dev blockno)
    · exact got
  | touch _ _ cause =>
    rcases cause with same | ⟨dev, blockno, same⟩
    · rw [same, runs_of_step taken] at panics
      cases panics
    · exact absurd (same.symm.trans panics) (refuses dev blockno)

end CacheState

end Xv6
