import Mathlib.Algebra.BigOperators.Ring.Finset
import Mathlib.Data.Finset.Card
import Xv6.Verif.GroupCommit

/-!
# The log-space reservation

`begin_op` reserves `MAXOPBLOCKS` log blocks for every operation it lets in, against a log of
`LOGSIZE` blocks. `mkfs` gives the log region `LOGSIZE` blocks including its header, so `log_write`
refuses once `LOGSIZE - 1` blocks are recorded: the reservation is one block short. It is sound for
operations of fewer than `MAXOPBLOCKS` blocks, and for no larger bound.
-/

namespace Xv6

open Lib Function

/-- The log region `mkfs` lays out: `LOGSIZE` blocks after the boot block and the super block. -/
def mkfsRegion : LogRegion where
  start := 2
  size := logSize
  header := by decide
  fits := by decide

namespace LogState

variable {Proc : Type} [DecidableEq Proc] {s t : LogState Proc} {past : List (LogEvent Proc)}

/-- The blocks on which `p` has called `log_write` in its latest operation. -/
def called (p : Proc) : List (LogEvent Proc) → Finset UInt32
  | [] => ∅
  | .enter q :: past => if q = p then ∅ else called p past
  | .check q b _ :: past => if q = p then insert b (called p past) else called p past
  | _ :: past => called p past

/-- Throughout a history, every operation calls `log_write` on at most `bound` distinct blocks. -/
def OpsWithin (bound : Nat) (past : List (LogEvent Proc)) : Prop :=
  ∀ earlier ∈ past.tails, ∀ p, (called p earlier).card ≤ bound

variable {bound : Nat}

/-- The bound holds of the operations as they stand. -/
theorem OpsWithin.now (within : OpsWithin bound past) (p : Proc) : (called p past).card ≤ bound :=
  within past ((List.mem_tails _ _).mpr List.suffix_rfl) p

/-- The bound holds of every earlier part. -/
theorem OpsWithin.tail {event : LogEvent Proc} (within : OpsWithin bound (event :: past)) :
    OpsWithin bound past := by
  intro earlier member
  have suffix := (List.mem_tails _ _).mp member
  exact within earlier ((List.mem_tails _ _).mpr (suffix.trans (List.suffix_cons ..)))

/-- A larger bound. -/
theorem OpsWithin.mono {bound' : Nat} (within : OpsWithin bound past) (le : bound ≤ bound') :
    OpsWithin bound' past :=
  fun earlier member p => (within earlier member p).trans le

/-- The blocks recorded since the latest commit started. -/
def transaction : List (LogEvent Proc) → Finset UInt32
  | [] => ∅
  | .logWrite _ b :: past => insert b (transaction past)
  | .commitStart _ _ :: _ => ∅
  | _ :: past => transaction past

/-! ## What is left of a reservation of `MAXOPBLOCKS - 1` blocks -/

/-- How many blocks a process may still add to the header in its operation. -/
def slack (lh : List UInt32) (used : Finset UInt32) : Phase → Nat
  | .inOp => (maxOpBlocks - 1) - used.card
  | .logging b => (maxOpBlocks - 1) - used.card + if b ∈ lh then 0 else 1
  | _ => 0

/-- What is left between calls. -/
@[simp] theorem slack_inOp (lh : List UInt32) (used : Finset UInt32) :
    slack lh used .inOp = (maxOpBlocks - 1) - used.card := rfl

/-- What is left during one. -/
@[simp] theorem slack_logging (lh : List UInt32) (used : Finset UInt32) (b : UInt32) :
    slack lh used (.logging b) =
      (maxOpBlocks - 1) - used.card + if b ∈ lh then 0 else 1 := rfl

/-- Outside an operation nothing is reserved. -/
theorem slack_outside {lh : List UInt32} {used : Finset UInt32} {phase : Phase}
    (out : ¬phase.InOp) : slack lh used phase = 0 := by
  cases phase with
  | inOp | logging => exact absurd trivial out
  | idle | beginning | asleep | committing => rfl

/-- A longer header only lowers what is left. -/
theorem slack_mono {lh lh' : List UInt32} (grows : ∀ b ∈ lh, b ∈ lh') (used : Finset UInt32)
    (phase : Phase) : slack lh' used phase ≤ slack lh used phase := by
  cases phase with
  | logging b =>
    simp only [slack_logging]
    by_cases logged : b ∈ lh
    · simp [logged, grows b logged]
    · simp only [logged, ↓reduceIte]
      split <;> omega
  | inOp | idle | beginning | asleep | committing => exact Nat.le_refl _

/-- The blocks of the running operations are in the header or about to be, and the header has room
for what is left of every reservation. -/
structure Reserved [Fintype Proc] (past : List (LogEvent Proc)) (s : LogState Proc) : Prop where
  /-- Between calls, what an operation has called `log_write` on is in the header. -/
  covered : ∀ p, s.phase p = .inOp → ∀ b ∈ called p past, b ∈ s.machine.lh
  /-- During a call, so is all but the block of the call. -/
  pending : ∀ p b, s.phase p = .logging b → b ∈ called p past ∧
    ∀ c ∈ called p past, c = b ∨ c ∈ s.machine.lh
  /-- The header with all that is reserved leaves one block of the region unused. -/
  room : s.n + ∑ p, slack s.machine.lh (called p past) (s.phase p) ≤ logSize - 2

namespace Reserved

variable [Fintype Proc]

variable {past' : List (LogEvent Proc)} {p : Proc} {b : UInt32} {event : LogEvent Proc}

/-- A step of one process while the header does not shrink. -/
theorem change (inv : Reserved past s) (p : Proc) (grows : ∀ b ∈ s.machine.lh, b ∈ t.machine.lh)
    (calls : ∀ q, q ≠ p → called q past' = called q past)
    (others : ∀ q, q ≠ p → t.phase q = s.phase q ∨ ¬(t.phase q).InOp)
    (covered : t.phase p = .inOp → ∀ b ∈ called p past', b ∈ t.machine.lh)
    (pending : ∀ b, t.phase p = .logging b → b ∈ called p past' ∧
      ∀ c ∈ called p past', c = b ∨ c ∈ t.machine.lh)
    (room : t.n + (∑ q, slack s.machine.lh (called q past) (s.phase q)) +
      slack t.machine.lh (called p past') (t.phase p) ≤
        logSize - 2 + slack s.machine.lh (called p past) (s.phase p)) : Reserved past' t := by
  refine ⟨fun q at_q => ?_, fun q b at_q => ?_, ?_⟩
  · by_cases here : q = p
    · subst here
      exact covered at_q
    · rw [calls q here]
      rcases others q here with same | out
      · exact fun b member => grows b (inv.covered q (same ▸ at_q) b member)
      · rw [at_q] at out
        exact absurd trivial out
  · by_cases here : q = p
    · subst here
      exact pending b at_q
    · rw [calls q here]
      rcases others q here with same | out
      · obtain ⟨member, rest⟩ := inv.pending q b (same ▸ at_q)
        exact ⟨member, fun c called => (rest c called).imp id (grows c)⟩
      · rw [at_q] at out
        exact absurd trivial out
  · have total := sum_change_le
      (fun q => slack s.machine.lh (called q past) (s.phase q))
      (fun q => slack t.machine.lh (called q past') (t.phase q)) p (fun q apart => by
        rcases others q apart with same | out
        · rw [same, calls q apart]
          exact slack_mono grows _ _
        · rw [slack_outside out]
          exact Nat.zero_le _)
    omega

/-- With no operation running there is only the header. -/
theorem quiet (out : ∀ p, ¬(s.phase p).InOp) (room : s.n ≤ logSize - 2) : Reserved past s := by
  refine ⟨fun p at_p => ?_, fun p b at_p => ?_, ?_⟩
  · exact absurd (by rw [at_p]; trivial) (out p)
  · exact absurd (by rw [at_p]; trivial) (out p)
  · rw [Finset.sum_eq_zero fun p _ => slack_outside (out p)]
    exact room

/-- What is left of all reservations is bounded by their number. -/
theorem slack_le (inv : Reserved past s) :
    ∑ p, slack s.machine.lh (called p past) (s.phase p) ≤
      (maxOpBlocks - 1) * tally Phase.InOp s.phase := by
  rw [tally, Finset.mul_sum]
  refine Finset.sum_le_sum fun p _ => ?_
  cases at_p : s.phase p with
  | inOp =>
    simp only [slack_inOp, Phase.InOp, ↓reduceIte]
    omega
  | logging b =>
    -- the block of the call has been counted, so it takes no more than was left before
    have one := Finset.card_pos.mpr ⟨b, (inv.pending p b at_p).1⟩
    have ten : maxOpBlocks = 10 := rfl
    simp only [slack_logging, Phase.InOp, ↓reduceIte]
    split <;> omega
  | idle | beginning | asleep | committing => exact Nat.zero_le _

/-- So the check of `log_write` succeeds. -/
theorem fits (inv : Reserved past s) : ¬s.TooBig mkfsRegion := by
  have room := inv.room
  have thirty : logSize = 30 := rfl
  have size : mkfsRegion.size = 30 := rfl
  unfold TooBig
  omega

/-- `begin_op` makes a reservation. -/
theorem enter (inv : Reserved past s) (shake : s.Handshake) (begins : s.phase p = .beginning)
    (free : ¬s.MustWait) :
    Reserved (.enter p :: past) ({ s with outstanding := s.outstanding + 1 }.goto p .inOp) := by
  refine inv.change p (fun _ => id) (fun q apart => ?_) (fun q apart => ?_) (fun _ b member => ?_)
    (fun b at_p => ?_) ?_
  · simp [called, apart.symm]
  · exact Or.inl (by simp [update_of_ne apart])
  · simp [called] at member
  · simp at at_p
  · have left := inv.slack_le
    have counted := shake.counted
    have reserved : (s.n : Int) + (s.outstanding + 1) * maxOpBlocks ≤ logSize := by
      simp only [MustWait, not_or] at free
      omega
    -- with no operation running the header is empty
    have empty : tally Phase.InOp s.phase = 0 → s.n = 0 := fun none => by
      have zero : s.outstanding = 0 := by omega
      have free : s.committing = false := by
        simpa [MustWait] using fun raised => free (Or.inl raised)
      simp [n, shake.empty free zero]
    have before : slack s.machine.lh (called p past) (s.phase p) = 0 := by rw [begins]; rfl
    have ten : maxOpBlocks = 10 := rfl
    have thirty : logSize = 30 := rfl
    rw [ten] at left reserved
    rw [before]
    simp only [goto_machine, goto_phase, update_self, slack_inOp, called, ↓reduceIte,
      Finset.card_empty, ten, thirty, n] at reserved empty ⊢
    omega

/-- `log_write` makes its checks. -/
theorem check (inv : Reserved past s) {data : Block} (inside : s.phase p = .inOp)
    (within : (called p (.check p b data :: past)).card ≤ maxOpBlocks - 1) :
    Reserved (.check p b data :: past)
      ({ s with machine.cache := update s.machine.cache b.toNat data }.goto p
        (.logging b)) := by
  have grown : called p (.check p b data :: past) = insert b (called p past) := by simp [called]
  refine inv.change p (fun _ => id) (fun q apart => ?_) (fun q apart => ?_) (fun at_p => ?_)
    (fun c at_p => ?_) ?_
  · simp [called, apart.symm]
  · exact Or.inl (by simp [update_of_ne apart])
  · simp at at_p
  · obtain rfl : b = c := by simpa using at_p
    rw [grown]
    refine ⟨Finset.mem_insert_self b _, fun c member => ?_⟩
    exact (Finset.mem_insert.mp member).imp id (inv.covered p inside c)
  · have room := inv.room
    have before : slack s.machine.lh (called p past) (s.phase p) =
        maxOpBlocks - 1 - (called p past).card := by rw [inside]; rfl
    rw [grown] at within ⊢
    simp only [n, goto_machine, goto_phase, update_self, slack_logging, before] at room ⊢
    by_cases logged : b ∈ s.machine.lh
    · have more := Finset.card_le_card (Finset.subset_insert b (called p past))
      simp only [logged, ↓reduceIte]
      omega
    · -- a block that is not in the header has not been called before
      have fresh : b ∉ called p past := fun member => logged (inv.covered p inside b member)
      rw [Finset.card_insert_of_notMem fresh] at within ⊢
      simp only [logged, ↓reduceIte]
      omega

/-- Absorption adds a block that is new, and nothing else. -/
theorem length_absorb (b : UInt32) (blocks : List UInt32) :
    (absorb b blocks).length = blocks.length + if b ∈ blocks then 0 else 1 := by
  induction blocks with
  | nil => rfl
  | cons c rest ih =>
    unfold absorb
    split
    · rename_i same
      simp [same]
    · rename_i apart
      simp only [List.length_cons, ih, List.mem_cons, Ne.symm apart, false_or]
      omega

/-- It adds the block to the header. -/
theorem logWrite (inv : Reserved past s) (logging : s.phase p = .logging b) :
    Reserved (.logWrite p b :: past) (s.logRecord p b) := by
  refine inv.change p (fun c member => mem_absorb.mpr (.inr member)) (fun q _ => rfl)
    (fun q apart => ?_) (fun _ c member => ?_) (fun c at_p => ?_) ?_
  · exact Or.inl (by simp [logRecord, update_of_ne apart])
  · rcases (inv.pending p b logging).2 c member with rfl | logged
    · exact mem_absorb.mpr (.inl rfl)
    · exact mem_absorb.mpr (.inr logged)
  · simp [logRecord] at at_p
  · have room := inv.room
    have length := length_absorb b s.machine.lh
    have before : slack s.machine.lh (called p past) (s.phase p) = maxOpBlocks - 1 -
        (called p past).card + if b ∈ s.machine.lh then 0 else 1 := by rw [logging]; rfl
    rw [before]
    simp only [n, logRecord, goto_machine, goto_phase, update_self, slack_inOp,
      called] at room ⊢
    omega

/-- A process leaves its operation, or moves outside one. -/
theorem leave (inv : Reserved past s) (p : Proc) {phase : Phase} (same : t.machine = s.machine)
    (calls : ∀ q, called q (event :: past) = called q past)
    (others : ∀ q, q ≠ p → t.phase q = s.phase q ∨ ¬(t.phase q).InOp) (moved : t.phase p = phase)
    (out : ¬phase.InOp) : Reserved (event :: past) t := by
  refine inv.change p (fun b member => same ▸ member) (fun q _ => calls q) others (fun at_p => ?_)
    (fun b at_p => ?_) ?_
  · rw [← moved, at_p] at out
    exact absurd trivial out
  · rw [← moved, at_p] at out
    exact absurd trivial out
  · have room := inv.room
    rw [moved, slack_outside out]
    simp only [n, same] at *
    omega

/-- A step of `commit` does not refill the header. -/
theorem commit (inv : Reserved past s) (shake : s.Handshake) {pc pc' : CommitPc} {m : Machine}
    (commits : s.phase p = .committing pc)
    (stepped : LogState.commitStep mkfsRegion s.machine pc = some (m, pc')) :
    Reserved past' ({ s with machine := m }.goto p (.committing pc')) := by
  have after := shake.commitStep commits stepped
  refine quiet (after.not_inOp (shake.flagged p pc commits)) ?_
  have room := inv.room
  rcases (Handshake.commitStep_lh stepped).1 with same | empty
  · simp only [n, goto_machine, same] at room ⊢
    omega
  · simp [n, goto_machine, empty]

/-- Every step of operations of fewer than `MAXOPBLOCKS` blocks keeps the reservation. -/
theorem step (inv : Reserved past s) (shake : s.Handshake)
    (within : ∀ p, (called p (event :: past)).card ≤ maxOpBlocks - 1)
    (taken : LogState.step mkfsRegion s event = some t) : Reserved (event :: past) t := by
  have elsewhere (p : Proc) (phase : Phase) (q : Proc) (apart : q ≠ p) :
      update s.phase p phase q = s.phase q ∨
        ¬(update s.phase p phase q).InOp :=
    Or.inl (update_of_ne apart _ _)
  have woken (p q : Proc) (apart : q ≠ p) :
      update s.wakeup.phase p .idle q = s.phase q ∨
        ¬(update s.wakeup.phase p .idle q).InOp := by
    rw [update_of_ne apart]
    simp only [wakeup]
    cases s.phase q <;> simp [Phase.wakeup, Phase.InOp]
  cases move_of_step taken with
  | @call p =>
    exact inv.leave p rfl (fun _ => rfl) (elsewhere p _) (update_self ..) id
  | @doze p =>
    exact inv.leave p rfl (fun _ => rfl) (elsewhere p _) (update_self ..) id
  | enter begins free => exact inv.enter shake begins free
  | tooBig _ full => exact absurd full inv.fits
  | outside inside none =>
    have positive := shake.outstanding_pos (p := _) (by rw [inside]; trivial)
    omega
  | check inside => exact inv.check inside (within _)
  | logWrite logging => exact inv.logWrite logging
  | endBusy inside raised => exact absurd (by rw [inside]; trivial) (shake.not_inOp raised _)
  | @endLast p =>
    exact inv.leave p rfl (fun _ => rfl) (elsewhere p _) (update_self ..) id
  | @endMore p =>
    exact inv.leave p rfl (fun _ => rfl) (woken p) (update_self ..) id
  | commitStart commits stepped => exact inv.commit shake commits stepped
  | commitStep commits stepped => exact inv.commit shake commits stepped
  | @finish p =>
    exact inv.leave p rfl (fun _ => rfl) (woken p) (update_self ..) id

/-- The reservation holds after every history of operations of fewer than `MAXOPBLOCKS` blocks. -/
theorem ran (history : Ran mkfsRegion past s) (within : OpsWithin (maxOpBlocks - 1) past) :
    Reserved past s := by
  induction history with
  | nil start =>
    refine quiet (fun p => by rw [start.phase p]; exact id) ?_
    simp [n, start.lh]
  | @cons past s t event before taken ih =>
    exact (ih within.tail).step (Handshake.ran before) within.now taken

end Reserved

/-! ## When `log_write` refuses -/

/-- Absorption keeps the blocks apart. -/
theorem nodup_absorb {b : UInt32} {blocks : List UInt32} (once : blocks.Nodup) :
    (absorb b blocks).Nodup := by
  induction blocks with
  | nil => exact List.nodup_singleton b
  | cons c rest ih =>
    unfold absorb
    split
    · rename_i same
      rwa [← same]
    · rename_i apart
      obtain ⟨fresh, once⟩ := List.nodup_cons.mp once
      refine List.nodup_cons.mpr ⟨fun member => ?_, ih once⟩
      rcases mem_absorb.mp member with rfl | old
      · exact apart rfl
      · exact fresh old

/-- The header against the history: until a commit starts it holds the blocks recorded since the
previous one, each once. -/
structure Recorded (past : List (LogEvent Proc)) (s : LogState Proc) : Prop where
  once : s.machine.lh.Nodup
  /-- As long as no commit is past its start, the header is what was recorded. -/
  agrees : (∀ p pc, s.phase p = .committing pc → pc = .start) →
    ∀ b, b ∈ s.machine.lh ↔ b ∈ transaction past
  /-- Nothing has been recorded since a commit past its start. -/
  started : ∀ p pc, s.phase p = .committing pc → pc ≠ .start → transaction past = ∅

namespace Recorded

variable {region : LogRegion}

variable {event : LogEvent Proc} {pc pc' : CommitPc} {p : Proc}

omit [DecidableEq Proc] in
/-- A step that touches neither the header nor a committing process. -/
theorem keep (inv : Recorded past s) (same : t.machine.lh = s.machine.lh)
    (recorded : transaction (event :: past) = transaction past)
    (commits : ∀ p pc, t.phase p = .committing pc ↔ s.phase p = .committing pc) :
    Recorded (event :: past) t := by
  refine ⟨same ▸ inv.once, fun early b => ?_, fun p pc at_p started => ?_⟩
  · rw [same, recorded]
    exact inv.agrees (fun p pc at_p => early p pc ((commits p pc).mpr at_p)) b
  · rw [recorded]
    exact inv.started p pc ((commits p pc).mp at_p) started

omit [DecidableEq Proc] in
/-- `commit` does not go back to its start. -/
theorem commitStep_ne_start {m m' : Machine}
    (stepped : LogState.commitStep region m pc = some (m', pc')) : pc' ≠ .start := by
  rintro rfl
  cases pc with
  | start | writeLog | installTrans =>
    simp only [LogState.commitStep] at stepped
    split at stepped <;> simp at stepped
  | writeHead | clear | erase | done => simp [LogState.commitStep] at stepped

/-- A step of `commit`. -/
theorem commit (inv : Recorded past s) {m : Machine}
    (stepped : LogState.commitStep region s.machine pc = some (m, pc'))
    (none : transaction (event :: past) = ∅) :
    Recorded (event :: past) ({ s with machine := m }.goto p (.committing pc')) := by
  refine ⟨?_, fun early => ?_, fun _ _ _ _ => none⟩
  · rcases (Handshake.commitStep_lh stepped).1 with same | empty
    · rw [goto_machine, same]
      exact inv.once
    · rw [goto_machine, empty]
      exact List.nodup_nil
  · exact absurd (early p pc' (by simp)) (commitStep_ne_start stepped)

/-- Every step keeps the header and the history together. -/
theorem step [Fintype Proc] (inv : Recorded past s) (shake : s.Handshake)
    (taken : LogState.step region s event = some t) : Recorded (event :: past) t := by
  have idle (p : Proc) (phase : Phase) (out : ∀ pc, s.phase p ≠ .committing pc)
      (out' : ∀ pc, phase ≠ .committing pc) (q : Proc) (pc : CommitPc) :
      update s.phase p phase q = .committing pc ↔ s.phase q = .committing pc := by
    by_cases here : q = p
    · subst here
      simp [out pc, out' pc]
    · rw [update_of_ne here]
  cases move_of_step taken with
  | call at_p => exact inv.keep rfl rfl (idle _ _ (by simp [at_p]) (by simp))
  | doze at_p => exact inv.keep rfl rfl (idle _ _ (by simp [at_p]) (by simp))
  | enter at_p => exact inv.keep rfl rfl (idle _ _ (by simp [at_p]) (by simp))
  | tooBig | outside | endBusy => exact inv.keep rfl rfl fun _ _ => Iff.rfl
  | check at_p => exact inv.keep rfl rfl (idle _ _ (by simp [at_p]) (by simp))
  | @logWrite p c logging =>
    have nobody := shake.no_committer (p := p) (by rw [logging]; trivial)
    refine ⟨nodup_absorb inv.once, fun _ b => ?_, fun q pc at_q => ?_⟩
    · have agrees := inv.agrees (fun q pc at_q => absurd at_q (nobody q pc)) b
      simp only [logRecord, goto_machine, transaction, Finset.mem_insert, mem_absorb, agrees]
    · exact absurd ((idle p _ (by simp [logging]) (by simp) q pc).mp at_q) (nobody q pc)
  | @endLast p inside =>
    have nobody := shake.no_committer (p := p) (by rw [inside]; trivial)
    refine ⟨inv.once, fun _ => inv.agrees fun q pc at_q => absurd at_q (nobody q pc),
      fun q pc at_q late => ?_⟩
    by_cases here : q = p
    · subst here
      exact absurd (by simpa using at_q.symm) late
    · rw [goto_phase, update_of_ne here] at at_q
      exact absurd at_q (nobody q pc)
  | @endMore p inside =>
    refine inv.keep rfl rfl fun q pc => ?_
    by_cases here : q = p
    · subst here
      simp [inside]
    · rw [goto_phase, update_of_ne here, wakeup_committing]
  | commitStart _ stepped => exact inv.commit stepped rfl
  | commitStep commits stepped late => exact inv.commit stepped (inv.started _ _ commits late)
  | @finish p done =>
    have empty := shake.cleared p (Or.inr done)
    have none : transaction past = ∅ := inv.started p _ done (by simp)
    refine ⟨inv.once, fun _ b => ?_, fun _ _ _ _ => none⟩
    have same : transaction (.finish p :: past) = transaction past := rfl
    rw [same, none]
    simp [wakeup, empty]

/-- The header and the history agree in every reachable state. -/
theorem ran [Fintype Proc] (history : Ran region past s) : Recorded past s := by
  refine History.invariant Recorded (fun s start => ?_)
    (fun _ _ _ _ before inv taken => inv.step (Handshake.ran before) taken) history
  refine ⟨by rw [start.lh]; exact List.nodup_nil, fun _ b => ?_, fun _ _ _ _ => rfl⟩
  simp [start.lh, transaction]

omit [DecidableEq Proc] in
/-- While an operation runs, `log.lh.n` is the number of blocks recorded since the last commit. -/
theorem n_eq_card [Fintype Proc] (inv : Recorded past s) (shake : s.Handshake)
    (inside : (s.phase p).InOp) : s.n = (transaction past).card := by
  have same : s.machine.lh.toFinset = transaction past := by
    ext b
    rw [List.mem_toFinset]
    exact inv.agrees (fun q pc at_q => absurd at_q (shake.no_committer inside q pc)) b
  rw [← same, List.toFinset_card_of_nodup inv.once, n]

end Recorded

/-- The machine has panicked in `log_write` exactly when the latest call was made with `LOGSIZE - 1`
distinct blocks recorded since the last commit. -/
theorem tooBig_iff [Fintype Proc] (history : Ran mkfsRegion past s) :
    s.panicked = some "too big a transaction" ↔
      ∃ p b data earlier, past = .check p b data :: earlier ∧
        logSize - 1 ≤ (transaction earlier).card := by
  have thirty : logSize = 30 := rfl
  have size : mkfsRegion.size = 30 := rfl
  cases history with
  | nil start => simp [start.panicked]
  | @cons past s _ event before taken =>
    have shake := Handshake.ran before
    have count {p : Proc} (inside : s.phase p = .inOp) : s.n = (transaction past).card :=
      (Recorded.ran before).n_eq_card shake (p := p) (by rw [inside]; trivial)
    have running : s.panicked = none := by
      cases stopped : s.panicked with
      | none => rfl
      | some message => simp [LogState.step, stopped] at taken
    cases move_of_step taken with
    | @tooBig p b data inside full =>
      have count := count inside
      have many : logSize - 1 ≤ (transaction past).card := by
        unfold TooBig at full
        omega
      simp only [panic, true_iff]
      exact ⟨p, b, data, past, rfl, many⟩
    | @outside p b data inside none =>
      have positive := shake.outstanding_pos (p := p) (by rw [inside]; trivial)
      omega
    | @check p b data inside fits =>
      have count := count inside
      simp only [goto_panicked, running, reduceCtorEq, false_iff]
      rintro ⟨_, _, _, _, ⟨⟩, many⟩
      unfold TooBig at fits
      omega
    | endBusy inside raised => exact absurd (by rw [inside]; trivial) (shake.not_inOp raised _)
    | call | doze | enter | logWrite | endLast | endMore | commitStart | commitStep | finish =>
      simp [running, logRecord, wakeup]

/-- Three processes are let in together. The first two call `log_write` on ten blocks each, the
third on nine, and then on its tenth. -/
def overfull : List (LogEvent (Fin 3)) :=
  [.call 0, .enter 0, .call 1, .enter 1, .call 2, .enter 2] ++
  (List.range 29).flatMap (fun i =>
    [.check (Fin.ofNat 3 (i / 10)) (UInt32.ofNat (100 + i)) Bytes.zero,
     .logWrite (Fin.ofNat 3 (i / 10)) (UInt32.ofNat (100 + i))]) ++
  [.check 2 129 Bytes.zero]

/-- The run exists, keeps to `MAXOPBLOCKS` blocks an operation and ends in the panic. -/
theorem overfull_ran : ∃ s, Ran mkfsRegion overfull.reverse s ∧
    s.panicked = some "too big a transaction" := by
  have ends : (replay (step mkfsRegion) overfull (booted (Fin 3))).any
      (fun s => decide (s.panicked = some "too big a transaction")) = true := by
    decide +kernel
  obtain ⟨s, history, stopped⟩ := History.of_replay booted_initial ends
  exact ⟨s, history, of_decide_eq_true stopped⟩

/-- No operation has more than `MAXOPBLOCKS` blocks. -/
theorem overfull_within : OpsWithin maxOpBlocks overfull.reverse := by
  unfold OpsWithin
  decide +kernel

/-! ## The theorem -/

/-- **When the reservation is sound.** With the geometry `mkfs` writes, a bound on the distinct
blocks an operation calls `log_write` on keeps every run of any number of processes from the panic
exactly when it is below `MAXOPBLOCKS`. A run is in the panic exactly when its latest step is a call
made after the operations since the last commit had recorded `LOGSIZE - 1` distinct blocks. -/
theorem log_write_too_big_iff (bound : Nat) :
    ((∀ (Proc : Type) [DecidableEq Proc] [Fintype Proc] (past : List (LogEvent Proc))
      (s : LogState Proc), Ran mkfsRegion past s → OpsWithin bound past →
        s.panicked ≠ some "too big a transaction") ↔ bound < maxOpBlocks) ∧
    ∀ (Proc : Type) [DecidableEq Proc] [Fintype Proc] (past : List (LogEvent Proc))
      (s : LogState Proc), Ran mkfsRegion past s →
        (s.panicked = some "too big a transaction" ↔
          ∃ p b data earlier, past = .check p b data :: earlier ∧
            logSize - 1 ≤ (transaction earlier).card) := by
  refine ⟨⟨fun sound => ?_, fun small Proc _ _ past s history within stopped => ?_⟩,
    fun Proc _ _ past s history => tooBig_iff history⟩
  · by_contra large
    obtain ⟨s, history, stopped⟩ := overfull_ran
    exact sound (Fin 3) _ s history (overfull_within.mono (Nat.le_of_not_lt large)) stopped
  · obtain ⟨p, b, data, earlier, rfl, many⟩ := (tooBig_iff history).mp stopped
    cases history with
    | @cons _ s _ _ before taken =>
      have inside : s.phase p = .inOp := by
        cases move_of_step taken with
        | tooBig inside | outside inside | check inside => exact inside
      have count := (Recorded.ran before).n_eq_card (Handshake.ran before) (p := p)
        (by rw [inside]; trivial)
      have room := (Reserved.ran before (within.tail.mono (Nat.le_sub_one_of_lt small))).room
      have thirty : logSize = 30 := rfl
      omega

/-- Three operations of ten blocks each, let in together, reach the panic. -/
theorem overfull_panics : ∃ (past : List (LogEvent (Fin 3))) (s : LogState (Fin 3)),
    Ran mkfsRegion past s ∧ OpsWithin maxOpBlocks past ∧
      s.panicked = some "too big a transaction" := by
  obtain ⟨s, history, stopped⟩ := overfull_ran
  exact ⟨_, s, history, overfull_within, stopped⟩

/-! ## Sleepers -/

/-- If every sleeper of `begin_op` has to wait, a step leaves it so: what could end a wait wakes all
sleepers. -/
theorem mustWait_step [Fintype Proc] {region : LogRegion} (shake : s.Handshake)
    (waits : ∀ p, s.phase p = .asleep → s.MustWait) {event : LogEvent Proc}
    (taken : step region s event = some t) {p : Proc} (sleeps : t.phase p = .asleep) :
    t.MustWait := by
  have slept {q : Proc} {phase : Phase} (moved : update s.phase q phase p = .asleep)
      (other : phase ≠ .asleep) : s.MustWait := by
    by_cases same : p = q
    · rw [same, update_self] at moved
      exact absurd moved other
    · exact waits p (by rwa [update_of_ne same] at moved)
  cases move_of_step taken with
  | call | check => exact slept sleeps nofun
  | doze =>
    unfold step at taken
    split at taken
    · cases taken
    · exact (Option.ite_none_right_eq_some.mp taken).1.2
  | enter _ free => exact absurd (slept sleeps nofun) free
  | tooBig | outside => exact waits p sleeps
  | @logWrite _ b =>
    have length := Reserved.length_absorb b s.machine.lh
    refine (slept sleeps nofun).imp id fun full => ?_
    simp only [n, logRecord, goto_machine, goto_outstanding] at full ⊢
    omega
  | endBusy _ raised => exact .inl raised
  | endLast => exact .inl rfl
  | commitStart commits | commitStep commits => exact .inl (shake.flagged _ _ commits)
  | endMore | finish =>
    simp only [goto_phase, update_apply, wakeup] at sleeps
    split at sleeps
    · cases sleeps
    · cases phase : s.phase p <;> simp [phase, Phase.wakeup] at sleeps

/-- **No process oversleeps in `begin_op`.** In every run a sleeper has to wait still, and the log
commits or a process is inside an operation, so that an `end_op` is to come, which calls `wakeup`.
-/
theorem beginOp_sleeper_waits [Fintype Proc] {region : LogRegion} (history : Ran region past s)
    {p : Proc} (sleeps : s.phase p = .asleep) :
    s.MustWait ∧ (s.committing = true ∨ ∃ q, (s.phase q).InOp) := by
  have waits : s.MustWait := by
    refine History.invariant (fun _ s => ∀ p, s.phase p = .asleep → s.MustWait)
      (fun s start p sleeps => ?_)
      (fun _ _ _ _ before waits taken _ => mustWait_step (Handshake.ran before) waits taken)
      history p sleeps
    rw [start.phase p] at sleeps
    cases sleeps
  refine ⟨waits, or_iff_not_imp_left.mpr fun lowered => ?_⟩
  by_contra outside
  have shake := Handshake.ran history
  have idle : s.outstanding = 0 := by
    rw [shake.counted, tally]
    simp [not_exists.mp outside]
  have empty := shake.empty (eq_false_of_ne_true lowered) idle
  simp [MustWait, n, lowered, idle, empty, maxOpBlocks, logSize] at waits

/-- A second process waits for the commit of the first. -/
theorem beginOp_sleeper_waits_commit : ∃ (past : List (LogEvent (Fin 2))) (s : LogState (Fin 2)),
    Ran mkfsRegion past s ∧ s.phase 1 = .asleep ∧ s.MustWait := by
  have ends : (replay (step mkfsRegion) [.call 0, .enter 0, .endOp 0, .call 1, .doze 1]
      (booted (Fin 2))).any (fun s => decide (s.phase 1 = .asleep)) = true := by decide +kernel
  obtain ⟨s, history, held⟩ := History.of_replay booted_initial ends
  have sleeps := of_decide_eq_true held
  exact ⟨_, s, history, sleeps, (beginOp_sleeper_waits history sleeps).1⟩

end LogState

end Xv6
