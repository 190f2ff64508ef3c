import Xv6.Lib.Tally
import Xv6.Kernel.LogOps

/-!
# Group commit never splits or mixes operations

The handshake between `log.outstanding` and `log.committing` as an invariant of every run:
the counter counts the processes inside an operation, only one process commits, and it does so
while the counter is zero. The block list then covers everything logged since the last commit,
so the first commit after an operation's `end_op` holds all of its blocks.
-/

namespace Xv6

open Lib Function

namespace LogState

variable {Proc : Type} [DecidableEq Proc] {region : LogRegion} {s t : LogState Proc}

section

variable (p : Proc) (phase : Phase)

/-- A move leaves the machine. -/
@[simp] theorem goto_machine : (s.goto p phase).machine = s.machine := rfl

/-- It leaves `log.outstanding`. -/
@[simp] theorem goto_outstanding : (s.goto p phase).outstanding = s.outstanding := rfl

/-- It leaves `log.committing`. -/
@[simp] theorem goto_committing : (s.goto p phase).committing = s.committing := rfl

/-- It does not stop the machine. -/
@[simp] theorem goto_panicked : (s.goto p phase).panicked = s.panicked := rfl

/-- It changes one phase. -/
@[simp] theorem goto_phase : (s.goto p phase).phase = update s.phase p phase := rfl

end

omit [DecidableEq Proc] in
/-- Waking processes does not move them into or out of an operation. -/
theorem wakeup_inOp (p : Proc) : (s.wakeup.phase p).InOp ↔ (s.phase p).InOp := by
  simp only [wakeup]
  cases s.phase p <;> simp [Phase.wakeup, Phase.InOp]

omit [DecidableEq Proc] in
/-- Waking processes leaves a committing process where it is. -/
theorem wakeup_committing (p : Proc) (pc : CommitPc) :
    s.wakeup.phase p = .committing pc ↔ s.phase p = .committing pc := by
  simp only [wakeup]
  cases s.phase p <;> simp [Phase.wakeup]

/-- The step function as a relation: what each label needs, and what it does. -/
inductive Move (region : LogRegion) (s : LogState Proc) : LogEvent Proc → LogState Proc → Prop where
  | call {p : Proc} (idle : s.phase p = .idle) : Move region s (.call p) (s.goto p .beginning)
  | doze {p : Proc} (begins : s.phase p = .beginning) : Move region s (.doze p) (s.goto p .asleep)
  | enter {p : Proc} (begins : s.phase p = .beginning) (free : ¬s.MustWait) :
      Move region s (.enter p) ({ s with outstanding := s.outstanding + 1 }.goto p .inOp)
  | tooBig {p : Proc} {b : UInt32} {data : Block} (inside : s.phase p = .inOp)
      (full : s.TooBig region) : Move region s (.check p b data) (s.panic "too big a transaction")
  | outside {p : Proc} {b : UInt32} {data : Block} (inside : s.phase p = .inOp)
      (none : s.outstanding < 1) :
      Move region s (.check p b data) (s.panic "log_write outside of trans")
  | check {p : Proc} {b : UInt32} {data : Block} (inside : s.phase p = .inOp)
      (fits : ¬s.TooBig region) :
      Move region s (.check p b data)
        ({ s with machine.cache := update s.machine.cache b.toNat data }.goto p
          (.logging b))
  | logWrite {p : Proc} {b : UInt32} (logging : s.phase p = .logging b) :
      Move region s (.logWrite p b) (s.logRecord p b)
  | endBusy {p : Proc} (inside : s.phase p = .inOp) (raised : s.committing = true) :
      Move region s (.endOp p)
        ({ s with outstanding := s.outstanding - 1 }.panic "log.committing")
  | endLast {p : Proc} (inside : s.phase p = .inOp) (last : s.outstanding - 1 = 0) :
      Move region s (.endOp p)
        ({ s with outstanding := s.outstanding - 1, committing := true }.goto p
          (.committing .start))
  | endMore {p : Proc} (inside : s.phase p = .inOp) (more : s.outstanding - 1 ≠ 0) :
      Move region s (.endOp p)
        ({ s with outstanding := s.outstanding - 1 }.wakeup.goto p .idle)
  | commitStart {p : Proc} {m : Machine} {pc : CommitPc} (commits : s.phase p = .committing .start)
      (stepped : LogState.commitStep region s.machine .start = some (m, pc)) :
      Move region s (.commitStart p s.machine.lh)
        ({ s with machine := m }.goto p (.committing pc))
  | commitStep {p : Proc} {m : Machine} {pc pc' : CommitPc} (commits : s.phase p = .committing pc)
      (stepped : LogState.commitStep region s.machine pc = some (m, pc')) (started : pc ≠ .start) :
      Move region s (.commitStep p) ({ s with machine := m }.goto p (.committing pc'))
  | finish {p : Proc} (done : s.phase p = .committing .done) :
      Move region s (.finish p) ({ s with committing := false }.wakeup.goto p .idle)

variable {event : LogEvent Proc}

/-- Every step is one of these moves. -/
theorem move_of_step (taken : step region s event = some t) : Move region s event t := by
  unfold step at taken
  split at taken
  · contradiction
  cases event with
  | call p =>
    obtain ⟨idle, ⟨⟩⟩ := Option.ite_none_right_eq_some.mp taken
    exact .call idle
  | doze p =>
    obtain ⟨begins, ⟨⟩⟩ := Option.ite_none_right_eq_some.mp taken
    exact .doze begins.1
  | enter p =>
    obtain ⟨begins, ⟨⟩⟩ := Option.ite_none_right_eq_some.mp taken
    exact .enter begins.1 begins.2
  | check p b data =>
    obtain ⟨inside, ⟨⟩⟩ := Option.ite_none_right_eq_some.mp taken
    unfold logCheck
    split
    · exact .tooBig inside ‹_›
    · split
      · exact .outside inside ‹_›
      · exact .check inside ‹_›
  | logWrite p b =>
    obtain ⟨logging, ⟨⟩⟩ := Option.ite_none_right_eq_some.mp taken
    exact .logWrite logging
  | endOp p =>
    obtain ⟨inside, ⟨⟩⟩ := Option.ite_none_right_eq_some.mp taken
    unfold LogState.endOp
    simp only
    split
    · exact .endBusy inside ‹_›
    · split
      · exact .endLast inside ‹_›
      · exact .endMore inside ‹_›
  | commitStart p block =>
    obtain ⟨⟨commits, rfl⟩, mapped⟩ := Option.ite_none_right_eq_some.mp taken
    obtain ⟨⟨m, pc⟩, stepped, rfl⟩ := Option.map_eq_some_iff.mp mapped
    exact .commitStart commits stepped
  | commitStep p =>
    simp only at taken
    split at taken
    · contradiction
    · rename_i pc started commits
      obtain ⟨⟨m, pc'⟩, stepped, rfl⟩ := Option.map_eq_some_iff.mp taken
      exact .commitStep commits stepped started
    · contradiction
  | finish p =>
    obtain ⟨done, ⟨⟩⟩ := Option.ite_none_right_eq_some.mp taken
    exact .finish done

/-- The handshake of `begin_op`, `end_op` and `commit`. -/
structure Handshake [Fintype Proc] (s : LogState Proc) : Prop where
  /-- `log.outstanding` counts the processes inside an operation. -/
  counted : s.outstanding = tally Phase.InOp s.phase
  quiet : s.committing = true → s.outstanding = 0
  flagged : ∀ p pc, s.phase p = .committing pc → s.committing = true
  alone : ∀ p q pc pc', s.phase p = .committing pc → s.phase q = .committing pc' → p = q
  empty : s.committing = false → s.outstanding = 0 → s.machine.lh = []
  /-- A commit that has returned, or only has the header left to erase, has emptied it. -/
  cleared : ∀ p, s.phase p = .committing .erase ∨ s.phase p = .committing .done →
    s.machine.lh = []
  /-- Neither of the two panics of the handshake has happened. -/
  running : s.panicked = none ∨ s.panicked = some "too big a transaction"

namespace Handshake

variable [Fintype Proc]

variable {p : Proc} {phase : Phase} {pc pc' : CommitPc}

omit [DecidableEq Proc] in
/-- A process inside an operation keeps `log.outstanding` positive. -/
theorem outstanding_pos (inv : s.Handshake) (inside : (s.phase p).InOp) : 1 ≤ s.outstanding := by
  have counted := tally_pos Phase.InOp inside
  rw [inv.counted]
  omega

omit [DecidableEq Proc] in
/-- While an operation runs the log is not committing. -/
theorem not_committing (inv : s.Handshake) (inside : (s.phase p).InOp) : s.committing = false := by
  have positive := inv.outstanding_pos inside
  cases flag : s.committing with
  | false => rfl
  | true =>
    have zero := inv.quiet flag
    omega

omit [DecidableEq Proc] in
/-- While an operation runs no process is in `commit`. -/
theorem no_committer (inv : s.Handshake) (inside : (s.phase p).InOp) (q : Proc) (pc : CommitPc) :
    s.phase q ≠ .committing pc := by
  intro commits
  have raised := inv.flagged q pc commits
  rw [inv.not_committing inside] at raised
  contradiction

omit [DecidableEq Proc] in
/-- A state in which nobody is in `commit`. -/
theorem of_nobody (counted : s.outstanding = tally Phase.InOp s.phase)
    (nobody : ∀ q pc, s.phase q ≠ .committing pc) (quiet : s.committing = true → s.outstanding = 0)
    (empty : s.committing = false → s.outstanding = 0 → s.machine.lh = [])
    (running : s.panicked = none ∨ s.panicked = some "too big a transaction") : s.Handshake where
  counted := counted
  quiet := quiet
  flagged := fun q pc at_q => absurd at_q (nobody q pc)
  alone := fun q _ pc _ at_q => absurd at_q (nobody q pc)
  empty := empty
  cleared := fun q at_q => (at_q.elim (nobody q _) (nobody q _)).elim
  running := running

omit [Fintype Proc] in
/-- Nobody is in `commit` after a move to another phase if no other process was. -/
theorem nobody_goto (out : ∀ pc, phase ≠ .committing pc)
    (others : ∀ q pc, q ≠ p → s.phase q ≠ .committing pc) (q : Proc) (pc : CommitPc) :
    (s.goto p phase).phase q ≠ .committing pc := by
  by_cases here : q = p
  · subst here
    simpa using out pc
  · simpa [update_of_ne here] using others q pc here

/-- A process moving between phases that are neither inside an operation nor in `commit`. -/
theorem goto_outside (inv : s.Handshake) (out : ¬(s.phase p).InOp) (out' : ¬phase.InOp)
    (idle : ∀ pc, s.phase p ≠ .committing pc) (idle' : ∀ pc, phase ≠ .committing pc) :
    (s.goto p phase).Handshake := by
  have same (q : Proc) (pc : CommitPc) :
      (s.goto p phase).phase q = .committing pc ↔ s.phase q = .committing pc := by
    by_cases here : q = p
    · subst here
      simp [idle pc, idle' pc]
    · simp [update_of_ne here]
  refine ⟨?_, inv.quiet, fun q pc at_q => inv.flagged q pc ((same q pc).mp at_q),
    fun q r pc pc' at_q at_r => inv.alone q r pc pc' ((same q pc).mp at_q) ((same r pc').mp at_r),
    inv.empty, fun q at_q => inv.cleared q ?_, inv.running⟩
  · have change := tally_update Phase.InOp s.phase p phase
    rw [if_neg out, if_neg out'] at change
    rw [goto_outstanding, goto_phase, inv.counted]
    omega
  · rcases at_q with at_q | at_q
    · exact Or.inl ((same q .erase).mp at_q)
    · exact Or.inr ((same q .done).mp at_q)

/-- A step inside an operation: the process stays inside, the header may grow. -/
theorem goto_inside (inv : s.Handshake) (inside : (s.phase p).InOp) (inside' : phase.InOp)
    (m : Machine) : ({ s with machine := m }.goto p phase).Handshake := by
  have outside (pc : CommitPc) : phase ≠ .committing pc := by
    rintro rfl
    exact inside'
  have positive := inv.outstanding_pos inside
  refine .of_nobody ?_ (nobody_goto outside fun q pc _ => inv.no_committer inside q pc) inv.quiet
    (fun _ zero => ?_) inv.running
  · have change := tally_update Phase.InOp s.phase p phase
    rw [if_pos inside, if_pos inside'] at change
    rw [goto_outstanding, goto_phase]
    have counted := inv.counted
    simp only
    omega
  · simp only [goto_outstanding] at zero
    omega

omit [DecidableEq Proc] in
/-- `wakeup` keeps the handshake. -/
theorem wakeup (inv : s.Handshake) : s.wakeup.Handshake where
  counted := by
    rw [tally_congr Phase.InOp (wakeup_inOp (s := s))]
    exact inv.counted
  quiet := inv.quiet
  flagged := fun p pc at_p => inv.flagged p pc ((wakeup_committing p pc).mp at_p)
  alone := fun p q pc pc' at_p at_q => inv.alone p q pc pc' ((wakeup_committing p pc).mp at_p)
    ((wakeup_committing q pc').mp at_q)
  empty := inv.empty
  cleared := fun p at_p => inv.cleared p (by simpa only [wakeup_committing] using at_p)
  running := inv.running

/-- `begin_op` lets a process in. -/
theorem enter (inv : s.Handshake) (begins : s.phase p = .beginning) (free : s.committing = false) :
    ({ s with outstanding := s.outstanding + 1 }.goto p .inOp).Handshake := by
  have others (q : Proc) (pc : CommitPc) (_ : q ≠ p) : s.phase q ≠ .committing pc := by
    intro at_q
    rw [inv.flagged q pc at_q] at free
    contradiction
  have counted := inv.counted
  refine .of_nobody ?_ (nobody_goto (by simp) others) (fun raised => ?_) (fun _ zero => ?_)
    inv.running
  · have change := tally_update Phase.InOp s.phase p .inOp
    rw [if_neg (by rw [begins]; exact id), if_pos (by trivial)] at change
    simp only [goto_outstanding, goto_phase]
    omega
  · simp only [goto_committing, free] at raised
    contradiction
  · simp only [goto_outstanding] at zero
    omega

section

variable (inv : s.Handshake) (inside : (s.phase p).InOp)

include inv inside

/-- One process fewer is inside an operation. -/
theorem leave (out : ¬phase.InOp) :
    s.outstanding - 1 = (tally Phase.InOp (update s.phase p phase) : Int) := by
  have change := tally_update Phase.InOp s.phase p phase
  rw [if_pos inside, if_neg out] at change
  have counted := inv.counted
  omega

/-- `end_op` of the last operation. -/
theorem endLast (last : s.outstanding - 1 = 0) :
    ({ s with outstanding := s.outstanding - 1, committing := true }.goto p
      (.committing .start)).Handshake := by
  -- only `p` can be in `commit`, since nobody was while `p` ran its operation
  have only (q : Proc) (pc : CommitPc)
      (at_q : update s.phase p (.committing .start) q = .committing pc) : q = p := by
    by_contra apart
    rw [update_of_ne apart] at at_q
    exact inv.no_committer inside q pc at_q
  refine ⟨inv.leave inside id, fun _ => last, fun _ _ _ => rfl, fun q r pc pc' at_q at_r => ?_,
    fun lowered => by simp at lowered, fun q at_q => ?_, inv.running⟩
  · rw [only q pc at_q, only r pc' at_r]
  · obtain rfl : q = p := at_q.elim (only q _) (only q _)
    simp at at_q

/-- `end_op` while other operations run. -/
theorem endMore (more : s.outstanding - 1 ≠ 0) :
    ({ s with outstanding := s.outstanding - 1 }.wakeup.goto p .idle).Handshake := by
  have inside' := (wakeup_inOp p).mpr inside
  have free := inv.not_committing inside
  refine .of_nobody (inv.wakeup.leave inside' id)
    (nobody_goto (by simp) fun q pc _ => inv.wakeup.no_committer inside' q pc) (fun raised => ?_)
    (fun _ zero => absurd zero more) inv.running
  simp only [goto_committing, LogState.wakeup, free] at raised
  contradiction

end

/-- A step of `commit` never refills the header, and empties it before the header is erased. -/
theorem commitStep_lh {m m' : Machine}
    (stepped : LogState.commitStep region m pc = some (m', pc')) :
    (m'.lh = m.lh ∨ m'.lh = []) ∧ (pc' = .erase ∨ pc' = .done → m.lh = [] ∨ pc = .clear ∨
      pc = .erase) ∧ (pc = .clear → m'.lh = []) := by
  cases pc with
  | start =>
    simp only [LogState.commitStep] at stepped
    split at stepped
    · obtain ⟨rfl, rfl⟩ := Prod.mk.inj (Option.some.inj stepped)
      simp
    · rename_i none
      obtain ⟨rfl, rfl⟩ := Prod.mk.inj (Option.some.inj stepped)
      simp [List.eq_nil_of_length_eq_zero (Nat.eq_zero_of_not_pos none)]
  | writeLog tail =>
    simp only [LogState.commitStep] at stepped
    split at stepped <;> obtain ⟨rfl, rfl⟩ := Prod.mk.inj (Option.some.inj stepped) <;>
      simp [Machine.bwrite]
  | writeHead =>
    obtain ⟨rfl, rfl⟩ := Prod.mk.inj (Option.some.inj stepped)
    simp [Machine.writeHead, Machine.bwrite]
  | installTrans tail =>
    simp only [LogState.commitStep] at stepped
    split at stepped <;> obtain ⟨rfl, rfl⟩ := Prod.mk.inj (Option.some.inj stepped) <;>
      simp [Machine.bwrite]
  | clear =>
    obtain ⟨rfl, rfl⟩ := Prod.mk.inj (Option.some.inj stepped)
    simp [Machine.clearHead]
  | erase =>
    obtain ⟨rfl, rfl⟩ := Prod.mk.inj (Option.some.inj stepped)
    simp [Machine.writeHead, Machine.bwrite]
  | done => simp [LogState.commitStep] at stepped

/-- A step of `commit`. -/
theorem commitStep (inv : s.Handshake) {m : Machine} (commits : s.phase p = .committing pc)
    (stepped : LogState.commitStep region s.machine pc = some (m, pc')) :
    ({ s with machine := m }.goto p (.committing pc')).Handshake := by
  have raised := inv.flagged p pc commits
  obtain ⟨kept, reached, emptied⟩ := commitStep_lh stepped
  have only (q : Proc) (at_pc : CommitPc)
      (at_q : update s.phase p (.committing pc') q = .committing at_pc) : q = p := by
    by_contra apart
    rw [update_of_ne apart] at at_q
    exact apart (inv.alone q p _ _ at_q commits)
  refine ⟨?_, inv.quiet, fun _ _ _ => raised, fun q r at_pc at_pc' at_q at_r => ?_,
    fun lowered => ?_, fun q at_q => ?_, inv.running⟩
  · have change := tally_update Phase.InOp s.phase p (.committing pc')
    rw [if_neg (by rw [commits]; exact id), if_neg (by exact id)] at change
    have counted := inv.counted
    simp only [goto_outstanding, goto_phase]
    omega
  · rw [only q _ at_q, only r _ at_r]
  · simp only [goto_committing, raised] at lowered
    contradiction
  · obtain rfl : q = p := at_q.elim (only q _) (only q _)
    simp only [goto_phase, update_self, Phase.committing.injEq] at at_q
    have before : s.machine.lh = [] ∨ pc = .clear := by
      rcases reached at_q with empty | clear | erase
      · exact Or.inl empty
      · exact Or.inr clear
      · exact Or.inl (inv.cleared q (Or.inl (erase ▸ commits)))
    rcases before with empty | clear
    · rcases kept with same | empty'
      · exact same.trans empty
      · exact empty'
    · exact emptied clear

/-- The second critical section of `end_op`. -/
theorem finish (inv : s.Handshake) (done : s.phase p = .committing .done) :
    ({ s with committing := false }.wakeup.goto p .idle).Handshake := by
  have others (q : Proc) (pc : CommitPc) (apart : q ≠ p) : s.wakeup.phase q ≠ .committing pc :=
    fun at_q => apart (inv.alone q p _ _ ((wakeup_committing q pc).mp at_q) done)
  refine .of_nobody ?_ (nobody_goto (by simp) others) (fun raised => ?_)
    (fun _ _ => inv.cleared p (Or.inr done)) inv.running
  · have change := tally_update Phase.InOp s.wakeup.phase p .idle
    rw [if_neg (by rw [wakeup_inOp, done]; exact id), if_neg (by exact id),
      tally_congr Phase.InOp (wakeup_inOp (s := s))] at change
    have counted := inv.counted
    simp only [goto_outstanding, goto_phase]
    change s.outstanding = (tally Phase.InOp (update s.wakeup.phase p .idle) : Int)
    omega
  · simp [LogState.wakeup] at raised

/-- Every step keeps the handshake. -/
theorem step (inv : s.Handshake) {event : LogEvent Proc}
    (taken : LogState.step region s event = some t) : t.Handshake := by
  cases move_of_step taken with
  | call idle => exact inv.goto_outside (by rw [idle]; exact id) id (by simp [idle]) (by simp)
  | doze begins => exact inv.goto_outside (by rw [begins]; exact id) id (by simp [begins]) (by simp)
  | enter begins free => exact inv.enter begins (by simpa [MustWait] using fun up => free (.inl up))
  | tooBig =>
    exact ⟨inv.counted, inv.quiet, inv.flagged, inv.alone, inv.empty, inv.cleared, Or.inr rfl⟩
  | outside inside none =>
    have positive := inv.outstanding_pos (p := _) (by rw [inside]; trivial)
    omega
  | check inside => exact inv.goto_inside (by rw [inside]; trivial) (by trivial) _
  | logWrite logging => exact inv.goto_inside (by rw [logging]; trivial) (by trivial) _
  | endBusy inside raised =>
    rw [inv.not_committing (p := _) (by rw [inside]; trivial)] at raised
    contradiction
  | endLast inside last => exact inv.endLast (by rw [inside]; trivial) last
  | endMore inside more => exact inv.endMore (by rw [inside]; trivial) more
  | commitStart commits stepped => exact inv.commitStep commits stepped
  | commitStep commits stepped => exact inv.commitStep commits stepped
  | finish done => exact inv.finish done

/-- The handshake holds in every reachable state. -/
theorem ran {past : List (LogEvent Proc)} (ran : Ran region past s) : s.Handshake := by
  refine History.invariant (fun _ s => s.Handshake) (fun s start => ?_)
    (fun _ _ _ _ _ inv taken => inv.step taken) ran
  have none : tally Phase.InOp s.phase = 0 := by
    simp [tally, start.phase, Phase.InOp]
  exact .of_nobody (by rw [start.outstanding, none]; rfl) (fun p _ => by simp [start.phase p])
    (fun _ => start.outstanding) (fun _ _ => start.lh) (Or.inl start.panicked)

omit [DecidableEq Proc] in
/-- While the log commits no process is inside an operation. -/
theorem not_inOp (inv : s.Handshake) (raised : s.committing = true) (p : Proc) :
    ¬(s.phase p).InOp := fun inside => by
  rw [inv.not_committing inside] at raised
  contradiction

end Handshake

/-! ## What an operation logs -/

/-- Absorption adds one block. -/
theorem mem_absorb {b c : UInt32} {blocks : List UInt32} :
    c ∈ absorb b blocks ↔ c = b ∨ c ∈ blocks := by
  induction blocks with
  | nil => simp [absorb]
  | cons d rest ih =>
    unfold absorb
    split
    · rename_i same
      simp [same]
    · simp only [List.mem_cons, ih]
      exact or_left_comm

/-- Block `b` waits in the header for a commit that has not read it yet. -/
structure Awaits (s : LogState Proc) (b : UInt32) : Prop where
  logged : b ∈ s.machine.lh
  unread : ∀ p pc, s.phase p = .committing pc → pc = .start

/-- Only the next start of `commit` takes a block that waits. -/
theorem Awaits.step {b : UInt32} (waits : s.Awaits b)
    (other : ∀ p block, event ≠ .commitStart p block)
    (taken : LogState.step region s event = some t) : t.Awaits b := by
  have unread (p : Proc) (phase : Phase) (early : ∀ pc, phase = .committing pc → pc = .start)
      (q : Proc) (pc : CommitPc) (at_q : update s.phase p phase q = .committing pc) :
      pc = .start := by
    by_cases here : q = p
    · subst here
      exact early pc (by simpa using at_q)
    · exact waits.unread q pc (by simpa [update_of_ne here] using at_q)
  cases move_of_step taken with
  | call | doze | enter | check => exact ⟨waits.logged, unread _ _ (by simp)⟩
  | tooBig | outside | endBusy => exact ⟨waits.logged, waits.unread⟩
  | logWrite => exact ⟨mem_absorb.mpr (.inr waits.logged), unread _ _ (by simp)⟩
  | endLast => exact ⟨waits.logged, unread _ _ (by simp)⟩
  | @endMore p =>
    refine ⟨waits.logged, fun q pc at_q => ?_⟩
    by_cases here : q = p
    · subst here
      simp at at_q
    · rw [goto_phase, update_of_ne here, wakeup_committing] at at_q
      exact waits.unread q pc at_q
  | commitStart => exact absurd rfl (other _ _)
  | commitStep commits _ started => exact absurd (waits.unread _ _ commits) started
  | finish done => exact absurd (waits.unread _ _ done) (by simp)

/-- A process leaves its operation only by `end_op`. -/
theorem inOp_step {p : Proc} (inside : (s.phase p).InOp) (other : event ≠ .endOp p)
    (taken : step region s event = some t) : (t.phase p).InOp := by
  have elsewhere (q : Proc) (phase : Phase) (moves : p = q → phase.InOp) :
      (update s.phase q phase p).InOp := by
    by_cases here : p = q
    · subst here
      simpa using moves rfl
    · rwa [update_of_ne here]
  have left {q : Proc} {phase : Phase} (out : ¬(s.phase q).InOp) : p = q → phase.InOp :=
    fun here => absurd (here ▸ inside) out
  cases move_of_step taken with
  | call at_q => exact elsewhere _ _ (left (by simp [at_q, Phase.InOp]))
  | doze at_q => exact elsewhere _ _ (left (by simp [at_q, Phase.InOp]))
  | enter | check | logWrite => exact elsewhere _ _ fun _ => trivial
  | tooBig | outside | endBusy => exact inside
  | endLast => exact elsewhere _ _ fun here => absurd (congrArg LogEvent.endOp here.symm) other
  | @endMore q =>
    have apart : p ≠ q := fun here => other (congrArg LogEvent.endOp here.symm)
    rw [goto_phase, update_of_ne apart, wakeup_inOp]
    exact inside
  | commitStart at_q => exact elsewhere _ _ (left (by simp [at_q, Phase.InOp]))
  | commitStep at_q => exact elsewhere _ _ (left (by simp [at_q, Phase.InOp]))
  | @finish q at_q =>
    have apart : p ≠ q := by
      rintro rfl
      simp [at_q, Phase.InOp] at inside
    rw [goto_phase, update_of_ne apart, wakeup_inOp]
    exact inside

/-- From its `begin_op` to its `end_op` a process is inside the operation. -/
theorem inOp_of_entered {q : Proc} {ops pre : List (LogEvent Proc)}
    (ran : Ran region (ops ++ .enter q :: pre) s) (running : .endOp q ∉ ops) :
    (s.phase q).InOp := by
  refine ran.since (fun s => (s.phase q).InOp) (fun t entered => ?_)
    fun event member _ s t _ inside taken => ?_
  · cases entered with
    | cons _ taken =>
      cases move_of_step taken with
      | enter => simp [Phase.InOp]
  · exact inOp_step inside (fun ends => running (ends ▸ member)) taken

section Operation

variable [Fintype Proc] {q : Proc} {ops mid pre : List (LogEvent Proc)}

/-- No commit starts while an operation runs. -/
theorem not_commitStart_of_inOp {past : List (LogEvent Proc)} (ran : Ran region past s)
    (inside : (s.phase q).InOp) {event : LogEvent Proc} (taken : step region s event = some t)
    (p : Proc) (block : List UInt32) : event ≠ .commitStart p block := by
  rintro rfl
  cases move_of_step taken with
  | commitStart commits => exact (Handshake.ran ran).no_committer inside p _ commits

/-- No commit starts between the `begin_op` and the `end_op` of an operation. -/
theorem not_mem_of_running (ran : Ran region (ops ++ .enter q :: pre) s) (running : .endOp q ∉ ops)
    (p : Proc) (block : List UInt32) : .commitStart p block ∉ ops := by
  intro member
  obtain ⟨later, earlier, rfl⟩ := List.append_of_mem member
  rw [List.append_assoc] at ran
  obtain ⟨t, started⟩ := ran.suffix
  cases started with
  | cons before taken =>
    have inside := inOp_of_entered before (by simp_all)
    exact not_commitStart_of_inOp before inside taken p block rfl

variable {b : UInt32}

/-- What an operation has logged waits for a commit as long as the operation runs. -/
theorem awaits_of_running (ran : Ran region (ops ++ .enter q :: pre) s) (running : .endOp q ∉ ops)
    (member : .logWrite q b ∈ ops) : s.Awaits b := by
  have alone := not_mem_of_running ran running
  obtain ⟨later, earlier, rfl⟩ := List.append_of_mem member
  rw [List.append_assoc] at ran
  refine ran.since (fun s => s.Awaits b) (fun t logged => ?_)
    fun event member _ s t _ waits taken => ?_
  · have still : .endOp q ∉ LogEvent.logWrite q b :: earlier := by simp_all
    have inside : (t.phase q).InOp := inOp_of_entered logged still
    refine ⟨?_, fun p pc commits => absurd commits
      ((Handshake.ran logged).no_committer inside p pc)⟩
    cases logged with
    | cons _ taken =>
      cases move_of_step taken with
      | logWrite => exact mem_absorb.mpr (.inl rfl)
  · refine waits.step (fun p block starts => alone p block ?_) taken
    simp_all

/-- Once the operation has ended its blocks wait for the first commit. -/
theorem awaits_of_ended (ran : Ran region (mid ++ .endOp q :: (ops ++ .enter q :: pre)) s)
    (running : .endOp q ∉ ops) (unstarted : ∀ p block, .commitStart p block ∉ mid)
    (member : .logWrite q b ∈ ops) : s.Awaits b := by
  refine ran.since (fun s => s.Awaits b) (fun t ended => ?_)
    fun event member _ s t _ waits taken => ?_
  · cases ended with
    | cons before taken =>
      exact (awaits_of_running before running member).step (by simp) taken
  · exact waits.step (fun p block starts => unstarted p block (starts ▸ member)) taken

end Operation

/-! ## The theorem -/

/-- **Group commit never splits or mixes operations.** In every state that any number of processes
can reach, `log.outstanding` is the number of processes inside an operation, `log.committing`
implies that there are none, a commit runs only under that flag, and under it no process is let in
by `begin_op` and none is in `log_write`; the panics of the handshake have not happened. In the past
of that state, no commit started inside an operation, and the first commit after the `end_op` of an
operation has all the blocks the operation logged. -/
theorem group_commit_never_splits [Fintype Proc] {past : List (LogEvent Proc)}
    (ran : Ran region past s) :
    s.outstanding = (Finset.univ.filter fun p => (s.phase p).InOp).card ∧
    (s.committing = true → s.outstanding = 0) ∧
    (∀ p pc, s.phase p = .committing pc → s.committing = true) ∧
    (s.committing = true → ∀ p b data, step region s (.enter p) = none ∧
      step region s (.check p b data) = none ∧ step region s (.logWrite p b) = none) ∧
    s.panicked ≠ some "log.committing" ∧ s.panicked ≠ some "log_write outside of trans" ∧
    ∀ p q block post mid ops pre,
      past = post ++ .commitStart p block :: (mid ++ .endOp q :: (ops ++ .enter q :: pre)) →
      .endOp q ∉ ops → (∀ r blocks, .commitStart r blocks ∉ mid) →
      (∀ r blocks, .commitStart r blocks ∉ ops) ∧ ∀ b, .logWrite q b ∈ ops → b ∈ block := by
  have inv := Handshake.ran ran
  refine ⟨by rw [inv.counted, tally_eq_card], inv.quiet, inv.flagged, fun raised p b data => ?_,
    fun busy => ?_, fun outside => ?_, ?_⟩
  · have out := inv.not_inOp raised p
    have waits : s.MustWait := Or.inl raised
    have resting : s.phase p ≠ .inOp := fun at_p => out (by rw [at_p]; trivial)
    have unlogged : s.phase p ≠ .logging b := fun at_p => out (by rw [at_p]; trivial)
    simp [step, waits, resting, unlogged]
  · rcases inv.running with none | big
    · simp [none] at busy
    · simp [big] at busy
  · rcases inv.running with none | big
    · simp [none] at outside
    · simp [big] at outside
  · rintro p q block post mid ops pre rfl running unstarted
    obtain ⟨t, started⟩ := ran.suffix
    cases started with
    | cons before taken =>
      refine ⟨?_, fun b member => ?_⟩
      · obtain ⟨_, ended⟩ := before.suffix
        cases ended with
        | cons before _ => exact not_mem_of_running before running
      · have waits := awaits_of_ended before running unstarted member
        cases move_of_step taken with
        | commitStart => exact waits.logged

/-- Two operations overlap, and one commit takes the blocks of both. -/
theorem group_commit_never_splits_twoOps :
    ∃ (past : List (LogEvent (Fin 2))) (s : LogState (Fin 2)) (block : List UInt32),
      Ran ⟨2, 30, by decide, by decide⟩ past s ∧ s.committing = true ∧ s.outstanding = 0 ∧
        .commitStart 1 block ∈ past ∧ 100 ∈ block ∧ 200 ∈ block := by
  let both : List (LogEvent (Fin 2)) := [.call 0, .enter 0, .call 1, .enter 1,
    .check 0 100 Bytes.zero, .logWrite 0 100, .check 1 200 Bytes.zero, .logWrite 1 200, .endOp 0,
    .endOp 1, .commitStart 1 [100, 200]]
  have runs : (replay (step ⟨2, 30, by decide, by decide⟩) both (booted (Fin 2))).any
      (fun s => s.committing) = true := by
    decide +kernel
  obtain ⟨s, history, raised⟩ := History.of_replay booted_initial runs
  obtain ⟨-, quiet, -, -, -, -, holds⟩ := group_commit_never_splits history
  refine ⟨_, s, [100, 200], history, raised, quiet raised, by simp [both], ?_, ?_⟩
  · exact (holds 1 0 _ [] [.endOp 1] [.logWrite 1 200, .check 1 200 Bytes.zero, .logWrite 0 100,
      .check 0 100 Bytes.zero, .enter 1, .call 1] [.call 0] rfl (by simp) (by simp)).2 100 (by simp)
  · exact (holds 1 1 _ [] [] [.endOp 0, .logWrite 1 200, .check 1 200 Bytes.zero, .logWrite 0 100,
      .check 0 100 Bytes.zero] [.call 1, .enter 0, .call 0] rfl (by simp) (by simp)).2 200 (by simp)

end LogState

end Xv6
