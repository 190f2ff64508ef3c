import Xv6.Verif.SchedSteps

/-!
# Where processes run

While a CPU executes a process, that process is `RUNNING` and is the CPU's; between the switch away
from it and the release of the lock the CPU still names it. The invariant says for each CPU what its
registers are, from what it executes, and that no two CPUs name one process. It is kept by the four
ways a step can change the CPUs: not at all, between scheduler states, by giving a CPU to a process,
and by taking it away.
-/

namespace Xv6.Sched

open Lib
open Function (update update_apply update_of_ne update_self)

/-- The states of a process that has been switched away from. -/
def Switched : Procstate → Prop
  | .sleeping | .runnable | .zombie => True
  | _ => False

namespace State

variable {C : Type} {s t : State C} {c : C} {p : Fin nProc}

/-- The registers of a CPU, from what it executes. -/
def registers (s : State C) : Thread → Cpu
  | .idle => ⟨none, .idle, 0, 0⟩
  | .scan next => ⟨none, .scan next, 0, 0⟩
  | .back p => ⟨some p, .back p, 0, (s.proc p).pgdir⟩
  | .process p => ⟨some p, .process p, (s.proc p).kstack, (s.proc p).pgdir⟩

/-- What a CPU executes fits the lock and the table. -/
def Fits (s : State C) (c : C) : Thread → Prop
  | .idle => s.lock ≠ some c
  | .scan _ => s.lock = some c
  | .back p => s.lock = some c ∧ Switched (s.proc p).state
  | .process p => (s.proc p).state = .running

/-- Where processes run. -/
structure Placed (s : State C) : Prop where
  registers : ∀ c, s.cpu c = s.registers (s.cpu c).thread
  fits : ∀ c, s.Fits c (s.cpu c).thread
  alone : ∀ c c' p, (s.cpu c).proc = some p → (s.cpu c').proc = some p → c = c'
  placed : ∀ p, (s.proc p).state = .running → ∃ c, (s.cpu c).thread = .process p

namespace Placed

section

variable (inv : Placed s)

include inv

/-- The process a CPU executes is the CPU's. -/
theorem proc_eq (thread : (s.cpu c).thread = .process p) : (s.cpu c).proc = some p := by
  rw [inv.registers c, thread]
  rfl

/-- The process a CPU executes is running. -/
theorem running (thread : (s.cpu c).thread = .process p) : (s.proc p).state = .running := by
  have fits := inv.fits c
  rw [thread] at fits
  exact fits

/-- Only the holder of the lock is between processes. -/
theorem not_back {q : Fin nProc} (apart : s.lock ≠ some c) : (s.cpu c).thread ≠ .back q := by
  intro thread
  have fits := inv.fits c
  rw [thread] at fits
  exact apart fits.1

/-- Only the holder of the lock scans the table. -/
theorem not_scan {next : Nat} (apart : s.lock ≠ some c) : (s.cpu c).thread ≠ .scan next := by
  intro thread
  have fits := inv.fits c
  rw [thread] at fits
  exact apart fits

/-- The process that a CPU names it executes, or has just switched away from. -/
theorem named (names : (s.cpu c).proc = some p) :
    (s.cpu c).thread = .process p ∨ (s.cpu c).thread = .back p := by
  rw [inv.registers c] at names
  cases thread : (s.cpu c).thread with
  | idle => simp [State.registers, thread] at names
  | scan next => simp [State.registers, thread] at names
  | back q =>
    simp only [State.registers, thread, Option.some.injEq] at names
    exact .inr (by rw [names])
  | process q =>
    simp only [State.registers, thread, Option.some.injEq] at names
    exact .inl (by rw [names])

/-- A process on a CPU is past `fork`. -/
theorem ne_early {np : Fin nProc} (thread : (s.cpu c).thread = .process p)
    (early : (s.proc np).state = .unused ∨ (s.proc np).state = .embryo) : np ≠ p := by
  rintro rfl
  rw [inv.running thread] at early
  rcases early with none | none <;> cases none

/-- The registers of a CPU stay right while the process it names keeps its memory. -/
theorem registers_of_same (c : C) (same : ∀ p, (s.cpu c).proc = some p →
      (t.proc p).kstack = (s.proc p).kstack ∧ (t.proc p).pgdir = (s.proc p).pgdir) :
    s.cpu c = t.registers (s.cpu c).thread := by
  have regs := inv.registers c
  cases thread : (s.cpu c).thread with
  | idle | scan next =>
    rw [thread] at regs
    exact regs
  | back p | process p =>
    rw [thread] at regs
    have kept := same p (by rw [regs]; rfl)
    rw [regs]
    simp only [State.registers, kept]

/-- The CPUs stay, and the table changes where no CPU is; the lock may be released by a process. -/
theorem keep (cpu : t.cpu = s.cpu)
    (lock : t.lock = s.lock ∨ t.lock = none ∧ ∃ c p, s.lock = some c ∧
      (s.cpu c).thread = .process p)
    (runs : ∀ p, (t.proc p).state = .running ↔ (s.proc p).state = .running)
    (switched : ∀ p, Switched (s.proc p).state → (∃ c, (s.cpu c).thread = .back p) →
      Switched (t.proc p).state) (same : ∀ c p, (s.cpu c).proc = some p →
      (t.proc p).kstack = (s.proc p).kstack ∧ (t.proc p).pgdir = (s.proc p).pgdir) : Placed t := by
  have holder (c : C) (fits : s.lock = some c)
      (other : ∀ p, (s.cpu c).thread ≠ .process p) : t.lock = some c := by
    rcases lock with kept | ⟨-, d, p, held, thread⟩
    · rw [kept, fits]
    · rw [held] at fits
      cases fits
      exact absurd thread (other p)
  constructor
  case registers =>
    intro c
    rw [cpu]
    exact inv.registers_of_same c (same c)
  case fits =>
    intro c
    have fits := inv.fits c
    rw [cpu]
    cases thread : (s.cpu c).thread with
    | idle =>
      rw [thread] at fits
      rcases lock with kept | ⟨free, -⟩
      · show t.lock ≠ some c
        rw [kept]
        exact fits
      · show t.lock ≠ some c
        simp [free]
    | scan next =>
      rw [thread] at fits
      exact holder c fits (by simp [thread])
    | back p =>
      rw [thread] at fits
      exact ⟨holder c fits.1 (by simp [thread]), switched p fits.2 ⟨c, thread⟩⟩
    | process p =>
      rw [thread] at fits
      exact (runs p).mpr fits
  case alone =>
    rw [cpu]
    exact inv.alone
  case placed =>
    rw [cpu]
    exact fun p running => inv.placed p ((runs p).mp running)

end

variable [DecidableEq C]

/-- One CPU changes: the others still fit, and do not name its process. -/
theorem changed (inv : Placed s) {cpu : Cpu} (cpus : t.cpu = update s.cpu c cpu)
    (registers : cpu = t.registers cpu.thread) (fits : t.Fits c cpu.thread)
    (same : ∀ d, d ≠ c → ∀ p, (s.cpu d).proc = some p →
      (t.proc p).kstack = (s.proc p).kstack ∧ (t.proc p).pgdir = (s.proc p).pgdir)
    (others : ∀ d, d ≠ c → t.Fits d (s.cpu d).thread)
    (alone : ∀ d, d ≠ c → ∀ p, (s.cpu d).proc = some p → cpu.proc ≠ some p)
    (placed : ∀ p, (t.proc p).state = .running →
      cpu.thread = .process p ∨ (s.proc p).state = .running ∧ (s.cpu c).thread ≠ .process p) :
    Placed t := by
  have here : t.cpu c = cpu := by rw [cpus, update_self]
  have there (d : C) (apart : d ≠ c) : t.cpu d = s.cpu d := by rw [cpus, update_of_ne apart]
  constructor
  case registers =>
    intro d
    by_cases mine : d = c
    · rw [mine, here]
      exact registers
    · rw [there d mine]
      exact inv.registers_of_same d (same d mine)
  case fits =>
    intro d
    by_cases mine : d = c
    · rw [mine, here]
      exact fits
    · rw [there d mine]
      exact others d mine
  case alone =>
    intro d d' p names names'
    by_cases mine : d = c
    · by_contra apart
      rw [mine] at names apart
      rw [there d' (Ne.symm apart)] at names'
      exact alone d' (Ne.symm apart) p names' (here ▸ names)
    · rw [there d mine] at names
      by_cases mine' : d' = c
      · rw [mine', here] at names'
        exact absurd names' (alone d mine p names)
      · exact inv.alone d d' p names (there d' mine' ▸ names')
  case placed =>
    intro p running
    rcases placed p running with now | ⟨before, other⟩
    · exact ⟨c, here ▸ now⟩
    · obtain ⟨d, thread⟩ := inv.placed p before
      have apart : d ≠ c := by
        rintro rfl
        exact other thread
      exact ⟨d, there d apart ▸ thread⟩

omit [DecidableEq C] in
/-- No other CPU holds the lock that is free or the CPU's. -/
theorem lock_ne (before : s.lock = none ∨ s.lock = some c) (d : C) (apart : d ≠ c) :
    s.lock ≠ some d := by
  rcases before with free | held
  · simp [free]
  · rw [held]
    exact fun same => apart (Option.some.inj same).symm

/-- A CPU goes from one scheduler state to another. -/
theorem schedule (inv : Placed s) {thread : Thread} {lock : Option C}
    (unplaced : ∀ p, (s.cpu c).thread ≠ .process p) (before : s.lock = none ∨ s.lock = some c)
    (after : thread = .idle ∧ lock = none ∨ ∃ next, thread = .scan next ∧ lock = some c) :
    Placed { s with cpu := update s.cpu c ⟨none, thread, 0, 0⟩, lock := lock } := by
  refine inv.changed rfl ?registers ?fits (fun _ _ _ _ => ⟨rfl, rfl⟩) ?others (by simp)
    fun p running => .inr ⟨running, unplaced p⟩
  case registers => rcases after with ⟨rfl, -⟩ | ⟨next, rfl, -⟩ <;> rfl
  case fits =>
    rcases after with ⟨rfl, rfl⟩ | ⟨next, rfl, rfl⟩
    · simp [Fits]
    · rfl
  case others =>
    intro d apart
    have fits := inv.fits d
    cases thread' : (s.cpu d).thread with
    | idle =>
      show lock ≠ some d
      rcases after with ⟨-, rfl⟩ | ⟨-, -, rfl⟩
      · simp
      · exact fun same => apart (Option.some.inj same).symm
    | scan next => exact absurd thread' (inv.not_scan (lock_ne before d apart))
    | back p => exact absurd thread' (inv.not_back (lock_ne before d apart))
    | process p =>
      rw [thread'] at fits
      exact fits

/-- A CPU is given to a process that can run. -/
theorem dispatch (inv : Placed s) {next : Nat} (thread : (s.cpu c).thread = .scan next)
    (runnable : (s.proc p).state = .runnable) : Placed (s.dispatch c p) := by
  have held : s.lock = some c := by
    have fits := inv.fits c
    rw [thread] at fits
    exact fits
  have off (d : C) (apart : d ≠ c) (q : Fin nProc) (names : (s.cpu d).proc = some q) : q ≠ p := by
    rintro rfl
    rcases inv.named names with on | back
    · rw [inv.running on] at runnable
      cases runnable
    · exact inv.not_back (lock_ne (.inr held) d apart) back
  refine inv.changed rfl ?registers ?fits ?same ?others ?alone fun q running => ?_
  case registers => simp only [State.dispatch, update_self, State.registers]
  case fits => simp only [State.dispatch, update_self, Fits]
  case same =>
    intro d apart q names
    simp only [State.dispatch, update_of_ne (off d apart q names), and_self]
  case others =>
    intro d apart
    have fits := inv.fits d
    have regs := inv.registers d
    cases thread' : (s.cpu d).thread with
    | idle | scan next =>
      rw [thread'] at fits
      exact fits
    | back q | process q =>
      rw [thread'] at fits regs
      simp only [State.dispatch, Fits, update_of_ne (off d apart q (by rw [regs]; rfl))]
      exact fits
  case alone =>
    intro d apart q names same
    exact off d apart q names (Option.some.inj same).symm
  by_cases here : q = p
  · exact .inl (by rw [here])
  · simp only [State.dispatch, update_of_ne here] at running
    exact .inr ⟨running, by simp [thread]⟩

/-- A process gives up its CPU, holding the lock. -/
theorem leave (inv : Placed s) (thread : (s.cpu c).thread = .process p)
    (before : s.lock = none ∨ s.lock = some c) {proc : Fin nProc → Proc}
    (switched : Switched (proc p).state)
    (runs : ∀ q, q ≠ p → ((proc q).state = .running ↔ (s.proc q).state = .running))
    (same : ∀ q, (proc q).kstack = (s.proc q).kstack ∧ (proc q).pgdir = (s.proc q).pgdir) :
    Placed (s.leave c p proc) := by
  have elsewhere (d : C) (apart : d ≠ c) (q : Fin nProc) (names : (s.cpu d).proc = some q) :
      q ≠ p := by
    rintro rfl
    exact apart (inv.alone d c q names (inv.proc_eq thread))
  have regs := inv.registers c
  rw [thread] at regs
  refine inv.changed rfl ?registers ⟨rfl, switched⟩ (fun _ _ q _ => same q) ?others ?alone
    fun q running => ?_
  case registers =>
    simp only [State.leave, State.registers, (same p).2]
    rw [regs]
    rfl
  case others =>
    intro d apart
    have fits := inv.fits d
    have regs := inv.registers d
    cases thread' : (s.cpu d).thread with
    | idle => exact fun equal => apart (Option.some.inj equal).symm
    | scan next => exact absurd thread' (inv.not_scan (lock_ne before d apart))
    | back q => exact absurd thread' (inv.not_back (lock_ne before d apart))
    | process q =>
      rw [thread'] at fits regs
      exact (runs q (elsewhere d apart q (by rw [regs]; rfl))).mpr fits
  case alone =>
    intro d apart q names same
    rw [regs] at same
    exact elsewhere d apart q names (Option.some.inj same).symm
  have other : q ≠ p := by
    rintro rfl
    rw [show (s.leave c q proc).proc q = proc q from rfl] at running
    rw [running] at switched
    exact switched
  refine .inr ⟨(runs q other).mp running, fun on => other ?_⟩
  rw [thread] at on
  exact (Thread.process.inj on).symm

end Placed

end State

end Xv6.Sched
