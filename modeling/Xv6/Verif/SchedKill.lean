import Xv6.Verif.SchedTable

/-!
# Who is killed

`kill` looks only at pids, and an unused slot keeps one: zero, or that of a `fork` that failed. So
`kill` can set the flag of a slot that nobody uses, and so can a `fork` that fails leave it set; the
next process in the slot is then born killed. When neither happens, a process has been killed only
if `kill` was called with its pid, or it faulted, since its slot was taken.
-/

namespace Xv6.Sched

open Lib Function

/-- The flag of a slot has a cause. -/
structure Proc.Clear (x : Proc) : Prop where
  unused : x.state = .unused → x.killed = false
  used : x.state ≠ .unused → x.killed = true → x.blamed = true

/-- The same flag and cause, in a slot that is used as before. -/
theorem Proc.Clear.congr {x y : Proc} (clear : x.Clear)
    (used : y.state = .unused ↔ x.state = .unused) (killed : y.killed = x.killed)
    (blamed : y.blamed = x.blamed) : y.Clear := by
  constructor
  case unused =>
    rw [used, killed]
    exact clear.unused
  case used =>
    rw [ne_eq, used, killed, blamed]
    exact clear.used

namespace State

variable {C : Type} {s t : State C} {p q : Fin nProc}

/-- A call of `kill` does what it should: it kills one process of that pid, or nothing. -/
def KillsNamed (s : State C) (pid : UInt32) : Prop :=
  ((s.kill pid).1 = 0 ∧ ∃ p, (s.proc p).state ≠ .unused ∧ (s.proc p).pid = pid ∧
    ((s.kill pid).2.proc p).killed = true ∧ ∀ q, q ≠ p → (s.kill pid).2.proc q = s.proc q) ∨
  s.kill pid = (-1, s) ∧ ∀ p, (s.proc p).state ≠ .unused → (s.proc p).pid ≠ pid

/-- `kill` finds no unused slot, and `fork` gives up no slot that has been killed. -/
def Careful [DecidableEq C] (s : State C) : Event C → Prop
  | .kill pid => ∀ p, s.target pid = some p → (s.proc p).state ≠ .unused
  | .kalloc c none | .copyuvm c none => ∀ p np, s.running c = some p →
    (s.proc p).work = .slot np ∨ (s.proc p).work = .stack np → (s.proc np).killed = false
  | _ => True

instance [DecidableEq C] (s : State C) (event : Event C) : Decidable (s.Careful event) := by
  unfold Careful
  split <;> infer_instance

/-- The flag of every slot has a cause. -/
def Blamed (s : State C) : Prop := ∀ p, (s.proc p).Clear

/-- `kill` finds a slot with the pid. -/
theorem target_pid {pid : UInt32} (found : s.target pid = some p) : (s.proc p).pid = pid := by
  simpa using List.find?_some found

/-- If `kill` finds nothing, no slot has the pid. -/
theorem target_none {pid : UInt32} (missed : s.target pid = none) (p : Fin nProc) :
    (s.proc p).pid ≠ pid := by
  have looked := List.find?_eq_none.mp missed p (List.mem_finRange p)
  simpa using looked

/-- A call of `kill` does what it should if and only if it may come next. -/
theorem Blamed.kills_named_iff [DecidableEq C] (blamed : Blamed s) (pid : UInt32) :
    s.KillsNamed pid ↔ s.Careful (.kill pid) := by
  cases found : s.target pid with
  | none =>
    refine iff_of_true (.inr ⟨by simp [kill, found], fun p _ => target_none found p⟩) ?_
    intro p here
    rw [found] at here
    cases here
  | some p =>
    have result : s.kill pid = (0, { s with proc := update s.proc p (s.proc p).hit }) := by
      unfold kill
      rw [found]
      rfl
    constructor
    · intro named q here unused
      obtain rfl := Option.some.inj (found.symm.trans here)
      rcases named with ⟨-, r, used, -, -, rest⟩ | ⟨nothing, -⟩
      · have apart : p ≠ r := by
          rintro rfl
          exact used unused
        have same := rest p apart
        rw [result] at same
        simp only [update_self] at same
        have clean := (blamed p).unused unused
        rw [← same] at clean
        cases clean
      · rw [result] at nothing
        exact absurd (congrArg Prod.fst nothing) (by simp)
    · intro careful
      refine .inl ⟨by rw [result], p, careful p found, target_pid found, ?_, fun q apart => ?_⟩
      · rw [result]
        simp [Proc.hit]
      · rw [result]
        simp [apart]

namespace Blamed

/-- A step of `fork`. -/
theorem filled (blamed : Blamed s) {np : Fin nProc} {x : Proc} {work : Work}
    (fills : Fills s t p np x work) (clear : x.Clear) : Blamed t := by
  intro q
  by_cases here : q = np
  · rw [here, fills.new]
    exact clear
  · rw [fills.other here]
    exact (blamed q).congr Iff.rfl rfl rfl

/-- The loops of `wakeup` and `exit`. -/
theorem passed (blamed : Blamed s) {curproc : Fin nProc} {y : Proc}
    (table : Passed curproc (s.proc q) y) : y.Clear := by
  refine (blamed q).congr ?_ table.killed_eq table.blamed_eq
  rcases table.state with same | ⟨asleep, awake⟩
  · rw [same]
  · simp [asleep, awake]

variable [DecidableEq C]

/-- Every careful step keeps the invariant. -/
theorem changed {event : Event C} (blamed : Blamed s) (mem : Memory s) (careful : s.Careful event)
    (step : Changed event s t) : Blamed t := by
  cases step with
  | @moved p x proc states rest killed =>
    intro q
    by_cases here : q = p
    · have used := (steady_moved proc states rest p).unused
      rw [proc, update_self] at used
      rw [proc, here, update_self]
      rcases killed with ⟨flag, cause⟩ | ⟨cause, active⟩
      · exact (blamed p).congr used flag cause
      · exact ⟨fun unused => absurd unused active.live.1, fun _ _ => cause⟩
    · rw [proc, update_of_ne here]
      exact blamed q
  | @woken chan proc =>
    intro q
    rw [proc]
    exact blamed.passed (wakeup1_passed initproc s.proc chan q)
  | @killed pid cause hit rest =>
    subst cause
    intro q
    by_cases here : s.target pid = some q
    · have used := careful q here
      rw [hit q here]
      refine ⟨fun unused => ?_, fun _ _ => rfl⟩
      simp only [Proc.hit] at unused
      split at unused
      · cases unused
      · exact absurd unused used
    · rw [rest q here]
      refine ⟨(blamed q).unused, fun used flag => ?_⟩
      rw [(blamed q).used used flag]
      rfl
  | @slot p np _ _ _ _ unused fills =>
    have clean := (blamed np).unused unused
    exact blamed.filled fills ⟨fun _ => clean, fun _ flag => by cases clean.symm.trans flag⟩
  | @stack p np _ _ _ work fills | @copied p np _ _ _ work fills =>
    exact blamed.filled fills ((blamed np).congr Iff.rfl rfl rfl)
  | @gaveUp p np _ cause _ _ work fills =>
    obtain ⟨c, thread, outside, call⟩ := cause
    have running : s.running c = some p := running_eq_some.mpr ⟨thread, outside⟩
    have clean : (s.proc np).killed = false := by
      rcases call with rfl | rfl
      · exact careful p np running work
      · exact careful p np running work
    exact blamed.filled fills ⟨fun _ => clean, fun used => absurd rfl used⟩
  | @fork p np _ _ work fills =>
    have used : (s.proc np).state ≠ .unused := by
      rw [mem.forks p np (by rw [work]; rfl)]
      decide
    exact blamed.filled fills ⟨fun unused => (by cases unused), fun _ => (blamed np).used used⟩
  | @exit p proc running _ exits proc_eq =>
    intro q
    rw [proc_eq]
    by_cases here : q = p
    · rw [here, update_self]
      refine (blamed p).congr ?_ (exits.table p).killed_eq (exits.table p).blamed_eq
      simp [running]
    · rw [update_of_ne here]
      exact blamed.passed (exits.table q)
  | @reaped p q x y running child zombie _ slot old proc =>
    intro r
    by_cases here : r = q
    · rw [proc, here, update_self]
      exact ⟨fun _ => rfl, fun used => absurd rfl used⟩
    · rw [reaped_other slot proc here]
      exact (blamed r).congr Iff.rfl rfl rfl

end Blamed

/-! ## Runs -/

variable [DecidableEq C]

/-- The runs in which no call of `kill` finds an unused slot, and no call of `fork` gives up a slot
that has been killed. -/
abbrev RanCarefully (C : Type) [DecidableEq C] : List (Event C) → State C → Prop :=
  Within Initial step fun _ => Careful

omit [DecidableEq C] in
/-- At the start nobody has been killed. -/
theorem Initial.blamed (start : Initial s) : Blamed s := by
  intro p
  by_cases here : p = initproc
  · obtain ⟨kstack, pgdir, -, -, -, first, -⟩ := start.first
    rw [here, first]
    exact ⟨fun unused => (by cases unused), fun _ flag => by cases flag⟩
  · rw [start.rest p here]
    exact ⟨fun _ => rfl, fun used => absurd rfl used⟩

/-- In every such run, for any CPUs: a process that has been killed was named by a call of `kill`,
or faulted, since its slot was taken; and a call of `kill` does what it should if and only if it is
one that may come next. -/
theorem kill_hits_named {past : List (Event C)} (ran : RanCarefully C past s) :
    (∀ p, (s.proc p).state ≠ .unused → (s.proc p).killed = true → (s.proc p).blamed = true) ∧
      ∀ pid, s.KillsNamed pid ↔ s.Careful (.kill pid) := by
  have blamed : Ran C past s ∧ Blamed s := by
    refine ran.invariant (fun past s => Ran C past s ∧ Blamed s)
      (fun s start => ⟨.nil start, start.blamed⟩) ?_
    intro past s t event ⟨before, blamed⟩ careful taken
    obtain ⟨inv, mem⟩ := Ran.safe before
    exact ⟨before.cons taken,
      blamed.changed mem careful ((took_of_step taken).2.changed inv mem)⟩
  exact ⟨fun p => (blamed.2 p).used, blamed.2.kills_named_iff⟩

/-- A child that is killed by its pid is to blame. -/
theorem kill_hits_named_child : ∃ (past : List (Event Unit)) (s : State Unit),
    RanCarefully Unit past s ∧ (s.proc second).state = .runnable ∧
      (s.proc second).killed = true ∧ (s.proc second).blamed = true := by
  have runs : (replayWithin step (fun _ => Careful) [.acquire (), .pick (), .resume (),
      .allocproc (), .kalloc () (some 3), .copyuvm () (some 4), .fork (), .kill 2] []
      (booted Unit)).any
        (fun s => (s.proc second).state = .runnable ∧ (s.proc second).killed = true) = true := by
    decide +kernel
  obtain ⟨s, ran, holds⟩ := Within.of_replay (booted_initial Unit) runs
  obtain ⟨state, killed⟩ := of_decide_eq_true holds
  exact ⟨_, s, ran, state, killed, (kill_hits_named ran).1 second (by simp [state]) killed⟩

/-- `kill(0)` finds an unused slot and returns zero, and the next process in that slot has been
killed, though nobody named it. -/
theorem kill_marks_unborn : ∃ s t : State Unit,
    Ran Unit [.resume (), .pick (), .acquire ()] s ∧ (s.kill 0).1 = 0 ∧
      (∀ p, (s.proc p).pid = 0 → (s.proc p).state = .unused) ∧
      Ran Unit [.fork (), .copyuvm () (some 4), .kalloc () (some 3), .allocproc (), .kill 0,
        .resume (), .pick (), .acquire ()] t ∧
      (t.proc second).state = .runnable ∧ (t.proc second).killed = true ∧
      (t.proc second).blamed = false := by
  have runs : (replay step [.acquire (), .pick (), .resume ()] (booted Unit)).any (fun s =>
      (s.kill 0).1 = 0 ∧ ∀ p, (s.proc p).pid = 0 → (s.proc p).state = .unused) = true := by
    decide +kernel
  have runs' : (replay step [.acquire (), .pick (), .resume (), .kill 0, .allocproc (),
      .kalloc () (some 3), .copyuvm () (some 4), .fork ()] (booted Unit)).any (fun s =>
      (s.proc second).state = .runnable ∧ (s.proc second).killed = true ∧
        (s.proc second).blamed = false) = true := by
    decide +kernel
  obtain ⟨s, ran, holds⟩ := History.of_replay (booted_initial Unit) runs
  obtain ⟨t, ran', holds'⟩ := History.of_replay (booted_initial Unit) runs'
  obtain ⟨zero, unused⟩ := of_decide_eq_true holds
  exact ⟨s, t, ran, zero, unused, ran', of_decide_eq_true holds'⟩

end State

end Xv6.Sched
