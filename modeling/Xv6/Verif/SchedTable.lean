import Xv6.Verif.SchedSafety

/-!
# What a step does to the process table

Most steps move one process between the states it has after `fork` and before `exit`. The others are
the calls that wake, kill, create, end and reap processes. The invariants of the table are proved
from this list, which leaves the CPUs, the lock and memory out.
-/

namespace Xv6.Sched

open Lib
open Function (update update_eq_self update_of_ne update_self)

/-- The states of a process between `fork` and `exit`. -/
def Active : Procstate → Prop
  | .sleeping | .runnable | .running => True
  | _ => False

/-- Such a process has started. -/
theorem Active.live {state : Procstate} (active : Active state) : Live state := by
  cases state <;> simp_all [Active, Live]

/-- A slot in which a process goes on, or nothing happens. -/
structure Steady (x y : Proc) : Prop where
  pid : y.pid = x.pid
  parent : y.parent = x.parent
  work : y.work = x.work
  state : y.state = x.state ∨ Active x.state ∧ Active y.state

namespace Steady

variable {curproc : Fin nProc} {x y : Proc}

/-- Nothing happens to the slot. -/
theorem refl (x : Proc) : Steady x x := ⟨rfl, rfl, rfl, .inl rfl⟩

/-- An active process stays active. -/
theorem active (steady : Steady x y) (was : Active x.state) : Active y.state := by
  rcases steady.state with same | ⟨-, is⟩
  · rwa [same]
  · exact is

/-- No process starts, and none is reaped. -/
theorem live (steady : Steady x y) : Live y.state ↔ Live x.state := by
  rcases steady.state with same | ⟨was, is⟩
  · rw [same]
  · exact iff_of_true is.live was.live

/-- No slot is taken or given up. -/
theorem unused (steady : Steady x y) : y.state = .unused ↔ x.state = .unused := by
  rcases steady.state with same | ⟨was, is⟩
  · rw [same]
  · exact iff_of_false is.live.1 was.live.1

/-- No process exits. -/
theorem zombie (steady : Steady x y) : y.state = .zombie ↔ x.state = .zombie := by
  rcases steady.state with same | ⟨was, is⟩
  · rw [same]
  · exact iff_of_false (fun zombie => by simp [zombie, Active] at is)
      fun zombie => by simp [zombie, Active] at was

/-- `exit` changes nothing but the parent of the processes that go on. -/
theorem passed (passed : Passed curproc x y) : Steady x { y with parent := x.parent } :=
  ⟨passed.pid_eq, rfl, passed.work_eq,
    passed.state.imp_right fun woken => by simp [woken, Active]⟩

/-- `wakeup1` changes not even that. -/
theorem wakeup1 (proc : Fin nProc → Proc) (chan : Chan) (q : Fin nProc) :
    Steady (proc q) (wakeup1 proc chan q) :=
  { passed (wakeup1_passed initproc proc chan q) with parent := wakeup1_parent proc chan q }

/-- A process that is killed goes on. -/
theorem hit (x : Proc) (blamed : Bool) : Steady x { x.hit with blamed := blamed } := by
  refine ⟨rfl, rfl, rfl, ?_⟩
  simp only [Proc.hit]
  split
  · rename_i asleep
    simp [asleep, Active]
  · exact .inl rfl

end Steady

namespace State

variable {C : Type} {s t : State C} {c : C} {p q : Fin nProc}

/-- Why a process may sleep in `wait`. -/
structure Rests (s : State C) (p : Fin nProc) (x : Proc) : Prop where
  chan : x.chan = some (.proc p)
  alive : x.killed = false
  child : ∃ q, (s.proc q).parent = some p
  none : ∀ q, (s.proc q).parent = some p → (s.proc q).state ≠ .zombie

/-- What a step does to the table. -/
inductive Changed (event : Event C) (s t : State C) : Prop where
  /-- One process moves, or none. -/
  | moved {p : Fin nProc} {x : Proc} (proc : t.proc = update s.proc p x)
      (states : x.state = (s.proc p).state ∨ Active (s.proc p).state ∧ Active x.state)
      (rest : x = { s.proc p with
        state := x.state, chan := x.chan, context := x.context
        killed := x.killed, blamed := x.blamed })
      (killed : x.killed = (s.proc p).killed ∧ x.blamed = (s.proc p).blamed ∨
        x.blamed = true ∧ Active x.state)
      (asleep : x.state = .sleeping → x.context = .wait → x = s.proc p ∨ Rests s p x)
      (calls : t.calls = s.calls) (nextpid : t.nextpid = s.nextpid)
  | woken {chan : Chan} (proc : t.proc = wakeup1 s.proc chan) (calls : t.calls = s.calls)
      (nextpid : t.nextpid = s.nextpid)
  | killed {pid : UInt32} (cause : event = .kill pid)
      (hit : ∀ q, s.target pid = some q → t.proc q = { (s.proc q).hit with blamed := true })
      (rest : ∀ q, s.target pid ≠ some q → t.proc q = { s.proc q with
        blamed := (s.proc q).blamed || decide ((s.proc q).pid = pid) })
      (calls : t.calls = s.calls) (nextpid : t.nextpid = s.nextpid)
  /-- `allocproc` takes a slot. -/
  | slot {p np : Fin nProc} (cause : ∃ c, event = .allocproc c)
      (active : Active (s.proc p).state) (apart : np ≠ p)
      (work : (s.proc p).work = .none) (unused : (s.proc np).state = .unused)
      (fills : Fills s t p np
        { s.proc np with state := .embryo, pid := s.nextpid, blamed := false } (.slot np))
      (calls : t.calls = s.calls) (nextpid : t.nextpid = s.nextpid + 1)
  /-- The slot gets a kernel stack. -/
  | stack {p np : Fin nProc} {page : Nat} (active : Active (s.proc p).state) (apart : np ≠ p)
      (work : (s.proc p).work = .slot np)
      (fills : Fills s t p np { s.proc np with kstack := page, context := .forkret } (.stack np))
      (calls : t.calls = s.calls) (nextpid : t.nextpid = s.nextpid)
  /-- The slot gets a copy of the process. -/
  | copied {p np : Fin nProc} {page : Nat} (active : Active (s.proc p).state) (apart : np ≠ p)
      (work : (s.proc p).work = .stack np)
      (fills : Fills s t p np { s.proc np with pgdir := page, parent := some p } (.copied np))
      (calls : t.calls = s.calls) (nextpid : t.nextpid = s.nextpid)
  /-- `fork` fails, and gives the slot up. -/
  | gaveUp {p np : Fin nProc} {pgdir : Nat}
      (cause : ∃ c, (s.cpu c).thread = .process p ∧ s.lock ≠ some c ∧
        (event = .kalloc c none ∨ event = .copyuvm c none))
      (active : Active (s.proc p).state) (apart : np ≠ p)
      (work : (s.proc p).work = .slot np ∨ (s.proc p).work = .stack np)
      (fills : Fills s t p np
        { s.proc np with pgdir := pgdir, kstack := 0, state := .unused } .none)
      (calls : t.calls = s.calls) (nextpid : t.nextpid = s.nextpid)
  /-- The new process can run. -/
  | fork {p np : Fin nProc} (active : Active (s.proc p).state) (apart : np ≠ p)
      (work : (s.proc p).work = .copied np)
      (fills : Fills s t p np { s.proc np with state := .runnable } .none)
      (calls : t.calls = .forked (s.proc p).pid (s.proc np).pid :: s.calls)
      (nextpid : t.nextpid = s.nextpid)
  | exit {p : Fin nProc} {proc : Fin nProc → Proc} (running : (s.proc p).state = .running)
      (work : (s.proc p).work = .none) (exits : s.Exits p proc)
      (proc_eq : t.proc = update proc p { proc p with state := .zombie, context := .exit })
      (calls : t.calls = .exited (s.proc p).pid :: s.calls) (nextpid : t.nextpid = s.nextpid)
  /-- `wait` reaps a zombie. -/
  | reaped {p q : Fin nProc} {x y : Proc} (running : (s.proc p).state = .running)
      (child : (s.proc q).parent = some p) (zombie : (s.proc q).state = .zombie)
      (off : ∀ c, (s.cpu c).proc ≠ some q)
      (slot : x = { s.proc p with chan := x.chan }) (old : y = { s.proc q with chan := y.chan })
      (proc : t.proc = update (update s.proc p x) q y.reaped)
      (calls : t.calls = .waited (s.proc p).pid (s.proc q).pid :: s.calls)
      (nextpid : t.nextpid = s.nextpid)

/-- Nothing happens to the table. -/
theorem Changed.same {event : Event C} (proc : t.proc = s.proc) (calls : t.calls = s.calls)
    (nextpid : t.nextpid = s.nextpid) : Changed event s t := by
  refine .moved (p := initproc) (x := s.proc initproc) ?_ (.inl rfl) rfl (.inl ⟨rfl, rfl⟩)
    (fun _ _ => .inl rfl) calls nextpid
  rw [update_eq_self, proc]

/-- A process that moves leaves all slots to their processes. -/
theorem steady_moved {x : Proc} (proc : t.proc = update s.proc p x)
    (states : x.state = (s.proc p).state ∨ Active (s.proc p).state ∧ Active x.state)
    (rest : x = { s.proc p with
      state := x.state, chan := x.chan, context := x.context
      killed := x.killed, blamed := x.blamed }) (q : Fin nProc) : Steady (s.proc q) (t.proc q) := by
  rw [proc]
  by_cases here : q = p
  · rw [here, update_self]
    exact ⟨by rw [rest], by rw [rest], by rw [rest], states⟩
  · rw [update_of_ne here]
    exact .refl _

/-- So does `kill`. -/
theorem steady_killed {pid : UInt32}
    (hit : ∀ q, s.target pid = some q → t.proc q = { (s.proc q).hit with blamed := true })
    (rest : ∀ q, s.target pid ≠ some q → t.proc q = { s.proc q with
      blamed := (s.proc q).blamed || decide ((s.proc q).pid = pid) }) (q : Fin nProc) :
    Steady (s.proc q) (t.proc q) := by
  by_cases here : s.target pid = some q
  · rw [hit q here]
    exact .hit _ _
  · rw [rest q here]
    exact ⟨rfl, rfl, rfl, .inl rfl⟩

/-- What `exit` leaves of every slot. -/
theorem Exits.leaves {proc : Fin nProc → Proc} (exits : s.Exits p proc)
    (proc_eq : t.proc = update proc p { proc p with state := .zombie, context := .exit })
    (q : Fin nProc) :
    (t.proc q).pid = (s.proc q).pid ∧ (t.proc q).work = (s.proc q).work ∧
      (t.proc q).parent = (proc q).parent := by
  rw [proc_eq]
  by_cases here : q = p
  · rw [here, update_self]
    exact ⟨(exits.table p).pid_eq, (exits.table p).work_eq, rfl⟩
  · rw [update_of_ne here]
    exact ⟨(exits.table q).pid_eq, (exits.table q).work_eq, rfl⟩

/-- The other processes go on. -/
theorem Exits.others {proc : Fin nProc → Proc} (exits : s.Exits p proc)
    (proc_eq : t.proc = update proc p { proc p with state := .zombie, context := .exit })
    (apart : q ≠ p) : Steady (s.proc q) { t.proc q with parent := (s.proc q).parent } := by
  rw [proc_eq, update_of_ne apart]
  exact .passed (exits.table q)

/-- When `wait` reaps a zombie, the other slots stay, but for a channel. -/
theorem reaped_other {x y : Proc} {r : Fin nProc} (slot : x = { s.proc p with chan := x.chan })
    (proc : t.proc = update (update s.proc p x) q y) (here : r ≠ q) :
    t.proc r = { s.proc r with chan := (t.proc r).chan } := by
  rw [proc, update_of_ne here]
  by_cases there : r = p
  · rw [there, update_self]
    exact slot
  · rw [update_of_ne there]

variable [DecidableEq C]

/-- Every step does one of these things to the table. -/
theorem Took.changed {event : Event C} (step : Took s event t) (inv : Placed s) (mem : Memory s) :
    Changed event s t := by
  have active {c : C} {p : Fin nProc} (thread : (s.cpu c).thread = .process p) :
      Active (s.proc p).state := by
    rw [inv.running thread]
    trivial
  have forks {c : C} {p np : Fin nProc} (thread : (s.cpu c).thread = .process p)
      (target : (s.proc p).work.target = some np) : np ≠ p :=
    inv.ne_early thread (.inr (mem.forks p np target))
  cases step with
  | acquire | rest | back | zombie | initExits | full => exact .same rfl rfl rfl
  | @dispatch _ _ p _ runnable =>
    exact .moved rfl (.inr ⟨by rw [runnable]; trivial, trivial⟩) rfl (.inl ⟨rfl, rfl⟩)
      (fun asleep => by cases asleep) rfl rfl
  | stuck _ runnable missing => exact (mem.not_stuck runnable missing).elim
  | resume thread _ context =>
    exact .moved rfl (.inl rfl) rfl (.inl ⟨rfl, rfl⟩) (fun _ waits => absurd waits context) rfl rfl
  | yield thread =>
    exact .moved rfl (.inr ⟨active thread, trivial⟩) rfl (.inl ⟨rfl, rfl⟩)
      (fun asleep => by cases asleep) rfl rfl
  | sleep thread =>
    exact .moved rfl (.inr ⟨active thread, trivial⟩) rfl (.inl ⟨rfl, rfl⟩)
      (fun _ context => by cases context) rfl rfl
  | wakeup => exact .woken rfl rfl rfl
  | @kill pid p free found =>
    refine .killed rfl (fun q here => ?_) (fun q elsewhere => ?_) rfl rfl
    · obtain rfl := Option.some.inj (found.symm.trans here)
      have named : (s.proc p).pid = pid := by simpa using List.find?_some found
      simp [blame, Proc.hit, named]
    · have apart : q ≠ p := by
        rintro rfl
        exact elsewhere found
      simp [blame, apart]
  | @miss pid free missed =>
    refine .killed rfl (fun q here => ?_) (fun q _ => rfl) rfl rfl
    rw [missed] at here
    cases here
  | slot thread _ work unused =>
    have apart := inv.ne_early thread (.inl unused)
    exact .slot ⟨_, rfl⟩ (active thread) apart work unused
      (fills_setProc (f := fun x => { x with state := .embryo, pid := s.nextpid, blamed := false })
        apart rfl) rfl rfl
  | stack thread _ work =>
    have apart := forks thread (by rw [work]; rfl)
    exact .stack (active thread) apart work
      (fills_setProc (f := fun x => { x with kstack := _, context := .forkret }) apart rfl) rfl rfl
  | noStack thread outside work =>
    have apart := forks thread (by rw [work]; rfl)
    exact .gaveUp ⟨_, thread, outside, .inl rfl⟩ (active thread) apart (.inl work)
      (fills_setProc (f := fun x => { x with kstack := 0, state := .unused }) apart rfl) rfl rfl
  | copied thread _ work =>
    have apart := forks thread (by rw [work]; rfl)
    exact .copied (active thread) apart work
      (fills_setProc (f := fun x => { x with pgdir := _, parent := some _ }) apart rfl) rfl rfl
  | notCopied thread outside work =>
    have apart := forks thread (by rw [work]; rfl)
    exact .gaveUp ⟨_, thread, outside, .inr rfl⟩ (active thread) apart (.inr work)
      (fills_setProc (f := fun x => { x with pgdir := 0, kstack := 0, state := .unused })
        apart rfl) rfl rfl
  | fork thread _ work =>
    have apart := forks thread (by rw [work]; rfl)
    exact .fork (active thread) apart work
      (fills_setProc (f := fun x => { x with state := .runnable }) apart rfl) rfl rfl
  | exit thread _ work exits => exact .exit (inv.running thread) work exits rfl rfl rfl
  | reap waits child zombie =>
    exact .reaped (inv.running waits.1) child zombie (fun c => (inv.reaped_off waits zombie c).1)
      waits.slot (waits.table _) rfl rfl rfl
  | giveUp waits =>
    have slot := waits.slot
    refine .moved rfl (.inl (by rw [slot])) (by rw [slot]) (.inl (by rw [slot]; exact ⟨rfl, rfl⟩))
      (fun asleep => ?_) rfl rfl
    rw [slot] at asleep
    cases (inv.running waits.1).symm.trans asleep
  | @waits _ _ p q x waits child none alive =>
    have slot := waits.slot
    refine .moved rfl (.inr ⟨active waits.1, trivial⟩) (by rw [slot])
      (.inl (by rw [slot]; exact ⟨rfl, rfl⟩)) (fun _ _ => .inr ⟨rfl, ?_, ⟨q, child⟩, none⟩) rfl rfl
    rw [slot]
    exact alive
  | fault thread =>
    exact .moved rfl (.inl rfl) rfl (.inr ⟨rfl, active thread⟩)
      (fun asleep => by cases (inv.running thread).symm.trans asleep) rfl rfl

omit [DecidableEq C] in
/-- Only `wait` makes a zombie unused, and then no CPU names it. -/
theorem Changed.reaps {event : Event C} (changed : Changed event s t) (mem : Memory s)
    (zombie : (s.proc q).state = .zombie) (unused : (t.proc q).state = .unused) (c : C) :
    (s.cpu c).proc ≠ some q := by
  have kept (same : (t.proc q).state = .zombie) : False := by cases same.symm.trans unused
  have filled {p np : Fin nProc} {x : Proc} {work : Work} (fills : Fills s t p np x work)
      (old : (s.proc np).state ≠ .zombie) : False := by
    have apart : q ≠ np := by
      rintro rfl
      exact old zombie
    exact kept (by rw [fills.other apart, zombie])
  have embryo {p np : Fin nProc} (target : (s.proc p).work.target = some np) :
      (s.proc np).state ≠ .zombie := by
    rw [mem.forks p np target]
    decide
  cases changed with
  | moved proc states rest =>
    exact (kept ((steady_moved proc states rest q).zombie.mpr zombie)).elim
  | woken proc => exact (kept (proc ▸ (Steady.wakeup1 s.proc _ q).zombie.mpr zombie)).elim
  | killed _ hit rest => exact (kept ((steady_killed hit rest q).zombie.mpr zombie)).elim
  | slot _ _ _ _ unused fills => exact (filled fills (by rw [unused]; decide)).elim
  | stack _ _ work fills | copied _ _ work fills | fork _ _ work fills =>
    exact (filled fills (embryo (by rw [work]; rfl))).elim
  | @gaveUp p np _ _ _ _ work fills =>
    have target : (s.proc p).work.target = some np := by
      rcases work with work | work <;> rw [work] <;> rfl
    exact (filled fills (embryo target)).elim
  | @exit p proc running _ exits proc_eq =>
    have apart : q ≠ p := by
      rintro rfl
      cases running.symm.trans zombie
    exact (kept ((exits.others proc_eq apart).zombie.mpr zombie)).elim
  | @reaped p q' x y running _ _ off slot _ proc =>
    by_cases here : q = q'
    · rw [here]
      exact off c
    · refine (kept ?_).elim
      have apart : q ≠ p := by
        rintro rfl
        cases running.symm.trans zombie
      rw [proc, update_of_ne here, update_of_ne apart, zombie]

/-! ## The main result -/

/-- In every run, for any CPUs: while the lock is free, a process is `RUNNING` if and only if it is
the process of exactly one CPU; a process that sleeps, can run or runs has a kernel stack and a page
directory, and `switchuvm` does not panic; and a step frees no page that is the stack or the page
directory of a CPU, in particular not those of the zombie that it makes unused. -/
theorem scheduler_safe {past : List (Event C)} (ran : Ran C past s) :
    (s.lock = none →
      ∀ p, (s.proc p).state = .running ↔ ∃! c, (s.cpu c).proc = some p) ∧
    (∀ p, (s.proc p).state = .sleeping ∨ (s.proc p).state = .runnable ∨
      (s.proc p).state = .running → (s.proc p).kstack ≠ 0 ∧ (s.proc p).pgdir ≠ 0) ∧
    s.panicked ≠ some "switchuvm: no kstack" ∧ s.panicked ≠ some "switchuvm: no pgdir" ∧
    ∀ event t, s.step event = some t →
      (∀ page, s.pages page = true → t.pages page = false →
        ∀ c, (s.cpu c).stack ≠ page ∧ (s.cpu c).cr3 ≠ page) ∧
      ∀ q, (s.proc q).state = .zombie → (t.proc q).state = .unused →
        ∀ c, (s.cpu c).stack ≠ (s.proc q).kstack ∧ (s.cpu c).cr3 ≠ (s.proc q).pgdir := by
  obtain ⟨inv, mem⟩ := Ran.safe ran
  have panicked : s.panicked = none ∨ s.panicked = some "zombie exit" ∨
      s.panicked = some "init exiting" := by
    cases ran with
    | nil start => exact .inl start.panicked
    | cons before taken =>
      obtain ⟨calm, step⟩ := took_of_step taken
      have outcome := step.panicked (Ran.safe before).2
      rwa [calm] at outcome
  refine ⟨fun free p => ⟨fun running => ?_, ?_⟩, fun p state => ?_, ?_, ?_, fun event t taken => ?_⟩
  · obtain ⟨c, thread⟩ := inv.placed p running
    have names := inv.proc_eq thread
    exact ⟨c, names, fun d names' => inv.alone d c p names' names⟩
  · rintro ⟨c, names, -⟩
    rcases inv.named names with on | back
    · exact inv.running on
    · exact absurd back (inv.not_back (by simp [free]))
  · apply mem.live
    rcases state with state | state | state <;> simp [state, Live]
  · rcases panicked with text | text | text <;> simp [text]
  · rcases panicked with text | text | text <;> simp [text]
  · obtain ⟨-, step⟩ := took_of_step taken
    refine ⟨fun page allocated free => step.freed_unused inv mem allocated free, ?_⟩
    intro q zombie unused c
    have owns := mem.live q (by simp [zombie, Live])
    constructor
    · intro same
      obtain ⟨p, running, uses⟩ := (inv.uses owns.1).1 same
      cases mem.ledger.once _ (q, .stack) _ uses ⟨owns.1, rfl⟩
      cases running.symm.trans zombie
    · intro same
      obtain ⟨p, names, uses⟩ := (inv.uses owns.2).2 same
      cases mem.ledger.once _ (q, .table) _ uses ⟨owns.2, rfl, .inl (by simp [zombie, Live])⟩
      exact (step.changed inv mem).reaps mem zombie unused c names

/-- The table after `userinit` is one to start from. -/
theorem booted_initial (C : Type) : Initial (booted C) where
  first := ⟨1, 2, by decide, by decide, by decide, rfl, fun page => by simp [booted]⟩
  rest := fun p apart => by simp [booted, apart]
  cpus := fun _ => rfl
  lock := rfl
  nextpid := rfl
  panicked := rfl
  calls := rfl

/-- The slot of the first child. -/
def second : Fin nProc := ⟨1, by decide⟩

/-- The first process forks, the child exits, and the first process is about to reap it. -/
def reaping : List (Event Unit) :=
  [.acquire (), .pick (), .resume (), .allocproc (), .kalloc () (some 3), .copyuvm () (some 4),
    .fork (), .wait (), .back (), .pick (), .resume (), .exit (), .back (), .pick (),
    .acquire (), .pick ()]

/-- The child is reaped when no CPU is on its stack. -/
theorem scheduler_safe_reaping : ∃ s t : State Unit, Ran Unit reaping.reverse s ∧
    s.step (.resume ()) = some t ∧ (s.proc second).state = .zombie ∧
      (t.proc second).state = .unused ∧
      ∀ c, (s.cpu c).stack ≠ (s.proc second).kstack ∧ (s.cpu c).cr3 ≠ (s.proc second).pgdir := by
  have runs : (replay step reaping (booted Unit)).any (fun s =>
      (s.proc second).state = .zombie ∧
        (s.step (.resume ())).any fun t => (t.proc second).state = .unused) = true := by
    decide +kernel
  obtain ⟨s, ran, holds⟩ := History.of_replay (booted_initial Unit) runs
  simp only [Bool.decide_and, Bool.and_eq_true, decide_eq_true_eq, Option.any_eq_true] at holds
  obtain ⟨zombie, t, taken, unused⟩ := holds
  have safe := (scheduler_safe ran).2.2.2.2 _ t taken
  exact ⟨s, t, ran, taken, zombie, unused, safe.2 second zombie unused⟩

end State

end Xv6.Sched
