import Mathlib.Logic.Function.Basic
import Xv6.Lib.Transition
import Xv6.Kernel.Sched

/-!
# Spin locks, sleep and wakeup

`acquire`, `release`, `sleep`, `wakeup` and `kill`, for any number of processes that run any code. A
step is one lock operation, or a stretch of code between two of them; steps of different processes
come in any order. `sleep` and `wakeup` are cut at every operation on a lock: `sleep` first acquires
`ptable.lock`, then releases the lock it was given, then changes the state of the process and
switches, which hands `ptable.lock` to the scheduler; when the scheduler has switched back it gives
up `ptable.lock` and acquires its own lock again. A process that could be preempted counts as
running. An interrupt handler is a process of its own here.
-/

namespace Xv6.Sleep

open Function

/-- A spin lock. -/
inductive Lock (L : Type) where
  | ptable
  /-- A lock of the code that sleeps. -/
  | own (lk : L)
  deriving DecidableEq

/-- What the code of a process does next. -/
inductive Instr (L Ch κ σ : Type) where
  /-- Nothing, until something is chosen for it. -/
  | idle
  | acquire (lk : Lock L) (next : κ)
  | release (lk : Lock L) (next : κ)
  /-- `sleep(chan, lk)`; the lock may be null. -/
  | sleep (chan : Ch) (lk : Option (Lock L)) (next : κ)
  | wakeup (chan : Ch) (next : κ)
  /-- Code that reads the flag `killed` and works on shared data. -/
  | run (code : Bool → σ → σ × κ)

/-- The code of processes `P`, at positions `κ`, over shared data `σ`. -/
structure Client (P L Ch κ σ : Type) where
  /-- The instruction at a position. -/
  instr : P → κ → Instr L Ch κ σ
  /-- What may be chosen at an idle position, and what it does to the shared data. -/
  enter : P → κ → κ → σ → Option σ
  /-- Where a process starts. -/
  start : κ
  /-- The shared data at the start. -/
  initial : σ → Prop

/-- Where a process is. -/
inductive Pos (L Ch κ : Type) where
  | code (k : κ)
  /-- In `sleep`, about to acquire `ptable.lock`. -/
  | sleepAcquire (chan : Ch) (lk : Option (Lock L)) (next : κ)
  | sleepRelease (chan : Ch) (lk : Lock L) (next : κ)
  /-- In `sleep`, about to change its state and to call `sched`. -/
  | sleepSwitch (chan : Ch) (lk : Option (Lock L)) (next : κ)
  /-- In `sched`, switched away from. -/
  | switched (lk : Option (Lock L)) (next : κ)
  /-- In `sleep`, after `sched`. -/
  | sleepTidy (lk : Option (Lock L)) (next : κ)
  /-- In `sleep`, about to acquire its lock again. -/
  | sleepReacquire (lk : Lock L) (next : κ)
  /-- In `wakeup`, about to acquire `ptable.lock`. -/
  | wakeAcquire (chan : Ch) (next : κ)
  /-- In `wakeup`, with the lock. -/
  | wakeLoop (chan : Ch) (next : κ)

/-- A process. -/
structure Thread (L Ch κ : Type) where
  pos : Pos L Ch κ
  state : Procstate
  /-- What it sleeps on. -/
  chan : Option Ch
  killed : Bool

/-- Processes, locks and shared data. -/
structure State (P L Ch κ σ : Type) where
  thread : P → Thread L Ch κ
  /-- Who holds a lock. -/
  held : Lock L → Option P
  shared : σ

/-- Who takes a step. -/
inductive Event (P κ : Type) where
  /-- A process takes its next step. -/
  | run (p : P)
  /-- The scheduler switches to a process. -/
  | switch (p : P)
  /-- `kill`, with the pid of a process. -/
  | kill (p : P)
  /-- Something is chosen for an idle process. -/
  | choose (p : P) (k : κ)

variable {P L Ch κ σ : Type} [DecidableEq P] [DecidableEq L] [DecidableEq Ch]

namespace State

/-- Put a process at a position. -/
def goto (s : State P L Ch κ σ) (p : P) (pos : Pos L Ch κ) : State P L Ch κ σ :=
  { s with thread := update s.thread p { s.thread p with pos := pos } }

/-- Set the holder of a lock. -/
def setHeld (s : State P L Ch κ σ) (lk : Lock L) (holder : Option P) : State P L Ch κ σ :=
  { s with held := update s.held lk holder }

/-- `acquire`: the lock has to be free. -/
def acquire (s : State P L Ch κ σ) (p : P) (lk : Lock L) (pos : Pos L Ch κ) :
    Option (State P L Ch κ σ) :=
  if s.held lk = none then some ((s.setHeld lk (some p)).goto p pos) else none

/-- `release`. -/
def release (s : State P L Ch κ σ) (p : P) (lk : Lock L) (pos : Pos L Ch κ) : State P L Ch κ σ :=
  (s.setHeld lk none).goto p pos

/-- `wakeup1`. -/
def wakeup1 (s : State P L Ch κ σ) (chan : Ch) : State P L Ch κ σ :=
  { s with thread := fun p =>
      if (s.thread p).state = .sleeping ∧ (s.thread p).chan = some chan then
        { s.thread p with state := .runnable }
      else s.thread p }

/-- `kill` finds a process. -/
def kill (s : State P L Ch κ σ) (p : P) : State P L Ch κ σ :=
  { s with thread := update s.thread p { s.thread p with
      killed := true
      state := if (s.thread p).state = .sleeping then .runnable else (s.thread p).state } }

/-- An instruction. -/
def exec (s : State P L Ch κ σ) (p : P) : Instr L Ch κ σ → Option (State P L Ch κ σ)
  | .idle => none
  | .acquire lk next => s.acquire p lk (.code next)
  | .release lk next => some (s.release p lk (.code next))
  | .sleep chan lk next =>
    if lk = some .ptable then some (s.goto p (.sleepSwitch chan lk next))
    else some (s.goto p (.sleepAcquire chan lk next))
  | .wakeup chan next => some (s.goto p (.wakeAcquire chan next))
  | .run code =>
    let result := code (s.thread p).killed s.shared
    some (State.goto { s with shared := result.1 } p (.code result.2))

/-- One step of a process. -/
def advance (client : Client P L Ch κ σ) (s : State P L Ch κ σ) (p : P) :
    Option (State P L Ch κ σ) :=
  match (s.thread p).pos with
  | .code k => s.exec p (client.instr p k)
  | .sleepAcquire chan lk next =>
    s.acquire p .ptable (match lk with
      | some lk => .sleepRelease chan lk next
      | none => .sleepSwitch chan none next)
  | .sleepRelease chan lk next => some (s.release p lk (.sleepSwitch chan (some lk) next))
  | .sleepSwitch chan lk next =>
    -- Go to sleep.
    let thread := { s.thread p with
      chan := some chan, state := .sleeping, pos := .switched lk next }
    some { s.setHeld .ptable none with thread := update s.thread p thread }
  | .switched _ _ => none
  | .sleepTidy lk next =>
    -- Tidy up.
    let s := { s with thread := update s.thread p { s.thread p with chan := none } }
    some (match lk with
      | some .ptable => s.goto p (.code next)
      | some (.own lk) => s.release p .ptable (.sleepReacquire (.own lk) next)
      | none => s.release p .ptable (.code next))
  | .sleepReacquire lk next => s.acquire p lk (.code next)
  | .wakeAcquire chan next => s.acquire p .ptable (.wakeLoop chan next)
  | .wakeLoop chan next => some ((s.wakeup1 chan).release p .ptable (.code next))

/-- The step relation. -/
def step (client : Client P L Ch κ σ) (s : State P L Ch κ σ) : Event P κ → Option (State P L Ch κ σ)
  | .run p => s.advance client p
  | .switch p =>
    match (s.thread p).pos with
    | .switched lk next =>
      if (s.thread p).state = .runnable ∧ s.held .ptable = none then
        some { s.setHeld .ptable (some p) with
          thread := update s.thread p { s.thread p with
            pos := .sleepTidy lk next, state := .running } }
      else none
    | _ => none
  | .kill p => if s.held .ptable = none then some (s.kill p) else none
  | .choose p k' =>
    match (s.thread p).pos with
    | .code k =>
      match client.instr p k with
      | .idle => (client.enter p k k' s.shared).map fun shared =>
        State.goto { s with shared := shared } p (.code k')
      | _ => none
    | _ => none

omit [DecidableEq P] [DecidableEq L] [DecidableEq Ch] in
/-- Every process is about to start, and no lock is held. -/
structure Initial (client : Client P L Ch κ σ) (s : State P L Ch κ σ) : Prop where
  threads : ∀ p, s.thread p = ⟨.code client.start, .running, none, false⟩
  locks : ∀ lk, s.held lk = none
  shared : client.initial s.shared

/-- Histories from the start. -/
abbrev Ran (client : Client P L Ch κ σ) : List (Event P κ) → State P L Ch κ σ → Prop :=
  Lib.History (Initial client) (step client)

/-- Histories whose every step meets a condition. -/
abbrev RanWithin (client : Client P L Ch κ σ) (meets : State P L Ch κ σ → Event P κ → Prop) :
    List (Event P κ) → State P L Ch κ σ → Prop :=
  Lib.Within (Initial client) (step client) fun _ => meets

/-- The processes and locks at the start. -/
def booted (client : Client P L Ch κ σ) (shared : σ) : State P L Ch κ σ where
  thread := fun _ => ⟨.code client.start, .running, none, false⟩
  held := fun _ => none
  shared := shared

end State

end Xv6.Sleep
