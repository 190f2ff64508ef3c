import Mathlib.Data.List.FinRange
import Mathlib.Logic.Function.Basic
import Xv6.Lib.Transition
import Xv6.Kernel.Vm

/-!
# Processes and CPUs

The process table of `proc.c`, the scheduler of every CPU, and what processes do to the table. A
step is a stretch of code on one CPU: a critical section of `ptable.lock`, cut where `swtch` changes
stacks with the lock held, or the code of `fork` between two critical sections. A timer interrupt
may call `yield` between any two steps of a process. The pages `kalloc` and `copyuvm` return are
inputs of the run, as are their failures. The order of steps of different CPUs is that of the run.
The calls that `fork`, `exit` and `wait` complete are put on record for the specification, and so is
whether a process has been named by `kill` or has faulted; the code does not see the record.
-/

namespace Xv6

open Function

/-- `enum procstate`. -/
inductive Procstate where
  | unused
  | embryo
  | sleeping
  | runnable
  | running
  | zombie
  deriving DecidableEq

namespace Sched

/-- What a process can sleep on: the address of a slot of the table, or another address. -/
inductive Chan where
  /-- `&ptable.proc[p]`, for `wait`. -/
  | proc (p : Fin nProc)
  | other (address : Nat)
  deriving DecidableEq

/-- Where a process goes on that has been switched to. -/
inductive Context where
  | forkret
  /-- In `yield`, after `sched`. -/
  | yield
  /-- In `sleep` with another lock than `ptable.lock`, after `sched`. -/
  | sleep
  /-- In the `sleep` of `wait`, after `sched`. -/
  | wait
  /-- In `exit`, after `sched`. -/
  | exit
  deriving DecidableEq

/-- How far a process is in `fork`. -/
inductive Work where
  | none
  /-- `allocproc` has taken a slot. -/
  | slot (np : Fin nProc)
  /-- The slot has a kernel stack. -/
  | stack (np : Fin nProc)
  /-- The process has been copied to the slot. -/
  | copied (np : Fin nProc)
  deriving DecidableEq

/-- `struct proc`, with the position of the process. -/
structure Proc where
  state : Procstate
  pid : UInt32
  parent : Option (Fin nProc)
  /-- What it sleeps on. -/
  chan : Option Chan
  killed : Bool
  /-- Bottom of kernel stack for this process; 0 if there is none. -/
  kstack : Nat
  /-- Page table; 0 if there is none. -/
  pgdir : Nat
  /-- `swtch` here to run process. -/
  context : Context
  /-- How far it is in `fork`. -/
  work : Work
  /-- Since `allocproc`, `kill` was called with its pid, or it faulted. -/
  blamed : Bool

/-- A slot of the table before its first use. -/
def Proc.zero : Proc where
  state := .unused
  pid := 0
  parent := .none
  chan := .none
  killed := false
  kstack := 0
  pgdir := 0
  context := .forkret
  work := .none
  blamed := false

/-- What a CPU executes. -/
inductive Thread where
  /-- `scheduler`, without the lock. -/
  | idle
  /-- The loop of `scheduler`, about to look at a slot. -/
  | scan (next : Nat)
  /-- `scheduler`, switched back to from a process. -/
  | back (p : Fin nProc)
  | process (p : Fin nProc)
  deriving DecidableEq

/-- `struct cpu`, with its stack pointer and its page table register. -/
structure Cpu where
  /-- The process running on this cpu or null. -/
  proc : Option (Fin nProc)
  /-- What it executes. -/
  thread : Thread
  /-- The kernel stack it is on; 0 for the scheduler's own. -/
  stack : Nat
  /-- The page table it has loaded; 0 for the kernel's own. -/
  cr3 : Nat

/-- A completed call, with the pid of the caller. -/
inductive Call where
  | forked (caller pid : UInt32)
  | exited (caller : UInt32)
  | waited (caller pid : UInt32)
  deriving DecidableEq

/-- The first process. -/
def initproc : Fin nProc := ⟨0, by decide⟩

/-- The process table and the CPUs. -/
structure State (C : Type) where
  proc : Fin nProc → Proc
  cpu : C → Cpu
  /-- Who holds `ptable.lock`. -/
  lock : Option C
  nextpid : UInt32
  /-- The pages that are allocated. -/
  pages : Nat → Bool
  /-- The message of a panic. -/
  panicked : Option String
  /-- The completed calls, latest first. -/
  calls : List Call

/-- Who takes a step, and what it does not determine itself. -/
inductive Event (C : Type) where
  /-- `scheduler` acquires the lock. -/
  | acquire (c : C)
  /-- `scheduler` switches to the next process, or releases the lock. -/
  | pick (c : C)
  /-- `scheduler` goes on after a process. -/
  | back (c : C)
  /-- A process goes on after the switch to it. -/
  | resume (c : C)
  | yield (c : C)
  /-- `sleep` with another lock than `ptable.lock`, or with none. -/
  | sleep (c : C) (chan : Chan)
  /-- `wakeup`, by a process or an interrupt handler. -/
  | wakeup (chan : Chan)
  | kill (pid : UInt32)
  /-- The critical section of `allocproc`, called by `fork`. -/
  | allocproc (c : C)
  /-- The rest of `allocproc`, with the page `kalloc` returns. -/
  | kalloc (c : C) (page : Option Nat)
  /-- `fork` up to its critical section, with the page directory `copyuvm` returns. -/
  | copyuvm (c : C) (page : Option Nat)
  /-- The critical section of `fork`. -/
  | fork (c : C)
  /-- The critical section of `exit`. -/
  | exit (c : C)
  | wait (c : C)
  /-- `trap` finds that the process misbehaved in user space. -/
  | fault (c : C)

namespace State

variable {C : Type} [DecidableEq C]

/-- A panic. -/
def panic (s : State C) (message : String) : State C := { s with panicked := some message }

/-- Change a slot of the table. -/
def setProc (s : State C) (p : Fin nProc) (change : Proc → Proc) : State C :=
  { s with proc := update s.proc p (change (s.proc p)) }

/-- Change a CPU. -/
def setCpu (s : State C) (c : C) (change : Cpu → Cpu) : State C :=
  { s with cpu := update s.cpu c (change (s.cpu c)) }

/-- `kfree`, or `freevm` as far as the page directory goes. -/
def kfree (s : State C) (page : Nat) : State C :=
  { s with pages := update s.pages page false }

/-- The process on a CPU that does not hold the lock. -/
def running (s : State C) (c : C) : Option (Fin nProc) :=
  match (s.cpu c).thread with
  | .process p => if s.lock = some c then none else some p
  | _ => none

/-- The process on a CPU, when the lock is free. -/
def entering (s : State C) (c : C) : Option (Fin nProc) :=
  if s.lock = none then s.running c else none

/-- `sched`: switch from a process to the scheduler, with the lock held. -/
def sched (s : State C) (c : C) (p : Fin nProc) (context : Context) : State C :=
  let s := s.setProc p fun proc => { proc with context := context }
  let s := s.setCpu c fun cpu => { cpu with thread := .back p, stack := 0 }
  { s with lock := some c }

end State

/-- `wakeup1`. -/
def wakeup1 (proc : Fin nProc → Proc) (chan : Chan) : Fin nProc → Proc := fun p =>
  if (proc p).state = .sleeping ∧ (proc p).chan = some chan then
    { proc p with state := .runnable }
  else proc p

/-- The loop of `exit` over the table: pass abandoned children to init. -/
def abandon (curproc : Fin nProc) : List (Fin nProc) → (Fin nProc → Proc) → Fin nProc → Proc
  | [], proc => proc
  | p :: rest, proc =>
    if (proc p).parent = some curproc then
      let proc := update proc p { proc p with parent := some initproc }
      if (proc p).state = .zombie then abandon curproc rest (wakeup1 proc (.proc initproc))
      else abandon curproc rest proc
    else abandon curproc rest proc

namespace State

variable {C : Type} [DecidableEq C]

/-- `switchuvm`, then `swtch` to the process. -/
def switch (s : State C) (c : C) (p : Fin nProc) : State C :=
  let s := s.setCpu c fun cpu => { cpu with proc := some p }
  if (s.proc p).kstack = 0 then s.panic "switchuvm: no kstack"
  else if (s.proc p).pgdir = 0 then s.panic "switchuvm: no pgdir"
  else
    let s := s.setCpu c fun cpu =>
      { cpu with thread := .process p, stack := (s.proc p).kstack, cr3 := (s.proc p).pgdir }
    s.setProc p fun proc => { proc with state := .running }

/-- The loop of `scheduler` from a slot on. -/
def pick (s : State C) (c : C) (next : Nat) : State C :=
  match (List.finRange nProc).find? fun p =>
      next ≤ p.val ∧ (s.proc p).state = .runnable with
  | some p => s.switch c p
  | none => { s.setCpu c (fun cpu => { cpu with thread := .idle }) with lock := none }

/-- `kill`: the slot it finds. -/
def target (s : State C) (pid : UInt32) : Option (Fin nProc) :=
  (List.finRange nProc).find? fun p => (s.proc p).pid = pid

/-- `kill`, with what it returns. -/
def kill (s : State C) (pid : UInt32) : Int × State C :=
  match s.target pid with
  | some p =>
    (0, s.setProc p fun proc =>
      { proc with killed := true
                  state := if proc.state = .sleeping then .runnable else proc.state })
  | none => (-1, s)

/-- Put on record that `kill` was called with a pid. -/
def blame (s : State C) (pid : UInt32) : State C :=
  { s with proc := fun p => { s.proc p with
    blamed := (s.proc p).blamed || decide ((s.proc p).pid = pid) } }

/-- The loop of `wait`, with the lock held. -/
def waitLoop (s : State C) (c : C) (curproc : Fin nProc) : State C :=
  match (List.finRange nProc).find? fun p =>
      (s.proc p).parent = some curproc ∧ (s.proc p).state = .zombie with
  | some p =>
    -- Found one.
    let call := Call.waited (s.proc curproc).pid (s.proc p).pid
    let s := (s.kfree (s.proc p).kstack).kfree (s.proc p).pgdir
    let s := s.setProc p fun proc =>
      { proc with kstack := 0, pid := 0, parent := .none, killed := false, state := .unused }
    { s with lock := none, calls := call :: s.calls }
  | none =>
    if (∀ p, (s.proc p).parent ≠ some curproc) ∨ (s.proc curproc).killed then
      { s with lock := none }
    else
      let s := s.setProc curproc fun proc =>
        { proc with chan := some (.proc curproc), state := .sleeping }
      s.sched c curproc .wait

/-- What a process does when it has been switched to. -/
def resume (s : State C) (c : C) (p : Fin nProc) : State C :=
  match (s.proc p).context with
  | .forkret | .yield => { s with lock := none }
  | .sleep => { s.setProc p (fun proc => { proc with chan := .none }) with lock := none }
  | .wait => (s.setProc p fun proc => { proc with chan := .none }).waitLoop c p
  | .exit => s.panic "zombie exit"

/-- The critical section of `allocproc`. -/
def allocproc (s : State C) (p : Fin nProc) : State C :=
  match (List.finRange nProc).find? fun np => (s.proc np).state = .unused with
  | some np =>
    let s := s.setProc np fun proc =>
      { proc with state := .embryo, pid := s.nextpid, blamed := false }
    { s.setProc p (fun proc => { proc with work := .slot np }) with nextpid := s.nextpid + 1 }
  | none => s

/-- The critical section of `exit`. -/
def exit (s : State C) (c : C) (p : Fin nProc) : State C :=
  let call := Call.exited (s.proc p).pid
  -- Parent might be sleeping in wait().
  let proc := match (s.proc p).parent with
    | some parent => wakeup1 s.proc (.proc parent)
    | none => s.proc
  let s := { s with proc := abandon p (List.finRange nProc) proc }
  let s := s.setProc p fun proc => { proc with state := .zombie }
  { s.sched c p .exit with calls := call :: s.calls }

/-- The step relation. -/
def step (s : State C) (event : Event C) : Option (State C) :=
  if s.panicked ≠ none then none else
  match event with
  | .acquire c =>
    if s.lock = none ∧ (s.cpu c).thread = .idle then
      some { s.setCpu c (fun cpu => { cpu with thread := .scan 0 }) with lock := some c }
    else none
  | .pick c =>
    match (s.cpu c).thread with
    | .scan next => some (s.pick c next)
    | _ => none
  | .back c =>
    match (s.cpu c).thread with
    | .back p =>
      some (s.setCpu c fun cpu => { cpu with cr3 := 0, proc := none, thread := .scan (p + 1) })
    | _ => none
  | .resume c =>
    match (s.cpu c).thread with
    | .process p => if s.lock = some c then some (s.resume c p) else none
    | _ => none
  | .yield c =>
    (s.entering c).map fun p =>
      (s.setProc p fun proc => { proc with state := .runnable }).sched c p .yield
  | .sleep c chan =>
    (s.entering c).map fun p =>
      (s.setProc p fun proc => { proc with chan := some chan, state := .sleeping }).sched c p .sleep
  | .wakeup chan => if s.lock = none then some { s with proc := wakeup1 s.proc chan } else none
  | .kill pid => if s.lock = none then some ((s.kill pid).2.blame pid) else none
  | .allocproc c =>
    (s.entering c).bind fun p => if (s.proc p).work = .none then some (s.allocproc p) else none
  | .kalloc c page =>
    (s.running c).bind fun p =>
      match (s.proc p).work, page with
      | .slot np, some page =>
        if page = 0 ∨ s.pages page then none else
          let s := { s with pages := update s.pages page true }
          let s := s.setProc np fun proc => { proc with kstack := page, context := .forkret }
          some (s.setProc p fun proc => { proc with work := .stack np })
      | .slot np, none =>
        let s := s.setProc np fun proc => { proc with kstack := 0, state := .unused }
        some (s.setProc p fun proc => { proc with work := .none })
      | _, _ => none
  | .copyuvm c page =>
    (s.running c).bind fun p =>
      match (s.proc p).work, page with
      | .stack np, some page =>
        if page = 0 ∨ s.pages page then none else
          let s := { s with pages := update s.pages page true }
          let s := s.setProc np fun proc => { proc with pgdir := page, parent := some p }
          some (s.setProc p fun proc => { proc with work := .copied np })
      | .stack np, none =>
        let s := s.kfree (s.proc np).kstack
        let s := s.setProc np fun proc => { proc with pgdir := 0, kstack := 0, state := .unused }
        some (s.setProc p fun proc => { proc with work := .none })
      | _, _ => none
  | .fork c =>
    (s.entering c).bind fun p =>
      match (s.proc p).work with
      | .copied np =>
        let call := Call.forked (s.proc p).pid (s.proc np).pid
        let s := s.setProc np fun proc => { proc with state := .runnable }
        some { s.setProc p (fun proc => { proc with work := .none }) with calls := call :: s.calls }
      | _ => none
  | .exit c =>
    (s.entering c).bind fun p =>
      if (s.proc p).work ≠ .none then none
      else if p = initproc then some (s.panic "init exiting")
      else some (s.exit c p)
  | .wait c =>
    (s.entering c).bind fun p =>
      if (s.proc p).work = .none then some (s.waitLoop c p) else none
  | .fault c =>
    (s.running c).bind fun p =>
      if (s.proc p).work = .none then
        some (s.setProc p fun proc => { proc with killed := true, blamed := true })
      else none

/-- After `userinit`: the first process can run, and every CPU is in `scheduler`. -/
structure Initial (s : State C) : Prop where
  first : ∃ kstack pgdir, kstack ≠ 0 ∧ pgdir ≠ 0 ∧ kstack ≠ pgdir ∧
    s.proc initproc =
      { Proc.zero with state := .runnable, pid := 1, kstack := kstack, pgdir := pgdir } ∧
    ∀ page, s.pages page = true ↔ page = kstack ∨ page = pgdir
  /-- The other slots are unused. -/
  rest : ∀ p, p ≠ initproc → s.proc p = Proc.zero
  /-- Every CPU is about to look for a process. -/
  cpus : ∀ c, s.cpu c = ⟨none, .idle, 0, 0⟩
  lock : s.lock = none
  nextpid : s.nextpid = 2
  /-- Nothing has gone wrong. -/
  panicked : s.panicked = none
  /-- No call has been made. -/
  calls : s.calls = []

/-- Histories from the start. -/
abbrev Ran (C : Type) [DecidableEq C] : List (Event C) → State C → Prop := Lib.History Initial step

/-- The table and the CPUs after `userinit`. -/
def booted (C : Type) : State C where
  proc := fun p =>
    if p = initproc then { Proc.zero with state := .runnable, pid := 1, kstack := 1, pgdir := 2 }
    else Proc.zero
  cpu := fun _ => ⟨none, .idle, 0, 0⟩
  lock := none
  nextpid := 2
  pages := fun page => page = 1 || page = 2
  panicked := none
  calls := []

end State

end Sched

end Xv6
