import Xv6.Kernel.Sleep

/-!
# Sleepers and wakers

Processes that share data under a lock and a predicate of the data, as in `sleep1.p`: a sleeper
tests the predicate with the lock and calls `sleep` when it is false; a waker makes it true with the
lock, and calls `wakeup` before or after it releases the lock. With the lock a process may write any
data; a write that makes the predicate true makes the process a waker. What a process does next is
chosen each time, so every order of these actions is a run. The positions carry on record whether
the process has made the predicate true and has not called `wakeup` since.
-/

namespace Xv6.Signal

open Sleep

/-- Where a process is; the flag says whether it is to call `wakeup`. -/
inductive At (σ : Type) where
  /-- Without the lock. -/
  | outside (owes : Bool)
  /-- About to acquire the lock. -/
  | acquire (owes : Bool)
  | inside (owes : Bool)
  | write (owes : Bool) (new : σ)
  /-- About to test the predicate. -/
  | test (owes : Bool)
  | sleep (owes : Bool)
  /-- About to wake, with the lock or without. -/
  | wakeup (owes held : Bool)
  | woke (owes held : Bool)
  /-- About to release the lock. -/
  | release (owes : Bool)

/-- The instructions. -/
def instr {P σ : Type} (pred : σ → Prop) [DecidablePred pred] (_ : P) :
    At σ → Instr Unit Unit (At σ) σ
  | .outside _ | .inside _ => .idle
  | .acquire owes => .acquire (.own ()) (.inside owes)
  | .write owes new =>
    .run fun _ old => (new, .inside (owes || !decide (pred old) && decide (pred new)))
  | .test owes => .run fun _ x => (x, if pred x then .inside owes else .sleep owes)
  | .sleep owes => .sleep () (some (.own ())) (.inside owes)
  | .wakeup owes held => .wakeup () (.woke owes held)
  | .woke _ held => .run fun _ x => (x, if held then .inside false else .outside false)
  | .release owes => .release (.own ()) (.outside owes)

/-- What a process may do next. -/
def enter {P σ : Type} (_ : P) (k next : At σ) (x : σ) : Option σ :=
  match k, next with
  | .outside owes, .acquire owes' | .outside owes, .wakeup owes' false
  | .inside owes, .write owes' _ | .inside owes, .test owes' | .inside owes, .wakeup owes' true
  | .inside owes, .release owes' => if owes = owes' then some x else none
  | _, _ => none

/-- Sleepers and wakers. -/
def client (P : Type) {σ : Type} (pred : σ → Prop) [DecidablePred pred] :
    Client P Unit Unit (At σ) σ where
  instr := instr pred
  enter := enter
  start := .outside false
  initial := fun _ => True

/-- The process has made the predicate true and has not called `wakeup`. -/
def At.owes {σ : Type} : At σ → Bool
  | .outside owes | .acquire owes | .inside owes | .write owes _ | .test owes | .sleep owes
  | .wakeup owes _ | .release owes => owes
  | .woke _ _ => false

/-- It made the predicate true before the call of `wakeup` that returns here. -/
def At.owed {σ : Type} : At σ → Bool
  | .woke owes _ => owes
  | _ => false

/-- A waker is between making the predicate true and completing `wakeup`. -/
def Waking {σ : Type} : Pos Unit Unit (At σ) → Prop
  | .code k => k.owes = true
  | .sleepAcquire _ _ next | .sleepRelease _ _ next | .sleepSwitch _ _ next | .switched _ next
  | .sleepTidy _ next | .sleepReacquire _ next => next.owes = true
  | .wakeAcquire _ next | .wakeLoop _ next => next.owed = true

instance {σ : Type} (pos : Pos Unit Unit (At σ)) : Decidable (Waking pos) := by
  cases pos <;> unfold Waking <;> infer_instance

end Xv6.Signal
