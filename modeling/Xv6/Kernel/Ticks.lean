import Xv6.Kernel.Sleep

/-!
# Sleeping for some ticks

`sys_sleep`, and the timer interrupt, which increments `ticks` and calls `wakeup`. There is no lock:
each read of `ticks` and of `killed` is a step. The handler takes its steps as one of the processes;
it runs on one CPU with interrupts off, so it does not start while it runs. The ticks counted since
the system started are on record, and how many there were when a call read `ticks0`; the code does
not see the record.
-/

namespace Xv6.Ticks

open Sleep

/-- The counter. -/
structure Shared where
  ticks : UInt32
  /-- The ticks counted so far. -/
  total : Nat
  /-- The timer interrupt is being handled. -/
  handling : Bool

/-- A call of `sys_sleep`. -/
structure Call where
  n : Int32
  ticks0 : UInt32
  /-- The ticks counted when it was read. -/
  since : Nat

/-- Where a process is. -/
inductive At where
  /-- In none of the calls. -/
  | idle
  /-- `sys_sleep`: about to read `ticks`. -/
  | call (n : Int32)
  /-- `sys_sleep`: the test of the loop. -/
  | test (call : Call)
  /-- `sys_sleep`: about to test `killed`. -/
  | check (call : Call)
  /-- `sys_sleep`: about to sleep. -/
  | sleep (call : Call)
  /-- `trap`: about to increment `ticks`. -/
  | tick
  | wake
  /-- `trap`: about to return. -/
  | done

/-- The instructions. -/
def instr {P : Type} (_ : P) : At → Instr Empty Unit At Shared
  | .idle => .idle
  | .call n => .run fun _ shared => (shared, .test ⟨n, shared.ticks, shared.total⟩)
  | .test call => .run fun _ shared =>
    -- The comparison is one of unsigned integers.
    (shared, if shared.ticks - call.ticks0 < call.n.toUInt32 then .check call else .idle)
  | .check call => .run fun killed shared => (shared, if killed then .idle else .sleep call)
  | .sleep call => .sleep () none (.test call)
  | .tick => .run fun _ shared =>
    ({ shared with ticks := shared.ticks + 1, total := shared.total + 1 }, .wake)
  | .wake => .wakeup () .done
  | .done => .run fun _ shared => ({ shared with handling := false }, .idle)

/-- A process may call `sys_sleep`, and the timer may interrupt. -/
def enter {P : Type} (_ : P) (k next : At) (shared : Shared) : Option Shared :=
  match k, next with
  | .idle, .call _ => some shared
  | .idle, .tick => if shared.handling then none else some { shared with handling := true }
  | _, _ => none

/-- The counter with any value. -/
def fresh (ticks : UInt32) : Shared where
  ticks := ticks
  total := 0
  handling := false

/-- Processes that sleep, and the timer. -/
def client (P : Type) : Client P Empty Unit At Shared where
  instr := instr
  enter := enter
  start := .idle
  initial := fun shared => ∃ ticks, shared = fresh ticks

end Xv6.Ticks
