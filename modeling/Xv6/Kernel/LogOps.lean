import Mathlib.Data.Fintype.Defs
import Xv6.Lib.Transition
import Xv6.Kernel.Log

/-!
# Group commit

`begin_op`, `log_write`, `end_op` and the steps of `commit`, run by any number of processes. Each
`log.lock` critical section is one step, and so is every disk write of `commit`, which holds no
lock. `log_write` makes its two checks before it takes the lock, so these are a step of their own.
A process asleep in `begin_op` on `&log` runs again after a `wakeup(&log)`. A panic stops the
machine.
-/

namespace Xv6

open Lib

/-- Where `commit` has got to. -/
inductive CommitPc where
  /-- About to test `log.lh.n > 0`. -/
  | start
  /-- In the loop of `write_log`. -/
  | writeLog (tail : Nat)
  /-- At the first `write_head`. -/
  | writeHead
  /-- In the loop of `install_trans`. -/
  | installTrans (tail : Nat)
  /-- At `log.lh.n = 0`. -/
  | clear
  /-- At the second `write_head`. -/
  | erase
  /-- Returned; `end_op` is about to reset `log.committing`. -/
  | done
  deriving DecidableEq

/-- What a process is doing, as far as the log is concerned. -/
inductive Phase where
  /-- Outside any operation. -/
  | idle
  /-- In `begin_op`, about to take `log.lock`. -/
  | beginning
  /-- In `begin_op`, asleep on `&log`. -/
  | asleep
  /-- Between its `begin_op` and its `end_op`. -/
  | inOp
  /-- In `log_write` of block `b`, past the checks, about to take `log.lock`. -/
  | logging (b : UInt32)
  /-- In the `commit` of its `end_op`. -/
  | committing (pc : CommitPc)
  deriving DecidableEq

/-- The process is inside an operation. -/
def Phase.InOp : Phase → Prop
  | .inOp | .logging _ => True
  | _ => False

instance : DecidablePred Phase.InOp := fun phase =>
  match phase with
  | .inOp | .logging _ => .isTrue trivial
  | .idle | .beginning | .asleep | .committing _ => .isFalse id

/-- `log` with its buffers and disk, and the processes that use it. -/
structure LogState (Proc : Type) where
  /-- Disk, cache and `log.lh`. -/
  machine : Machine
  /-- `log.outstanding`: how many FS sys calls are executing. -/
  outstanding : Int
  /-- `log.committing`: in commit(), please wait. -/
  committing : Bool
  phase : Proc → Phase
  /-- The message of the panic that stopped the machine. -/
  panicked : Option String

/-- One step of one process. -/
inductive LogEvent (Proc : Type) where
  | call (p : Proc)
  /-- Find the log committing or close to full, and sleep. -/
  | doze (p : Proc)
  /-- Be admitted by `begin_op`. -/
  | enter (p : Proc)
  /-- Call `log_write` on a buffer of block `b` that now holds `data`, and make its checks. -/
  | check (p : Proc) (b : UInt32) (data : Block)
  /-- Record block `b` in the log header. -/
  | logWrite (p : Proc) (b : UInt32)
  /-- The first critical section of `end_op`. -/
  | endOp (p : Proc)
  /-- `commit` starts on the blocks of `log.lh`. -/
  | commitStart (p : Proc) (block : List UInt32)
  /-- A further step of `commit`, up to its return. -/
  | commitStep (p : Proc)
  /-- The second critical section of `end_op`. -/
  | finish (p : Proc)

/-- The loop of `log_write` over `log.lh.block`: log absorption, or one more entry. -/
def absorb (b : UInt32) : List UInt32 → List UInt32
  | [] => [b]
  | c :: rest => if c = b then b :: rest else c :: absorb b rest

/-- `wakeup(&log)`. -/
def Phase.wakeup : Phase → Phase
  | .asleep => .beginning
  | phase => phase

namespace LogState

variable {Proc : Type} [DecidableEq Proc]

/-- `log.lh.n`. -/
def n (s : LogState Proc) : Nat := s.machine.lh.length

/-- Move one process to a phase. -/
def goto (s : LogState Proc) (p : Proc) (phase : Phase) : LogState Proc :=
  { s with phase := Function.update s.phase p phase }

/-- Wake every process asleep on `&log`. -/
def wakeup (s : LogState Proc) : LogState Proc :=
  { s with phase := fun p => (s.phase p).wakeup }

/-- Stop with a message. -/
def panic (s : LogState Proc) (message : String) : LogState Proc :=
  { s with panicked := some message }

/-- The two tests of `begin_op`: it may not proceed. -/
def MustWait (s : LogState Proc) : Prop :=
  s.committing = true ∨ (s.n : Int) + (s.outstanding + 1) * maxOpBlocks > logSize

instance (s : LogState Proc) : Decidable s.MustWait := inferInstanceAs (Decidable (_ ∨ _))

/-- The first check of `log_write`. -/
def TooBig (region : LogRegion) (s : LogState Proc) : Prop :=
  (s.n : Int) ≥ logSize ∨ (s.n : Int) ≥ (region.size : Int) - 1

instance (region : LogRegion) (s : LogState Proc) : Decidable (s.TooBig region) :=
  inferInstanceAs (Decidable (_ ∨ _))

/-- The checks `log_write` makes before it takes `log.lock`. -/
def logCheck (region : LogRegion) (s : LogState Proc) (p : Proc) (b : UInt32) (data : Block) :
    LogState Proc :=
  if s.TooBig region then s.panic "too big a transaction"
  else if s.outstanding < 1 then s.panic "log_write outside of trans"
  else
    { s with machine.cache := Function.update s.machine.cache b.toNat data }.goto p (.logging b)

/-- The critical section of `log_write`. -/
def logRecord (s : LogState Proc) (p : Proc) (b : UInt32) : LogState Proc :=
  { s with machine.lh := absorb b s.machine.lh }.goto p .inOp

/-- The first critical section of `end_op`. -/
def endOp (s : LogState Proc) (p : Proc) : LogState Proc :=
  let s := { s with outstanding := s.outstanding - 1 }
  if s.committing then s.panic "log.committing"
  else if s.outstanding = 0 then { s with committing := true }.goto p (.committing .start)
  else s.wakeup.goto p .idle

/-- One step of `commit`: the machine and the place it gets to. -/
def commitStep (region : LogRegion) (m : Machine) : CommitPc → Option (Machine × CommitPc)
  | .start => if 0 < m.lh.length then some (m, .writeLog 0) else some (m, .done)
  | .writeLog tail =>
    match m.lh[tail]? with
    | some b => some (m.bwrite (region.start + tail + 1) (m.bread b.toNat), .writeLog (tail + 1))
    | none => some (m, .writeHead)
  | .writeHead => some (m.writeHead region, .installTrans 0)
  | .installTrans tail =>
    match m.lh[tail]? with
    | some b =>
      some (m.bwrite b.toNat (m.bread (region.start + tail + 1)), .installTrans (tail + 1))
    | none => some (m, .clear)
  | .clear => some (m.clearHead, .erase)
  | .erase => some (m.writeHead region, .done)
  | .done => none

/-- The step relation, as a partial function of the label. -/
def step (region : LogRegion) (s : LogState Proc) (event : LogEvent Proc) :
    Option (LogState Proc) :=
  if s.panicked.isSome then none
  else match event with
    | .call p => if s.phase p = .idle then some (s.goto p .beginning) else none
    | .doze p =>
      if s.phase p = .beginning ∧ s.MustWait then some (s.goto p .asleep) else none
    | .enter p =>
      if s.phase p = .beginning ∧ ¬s.MustWait then
        some ({ s with outstanding := s.outstanding + 1 }.goto p .inOp)
      else none
    | .check p b data =>
      if s.phase p = .inOp then some (s.logCheck region p b data) else none
    | .logWrite p b => if s.phase p = .logging b then some (s.logRecord p b) else none
    | .endOp p => if s.phase p = .inOp then some (s.endOp p) else none
    | .commitStart p block =>
      if s.phase p = .committing .start ∧ block = s.machine.lh then
        (commitStep region s.machine .start).map fun (m, pc) =>
          { s with machine := m }.goto p (.committing pc)
      else none
    | .commitStep p =>
      match s.phase p with
      | .committing .start => none
      | .committing pc =>
        (commitStep region s.machine pc).map fun (m, pc) =>
          { s with machine := m }.goto p (.committing pc)
      | _ => none
    | .finish p =>
      if s.phase p = .committing .done then
        some ({ s with committing := false }.wakeup.goto p .idle)
      else none

/-- The log after `initlog`: nothing logged, no operation running. -/
structure Initial (s : LogState Proc) : Prop where
  /-- `recover_from_log` leaves `log.lh.n = 0`. -/
  lh : s.machine.lh = []
  /-- No operation is running. -/
  outstanding : s.outstanding = 0
  /-- No commit is running. -/
  committing : s.committing = false
  /-- Every process is outside the log. -/
  phase : ∀ p, s.phase p = .idle
  /-- The machine runs. -/
  panicked : s.panicked = none

/-- The log after `initlog` on a blank disk. -/
def booted (Proc : Type) : LogState Proc where
  machine := ⟨fun _ => Bytes.zero, fun _ => Bytes.zero, [], []⟩
  outstanding := 0
  committing := false
  phase := fun _ => .idle
  panicked := none

omit [DecidableEq Proc] in
/-- It is a state to start from. -/
theorem booted_initial : (booted Proc).Initial := ⟨rfl, rfl, rfl, fun _ => rfl, rfl⟩

/-- Runs of the log, as histories of steps. -/
abbrev Ran (region : LogRegion) : List (LogEvent Proc) → LogState Proc → Prop :=
  History Initial (step region)

end LogState

end Xv6
