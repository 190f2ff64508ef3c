import Xv6.Lib.Transition
import Mathlib.Logic.Function.Basic

/-!
# A sleep lock and the checks on it

`sleeplock.c`, with the functions of `fs.c`, `bio.c` and `ide.c` that call `holdingsleep`, for any
number of processes. Each section between `acquire` and `release` of the lock's own spin lock is a
step; a process that finds the lock taken sleeps, which is no step.
-/

namespace Xv6.Sleeplock

open Function

/-- Who calls `holdingsleep`. -/
inductive Caller where
  | iunlock
  | brelse
  | bwrite
  | iderw
  deriving DecidableEq

/-- The panic where `holdingsleep` returns 0. -/
def Caller.message : Caller → String
  | iunlock => "iunlock"
  | brelse => "brelse"
  | bwrite => "bwrite"
  | iderw => "iderw: buf not locked"

/-- Whether `releasesleep` follows. -/
def Caller.releases (caller : Caller) : Bool := caller = iunlock ∨ caller = brelse

/-- `struct sleeplock`, and where the processes are. -/
structure State (P : Type) where
  locked : Bool
  pid : Nat
  /-- Between its `acquiresleep` and its `releasesleep`. -/
  inside : P → Bool
  /-- Past the check, about to call `releasesleep`. -/
  releasing : P → Bool
  panicked : Option String

/-- A section of a process. -/
inductive Event (P : Type) where
  | acquiresleep (p : P)
  | holdingsleep (p : P) (caller : Caller)
  | releasesleep (p : P)

variable {P : Type} [DecidableEq P]

/-- `initsleeplock`. -/
def initsleeplock (P : Type) : State P := ⟨false, 0, fun _ => false, fun _ => false, none⟩

/-- `holdingsleep`, called by a process. -/
def holdingsleep (s : State P) (_ : P) : Bool := s.locked

/-- The step relation; `pidOf` is the `pid` of a process. -/
def step (pidOf : P → Nat) (s : State P) : Event P → Option (State P)
  | .acquiresleep p =>
    if s.panicked.isSome ∨ s.releasing p ∨ s.locked then none
    else some { s with locked := true, pid := pidOf p, inside := update s.inside p true }
  | .holdingsleep p caller =>
    if s.panicked.isSome ∨ s.releasing p then none
    else if holdingsleep s p then some { s with releasing := update s.releasing p caller.releases }
    else some { s with panicked := some caller.message }
  | .releasesleep p =>
    if s.panicked.isNone ∧ s.releasing p then
      some { s with
        locked := false
        pid := 0
        inside := update s.inside p false
        releasing := update s.releasing p false }
    else none

end Xv6.Sleeplock
