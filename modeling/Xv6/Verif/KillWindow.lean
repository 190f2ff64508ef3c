import Xv6.Kernel.Console
import Xv6.Kernel.Pipe
import Xv6.Kernel.Ticks
import Xv6.Verif.SchedRecord
import Xv6.Verif.SleepKill

/-!
# Kill and the calls that sleep

`piperead`, `pipewrite`, `consoleread` and `sys_sleep` test `killed` without `ptable.lock`, so that
they have a window in which a `kill` is not noticed before the sleep. At its end `consoleread` waits
for the inode without a test. `wait` tests `killed` with `ptable.lock`, which it holds until it is
asleep.
-/

namespace Xv6

open Lib Sleep

variable {P : Type}

/-- `piperead` and `pipewrite`, from the test of `killed` on. -/
def Pipe.window : Window Pipe.At (Pipe.Shared P) where
  within
    | .writeWake _ _ | .writeSleep _ _ | .readSleep _ => True
    | _ => False
  sleeps := fun _ => True
  untested := fun _ _ => False

/-- `consoleread`, from the test of `killed` on, and from where it finds the inode locked at its
end. -/
def Console.window : Window Console.At Console.Shared where
  within
    | .readSleep _ _ _ | .ilockSleep .finish => True
    | _ => False
  sleeps := fun next => next.inRead = true
  untested := fun shared k => k = .ilockTest .finish ∧ shared.locked = true

/-- `sys_sleep`, from the test of `killed` on. -/
def Ticks.window : Window Ticks.At Ticks.Shared where
  within
    | .sleep _ => True
    | _ => False
  sleeps := fun _ => True
  untested := fun _ _ => False

/-- A killed writer does not go to sleep. -/
theorem Pipe.writeRound_killed (c : Pipe.Content) (addr : List UInt8) (i : Nat) :
    ¬(Pipe.window (P := P)).within (c.writeRound addr i true).2 := by
  unfold Pipe.Content.writeRound
  simp only [Bool.or_true, if_true]
  repeat' split
  all_goals exact False.elim

/-- A killed reader does not go to sleep. -/
theorem Pipe.readTest_killed (c : Pipe.Content) (n : Nat) :
    ¬(Pipe.window (P := P)).within (c.readTest n true) := by
  unfold Pipe.Content.readTest
  simp only [if_true]
  split
  all_goals exact False.elim

/-- `piperead` and `pipewrite` test `killed` before they sleep. -/
theorem Pipe.window_valid [DecidableEq P] : (Pipe.window (P := P)).Valid (Pipe.client P) := by
  constructor
  case start => exact False.elim
  case sleep =>
    intro p k chan lk next instr _
    cases k <;> cases instr <;> trivial
  case after =>
    intro p k chan lk next instr
    cases k <;> cases instr <;> exact False.elim
  case call =>
    intro p k next leads inside
    cases k with
    | writeWake | writeSleep | readSleep => trivial
    | _ =>
      cases leads
      all_goals cases inside
  case code =>
    intro p k code killed shared instr inside
    refine .inl (Bool.eq_false_of_not_eq_true fun set => ?_)
    subst set
    cases k with
    | write addr i dirty =>
      cases instr
      exact Pipe.writeRound_killed _ _ _ inside
    | readWait n =>
      cases instr
      exact Pipe.readTest_killed _ _ inside
    | read n i =>
      cases instr
      dsimp only [Pipe.Content.readRound] at inside
      repeat' split at inside
      all_goals exact inside
    | closeTest =>
      cases instr
      dsimp only at inside
      split at inside
      all_goals exact inside
    | close | closeFree | leave =>
      cases instr
      exact inside
    | _ => cases instr
  case enter =>
    intro p k next shared shared' entered inside
    change Pipe.enter p k next shared = some shared' at entered
    unfold Pipe.enter at entered
    split at entered
    case h_5 => cases entered
    all_goals exact inside

/-- A killed reader of the console does not go to sleep. -/
theorem Console.readRound_killed (i : Console.Input) (target : UInt32) (n : Int32)
    (dst : List UInt8) : ¬Console.window.within (i.readRound target n dst true).2 := by
  unfold Console.Input.readRound
  simp only [if_true]
  repeat' split
  all_goals exact False.elim

/-- The interrupt handler does not sleep. -/
theorem Console.intrRound_within (i : Console.Input) (chars : List UInt8) :
    ¬Console.window.within (i.intrRound chars).2 := by
  unfold Console.Input.intrRound
  dsimp only
  repeat' split
  all_goals exact False.elim

/-- `consoleread` tests `killed` before it sleeps. -/
theorem Console.window_valid : Console.window.Valid (Console.client P) := by
  constructor
  case start => exact False.elim
  case sleep =>
    intro p k chan lk next instr among
    cases k with
    | ilockSleep use =>
      cases instr
      cases use with
      | finish => trivial
      | read | other => cases among
    | readSleep => trivial
    | _ => cases instr
  case after =>
    intro p k chan lk next instr
    cases k <;> cases instr <;> exact False.elim
  case call =>
    intro p k next leads inside
    cases k with
    | readSleep => trivial
    | ilockSleep use =>
      cases leads
      cases inside
    | iunlockRelease use =>
      cases leads
      cases use <;> cases inside
    | _ =>
      cases leads
      all_goals cases inside
  case code =>
    intro p k code killed shared instr inside
    cases k with
    | ilockTest use =>
      cases instr
      dsimp only at inside
      split at inside
      · rename_i locked
        cases use with
        | finish => exact .inr (.inr ⟨rfl, locked⟩)
        | read | other => cases inside
      · cases inside
    | iunlock use =>
      cases instr
      cases inside
    | read target n dst =>
      cases instr
      refine .inl (Bool.eq_false_of_not_eq_true fun set => ?_)
      subst set
      exact Console.readRound_killed _ _ _ _ inside
    | intr chars =>
      cases instr
      exact absurd inside (Console.intrRound_within _ _)
    | _ => cases instr
  case enter =>
    intro p k next shared shared' entered inside
    change Console.enter p k next shared = some shared' at entered
    unfold Console.enter at entered
    split at entered
    case h_4 => cases entered
    all_goals exact inside

/-- `sys_sleep` tests `killed` before it sleeps. -/
theorem Ticks.window_valid : Ticks.window.Valid (Ticks.client P) := by
  constructor
  case start => exact False.elim
  case sleep =>
    intro p k chan lk next instr _
    cases k <;> cases instr
    trivial
  case after =>
    intro p k chan lk next instr
    cases k <;> cases instr
    exact False.elim
  case call =>
    intro p k next leads inside
    cases k with
    | sleep => trivial
    | _ =>
      cases leads
      all_goals cases inside
  case code =>
    intro p k code killed shared instr inside
    refine .inl (Bool.eq_false_of_not_eq_true fun set => ?_)
    subst set
    cases k with
    | test call =>
      cases instr
      dsimp only at inside
      split at inside
      all_goals exact inside
    | call | check | tick | done =>
      cases instr
      exact inside
    | _ => cases instr
  case enter =>
    intro p k next shared shared' entered inside
    change Ticks.enter p k next shared = some shared' at entered
    unfold Ticks.enter at entered
    split at entered
    case h_3 => cases entered
    all_goals exact inside

/-- Processes that sleep have not been killed: in `piperead`, `pipewrite`, `consoleread` and
`sys_sleep` in every run in which no `kill` hits a process between its test of `killed` and its
sleep, and no killed process finds the inode locked at the end of `consoleread`; and in `wait` in
every run. -/
theorem kill_interrupts {C : Type} [DecidableEq P] [DecidableEq C] :
    (∀ past (s : State P Unit Pipe.Chan Pipe.At (Pipe.Shared P)),
      State.RanWithin (Pipe.client P) Pipe.window.Spares past s →
      ∀ p, (s.thread p).state = .sleeping → (s.thread p).killed = false) ∧
    (∀ past (s : State P Console.Spin Console.Chan Console.At Console.Shared),
      State.RanWithin (Console.client P) Console.window.Spares past s →
      ∀ p lk next, (s.thread p).state = .sleeping → (s.thread p).pos = .switched lk next →
        next.inRead = true → (s.thread p).killed = false) ∧
    (∀ past (s : State P Empty Unit Ticks.At Ticks.Shared),
      State.RanWithin (Ticks.client P) Ticks.window.Spares past s →
      ∀ p, (s.thread p).state = .sleeping → (s.thread p).killed = false) ∧
    ∀ past (s : Sched.State C), Sched.State.Ran C past s →
      ∀ p, (s.proc p).state = .sleeping → (s.proc p).context = .wait →
        (s.proc p).killed = false := by
  refine ⟨?_, ?_, ?_, ?_⟩
  · intro past s ran p asleep
    obtain ⟨k, chan, lk, next, -, -, pos⟩ := State.Ran.rests ran.history p asleep
    exact (Pipe.window_valid.ran ran).asleep p lk next asleep pos trivial
  · intro past s ran p lk next asleep pos inside
    exact (Console.window_valid.ran ran).asleep p lk next asleep pos inside
  · intro past s ran p asleep
    obtain ⟨k, chan, lk, next, -, -, pos⟩ := State.Ran.rests ran.history p asleep
    exact (Ticks.window_valid.ran ran).asleep p lk next asleep pos trivial
  · intro past s ran p asleep context
    exact ((Sched.State.Ran.family ran).waiter p asleep context).alive

/-- A reader finds nothing and goes to sleep. -/
theorem kill_interrupts_reader : ∃ (past : List (Event Bool Pipe.At))
    (s : State Bool Unit Pipe.Chan Pipe.At (Pipe.Shared Bool)),
    State.RanWithin (Pipe.client Bool) Pipe.window.Spares past s ∧
      (s.thread false).state = .sleeping ∧ (s.thread false).killed = false := by
  have runs : (replayWithin (State.step (Pipe.client Bool)) (fun _ _ event => event.quiet = true)
      [.choose false (.readAcquire 1), .run false, .run false, .run false, .run false, .run false,
        .run false] []
      (State.booted (Pipe.client Bool) (Pipe.fresh Bool fun _ => 0))).any (fun s =>
        (s.thread false).state = .sleeping) = true := by
    decide +kernel
  obtain ⟨s, within, holds⟩ :=
    Within.of_replay (State.booted_initial (Pipe.client Bool) ⟨_, rfl⟩) runs
  have asleep := of_decide_eq_true holds
  have spares : State.RanWithin (Pipe.client Bool) Pipe.window.Spares _ s :=
    Window.spares_of_quiet (fun _ _ => id) within
  exact ⟨_, s, spares, asleep, (kill_interrupts (P := Bool) (C := Fin 1)).1 _ s spares false asleep⟩

/-- Whether a process sleeps in the `ilock` at the end of `consoleread`. -/
def Console.waitsAtEnd (x : Thread Console.Spin Console.Chan Console.At) : Bool :=
  match x.pos with
  | .switched _ (.ilockTest .finish) => x.state = .sleeping
  | _ => false

/-- A `kill` between the test of `killed` and the sleep is not noticed: in `piperead`, in
`consoleread` and in `sys_sleep`, the process is then asleep with `killed` set. A reader of the
console that is killed in its sleep can then sleep for the inode, which another process has locked.
-/
theorem kill_in_window_unnoticed :
    (∃ past s, State.Ran (Pipe.client Bool) past s ∧
      (s.thread false).state = .sleeping ∧ (s.thread false).killed = true) ∧
    (∃ past s, State.Ran (Console.client Bool) past s ∧
      (s.thread false).state = .sleeping ∧ (s.thread false).chan = some .input ∧
      (s.thread false).killed = true) ∧
    (∃ past s, State.Ran (Console.client Bool) past s ∧
      Console.waitsAtEnd (s.thread false) = true ∧ (s.thread false).killed = true) ∧
    ∃ past s, State.Ran (Ticks.client Bool) past s ∧
      (s.thread false).state = .sleeping ∧ (s.thread false).killed = true := by
  have console := State.booted_initial (Console.client Bool) ⟨fun _ => 0, rfl⟩
  -- The reader gets to its test of `killed` in eleven steps.
  let reads : List (Event Bool Console.At) :=
    .choose false (.ilockAcquire (.read 1)) :: List.replicate 11 (.run false)
  refine ⟨?_, ?_, ?_, ?_⟩
  · have runs : (replay (State.step (Pipe.client Bool))
        [.choose false (.readAcquire 1), .run false, .run false, .kill false, .run false,
          .run false, .run false, .run false]
        (State.booted (Pipe.client Bool) (Pipe.fresh Bool fun _ => 0))).any (fun s =>
          (s.thread false).state = .sleeping ∧ (s.thread false).killed = true) = true := by
      decide +kernel
    obtain ⟨s, ran, holds⟩ :=
      History.of_replay (State.booted_initial (Pipe.client Bool) ⟨_, rfl⟩) runs
    exact ⟨_, s, ran, of_decide_eq_true holds⟩
  · have runs : (replay (State.step (Console.client Bool))
        (reads ++ .kill false :: List.replicate 4 (.run false))
        (State.booted (Console.client Bool) (Console.fresh fun _ => 0))).any (fun s =>
          (s.thread false).state = .sleeping ∧ (s.thread false).chan = some .input ∧
            (s.thread false).killed = true) = true := by
      decide +kernel
    obtain ⟨s, ran, holds⟩ := History.of_replay console runs
    exact ⟨_, s, ran, of_decide_eq_true holds⟩
  · -- The reader is killed asleep; when it runs again, the other process has locked the inode.
    have runs : (replay (State.step (Console.client Bool))
        (reads ++ List.replicate 4 (.run false) ++
          [.kill false, .choose true (.ilockAcquire .other), .run true, .run true, .run true,
            .switch false] ++ List.replicate 10 (.run false))
        (State.booted (Console.client Bool) (Console.fresh fun _ => 0))).any (fun s =>
          Console.waitsAtEnd (s.thread false) = true ∧ (s.thread false).killed = true) = true := by
      decide +kernel
    obtain ⟨s, ran, holds⟩ := History.of_replay console runs
    exact ⟨_, s, ran, of_decide_eq_true holds⟩
  · have runs : (replay (State.step (Ticks.client Bool))
        [.choose false (.call 1), .run false, .run false, .run false, .kill false, .run false,
          .run false, .run false]
        (State.booted (Ticks.client Bool) (Ticks.fresh 0))).any (fun s =>
          (s.thread false).state = .sleeping ∧ (s.thread false).killed = true) = true := by
      decide +kernel
    obtain ⟨s, ran, holds⟩ :=
      History.of_replay (State.booted_initial (Ticks.client Bool) ⟨_, rfl⟩) runs
    exact ⟨_, s, ran, of_decide_eq_true holds⟩

end Xv6
