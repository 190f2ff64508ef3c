import Xv6.Verif.SleepFlow

/-!
# Sleeps that a kill ends

Code that tests `killed` before it sleeps on a channel has a window from the test until `sleep`
holds `ptable.lock`. If no `kill` hits a process in its window, a process that sleeps on the channel
has not been killed: after the window `kill` waits for `ptable.lock`, and then finds the process
asleep and makes it runnable. Code that comes to a sleep without such a test must not come there
killed.
-/

namespace Xv6.Sleep

open Lib

variable {P L Ch κ σ : Type}

/-- The code before a `sleep` and the sleeps that it is about, given by the positions that follow
them. -/
structure Window (κ σ : Type) where
  /-- Between a test of `killed`, or of what is waited for, and the `sleep`. -/
  within : κ → Prop
  sleeps : κ → Prop
  /-- With these shared data the code goes on to a `sleep` without a test of `killed`. -/
  untested : σ → κ → Prop

namespace Window

/-- Every such `sleep` follows a test of `killed`, but where there is none. -/
structure Valid (window : Window κ σ) (client : Client P L Ch κ σ) : Prop where
  start : ¬window.within client.start
  sleep : ∀ p k chan lk next, client.instr p k = .sleep chan lk next → window.sleeps next →
    window.within k
  after : ∀ p k chan lk next, client.instr p k = .sleep chan lk next → ¬window.within next
  /-- Operations on locks and `wakeup` do not enter it. -/
  call : ∀ p k next, (client.instr p k).next = some next → window.within next → window.within k
  /-- A step of code that enters it has found `killed` clear. -/
  code : ∀ p k code killed shared, client.instr p k = .run code →
    window.within (code killed shared).2 →
      killed = false ∨ window.within k ∨ window.untested shared k
  enter : ∀ p k next shared shared', client.enter p k next shared = some shared' →
    ¬window.within next

/-- A process is between the test and its sleep. -/
def Open (window : Window κ σ) : Pos L Ch κ → Prop
  | .code k => window.within k
  | .sleepAcquire _ _ next | .sleepRelease _ _ next | .sleepSwitch _ _ next => window.sleeps next
  | .switched _ _ | .sleepTidy _ _ | .sleepReacquire _ _ => False
  | .wakeAcquire _ next | .wakeLoop _ next => window.within next

/-- The step is not a `kill` of a process in its window, and does not take a killed process to a
`sleep` without a test. -/
structure Spares (window : Window κ σ) (s : State P L Ch κ σ) (event : Event P κ) : Prop where
  kill : ∀ p, event = .kill p → ¬window.Open (s.thread p).pos
  run : ∀ p k, event = .run p → (s.thread p).pos = .code k → window.untested s.shared k →
    (s.thread p).killed = false

/-- Processes in the window and asleep are not killed. -/
structure Alive (window : Window κ σ) (s : State P L Ch κ σ) : Prop where
  inside : ∀ p, window.Open (s.thread p).pos → (s.thread p).killed = false
  asleep : ∀ p lk next, (s.thread p).state = .sleeping → (s.thread p).pos = .switched lk next →
    window.sleeps next → (s.thread p).killed = false

variable {window : Window κ σ} {client : Client P L Ch κ σ}

section

variable [DecidableEq L] {s t : State P L Ch κ σ} {p : P} {event : Event P κ}
  {pos pos' : Pos L Ch κ} {held : Lock L → Option P} {shared : σ}

/-- A move enters the window only with `killed` clear. -/
theorem Valid.move (valid : window.Valid client)
    (move : Move client s p event pos pos' held shared) (called : pos.Called client p)
    (tested : ∀ k, event = .run p → pos = .code k → window.untested s.shared k →
      (s.thread p).killed = false)
    (inside : window.Open pos') : (s.thread p).killed = false ∨ window.Open pos := by
  cases move with
  | acquire instr | release instr | wakeup instr =>
    exact .inr (valid.call p _ _ (by rw [instr]; rfl) inside)
  | sleep instr | sleepHeld instr => exact .inr (valid.sleep p _ _ _ _ instr inside)
  | code instr =>
    rcases valid.code p _ _ _ _ instr inside with clear | before | untested
    · exact .inl clear
    · exact .inr before
    · exact .inl (tested _ rfl rfl untested)
  | lockTable | lockTableNull | unlock | wakeAcquire | wake => exact .inr inside
  | rest | switch | tidy => exact absurd inside False.elim
  | tidyHeld | tidyNull =>
    obtain ⟨k, chan, instr⟩ := called
    exact absurd inside (valid.after p k _ _ _ instr)
  | reacquire =>
    obtain ⟨k, chan, instr⟩ := called
    exact absurd inside (valid.after p k _ _ _ instr)
  | choose instr entered => exact absurd inside (valid.enter p _ _ _ _ entered)

/-- A move leaves the processes in the window and asleep alive. -/
theorem Alive.moved (alive : window.Alive s) (valid : window.Valid client)
    (spares : window.Spares s event) (called : (s.thread p).pos.Called client p)
    (move : Move client s p event (s.thread p).pos (t.thread p).pos t.held t.shared)
    (frame : Frame s t p) : window.Alive t := by
  constructor
  case inside =>
    intro q inside
    rw [frame.killed]
    by_cases here : q = p
    · subst here
      rcases valid.move move called (fun k => spares.run q k) inside with clear | inside'
      · exact clear
      · exact alive.inside q inside'
    · rw [frame.pos q here] at inside
      exact alive.inside q inside
  case asleep =>
    intro q lk next asleep pos among
    rw [frame.killed]
    rcases frame.asleep q asleep with ⟨slept, -, apart⟩ | ⟨rfl, chan, lk', next', before, -⟩
    · rw [frame.pos q apart] at pos
      exact alive.asleep q lk next slept pos among
    · rw [before] at move
      cases pos.symm.trans move.rested
      apply alive.inside q
      rw [before]
      exact among

end

variable [DecidableEq P] [DecidableEq L] [DecidableEq Ch] {s : State P L Ch κ σ}

omit [DecidableEq L] [DecidableEq Ch] in
/-- So does a `kill` of a process outside its window. -/
theorem Alive.killed (alive : window.Alive s) {p : P} (spares : ¬window.Open (s.thread p).pos) :
    window.Alive (s.kill p) := by
  constructor
  case inside =>
    intro q inside
    rw [State.kill_pos] at inside
    have other : q ≠ p := by
      rintro rfl
      exact spares inside
    simp only [State.kill, Function.update_of_ne other]
    exact alive.inside q inside
  case asleep =>
    intro q lk next asleep pos among
    have same := State.kill_asleep asleep
    rw [same] at asleep pos ⊢
    exact alive.asleep q lk next asleep pos among

/-- In every run in which no `kill` hits a process in its window, and no killed process comes to a
`sleep` without a test, processes in the window and asleep are not killed. -/
theorem Valid.ran (valid : window.Valid client) {past : List (Event P κ)}
    (ran : State.RanWithin client window.Spares past s) : window.Alive s := by
  refine (ran.invariant (fun past s => State.Ran client past s ∧ window.Alive s) ?_ ?_).2
  · intro s start
    refine ⟨.nil start, ?_, ?_⟩
    · intro p _
      rw [start.threads]
    · intro p _ _ _ _ _
      rw [start.threads]
  · intro past s t event ⟨before, alive⟩ spares taken
    refine ⟨before.cons taken, ?_⟩
    rcases State.outcome (State.Ran.settled before) taken with ⟨p, rfl, -, rfl⟩ | ⟨p, move, frame⟩
    · exact alive.killed (spares.kill p rfl)
    · exact alive.moved valid spares (State.Ran.called before p) move frame

end Window

/-- The event is not a `kill`. -/
def Event.quiet : Event P κ → Bool
  | .kill _ => false
  | _ => true

/-- A run without `kill` spares every window with a test. -/
theorem Window.spares_of_quiet [DecidableEq P] [DecidableEq L] [DecidableEq Ch]
    {window : Window κ σ} (tested : ∀ shared k, ¬window.untested shared k)
    {client : Client P L Ch κ σ} {past : List (Event P κ)} {s : State P L Ch κ σ}
    (quiet : State.RanWithin client (fun _ event => event.quiet = true) past s) :
    State.RanWithin client window.Spares past s := by
  refine quiet.imp fun past s event quiet => ⟨fun p kill => ?_, fun p k _ _ untested => ?_⟩
  · rw [kill] at quiet
    cases quiet
  · exact absurd untested (tested _ _)

end Xv6.Sleep
