import Xv6.Verif.SleepSteps

/-!
# The control flow of a client

The machine with its locks, its sleepers and its scheduler refines the control flow of the client's
code: a step leaves every process at its position in the code, or takes one process from a position
to the next as its instruction says. A process that is in `sleep` or in `wakeup` is at the position
it returns to. So an invariant of the control flow holds in every run; and a process in `sleep` or
in `wakeup` has come from a call.
-/

namespace Xv6.Sleep

open Lib
open Function (update update_eq_self update_of_ne update_self)

variable {P L Ch κ σ : Type}

/-- The position in the code where a process is, or to which it will return. -/
def Pos.label : Pos L Ch κ → κ
  | .code k => k
  | .sleepAcquire _ _ next | .sleepRelease _ _ next | .sleepSwitch _ _ next | .switched _ next
  | .sleepTidy _ next | .sleepReacquire _ next | .wakeAcquire _ next | .wakeLoop _ next => next

/-- Where an operation on a lock, `sleep` or `wakeup` leads. -/
def Instr.next : Instr L Ch κ σ → Option κ
  | .acquire _ next | .release _ next | .sleep _ _ next | .wakeup _ next => some next
  | .idle | .run _ => none

/-- The control flow of a process. -/
inductive Edge (client : Client P L Ch κ σ) (p : P) (killed : Bool) : κ → σ → κ → σ → Prop where
  /-- An operation on a lock, `sleep` or `wakeup`. -/
  | call {k next : κ} {shared : σ} (leads : (client.instr p k).next = some next) :
    Edge client p killed k shared next shared
  | code {k : κ} {code : Bool → σ → σ × κ} {shared : σ} (instr : client.instr p k = .run code) :
    Edge client p killed k shared (code killed shared).2 (code killed shared).1
  | choose {k next : κ} {shared shared' : σ} (instr : client.instr p k = .idle)
      (entered : client.enter p k next shared = some shared') :
    Edge client p killed k shared next shared'

/-- A process in `sleep` or in `wakeup` has called it. -/
def Pos.Called (client : Client P L Ch κ σ) (p : P) : Pos L Ch κ → Prop
  | .code _ => True
  | .sleepAcquire chan lk next | .sleepSwitch chan lk next =>
    ∃ k, client.instr p k = .sleep chan lk next
  | .sleepRelease chan lk next => ∃ k, client.instr p k = .sleep chan (some lk) next
  | .switched lk next | .sleepTidy lk next => ∃ k chan, client.instr p k = .sleep chan lk next
  | .sleepReacquire lk next => ∃ k chan, client.instr p k = .sleep chan (some lk) next
  | .wakeAcquire chan next | .wakeLoop chan next => ∃ k, client.instr p k = .wakeup chan next

variable {client : Client P L Ch κ σ}

section

variable [DecidableEq L] {s t : State P L Ch κ σ} {p : P} {event : Event P κ}
  {pos pos' : Pos L Ch κ} {held : Lock L → Option P} {shared : σ}

/-- A move stays at a position of the code, or follows the control flow. -/
theorem Move.flow (move : Move client s p event pos pos' held shared) :
    pos'.label = pos.label ∧ shared = s.shared ∨
      Edge client p (s.thread p).killed pos.label s.shared pos'.label shared := by
  cases move with
  | acquire instr => exact .inr (.call (by rw [Pos.label, instr]; rfl))
  | release instr => exact .inr (.call (by rw [Pos.label, instr]; rfl))
  | sleep instr => exact .inr (.call (by rw [Pos.label, instr]; rfl))
  | sleepHeld instr => exact .inr (.call (by rw [Pos.label, instr]; rfl))
  | wakeup instr => exact .inr (.call (by rw [Pos.label, instr]; rfl))
  | code instr => exact .inr (.code instr)
  | choose instr entered => exact .inr (.choose instr entered)
  | lockTable | lockTableNull | unlock | rest | switch | tidyHeld | tidy | tidyNull | reacquire
  | wakeAcquire | wake => exact .inl ⟨rfl, rfl⟩

/-- A process enters `sleep` and `wakeup` by calls. -/
theorem Move.called (move : Move client s p event pos pos' held shared)
    (called : pos.Called client p) : pos'.Called client p := by
  cases move with
  | sleep instr => exact ⟨_, instr⟩
  | sleepHeld instr => exact ⟨_, instr⟩
  | wakeup instr => exact ⟨_, instr⟩
  | rest =>
    obtain ⟨k, instr⟩ := called
    exact ⟨k, _, instr⟩
  | lockTable | lockTableNull | unlock | switch | tidy | wakeAcquire => exact called
  | acquire | release | code | tidyHeld | tidyNull | reacquire | wake | choose => trivial

end

section

variable [DecidableEq P] [DecidableEq L] [DecidableEq Ch] {s t : State P L Ch κ σ}
  {past : List (Event P κ)}

/-- An invariant of the control flow holds in every run. -/
theorem State.Ran.flow (ran : State.Ran client past s) (holds : (P → κ) → σ → Prop)
    (start : ∀ shared, client.initial shared → holds (fun _ => client.start) shared)
    (keep : ∀ places shared p killed next shared', holds places shared →
      Edge client p killed (places p) shared next shared' →
      holds (update places p next) shared') : holds (fun p => (s.thread p).pos.label) s.shared := by
  refine ran.invariant (fun _ s => holds (fun p => (s.thread p).pos.label) s.shared) ?_ ?_
  · intro s initial
    simp only [initial.threads]
    exact start _ initial.shared
  · intro past s t event before held taken
    rcases outcome (State.Ran.settled before) taken with ⟨p, -, -, rfl⟩ | ⟨p, move, frame⟩
    · simp only [State.kill_pos]
      exact held
    have moved : (fun q => (t.thread q).pos.label) =
        update (fun q => (s.thread q).pos.label) p (t.thread p).pos.label := by
      funext q
      by_cases here : q = p
      · rw [here, update_self]
      · rw [update_of_ne here, frame.pos q here]
    rw [moved]
    rcases move.flow with ⟨same, shared⟩ | edge
    · rw [same, shared, update_eq_self]
      exact held
    · exact keep _ _ p _ _ _ held edge

/-- In every run a process in `sleep` or in `wakeup` has called it. -/
theorem State.Ran.called (ran : State.Ran client past s) (p : P) :
    (s.thread p).pos.Called client p := by
  refine ran.invariant (fun _ s => ∀ p, (s.thread p).pos.Called client p) ?_ ?_ p
  · intro s initial p
    rw [initial.threads]
    trivial
  · intro past s t event before called taken q
    rcases outcome (State.Ran.settled before) taken with ⟨p, -, -, rfl⟩ | ⟨p, move, frame⟩
    · rw [State.kill_pos]
      exact called q
    · by_cases here : q = p
      · rw [here]
        exact move.called (called p)
      · rw [frame.pos q here]
        exact called q

/-- A process that sleeps has called `sleep` on its channel. -/
def Thread.Rests (client : Client P L Ch κ σ) (p : P) (x : Thread L Ch κ) : Prop :=
  x.state = .sleeping → ∃ k chan lk next, client.instr p k = .sleep chan lk next ∧
    x.chan = some chan ∧ x.pos = .switched lk next

/-- In every run a process that sleeps has called `sleep` on its channel. -/
theorem State.Ran.rests (ran : State.Ran client past s) (p : P) : (s.thread p).Rests client p := by
  refine ran.invariant (fun _ s => ∀ p, (s.thread p).Rests client p) ?_ ?_ p
  · intro s initial p asleep
    rw [initial.threads] at asleep
    cases asleep
  · intro past s t event before rests taken q asleep
    rcases outcome (State.Ran.settled before) taken with ⟨p, -, -, rfl⟩ | ⟨p, move, frame⟩
    · have same := kill_asleep asleep
      rw [same] at asleep ⊢
      exact rests q asleep
    · rcases frame.asleep q asleep with ⟨slept, same, apart⟩ | ⟨rfl, chan, lk, next, stands, on⟩
      · rw [frame.pos q apart, same]
        exact rests q slept
      · have called := State.Ran.called before q
        rw [stands] at called move
        obtain ⟨k, instr⟩ := called
        exact ⟨k, chan, lk, next, instr, on, move.rested⟩

end

end Xv6.Sleep
