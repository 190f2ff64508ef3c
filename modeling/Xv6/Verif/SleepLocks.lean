import Xv6.Verif.SleepSteps

/-!
# Who holds a spin lock

Code that acquires and releases one lock at a time says at each of its positions which lock it
holds. Then a process holds exactly the locks that its position says, in its own code and in every
stage of `sleep` and `wakeup`; so no two processes are at positions that hold the same lock.
-/

namespace Xv6.Sleep

open Lib Function

variable {P L Ch κ σ : Type} {client : Client P L Ch κ σ} {locks : κ → Option (Lock L)}

/-- The code holds the locks that its positions say. -/
structure Disciplined (client : Client P L Ch κ σ) (locks : κ → Option (Lock L)) : Prop where
  start : locks client.start = none
  acquire : ∀ p k lk next, client.instr p k = .acquire lk next →
    locks k = none ∧ locks next = some lk
  release : ∀ p k lk next, client.instr p k = .release lk next →
    locks k = some lk ∧ locks next = none
  sleep : ∀ p k chan lk next, client.instr p k = .sleep chan lk next →
    locks k = lk ∧ locks next = lk
  wakeup : ∀ p k chan next, client.instr p k = .wakeup chan next →
    locks k ≠ some .ptable ∧ locks next = locks k
  run : ∀ p k code killed shared, client.instr p k = .run code →
    locks (code killed shared).2 = locks k
  enter : ∀ p k next shared shared', client.instr p k = .idle →
    client.enter p k next shared = some shared' → locks next = locks k

/-- The locks held at a position. -/
def Pos.Holds (locks : κ → Option (Lock L)) : Pos L Ch κ → Lock L → Prop
  | .code k, l => locks k = some l
  | .sleepAcquire _ lk _, l => lk = some l
  | .sleepRelease _ lk _, l => l = lk ∨ l = .ptable
  | .sleepSwitch _ _ _, l => l = .ptable
  | .switched _ _, _ => False
  | .sleepTidy _ _, l => l = .ptable
  | .sleepReacquire _ _, _ => False
  | .wakeAcquire _ next, l => locks next = some l
  | .wakeLoop _ next, l => locks next = some l ∨ l = .ptable

/-- A stage of `sleep` or `wakeup` will return with the lock it was called with. -/
def Pos.Fits (locks : κ → Option (Lock L)) : Pos L Ch κ → Prop
  | .code _ => True
  | .sleepAcquire _ lk next => locks next = lk ∧ lk ≠ some .ptable
  | .sleepRelease _ lk next => locks next = some lk ∧ lk ≠ .ptable
  | .sleepSwitch _ lk next | .switched lk next | .sleepTidy lk next => locks next = lk
  | .sleepReacquire lk next => locks next = some lk
  | .wakeAcquire _ next | .wakeLoop _ next => locks next ≠ some .ptable

/-- A process holds the locks that its position says. -/
structure Owned (locks : κ → Option (Lock L)) (s : State P L Ch κ σ) : Prop where
  fits : ∀ p, (s.thread p).pos.Fits locks
  owner : ∀ l p, s.held l = some p ↔ (s.thread p).pos.Holds locks l

/-- A lock is held by one process. -/
theorem Owned.eq_of_holds {s : State P L Ch κ σ} (owned : Owned locks s) {l : Lock L} {p q : P}
    (mine : (s.thread p).pos.Holds locks l) (yours : (s.thread q).pos.Holds locks l) : p = q := by
  have held := (owned.owner l p).mpr mine
  rw [(owned.owner l q).mpr yours] at held
  exact (Option.some.inj held).symm

variable [DecidableEq L] {s t : State P L Ch κ σ} {p : P} {event : Event P κ}
  {pos pos' : Pos L Ch κ} {held : Lock L → Option P} {shared : σ}

section

variable (move : Move client s p event pos pos' held shared)
  (disciplined : Disciplined client locks)

include move disciplined

/-- A move keeps what a process holds in order. -/
theorem Move.fits (fits : pos.Fits locks) : pos'.Fits locks := by
  cases move with
  | sleep instr apart => exact ⟨(disciplined.sleep _ _ _ _ _ instr).2, apart⟩
  | sleepHeld instr => exact (disciplined.sleep _ _ _ _ _ instr).2
  | wakeup instr =>
    obtain ⟨without, same⟩ := disciplined.wakeup _ _ _ _ instr
    show locks _ ≠ some .ptable
    rwa [same]
  | lockTable =>
    obtain ⟨same, apart⟩ := fits
    exact ⟨same, fun table => apart (by rw [table])⟩
  | lockTableNull => exact fits.1
  | unlock => exact fits.1
  | acquire | release | code | tidyHeld | tidyNull | reacquire | wake | choose => trivial
  | rest | switch | tidy | wakeAcquire => exact fits

/-- What a move does to the locks: nothing, or it takes a free one, or it drops one of its own. -/
theorem Move.effect (fits : pos.Fits locks) :
    held = s.held ∧ (∀ l, pos'.Holds locks l ↔ pos.Holds locks l) ∨
    (∃ lk, s.held lk = none ∧ held = update s.held lk (some p) ∧
      ∀ l, pos'.Holds locks l ↔ pos.Holds locks l ∨ l = lk) ∨
    ∃ lk, pos.Holds locks lk ∧ held = update s.held lk none ∧
      ∀ l, pos'.Holds locks l ↔ pos.Holds locks l ∧ l ≠ lk := by
  cases move with
  | @acquire k next lk instr free =>
    obtain ⟨before, after⟩ := disciplined.acquire _ _ _ _ instr
    refine .inr (.inl ⟨lk, free, rfl, fun l => ?_⟩)
    simp [Pos.Holds, before, after, eq_comm]
  | @release k next lk instr =>
    obtain ⟨before, after⟩ := disciplined.release _ _ _ _ instr
    refine .inr (.inr ⟨lk, before, rfl, fun l => ?_⟩)
    simp only [Pos.Holds, before, after]
    grind
  | @sleep k next chan lk instr apart =>
    have before := (disciplined.sleep _ _ _ _ _ instr).1
    exact .inl ⟨rfl, fun l => by simp [Pos.Holds, before]⟩
  | @sleepHeld k next chan instr =>
    have before := (disciplined.sleep _ _ _ _ _ instr).1
    exact .inl ⟨rfl, fun l => by simp [Pos.Holds, before, eq_comm]⟩
  | @wakeup k next chan instr =>
    have same := (disciplined.wakeup _ _ _ _ instr).2
    exact .inl ⟨rfl, fun l => by simp [Pos.Holds, same]⟩
  | @code k code instr =>
    have same := disciplined.run p k code (s.thread p).killed s.shared instr
    exact .inl ⟨rfl, fun l => by simp [Pos.Holds, same]⟩
  | @lockTable next chan lk free =>
    exact .inr (.inl ⟨.ptable, free, rfl, fun l => by simp [Pos.Holds, eq_comm]⟩)
  | lockTableNull free =>
    exact .inr (.inl ⟨.ptable, free, rfl, fun l => by simp [Pos.Holds]⟩)
  | @unlock next chan lk =>
    refine .inr (.inr ⟨lk, .inl rfl, rfl, fun l => ?_⟩)
    have apart := fits.2
    simp only [Pos.Holds]
    grind
  | rest => exact .inr (.inr ⟨.ptable, rfl, rfl, fun l => by simp [Pos.Holds]⟩)
  | switch free => exact .inr (.inl ⟨.ptable, free, rfl, fun l => by simp [Pos.Holds]⟩)
  | @tidyHeld next =>
    have same : locks next = some .ptable := fits
    exact .inl ⟨rfl, fun l => by simp [Pos.Holds, same, eq_comm]⟩
  | tidy => exact .inr (.inr ⟨.ptable, rfl, rfl, fun l => by simp [Pos.Holds]⟩)
  | @tidyNull next =>
    have same : locks next = none := fits
    exact .inr (.inr ⟨.ptable, rfl, rfl, fun l => by simp [Pos.Holds, same]⟩)
  | @reacquire next lk free =>
    have same : locks next = some lk := fits
    exact .inr (.inl ⟨lk, free, rfl, fun l => by simp [Pos.Holds, same, eq_comm]⟩)
  | wakeAcquire free => exact .inr (.inl ⟨.ptable, free, rfl, fun l => by simp [Pos.Holds]⟩)
  | @wake next chan =>
    have apart : locks next ≠ some .ptable := fits
    refine .inr (.inr ⟨.ptable, .inr rfl, rfl, fun l => ?_⟩)
    simp only [Pos.Holds]
    grind
  | @choose k next shared instr entered =>
    have same := disciplined.enter _ _ _ _ _ instr entered
    exact .inl ⟨rfl, fun l => by simp [Pos.Holds, same]⟩

end

/-- So every lock still has one owner. -/
theorem Owned.moved (owned : Owned locks s) (disciplined : Disciplined client locks)
    (move : Move client s p event (s.thread p).pos (t.thread p).pos t.held t.shared)
    (frame : Frame s t p) : Owned locks t := by
  constructor
  case fits =>
    intro q
    by_cases here : q = p
    · rw [here]
      exact move.fits disciplined (owned.fits p)
    · rw [frame.pos q here]
      exact owned.fits q
  case owner =>
    intro l q
    rcases move.effect disciplined (owned.fits p) with
      ⟨same, holds⟩ | ⟨lk, free, taken, holds⟩ | ⟨lk, mine, dropped, holds⟩
    · rw [same, owned.owner]
      by_cases here : q = p
      · rw [here, holds]
      · rw [frame.pos q here]
    · rw [taken, update_apply]
      by_cases here : q = p
      · rw [here, holds, ← owned.owner]
        by_cases there : l = lk
        · simp [there]
        · simp [there]
      · rw [frame.pos q here, ← owned.owner]
        by_cases there : l = lk
        · simp only [there, if_true, free]
          simp [Ne.symm here]
        · simp [there]
    · rw [dropped, update_apply]
      by_cases here : q = p
      · rw [here, holds, ← owned.owner]
        by_cases there : l = lk
        · simp [there]
        · simp [there]
      · rw [frame.pos q here, ← owned.owner]
        by_cases there : l = lk
        · rw [there, (owned.owner lk p).mpr mine]
          simp [Ne.symm here]
        · simp [there]

variable [DecidableEq P] [DecidableEq Ch]

omit [DecidableEq L] [DecidableEq Ch] in
/-- `kill` changes no lock. -/
theorem Owned.killed (owned : Owned locks s) (p : P) : Owned locks (s.kill p) := by
  constructor
  case fits =>
    intro q
    rw [State.kill_pos]
    exact owned.fits q
  case owner =>
    intro l q
    rw [State.kill_pos]
    exact owned.owner l q

/-- In every run processes hold the locks that their positions say. -/
theorem State.Ran.owned (disciplined : Disciplined client locks) {past : List (Event P κ)}
    (ran : State.Ran client past s) : Owned locks s := by
  refine ran.invariant (fun _ s => Owned locks s) ?_ ?_
  · intro s start
    constructor
    case fits =>
      intro p
      rw [start.threads p]
      trivial
    case owner =>
      intro l p
      rw [start.threads p, start.locks l]
      simp [Pos.Holds, disciplined.start]
  · intro past s t event before owned taken
    rcases State.outcome (State.Ran.settled before) taken with ⟨p, -, -, rfl⟩ | ⟨p, move, frame⟩
    · exact owned.killed p
    · exact owned.moved disciplined move frame

end Xv6.Sleep
