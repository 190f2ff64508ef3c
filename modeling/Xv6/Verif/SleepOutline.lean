import Xv6.Verif.SleepLocks

/-!
# Code that shares data under a lock

An outline annotates the code of a client whose shared data is guarded by one lock: an invariant of
the data, what a process knows about it at each of its positions, and what the caller of `sleep`
knows for each channel. A process that does not hold the lock knows no more than the invariant, and
does not change the data. Then the invariant holds in every run, and a process always knows what
its position says, up to the release of the lock in `sleep`.
-/

namespace Xv6.Sleep

open Lib

variable {P L Ch κ σ τ : Type}

/-- The annotations of the code of a client. -/
structure Outline (P L Ch κ σ τ : Type) where
  locks : κ → Option (Lock L)
  guard : L
  view : σ → τ
  inv : τ → Prop
  knows : P → κ → τ → Prop
  rests : Ch → τ → Prop

namespace Outline

/-- The annotations are right. -/
structure Valid (outline : Outline P L Ch κ σ τ) (client : Client P L Ch κ σ) : Prop where
  disciplined : Disciplined client outline.locks
  initial : ∀ shared, client.initial shared → outline.inv (outline.view shared)
  /-- Without the lock a process knows only the invariant. -/
  free : ∀ p k x, outline.locks k ≠ some (.own outline.guard) → outline.inv x →
    outline.knows p k x
  /-- Code keeps the invariant, and changes the data only with the lock. -/
  run : ∀ p k code killed shared, client.instr p k = .run code →
    outline.inv (outline.view shared) → outline.knows p k (outline.view shared) →
    outline.inv (outline.view (code killed shared).1) ∧
      outline.knows p (code killed shared).2 (outline.view (code killed shared).1) ∧
      (outline.locks k ≠ some (.own outline.guard) →
        outline.view (code killed shared).1 = outline.view shared)
  /-- After `acquire` a process knows only the invariant. -/
  acquire : ∀ p k lk next, client.instr p k = .acquire lk next → ∀ x, outline.inv x →
    outline.knows p next x
  /-- `sleep` is called with the lock, and after it a process knows only the invariant. -/
  sleep : ∀ p k chan lk next, client.instr p k = .sleep chan lk next →
    lk = some (.own outline.guard) ∧
      (∀ x, outline.inv x → outline.knows p k x → outline.rests chan x) ∧
      ∀ x, outline.inv x → outline.knows p next x
  wakeup : ∀ p k chan next, client.instr p k = .wakeup chan next → ∀ x, outline.inv x →
    outline.knows p k x → outline.knows p next x
  enter : ∀ p k next shared shared', client.instr p k = .idle →
    client.enter p k next shared = some shared' →
    outline.view shared' = outline.view shared ∧
      ∀ x, outline.inv x → outline.knows p k x → outline.knows p next x

/-- What a process knows where it is. -/
def Knows (outline : Outline P L Ch κ σ τ) (p : P) (x : τ) : Pos L Ch κ → Prop
  | .code k => outline.knows p k x
  | .sleepAcquire chan lk next =>
    (lk = some (.own outline.guard) ∧ outline.rests chan x) ∧
      ∀ y, outline.inv y → outline.knows p next y
  | .sleepRelease chan lk next =>
    (lk = .own outline.guard ∧ outline.rests chan x) ∧
      ∀ y, outline.inv y → outline.knows p next y
  | .sleepSwitch _ _ next | .switched _ next | .sleepTidy _ next | .sleepReacquire _ next =>
    ∀ y, outline.inv y → outline.knows p next y
  | .wakeAcquire _ next | .wakeLoop _ next => outline.knows p next x

/-- The data satisfies its invariant, and processes know what their positions say. -/
structure Holds (outline : Outline P L Ch κ σ τ) (s : State P L Ch κ σ) : Prop where
  inv : outline.inv (outline.view s.shared)
  knows : ∀ p, outline.Knows p (outline.view s.shared) (s.thread p).pos

variable {outline : Outline P L Ch κ σ τ} {client : Client P L Ch κ σ}

/-- A process without the lock does not notice a change of the data. -/
theorem Valid.stable (valid : outline.Valid client) {p : P} {x y : τ} {pos : Pos L Ch κ}
    (knows : outline.Knows p x pos) (without : ¬pos.Holds outline.locks (.own outline.guard))
    (inv : outline.inv y) : outline.Knows p y pos := by
  cases pos with
  | code k => exact valid.free p k y without inv
  | sleepAcquire chan lk next => exact absurd knows.1.1 without
  | sleepRelease chan lk next => exact absurd (.inl knows.1.1.symm) without
  | sleepSwitch | switched | sleepTidy | sleepReacquire => exact knows
  | wakeAcquire chan next => exact valid.free p next y without inv
  | wakeLoop chan next => exact valid.free p next y (fun held => without (.inl held)) inv

variable [DecidableEq L] {s t : State P L Ch κ σ} {p : P} {event : Event P κ}
  {pos pos' : Pos L Ch κ} {held : Lock L → Option P} {shared : σ}

/-- A move of a process keeps the invariant and what it knows, and changes the data only with the
lock. -/
theorem Valid.move (valid : outline.Valid client)
    (move : Move client s p event pos pos' held shared) (inv : outline.inv (outline.view s.shared))
    (knows : outline.Knows p (outline.view s.shared) pos) :
    outline.inv (outline.view shared) ∧ outline.Knows p (outline.view shared) pos' ∧
      (¬pos.Holds outline.locks (.own outline.guard) →
        outline.view shared = outline.view s.shared) := by
  cases move with
  | acquire instr => exact ⟨inv, valid.acquire _ _ _ _ instr _ inv, fun _ => rfl⟩
  | @release k next lk instr =>
    have without := (valid.disciplined.release _ _ _ _ instr).2
    exact ⟨inv, valid.free _ _ _ (by simp [without]) inv, fun _ => rfl⟩
  | sleep instr =>
    obtain ⟨guarded, why, after⟩ := valid.sleep _ _ _ _ _ instr
    exact ⟨inv, ⟨⟨guarded, why _ inv knows⟩, after⟩, fun _ => rfl⟩
  | sleepHeld instr =>
    have guarded := (valid.sleep _ _ _ _ _ instr).1
    cases guarded
  | wakeup instr => exact ⟨inv, valid.wakeup _ _ _ _ instr _ inv knows, fun _ => rfl⟩
  | code instr => exact valid.run _ _ _ _ _ instr inv knows
  | lockTable => exact ⟨inv, ⟨⟨Option.some.inj knows.1.1, knows.1.2⟩, knows.2⟩, fun _ => rfl⟩
  | lockTableNull =>
    have guarded := knows.1.1
    cases guarded
  | unlock => exact ⟨inv, knows.2, fun _ => rfl⟩
  | rest | switch | tidy | wakeAcquire | wake => exact ⟨inv, knows, fun _ => rfl⟩
  | tidyHeld | tidyNull | reacquire => exact ⟨inv, knows _ inv, fun _ => rfl⟩
  | choose instr entered =>
    obtain ⟨same, after⟩ := valid.enter _ _ _ _ _ instr entered
    rw [same]
    exact ⟨inv, after _ inv knows, fun _ => rfl⟩

/-- A move keeps the assertions. -/
theorem Holds.moved (holds : outline.Holds s) (valid : outline.Valid client)
    (owned : Owned outline.locks s)
    (move : Move client s p event (s.thread p).pos (t.thread p).pos t.held t.shared)
    (frame : Frame s t p) : outline.Holds t := by
  obtain ⟨inv, knows, same⟩ := valid.move move holds.inv (holds.knows p)
  refine ⟨inv, fun q => ?_⟩
  by_cases here : q = p
  · rw [here]
    exact knows
  · rw [frame.pos q here]
    by_cases guarded : (s.thread p).pos.Holds outline.locks (.own outline.guard)
    · -- The process holds the lock, so the others do not.
      refine valid.stable (holds.knows q) (fun yours => ?_) inv
      exact here (owned.eq_of_holds yours guarded)
    · rw [same guarded]
      exact holds.knows q

variable [DecidableEq P] [DecidableEq Ch]

/-- So does every run. -/
theorem Valid.ran (valid : outline.Valid client) {past : List (Event P κ)}
    (ran : State.Ran client past s) : outline.Holds s := by
  refine ran.invariant (fun _ s => outline.Holds s) ?_ ?_
  · intro s start
    have inv := valid.initial _ start.shared
    refine ⟨inv, fun p => ?_⟩
    rw [start.threads p]
    exact valid.free p _ _ (by simp [valid.disciplined.start]) inv
  · intro past s t event before holds taken
    rcases State.outcome (State.Ran.settled before) taken with ⟨p, -, -, rfl⟩ | ⟨p, move, frame⟩
    · refine ⟨holds.inv, fun q => ?_⟩
      rw [State.kill_pos]
      exact holds.knows q
    · exact holds.moved valid (State.Ran.owned valid.disciplined before) move frame

end Outline

end Xv6.Sleep
