import Xv6.Verif.SleepOutline

/-!
# No lost wakeup

A process that makes it pointless to sleep on a channel owes a call of `wakeup` for the channel.
If processes sleep on it only with the lock of the data, then somebody owes a wakeup whenever a
process sleeps that has no reason to: the process that sleeps holds `ptable.lock` from before it
releases the lock of the data until it is asleep, and `wakeup` needs `ptable.lock`.
-/

namespace Xv6.Sleep

open Lib

variable {P L Ch κ σ τ : Type}

/-- Who owes a wakeup. -/
structure Debt (P κ τ : Type) where
  owes : P → κ → Prop
  pays : P → κ → Prop
  /-- The steps of code that are considered, from the flag `killed` and the data. -/
  allowed : P → κ → Bool → τ → Prop

namespace Debt

/-- A debt is made by whoever takes away the reason to sleep, and ends with `wakeup`. -/
structure Valid (debt : Debt P κ τ) (outline : Outline P L Ch κ σ τ) (client : Client P L Ch κ σ)
    (chan : Ch) : Prop where
  /-- If there is no reason to sleep after a step of code, and there was one before or the process
  owed a wakeup, it owes one now. -/
  run : ∀ p k code killed shared, client.instr p k = .run code →
    outline.inv (outline.view shared) → outline.knows p k (outline.view shared) →
    debt.allowed p k killed (outline.view shared) →
    ¬outline.rests chan (outline.view (code killed shared).1) →
    outline.rests chan (outline.view shared) ∨ debt.owes p k → debt.owes p (code killed shared).2
  acquire : ∀ p k lk next, client.instr p k = .acquire lk next → debt.owes p k → debt.owes p next
  release : ∀ p k lk next, client.instr p k = .release lk next → debt.owes p k → debt.owes p next
  sleep : ∀ p k c lk next, client.instr p k = .sleep c lk next → debt.owes p k → debt.owes p next
  wakeup : ∀ p k next, client.instr p k = .wakeup chan next → debt.owes p k → debt.pays p next
  wakeupOther : ∀ p k c next, client.instr p k = .wakeup c next → c ≠ chan → debt.owes p k →
    debt.owes p next
  enter : ∀ p k next shared shared', client.instr p k = .idle →
    client.enter p k next shared = some shared' → debt.owes p k → debt.owes p next

/-- A process owes a wakeup where it is. -/
def Owes (debt : Debt P κ τ) (chan : Ch) (p : P) : Pos L Ch κ → Prop
  | .code k => debt.owes p k
  | .sleepAcquire _ _ next | .sleepRelease _ _ next | .sleepSwitch _ _ next | .switched _ next
  | .sleepTidy _ next | .sleepReacquire _ next => debt.owes p next
  | .wakeAcquire c next | .wakeLoop c next =>
    c = chan ∧ debt.pays p next ∨ c ≠ chan ∧ debt.owes p next

/-- A process sleeps on the channel, or holds `ptable.lock` to do so. -/
def Dozes (s : State P L Ch κ σ) (chan : Ch) (p : P) : Prop :=
  (∃ lk next, (s.thread p).pos = .sleepSwitch chan lk next) ∨
    (s.thread p).state = .sleeping ∧ (s.thread p).chan = some chan

/-- Who sleeps without a reason will be woken. -/
def Watched (debt : Debt P κ τ) (outline : Outline P L Ch κ σ τ) (chan : Ch)
    (s : State P L Ch κ σ) : Prop :=
  ∀ p, Dozes s chan p →
    outline.rests chan (outline.view s.shared) ∨ ∃ q, debt.Owes chan q (s.thread q).pos

variable {debt : Debt P κ τ} {outline : Outline P L Ch κ σ τ} {client : Client P L Ch κ σ}
  {chan : Ch} [DecidableEq L] {s t : State P L Ch κ σ} {p : P} {event : Event P κ}
  {pos pos' : Pos L Ch κ} {held : Lock L → Option P} {shared : σ}

/-- The debt of a process that moves: if there is no reason to sleep after the move, and there was
one before or the process owed a wakeup, then it owes one now, unless it has just paid. -/
theorem Valid.move (valid : debt.Valid outline client chan) (outlined : outline.Valid client)
    (move : Move client s p event pos pos' held shared) (inv : outline.inv (outline.view s.shared))
    (knows : outline.Knows p (outline.view s.shared) pos)
    (allowed : ∀ k, pos = .code k → event = .run p →
      debt.allowed p k (s.thread p).killed (outline.view s.shared))
    (broken : ¬outline.rests chan (outline.view shared))
    (cause : outline.rests chan (outline.view s.shared) ∨ debt.Owes chan p pos) :
    debt.Owes chan p pos' ∨ ∃ next, pos = .wakeLoop chan next := by
  cases move with
  | acquire instr => exact .inl (valid.acquire _ _ _ _ instr (cause.resolve_left broken))
  | release instr => exact .inl (valid.release _ _ _ _ instr (cause.resolve_left broken))
  | sleep instr => exact .inl (valid.sleep _ _ _ _ _ instr (cause.resolve_left broken))
  | sleepHeld instr => exact .inl (valid.sleep _ _ _ _ _ instr (cause.resolve_left broken))
  | @wakeup k next c instr =>
    have owed := cause.resolve_left broken
    by_cases here : c = chan
    · subst here
      exact .inl (.inl ⟨rfl, valid.wakeup _ _ _ instr owed⟩)
    · exact .inl (.inr ⟨here, valid.wakeupOther _ _ _ _ instr here owed⟩)
  | @code k code instr =>
    exact .inl (valid.run p k code _ _ instr inv knows (allowed k rfl rfl) broken cause)
  | lockTable | lockTableNull | unlock | rest | switch | tidyHeld | tidy | tidyNull | reacquire
  | wakeAcquire => exact .inl (cause.resolve_left broken)
  | @wake next c =>
    rcases cause.resolve_left broken with ⟨rfl, -⟩ | ⟨-, owed⟩
    · exact .inr ⟨next, rfl⟩
    · exact .inl owed
  | choose instr entered =>
    have same := (outlined.enter _ _ _ _ _ instr entered).1
    rw [same] at broken
    exact .inl (valid.enter _ _ _ _ _ instr entered (cause.resolve_left broken))

/-- A process that newly gets ready to sleep has a reason. -/
theorem dozes_moved (move : Move client s p event pos pos' held shared)
    (knows : outline.Knows p (outline.view s.shared) pos) (outlined : outline.Valid client)
    {lk : Option (Lock L)} {next : κ} (ready : pos' = .sleepSwitch chan lk next) :
    outline.rests chan (outline.view shared) := by
  subst ready
  cases move with
  | sleepHeld instr =>
    have guarded := (outlined.sleep _ _ _ _ _ instr).1
    cases guarded
  | lockTableNull =>
    have guarded := knows.1.1
    cases guarded
  | unlock => exact knows.1.2

/-- A move keeps the watch. -/
theorem Watched.moved (watched : debt.Watched outline chan s)
    (valid : debt.Valid outline client chan) (outlined : outline.Valid client)
    (owned : Owned outline.locks s) (holds : outline.Holds s)
    (move : Move client s p event (s.thread p).pos (t.thread p).pos t.held t.shared)
    (frame : Frame s t p)
    (allowed : ∀ k q, (s.thread p).pos = .code k → event = .run p → Dozes s chan q →
      debt.allowed p k (s.thread p).killed (outline.view s.shared)) :
    debt.Watched outline chan t := by
  intro q dozes
  -- The process dozed before, or it has just got ready to sleep.
  have before : Dozes s chan q ∨ outline.rests chan (outline.view t.shared) := by
    rcases dozes with ⟨lk, next, ready⟩ | ⟨asleep, on⟩
    · by_cases here : q = p
      · rw [here] at ready
        exact .inr (dozes_moved move (holds.knows p) outlined ready)
      · rw [frame.pos q here] at ready
        exact .inl (.inl ⟨lk, next, ready⟩)
    · rcases frame.asleep q asleep with ⟨slept, same, -⟩ | ⟨rfl, c, lk, next, ready, there⟩
      · exact .inl (.inr ⟨slept, same.symm.trans on⟩)
      · obtain rfl := Option.some.inj (there.symm.trans on)
        exact .inl (.inl ⟨lk, next, ready⟩)
  rcases before with dozed | rests
  · by_contra failed
    rw [not_or] at failed
    obtain ⟨broken, nobody⟩ := failed
    have cause : outline.rests chan (outline.view s.shared) ∨
        debt.Owes chan p (s.thread p).pos := by
      rcases watched q dozed with rests | ⟨r, owes⟩
      · exact .inl rests
      · by_cases here : r = p
        · exact .inr (here ▸ owes)
        · exact absurd ⟨r, by rw [frame.pos r here]; exact owes⟩ nobody
    have allowed' (k : κ) (stands : (s.thread p).pos = .code k) (ran : event = .run p) :=
      allowed k q stands ran dozed
    rcases valid.move outlined move holds.inv (holds.knows p) allowed' broken cause with
      owes | ⟨next, woke⟩
    · exact nobody ⟨p, owes⟩
    -- After a wakeup nobody sleeps on the channel, and nobody else had `ptable.lock`.
    rcases dozes with ⟨lk, next', ready⟩ | ⟨asleep, on⟩
    · have table : (s.thread p).pos.Holds outline.locks .ptable := by
        rw [woke]
        exact .inr rfl
      by_cases here : q = p
      · rw [woke, ← here, ready] at move
        cases move
      · rw [frame.pos q here] at ready
        refine here (owned.eq_of_holds (l := .ptable) ?_ table)
        rw [ready]
        rfl
    · exact frame.woken chan next woke q asleep on
  · exact .inl rests

variable [DecidableEq P] [DecidableEq Ch]

omit [DecidableEq L] [DecidableEq Ch] in
/-- So does `kill`. -/
theorem Watched.killed (watched : debt.Watched outline chan s) (p : P) :
    debt.Watched outline chan (s.kill p) := by
  intro q dozes
  simp only [State.kill_pos]
  apply watched q
  rcases dozes with ⟨lk, next, ready⟩ | ⟨asleep, on⟩
  · rw [State.kill_pos] at ready
    exact .inl ⟨lk, next, ready⟩
  · have same := State.kill_asleep asleep
    rw [same] at asleep on
    exact .inr ⟨asleep, on⟩

/-- In every run whose steps of code are allowed while somebody dozes, a process that sleeps on the
channel has a reason, or somebody owes a wakeup. -/
theorem Valid.ran (valid : debt.Valid outline client chan) (outlined : outline.Valid client)
    {meets : State P L Ch κ σ → Event P κ → Prop}
    (allows : ∀ s p k q, meets s (.run p) → (s.thread p).pos = .code k → Dozes s chan q →
      debt.allowed p k (s.thread p).killed (outline.view s.shared)) {past : List (Event P κ)}
    (ran : State.RanWithin client meets past s) : debt.Watched outline chan s := by
  have both : State.Ran client past s ∧ debt.Watched outline chan s := by
    refine ran.invariant (fun past s => State.Ran client past s ∧ debt.Watched outline chan s)
      ?_ ?_
    · intro s start
      refine ⟨.nil start, fun p dozes => ?_⟩
      rcases dozes with ⟨lk, next, ready⟩ | ⟨asleep, -⟩
      · rw [start.threads p] at ready
        cases ready
      · rw [start.threads p] at asleep
        cases asleep
    · intro past s t event ⟨before, watched⟩ met taken
      refine ⟨before.cons taken, ?_⟩
      rcases State.outcome (State.Ran.settled before) taken with ⟨p, -, -, rfl⟩ | ⟨p, move, frame⟩
      · exact watched.killed p
      · refine watched.moved valid outlined (State.Ran.owned outlined.disciplined before)
          (outlined.ran before) move frame ?_
        rintro k q there rfl dozes
        exact allows s p k q met there dozes
  exact both.2

end Debt

end Xv6.Sleep
