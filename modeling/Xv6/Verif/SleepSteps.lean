import Xv6.Kernel.Sleep

/-!
# What a step of a process that sleeps and wakes can do

A step other than `kill` moves one process from a position to the next, and may change a lock and
the shared data. The other processes stay where they are; some of them may be woken.
-/

namespace Xv6.Sleep

open Lib Function

variable {P L Ch κ σ : Type} [DecidableEq P] [DecidableEq L] {client : Client P L Ch κ σ}

/-- One process moves: the event, its positions before and after, and the locks and the shared data
after. -/
inductive Move (client : Client P L Ch κ σ) (s : State P L Ch κ σ) (p : P) :
    Event P κ → Pos L Ch κ → Pos L Ch κ → (Lock L → Option P) → σ → Prop where
  | acquire {k next : κ} {lk : Lock L} (instr : client.instr p k = .acquire lk next)
      (free : s.held lk = none) :
    Move client s p (.run p) (.code k) (.code next) (update s.held lk (some p)) s.shared
  | release {k next : κ} {lk : Lock L} (instr : client.instr p k = .release lk next) :
    Move client s p (.run p) (.code k) (.code next) (update s.held lk none) s.shared
  /-- `sleep` is called with another lock than `ptable.lock`, or none. -/
  | sleep {k next : κ} {chan : Ch} {lk : Option (Lock L)}
      (instr : client.instr p k = .sleep chan lk next) (apart : lk ≠ some .ptable) :
    Move client s p (.run p) (.code k) (.sleepAcquire chan lk next) s.held s.shared
  /-- `sleep` is called with `ptable.lock`. -/
  | sleepHeld {k next : κ} {chan : Ch}
      (instr : client.instr p k = .sleep chan (some .ptable) next) :
    Move client s p (.run p) (.code k) (.sleepSwitch chan (some .ptable) next) s.held s.shared
  | wakeup {k next : κ} {chan : Ch} (instr : client.instr p k = .wakeup chan next) :
    Move client s p (.run p) (.code k) (.wakeAcquire chan next) s.held s.shared
  | code {k : κ} {code : Bool → σ → σ × κ} (instr : client.instr p k = .run code) :
    Move client s p (.run p) (.code k) (.code (code (s.thread p).killed s.shared).2) s.held
      (code (s.thread p).killed s.shared).1
  /-- `sleep` acquires `ptable.lock`. -/
  | lockTable {next : κ} {chan : Ch} {lk : Lock L} (free : s.held .ptable = none) :
    Move client s p (.run p) (.sleepAcquire chan (some lk) next) (.sleepRelease chan lk next)
      (update s.held .ptable (some p)) s.shared
  /-- The same, if the process has given no lock. -/
  | lockTableNull {next : κ} {chan : Ch} (free : s.held .ptable = none) :
    Move client s p (.run p) (.sleepAcquire chan none next) (.sleepSwitch chan none next)
      (update s.held .ptable (some p)) s.shared
  /-- `sleep` releases the lock of the process. -/
  | unlock {next : κ} {chan : Ch} {lk : Lock L} :
    Move client s p (.run p) (.sleepRelease chan lk next) (.sleepSwitch chan (some lk) next)
      (update s.held lk none) s.shared
  /-- The process goes to sleep. -/
  | rest {next : κ} {chan : Ch} {lk : Option (Lock L)} :
    Move client s p (.run p) (.sleepSwitch chan lk next) (.switched lk next)
      (update s.held .ptable none) s.shared
  /-- The scheduler switches to it. -/
  | switch {next : κ} {lk : Option (Lock L)} (free : s.held .ptable = none) :
    Move client s p (.switch p) (.switched lk next) (.sleepTidy lk next)
      (update s.held .ptable (some p)) s.shared
  /-- `sleep` returns with `ptable.lock`. -/
  | tidyHeld {next : κ} :
    Move client s p (.run p) (.sleepTidy (some .ptable) next) (.code next) s.held s.shared
  /-- `sleep` releases `ptable.lock`. -/
  | tidy {next : κ} {lk : L} :
    Move client s p (.run p) (.sleepTidy (some (.own lk)) next) (.sleepReacquire (.own lk) next)
      (update s.held .ptable none) s.shared
  /-- `sleep` releases `ptable.lock` and returns. -/
  | tidyNull {next : κ} :
    Move client s p (.run p) (.sleepTidy none next) (.code next)
      (update s.held .ptable none) s.shared
  /-- `sleep` has the lock of the process again. -/
  | reacquire {next : κ} {lk : Lock L} (free : s.held lk = none) :
    Move client s p (.run p) (.sleepReacquire lk next) (.code next)
      (update s.held lk (some p)) s.shared
  /-- `wakeup` acquires `ptable.lock`. -/
  | wakeAcquire {next : κ} {chan : Ch} (free : s.held .ptable = none) :
    Move client s p (.run p) (.wakeAcquire chan next) (.wakeLoop chan next)
      (update s.held .ptable (some p)) s.shared
  /-- `wakeup` wakes, and releases `ptable.lock`. -/
  | wake {next : κ} {chan : Ch} :
    Move client s p (.run p) (.wakeLoop chan next) (.code next)
      (update s.held .ptable none) s.shared
  /-- Something is chosen for an idle process. -/
  | choose {k next : κ} {shared : σ} (instr : client.instr p k = .idle)
      (entered : client.enter p k next s.shared = some shared) :
    Move client s p (.choose p next) (.code k) (.code next) s.held shared

omit [DecidableEq P] in
/-- A process that goes to sleep is switched away from. -/
theorem Move.rested {s : State P L Ch κ σ} {p : P} {event : Event P κ} {chan : Ch}
    {lk : Option (Lock L)} {next : κ} {pos : Pos L Ch κ} {held : Lock L → Option P} {shared : σ}
    (move : Move client s p event (.sleepSwitch chan lk next) pos held shared) :
    pos = .switched lk next := by
  cases move
  rfl

/-- What a move of a process leaves. -/
structure Frame (s t : State P L Ch κ σ) (p : P) : Prop where
  pos : ∀ q, q ≠ p → (t.thread q).pos = (s.thread q).pos
  killed : ∀ q, (t.thread q).killed = (s.thread q).killed
  asleep : ∀ q, (t.thread q).state = .sleeping →
    (s.thread q).state = .sleeping ∧ (t.thread q).chan = (s.thread q).chan ∧ q ≠ p ∨
      q = p ∧ ∃ chan lk next, (s.thread p).pos = .sleepSwitch chan lk next ∧
        (t.thread p).chan = some chan
  woken : ∀ chan next, (s.thread p).pos = .wakeLoop chan next → ∀ q,
    (t.thread q).state = .sleeping → (t.thread q).chan ≠ some chan

/-- A process that sleeps has been switched away from. -/
def Settled (s : State P L Ch κ σ) : Prop :=
  ∀ p, (s.thread p).state = .sleeping → ∃ lk next, (s.thread p).pos = .switched lk next

/-- A position that a process leaves without having slept, and without waking anybody. -/
def Pos.Plain : Pos L Ch κ → Prop
  | .switched _ _ | .wakeLoop _ _ => False
  | _ => True

variable {s t : State P L Ch κ σ} {p : P} {k : κ} {pos pos' : Pos L Ch κ} {event : Event P κ}

omit [DecidableEq P] [DecidableEq L] in
/-- Who has not been switched away from is awake. -/
theorem Settled.awake (settled : Settled s) (here : (s.thread p).pos = pos)
    (elsewhere : ∀ lk next, pos ≠ .switched lk next) : (s.thread p).state ≠ .sleeping := by
  intro asleep
  obtain ⟨lk, next, there⟩ := settled p asleep
  exact elsewhere lk next (here.symm.trans there)

omit [DecidableEq L] in
/-- A step that changes one process, which is not asleep after it. -/
theorem frame_goto {x : Thread L Ch κ} (other : ∀ chan next, (s.thread p).pos ≠ .wakeLoop chan next)
    (thread : t.thread = update s.thread p x) (state : x.state ≠ .sleeping)
    (killed : x.killed = (s.thread p).killed) : Frame s t p := by
  have others (q : P) (apart : q ≠ p) : t.thread q = s.thread q := by
    rw [thread, update_of_ne apart]
  constructor
  case pos => exact fun q apart => by rw [others q apart]
  case killed =>
    intro q
    by_cases here : q = p
    · rw [here, thread, update_self, killed]
    · rw [others q here]
  case asleep =>
    intro q asleep
    by_cases here : q = p
    · rw [here, thread, update_self] at asleep
      exact absurd asleep state
    · rw [others q here] at asleep ⊢
      exact .inl ⟨asleep, rfl, here⟩
  case woken => exact fun chan next there => absurd there (other chan next)

/-- A process moves from a position, and the others stay. -/
def Moved (client : Client P L Ch κ σ) (s : State P L Ch κ σ) (p : P) (pos : Pos L Ch κ)
    (t : State P L Ch κ σ) : Prop :=
  Move client s p (.run p) pos (t.thread p).pos t.held t.shared ∧ Frame s t p

namespace State

omit [DecidableEq L] in
/-- After a process has been put at a position, it is there. -/
theorem goto_pos (s : State P L Ch κ σ) (p : P) (pos : Pos L Ch κ) :
    ((s.goto p pos).thread p).pos = pos := by
  simp [goto]

/-- A step that ends in `goto`. -/
theorem moved_goto {u : State P L Ch κ σ} (settled : Settled s) (here : (s.thread p).pos = pos)
    (plain : pos.Plain) (same : u.thread = s.thread)
    (move : Move client s p (.run p) pos pos' u.held u.shared) :
    Moved client s p pos (u.goto p pos') := by
  have awake := settled.awake here fun lk next there => by simp [there, Pos.Plain] at plain
  refine ⟨(goto_pos u p pos').symm ▸ move, frame_goto (fun chan next there => ?_)
    (x := { s.thread p with pos := pos' }) (by simp only [goto, same]) awake rfl⟩
  rw [here.symm.trans there] at plain
  exact plain

variable [DecidableEq Ch]

omit [DecidableEq Ch] in
/-- `acquire` succeeds when the lock is free. -/
theorem acquire_eq_some {lk : Lock L} :
    s.acquire p lk pos = some t ↔ s.held lk = none ∧ t = (s.setHeld lk (some p)).goto p pos := by
  unfold acquire
  split <;> simp_all [eq_comm]

omit [DecidableEq Ch] in
/-- An instruction moves the process. -/
theorem exec_moved (settled : Settled s) (here : (s.thread p).pos = .code k)
    (taken : s.exec p (client.instr p k) = some t) : Moved client s p (.code k) t := by
  have moved {pos' : Pos L Ch κ} {u : State P L Ch κ σ} (same : u.thread = s.thread)
      (move : Move client s p (.run p) (.code k) pos' u.held u.shared) :=
    moved_goto settled here trivial same move
  cases instr : client.instr p k with
  | idle =>
    rw [instr] at taken
    cases taken
  | acquire lk next =>
    rw [instr] at taken
    obtain ⟨free, rfl⟩ := acquire_eq_some.mp taken
    exact moved rfl (.acquire instr free)
  | release lk next =>
    rw [instr] at taken
    obtain rfl := Option.some.inj taken
    exact moved rfl (.release instr)
  | sleep chan lk next =>
    rw [instr, exec] at taken
    split at taken
    · rename_i table
      subst table
      obtain rfl := Option.some.inj taken
      exact moved rfl (.sleepHeld instr)
    · rename_i apart
      obtain rfl := Option.some.inj taken
      exact moved rfl (.sleep instr apart)
  | wakeup chan next =>
    rw [instr] at taken
    obtain rfl := Option.some.inj taken
    exact moved rfl (.wakeup instr)
  | run code =>
    rw [instr] at taken
    obtain rfl := Option.some.inj taken
    exact moved rfl (.code instr)

omit [DecidableEq L] [DecidableEq Ch] in
/-- The process that goes to sleep is the only one that does. -/
theorem frame_rest {chan : Ch} {lk : Option (Lock L)} {next : κ}
    (here : (s.thread p).pos = .sleepSwitch chan lk next)
    (thread : t.thread = update s.thread p { s.thread p with
      chan := some chan, state := .sleeping, pos := .switched lk next }) : Frame s t p := by
  constructor
  case pos => exact fun q apart => by simp only [thread, update_of_ne apart]
  case killed =>
    intro q
    by_cases same : q = p
    all_goals simp [thread, same]
  case asleep =>
    intro q asleep
    by_cases same : q = p
    · exact .inr ⟨same, chan, lk, next, here, by simp [thread]⟩
    · simp only [thread, update_of_ne same] at asleep ⊢
      exact .inl ⟨asleep, trivial, same⟩
  case woken =>
    intro chan' next' there
    cases here.symm.trans there

/-- Nobody sleeps on the channel after `wakeup`. -/
theorem frame_wake {chan : Ch} {next : κ} (awake : (s.thread p).state ≠ .sleeping)
    (here : (s.thread p).pos = .wakeLoop chan next) :
    Frame s ((s.wakeup1 chan).release p .ptable (.code next)) p := by
  have thread (q : P) : ((s.wakeup1 chan).release p .ptable (.code next)).thread q =
      { (s.wakeup1 chan).thread q with
        pos := if q = p then .code next else (s.thread q).pos } := by
    by_cases same : q = p
    · subst same
      simp [release, goto, setHeld]
    · simp only [release, goto, setHeld, update_of_ne same, same, if_false]
      unfold wakeup1
      dsimp only
      split <;> rfl
  constructor
  case pos =>
    intro q apart
    rw [thread]
    simp [apart]
  case killed =>
    intro q
    rw [thread]
    simp only [wakeup1]
    split <;> rfl
  case asleep =>
    intro q asleep
    rw [thread] at asleep ⊢
    simp only [wakeup1] at asleep ⊢
    split at asleep
    · cases asleep
    · rename_i stays
      simp only [stays, if_false]
      refine .inl ⟨asleep, trivial, ?_⟩
      rintro rfl
      exact awake asleep
  case woken =>
    intro chan' next' there q asleep
    cases here.symm.trans there
    rw [thread] at asleep ⊢
    simp only [wakeup1] at asleep ⊢
    split at asleep
    · cases asleep
    · rename_i stays
      simp only [stays, if_false]
      exact fun same => stays ⟨asleep, same⟩

/-- A step of a process moves it. -/
theorem advance_moved (settled : Settled s) (taken : s.advance client p = some t) :
    Moved client s p (s.thread p).pos t := by
  unfold advance at taken
  cases here : (s.thread p).pos with
  | code k =>
    rw [here] at taken
    exact exec_moved settled here taken
  | sleepAcquire chan lk next =>
    rw [here] at taken
    obtain ⟨free, rfl⟩ := acquire_eq_some.mp taken
    refine moved_goto settled here trivial rfl ?_
    cases lk with
    | none => exact .lockTableNull free
    | some lk => exact .lockTable free
  | sleepRelease chan lk next =>
    rw [here] at taken
    obtain rfl := Option.some.inj taken
    exact moved_goto settled here trivial rfl .unlock
  | sleepSwitch chan lk next =>
    rw [here] at taken
    obtain rfl := Option.some.inj taken
    refine ⟨?_, frame_rest here rfl⟩
    simp only [update_self]
    exact .rest
  | switched lk next =>
    rw [here] at taken
    cases taken
  | sleepTidy lk next =>
    rw [here] at taken
    have awake := settled.awake here (by simp)
    have other (chan : Ch) (next : κ) : (s.thread p).pos ≠ .wakeLoop chan next := by simp [here]
    obtain rfl := Option.some.inj taken
    rcases lk with _ | _ | lk
    · refine ⟨?_, frame_goto other (x := { s.thread p with chan := none, pos := .code next })
        (by simp [release, goto, setHeld]) awake rfl⟩
      simp only [release, goto_pos]
      exact .tidyNull
    · refine ⟨?_, frame_goto other (x := { s.thread p with chan := none, pos := .code next })
        (by simp [goto]) awake rfl⟩
      simp only [goto_pos]
      exact .tidyHeld
    · refine ⟨?_, frame_goto other
        (x := { s.thread p with chan := none, pos := .sleepReacquire (.own lk) next })
        (by simp [release, goto, setHeld]) awake rfl⟩
      simp only [release, goto_pos]
      exact .tidy
  | sleepReacquire lk next =>
    rw [here] at taken
    obtain ⟨free, rfl⟩ := acquire_eq_some.mp taken
    exact moved_goto settled here trivial rfl (.reacquire free)
  | wakeAcquire chan next =>
    rw [here] at taken
    obtain ⟨free, rfl⟩ := acquire_eq_some.mp taken
    exact moved_goto settled here trivial rfl (.wakeAcquire free)
  | wakeLoop chan next =>
    rw [here] at taken
    obtain rfl := Option.some.inj taken
    refine ⟨?_, frame_wake (settled.awake here (by simp)) here⟩
    unfold release
    rw [goto_pos]
    exact .wake

/-- A step is a `kill`, or moves one process. -/
theorem outcome (settled : Settled s) (taken : s.step client event = some t) :
    (∃ p, event = .kill p ∧ s.held .ptable = none ∧ t = s.kill p) ∨
      ∃ p, Move client s p event (s.thread p).pos (t.thread p).pos t.held t.shared ∧
        Frame s t p := by
  unfold step at taken
  cases event with
  | run p => exact .inr ⟨p, advance_moved settled taken⟩
  | switch p =>
    simp only at taken
    split at taken
    · rename_i lk next here
      obtain ⟨⟨runnable, free⟩, made⟩ := Option.ite_none_right_eq_some.mp taken
      cases made
      right
      refine ⟨p, ?_, ?_⟩
      · rw [here]
        simp only [update_self]
        exact .switch free
      · exact frame_goto (by simp [here])
          (x := { s.thread p with pos := .sleepTidy lk next, state := .running }) rfl (by simp) rfl
    · cases taken
  | kill p =>
    obtain ⟨free, made⟩ := Option.ite_none_right_eq_some.mp taken
    cases made
    exact .inl ⟨p, rfl, free, rfl⟩
  | choose p k' =>
    simp only at taken
    split at taken
    · rename_i k here
      split at taken
      · rename_i instr
        obtain ⟨shared, entered, rfl⟩ := Option.map_eq_some_iff.mp taken
        right
        refine ⟨p, ?_, ?_⟩
        · rw [goto_pos, here]
          exact .choose instr entered
        · exact frame_goto (by simp [here]) (x := { s.thread p with pos := .code k' }) rfl
            (settled.awake here (by simp)) rfl
      · cases taken
    · cases taken

omit [DecidableEq L] [DecidableEq Ch] in
/-- `kill` moves nobody. -/
theorem kill_pos (s : State P L Ch κ σ) (p q : P) :
    ((s.kill p).thread q).pos = (s.thread q).pos := by
  by_cases here : q = p
  all_goals simp [kill, here]

omit [DecidableEq L] [DecidableEq Ch] in
/-- Who sleeps after `kill` has not been killed by it. -/
theorem kill_asleep {p q : P} (asleep : ((s.kill p).thread q).state = .sleeping) :
    (s.kill p).thread q = s.thread q := by
  by_cases here : q = p
  · subst here
    simp only [kill, update_self] at asleep
    split at asleep
    · cases asleep
    · exact absurd asleep (by assumption)
  · simp only [kill, update_of_ne here]

omit [DecidableEq P] [DecidableEq L] [DecidableEq Ch] in
/-- The processes and locks after boot are ones to start from. -/
theorem booted_initial (client : Client P L Ch κ σ) {shared : σ} (initial : client.initial shared) :
    Initial client (booted client shared) where
  threads := fun _ => rfl
  locks := fun _ => rfl
  shared := initial

omit [DecidableEq P] [DecidableEq L] [DecidableEq Ch] in
/-- Nobody sleeps at the start. -/
theorem Initial.settled (start : Initial client s) : Settled s := by
  intro p asleep
  rw [start.threads p] at asleep
  cases asleep

/-- Every step keeps who sleeps switched away from. -/
theorem step_settled (settled : Settled s) (taken : s.step client event = some t) : Settled t := by
  intro q asleep
  rcases outcome settled taken with ⟨p, -, -, rfl⟩ | ⟨p, move, frame⟩
  · have same := kill_asleep asleep
    rw [same] at asleep ⊢
    exact settled q asleep
  · rcases frame.asleep q asleep with ⟨before, -, apart⟩ | ⟨rfl, chan, lk, next, there, -⟩
    · rw [frame.pos q apart]
      exact settled q before
    · rw [there] at move
      exact ⟨lk, next, move.rested⟩

/-- In every run a process that sleeps has been switched away from. -/
theorem Ran.settled {past : List (Event P κ)} (ran : Ran client past s) : Settled s :=
  ran.invariant (fun _ s => Settled s) (fun _ start => start.settled)
    fun _ _ _ _ _ settled taken => step_settled settled taken

end State

end Xv6.Sleep
