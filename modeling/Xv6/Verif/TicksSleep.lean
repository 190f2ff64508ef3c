import Xv6.Kernel.Ticks
import Xv6.Verif.SleepFlow

/-!
# How long `sys_sleep` sleeps

Between the test of the loop and the sleep no lock is held, so that a tick and its `wakeup` may pass
unnoticed; and the test compares unsigned integers, so that it is wrong for a negative argument and
after `2 ^ 32` ticks. In runs without these, a process sleeps only for as many ticks as it asked.
-/

namespace Xv6.Ticks

open Lib Sleep
open Function (update update_of_ne update_self)

variable {P : Type}

/-! ## The counter -/

/-- The ticks counted since the call read `ticks0`. -/
def Call.counted (call : Call) (shared : Shared) : Nat := shared.total - call.since

/-- Fewer ticks than asked have been counted. -/
def Call.Early (call : Call) (shared : Shared) : Prop :=
  (call.counted shared : Int) < call.n.toInt

/-- The call that a process makes. -/
def At.making : At → Option Call
  | .test made | .check made | .sleep made => some made
  | _ => none

/-- The counter and what the calls have read of it, from its value at the start. -/
structure Counter (base : UInt32) (places : P → At) (shared : Shared) : Prop where
  ticks : shared.ticks = base + UInt32.ofNat shared.total
  calls : ∀ p call, (places p).making = some call →
    call.since ≤ shared.total ∧ call.ticks0 = base + UInt32.ofNat call.since

variable {base : UInt32} {past : List (Event P At)} {s : State P Empty Unit At Shared}

/-- A process goes on in its call, or leaves it. -/
theorem Counter.goes [DecidableEq P] {places : P → At} {shared shared' : Shared}
    (counter : Counter base places shared) {p : P} {next : At}
    (making : ∀ call, next.making = some call →
      (places p).making = some call ∨ call.ticks0 = shared.ticks ∧ call.since = shared.total)
    (ticks : shared'.ticks = base + UInt32.ofNat shared'.total)
    (later : shared.total ≤ shared'.total) : Counter base (update places p next) shared' := by
  refine ⟨ticks, fun q call is => ?_⟩
  have old (made : ∃ r, (places r).making = some call) :
      call.since ≤ shared'.total ∧ call.ticks0 = base + UInt32.ofNat call.since := by
    obtain ⟨r, made⟩ := made
    obtain ⟨since, read⟩ := counter.calls r call made
    exact ⟨since.trans later, read⟩
  by_cases here : q = p
  · rw [here, update_self] at is
    rcases making call is with made | ⟨read, since⟩
    · exact old ⟨p, made⟩
    · rw [read, since]
      exact ⟨later, counter.ticks⟩
  · rw [update_of_ne here] at is
    exact old ⟨q, is⟩

/-- In every run the counter counts the ticks. -/
theorem ran_counter [DecidableEq P] (ran : State.Ran (client P) past s) :
    ∃ base, Counter base (fun p => (s.thread p).pos.label) s.shared := by
  refine State.Ran.flow ran (fun places shared => ∃ base, Counter base places shared) ?_ ?_
  · rintro shared ⟨base, rfl⟩
    refine ⟨base, ?_, fun p call making => by cases making⟩
    show base = base + 0
    rw [UInt32.add_zero]
  · rintro places shared p killed next shared' ⟨base, counter⟩ edge
    refine ⟨base, ?_⟩
    generalize here : places p = k at edge
    cases edge with
    | call leads =>
      refine counter.goes (fun call making => .inl ?_) counter.ticks (Nat.le_refl _)
      rw [here]
      cases k with
      | sleep made =>
        cases leads
        exact making
      | wake =>
        cases leads
        cases making
      | _ => cases leads
    | code instr =>
      cases k with
      | call n =>
        cases instr
        refine counter.goes (fun call making => .inr ?_) counter.ticks (Nat.le_refl _)
        cases making
        exact ⟨rfl, rfl⟩
      | test made =>
        cases instr
        refine counter.goes (fun call making => .inl ?_) counter.ticks (Nat.le_refl _)
        dsimp only at making
        rw [here]
        split at making
        · exact making
        · cases making
      | check made =>
        cases instr
        refine counter.goes (fun call making => .inl ?_) counter.ticks (Nat.le_refl _)
        dsimp only at making
        rw [here]
        split at making
        · cases making
        · exact making
      | tick =>
        cases instr
        refine counter.goes (fun call making => by cases making) ?_ (Nat.le_succ _)
        show shared.ticks + 1 = base + UInt32.ofNat (shared.total + 1)
        rw [counter.ticks, UInt32.ofNat_add, UInt32.add_assoc]
        rfl
      | done =>
        cases instr
        exact counter.goes (fun call making => by cases making) counter.ticks (Nat.le_refl _)
      | _ => cases instr
    | choose instr entered =>
      change enter p k next shared = some shared' at entered
      unfold enter at entered
      split at entered
      · cases entered
        exact counter.goes (fun call making => by cases making) counter.ticks (Nat.le_refl _)
      · obtain ⟨-, made⟩ := Option.ite_none_left_eq_some.mp entered
        cases made
        exact counter.goes (fun call making => by cases making) counter.ticks (Nat.le_refl _)
      · cases entered

/-- A test that the process passes is right, for an argument that is not negative and before the
counter has come round. -/
theorem Call.early_of_test {call : Call} {shared : Shared}
    (ticks : shared.ticks = base + UInt32.ofNat shared.total) (since : call.since ≤ shared.total)
    (read : call.ticks0 = base + UInt32.ofNat call.since) (natural : 0 ≤ call.n)
    (few : call.counted shared < 2 ^ 32) (passed : shared.ticks - call.ticks0 < call.n.toUInt32) :
    call.Early shared := by
  have counted : (shared.ticks - call.ticks0).toNat = call.counted shared := by
    have bound := base.toNat_lt
    rw [ticks, read, UInt32.toNat_sub, UInt32.toNat_add, UInt32.toNat_add, UInt32.toNat_ofNat',
      UInt32.toNat_ofNat']
    unfold Call.counted at few ⊢
    omega
  have number := Int32.toNat_toUInt32_of_le natural
  rw [UInt32.lt_iff_toNat_lt, counted, number] at passed
  unfold Call.Early
  have clamp : call.n.toNatClampNeg = call.n.toInt.toNat := rfl
  omega

/-! ## The window -/

/-- The handler is between its increment and the end of its `wakeup`. -/
def Pending : Pos Empty Unit At → Prop
  | .code .wake | .wakeAcquire _ _ | .wakeLoop _ _ => True
  | _ => False

instance (pos : Pos Empty Unit At) : Decidable (Pending pos) := by
  unfold Pending
  split <;> infer_instance

/-- The call of a process between the test of its loop and the sleep. -/
def bound : Pos Empty Unit At → Option Call
  | .code (.check made) | .code (.sleep made) => some made
  | .sleepAcquire _ _ next | .sleepRelease _ _ next | .sleepSwitch _ _ next => next.making
  | _ => none

/-- The call of a process between the test of its loop and its return from `sleep`, if the process
is not awake again. -/
def Sleeps (s : State P Empty Unit At Shared) (p : P) (call : Call) : Prop :=
  bound (s.thread p).pos = some call ∨
    (s.thread p).state = .sleeping ∧ (s.thread p).pos.label.making = some call

/-- The test of a loop is made for an argument that is not negative, and before `2 ^ 32` ticks have
been counted; and when the handler wakes, no process is late between its test and its sleep. -/
structure Prompt (s : State P Empty Unit At Shared) (event : Event P At) : Prop where
  test : ∀ p call, event = .run p → (s.thread p).pos = .code (.test call) →
    0 ≤ call.n ∧ call.counted s.shared < 2 ^ 32
  wake : ∀ p chan next, event = .run p → (s.thread p).pos = .wakeLoop chan next →
    ∀ q call, bound (s.thread q).pos = some call → call.Early s.shared

section

variable {s t : State P Empty Unit At Shared} {p : P} {event : Event P At}
  {pos pos' : Pos Empty Unit At} {held : Lock Empty → Option P} {shared : Shared}

/-- Ticks are counted by the handler, which then is to wake. -/
theorem move_total (move : Move (client P) s p event pos pos' held shared) :
    shared.total = s.shared.total ∨ Pending pos' := by
  cases move with
  | @code k code instr =>
    cases k with
    | tick =>
      cases instr
      exact .inr trivial
    | call | test | check | done =>
      cases instr
      exact .inl rfl
    | _ => cases instr
  | @choose k next shared instr entered =>
    change enter p k next s.shared = some shared at entered
    unfold enter at entered
    split at entered
    · cases entered
      exact .inl rfl
    · obtain ⟨-, made⟩ := Option.ite_none_left_eq_some.mp entered
      cases made
      exact .inl rfl
    · cases entered
  | _ => exact .inl rfl

/-- The only position of the code between the increment and `wakeup`. -/
theorem pending_code {k : At} (pending : Pending (.code k)) : k = .wake := by
  cases k <;> first | rfl | cases pending

/-- The handler is done when it has woken the processes. -/
theorem move_pending (move : Move (client P) s p event pos pos' held shared)
    (pending : Pending pos) : Pending pos' ∨ ∃ chan next, pos = .wakeLoop chan next := by
  cases move with
  | acquire instr | release instr | sleep instr | sleepHeld instr | code instr | choose instr =>
    obtain rfl := pending_code pending
    cases instr
  | wakeup | wakeAcquire => exact .inl trivial
  | wake => exact .inr ⟨_, _, rfl⟩
  | _ => cases pending

/-- The handler wakes in a step of its own. -/
theorem move_wakes {chan : Unit} {next : At}
    (move : Move (client P) s p event (.wakeLoop chan next) pos' held shared) : event = .run p := by
  cases move
  rfl

variable {call : Call}

/-- A process goes to sleep after its test. -/
theorem move_bound (move : Move (client P) s p event pos pos' held shared)
    (called : pos.Called (client P) p) (is : bound pos' = some call) :
    bound pos = some call ∨ event = .run p ∧ pos = .code (.test call) ∧
      s.shared.ticks - call.ticks0 < call.n.toUInt32 := by
  cases move with
  | @sleep k next chan lk instr =>
    cases k <;> cases instr
    exact .inl is
  | @sleepHeld k next chan instr => cases k <;> cases instr
  | @wakeup k next chan instr => cases is
  | @code k code instr =>
    cases k with
    | test made =>
      cases instr
      dsimp only at is
      split at is
      · cases is
        rename_i passed
        exact .inr ⟨rfl, rfl, passed⟩
      · cases is
    | check made =>
      cases instr
      dsimp only at is
      split at is
      · cases is
      · exact .inl is
    | call | tick | done =>
      cases instr
      cases is
    | _ => cases instr
  | lockTable | lockTableNull | unlock => exact .inl is
  | rest | switch | tidy | wakeAcquire => cases is
  | tidyHeld | reacquire =>
    obtain ⟨k, chan, instr⟩ := called
    cases k <;> cases instr
  | tidyNull =>
    obtain ⟨k, chan, instr⟩ := called
    cases k <;> cases instr
    cases is
  | wake =>
    obtain ⟨k, instr⟩ := called
    cases k <;> cases instr
    cases is
  | @acquire k next lk instr => cases k <;> cases instr
  | @release k next lk instr => cases k <;> cases instr
  | @choose k next shared instr entered =>
    change enter p k next s.shared = some shared at entered
    unfold enter at entered
    split at entered
    · cases is
    · cases is
    · cases entered

/-- A process with a call is early, or the handler is to wake it. -/
def Timely (s : State P Empty Unit At Shared) : Prop :=
  ∀ p call, Sleeps s p call → call.Early s.shared ∨ ∃ q, Pending (s.thread q).pos

/-- Who is about to sleep is not the handler. -/
theorem not_pending_of_bound (is : bound pos = some call) : ¬Pending pos := by
  intro pending
  cases pos with
  | code k =>
    obtain rfl := pending_code pending
    cases is
  | wakeAcquire | wakeLoop => cases is
  | _ => cases pending

/-- A process that sleeps after a move was asleep or about to sleep before it, or has just passed
its test. -/
theorem sleeps_moved (move : Move (client P) s p event (s.thread p).pos (t.thread p).pos t.held
      t.shared) (frame : Frame s t p) (called : (s.thread p).pos.Called (client P) p) {q : P}
    (sleeps : Sleeps t q call) :
    Sleeps s q call ∧ (q = p → bound (s.thread p).pos = some call) ∨
      event = .run p ∧ (s.thread p).pos = .code (.test call) ∧
        s.shared.ticks - call.ticks0 < call.n.toUInt32 := by
  rcases sleeps with is | ⟨asleep, label⟩
  · by_cases here : q = p
    · rw [here] at is ⊢
      rcases move_bound move called is with before | passed
      · exact .inl ⟨.inl before, fun _ => before⟩
      · exact .inr passed
    · rw [frame.pos q here] at is
      exact .inl ⟨.inl is, fun same => absurd same here⟩
  · rcases frame.asleep q asleep with ⟨slept, -, apart⟩ | ⟨rfl, chan, lk, next, stands, -⟩
    · rw [frame.pos q apart] at label
      exact .inl ⟨.inr ⟨slept, label⟩, fun same => absurd same apart⟩
    · rw [stands] at move
      rw [move.rested] at label
      have before : bound (s.thread q).pos = some call := by
        rw [stands]
        exact label
      exact .inl ⟨.inl before, fun _ => before⟩

end

variable [DecidableEq P]

/-- Every move that meets the condition keeps it. -/
theorem Timely.moved {t : State P Empty Unit At Shared} {p : P} {event : Event P At}
    (timely : Timely s) (prompt : Prompt s event) (before : State.Ran (client P) past s)
    (taken : s.step (client P) event = some t)
    (move : Move (client P) s p event (s.thread p).pos (t.thread p).pos t.held t.shared)
    (frame : Frame s t p) : Timely t := by
  intro q call sleeps
  rcases move_total move with same | pending
  · -- No tick is counted.
    have early : call.Early s.shared → call.Early t.shared := by
      unfold Call.Early Call.counted
      rw [same]
      exact id
    rcases sleeps_moved move frame (State.Ran.called before p) sleeps with
      ⟨slept, mine⟩ | ⟨ran, stands, passed⟩
    · rcases timely q call slept with is | ⟨r, pending⟩
      · exact .inl (early is)
      · by_cases here : r = p
        · rw [here] at pending
          rcases move_pending move pending with still | ⟨chan, next, stands⟩
          · exact .inr ⟨p, still⟩
          -- The handler wakes who sleeps; who is about to sleep is not late.
          rcases sleeps with is | ⟨asleep, -⟩
          · have other : q ≠ p := fun there => not_pending_of_bound (mine there) pending
            rw [frame.pos q other] at is
            rw [stands] at move
            exact .inl (early (prompt.wake p chan next (move_wakes move) stands q call is))
          · obtain ⟨k, on, -, -, -, there, -⟩ := State.Ran.rests (before.cons taken) q asleep
            exact absurd there (frame.woken chan next stands q asleep)
        · refine .inr ⟨r, ?_⟩
          rw [frame.pos r here]
          exact pending
    · obtain ⟨base, counter⟩ := ran_counter before
      obtain ⟨since, read⟩ := counter.calls p call (by rw [stands]; rfl)
      obtain ⟨natural, few⟩ := prompt.test p call ran stands
      exact .inl (early (Call.early_of_test counter.ticks since read natural few passed))
  · exact .inr ⟨p, pending⟩

/-- `kill` wakes a sleeper, and is no tick. -/
theorem Timely.killed (timely : Timely s) (p : P) : Timely (s.kill p) := by
  intro q call sleeps
  simp only [State.kill_pos]
  apply timely q call
  rcases sleeps with is | ⟨asleep, label⟩
  · rw [State.kill_pos] at is
    exact .inl is
  · have same := State.kill_asleep asleep
    rw [same] at asleep label
    exact .inr ⟨asleep, label⟩

/-- In every run that meets the condition a process with a call is early, or the handler is to wake
it. -/
theorem ran_timely (ran : State.RanWithin (client P) Prompt past s) : Timely s := by
  refine (ran.invariant (fun past s => State.Ran (client P) past s ∧ Timely s) ?_ ?_).2
  · intro s start
    refine ⟨.nil start, fun p call sleeps => ?_⟩
    rcases sleeps with is | ⟨asleep, -⟩
    · rw [start.threads] at is
      cases is
    · rw [start.threads] at asleep
      cases asleep
  · intro past s t event ⟨before, timely⟩ prompt taken
    refine ⟨before.cons taken, ?_⟩
    rcases State.outcome (State.Ran.settled before) taken with ⟨p, -, -, rfl⟩ | ⟨p, move, frame⟩
    · exact timely.killed p
    · exact timely.moved prompt before taken move frame

/-- In every run of any processes, from any value of the counter, in which each test of a loop is
made for an argument that is not negative and before `2 ^ 32` ticks have been counted, and no
process is late between its test and its sleep when the handler wakes: a process sleeps on `&ticks`,
while the handler is not between its increment and the end of its `wakeup`, only if fewer ticks than
it asked for have been counted since it read `ticks0`. -/
theorem sleeps_no_longer {past : List (Event P At)} {s : State P Empty Unit At Shared}
    (ran : State.RanWithin (client P) Prompt past s) (quiet : ∀ q, ¬Pending (s.thread q).pos)
    {p : P} (asleep : (s.thread p).state = .sleeping) :
    ∃ call, (s.thread p).pos.label = .test call ∧ call.Early s.shared := by
  obtain ⟨k, chan, lk, next, instr, -, stands⟩ := State.Ran.rests ran.history p asleep
  have label : ∃ call, next = .test call := by
    cases k <;> cases instr
    exact ⟨_, rfl⟩
  obtain ⟨call, rfl⟩ := label
  rw [stands]
  refine ⟨call, rfl, ?_⟩
  have sleeps : Sleeps s p call := .inr ⟨asleep, by rw [stands]; rfl⟩
  rcases ran_timely ran p call sleeps with early | ⟨q, pending⟩
  · exact early
  · exact absurd pending (quiet q)

/-- A test that is in order, and no `wakeup` at its end. -/
def calm (shared : Shared) : Pos Empty Unit At → Bool
  | .code (.test made) => decide (0 ≤ made.n) && decide (made.counted shared < 2 ^ 32)
  | .wakeLoop _ _ => false
  | _ => true

omit [DecidableEq P] in
/-- A step from such a state meets the condition. -/
theorem prompt_of_calm (all : ∀ p, calm s.shared (s.thread p).pos = true) (event : Event P At) :
    Prompt s event := by
  constructor
  case test =>
    intro p call _ stands
    have order := all p
    rw [stands] at order
    obtain ⟨natural, few⟩ := (Bool.and_eq_true _ _).mp order
    exact ⟨of_decide_eq_true natural, of_decide_eq_true few⟩
  case wake =>
    intro p chan next _ stands
    have order := all p
    rw [stands] at order
    cases order

/-- A process asks for one tick, just before the counter comes round, and goes to sleep. -/
theorem sleeps_no_longer_one : ∃ (past : List (Event Bool At))
    (s : State Bool Empty Unit At Shared),
    State.RanWithin (client Bool) Prompt past s ∧ (∀ q, ¬Pending (s.thread q).pos) ∧
      (s.thread false).state = .sleeping ∧
      ∃ call, (s.thread false).pos.label = .test call ∧ call.Early s.shared := by
  have runs : (replayWithin (State.step (client Bool))
      (fun _ s _ => ∀ p, calm s.shared (s.thread p).pos = true)
      [.choose false (.call 1), .run false, .run false, .run false, .run false, .run false,
        .run false] [] (State.booted (client Bool) (fresh 0xffffffff))).any (fun s =>
        (∀ q, ¬Pending (s.thread q).pos) ∧ (s.thread false).state = .sleeping) = true := by
    decide +kernel
  obtain ⟨s, within, holds⟩ := Within.of_replay (State.booted_initial (client Bool) ⟨_, rfl⟩) runs
  obtain ⟨quiet, asleep⟩ := of_decide_eq_true holds
  have prompt := within.imp fun past s event all => prompt_of_calm all event
  exact ⟨_, s, prompt, quiet, asleep, sleeps_no_longer prompt quiet asleep⟩

/-- The first of two processes sleeps longer than asked. -/
def Oversleeps (n : Int32) (s : State Bool Empty Unit At Shared) : Prop :=
  (∀ q, ¬Pending (s.thread q).pos) ∧ (s.thread false).state = .sleeping ∧
    ∃ call, (s.thread false).pos.label = .test call ∧ call.n = n ∧ ¬call.Early s.shared

/-- A run in which a sleeper is late. -/
theorem oversleeps_of_replay (labels : List (Event Bool At)) (call : Call) (total : Nat)
    (runs : ∃ s, replay (State.step (client Bool)) labels
      (State.booted (client Bool) (fresh 0)) = some s ∧
      (s.thread false).pos = .switched none (.test call) ∧ (s.thread false).state = .sleeping ∧
      ¬Pending (s.thread true).pos ∧ s.shared.total = total)
    (late : call.n.toInt ≤ (total - call.since : Nat)) :
    ∃ past s, State.Ran (client Bool) past s ∧ Oversleeps call.n s := by
  obtain ⟨s, replayed, stands, asleep, handler, counted⟩ := runs
  have start : State.Ran (client Bool) [] (State.booted (client Bool) (fresh 0)) :=
    .nil (State.booted_initial (client Bool) ⟨0, rfl⟩)
  refine ⟨_, s, start.replay replayed, fun q => ?_, asleep, call, ?_, rfl, ?_⟩
  · cases q with
    | false =>
      rw [stands]
      exact id
    | true => exact handler
  · rw [stands]
    rfl
  · unfold Call.Early Call.counted
    rw [counted]
    exact not_lt.mpr late

/-- A process asks for one tick; the tick and its `wakeup` pass between its test and its sleep, and
it sleeps on. A process that asks for `-1` ticks sleeps. -/
theorem tick_in_window_unnoticed :
    (∃ past s, State.Ran (client Bool) past s ∧ Oversleeps 1 s) ∧
      ∃ past s, State.Ran (client Bool) past s ∧ Oversleeps (-1) s := by
  constructor
  · refine oversleeps_of_replay [.choose false (.call 1), .run false, .run false, .run false,
      .choose true .tick, .run true, .run true, .run true, .run true, .run false, .run false,
      .run false] ⟨1, 0, 0⟩ 1 ?_ (by decide)
    exact ⟨_, rfl, rfl, rfl, id, rfl⟩
  · refine oversleeps_of_replay [.choose false (.call (-1)), .run false, .run false, .run false,
      .run false, .run false, .run false] ⟨-1, 0, 0⟩ 0 ?_ (by decide)
    exact ⟨_, rfl, rfl, rfl, id, rfl⟩

end Xv6.Ticks
