import Xv6.Kernel.Signal
import Xv6.Verif.SleepWakeup

/-!
# Sleepers and wakers lose no wakeup

The outline of the code: a process knows that the predicate is false when it is about to sleep. A
process owes a wakeup from its write on.
-/

namespace Xv6.Signal

open Lib Sleep

variable {P σ : Type} {pred : σ → Prop} [DecidablePred pred]

/-- The lock held at a position. -/
def At.locks : At σ → Option (Lock Unit)
  | .outside _ | .acquire _ => none
  | .inside _ | .write _ _ | .test _ | .sleep _ | .release _ => some (.own ())
  | .wakeup _ held | .woke _ held => if held then some (.own ()) else none

/-- A choice leaves the data, the lock and what the process owes, and does not put it to sleep. -/
theorem enter_some (p : P) {k next : At σ} {x y : σ} (entered : enter p k next x = some y) :
    y = x ∧ next.locks = k.locks ∧ next.owes = k.owes ∧ ∀ owes, next ≠ .sleep owes := by
  unfold enter at entered
  split at entered
  case h_7 => cases entered
  all_goals
    obtain ⟨rfl, made⟩ := Option.ite_none_right_eq_some.mp entered
    cases made
    exact ⟨rfl, rfl, rfl, fun _ same => by cases same⟩

/-- The outline. -/
def outline (P : Type) (pred : σ → Prop) : Outline P Unit Unit (At σ) σ σ where
  locks := At.locks
  guard := ()
  view := id
  inv := fun _ => True
  knows := fun _ k x => match k with
    | .sleep _ => ¬pred x
    | _ => True
  rests := fun _ x => ¬pred x

/-- Locks are acquired and released in pairs. -/
theorem disciplined : Disciplined (client P pred) At.locks := by
  constructor
  case start => rfl
  case acquire =>
    intro p k lk next instr
    cases k <;> cases instr
    exact ⟨rfl, rfl⟩
  case release =>
    intro p k lk next instr
    cases k <;> cases instr
    exact ⟨rfl, rfl⟩
  case sleep =>
    intro p k chan lk next instr
    cases k <;> cases instr
    exact ⟨rfl, rfl⟩
  case wakeup =>
    intro p k chan next instr
    cases k <;> cases instr
    rename_i owes held
    cases held
    all_goals exact ⟨by simp [At.locks], rfl⟩
  case run =>
    intro p k code killed shared instr
    cases k <;> cases instr
    · rfl
    · dsimp only
      split <;> rfl
    · rename_i owes held
      cases held <;> rfl
  case enter =>
    intro p k next shared shared' _ entered
    exact (enter_some p entered).2.1

/-- The outline describes the code. -/
theorem outline_valid : (outline P pred).Valid (client P pred) := by
  constructor
  case disciplined => exact disciplined
  case initial => exact fun _ _ => trivial
  case free =>
    intro p k x without _
    cases k with
    | sleep owes => exact absurd rfl without
    | _ => trivial
  case run =>
    intro p k code killed shared instr _ _
    cases k <;> cases instr
    · exact ⟨trivial, trivial, fun without => absurd rfl without⟩
    · dsimp only
      split
      · exact ⟨trivial, trivial, fun _ => rfl⟩
      · rename_i unmet
        exact ⟨trivial, unmet, fun _ => rfl⟩
    · dsimp only
      split
      all_goals exact ⟨trivial, trivial, fun _ => rfl⟩
  case acquire =>
    intro p k lk next instr
    cases k <;> cases instr
    exact fun _ _ => trivial
  case sleep =>
    intro p k chan lk next instr
    cases k <;> cases instr
    exact ⟨rfl, fun _ _ unmet => unmet, fun _ _ => trivial⟩
  case wakeup =>
    intro p k chan next instr
    cases k <;> cases instr
    exact fun _ _ _ => trivial
  case enter =>
    intro p k next shared shared' _ entered
    obtain ⟨rfl, -, -, awake⟩ := enter_some p entered
    refine ⟨rfl, fun x _ _ => ?_⟩
    cases next with
    | sleep owes => exact absurd rfl (awake owes)
    | _ => trivial

/-- Who owes a wakeup. -/
def debt (P σ : Type) : Debt P (At σ) σ where
  owes := fun _ k => k.owes = true
  pays := fun _ k => k.owed = true
  allowed := fun _ _ _ _ => True

/-- A write that makes the predicate true makes a debt, and `wakeup` ends it. -/
theorem debt_valid : (debt P σ).Valid (outline P pred) (client P pred) () := by
  constructor
  case run =>
    intro p k code killed shared instr _ _ _ broken cause
    cases k with
    | write owes new =>
      cases instr
      have after : pred new := not_not.mp broken
      rcases cause with before | owed
      · have unmet : ¬pred shared := before
        simp [debt, At.owes, after, unmet]
      · have flag : owes = true := owed
        simp [debt, At.owes, flag]
    | test owes =>
      cases instr
      have met : pred shared := not_not.mp broken
      simp only [if_pos met]
      exact cause.resolve_left broken
    | woke owes held =>
      cases instr
      cases cause.resolve_left broken
    | _ => cases instr
  case acquire =>
    intro p k lk next instr owed
    cases k <;> cases instr
    exact owed
  case release =>
    intro p k lk next instr owed
    cases k <;> cases instr
    exact owed
  case sleep =>
    intro p k c lk next instr owed
    cases k <;> cases instr
    exact owed
  case wakeup =>
    intro p k next instr owed
    cases k <;> cases instr
    exact owed
  case wakeupOther => exact fun _ _ _ _ _ other => absurd rfl other
  case enter =>
    intro p k next shared shared' _ entered owed
    show next.owes = true
    rw [(enter_some p entered).2.2.1]
    exact owed

variable [DecidableEq P]

/-- In every run of any sleepers and wakers: if a process sleeps on the channel, and no waker is
between making the predicate true and completing `wakeup`, then the predicate is false. -/
theorem no_lost_wakeup {past : List (Event P (At σ))} {s : State P Unit Unit (At σ) σ}
    (ran : State.Ran (client P pred) past s) {p : P} (asleep : (s.thread p).state = .sleeping)
    (on : (s.thread p).chan = some ()) (quiet : ∀ q, ¬Waking (s.thread q).pos) :
    ¬pred s.shared := by
  have within : State.RanWithin (client P pred) (fun _ _ => True) past s :=
    Within.of_history (fun _ _ _ => trivial) ran
  rcases debt_valid.ran outline_valid (fun _ _ _ _ _ _ _ => trivial) within p
    (.inr ⟨asleep, on⟩) with
    rests | ⟨q, owes⟩
  · exact rests
  refine absurd ?_ (quiet q)
  cases stands : (s.thread q).pos with
  | wakeAcquire c next | wakeLoop c next =>
    rw [stands] at owes
    rcases owes with ⟨-, owed⟩ | ⟨other, -⟩
    · exact owed
    · exact absurd rfl other
  | _ =>
    rw [stands] at owes
    exact owes

/-- A consumer finds nothing and goes to sleep. -/
theorem no_lost_wakeup_consumer : ∃ (past : List (Event Bool (At Nat)))
    (s : State Bool Unit Unit (At Nat) Nat),
    State.Ran (client Bool fun value => 0 < value) past s ∧
      (s.thread false).state = .sleeping ∧ (s.thread false).chan = some () ∧
      (∀ q, ¬Waking (s.thread q).pos) ∧ ¬0 < s.shared := by
  have runs : (replay (State.step (client Bool fun value => 0 < value))
      [.choose false (.acquire false), .run false, .choose false (.test false), .run false,
        .run false, .run false, .run false, .run false]
      (State.booted (client Bool fun value => 0 < value) 0)).any (fun s =>
        (s.thread false).state = .sleeping ∧ (s.thread false).chan = some () ∧
          ∀ q, ¬Waking (s.thread q).pos) = true := by
    decide +kernel
  obtain ⟨s, ran, holds⟩ := History.of_replay (State.booted_initial _ trivial) runs
  obtain ⟨asleep, on, quiet⟩ := of_decide_eq_true holds
  exact ⟨_, s, ran, asleep, on, quiet, no_lost_wakeup ran asleep on quiet⟩

end Xv6.Signal
