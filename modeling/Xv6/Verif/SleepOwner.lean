import Xv6.Kernel.Sleeplock
import Mathlib.Tactic.Common

/-!
# Who holds a sleep lock

`holdingsleep` does not look at the `pid`: it tells that someone holds the lock. It is exact in the
runs in which no process makes the check while another one holds the lock.
-/

namespace Xv6.Sleeplock

open Function Lib

variable {P : Type} [DecidableEq P] {pidOf : P → Nat} {s t : State P}

/-- A process makes the check where it holds the lock or no one does. -/
def State.Own (s : State P) (p : P) : Prop := s.inside p = true ∨ ∀ q, s.inside q = false

/-- The checks of a run are all of that kind. -/
def Meets (_ : List (Event P)) (s : State P) : Event P → Prop
  | .holdingsleep p _ => s.Own p
  | _ => True

/-- The lock is taken when a process is inside, and only that process may be about to release it. -/
structure Exact (s : State P) : Prop where
  taken p : s.inside p = true → s.locked = true
  free : s.locked = true → ∃ p, s.inside p = true
  one p q : s.inside p = true → s.inside q = true → p = q
  releasing p : s.releasing p = true → s.inside p = true

omit [DecidableEq P] in
/-- `holdingsleep` tells who is inside. -/
theorem Exact.holdingsleep_iff (exactly : Exact s) {p : P} (own : s.Own p) :
    holdingsleep s p = true ↔ s.inside p = true := by
  refine ⟨fun locked => ?_, exactly.taken p⟩
  obtain ⟨q, inside⟩ := exactly.free locked
  obtain mine | nobody := own
  · exact mine
  · exact absurd inside (by simp [nobody])

/-- Every such step keeps that. -/
theorem Exact.step (exactly : Exact s) {event : Event P} (met : Meets past s event)
    (taken : Sleeplock.step pidOf s event = some t) : Exact t := by
  have ⟨held, free, one, releasing⟩ := exactly
  cases event with
  | acquiresleep p =>
    obtain ⟨⟨_, _, unlocked⟩, rfl⟩ := by simpa [Sleeplock.step] using taken
    have nobody q : s.inside q = false := Bool.eq_false_iff.mpr fun inside => by
      simp [held q inside] at unlocked
    have only q (inside : update s.inside p true q = true) : q = p := by
      by_contra other
      simp [other, nobody] at inside
    exact ⟨fun _ _ => rfl, fun _ => ⟨p, update_self ..⟩,
      fun q r first second => (only q first).trans (only r second).symm,
      fun q passed => by simp [nobody] at releasing; simp [releasing] at passed⟩
  | holdingsleep p caller =>
    have exactly := exactly.holdingsleep_iff met
    simp only [Sleeplock.step] at taken
    split_ifs at taken with stopped passed
    · obtain rfl := Option.some.inj taken
      refine ⟨held, free, one, fun q => ?_⟩
      by_cases same : q = p
      · exact fun _ => same ▸ exactly.mp passed
      · simpa [same] using releasing q
    · obtain rfl := Option.some.inj taken
      exact ⟨held, free, one, releasing⟩
  | releasesleep p =>
    obtain ⟨⟨_, passed⟩, rfl⟩ := by simpa [Sleeplock.step] using taken
    have nobody q : update s.inside p false q = false := by
      by_cases same : q = p
      · simp [same]
      · simpa [same] using fun inside => same (one q p inside (releasing p passed))
    refine ⟨fun q inside => by simp [nobody] at inside, nofun,
      fun q _ inside => by simp [nobody] at inside, fun q other => ?_⟩
    by_cases same : q = p
    · simp [same] at other
    · have inside := releasing q (by simpa [same] using other)
      exact absurd (one q p inside (releasing p passed)) same

/-- In every run whose checks are all made by the holder or where no one holds the lock, at most one
process is inside, such a check is exact, and it panics where the lock is not held. -/
theorem holdingsleep_exact {past : List (Event P)}
    (ran : Within (· = initsleeplock P) (step pidOf) Meets past s) :
    (∀ p q, s.inside p = true → s.inside q = true → p = q) ∧
    ∀ p, s.Own p → (holdingsleep s p = true ↔ s.inside p = true) ∧
      ∀ caller t, s.inside p = false → step pidOf s (.holdingsleep p caller) = some t →
        t.panicked = some caller.message := by
  have exactly : Exact s := by
    refine ran.invariant (fun _ s => Exact s) ?_ ?_
    · rintro _ rfl
      exact ⟨nofun, nofun, nofun, nofun⟩
    · exact fun _ _ _ _ exactly met taken => exactly.step met taken
  refine ⟨exactly.one, fun p own => ⟨exactly.holdingsleep_iff own,
    fun caller t outside taken => ?_⟩⟩
  have unheld : holdingsleep s p = false := by
    simpa [outside] using (exactly.holdingsleep_iff own).not
  simp only [step, unheld, Bool.false_eq_true, ↓reduceIte] at taken
  split_ifs at taken
  exact congrArg State.panicked (Option.some.inj taken).symm

/-- One of two processes takes the lock and releases it, and the other one takes it. -/
theorem holdingsleep_exact_handover : ∃ past, ∃ s : State Bool,
    Within (· = initsleeplock Bool) (step fun p => p.toNat + 1) Meets past s ∧
      (holdingsleep s true = true ↔ s.inside true = true) :=
  have ran : Within (· = initsleeplock Bool) (step fun p => p.toNat + 1) Meets
      [.acquiresleep true, .releasesleep false, .holdingsleep false .brelse,
        .acquiresleep false] _ :=
    .cons (.cons (.cons (.cons (.nil rfl) trivial rfl) (.inl rfl) rfl) trivial rfl) trivial rfl
  ⟨_, _, ran, ((holdingsleep_exact ran).2 true (.inl rfl)).1⟩

/-- A process that does not hold the lock passes the check and releases it, so that another one
takes it beside the first. -/
theorem holdingsleep_foreign :
    (do
      let step := step (fun p : Fin 3 => p.val + 1)
      let s ← step (initsleeplock _) (.acquiresleep 0)
      let s ← step s (.holdingsleep 1 .brelse)
      let s ← step s (.releasesleep 1)
      let t ← step s (.acquiresleep 2)
      return (s.inside 0, t.inside 0, t.inside 2)) = some (true, true, true) := by
  decide

end Xv6.Sleeplock
