import Xv6.Verif.SchedTable

/-!
# Parents and children

Every process but the first has an active parent: `fork` gives it the caller, and `exit` passes the
children of a process to the first one before it becomes a zombie. A process sleeps in `wait` only
while it has a child, none of its children is a zombie, and it has not been killed: `exit` wakes
the parent, and the first process for the zombies it is given.
-/

namespace Xv6.Sched

open Lib Function

namespace State

variable {C : Type} {s t : State C} {p q np : Fin nProc}

/-- Parents and children. -/
structure Family (s : State C) : Prop where
  first : Active (s.proc initproc).state ∧ (s.proc initproc).parent = none
  parent : ∀ p, p ≠ initproc → Live (s.proc p).state →
    ∃ q, (s.proc p).parent = some q ∧ Active (s.proc q).state
  apart : ∀ p, (s.proc p).parent ≠ some p
  /-- Before it runs, a process has no parent but the one that is copying itself. -/
  early : ∀ p q, ¬Live (s.proc p).state → (s.proc p).parent = some q →
    (s.proc q).work = .copied p
  copied : ∀ q np, (s.proc q).work = .copied np → (s.proc np).parent = some q
  busy : ∀ p, (s.proc p).work ≠ .none → Active (s.proc p).state
  waiter : ∀ p, (s.proc p).state = .sleeping → (s.proc p).context = .wait → Rests s p (s.proc p)

namespace Family

variable (family : Family s)

include family

/-- A step that leaves the parents, and ends or creates no process. -/
theorem quiet (steady : ∀ q, Steady (s.proc q) (t.proc q))
    (waiter : ∀ q, (t.proc q).state = .sleeping → (t.proc q).context = .wait →
      Rests s q (t.proc q)) : Family t := by
  have parents (q : Fin nProc) := (steady q).parent
  have works (q : Fin nProc) := (steady q).work
  constructor
  case first =>
    rw [parents]
    exact ⟨(steady _).active family.first.1, family.first.2⟩
  case parent =>
    intro q other alive
    obtain ⟨r, child, was⟩ := family.parent q other ((steady q).live.mp alive)
    exact ⟨r, (parents q).trans child, (steady r).active was⟩
  case apart =>
    intro q
    rw [parents]
    exact family.apart q
  case early =>
    intro q r young child
    rw [works]
    rw [parents] at child
    exact family.early q r (fun alive => young ((steady q).live.mpr alive)) child
  case copied =>
    intro q r work
    rw [works] at work
    rw [parents]
    exact family.copied q r work
  case busy =>
    intro q work
    rw [works] at work
    exact (steady q).active (family.busy q work)
  case waiter =>
    intro q asleep context
    obtain ⟨chan, alive, ⟨r, child⟩, none⟩ := waiter q asleep context
    refine ⟨chan, alive, ⟨r, (parents r).trans child⟩, fun z child' => ?_⟩
    rw [parents] at child'
    rw [ne_eq, (steady z).zombie]
    exact none z child'

/-- A slot that is not yet a process has no parent, unless it is being copied to. -/
theorem parent_none (young : ¬Live (s.proc np).state)
    (untouched : ∀ q, (s.proc q).work ≠ .copied np) : (s.proc np).parent = none := by
  cases child : (s.proc np).parent with
  | none => rfl
  | some q => exact absurd (family.early np q young child) (untouched q)

/-- A step of `fork` on a slot that is not a process yet. -/
theorem filled {x : Proc} {work : Work}
    (fills : Fills s t p np x work) (active : Active (s.proc p).state) (apart : np ≠ p)
    (young : ¬Live (s.proc np).state) (free : ∀ q, q ≠ p → (s.proc q).work ≠ .copied np)
    (before : ∀ q, (s.proc p).work = .copied q → q = np) (after : ∀ q, work = .copied q → q = np)
    (keeps : ∀ r, (s.proc np).parent = some r → x.parent = some r)
    (idle : x.work = (s.proc np).work) (new : x.state ≠ .sleeping ∧ x.state ≠ .zombie)
    (stage : Live x.state ∧ x.parent = some p ∨ ¬Live x.state ∧
      (x.parent = none ∧ work ≠ .copied np ∨ x.parent = some p ∧ work = .copied np)) :
    Family t := by
  have not_first : np ≠ initproc := by
    rintro rfl
    exact young family.first.1.live
  have active_ne {q : Fin nProc} (was : Active (s.proc q).state) : q ≠ np := by
    rintro rfl
    exact young was.live
  have active' {q : Fin nProc} (was : Active (s.proc q).state) : Active (t.proc q).state := by
    rw [fills.other (active_ne was)]
    exact was
  have works (q : Fin nProc) (apart' : q ≠ p) : (t.proc q).work = (s.proc q).work := by
    by_cases here : q = np
    · rw [here, fills.new, idle]
    · rw [fills.rest q here apart']
  have parent_some {r : Fin nProc} (child : x.parent = some r) : r = p := by
    rcases stage with ⟨-, given⟩ | ⟨-, ⟨none, -⟩ | ⟨given, -⟩⟩
    · exact Option.some.inj (child.symm.trans given)
    · cases none.symm.trans child
    · exact Option.some.inj (child.symm.trans given)
  constructor
  case first =>
    rw [fills.other not_first.symm]
    exact family.first
  case parent =>
    intro q other live
    by_cases here : q = np
    · rw [here, fills.new] at live ⊢
      rcases stage with ⟨-, child⟩ | ⟨young', -⟩
      · exact ⟨p, child, active' active⟩
      · exact absurd live young'
    · rw [fills.other here] at live ⊢
      obtain ⟨r, child, was⟩ := family.parent q other live
      exact ⟨r, child, active' was⟩
  case apart =>
    intro q
    by_cases here : q = np
    · rw [here, fills.new]
      exact fun child => apart (parent_some child)
    · rw [fills.other here]
      exact family.apart q
  case early =>
    intro q r young' child
    by_cases here : q = np
    · rw [here, fills.new] at young' child
      obtain rfl := parent_some child
      rw [here, fills.self]
      rcases stage with ⟨live, -⟩ | ⟨-, ⟨none, -⟩ | ⟨-, work⟩⟩
      · exact absurd live young'
      · cases none.symm.trans child
      · exact work
    · rw [fills.other here] at young' child
      have work := family.early q r young' child
      by_cases there : r = p
      · rw [there] at work
        exact absurd (before q work) here
      · rw [works r there]
        exact work
  case copied =>
    intro q r work'
    by_cases here : q = p
    · subst here
      rw [fills.self] at work'
      obtain rfl := after r work'
      rw [fills.new]
      rcases stage with ⟨-, given⟩ | ⟨-, ⟨-, none⟩ | ⟨given, -⟩⟩
      · exact given
      · exact absurd work' none
      · exact given
    · rw [works q here] at work'
      have there : r ≠ np := by
        rintro rfl
        exact free q here work'
      rw [fills.other there]
      exact family.copied q r work'
  case busy =>
    intro q work'
    by_cases here : q = p
    · rw [here]
      exact active' active
    · rw [works q here] at work'
      exact active' (family.busy q work')
  case waiter =>
    intro q asleep context
    have here : q ≠ np := by
      rintro rfl
      rw [fills.new] at asleep
      exact new.1 asleep
    rw [fills.other here] at asleep context ⊢
    obtain ⟨chan, spared, ⟨r, child⟩, none⟩ := family.waiter q asleep context
    refine ⟨chan, spared, ⟨r, ?_⟩, fun z child' => ?_⟩
    · by_cases there : r = np
      · rw [there] at child ⊢
        rw [fills.new]
        exact keeps q child
      · rw [fills.other there]
        exact child
    · by_cases there : z = np
      · rw [there, fills.new]
        exact new.2
      · rw [fills.other there] at child' ⊢
        exact none z child'

/-- Who sleeps in `wait` when a process exits does so for a reason: `exit` wakes the parents of the
zombies it makes and passes on. -/
theorem exited_waiter {proc : Fin nProc → Proc} (exits : s.Exits p proc)
    (proc_eq : t.proc = update proc p { proc p with state := .zombie, context := .exit })
    (asleep : (t.proc q).state = .sleeping) (context : (t.proc q).context = .wait) :
    Rests t q (t.proc q) := by
  have leaves := exits.leaves proc_eq
  have others {r : Fin nProc} (apart : r ≠ p) : t.proc r = proc r := by
    rw [proc_eq, update_of_ne apart]
  have here : q ≠ p := by
    rintro rfl
    rw [proc_eq, update_self] at asleep
    cases asleep
  rw [others here] at asleep context ⊢
  have passed := exits.table q
  have before : (s.proc q).state = .sleeping := by
    rcases passed.state with same | ⟨was, -⟩
    · rw [← same, asleep]
    · exact was
  rw [passed.context_eq] at context
  obtain ⟨chan, spared, ⟨r, child⟩, none⟩ := family.waiter q before context
  refine ⟨passed.chan_eq.trans chan, passed.killed_eq.trans spared, ⟨r, ?_⟩, ?_⟩
  · rw [(leaves r).2.2]
    rcases (exits.table r).parent with same | ⟨child', -⟩
    · exact same.trans child
    · exact absurd (Option.some.inj (child.symm.trans child')) here
  · intro z child' zombie
    rw [(leaves z).2.2] at child'
    by_cases there : z = p
    · rw [there] at child'
      rcases (exits.table p).parent with same | ⟨self, -⟩
      · exact exits.wakes q chan (.inl (same.symm.trans child')) asleep
      · exact family.apart p self
    · have was := (exits.others proc_eq there).zombie.mp zombie
      rcases (exits.table z).parent with same | ⟨mine, given⟩
      · exact none z (same.symm.trans child') was
      · obtain rfl := Option.some.inj (given.symm.trans child')
        exact exits.wakes _ chan (.inr ⟨rfl, z, mine, was⟩) asleep

/-- `exit` passes the children of the process to the first one. -/
theorem exited {proc : Fin nProc → Proc} (running : (s.proc p).state = .running)
    (work : (s.proc p).work = .none) (exits : s.Exits p proc)
    (proc_eq : t.proc = update proc p { proc p with state := .zombie, context := .exit }) :
    Family t := by
  have works (q : Fin nProc) := (exits.leaves proc_eq q).2.1
  have parents (q : Fin nProc) := (exits.leaves proc_eq q).2.2
  have active {q : Fin nProc} (apart : q ≠ p) (was : Active (s.proc q).state) :
      Active (t.proc q).state := (exits.others proc_eq apart).active was
  constructor
  case first =>
    refine ⟨active exits.first family.first.1, ?_⟩
    rw [parents]
    rcases (exits.table initproc).parent with same | ⟨child, -⟩
    · rw [same]
      exact family.first.2
    · cases family.first.2.symm.trans child
  case parent =>
    intro q other alive
    have was : Live (s.proc q).state := by
      by_cases here : q = p
      · rw [here, running]
        simp [Live]
      · exact (exits.others proc_eq here).live.mp alive
    obtain ⟨r, child, active'⟩ := family.parent q other was
    rw [parents]
    rcases (exits.table q).parent with same | ⟨-, given⟩
    · refine ⟨r, same.trans child, active ?_ active'⟩
      rintro rfl
      exact exits.orphans q (same.trans child)
    · exact ⟨initproc, given, active exits.first family.first.1⟩
  case apart =>
    intro q
    rw [parents]
    rcases (exits.table q).parent with same | ⟨child, given⟩
    · rw [same]
      exact family.apart q
    · rw [given]
      rintro self
      obtain rfl := Option.some.inj self
      cases family.first.2.symm.trans child
  case early =>
    intro q r young child
    have here : q ≠ p := by
      rintro rfl
      exact young (by simp [proc_eq, Live])
    have young' := mt (exits.others proc_eq here).live.mpr young
    rw [works]
    rw [parents] at child
    rcases (exits.table q).parent with same | ⟨child', -⟩
    · rw [same] at child
      exact family.early q r young' child
    · cases work.symm.trans (family.early q p young' child')
  case copied =>
    intro q r work'
    rw [works] at work'
    rw [parents]
    have child := family.copied q r work'
    rcases (exits.table r).parent with same | ⟨child', -⟩
    · rw [same]
      exact child
    · obtain rfl := Option.some.inj (child.symm.trans child')
      cases work.symm.trans work'
  case busy =>
    intro q work'
    rw [works] at work'
    have here : q ≠ p := by
      rintro rfl
      exact work' work
    exact active here (family.busy q work')
  case waiter => exact fun q asleep context => family.exited_waiter exits proc_eq asleep context

/-- `wait` reaps a zombie. -/
theorem reaped (mem : Memory s) {x y : Proc} (running : (s.proc p).state = .running)
    (child : (s.proc q).parent = some p) (zombie : (s.proc q).state = .zombie)
    (slot : x = { s.proc p with chan := x.chan }) (old : y = { s.proc q with chan := y.chan })
    (proc : t.proc = update (update s.proc p x) q y.reaped) : Family t := by
  have apart : p ≠ q := by
    rintro rfl
    cases running.symm.trans zombie
  have new : t.proc q = y.reaped := by rw [proc, update_self]
  have others (r : Fin nProc) (here : r ≠ q) := reaped_other slot proc here
  have works (r : Fin nProc) : (t.proc r).work = (s.proc r).work := by
    by_cases here : r = q
    · rw [here, new]
      show y.work = (s.proc q).work
      rw [old]
    · rw [others r here]
  have active_ne {r : Fin nProc} (was : Active (s.proc r).state) : r ≠ q := by
    rintro rfl
    rw [zombie] at was
    exact was
  have active {r : Fin nProc} (was : Active (s.proc r).state) : Active (t.proc r).state := by
    rw [others r (active_ne was)]
    exact was
  constructor
  case first =>
    rw [others initproc (active_ne family.first.1)]
    exact family.first
  case parent =>
    intro r other alive
    have here : r ≠ q := by
      rintro rfl
      rw [new] at alive
      exact alive.1 rfl
    rw [others r here] at alive ⊢
    obtain ⟨r', child', was⟩ := family.parent r other alive
    exact ⟨r', child', active was⟩
  case apart =>
    intro r
    by_cases here : r = q
    · rw [here, new]
      exact fun none => by cases none
    · rw [others r here]
      exact family.apart r
  case early =>
    intro r r' young child'
    by_cases here : r = q
    · rw [here, new] at child'
      cases child'
    · rw [others r here] at young child'
      rw [works]
      exact family.early r r' young child'
  case copied =>
    intro r r' work
    rw [works] at work
    have here : r' ≠ q := by
      rintro rfl
      cases zombie.symm.trans (mem.forks r r' (by rw [work]; rfl))
    rw [others r' here]
    exact family.copied r r' work
  case busy =>
    intro r work
    rw [works] at work
    exact active (family.busy r work)
  case waiter =>
    intro r asleep context
    have here : r ≠ q := by
      rintro rfl
      rw [new] at asleep
      cases asleep
    have there : r ≠ p := by
      rintro rfl
      rw [others r here, running] at asleep
      cases asleep
    have same : t.proc r = s.proc r := by
      rw [proc, update_of_ne here, update_of_ne there]
    rw [same] at asleep context ⊢
    obtain ⟨chan, spared, ⟨z, child'⟩, none⟩ := family.waiter r asleep context
    refine ⟨chan, spared, ⟨z, ?_⟩, fun z' child'' => ?_⟩
    · have elsewhere : z ≠ q := by
        rintro rfl
        exact there (Option.some.inj (child'.symm.trans child))
      rw [others z elsewhere]
      exact child'
    · by_cases elsewhere : z' = q
      · rw [elsewhere, new] at child''
        cases child''
      · rw [others z' elsewhere] at child'' ⊢
        exact none z' child''

/-- Every step keeps parents and children as they should be. -/
theorem changed {event : Event C} (mem : Memory s) (step : Changed event s t) : Family t := by
  -- The slot that a process fills is not a process yet, and nobody else fills it.
  have young {p np : Fin nProc} (target : (s.proc p).work.target = some np) :
      ¬Live (s.proc np).state := by
    rw [mem.forks p np target]
    simp [Live]
  have free {p np : Fin nProc} (target : (s.proc p).work.target = some np) (q : Fin nProc)
      (apart : q ≠ p) : (s.proc q).work ≠ .copied np := by
    intro work
    exact apart (mem.sole q p np (by rw [work]; rfl) target)
  have none {p np : Fin nProc} (target : (s.proc p).work.target = some np)
      (early : (s.proc p).work ≠ .copied np) : (s.proc np).parent = none := by
    apply family.parent_none (young target)
    intro q
    by_cases here : q = p
    · rwa [here]
    · exact free target q here
  cases step with
  | @moved p x proc states rest _ asleep =>
    refine family.quiet (steady_moved proc states rest) fun q => ?_
    rw [proc]
    by_cases here : q = p
    · rw [here, update_self]
      intro sleeping context
      rcases asleep sleeping context with same | rests
      · rw [same] at sleeping context ⊢
        exact family.waiter p sleeping context
      · exact rests
    · rw [update_of_ne here]
      exact family.waiter q
  | @woken chan proc =>
    refine family.quiet (fun q => proc ▸ .wakeup1 s.proc chan q) fun q asleep context => ?_
    have same : t.proc q = s.proc q := by
      rw [proc] at asleep ⊢
      unfold wakeup1 at asleep ⊢
      split at asleep
      · cases asleep
      · rename_i stays
        rw [if_neg stays]
    rw [same] at asleep context ⊢
    exact family.waiter q asleep context
  | @killed pid _ hit rest =>
    refine family.quiet (steady_killed hit rest) fun q asleep => ?_
    by_cases here : s.target pid = some q
    · rw [hit q here] at asleep
      simp only [Proc.hit] at asleep
      split at asleep
      · cases asleep
      · exact absurd asleep (by assumption)
    · rw [rest q here] at asleep ⊢
      intro context
      have rests := family.waiter q asleep context
      exact ⟨rests.chan, rests.alive, rests.child, rests.none⟩
  | @slot p np _ active apart work unused fills =>
    have untouched (q : Fin nProc) : (s.proc q).work ≠ .copied np := by
      intro work'
      cases unused.symm.trans (mem.forks q np (by rw [work']; rfl))
    have young : ¬Live (s.proc np).state := by simp [unused, Live]
    refine family.filled fills active apart young (fun q _ => untouched q) ?_ ?_ ?_ rfl ?_ ?_
    · exact fun q work' => by cases work.symm.trans work'
    · exact fun q same => by cases same
    · exact fun r child => child
    · simp
    · exact .inr ⟨by simp [Live], .inl ⟨family.parent_none young untouched, by simp⟩⟩
  | @stack p np page active apart work fills =>
    have target : (s.proc p).work.target = some np := by rw [work]; rfl
    have embryo := mem.forks p np target
    refine family.filled fills active apart (young target) (free target) ?_ ?_ ?_ rfl ?_ ?_
    · exact fun q work' => by cases work.symm.trans work'
    · exact fun q same => by cases same
    · exact fun r child => child
    · simp [embryo]
    · exact .inr ⟨young target, .inl ⟨none target (by simp [work]), by simp⟩⟩
  | @copied p np page active apart work fills =>
    have target : (s.proc p).work.target = some np := by rw [work]; rfl
    have embryo := mem.forks p np target
    have orphan := none target (by simp [work])
    refine family.filled fills active apart (young target) (free target) ?_ ?_ ?_ rfl ?_ ?_
    · exact fun q work' => by cases work.symm.trans work'
    · exact fun q same => (Work.copied.inj same).symm
    · exact fun r child => by cases orphan.symm.trans child
    · simp [embryo]
    · exact .inr ⟨young target, .inr ⟨rfl, rfl⟩⟩
  | @gaveUp p np pgdir _ active apart work fills =>
    have target : (s.proc p).work.target = some np := by
      rcases work with work | work <;> rw [work] <;> rfl
    have early : (s.proc p).work ≠ .copied np := by
      rcases work with work | work <;> simp [work]
    refine family.filled fills active apart (young target) (free target) ?_ ?_ ?_ rfl ?_ ?_
    · intro q work'
      rcases work with work | work <;> cases work.symm.trans work'
    · exact fun q same => by cases same
    · exact fun r child => child
    · simp
    · exact .inr ⟨by simp [Live], .inl ⟨none target early, by simp⟩⟩
  | @fork p np active apart work fills =>
    have target : (s.proc p).work.target = some np := by rw [work]; rfl
    refine family.filled fills active apart (young target) (free target) ?_ ?_ ?_ rfl ?_ ?_
    · exact fun q work' => Work.copied.inj (work'.symm.trans work)
    · exact fun q same => by cases same
    · exact fun r child => child
    · simp
    · exact .inl ⟨by simp [Live], family.copied p np work⟩
  | exit running work exits proc_eq => exact family.exited running work exits proc_eq
  | reaped running child zombie _ slot old proc =>
    exact family.reaped mem running child zombie slot old proc

end Family

end State

end Xv6.Sched
