import Xv6.Verif.SchedMemory

/-!
# The scheduler is safe

Every step keeps both invariants of the scheduler: where processes run, and what memory they have.
So no CPU is given a process without a stack, and `wait` frees a stack or a page directory only when
no CPU uses it: a zombie has been switched away from, and the CPU that did so has unloaded its page
directory before it releases the lock that `wait` takes.
-/

namespace Xv6.Sched

open Lib
open Function (update update_of_ne update_self)

namespace State

variable {C : Type} {s t : State C} {c : C} {p np : Fin nProc}

variable {event : Event C} {page : Nat}

/-- `wait` releases the lock that it took. -/
theorem Waits.frees {x : Proc} (waits : s.Waits event c p x) :
    (none : Option C) = s.lock ∨ (none : Option C) = none ∧ ∃ c p, s.lock = some c ∧
      (s.cpu c).thread = .process p := by
  rcases waits.2 with ⟨-, free, -⟩ | ⟨-, held, -⟩
  · exact .inl free.symm
  · exact .inr ⟨rfl, c, p, held, waits.1⟩

namespace Placed

/-- A process that a CPU names has been switched to, or away from. -/
theorem named_state (inv : Placed s) (names : (s.cpu c).proc = some p) :
    (s.proc p).state = .running ∨ Switched (s.proc p).state := by
  rcases inv.named names with on | back
  · exact .inl (inv.running on)
  · have fits := inv.fits c
    rw [back] at fits
    exact .inr fits.2

/-- No CPU is about to leave a process while another process holds the lock or nobody does. -/
theorem none_back (inv : Placed s)
    (lock : s.lock = none ∨ s.lock = some c ∧ (s.cpu c).thread = .process p) (d : C)
    (q : Fin nProc) : (s.cpu d).thread ≠ .back q := by
  intro back
  have holds : s.lock = some d := by
    by_contra apart
    exact inv.not_back apart back
  rcases lock with free | ⟨held, thread⟩
  · rw [free] at holds
    cases holds
  · rw [held] at holds
    obtain rfl := Option.some.inj holds
    rw [thread] at back
    cases back

variable {event : Event C} {x : Proc}

/-- A process that `wait` reaps is not named by a CPU. -/
theorem reaped_off (inv : Placed s) (waits : s.Waits event c p x) {q : Fin nProc}
    (zombie : (s.proc q).state = .zombie) (d : C) :
    (s.cpu d).proc ≠ some q ∧ (s.cpu d).thread ≠ .back q := by
  have lock : s.lock = none ∨ s.lock = some c ∧ (s.cpu c).thread = .process p := by
    rcases waits.2 with ⟨-, free, -⟩ | ⟨-, held, -⟩
    · exact .inl free
    · exact .inr ⟨held, waits.1⟩
  have not_back := inv.none_back lock d q
  refine ⟨fun names => ?_, not_back⟩
  rcases inv.named names with on | back
  · rw [inv.running on] at zombie
    cases zombie
  · exact not_back back

/-- The table changes, but no process stops, starts or moves. -/
theorem table (inv : Placed s) (cpu : t.cpu = s.cpu)
    (lock : t.lock = s.lock ∨ t.lock = none ∧ ∃ c p, s.lock = some c ∧
      (s.cpu c).thread = .process p) (states : ∀ q, (t.proc q).state = (s.proc q).state ∨
      (s.proc q).state = .sleeping ∧ (t.proc q).state = .runnable)
    (kstack : ∀ q, (t.proc q).kstack = (s.proc q).kstack)
    (pgdir : ∀ q, (t.proc q).pgdir = (s.proc q).pgdir) : Placed t := by
  apply inv.keep cpu lock
  case runs =>
    intro q
    rcases states q with same | ⟨asleep, woken⟩
    · rw [same]
    · simp [asleep, woken]
  case switched =>
    intro q switched _
    rcases states q with same | ⟨-, woken⟩
    · rwa [same]
    · rw [woken]
      trivial
  case same => exact fun _ q _ => ⟨kstack q, pgdir q⟩

/-- The steps of `fork` change a slot that no CPU names. -/
theorem fills (inv : Placed s) {work : Work} (fills : Fills s t p np x work) (cpu : t.cpu = s.cpu)
    (lock : t.lock = s.lock) (before : (s.proc np).state = .unused ∨ (s.proc np).state = .embryo)
    (after : x.state ≠ .running) : Placed t := by
  have old : (s.proc np).state ≠ .running ∧ ¬Switched (s.proc np).state := by
    rcases before with state | state <;> simp [state, Switched]
  apply inv.keep cpu (.inl lock)
  case runs =>
    intro q
    by_cases here : q = np
    · rw [here, fills.new]
      exact iff_of_false after old.1
    · rw [fills.other here]
  case switched =>
    intro q switched _
    by_cases here : q = np
    · rw [here] at switched
      exact absurd switched old.2
    · rw [fills.other here]
      exact switched
  case same =>
    intro d q names
    by_cases here : q = np
    · rw [here] at names
      rcases inv.named_state names with running | switched
      · exact absurd running old.1
      · exact absurd switched old.2
    · rw [fills.other here]
      exact ⟨rfl, rfl⟩

section

variable (inv : Placed s)

include inv

/-- One slot changes, but its process does not stop, start or move. -/
theorem update (proc : t.proc = Function.update s.proc p x) (cpu : t.cpu = s.cpu)
    (lock : t.lock = s.lock ∨ t.lock = none ∧ ∃ c p, s.lock = some c ∧
      (s.cpu c).thread = .process p) (state : x.state = (s.proc p).state)
    (kstack : x.kstack = (s.proc p).kstack) (pgdir : x.pgdir = (s.proc p).pgdir) : Placed t := by
  apply inv.table cpu lock
  all_goals
    intro q
    rw [proc]
    by_cases here : q = p
    all_goals simp [here, state, kstack, pgdir]

/-- `kill` finds a slot. -/
theorem kill (pid : UInt32) (p : Fin nProc) :
    Placed (State.blame { s with proc := Function.update s.proc p (s.proc p).hit } pid) := by
  refine inv.table rfl (.inl rfl) (fun q => ?_) (fun q => ?_) fun q => ?_
  · by_cases here : q = p
    · simp only [blame, here, update_self, Proc.hit]
      split
      · rename_i asleep
        exact .inr ⟨asleep, rfl⟩
      · exact .inl rfl
    · simp [blame, here]
  all_goals
    by_cases here : q = p
    all_goals simp [blame, here, Proc.hit]

/-- `wait` reaps a zombie, which no CPU names. -/
theorem reap {q : Fin nProc} (waits : s.Waits event c p x) (zombie : (s.proc q).state = .zombie)
    (proc : t.proc = Function.update (Function.update s.proc p x) q
      (Function.update s.proc p x q).reaped) (cpu : t.cpu = s.cpu) (lock : t.lock = none) :
    Placed t := by
  have off := inv.reaped_off waits zombie
  have others (r : Fin nProc) (apart : r ≠ q) :
      t.proc r = { s.proc r with chan := (Function.update s.proc p x r).chan } := by
    rw [proc, update_of_ne apart]
    exact waits.table r
  apply inv.keep cpu
  case lock =>
    rw [lock]
    exact waits.frees
  case runs =>
    intro r
    by_cases here : r = q
    · simp [here, proc, zombie, Proc.reaped]
    · rw [others r here]
  case switched =>
    intro r switched back
    by_cases here : r = q
    · obtain ⟨d, thread⟩ := back
      rw [here] at thread
      exact absurd thread (off d).2
    · rw [others r here]
      exact switched
  case same =>
    intro d r names
    have here : r ≠ q := by
      rintro rfl
      exact (off d).1 names
    rw [others r here]
    exact ⟨rfl, rfl⟩

variable [DecidableEq C]

/-- A process changes its slot and gives up its CPU. -/
theorem leave_update (thread : (s.cpu c).thread = .process p)
    (before : s.lock = none ∨ s.lock = some c) (switched : Switched x.state)
    (kstack : x.kstack = (s.proc p).kstack) (pgdir : x.pgdir = (s.proc p).pgdir) :
    Placed (s.leave c p (Function.update s.proc p x)) := by
  apply inv.leave thread before
  case switched => simpa using switched
  case runs => exact fun q apart => by rw [update_of_ne apart]
  case same =>
    intro q
    by_cases here : q = p
    all_goals simp [here, kstack, pgdir]

/-- `exit` leaves the CPU to the scheduler. -/
theorem exit {proc : Fin nProc → Proc} (thread : (s.cpu c).thread = .process p)
    (free : s.lock = none) (exits : s.Exits p proc) :
    Placed (s.leave c p
      (Function.update proc p { proc p with state := .zombie, context := .exit })) := by
  apply inv.leave thread (.inl free)
  case switched => simp [Switched]
  case runs =>
    intro q apart
    rw [update_of_ne apart]
    rcases (exits.table q).state with same | ⟨asleep, woken⟩
    · rw [same]
    · simp [asleep, woken]
  case same =>
    intro q
    have kept := And.intro (exits.table q).kstack_eq (exits.table q).pgdir_eq
    by_cases here : q = p
    · subst here
      rw [update_self]
      exact kept
    · rw [update_of_ne here]
      exact kept

/-- Every step keeps processes where they should be. -/
theorem took (mem : Memory s) (step : Took s event t) : Placed t := by
  -- The slot that a process fills is an embryo.
  have forks {p np : Fin nProc} (target : (s.proc p).work.target = some np) :
      (s.proc np).state = .unused ∨ (s.proc np).state = .embryo := .inr (mem.forks p np target)
  cases step with
  | @acquire c free idle =>
    rw [inv.registers c, idle]
    exact inv.schedule (by simp [idle]) (.inl free) (.inr ⟨0, rfl, rfl⟩)
  | @rest c next thread =>
    have held := inv.fits c
    rw [thread] at held
    rw [inv.registers c, thread]
    exact inv.schedule (by simp [thread]) (.inr held) (.inl ⟨rfl, rfl⟩)
  | dispatch thread runnable => exact inv.dispatch thread runnable
  | stuck _ runnable missing => exact (mem.not_stuck runnable missing).elim
  | @back c p thread =>
    have held := inv.fits c
    rw [thread] at held
    rw [inv.registers c, thread]
    exact inv.schedule (by simp [thread]) (.inr held.1) (.inr ⟨_, rfl, held.1⟩)
  | @resume c p chan thread held =>
    exact inv.update rfl rfl (.inr ⟨rfl, c, p, held, thread⟩) rfl rfl rfl
  | zombie | initExits | full | miss =>
    exact inv.table rfl (.inl rfl) (fun _ => .inl rfl) (fun _ => rfl) fun _ => rfl
  | yield thread free | sleep thread free =>
    exact inv.leave_update thread (.inl free) (by simp [Switched]) rfl rfl
  | wakeup =>
    have table := wakeup1_passed initproc s.proc
    exact inv.table rfl (.inl rfl) (fun q => (table _ q).state) (fun q => (table _ q).kstack_eq)
      fun q => (table _ q).pgdir_eq
  | @kill pid p => exact inv.kill pid p
  | slot thread _ work unused =>
    exact inv.fills (fills_setProc (inv.ne_early thread (.inl unused)) rfl) rfl rfl (.inl unused)
      (by simp)
  | stack thread _ work | copied thread _ work =>
    have embryo := forks (by rw [work]; rfl)
    refine inv.fills (fills_setProc (inv.ne_early thread embryo) rfl) rfl rfl embryo ?_
    rcases embryo with state | state <;> simp [state]
  | noStack thread _ work | notCopied thread _ work | fork thread _ work =>
    have embryo := forks (by rw [work]; rfl)
    exact inv.fills (fills_setProc (inv.ne_early thread embryo) rfl) rfl rfl embryo (by simp)
  | exit thread free _ exits =>
    exact (inv.exit thread free exits).table rfl (.inl rfl) (fun _ => .inl rfl) (fun _ => rfl)
      fun _ => rfl
  | reap waits child zombie => exact inv.reap waits zombie rfl rfl rfl
  | giveUp waits =>
    have slot := waits.slot
    exact inv.update rfl rfl waits.frees (by rw [slot]) (by rw [slot]) (by rw [slot])
  | waits waits =>
    have slot := waits.slot
    refine inv.leave_update waits.1 ?_ (by simp [Switched]) (by rw [slot]) (by rw [slot])
    exact waits.2.imp (fun start => start.2.1) fun again => again.2.1
  | fault => exact inv.update rfl rfl (.inl rfl) rfl rfl rfl

end

end Placed

/-! ## Runs -/

/-- What a CPU uses is the stack of a running process or the page directory of the process it
names. -/
theorem Placed.uses (inv : Placed s) (page_ne : page ≠ 0) :
    ((s.cpu c).stack = page → ∃ p, (s.proc p).state = .running ∧ s.Uses (p, .stack) page) ∧
      ((s.cpu c).cr3 = page → ∃ p, (s.cpu c).proc = some p ∧ s.Uses (p, .table) page) := by
  have regs := inv.registers c
  have fits := inv.fits c
  cases thread : (s.cpu c).thread with
  | idle | scan =>
    rw [thread] at regs
    rw [regs]
    exact ⟨fun same => absurd same.symm page_ne, fun same => absurd same.symm page_ne⟩
  | back p =>
    rw [thread] at regs fits
    have live : Live (s.proc p).state := by
      have switched := fits.2
      cases state : (s.proc p).state <;> simp_all [Switched, Live]
    rw [regs]
    exact ⟨fun same => absurd same.symm page_ne, fun same => ⟨p, rfl, page_ne, same, .inl live⟩⟩
  | process p =>
    rw [thread] at regs fits
    have running : (s.proc p).state = .running := fits
    have live : Live (s.proc p).state := by simp [running, Live]
    rw [regs]
    exact ⟨fun same => ⟨p, running, page_ne, same⟩, fun same => ⟨p, rfl, page_ne, same, .inl live⟩⟩

variable [DecidableEq C]

section

variable (step : Took s event t) (inv : Placed s) (mem : Memory s) (allocated : s.pages page = true)
  (free : t.pages page = false)

include step inv mem allocated free

/-- A page that is freed was the stack of an embryo, or it was the stack or the page directory of a
zombie that no CPU names. -/
theorem Took.freed :
    ∃ p part, s.Uses (p, part) page ∧
      ((s.proc p).state = .embryo ∧ part = .stack ∨
        (s.proc p).state = .zombie ∧ ∀ c, (s.cpu c).proc ≠ some p) := by
  have kept (same : t.pages = s.pages) : False := by
    rw [same, allocated] at free
    cases free
  have added {new : Nat} (same : t.pages = update s.pages new true) : False := by
    have marked := (marks_set s.pages new page).mpr (.inl allocated)
    rw [same, marked] at free
    cases free
  cases step with
  | acquire | rest | dispatch | back | resume | zombie | yield | sleep | wakeup | kill | miss |
    full | slot | noStack | fork | initExits | exit | giveUp | waits | fault =>
    exact absurd rfl kept
  | stuck _ runnable missing => exact (mem.not_stuck runnable missing).elim
  | stack | copied => exact absurd rfl added
  | @notCopied _ p np _ _ work =>
    have here : page = (s.proc np).kstack := by
      by_contra apart
      have marked := (marks_clear s.pages (s.proc np).kstack page).mpr ⟨allocated, apart⟩
      exact absurd (marked.symm.trans free) (by decide)
    refine ⟨np, .stack, ⟨?_, here.symm⟩, .inl ⟨mem.forks p np (by rw [work]; rfl), rfl⟩⟩
    rw [here]
    exact (mem.stage work rfl).2
  | @reap _ c p q x waits child zombie =>
    have off := inv.reaped_off waits zombie
    have live : Live (s.proc q).state := by simp [zombie, Live]
    have owns := mem.live q live
    have here : page = (s.proc q).kstack ∨ page = (s.proc q).pgdir := by
      by_contra apart
      rw [not_or] at apart
      have marked := (marks_clear _ (s.proc q).pgdir page).mpr
        ⟨(marks_clear s.pages (s.proc q).kstack page).mpr ⟨allocated, apart.1⟩, apart.2⟩
      exact absurd (marked.symm.trans free) (by decide)
    rcases here with same | same
    · exact ⟨q, .stack, ⟨same ▸ owns.1, same.symm⟩, .inr ⟨zombie, fun c => (off c).1⟩⟩
    · exact ⟨q, .table, ⟨same ▸ owns.2, same.symm, .inl live⟩, .inr ⟨zombie, fun c => (off c).1⟩⟩

/-- A step frees no page that a CPU uses. -/
theorem Took.freed_unused (c : C) : (s.cpu c).stack ≠ page ∧ (s.cpu c).cr3 ≠ page := by
  obtain ⟨p, part, uses, owner⟩ := step.freed inv mem allocated free
  obtain ⟨stack, table⟩ := inv.uses (c := c) uses.1
  constructor
  · intro same
    obtain ⟨q, running, uses'⟩ := stack same
    cases mem.ledger.once _ _ _ uses uses'
    rcases owner with ⟨embryo, -⟩ | ⟨zombie, -⟩
    · rw [running] at embryo
      cases embryo
    · rw [running] at zombie
      cases zombie
  · intro same
    obtain ⟨q, names, uses'⟩ := table same
    cases mem.ledger.once _ _ _ uses uses'
    rcases owner with ⟨-, part⟩ | ⟨-, off⟩
    · cases part
    · exact off c names

end

/-- The only panics are of the first process that exits and of a zombie that is switched to. -/
theorem Took.panicked (step : Took s event t) (mem : Memory s) :
    t.panicked = s.panicked ∨ t.panicked = some "zombie exit" ∨
      t.panicked = some "init exiting" := by
  cases step with
  | stuck _ runnable missing => exact (mem.not_stuck runnable missing).elim
  | zombie => exact .inr (.inl rfl)
  | initExits => exact .inr (.inr rfl)
  | _ => exact .inl rfl

omit [DecidableEq C] in
/-- Where processes run at the start: nowhere. -/
theorem Initial.placed (start : Initial s) : Placed s := by
  constructor
  case registers =>
    intro c
    rw [start.cpus c]
    rfl
  case fits =>
    intro c
    rw [start.cpus c]
    simp [Fits, start.lock]
  case alone =>
    intro c _ p names
    rw [start.cpus c] at names
    cases names
  case placed =>
    intro p running
    by_cases here : p = initproc
    · obtain ⟨_, _, -, -, -, first, -⟩ := start.first
      rw [here, first] at running
      cases running
    · rw [start.rest p here] at running
      cases running

omit [DecidableEq C] in
/-- At the start the first process has memory. -/
theorem Initial.memory (start : Initial s) : Memory s := by
  obtain ⟨kstack, pgdir, stack_ne, table_ne, apart, first, pages⟩ := start.first
  have work (p : Fin nProc) : (s.proc p).work = .none := by
    by_cases here : p = initproc
    · rw [here, first]
      rfl
    · rw [start.rest p here]
      rfl
  have target (p np : Fin nProc) : (s.proc p).work.target ≠ some np := by
    rw [work]
    exact fun none => by cases none
  have mapped (p : Fin nProc) : s.Mapped p ↔ p = initproc := by
    by_cases here : p = initproc
    · simp [Mapped, here, first, Live]
    · simp [Mapped, start.rest p here, Proc.zero, Live, here, work]
  have uses (r : Fin nProc × Part) (page : Nat) : s.Uses r page ↔
      r = (initproc, .stack) ∧ page = kstack ∨ r = (initproc, .table) ∧ page = pgdir := by
    obtain ⟨p, part⟩ := r
    by_cases here : p = initproc
    · subst here
      cases part with
      | stack =>
        simp only [Uses, first]
        grind
      | table =>
        simp only [Uses, first, mapped]
        grind
    · cases part with
      | stack =>
        simp only [Uses, start.rest p here, Proc.zero]
        grind
      | table =>
        simp only [Uses, mapped]
        grind
  constructor
  case ledger =>
    constructor
    case marked_iff =>
      intro page
      simp only [pages, uses]
      grind
    case apart => exact fun _ _ _ => id
    case once =>
      intro r r' page refers refers'
      rw [uses] at refers refers'
      grind
  case unused =>
    intro p unused
    by_cases here : p = initproc
    · rw [here, first] at unused
      cases unused
    · rw [start.rest p here]
      rfl
  case live =>
    intro p live
    by_cases here : p = initproc
    · rw [here, first]
      exact ⟨stack_ne, table_ne⟩
    · rw [start.rest p here] at live
      exact absurd rfl live.1
  case staged => exact fun q np filled => absurd filled (target q np)
  case sole => exact fun q q' np filled => absurd filled (target q np)

/-- Both invariants hold in every run. -/
theorem Ran.safe {past : List (Event C)} (ran : Ran C past s) : Placed s ∧ Memory s := by
  refine ran.invariant (fun _ s => Placed s ∧ Memory s) ?_ ?_
  · exact fun s start => ⟨start.placed, start.memory⟩
  · intro past s t event _ safe taken
    have step := (took_of_step taken).2
    exact ⟨safe.1.took safe.2 step, safe.2.took safe.1 step⟩

end State

end Xv6.Sched
