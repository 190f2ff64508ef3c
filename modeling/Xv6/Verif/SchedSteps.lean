import Xv6.Kernel.Sched

/-!
# What a step of the scheduler or a process can do

Every step of the process table is one of the outcomes listed here, with the conditions it is taken
under and the table, the CPUs and the lock it leaves. The invariants are proved from this list and
from what the loops of `wakeup1` and `exit` do to one slot.
-/

namespace Xv6.Sched

open Lib Function

/-! ## The loops over the table -/

/-- What the loops do to a slot: a sleeper may be woken, and a child of the process that exits may
be given to the first process. -/
structure Passed (curproc : Fin nProc) (x y : Proc) : Prop where
  rest : { y with state := x.state, parent := x.parent } = x
  state : y.state = x.state ∨ x.state = .sleeping ∧ y.state = .runnable
  parent : y.parent = x.parent ∨ x.parent = some curproc ∧ y.parent = some initproc

namespace Passed

variable {curproc : Fin nProc} {x y z : Proc}

/-- Nothing happens to the slot. -/
theorem refl (curproc : Fin nProc) (x : Proc) : Passed curproc x x := ⟨rfl, .inl rfl, .inl rfl⟩

/-- Two loops in a row. -/
theorem trans (other : initproc ≠ curproc) (first : Passed curproc x y)
    (second : Passed curproc y z) : Passed curproc x z := by
  have apart : some initproc ≠ some curproc := fun same => other (Option.some.inj same)
  constructor
  case rest => rw [← first.rest, ← second.rest]
  case state =>
    rcases first.state with same | ⟨asleep, woken⟩
    · rw [← same]
      exact second.state
    · rcases second.state with same' | ⟨asleep', -⟩
      · exact .inr ⟨asleep, same'.trans woken⟩
      · rw [woken] at asleep'
        cases asleep'
  case parent =>
    rcases first.parent with same | ⟨child, given⟩
    · rw [← same]
      exact second.parent
    · rcases second.parent with same' | ⟨child', -⟩
      · exact .inr ⟨child, same'.trans given⟩
      · exact absurd (given.symm.trans child') apart

variable (passed : Passed curproc x y)

include passed

/-- A slot that is not asleep keeps its state. -/
theorem state_eq (awake : x.state ≠ .sleeping) : y.state = x.state :=
  passed.state.resolve_right fun woken => awake woken.1

/-- The pid of a slot stays. -/
theorem pid_eq : y.pid = x.pid := by rw [← passed.rest]

/-- Its stack stays. -/
theorem kstack_eq : y.kstack = x.kstack := by rw [← passed.rest]

/-- Its page directory stays. -/
theorem pgdir_eq : y.pgdir = x.pgdir := by rw [← passed.rest]

/-- Its channel stays. -/
theorem chan_eq : y.chan = x.chan := by rw [← passed.rest]

/-- Where it goes on stays. -/
theorem context_eq : y.context = x.context := by rw [← passed.rest]

/-- How far it is in `fork` stays. -/
theorem work_eq : y.work = x.work := by rw [← passed.rest]

/-- Whether it has been killed stays. -/
theorem killed_eq : y.killed = x.killed := by rw [← passed.rest]

/-- So is whether it was named by `kill`. -/
theorem blamed_eq : y.blamed = x.blamed := by rw [← passed.rest]

end Passed

/-- `wakeup1` is one of these loops. -/
theorem wakeup1_passed (curproc : Fin nProc) (proc : Fin nProc → Proc) (chan : Chan)
    (q : Fin nProc) : Passed curproc (proc q) (wakeup1 proc chan q) := by
  unfold wakeup1
  split
  · rename_i asleep
    exact ⟨rfl, .inr ⟨asleep.1, rfl⟩, .inl rfl⟩
  · exact .refl curproc _

variable {q : Fin nProc} {list : List (Fin nProc)}

/-- After `wakeup1` nobody sleeps on the channel. -/
theorem wakeup1_awake (proc : Fin nProc → Proc) {chan : Chan}
    (chan_eq : (proc q).chan = some chan) : (wakeup1 proc chan q).state ≠ .sleeping := by
  unfold wakeup1
  split
  · simp
  · rename_i awake
    exact fun asleep => awake ⟨asleep, chan_eq⟩

/-- `wakeup1` changes no parent. -/
theorem wakeup1_parent (proc : Fin nProc → Proc) (chan : Chan) (q : Fin nProc) :
    (wakeup1 proc chan q).parent = (proc q).parent := by
  unfold wakeup1
  split <;> rfl

variable {curproc : Fin nProc}

/-- One round of the loop of `exit`. -/
def abandonOne (curproc p : Fin nProc) (proc : Fin nProc → Proc) : Fin nProc → Proc :=
  if (proc p).parent = some curproc then
    if (proc p).state = .zombie then
      wakeup1 (update proc p { proc p with parent := some initproc }) (.proc initproc)
    else update proc p { proc p with parent := some initproc }
  else proc

/-- The loop is its first round and the rest. -/
theorem abandon_cons (p : Fin nProc) (rest : List (Fin nProc)) (proc : Fin nProc → Proc) :
    abandon curproc (p :: rest) proc = abandon curproc rest (abandonOne curproc p proc) := by
  rw [abandon]
  unfold abandonOne
  split
  · simp only [update_self]
    split <;> rfl
  · rfl

/-- A round of the loop of `exit` does no more than this. -/
theorem abandonOne_passed (other : initproc ≠ curproc) (p : Fin nProc) (proc : Fin nProc → Proc)
    (q : Fin nProc) : Passed curproc (proc q) (abandonOne curproc p proc q) := by
  have given (child : (proc p).parent = some curproc) : Passed curproc (proc q)
      (update proc p { proc p with parent := some initproc } q) := by
    by_cases here : q = p
    · subst here
      rw [update_self]
      exact ⟨rfl, .inl rfl, .inr ⟨child, rfl⟩⟩
    · rw [update_of_ne here]
      exact .refl curproc _
  unfold abandonOne
  split
  · rename_i child
    split
    · exact (given child).trans other (wakeup1_passed curproc _ _ q)
    · exact given child
  · exact .refl curproc _

/-- The loop of `exit` is one of these loops. -/
theorem abandon_passed (other : initproc ≠ curproc) (list : List (Fin nProc))
    (proc : Fin nProc → Proc) (q : Fin nProc) :
    Passed curproc (proc q) (abandon curproc list proc q) := by
  induction list generalizing proc with
  | nil => exact .refl curproc _
  | cons p rest ih =>
    rw [abandon_cons]
    exact (abandonOne_passed other p proc q).trans other (ih _)

/-- A slot with another parent keeps it. -/
theorem Passed.parent_ne {x y : Proc} (passed : Passed curproc x y)
    (apart : x.parent ≠ some curproc) : y.parent ≠ some curproc := by
  rcases passed.parent with same | ⟨child, -⟩
  · rw [same]
    exact apart
  · exact absurd child apart

/-- After the loop no slot in it is a child of the process. -/
theorem abandon_parent (other : initproc ≠ curproc) (proc : Fin nProc → Proc) (member : q ∈ list) :
    (abandon curproc list proc q).parent ≠ some curproc := by
  induction list generalizing proc with
  | nil => cases member
  | cons p rest ih =>
    rw [abandon_cons]
    rcases List.mem_cons.mp member with rfl | later
    · apply (abandon_passed other rest _ q).parent_ne
      have apart : some initproc ≠ some curproc := fun same => other (Option.some.inj same)
      unfold abandonOne
      split
      · split
        · rw [wakeup1_parent, update_self]
          exact apart
        · rw [update_self]
          exact apart
      · assumption
    · exact ih _ later

/-- If a zombie is given to the first process, that one does not sleep on in `wait`. -/
theorem abandon_wakes (other : initproc ≠ curproc) (proc : Fin nProc → Proc) {z : Fin nProc}
    (member : z ∈ list) (child : (proc z).parent = some curproc) (zombie : (proc z).state = .zombie)
    (chan : (proc q).chan = some (.proc initproc)) :
    (abandon curproc list proc q).state ≠ .sleeping := by
  induction list generalizing proc with
  | nil => cases member
  | cons p rest ih =>
    rw [abandon_cons]
    have round := abandonOne_passed other p proc
    by_cases here : z = p
    · subst here
      have awake : (abandonOne curproc z proc q).state ≠ .sleeping := by
        unfold abandonOne
        rw [if_pos child, if_pos zombie]
        apply wakeup1_awake
        rw [update_apply]
        split
        · rename_i same
          rw [← same]
          exact chan
        · exact chan
      rw [(abandon_passed other rest _ q).state_eq awake]
      exact awake
    · have later : z ∈ rest := (List.mem_cons.mp member).resolve_left here
      have same : (abandonOne curproc p proc z).parent = (proc z).parent := by
        unfold abandonOne
        split
        · split
          · rw [wakeup1_parent, update_of_ne here]
          · rw [update_of_ne here]
        · rfl
      apply ih _ later (same.trans child)
      · rw [(round z).state_eq (by rw [zombie]; decide), zombie]
      · rw [(round q).chan_eq, chan]

/-! ## The outcomes of a step -/

/-- A slot after `wait` has reaped the process in it. -/
def Proc.reaped (x : Proc) : Proc :=
  { x with kstack := 0, pid := 0, parent := none, killed := false, state := .unused }

/-- A slot after `kill` has found it. -/
def Proc.hit (x : Proc) : Proc :=
  { x with killed := true, state := if x.state = .sleeping then .runnable else x.state }

namespace State

variable {C : Type} [DecidableEq C] {s t : State C} {c : C} {p : Fin nProc}

/-- A process is on a CPU that does not hold the lock. -/
theorem running_eq_some :
    s.running c = some p ↔ (s.cpu c).thread = .process p ∧ s.lock ≠ some c := by
  unfold running
  split
  · rename_i q thread
    by_cases held : s.lock = some c
    · simp [held]
    · simp [held, thread]
  · rename_i other
    simp only [reduceCtorEq, false_iff, not_and]
    exact fun thread => absurd thread (other p)

/-- A process is on a CPU, and the lock is free. -/
theorem entering_eq_some :
    s.entering c = some p ↔ s.lock = none ∧ (s.cpu c).thread = .process p := by
  unfold entering
  by_cases free : s.lock = none
  · rw [if_pos free, running_eq_some]
    simp [free]
  · simp [free]

/-- A process gives up its CPU, and leaves a table. -/
def leave (s : State C) (c : C) (p : Fin nProc) (proc : Fin nProc → Proc) : State C :=
  { s with
    proc := proc
    cpu := update s.cpu c { s.cpu c with thread := .back p, stack := 0 }
    lock := some c }

/-- A process is given a CPU. -/
def dispatch (s : State C) (c : C) (p : Fin nProc) : State C :=
  { s with
    proc := update s.proc p { s.proc p with state := .running }
    cpu := update s.cpu c ⟨some p, .process p, (s.proc p).kstack, (s.proc p).pgdir⟩ }

/-- A process is in the loop of `wait`, at its start or after a sleep; `x` is its slot. -/
def Waits (s : State C) (event : Event C) (c : C) (p : Fin nProc) (x : Proc) : Prop :=
  (s.cpu c).thread = .process p ∧
    (event = .wait c ∧ s.lock = none ∧ (s.proc p).work = .none ∧ x = s.proc p ∨
      event = .resume c ∧ s.lock = some c ∧ (s.proc p).context = .wait ∧
        x = { s.proc p with chan := none })

/-- What the loops of `exit` do to the table. -/
structure Exits (s : State C) (p : Fin nProc) (proc : Fin nProc → Proc) : Prop where
  first : initproc ≠ p
  table : ∀ q, Passed p (s.proc q) (proc q)
  orphans : ∀ q, (proc q).parent ≠ some p
  /-- Who gets a zombie for a child does not sleep on in `wait`. -/
  wakes : ∀ q, (s.proc q).chan = some (.proc q) →
    ((s.proc p).parent = some q ∨ q = initproc ∧
      ∃ z, (s.proc z).parent = some p ∧ (s.proc z).state = .zombie) → (proc q).state ≠ .sleeping

/-- The outcomes of a step. -/
inductive Took (s : State C) : Event C → State C → Prop where
  /-- The scheduler takes the lock. -/
  | acquire {c : C} (free : s.lock = none) (idle : (s.cpu c).thread = .idle) :
    Took s (.acquire c)
      { s with
        cpu := update s.cpu c { s.cpu c with thread := .scan 0 }
        lock := some c }
  /-- The scheduler finds no process, and releases the lock. -/
  | rest {c : C} {next : Nat} (thread : (s.cpu c).thread = .scan next) :
    Took s (.pick c)
      { s with
        cpu := update s.cpu c { s.cpu c with thread := .idle }
        lock := none }
  /-- The scheduler switches to a process. -/
  | dispatch {c : C} {next : Nat} {p : Fin nProc} (thread : (s.cpu c).thread = .scan next)
      (runnable : (s.proc p).state = .runnable) :
    Took s (.pick c) (s.dispatch c p)
  /-- The process has no stack or no page table. -/
  | stuck {c : C} {next : Nat} {p : Fin nProc} {u : State C}
      (thread : (s.cpu c).thread = .scan next)
      (runnable : (s.proc p).state = .runnable)
      (missing : (s.proc p).kstack = 0 ∨ (s.proc p).pgdir = 0) : Took s (.pick c) u
  /-- The scheduler goes on after a process. -/
  | back {c : C} {p : Fin nProc} (thread : (s.cpu c).thread = .back p) :
    Took s (.back c)
      { s with
        cpu := update s.cpu c
          { s.cpu c with cr3 := 0, proc := none, thread := .scan (p + 1) } }
  /-- A process goes on in `forkret`, `yield` or `sleep`. -/
  | resume {c : C} {p : Fin nProc} {chan : Option Chan} (thread : (s.cpu c).thread = .process p)
      (held : s.lock = some c) (context : (s.proc p).context ≠ .wait) :
    Took s (.resume c)
      { s with
        proc := update s.proc p { s.proc p with chan := chan }
        lock := none }
  /-- A process goes on in `exit`. -/
  | zombie {c : C} {p : Fin nProc} (thread : (s.cpu c).thread = .process p)
      (held : s.lock = some c) (context : (s.proc p).context = .exit) :
    Took s (.resume c) (s.panic "zombie exit")
  | yield {c : C} {p : Fin nProc} (thread : (s.cpu c).thread = .process p) (free : s.lock = none) :
    Took s (.yield c) (s.leave c p (update s.proc p
      { s.proc p with state := .runnable, context := .yield }))
  | sleep {c : C} {p : Fin nProc} {chan : Chan} (thread : (s.cpu c).thread = .process p)
      (free : s.lock = none) :
    Took s (.sleep c chan) (s.leave c p (update s.proc p
      { s.proc p with state := .sleeping, chan := some chan, context := .sleep }))
  | wakeup {chan : Chan} (free : s.lock = none) :
    Took s (.wakeup chan) { s with proc := wakeup1 s.proc chan }
  /-- `kill` finds a slot. -/
  | kill {pid : UInt32} {p : Fin nProc} (free : s.lock = none) (found : s.target pid = some p) :
    Took s (.kill pid)
      (State.blame { s with proc := update s.proc p (s.proc p).hit } pid)
  /-- `kill` finds no slot. -/
  | miss {pid : UInt32} (free : s.lock = none) (missed : s.target pid = none) :
    Took s (.kill pid) (s.blame pid)
  /-- `allocproc` finds no slot. -/
  | full {c : C} {p : Fin nProc} (thread : (s.cpu c).thread = .process p) (free : s.lock = none) :
    Took s (.allocproc c) s
  /-- `allocproc` takes a slot. -/
  | slot {c : C} {p np : Fin nProc} (thread : (s.cpu c).thread = .process p) (free : s.lock = none)
      (work : (s.proc p).work = .none) (unused : (s.proc np).state = .unused) :
    Took s (.allocproc c)
      { (s.setProc np fun x =>
          { x with state := .embryo, pid := s.nextpid, blamed := false }).setProc p
          (fun x => { x with work := .slot np }) with nextpid := s.nextpid + 1 }
  /-- The slot gets a kernel stack. -/
  | stack {c : C} {p np : Fin nProc} {page : Nat} (thread : (s.cpu c).thread = .process p)
      (outside : s.lock ≠ some c) (work : (s.proc p).work = .slot np) (page_ne : page ≠ 0)
      (fresh : s.pages page = false) :
    Took s (.kalloc c (some page))
      { (s.setProc np fun x => { x with kstack := page, context := .forkret }).setProc
          p (fun x => { x with work := .stack np }) with
        pages := update s.pages page true }
  /-- There is no page for a kernel stack. -/
  | noStack {c : C} {p np : Fin nProc} (thread : (s.cpu c).thread = .process p)
      (outside : s.lock ≠ some c) (work : (s.proc p).work = .slot np) :
    Took s (.kalloc c none)
      ((s.setProc np fun x => { x with kstack := 0, state := .unused }).setProc
        p fun x => { x with work := .none })
  /-- The slot gets a copy of the process. -/
  | copied {c : C} {p np : Fin nProc} {page : Nat} (thread : (s.cpu c).thread = .process p)
      (outside : s.lock ≠ some c) (work : (s.proc p).work = .stack np) (page_ne : page ≠ 0)
      (fresh : s.pages page = false) :
    Took s (.copyuvm c (some page))
      { (s.setProc np fun x => { x with pgdir := page, parent := some p }).setProc
          p (fun x => { x with work := .copied np }) with
        pages := update s.pages page true }
  /-- There is no memory for a copy. -/
  | notCopied {c : C} {p np : Fin nProc} (thread : (s.cpu c).thread = .process p)
      (outside : s.lock ≠ some c) (work : (s.proc p).work = .stack np) :
    Took s (.copyuvm c none)
      { (s.setProc np fun x => { x with pgdir := 0, kstack := 0, state := .unused }).setProc
          p (fun x => { x with work := .none }) with
        pages := update s.pages (s.proc np).kstack false }
  /-- The new process can run. -/
  | fork {c : C} {p np : Fin nProc} (thread : (s.cpu c).thread = .process p) (free : s.lock = none)
      (work : (s.proc p).work = .copied np) :
    Took s (.fork c)
      { (s.setProc np fun x => { x with state := .runnable }).setProc
          p (fun x => { x with work := .none }) with
        calls := .forked (s.proc p).pid (s.proc np).pid :: s.calls }
  /-- The first process calls `exit`. -/
  | initExits {c : C} : Took s (.exit c) (s.panic "init exiting")
  | exit {c : C} {p : Fin nProc} {proc : Fin nProc → Proc} (thread : (s.cpu c).thread = .process p)
      (free : s.lock = none) (work : (s.proc p).work = .none) (exits : s.Exits p proc) :
    Took s (.exit c)
      { s.leave c p (update proc p { proc p with state := .zombie, context := .exit }) with
        calls := .exited (s.proc p).pid :: s.calls }
  /-- `wait` finds a zombie. -/
  | reap {event : Event C} {c : C} {p q : Fin nProc} {x : Proc} (waits : s.Waits event c p x)
      (child : (s.proc q).parent = some p) (zombie : (s.proc q).state = .zombie) :
    Took s event
      { s with
        proc := update (update s.proc p x) q
          (update s.proc p x q).reaped
        pages := update (update s.pages (s.proc q).kstack false)
          (s.proc q).pgdir false
        lock := none
        calls := .waited (s.proc p).pid (s.proc q).pid :: s.calls }
  /-- `wait` returns because there are no children, or the process has been killed. -/
  | giveUp {event : Event C} {c : C} {p : Fin nProc} {x : Proc} (waits : s.Waits event c p x) :
    Took s event { s with proc := update s.proc p x, lock := none }
  | waits {event : Event C} {c : C} {p q : Fin nProc} {x : Proc} (waits : s.Waits event c p x)
      (child : (s.proc q).parent = some p)
      (none : ∀ q, (s.proc q).parent = some p → (s.proc q).state ≠ .zombie)
      (alive : (s.proc p).killed = false) :
    Took s event (s.leave c p (update s.proc p
      { x with chan := some (.proc p), state := .sleeping, context := .wait }))
  /-- The process misbehaves in user space. -/
  | fault {c : C} {p : Fin nProc} (thread : (s.cpu c).thread = .process p)
      (outside : s.lock ≠ some c) (work : (s.proc p).work = .none) :
    Took s (.fault c) (s.setProc p fun x => { x with killed := true, blamed := true })

/-- A step of `fork` by a process: its work, and the slot it fills. -/
structure Fills (s t : State C) (p np : Fin nProc) (x : Proc) (work : Work) : Prop where
  new : t.proc np = x
  self : t.proc p = { s.proc p with work := work }
  rest : ∀ q, q ≠ np → q ≠ p → t.proc q = s.proc q

variable {work : Work} {x : Proc} {event : Event C}

omit [DecidableEq C] in
/-- The steps of `fork` are written as two changes of the table. -/
theorem fills_setProc {np : Fin nProc} {f : Proc → Proc} (apart : np ≠ p)
    (proc : t.proc = ((s.setProc np f).setProc p fun x => { x with work := work }).proc) :
    Fills s t p np (f (s.proc np)) work := by
  refine ⟨?_, ?_, fun q apart' apart'' => ?_⟩
  · rw [proc]
    simp only [setProc, update_of_ne apart, update_self]
  · rw [proc]
    simp only [setProc, update_of_ne apart.symm, update_self]
  · rw [proc]
    simp only [setProc, update_of_ne apart'', update_of_ne apart']

omit [DecidableEq C] in
/-- The slots that are not being filled stay, but for the work of the process that forks. -/
theorem Fills.other {np q : Fin nProc} (fills : Fills s t p np x work) (apart : q ≠ np) :
    t.proc q = { s.proc q with work := (t.proc q).work } := by
  by_cases here : q = p
  · rw [here, fills.self]
  · rw [fills.rest q apart here]

omit [DecidableEq C] in
/-- The loops of `exit` do so. -/
theorem exits (first : initproc ≠ p) {proc : Fin nProc → Proc}
    (woken : proc = match (s.proc p).parent with
      | some parent => wakeup1 s.proc (.proc parent)
      | none => s.proc) : s.Exits p (abandon p (List.finRange nProc) proc) := by
  have before (q : Fin nProc) :
      Passed p (s.proc q) (proc q) ∧ (proc q).parent = (s.proc q).parent := by
    rw [woken]
    cases (s.proc p).parent with
    | some parent => exact ⟨wakeup1_passed p s.proc _ q, wakeup1_parent s.proc _ q⟩
    | none => exact ⟨.refl p _, rfl⟩
  have loop := abandon_passed first (List.finRange nProc) proc
  refine ⟨first, fun q => (before q).1.trans first (loop q),
    fun q => abandon_parent first proc (List.mem_finRange q), ?_⟩
  rintro q chan (parent | ⟨rfl, z, child, zombie⟩)
  · have awake : (proc q).state ≠ .sleeping := by
      rw [woken, parent]
      exact wakeup1_awake s.proc chan
    rw [(loop q).state_eq awake]
    exact awake
  · have kept := (before z).1.state_eq (by rw [zombie]; decide)
    exact abandon_wakes first proc (List.mem_finRange z) ((before z).2.trans child)
      (kept.trans zombie) ((before initproc).1.chan_eq.trans chan)

omit [DecidableEq C] in
/-- The loop of `wait` starts with the table as it was, but for a channel. -/
theorem Waits.table (waits : s.Waits event c p x) (q : Fin nProc) :
    update s.proc p x q = { s.proc q with chan := (update s.proc p x q).chan } := by
  by_cases here : q = p
  · subst here
    rw [update_self]
    rcases waits.2 with ⟨-, -, -, same⟩ | ⟨-, -, -, same⟩ <;> rw [same]
  · rw [update_of_ne here]

omit [DecidableEq C] in
/-- Only the channel of the process that waits may change. -/
theorem Waits.slot (waits : s.Waits event c p x) : x = { s.proc p with chan := x.chan } := by
  have table := waits.table p
  rwa [update_self] at table

/-- The loop of `wait` has these outcomes. -/
theorem waitLoop_took (waits : s.Waits event c p x) :
    Took s event (State.waitLoop { s with proc := update s.proc p x } c p) := by
  have table := waits.table
  have parent (q : Fin nProc) : (update s.proc p x q).parent = (s.proc q).parent :=
    by rw [table q]
  have state (q : Fin nProc) : (update s.proc p x q).state = (s.proc q).state :=
    by rw [table q]
  have pid (q : Fin nProc) : (update s.proc p x q).pid = (s.proc q).pid :=
    by rw [table q]
  have kstack (q : Fin nProc) : (update s.proc p x q).kstack = (s.proc q).kstack :=
    by rw [table q]
  have pgdir (q : Fin nProc) : (update s.proc p x q).pgdir = (s.proc q).pgdir :=
    by rw [table q]
  have killed : (update s.proc p x p).killed = (s.proc p).killed :=
    by rw [table p]
  unfold waitLoop
  simp only [parent, state, pid, kstack, pgdir, killed]
  split
  · rename_i q found
    have zombie : (s.proc q).parent = some p ∧ (s.proc q).state = .zombie := by
      simpa using List.find?_some found
    exact .reap waits zombie.1 zombie.2
  · rename_i missed
    split
    · exact .giveUp waits
    rename_i goesOn
    simp only [not_or, not_forall, not_not, Bool.not_eq_true] at goesOn
    obtain ⟨⟨q, child⟩, alive⟩ := goesOn
    have none (q : Fin nProc) (child : (s.proc q).parent = some p) :
        (s.proc q).state ≠ .zombie := by
      have looked := List.find?_eq_none.mp missed q (List.mem_finRange q)
      simp only [decide_eq_true_eq, not_and] at looked
      exact looked child
    have outcome := Took.waits waits child none alive
    simp only [sched, setProc, setCpu, update_idem, update_self]
    exact outcome

/-- A process that is switched to has these outcomes. -/
theorem resume_took (thread : (s.cpu c).thread = .process p) (held : s.lock = some c) :
    Took s (.resume c) (s.resume c p) := by
  have unchanged (context : (s.proc p).context ≠ .wait) :
      Took s (.resume c) { s with lock := none } := by
    have outcome : Took s (.resume c)
        { s with
          proc := update s.proc p { s.proc p with chan := (s.proc p).chan }
          lock := none } := .resume thread held context
    rwa [update_eq_self] at outcome
  unfold resume
  split
  · rename_i context
    exact unchanged (by rw [context]; decide)
  · rename_i context
    exact unchanged (by rw [context]; decide)
  · rename_i context
    exact .resume thread held (by rw [context]; decide)
  · rename_i context
    exact waitLoop_took ⟨thread, .inr ⟨rfl, held, context, rfl⟩⟩
  · rename_i context
    exact .zombie thread held context

/-- Every step has one of these outcomes. -/
theorem took_of_step (taken : s.step event = some t) : s.panicked = none ∧ Took s event t := by
  unfold step at taken
  split at taken
  · cases taken
  rename_i calm
  refine ⟨not_not.mp calm, ?_⟩
  cases event with
  | acquire c =>
    obtain ⟨⟨free, idle⟩, made⟩ := Option.ite_none_right_eq_some.mp taken
    cases made
    exact .acquire free idle
  | pick c =>
    simp only at taken
    split at taken
    · rename_i next thread
      cases taken
      unfold pick
      split
      · rename_i p found
        have runnable : next ≤ p.val ∧ (s.proc p).state = .runnable := by
          simpa using List.find?_some found
        unfold switch
        simp only [setCpu, update_self, update_idem]
        split
        · rename_i missing
          exact .stuck thread runnable.2 (.inl missing)
        · split
          · rename_i missing
            exact .stuck thread runnable.2 (.inr missing)
          · exact .dispatch thread runnable.2
      · exact .rest thread
    · cases taken
  | back c =>
    simp only at taken
    split at taken
    · rename_i p thread
      cases taken
      exact .back thread
    · cases taken
  | resume c =>
    simp only at taken
    split at taken
    · rename_i p thread
      obtain ⟨held, made⟩ := Option.ite_none_right_eq_some.mp taken
      cases made
      exact resume_took thread held
    · cases taken
  | yield c =>
    obtain ⟨p, enters, rfl⟩ := Option.map_eq_some_iff.mp taken
    obtain ⟨free, thread⟩ := entering_eq_some.mp enters
    have outcome := Took.yield thread free
    simp only [sched, setProc, setCpu, update_idem, update_self]
    exact outcome
  | sleep c chan =>
    obtain ⟨p, enters, rfl⟩ := Option.map_eq_some_iff.mp taken
    obtain ⟨free, thread⟩ := entering_eq_some.mp enters
    have outcome : Took s (.sleep c chan) _ := .sleep thread free
    simp only [sched, setProc, setCpu, update_idem, update_self]
    exact outcome
  | wakeup chan =>
    obtain ⟨free, made⟩ := Option.ite_none_right_eq_some.mp taken
    cases made
    exact .wakeup free
  | kill pid =>
    obtain ⟨free, made⟩ := Option.ite_none_right_eq_some.mp taken
    cases made
    unfold kill
    split
    · rename_i p found
      exact .kill free found
    · rename_i missed
      exact .miss free missed
  | allocproc c =>
    obtain ⟨p, enters, taken⟩ := Option.bind_eq_some_iff.mp taken
    obtain ⟨free, thread⟩ := entering_eq_some.mp enters
    obtain ⟨work, made⟩ := Option.ite_none_right_eq_some.mp taken
    cases made
    unfold allocproc
    split
    · rename_i np found
      have unused : (s.proc np).state = .unused := by simpa using List.find?_some found
      exact .slot thread free work unused
    · exact .full thread free
  | kalloc c page =>
    obtain ⟨p, runs, made⟩ := Option.bind_eq_some_iff.mp taken
    obtain ⟨thread, outside⟩ := running_eq_some.mp runs
    cases work : (s.proc p).work with
    | slot np =>
      rw [work] at made
      cases page with
      | some page =>
        obtain ⟨fresh, made⟩ := Option.ite_none_left_eq_some.mp made
        cases made
        rw [not_or, Bool.not_eq_true] at fresh
        exact .stack thread outside work fresh.1 fresh.2
      | none =>
        cases made
        exact .noStack thread outside work
    | _ => simp [work] at made
  | copyuvm c page =>
    obtain ⟨p, runs, made⟩ := Option.bind_eq_some_iff.mp taken
    obtain ⟨thread, outside⟩ := running_eq_some.mp runs
    cases work : (s.proc p).work with
    | stack np =>
      rw [work] at made
      cases page with
      | some page =>
        obtain ⟨fresh, made⟩ := Option.ite_none_left_eq_some.mp made
        cases made
        rw [not_or, Bool.not_eq_true] at fresh
        exact .copied thread outside work fresh.1 fresh.2
      | none =>
        cases made
        exact .notCopied thread outside work
    | _ => simp [work] at made
  | fork c =>
    obtain ⟨p, enters, taken⟩ := Option.bind_eq_some_iff.mp taken
    obtain ⟨free, thread⟩ := entering_eq_some.mp enters
    simp only at taken
    split at taken
    · rename_i np work
      cases taken
      exact .fork thread free work
    · cases taken
  | exit c =>
    obtain ⟨p, enters, taken⟩ := Option.bind_eq_some_iff.mp taken
    obtain ⟨free, thread⟩ := entering_eq_some.mp enters
    obtain ⟨work, taken⟩ := Option.ite_none_left_eq_some.mp taken
    split at taken
    · cases taken
      exact .initExits
    · rename_i other
      cases taken
      have outcome := Took.exit thread free (not_not.mp work) (exits (Ne.symm other) rfl)
      simp only [exit, sched, setProc, setCpu, update_idem, update_self]
      exact outcome
  | wait c =>
    obtain ⟨p, enters, taken⟩ := Option.bind_eq_some_iff.mp taken
    obtain ⟨free, thread⟩ := entering_eq_some.mp enters
    obtain ⟨work, made⟩ := Option.ite_none_right_eq_some.mp taken
    cases made
    have outcome := waitLoop_took ⟨thread, .inl ⟨rfl, free, work, rfl⟩⟩
    rw [update_eq_self] at outcome
    exact outcome
  | fault c =>
    obtain ⟨p, runs, taken⟩ := Option.bind_eq_some_iff.mp taken
    obtain ⟨thread, outside⟩ := running_eq_some.mp runs
    obtain ⟨work, made⟩ := Option.ite_none_right_eq_some.mp taken
    cases made
    exact .fault thread outside work

end State

end Xv6.Sched
