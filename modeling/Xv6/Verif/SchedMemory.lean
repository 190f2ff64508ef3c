import Xv6.Lib.Ledger
import Xv6.Verif.SchedCpus

/-!
# Kernel stacks and page directories

Every allocated page is the kernel stack or the page directory of one slot of the table, and a slot
that is past `fork` has both. The steps of `fork` add a page, its failures and `wait` remove pages;
no other step touches memory.
-/

namespace Xv6.Sched

open Lib

/-- The states of a process that has left `fork` and has not been reaped. -/
def Live (state : Procstate) : Prop := state ≠ .unused ∧ state ≠ .embryo

/-- The slot a call of `fork` is filling. -/
def Work.target : Work → Option (Fin nProc)
  | .none => Option.none
  | .slot np | .stack np | .copied np => some np

/-- What a slot has a page for. -/
inductive Part where
  | stack
  /-- The page directory. -/
  | table
  deriving DecidableEq

/-- What a slot has at each stage of `fork`, and after it. -/
def Staged (work : Work) (x : Proc) : Prop :=
  match work with
  | .none => x.state = .unused ∧ x.kstack = 0 ∨ Live x.state ∧ x.kstack ≠ 0 ∧ x.pgdir ≠ 0
  | .slot _ => x.state = .embryo ∧ x.kstack = 0
  | .stack _ => x.state = .embryo ∧ x.kstack ≠ 0
  | .copied _ => x.state = .embryo ∧ x.kstack ≠ 0 ∧ x.pgdir ≠ 0

variable {np : Fin nProc} {work : Work} {x y : Proc}

/-- A slot that is being filled is an embryo. -/
theorem Staged.embryo (staged : Staged work x) (target : work.target = some np) :
    x.state = .embryo := by
  cases work with
  | none => cases target
  | slot _ | stack _ | copied _ => exact staged.1

/-- If the slot is unused, it has no stack. -/
theorem Staged.unused (staged : Staged work x) (unused : x.state = .unused) : x.kstack = 0 := by
  cases work with
  | none =>
    rcases staged with ⟨-, none⟩ | ⟨live, -⟩
    · exact none
    · exact absurd unused live.1
  | slot _ | stack _ | copied _ =>
    rw [staged.1] at unused
    cases unused

/-- If the slot holds a process, it has a stack and a page directory. -/
theorem Staged.live (staged : Staged work x) (live : Live x.state) :
    x.kstack ≠ 0 ∧ x.pgdir ≠ 0 := by
  cases work with
  | none =>
    rcases staged with ⟨unused, -⟩ | ⟨-, both⟩
    · exact absurd unused live.1
    · exact both
  | slot _ | stack _ | copied _ => exact absurd staged.1 live.2

/-- What a slot has depends on its state, its stack and its page directory. -/
theorem Staged.congr (staged : Staged work x) (state : y.state = x.state)
    (kstack : y.kstack = x.kstack) (pgdir : y.pgdir = x.pgdir) : Staged work y := by
  unfold Staged
  rw [state, kstack, pgdir]
  exact staged

namespace State

variable {C : Type} {s t : State C} {c : C} {p np : Fin nProc}

/-- A slot has a page directory of its own. -/
def Mapped (s : State C) (p : Fin nProc) : Prop :=
  Live (s.proc p).state ∨ ∃ q, (s.proc q).work = .copied p

/-- A slot uses a page. -/
def Uses (s : State C) (r : Fin nProc × Part) (page : Nat) : Prop :=
  page ≠ 0 ∧ match r.2 with
    | .stack => (s.proc r.1).kstack = page
    | .table => (s.proc r.1).pgdir = page ∧ s.Mapped r.1

/-- Stacks and page directories. -/
structure Memory (s : State C) : Prop where
  ledger : Ledger (fun page => s.pages page = true) (fun _ => False) s.Uses
  unused : ∀ p, (s.proc p).state = .unused → (s.proc p).kstack = 0
  live : ∀ p, Live (s.proc p).state → (s.proc p).kstack ≠ 0 ∧ (s.proc p).pgdir ≠ 0
  staged : ∀ q np, (s.proc q).work.target = some np → Staged (s.proc q).work (s.proc np)
  sole : ∀ q q' np, (s.proc q).work.target = some np → (s.proc q').work.target = some np → q = q'

namespace Memory

/-- What a slot has that a process is filling. -/
theorem stage (mem : Memory s) {q : Fin nProc} {work : Work} (at_q : (s.proc q).work = work)
    (target : work.target = some np) : Staged work (s.proc np) :=
  at_q ▸ mem.staged q np (at_q ▸ target)

/-- It is an embryo. -/
theorem forks (mem : Memory s) (q np : Fin nProc) (target : (s.proc q).work.target = some np) :
    (s.proc np).state = .embryo :=
  (mem.staged q np target).embryo target

/-- A slot that has no page directory yet. -/
theorem not_mapped (mem : Memory s) {q : Fin nProc} (target : (s.proc q).work.target = some np)
    (early : (s.proc q).work ≠ .copied np) : ¬s.Mapped np := by
  have embryo := mem.forks q np target
  rintro (live | ⟨q', work⟩)
  · exact live.2 embryo
  · have same : q' = q := mem.sole q' q np (by rw [work]; rfl) target
    rw [same] at work
    exact early work

/-- The pages of slots that keep their memory. -/
theorem uses_congr (stack : ∀ p, (t.proc p).kstack = (s.proc p).kstack)
    (table : ∀ p, s.Mapped p → (t.proc p).pgdir = (s.proc p).pgdir)
    (mapped : ∀ p, t.Mapped p ↔ s.Mapped p) (r : Fin nProc × Part) (page : Nat) :
    t.Uses r page ↔ s.Uses r page := by
  obtain ⟨p, part⟩ := r
  cases part with
  | stack =>
    show page ≠ 0 ∧ (t.proc p).kstack = page ↔ page ≠ 0 ∧ (s.proc p).kstack = page
    rw [stack]
  | table =>
    show page ≠ 0 ∧ (t.proc p).pgdir = page ∧ t.Mapped p ↔
      page ≠ 0 ∧ (s.proc p).pgdir = page ∧ s.Mapped p
    rw [mapped]
    constructor
    · rintro ⟨nonzero, same, has⟩
      exact ⟨nonzero, (table p has).symm.trans same, has⟩
    · rintro ⟨nonzero, same, has⟩
      exact ⟨nonzero, (table p has).trans same, has⟩

/-- A process that can run can be switched to. -/
theorem not_stuck (mem : Memory s) (runnable : (s.proc p).state = .runnable)
    (missing : (s.proc p).kstack = 0 ∨ (s.proc p).pgdir = 0) : False := by
  obtain ⟨kstack, pgdir⟩ := mem.live p (by rw [runnable]; simp [Live])
  exact missing.elim kstack pgdir

/-- A step that touches no memory, and starts or ends no process. -/
theorem quiet (mem : Memory s) (pages : t.pages = s.pages)
    (kstack : ∀ p, (t.proc p).kstack = (s.proc p).kstack)
    (pgdir : ∀ p, (t.proc p).pgdir = (s.proc p).pgdir)
    (work : ∀ p, (t.proc p).work = (s.proc p).work)
    (states : ∀ p, (t.proc p).state = (s.proc p).state ∨
      Live (s.proc p).state ∧ Live (t.proc p).state) : Memory t := by
  have live (p : Fin nProc) : Live (t.proc p).state ↔ Live (s.proc p).state := by
    rcases states p with same | ⟨before, after⟩
    · rw [same]
    · exact iff_of_true after before
  have mapped (p : Fin nProc) : t.Mapped p ↔ s.Mapped p := by
    unfold Mapped
    simp only [live, work]
  constructor
  case ledger =>
    rw [pages]
    exact mem.ledger.congr (fun _ => Iff.rfl) (uses_congr kstack (fun p _ => pgdir p) mapped)
  case unused =>
    intro p unused
    rw [kstack]
    apply mem.unused
    rcases states p with same | ⟨-, after⟩
    · rw [← same, unused]
    · exact absurd unused after.1
  case live =>
    intro p alive
    rw [kstack, pgdir]
    exact mem.live p ((live p).mp alive)
  case staged =>
    intro q np target
    rw [work] at target ⊢
    have staged := mem.staged q np target
    rcases states np with same | ⟨before, -⟩
    · exact staged.congr same (kstack np) (pgdir np)
    · exact absurd (staged.embryo target) before.2
  case sole =>
    intro q q' np target target'
    rw [work] at target target'
    exact mem.sole q q' np target target'

end Memory

/-! ## The steps of `fork` -/

variable {work : Work} {x : Proc}

/-- A step of `fork` by one process changes its work and the slot it fills. -/
structure Filling (s t : State C) (p np : Fin nProc) : Prop where
  apart : np ≠ p
  others : ∀ q, q ≠ np → (t.proc q).state = (s.proc q).state ∧
    (t.proc q).kstack = (s.proc q).kstack ∧ (t.proc q).pgdir = (s.proc q).pgdir
  works : ∀ q, q ≠ p → (t.proc q).work = (s.proc q).work
  free : ∀ q, q ≠ p → (s.proc q).work.target ≠ some np
  before : ∀ x, (s.proc p).work.target = some x → x = np
  after : ∀ x, (t.proc p).work.target = some x → x = np

namespace Filling

/-- What the new slot needs for a page directory of its own. -/
theorem mapped_iff (fills : Filling s t p np) :
    t.Mapped np ↔ Live (t.proc np).state ∨ (t.proc p).work = .copied np := by
  refine or_congr_right ⟨?_, fun work => ⟨p, work⟩⟩
  rintro ⟨q, work⟩
  by_cases here : q = p
  · rw [← here]
    exact work
  · rw [fills.works q here] at work
    exact absurd (by rw [work]; rfl) (fills.free q here)

variable {q : Fin nProc}

/-- The other slots have a page directory as before. -/
theorem mapped_other (fills : Filling s t p np) (apart : q ≠ np) : t.Mapped q ↔ s.Mapped q := by
  unfold Mapped
  rw [(fills.others q apart).1]
  refine or_congr_right (exists_congr fun x => ?_)
  by_cases here : x = p
  · rw [here]
    constructor
    · intro work
      exact absurd (fills.after q (by rw [work]; rfl)) apart
    · intro work
      exact absurd (fills.before q (by rw [work]; rfl)) apart
  · rw [fills.works x here]

/-- The other slots use the pages they did. -/
theorem uses_other (fills : Filling s t p np) (apart : q ≠ np) (part : Part) (page : Nat) :
    t.Uses (q, part) page ↔ s.Uses (q, part) page := by
  obtain ⟨-, kstack, pgdir⟩ := fills.others q apart
  cases part with
  | stack =>
    show page ≠ 0 ∧ (t.proc q).kstack = page ↔ page ≠ 0 ∧ (s.proc q).kstack = page
    rw [kstack]
  | table =>
    show page ≠ 0 ∧ (t.proc q).pgdir = page ∧ t.Mapped q ↔
      page ≠ 0 ∧ (s.proc q).pgdir = page ∧ s.Mapped q
    rw [pgdir, fills.mapped_other apart]

/-- The invariant after a step of `fork`, from what holds of the slot. -/
theorem memory (fills : Filling s t p np) (mem : Memory s)
    (ledger : Ledger (fun page => t.pages page = true) (fun _ => False) t.Uses)
    (staged : Staged (t.proc p).work (t.proc np)) : Memory t := by
  -- A slot that somebody fills: the process fills this one, the others what they did.
  have filled {q x : Fin nProc} (target : (t.proc q).work.target = some x) :
      q = p ∧ x = np ∨ q ≠ p ∧ x ≠ np ∧ (s.proc q).work.target = some x := by
    by_cases here : q = p
    · subst here
      exact .inl ⟨rfl, fills.after x target⟩
    · rw [fills.works q here] at target
      refine .inr ⟨here, ?_, target⟩
      rintro rfl
      exact fills.free q here target
  constructor
  case ledger => exact ledger
  case unused =>
    intro q free
    by_cases here : q = np
    · subst here
      exact staged.unused free
    · obtain ⟨state, kstack, -⟩ := fills.others q here
      rw [kstack]
      exact mem.unused q (state ▸ free)
  case live =>
    intro q alive
    by_cases here : q = np
    · subst here
      exact staged.live alive
    · obtain ⟨state, kstack, pgdir⟩ := fills.others q here
      rw [kstack, pgdir]
      exact mem.live q (state ▸ alive)
  case staged =>
    intro q x target
    rcases filled target with ⟨rfl, rfl⟩ | ⟨here, apart, old⟩
    · exact staged
    · obtain ⟨state, kstack, pgdir⟩ := fills.others x apart
      rw [fills.works q here]
      exact (mem.staged q x old).congr state kstack pgdir
  case sole =>
    intro q q' x target target'
    rcases filled target with ⟨rfl, here⟩ | ⟨-, apart, old⟩
    · rcases filled target' with ⟨rfl, -⟩ | ⟨-, apart', -⟩
      · rfl
      · exact absurd here apart'
    · rcases filled target' with ⟨-, here'⟩ | ⟨-, -, old'⟩
      · exact absurd here' apart
      · exact mem.sole q q' x old old'

end Filling

/-- Where a page is, it is the only one there. -/
theorem Uses.unique {r : Fin nProc × Part} {page page' : Nat} (uses : s.Uses r page)
    (uses' : s.Uses r page') : page' = page := by
  obtain ⟨p, part⟩ := r
  cases part with
  | stack => exact uses'.2.symm.trans uses.2
  | table => exact uses'.2.1.symm.trans uses.2.1

/-- The steps of `fork` are of this kind. -/
theorem Fills.filling (fills : Fills s t p np x work) (apart : np ≠ p)
    (keeps : x.work = (s.proc np).work) (free : ∀ q, q ≠ p → (s.proc q).work.target ≠ some np)
    (before : ∀ x, (s.proc p).work.target = some x → x = np)
    (after : ∀ x, work.target = some x → x = np) : Filling s t p np := by
  constructor
  case apart => exact apart
  case others =>
    intro q apart'
    by_cases here : q = p
    · subst here
      rw [fills.self]
      exact ⟨rfl, rfl, rfl⟩
    · rw [fills.rest q apart' here]
      exact ⟨rfl, rfl, rfl⟩
  case works =>
    intro q apart'
    by_cases here : q = np
    · subst here
      rw [fills.new, keeps]
    · rw [fills.rest q here apart']
  case free => exact free
  case before => exact before
  case after =>
    rw [fills.self]
    exact after

/-- The allocated pages after one more. -/
theorem marks_set (pages : Nat → Bool) (page q : Nat) :
    Function.update pages page true q = true ↔ pages q = true ∨ q = page := by
  rw [Function.update_apply]
  split
  · rename_i here
    simp [here]
  · rename_i elsewhere
    simp [elsewhere]

/-- The allocated pages after one has been freed. -/
theorem marks_clear (pages : Nat → Bool) (page q : Nat) :
    Function.update pages page false q = true ↔ pages q = true ∧ q ≠ page := by
  rw [Function.update_apply]
  split
  · rename_i here
    simp [here]
  · rename_i elsewhere
    simp [elsewhere]

namespace Memory

variable {x : Proc} {page : Nat}

section

variable (mem : Memory s)

include mem

/-- The steps of a process that fills a slot. -/
theorem filling {work : Work} (fills : Fills s t p np x work) (apart : np ≠ p)
    (target : (s.proc p).work.target = some np) (keeps : x.work = (s.proc np).work)
    (after : ∀ x, work.target = some x → x = np) : Filling s t p np :=
  fills.filling apart keeps
    (fun q apart' target' => apart' (mem.sole q p np target' target))
    (fun _ target' => (Option.some.inj (target.symm.trans target')).symm) after

/-- `allocproc` takes a slot. -/
theorem slot_taken (apart : np ≠ p) (work : (s.proc p).work = .none)
    (unused : (s.proc np).state = .unused) (fills : Fills s t p np x (.slot np))
    (pages : t.pages = s.pages) (state : x.state = .embryo) (kstack : x.kstack = (s.proc np).kstack)
    (keeps : x.work = (s.proc np).work) : Memory t := by
  have untouched (q : Fin nProc) : (s.proc q).work.target ≠ some np := by
    intro target
    have embryo := mem.forks q np target
    rw [unused] at embryo
    cases embryo
  have filling : Filling s t p np := by
    apply fills.filling apart keeps (fun q _ => untouched q)
    · intro x target
      rw [work] at target
      cases target
    · exact fun x target => (Option.some.inj target).symm
  have mapped : ¬s.Mapped np := by
    rintro (live | ⟨q, copied⟩)
    · exact live.1 unused
    · exact untouched q (by rw [copied]; rfl)
  have mapped' : ¬t.Mapped np := by
    rw [filling.mapped_iff, fills.new, fills.self, state]
    simp [Live]
  apply filling.memory mem
  · rw [pages]
    refine mem.ledger.congr (fun _ => Iff.rfl) fun r page => ?_
    obtain ⟨q, part⟩ := r
    by_cases here : q = np
    · subst here
      cases part with
      | stack =>
        show page ≠ 0 ∧ (t.proc q).kstack = page ↔ page ≠ 0 ∧ (s.proc q).kstack = page
        rw [fills.new, kstack]
      | table => exact iff_of_false (fun uses => mapped' uses.2.2) (fun uses => mapped uses.2.2)
    · exact filling.uses_other here part page
  · rw [fills.self, fills.new]
    exact ⟨state, by rw [kstack, mem.unused np unused]⟩

/-- A slot gets a page. -/
theorem page_given (filling : Filling s t p np)
    (staged : Staged (t.proc p).work (t.proc np)) (part : Part) (fresh : s.pages page = false)
    (pages : t.pages = Function.update s.pages page true) (before : ∀ q, ¬s.Uses (np, part) q)
    (after : t.Uses (np, part) page)
    (other : ∀ part', part' ≠ part → ∀ q, t.Uses (np, part') q ↔ s.Uses (np, part') q) :
    Memory t := by
  apply filling.memory mem _ staged
  rw [pages]
  refine mem.ledger.add (r := (np, part)) (b := page) (by rw [fresh]; simp)
    (marks_set s.pages page) fun r q => ?_
  obtain ⟨i, part'⟩ := r
  by_cases here : i = np
  · subst here
    by_cases there : part' = part
    · subst there
      constructor
      · exact fun uses => .inr ⟨rfl, after.unique uses⟩
      · rintro (old | ⟨-, rfl⟩)
        · exact absurd old (before q)
        · exact after
    · rw [other part' there]
      simp [there]
  · rw [filling.uses_other here part' q]
    simp [here]

/-- The slot gets a kernel stack. -/
theorem stack_given (apart : np ≠ p) (work : (s.proc p).work = .slot np)
    (page_ne : page ≠ 0) (fresh : s.pages page = false) (fills : Fills s t p np x (.stack np))
    (pages : t.pages = Function.update s.pages page true) (state : x.state = (s.proc np).state)
    (kstack : x.kstack = page) (keeps : x.work = (s.proc np).work) : Memory t := by
  have target : (s.proc p).work.target = some np := by rw [work]; rfl
  have filling := mem.filling fills apart target keeps fun x same => (Option.some.inj same).symm
  have embryo : x.state = .embryo := by rw [state, mem.forks p np target]
  have mapped : ¬s.Mapped np := mem.not_mapped target (by rw [work]; simp)
  have mapped' : ¬t.Mapped np := by
    rw [filling.mapped_iff, fills.new, fills.self, embryo]
    simp [Live]
  refine mem.page_given filling ?_ .stack fresh pages ?_ ?_ ?_
  · rw [fills.self, fills.new]
    exact ⟨embryo, kstack ▸ page_ne⟩
  · intro q uses
    exact uses.1 (uses.2.symm.trans (mem.stage work rfl).2)
  · refine ⟨page_ne, ?_⟩
    show (t.proc np).kstack = page
    rw [fills.new, kstack]
  · intro part apart' q
    cases part with
    | stack => exact absurd rfl apart'
    | table => exact iff_of_false (fun uses => mapped' uses.2.2) (fun uses => mapped uses.2.2)

/-- The slot gets a page directory. -/
theorem table_given (apart : np ≠ p) (work : (s.proc p).work = .stack np)
    (page_ne : page ≠ 0) (fresh : s.pages page = false) (fills : Fills s t p np x (.copied np))
    (pages : t.pages = Function.update s.pages page true) (state : x.state = (s.proc np).state)
    (kstack : x.kstack = (s.proc np).kstack) (pgdir : x.pgdir = page)
    (keeps : x.work = (s.proc np).work) : Memory t := by
  have target : (s.proc p).work.target = some np := by rw [work]; rfl
  have filling := mem.filling fills apart target keeps fun x same => (Option.some.inj same).symm
  have embryo : x.state = .embryo := by rw [state, mem.forks p np target]
  have mapped : ¬s.Mapped np := mem.not_mapped target (by rw [work]; simp)
  refine mem.page_given filling ?_ .table fresh pages ?_ ?_ ?_
  · rw [fills.self, fills.new]
    exact ⟨embryo, kstack ▸ (mem.stage work rfl).2, pgdir ▸ page_ne⟩
  · exact fun q uses => mapped uses.2.2
  · refine ⟨page_ne, ?_, ?_⟩
    · rw [fills.new, pgdir]
    · rw [filling.mapped_iff, fills.self]
      exact .inr rfl
  · intro part apart' q
    cases part with
    | stack =>
      show q ≠ 0 ∧ (t.proc np).kstack = q ↔ q ≠ 0 ∧ (s.proc np).kstack = q
      rw [fills.new, kstack]
    | table => exact absurd rfl apart'

/-- `fork` gives the slot up, with its stack if it has one. -/
theorem given_up (apart : np ≠ p) (target : (s.proc p).work.target = some np)
    (early : (s.proc p).work ≠ .copied np) (fills : Fills s t p np x .none)
    (state : x.state = .unused) (kstack : x.kstack = 0) (keeps : x.work = (s.proc np).work)
    (pages : t.pages = s.pages ∧ (s.proc np).kstack = 0 ∨
      t.pages = Function.update s.pages (s.proc np).kstack false ∧ (s.proc np).kstack ≠ 0) :
    Memory t := by
  have filling := mem.filling fills apart target keeps fun x same => by cases same
  have mapped : ¬s.Mapped np := mem.not_mapped target early
  have mapped' : ¬t.Mapped np := by
    rw [filling.mapped_iff, fills.new, fills.self, state]
    simp [Live]
  have none (q : Nat) : ¬t.Uses (np, .stack) q := by
    rintro ⟨nonzero, same⟩
    change (t.proc np).kstack = q at same
    rw [fills.new, kstack] at same
    exact nonzero same.symm
  have removes (r : Fin nProc × Part) (q : Nat) :
      t.Uses r q ↔ s.Uses r q ∧ r ≠ (np, .stack) := by
    obtain ⟨i, part⟩ := r
    by_cases here : i = np
    · subst here
      cases part with
      | stack =>
        refine iff_of_false (none q) ?_
        rintro ⟨-, other⟩
        exact other rfl
      | table =>
        exact iff_of_false (fun uses => mapped' uses.2.2) fun uses => mapped uses.1.2.2
    · rw [filling.uses_other here part q]
      simp [here]
  apply filling.memory mem
  · rcases pages with ⟨same, zero⟩ | ⟨freed, nonzero⟩
    · rw [same]
      refine mem.ledger.congr (fun _ => Iff.rfl) fun r q => (removes r q).trans ?_
      refine and_iff_left_of_imp fun uses here => ?_
      subst here
      exact uses.1 (uses.2.symm.trans zero)
    · rw [freed]
      have uses : s.Uses (np, .stack) (s.proc np).kstack := ⟨nonzero, rfl⟩
      exact mem.ledger.remove uses (fun _ => uses.unique) (marks_clear s.pages _) removes
  · rw [fills.self, fills.new]
    exact .inl ⟨state, kstack⟩

/-- The new process can run. -/
theorem published (apart : np ≠ p) (work : (s.proc p).work = .copied np)
    (fills : Fills s t p np x .none) (pages : t.pages = s.pages) (state : Live x.state)
    (kstack : x.kstack = (s.proc np).kstack) (pgdir : x.pgdir = (s.proc np).pgdir)
    (keeps : x.work = (s.proc np).work) : Memory t := by
  have target : (s.proc p).work.target = some np := by rw [work]; rfl
  have filling := mem.filling fills apart target keeps fun x same => by cases same
  have mapped : s.Mapped np := .inr ⟨p, work⟩
  have mapped' : t.Mapped np := by
    rw [filling.mapped_iff, fills.new]
    exact .inl state
  apply filling.memory mem
  · rw [pages]
    refine mem.ledger.congr (fun _ => Iff.rfl) (uses_congr ?_ ?_ ?_)
    · intro q
      by_cases here : q = np
      · rw [here, fills.new, kstack]
      · exact (filling.others q here).2.1
    · intro q _
      by_cases here : q = np
      · rw [here, fills.new, pgdir]
      · exact (filling.others q here).2.2
    · intro q
      by_cases here : q = np
      · subst here
        exact iff_of_true mapped' mapped
      · exact filling.mapped_other here
  · rw [fills.self, fills.new]
    refine .inr ⟨state, ?_⟩
    rw [kstack, pgdir]
    exact (mem.stage work rfl).2

/-- `wait` frees the stack and the page directory of a zombie. -/
theorem reaped {q : Fin nProc} (zombie : (s.proc q).state = .zombie)
    (new : (t.proc q).state = .unused ∧ (t.proc q).kstack = 0)
    (others : ∀ r, r ≠ q → (t.proc r).state = (s.proc r).state ∧
      (t.proc r).kstack = (s.proc r).kstack ∧ (t.proc r).pgdir = (s.proc r).pgdir)
    (works : ∀ r, (t.proc r).work = (s.proc r).work)
    (pages : t.pages = Function.update (Function.update s.pages (s.proc q).kstack false)
      (s.proc q).pgdir false) : Memory t := by
  have live : Live (s.proc q).state := by
    rw [zombie]
    simp [Live]
  have owns := mem.live q live
  -- Nobody fills the slot of a zombie.
  have untouched (r : Fin nProc) : (s.proc r).work.target ≠ some q := by
    intro target
    have embryo := mem.forks r q target
    rw [zombie] at embryo
    cases embryo
  have apart {r x : Fin nProc} (target : (s.proc r).work.target = some x) : x ≠ q := by
    rintro rfl
    exact untouched r target
  have mapped' : ¬t.Mapped q := by
    rintro (live | ⟨r, copied⟩)
    · exact live.1 new.1
    · rw [works] at copied
      exact untouched r (by rw [copied]; rfl)
  have mapped (r : Fin nProc) (other : r ≠ q) : t.Mapped r ↔ s.Mapped r := by
    unfold Mapped
    rw [(others r other).1]
    simp only [works]
  constructor
  case ledger =>
    rw [pages]
    -- First the stack is given back, then the page directory.
    have stack : s.Uses (q, .stack) (s.proc q).kstack := ⟨owns.1, rfl⟩
    have table : s.Uses (q, .table) (s.proc q).pgdir := ⟨owns.2, rfl, .inl live⟩
    have ledger : Ledger _ _ (fun r page => s.Uses r page ∧ r ≠ (q, Part.stack)) :=
      mem.ledger.remove stack (fun _ => stack.unique) (marks_clear s.pages _) fun _ _ => Iff.rfl
    refine ledger.remove (r := (q, .table)) ⟨table, by simp⟩ (fun _ uses => table.unique uses.1)
      (marks_clear _ _) fun r page => ?_
    obtain ⟨r, part⟩ := r
    by_cases here : r = q
    · subst here
      cases part with
      | stack =>
        refine iff_of_false (fun uses => uses.1 (uses.2.symm.trans new.2)) ?_
        rintro ⟨⟨-, other⟩, -⟩
        exact other rfl
      | table =>
        refine iff_of_false (fun uses => mapped' uses.2.2) ?_
        rintro ⟨-, other⟩
        exact other rfl
    · obtain ⟨-, kstack, pgdir⟩ := others r here
      cases part with
      | stack => simp [Uses, kstack, here]
      | table => simp [Uses, pgdir, mapped r here, here]
  case unused =>
    intro r unused
    by_cases here : r = q
    · rw [here]
      exact new.2
    · obtain ⟨state, kstack, -⟩ := others r here
      rw [kstack]
      exact mem.unused r (state ▸ unused)
  case live =>
    intro r alive
    by_cases here : r = q
    · rw [here] at alive
      exact absurd new.1 alive.1
    · obtain ⟨state, kstack, pgdir⟩ := others r here
      rw [kstack, pgdir]
      exact mem.live r (state ▸ alive)
  case staged =>
    intro r x target
    rw [works] at target ⊢
    obtain ⟨state, kstack, pgdir⟩ := others x (apart target)
    exact (mem.staged r x target).congr state kstack pgdir
  case sole =>
    intro r r' x target target'
    rw [works] at target target'
    exact mem.sole r r' x target target'

/-- A step that changes one process, and not its memory. -/
theorem update (pages : t.pages = s.pages)
    (proc : t.proc = Function.update s.proc p x) (kstack : x.kstack = (s.proc p).kstack)
    (pgdir : x.pgdir = (s.proc p).pgdir) (work : x.work = (s.proc p).work)
    (state : x.state = (s.proc p).state ∨ Live (s.proc p).state ∧ Live x.state) : Memory t := by
  have at_p : t.proc p = x := by rw [proc, Function.update_self]
  have others (q : Fin nProc) (apart : q ≠ p) : t.proc q = s.proc q := by
    rw [proc, Function.update_of_ne apart]
  apply mem.quiet pages
  all_goals
    intro q
    by_cases here : q = p
  · rw [here, at_p, kstack]
  · rw [others q here]
  · rw [here, at_p, pgdir]
  · rw [others q here]
  · rw [here, at_p, work]
  · rw [others q here]
  · rw [here, at_p]
    exact state
  · rw [others q here]
    exact .inl rfl

/-- The loops over the table do not touch memory. -/
theorem passed (pages : t.pages = s.pages) {curproc : Fin nProc}
    (table : ∀ q, Passed curproc (s.proc q) (t.proc q)) : Memory t := by
  apply mem.quiet pages (fun q => (table q).kstack_eq) (fun q => (table q).pgdir_eq)
    (fun q => (table q).work_eq)
  intro q
  rcases (table q).state with same | ⟨asleep, woken⟩
  · exact .inl same
  · rw [asleep, woken]
    simp [Live]

end

variable [DecidableEq C]

/-- Every step keeps the memory of processes in order. -/
theorem took {event : Event C} (mem : Memory s) (placed : Placed s) (step : Took s event t) :
    Memory t := by
  have on_cpu {c : C} {p : Fin nProc} (thread : (s.cpu c).thread = .process p) :
      Live (s.proc p).state := by
    rw [placed.running thread]
    simp [Live]
  cases step with
  | acquire | rest | back | full | zombie | initExits =>
    exact mem.quiet rfl (fun _ => rfl) (fun _ => rfl) (fun _ => rfl) fun _ => .inl rfl
  | @dispatch _ _ p _ runnable =>
    exact mem.update rfl rfl rfl rfl rfl (.inr (by rw [runnable]; simp [Live]))
  | stuck _ runnable missing => exact (mem.not_stuck runnable missing).elim
  | resume | fault => exact mem.update rfl rfl rfl rfl rfl (.inl rfl)
  | yield thread | sleep thread =>
    exact mem.update rfl rfl rfl rfl rfl (.inr ⟨on_cpu thread, by simp [Live]⟩)
  | wakeup => exact mem.passed rfl (wakeup1_passed initproc s.proc _)
  | @kill pid p =>
    have hit : Memory { s with proc := Function.update s.proc p (s.proc p).hit } := by
      refine mem.update rfl rfl rfl rfl rfl ?_
      simp only [Proc.hit]
      split
      · rename_i asleep
        rw [asleep]
        simp [Live]
      · exact .inl rfl
    exact hit.quiet rfl (fun _ => rfl) (fun _ => rfl) (fun _ => rfl) fun _ => .inl rfl
  | miss => exact mem.quiet rfl (fun _ => rfl) (fun _ => rfl) (fun _ => rfl) fun _ => .inl rfl
  | slot thread _ work unused =>
    have apart := placed.ne_early thread (.inl unused)
    exact mem.slot_taken apart work unused (fills_setProc apart rfl) rfl rfl rfl rfl
  | stack thread _ work page_ne fresh =>
    have embryo := mem.forks _ _ (by rw [work]; rfl)
    have apart := placed.ne_early thread (.inr embryo)
    exact mem.stack_given apart work page_ne fresh (fills_setProc apart rfl) rfl rfl rfl rfl
  | @noStack _ p np thread _ work =>
    have target : (s.proc p).work.target = some np := by rw [work]; rfl
    have apart := placed.ne_early thread (.inr (mem.forks _ _ target))
    exact mem.given_up apart target (by rw [work]; simp) (fills_setProc apart rfl) rfl rfl rfl
      (.inl ⟨rfl, (mem.stage work rfl).2⟩)
  | copied thread _ work page_ne fresh =>
    have embryo := mem.forks _ _ (by rw [work]; rfl)
    have apart := placed.ne_early thread (.inr embryo)
    exact mem.table_given apart work page_ne fresh (fills_setProc apart rfl) rfl rfl rfl rfl rfl
  | @notCopied _ p np thread _ work =>
    have target : (s.proc p).work.target = some np := by rw [work]; rfl
    have apart := placed.ne_early thread (.inr (mem.forks _ _ target))
    exact mem.given_up apart target (by rw [work]; simp) (fills_setProc apart rfl) rfl rfl rfl
      (.inr ⟨rfl, (mem.stage work rfl).2⟩)
  | fork thread _ work =>
    have embryo := mem.forks _ _ (by rw [work]; rfl)
    have apart := placed.ne_early thread (.inr embryo)
    exact mem.published apart work (fills_setProc apart rfl) rfl (by simp [Live]) rfl rfl rfl
  | @exit c p proc thread _ _ exits =>
    have passed : Memory { s with proc := proc } := mem.passed rfl exits.table
    have running : (proc p).state = .running := by
      rw [(exits.table p).state_eq (by rw [placed.running thread]; decide), placed.running thread]
    exact passed.update rfl rfl rfl rfl rfl (.inr (by simp [running, Live]))
  | @reap _ c p q x waits child zombie =>
    have table := waits.table
    apply mem.reaped zombie
    case new => simp [Proc.reaped]
    case others =>
      intro r apart
      dsimp only
      rw [Function.update_of_ne apart, table r]
      exact ⟨rfl, rfl, rfl⟩
    case works =>
      intro r
      show (Function.update (Function.update s.proc p x) q _ r).work = (s.proc r).work
      by_cases here : r = q
      · rw [here, Function.update_self]
        show (Function.update s.proc p x q).work = (s.proc q).work
        rw [table q]
      · rw [Function.update_of_ne here, table r]
    case pages => rfl
  | @giveUp _ c p x waits =>
    have slot := waits.slot
    exact mem.update rfl rfl (by rw [slot]) (by rw [slot]) (by rw [slot]) (.inl (by rw [slot]))
  | @waits _ c p _ x waits =>
    have slot := waits.slot
    exact mem.update rfl rfl (by rw [slot]) (by rw [slot]) (by rw [slot])
      (.inr ⟨on_cpu waits.1, by simp [Live]⟩)

end Memory

end State

end Xv6.Sched
