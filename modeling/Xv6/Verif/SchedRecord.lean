import Xv6.Verif.SchedFamily

/-!
# Every child is reaped once

The calls on record say that `wait` returns a pid at most once, to the process that forked it or,
after that one has exited, to the first process. Pids do not repeat as long as fewer than `2 ^ 32`
calls of `fork` are made.
-/

namespace Xv6.Sched

open Lib Function

namespace State

variable {C : Type} {s t : State C} {p q np : Fin nProc}

/-- The pids that `allocproc` and `userinit` have given out, when there are `k` of them. -/
def Issued (k : Nat) (pid : UInt32) : Prop := ∃ i < k, pid = UInt32.ofNat (1 + i)

/-- The next pid has not been given out. -/
theorem not_issued {k : Nat} (few : k < 2 ^ 32) : ¬Issued k (UInt32.ofNat (1 + k)) := by
  rintro ⟨i, lt, same⟩
  have numbers := congrArg UInt32.toNat same
  simp only [UInt32.toNat_ofNat'] at numbers
  omega

/-- A pid that has been given out stays so. -/
theorem Issued.succ {k : Nat} {pid : UInt32} (issued : Issued k pid) : Issued (k + 1) pid := by
  obtain ⟨i, lt, same⟩ := issued
  exact ⟨i, by omega, same⟩

/-- A process was forked by another, which is its parent or has exited. -/
def Heir (calls : List Call) (caller pid : UInt32) : Prop :=
  .forked caller pid ∈ calls ∨
    caller = 1 ∧ ∃ forker, .forked forker pid ∈ calls ∧ .exited forker ∈ calls

/-- `wait` returned every pid at most once, and to the process that forked it, or to the first
process after that one exited. -/
def Accounted : List Call → Prop
  | [] => True
  | .waited caller pid :: calls =>
    Heir calls caller pid ∧ (∀ other, .waited other pid ∉ calls) ∧ Accounted calls
  | _ :: calls => Accounted calls

/-- A call does not change who forked whom. -/
theorem Heir.cons {calls : List Call} {caller pid : UInt32} (heir : Heir calls caller pid)
    (call : Call) : Heir (call :: calls) caller pid := by
  rcases heir with forked | ⟨first, forker, forked, exited⟩
  · exact .inl (.tail _ forked)
  · exact .inr ⟨first, forker, .tail _ forked, .tail _ exited⟩

/-- The pids of the processes, and the calls on record, after `k` pids have been given out. -/
structure Record (k : Nat) (s : State C) : Prop where
  next : s.nextpid = UInt32.ofNat (1 + k)
  first : (s.proc initproc).pid = 1
  issued : ∀ p, (s.proc p).state ≠ .unused → Issued k (s.proc p).pid
  distinct : ∀ p q, (s.proc p).state ≠ .unused → (s.proc q).state ≠ .unused →
    (s.proc p).pid = (s.proc q).pid → p = q
  gone : ∀ caller pid, .waited caller pid ∈ s.calls →
    Issued k pid ∧ ∀ p, (s.proc p).state ≠ .unused → (s.proc p).pid ≠ pid
  /-- A process was forked by its parent, or has been passed to the first process. -/
  heir : ∀ p q, p ≠ initproc → Live (s.proc p).state → (s.proc p).parent = some q →
    Heir s.calls (s.proc q).pid (s.proc p).pid
  accounted : Accounted s.calls

namespace Record

variable {k : Nat}

variable (record : Record k s)

include record

/-- A step that gives out no pid. -/
theorem keep (pids : ∀ q, (t.proc q).state ≠ .unused →
      (t.proc q).pid = (s.proc q).pid ∧ (s.proc q).state ≠ .unused)
    (first : (t.proc initproc).state ≠ .unused) (nextpid : t.nextpid = s.nextpid)
    (waited : ∀ caller pid, .waited caller pid ∈ t.calls → .waited caller pid ∈ s.calls ∨
      Issued k pid ∧ ∀ p, (t.proc p).state ≠ .unused → (t.proc p).pid ≠ pid)
    (heir : ∀ p q, p ≠ initproc → Live (t.proc p).state → (t.proc p).parent = some q →
      Heir t.calls (t.proc q).pid (t.proc p).pid) (accounted : Accounted t.calls) : Record k t := by
  constructor
  case next => rw [nextpid, record.next]
  case first => rw [(pids initproc first).1, record.first]
  case issued =>
    intro p is
    rw [(pids p is).1]
    exact record.issued p (pids p is).2
  case distinct =>
    intro p q is is' same
    rw [(pids p is).1, (pids q is').1] at same
    exact record.distinct p q (pids p is).2 (pids q is').2 same
  case gone =>
    intro caller pid returned
    rcases waited caller pid returned with old | new
    · obtain ⟨issued, absent⟩ := record.gone caller pid old
      refine ⟨issued, fun p is => ?_⟩
      rw [(pids p is).1]
      exact absent p (pids p is).2
    · exact new
  case heir => exact heir
  case accounted => exact accounted

/-- A step that makes no call, and leaves the pids and the parents of processes. -/
theorem quiet (family : Family t) (pids : ∀ q, (t.proc q).pid = (s.proc q).pid)
    (parents : ∀ q, Live (t.proc q).state →
      Live (s.proc q).state ∧ (t.proc q).parent = (s.proc q).parent)
    (used : ∀ q, (t.proc q).state ≠ .unused → (s.proc q).state ≠ .unused)
    (calls : t.calls = s.calls) (nextpid : t.nextpid = s.nextpid) : Record k t := by
  apply record.keep (fun q is => ⟨pids q, used q is⟩) family.first.1.live.1 nextpid
  case waited =>
    intro caller pid returned
    rw [calls] at returned
    exact .inl returned
  case heir =>
    intro p q other alive child
    rw [calls, pids, pids]
    obtain ⟨was, same⟩ := parents p alive
    exact record.heir p q other was (same.symm.trans child)
  case accounted =>
    rw [calls]
    exact record.accounted

/-- A step after which every process goes on. -/
theorem steady (family : Family t) (steady : ∀ q, Steady (s.proc q) (t.proc q))
    (calls : t.calls = s.calls) (nextpid : t.nextpid = s.nextpid) : Record k t :=
  record.quiet family (fun q => (steady q).pid)
    (fun q alive => ⟨(steady q).live.mp alive, (steady q).parent⟩)
    (fun q is => mt (steady q).unused.mpr is) calls nextpid

/-- A step of `fork` on a slot that is not a process yet. -/
theorem early (family : Family t) {x : Proc} {work : Work} (fills : Fills s t p np x work)
    (embryo : (s.proc np).state = .embryo) (pid : x.pid = (s.proc np).pid) (young : ¬Live x.state)
    (calls : t.calls = s.calls) (nextpid : t.nextpid = s.nextpid) : Record k t := by
  apply record.quiet family _ _ _ calls nextpid
  all_goals
    intro q
    by_cases here : q = np
  · rw [here, fills.new, pid]
  · rw [fills.other here]
  · rw [here, fills.new]
    exact fun live => absurd live young
  · rw [fills.other here]
    exact fun live => ⟨live, rfl⟩
  · simp [here, embryo]
  · rw [fills.other here]
    exact id

/-- `allocproc` gives out a pid. -/
theorem slot_taken (family : Family s) (few : k < 2 ^ 32) (unused : (s.proc np).state = .unused)
    (fills : Fills s t p np
      { s.proc np with state := .embryo, pid := s.nextpid, blamed := false } (.slot np))
    (calls : t.calls = s.calls) (nextpid : t.nextpid = s.nextpid + 1) : Record (k + 1) t := by
  have fresh : ¬Issued k s.nextpid := by
    rw [record.next]
    exact not_issued few
  have active_ne {q : Fin nProc} (active : Active (s.proc q).state) : q ≠ np := by
    rintro rfl
    rw [unused] at active
    exact active
  have others {q : Fin nProc} (apart : q ≠ np) (is : (t.proc q).state ≠ .unused) :
      (s.proc q).state ≠ .unused := by
    rw [fills.other apart] at is
    exact is
  have pids {q : Fin nProc} (apart : q ≠ np) : (t.proc q).pid = (s.proc q).pid := by
    rw [fills.other apart]
  have new : (t.proc np).pid = s.nextpid := by rw [fills.new]
  constructor
  case next =>
    rw [nextpid, record.next, ← Nat.add_assoc, UInt32.ofNat_add (1 + k) 1]
    rfl
  case first => rw [pids (active_ne family.first.1), record.first]
  case issued =>
    intro q is
    by_cases here : q = np
    · rw [here, new]
      exact ⟨k, by omega, record.next⟩
    · rw [pids here]
      exact (record.issued q (others here is)).succ
  case distinct =>
    intro q r is is' same
    by_cases here : q = np
    · by_cases there : r = np
      · rw [here, there]
      · rw [here, new, pids there] at same
        exact absurd (same ▸ record.issued r (others there is')) fresh
    · by_cases there : r = np
      · rw [there, new, pids here] at same
        exact absurd (same ▸ record.issued q (others here is)) fresh
      · rw [pids here, pids there] at same
        exact record.distinct q r (others here is) (others there is') same
  case gone =>
    intro caller pid waited
    rw [calls] at waited
    obtain ⟨issued, absent⟩ := record.gone caller pid waited
    refine ⟨issued.succ, fun q is => ?_⟩
    by_cases here : q = np
    · rw [here, new]
      rintro rfl
      exact fresh issued
    · rw [pids here]
      exact absent q (others here is)
  case heir =>
    intro q r other live child
    have here : q ≠ np := by
      rintro rfl
      rw [fills.new] at live
      exact live.2 rfl
    rw [fills.other here] at live child
    obtain ⟨r', child', active⟩ := family.parent q other live
    obtain rfl := Option.some.inj (child.symm.trans child')
    rw [calls, pids here, pids (active_ne active)]
    exact record.heir q r other live child
  case accounted =>
    rw [calls]
    exact record.accounted

/-- `fork` returns. -/
theorem forked (family : Family s) (family' : Family t) (embryo : (s.proc np).state = .embryo)
    (work : (s.proc p).work = .copied np)
    (fills : Fills s t p np { s.proc np with state := .runnable } .none)
    (calls : t.calls = .forked (s.proc p).pid (s.proc np).pid :: s.calls)
    (nextpid : t.nextpid = s.nextpid) : Record k t := by
  have pids (q : Fin nProc) : (t.proc q).pid = (s.proc q).pid := by
    by_cases here : q = np
    · rw [here, fills.new]
    · rw [fills.other here]
  apply record.keep (fun q is => ⟨pids q, ?_⟩) family'.first.1.live.1 nextpid
  case waited =>
    intro caller pid waited
    rw [calls] at waited
    exact .inl (by simpa using waited)
  case heir =>
    intro q r other live child
    rw [calls, pids, pids]
    by_cases here : q = np
    · subst here
      rw [fills.new] at child
      obtain rfl := Option.some.inj (child.symm.trans (family.copied p q work))
      exact .inl (.head _)
    · rw [fills.other here] at live child
      exact (record.heir q r other live child).cons _
  case accounted =>
    rw [calls]
    exact record.accounted
  · by_cases here : q = np
    · simp [here, embryo]
    · rwa [fills.other here] at is

/-- A process exits. -/
theorem exited {proc : Fin nProc → Proc} (family' : Family t)
    (running : (s.proc p).state = .running) (exits : s.Exits p proc)
    (proc_eq : t.proc = update proc p { proc p with state := .zombie, context := .exit })
    (calls : t.calls = .exited (s.proc p).pid :: s.calls) (nextpid : t.nextpid = s.nextpid) :
    Record k t := by
  have pids (q : Fin nProc) := (exits.leaves proc_eq q).1
  apply record.keep (fun q is => ⟨pids q, ?_⟩) family'.first.1.live.1 nextpid
  case waited =>
    intro caller pid waited
    rw [calls] at waited
    exact .inl (by simpa using waited)
  case heir =>
    intro q r other alive child
    have was : Live (s.proc q).state := by
      by_cases here : q = p
      · simp [here, running, Live]
      · exact (exits.others proc_eq here).live.mp alive
    rw [(exits.leaves proc_eq q).2.2] at child
    rw [calls, pids, pids]
    rcases (exits.table q).parent with same | ⟨mine, given⟩
    · exact (record.heir q r other was (same.symm.trans child)).cons _
    · -- A child of the process is passed to the first one.
      obtain rfl := Option.some.inj (child.symm.trans given)
      rw [record.first]
      rcases record.heir q p other was mine with forked | ⟨-, forker, forked, exited⟩
      · exact .inr ⟨rfl, (s.proc p).pid, .tail _ forked, .head _⟩
      · exact .inr ⟨rfl, forker, .tail _ forked, .tail _ exited⟩
  case accounted =>
    rw [calls]
    exact record.accounted
  · by_cases here : q = p
    · simp [here, running]
    · exact mt (exits.others proc_eq here).unused.mpr is

/-- `wait` returns. -/
theorem reaped {x y : Proc} (family : Family s) (family' : Family t)
    (child : (s.proc q).parent = some p) (zombie : (s.proc q).state = .zombie)
    (slot : x = { s.proc p with chan := x.chan })
    (proc : t.proc = update (update s.proc p x) q y.reaped)
    (calls : t.calls = .waited (s.proc p).pid (s.proc q).pid :: s.calls)
    (nextpid : t.nextpid = s.nextpid) : Record k t := by
  have used : (s.proc q).state ≠ .unused := by simp [zombie]
  have inactive : ¬Active (s.proc q).state := by simp [zombie, Active]
  have others (r : Fin nProc) (here : r ≠ q) := reaped_other slot proc here
  have ne {r : Fin nProc} (is : (t.proc r).state ≠ .unused) : r ≠ q := by
    rintro rfl
    rw [proc, update_self] at is
    exact is rfl
  apply record.keep (fun r is => ?_) family'.first.1.live.1 nextpid
  case waited =>
    intro caller pid waited
    rw [calls] at waited
    rcases List.mem_cons.mp waited with head | old
    · cases head
      refine .inr ⟨record.issued q used, fun r is same => ?_⟩
      have here := ne is
      rw [others r here] at is same
      exact here (record.distinct r q is used same)
    · exact .inl old
  case heir =>
    intro r r' other live child'
    have here := ne live.1
    rw [others r here] at live child' ⊢
    obtain ⟨_, parent, active⟩ := family.parent r other live
    obtain rfl := Option.some.inj (child'.symm.trans parent)
    have there : r' ≠ q := by
      rintro rfl
      exact inactive active
    rw [calls, others r' there]
    exact (record.heir r r' other live child').cons _
  case accounted =>
    have apart : q ≠ initproc := by
      rintro rfl
      exact inactive family.first.1
    rw [calls]
    refine ⟨record.heir q p apart (by simp [zombie, Live]) child, fun other waited => ?_,
      record.accounted⟩
    exact (record.gone other _ waited).2 q used rfl
  · have here := ne is
    rw [others r here] at is ⊢
    exact ⟨rfl, is⟩

/-- Every step keeps the record; only `allocproc` gives out a pid. -/
theorem changed {event : Event C} (family : Family s) (family' : Family t)
    (mem : Memory s) (step : Changed event s t) :
    Record k t ∨ (∃ c, event = .allocproc c) ∧ (k < 2 ^ 32 → Record (k + 1) t) := by
  cases step with
  | moved proc states rest _ _ calls nextpid =>
    exact .inl (record.steady family' (steady_moved proc states rest) calls nextpid)
  | woken proc calls nextpid =>
    exact .inl (record.steady family' (fun q => proc ▸ .wakeup1 s.proc _ q) calls nextpid)
  | killed _ hit rest calls nextpid =>
    exact .inl (record.steady family' (steady_killed hit rest) calls nextpid)
  | slot cause _ _ _ unused fills calls nextpid =>
    exact .inr ⟨cause, fun few => record.slot_taken family few unused fills calls nextpid⟩
  | stack _ _ work fills calls nextpid | copied _ _ work fills calls nextpid =>
    have embryo := mem.forks _ _ (by rw [work]; rfl)
    exact .inl (record.early family' fills embryo rfl (by simp [embryo, Live]) calls nextpid)
  | @gaveUp p np _ _ _ _ work fills calls nextpid =>
    have target : (s.proc p).work.target = some np := by
      rcases work with work | work <;> rw [work] <;> rfl
    exact .inl (record.early family' fills (mem.forks p np target) rfl (by simp [Live]) calls
      nextpid)
  | fork _ _ work fills calls nextpid =>
    have embryo := mem.forks _ _ (by rw [work]; rfl)
    exact .inl (record.forked family family' embryo work fills calls nextpid)
  | exit running _ exits proc_eq calls nextpid =>
    exact .inl (record.exited family' running exits proc_eq calls nextpid)
  | reaped _ child zombie _ slot _ proc calls nextpid =>
    exact .inl (record.reaped family family' child zombie slot proc calls nextpid)

end Record

/-! ## Runs -/

/-- At the start there is one process, without a parent. -/
theorem Initial.family (start : Initial s) : Family s := by
  obtain ⟨kstack, pgdir, -, -, -, first, -⟩ := start.first
  have alone (p : Fin nProc) : (s.proc p).parent = none ∧ (s.proc p).work = .none := by
    by_cases here : p = initproc
    · rw [here, first]
      exact ⟨rfl, rfl⟩
    · rw [start.rest p here]
      exact ⟨rfl, rfl⟩
  constructor
  case first =>
    rw [first]
    exact ⟨trivial, rfl⟩
  case parent =>
    intro p other live
    rw [start.rest p other] at live
    exact absurd rfl live.1
  case apart => exact fun p self => by cases (alone p).1.symm.trans self
  case early => exact fun p q _ child => by cases (alone p).1.symm.trans child
  case copied => exact fun q np copied => by cases (alone q).2.symm.trans copied
  case busy => exact fun p busy => absurd (alone p).2 busy
  case waiter =>
    intro p asleep
    by_cases here : p = initproc
    · rw [here, first] at asleep
      cases asleep
    · rw [start.rest p here] at asleep
      cases asleep

/-- At the start one pid has been given out, and no call has been made. -/
theorem Initial.record (start : Initial s) : Record 1 s := by
  obtain ⟨kstack, pgdir, -, -, -, first, -⟩ := start.first
  have used (p : Fin nProc) (is : (s.proc p).state ≠ .unused) : p = initproc := by
    by_contra other
    rw [start.rest p other] at is
    exact is rfl
  constructor
  case next => exact start.nextpid
  case first => rw [first]
  case issued =>
    intro p is
    rw [used p is, first]
    exact ⟨0, by decide, rfl⟩
  case distinct =>
    intro p q is is' _
    rw [used p is, used q is']
  case gone =>
    intro caller pid waited
    rw [start.calls] at waited
    cases waited
  case heir => exact fun p q other live _ => absurd (used p live.1) other
  case accounted =>
    rw [start.calls]
    trivial

/-- The calls of `fork` in a run. -/
def forks (past : List (Event C)) : Nat :=
  past.countP fun event => match event with
    | .allocproc _ => true
    | _ => false

variable [DecidableEq C]

/-- Every state of a run has parents and children as they should be. -/
theorem Ran.family {past : List (Event C)} (ran : Ran C past s) : Family s := by
  refine ran.invariant (fun _ s => Family s) (fun s start => start.family) ?_
  intro past s t event before family taken
  obtain ⟨inv, mem⟩ := Ran.safe before
  exact family.changed mem ((took_of_step taken).2.changed inv mem)

/-- The record of a run in which pids do not repeat. -/
theorem Ran.record {past : List (Event C)} (ran : Ran C past s) (few : forks past < 2 ^ 32) :
    ∃ k ≤ forks past + 1, Record k s := by
  refine ran.invariant (fun past s => forks past < 2 ^ 32 → ∃ k ≤ forks past + 1, Record k s)
    (fun s start _ => ⟨1, by simp [forks], start.record⟩) ?_ few
  intro past s t event before ih taken limit
  obtain ⟨inv, mem⟩ := Ran.safe before
  have step := (took_of_step taken).2
  have grows : forks past ≤ forks (event :: past) := by
    unfold forks
    rw [List.countP_cons]
    omega
  obtain ⟨k, le, record⟩ := ih (by omega)
  have changed := step.changed inv mem
  have family := Ran.family before
  rcases record.changed family (family.changed mem changed) mem changed with same | ⟨⟨c, call⟩, new⟩
  · exact ⟨k, by omega, same⟩
  · have called : forks (event :: past) = forks past + 1 := by simp [forks, call]
    exact ⟨k + 1, by omega, new (by omega)⟩

/-- In every run with fewer than `2 ^ 32` calls of `fork`, for any CPUs: every process but the first
has a parent that has not ended; `wait` returns a pid at most once, to the process that forked it or
to the first process after that one exited, and this process is the parent; and a process that
sleeps in `wait` has a child, has no zombie child and has not been killed. -/
theorem children_reaped {past : List (Event C)} (ran : Ran C past s)
    (few : forks past < 2 ^ 32) :
    (∀ p, p ≠ initproc → ((s.proc p).state = .sleeping ∨ (s.proc p).state = .runnable ∨
        (s.proc p).state = .running ∨ (s.proc p).state = .zombie) →
      ∃ q, (s.proc p).parent = some q ∧ (s.proc q).state ≠ .unused ∧
        (s.proc q).state ≠ .embryo ∧ (s.proc q).state ≠ .zombie) ∧
    Accounted s.calls ∧
    (∀ event t caller pid, s.step event = some t → t.calls = .waited caller pid :: s.calls →
      ∃ p q, (s.proc p).pid = caller ∧ (s.proc q).pid = pid ∧ (s.proc q).state = .zombie ∧
        (s.proc q).parent = some p) ∧
    (s.lock = none → ∀ p, (s.proc p).state = .sleeping → (s.proc p).context = .wait →
      (∃ q, (s.proc q).parent = some p ∧ (s.proc q).state ≠ .unused) ∧
        (∀ q, (s.proc q).parent = some p → (s.proc q).state ≠ .zombie) ∧
        (s.proc p).killed = false) := by
  obtain ⟨inv, mem⟩ := Ran.safe ran
  have family := Ran.family ran
  obtain ⟨k, -, record⟩ := Ran.record ran few
  refine ⟨fun p other state => ?_, record.accounted, ?_, fun _ p asleep context => ?_⟩
  · have live : Live (s.proc p).state := by
      rcases state with state | state | state | state <;> simp [state, Live]
    obtain ⟨q, child, active⟩ := family.parent p other live
    refine ⟨q, child, active.live.1, active.live.2, fun zombie => ?_⟩
    rw [zombie] at active
    exact active
  · intro event t caller pid taken waited
    have changed := (took_of_step taken).2.changed inv mem
    cases changed with
    | reaped _ child zombie _ _ _ _ calls =>
      rw [calls] at waited
      obtain ⟨rfl, rfl⟩ := Call.waited.inj (List.cons.inj waited).1
      exact ⟨_, _, rfl, rfl, zombie, child⟩
    | fork _ _ _ _ calls | exit _ _ _ _ calls =>
      rw [calls] at waited
      cases (List.cons.inj waited).1
    | moved _ _ _ _ _ calls | woken _ calls | killed _ _ _ calls | slot _ _ _ _ _ _ calls
    | stack _ _ _ _ calls | copied _ _ _ _ calls | gaveUp _ _ _ _ _ calls =>
      rw [calls] at waited
      exact absurd waited (by simp)
  · obtain ⟨-, spared, ⟨q, child⟩, none⟩ := family.waiter p asleep context
    refine ⟨⟨q, child, fun unused => ?_⟩, none, spared⟩
    have work := family.early q p (by simp [unused, Live]) child
    cases unused.symm.trans (mem.forks p q (by rw [work]; rfl))

/-- The first process reaps its child. -/
theorem children_reaped_once : ∃ s : State Unit, Ran Unit (.resume () :: reaping.reverse) s ∧
    s.calls = [.waited 1 2, .exited 2, .forked 1 2] ∧ Accounted s.calls := by
  have runs : (replay step (reaping ++ [.resume ()]) (booted Unit)).any
      (fun s => s.calls = [.waited 1 2, .exited 2, .forked 1 2]) = true := by
    decide +kernel
  obtain ⟨s, ran, holds⟩ := History.of_replay (booted_initial Unit) runs
  rw [List.reverse_append] at ran
  exact ⟨s, ran, of_decide_eq_true holds, (children_reaped ran (by decide)).2.1⟩

end State

end Xv6.Sched
