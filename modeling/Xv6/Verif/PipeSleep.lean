import Xv6.Verif.PipeFifo
import Xv6.Verif.SleepFlow
import Xv6.Verif.SleepWakeup

/-!
# Who sleeps on a pipe

A writer owes the readers a `wakeup` from its first byte on, a reader the writers from the start of
its loop on, and `pipeclose` the other side. The debts are paid with the lock held, except by a
writer that finds the pipe full and is killed: it returns without `wakeup` for the bytes it has
stored. In runs in which no writer does so while a reader sleeps, a process sleeps on a pipe only
for a reason whenever the lock is free.
-/

namespace Xv6.Pipe

open Lib Sleep
open Function (update update_of_ne update_self)

/-! ## Calls in progress -/

/-- In `piperead`. -/
def At.Reads : At → Prop
  | .readAcquire _ | .readWait _ | .readSleep _ | .readFail | .read _ _ | .readDone
  | .readRelease => True
  | _ => False

/-- In `pipeclose` for the read end, which is not yet marked. -/
def At.ShutsRead : At → Prop
  | .closeAcquire false | .close false => True
  | _ => False

/-- The read end is open while somebody reads. -/
structure Calls {P : Type} (places : P → At) (shared : Shared P) : Prop where
  reads : ∀ p, (places p).Reads → p ∈ shared.readers
  /-- There are none when the last reference has gone. -/
  none : shared.readShut = true → shared.readers = []
  /-- The last reference has gone when the end is being closed. -/
  shuts : ∀ p, (places p).ShutsRead → shared.readShut = true
  closed : shared.content.readopen = false → shared.readShut = true

variable {P : Type} [DecidableEq P]

variable {places : P → At} {shared shared' : Shared P} {p : P} {k next : At}
  {past : List (Event P At)}
  {s : State P Unit Chan At (Shared P)} {c : Content} {addr : List UInt8} {i n : Nat} {chan : Chan}
  {debt : Debt P At Content}

/-- A step that leaves the record, and does not enter a call. -/
theorem Calls.within (calls : Calls places shared) (here : places p = k)
    (reads : next.Reads → k.Reads)
    (shuts : next.ShutsRead → k.ShutsRead) (readers : shared'.readers = shared.readers)
    (shut : shared'.readShut = shared.readShut) (closed : shared'.content.readopen = false →
      shared.content.readopen = false ∨ k.ShutsRead) : Calls (update places p next) shared' := by
  subst here
  constructor
  case reads =>
    intro q reading
    rw [readers]
    by_cases here : q = p
    · rw [here, update_self] at reading
      rw [here]
      exact calls.reads p (reads reading)
    · rw [update_of_ne here] at reading
      exact calls.reads q reading
  case none =>
    rw [shut, readers]
    exact calls.none
  case shuts =>
    intro q shutting
    rw [shut]
    by_cases here : q = p
    · rw [here, update_self] at shutting
      exact calls.shuts p (shuts shutting)
    · rw [update_of_ne here] at shutting
      exact calls.shuts q shutting
  case closed =>
    intro gone
    rw [shut]
    rcases closed gone with before | closing
    · exact calls.closed before
    · exact calls.shuts p closing

/-- Operations on the lock, `sleep` and `wakeup` do not enter a call. -/
theorem leads_calls (leads : ((client P).instr p k).next = some next) :
    (next.Reads → k.Reads) ∧ (next.ShutsRead → k.ShutsRead) := by
  cases k with
  | readAcquire n | readSleep n =>
    cases leads
    exact ⟨fun _ => trivial, False.elim⟩
  | readDone =>
    cases leads
    exact ⟨fun _ => trivial, False.elim⟩
  | closeAcquire writable =>
    cases leads
    exact ⟨False.elim, fun shuts => by cases writable <;> exact shuts⟩
  | _ =>
    cases leads
    all_goals exact ⟨False.elim, False.elim⟩

/-- Code does not enter a call, and marks the read end only in `pipeclose`. -/
theorem code_calls {code : Bool → Shared P → Shared P × At}
    (instr : (client P).instr p k = .run code) (killed : Bool) (shared : Shared P) :
    ((code killed shared).2.Reads → k.Reads) ∧ ((code killed shared).2.ShutsRead → k.ShutsRead) ∧
      (k ≠ .leave → (code killed shared).1.readers = shared.readers) ∧
      (code killed shared).1.readShut = shared.readShut ∧
      ((code killed shared).1.content.readopen = false →
        shared.content.readopen = false ∨ k.ShutsRead) := by
  cases k with
  | write addr i dirty =>
    cases instr
    dsimp only [Content.writeRound]
    repeat' split
    all_goals exact ⟨False.elim, False.elim, fun _ => rfl, rfl, .inl⟩
  | readWait n =>
    cases instr
    dsimp only [Content.readTest]
    repeat' split
    all_goals exact ⟨fun _ => trivial, False.elim, fun _ => rfl, rfl, .inl⟩
  | read n i =>
    cases instr
    dsimp only [Content.readRound]
    repeat' split
    all_goals exact ⟨fun _ => trivial, False.elim, fun _ => rfl, rfl, .inl⟩
  | close writable =>
    cases instr
    cases writable with
    | false => exact ⟨False.elim, False.elim, fun _ => rfl, rfl, fun _ => .inr trivial⟩
    | true => exact ⟨False.elim, False.elim, fun _ => rfl, rfl, .inl⟩
  | closeTest =>
    cases instr
    dsimp only
    split
    all_goals exact ⟨False.elim, False.elim, fun _ => rfl, rfl, .inl⟩
  | closeFree =>
    cases instr
    exact ⟨False.elim, False.elim, fun _ => rfl, rfl, .inl⟩
  | leave =>
    cases instr
    exact ⟨False.elim, False.elim, fun other => absurd rfl other, rfl, .inl⟩
  | _ => cases instr

/-- A call returns. -/
theorem Calls.left (calls : Calls places shared) (p : P) :
    Calls (update places p .idle) { shared with
      readers := shared.readers.filter (· ≠ p)
      writers := shared.writers.filter (· ≠ p) } := by
  constructor
  case reads =>
    intro q reading
    by_cases here : q = p
    · rw [here, update_self] at reading
      cases reading
    · rw [update_of_ne here] at reading
      exact List.mem_filter.mpr ⟨calls.reads q reading, decide_eq_true here⟩
  case none =>
    intro shut
    show shared.readers.filter (· ≠ p) = []
    rw [calls.none shut, List.filter_nil]
  case shuts =>
    intro q shutting
    by_cases here : q = p
    · rw [here, update_self] at shutting
      cases shutting
    · rw [update_of_ne here] at shutting
      exact calls.shuts q shutting
  case closed => exact calls.closed

/-- A call starts. -/
theorem Calls.entered (calls : Calls places shared)
    (entered : enter p (places p) next shared = some shared') : Calls
    (update places p next) shared' := by
  generalize here : places p = k at entered
  unfold enter at entered
  split at entered
  case h_5 => cases entered
  all_goals
    obtain ⟨opened, made⟩ := Option.ite_none_left_eq_some.mp entered
    cases made
  · exact calls.within here False.elim False.elim rfl rfl .inl
  · -- A reader puts itself on record; the end is open.
    constructor
    case reads =>
      intro q reading
      by_cases same : q = p
      · rw [same]
        exact List.mem_cons_self
      · rw [update_of_ne same] at reading
        exact List.mem_cons_of_mem _ (calls.reads q reading)
    case none => exact fun shut => absurd shut opened
    case shuts =>
      intro q shutting
      by_cases same : q = p
      · rw [same, update_self] at shutting
        cases shutting
      · rw [update_of_ne same] at shutting
        exact calls.shuts q shutting
    case closed => exact calls.closed
  · exact calls.within here False.elim False.elim rfl rfl .inl
  · -- The last reference goes when there is no reader.
    simp only [Bool.or_eq_true, Bool.not_eq_true', not_or, Bool.not_eq_false,
      List.isEmpty_iff] at opened
    constructor
    case reads =>
      intro q reading
      by_cases same : q = p
      · rw [same, update_self] at reading
        cases reading
      · rw [update_of_ne same] at reading
        exact calls.reads q reading
    case none => exact fun _ => opened.2
    case shuts => exact fun _ _ => rfl
    case closed => exact fun _ => rfl

/-- In every run the read end is open while somebody reads. -/
theorem ran_calls (ran : State.Ran (client P) past s) :
    Calls (fun p => (s.thread p).pos.label) s.shared := by
  refine State.Ran.flow ran Calls ?_ ?_
  · rintro shared ⟨data, rfl⟩
    exact ⟨fun _ => False.elim, fun _ => rfl, fun _ => False.elim, fun closed => by cases closed⟩
  intro places shared p killed next shared' calls edge
  generalize here : places p = k at edge
  cases edge with
  | call leads =>
    obtain ⟨reads, shuts⟩ := leads_calls leads
    exact calls.within here reads shuts rfl rfl .inl
  | code instr =>
    by_cases leaving : k = .leave
    · subst leaving
      cases instr
      exact calls.left p
    · obtain ⟨reads, shuts, readers, shut, closed⟩ := code_calls instr killed shared
      exact calls.within here reads shuts (readers leaving) shut closed
  | choose instr entered =>
    subst here
    exact calls.entered entered

/-! ## Debts -/

/-- Who owes the readers a wakeup. -/
def At.OwesReaders : At → Prop
  | .write _ _ true | .writeWake _ _ | .writeDone | .closeWake true => True
  | _ => False

/-- Who owes the writers a wakeup. -/
def At.OwesWriters : At → Prop
  | .read _ _ | .readDone | .closeWake false => True
  | _ => False

/-- A writer that has stored bytes since it last woke readers is killed, and finds the pipe full. -/
def GivesUp (k : At) (killed : Bool) (c : Content) : Prop :=
  ∃ addr i, k = .write addr i true ∧ i < addr.length ∧ c.full = true ∧ c.readopen = true ∧
    killed = true

/-- The debts to the readers. -/
def readerDebt (P : Type) : Debt P At Content where
  owes := fun _ => At.OwesReaders
  pays := fun _ _ => True
  allowed := fun _ k killed c => ¬GivesUp k killed c

/-- The debts to the writers. -/
def writerDebt (P : Type) : Debt P At Content where
  owes := fun _ => At.OwesWriters
  pays := fun _ _ => True
  allowed := fun _ _ _ _ => True

/-- A round of `pipewrite` that is not given up leaves no reader without a wakeup. -/
theorem writeRound_owes {dirty killed : Bool} (careful : ¬GivesUp (.write addr i dirty) killed c)
    (broken : ¬Chan.nread.Rests (c.writeRound addr i killed).1)
    (cause : Chan.nread.Rests c ∨ (At.write addr i dirty).OwesReaders) :
    (c.writeRound addr i killed).2.OwesReaders := by
  unfold Content.writeRound at broken ⊢
  cases more : addr[i]? with
  | none => trivial
  | some byte =>
    simp only [more] at broken ⊢
    by_cases full : c.full = true
    · simp only [if_pos full] at broken ⊢
      split
      · -- The writer gives up: it has stored bytes, because the readers have no reason to sleep.
        rename_i fails
        rw [if_pos fails] at broken
        have owed := cause.resolve_left broken
        have opened : c.readopen = true := by
          by_contra closed
          exact broken (.inl (Bool.not_eq_true _ ▸ closed))
        simp only [opened, Bool.not_true, Bool.false_or] at fails
        cases dirty with
        | false => cases owed
        | true =>
          have within := (List.getElem?_eq_some_iff.mp more).1
          exact absurd ⟨addr, i, rfl, within, full, opened, fails⟩ careful
      · trivial
    · simp only [if_neg full]
      trivial

/-- A reader leaves the others their reason to sleep. -/
theorem readRound_rests (rests : Chan.nread.Rests c) : Chan.nread.Rests (c.readRound n i).1 := by
  unfold Content.readRound
  by_cases more : i < n
  · by_cases drained : c.empty = true
    · simp only [if_pos more, if_pos drained]
      exact rests
    · simp only [if_pos more, if_neg drained]
      rcases rests with closed | ⟨empty, -⟩
      · exact .inl closed
      · exact absurd empty drained
  · simp only [if_neg more]
    exact rests

/-- Writers and `pipeclose` owe the readers a wakeup. -/
theorem readerDebt_valid : (readerDebt P).Valid (outline P) (client P) .nread := by
  constructor
  case run =>
    intro p k code killed shared instr _ _ careful broken cause
    cases k with
    | write addr i dirty =>
      cases instr
      exact writeRound_owes careful broken cause
    | read n i =>
      cases instr
      rcases cause with rests | owed
      · exact absurd (readRound_rests rests) broken
      · cases owed
    | close writable =>
      cases instr
      cases writable with
      | false => exact absurd (.inl rfl) broken
      | true => trivial
    | readWait | closeTest | closeFree | leave =>
      cases instr
      cases cause.resolve_left broken
    | _ => cases instr
  case acquire =>
    intro p k lk next instr owed
    cases k <;> cases instr <;> cases owed
  case release =>
    intro p k lk next instr owed
    cases k <;> cases instr <;> cases owed
  case sleep =>
    intro p k c lk next instr owed
    cases k <;> cases instr <;> cases owed
  case wakeup => exact fun _ _ _ _ _ => trivial
  case wakeupOther =>
    intro p k c next instr other owed
    cases k with
    | writeWake | writeDone =>
      cases instr
      exact absurd rfl other
    | closeWake writable =>
      cases instr
      cases writable with
      | false => cases owed
      | true => exact absurd rfl other
    | _ =>
      cases instr
      all_goals cases owed
  case enter =>
    intro p k next shared shared' _ entered owed
    rw [(enter_some entered).1] at owed
    cases owed

/-- A writer leaves the others their reason to sleep. -/
theorem writeRound_rests {killed : Bool} (rests : Chan.nwrite.Rests c) :
    Chan.nwrite.Rests (c.writeRound addr i killed).1 := by
  unfold Content.writeRound
  cases addr[i]? with
  | none => exact rests
  | some byte =>
    simp only [if_pos rests.1]
    split <;> exact rests

/-- Readers and `pipeclose` owe the writers a wakeup. -/
theorem writerDebt_valid : (writerDebt P).Valid (outline P) (client P) .nwrite := by
  constructor
  case run =>
    intro p k code killed shared instr _ _ _ broken cause
    cases k with
    | write addr i dirty =>
      cases instr
      rcases cause with rests | owed
      · exact absurd (writeRound_rests rests) broken
      · cases owed
    | read n i =>
      cases instr
      dsimp only [Content.readRound]
      repeat' split
      all_goals trivial
    | close writable =>
      cases instr
      cases writable with
      | false => trivial
      | true => cases cause.resolve_left broken
    | readWait | closeTest | closeFree | leave =>
      cases instr
      cases cause.resolve_left broken
    | _ => cases instr
  case acquire =>
    intro p k lk next instr owed
    cases k <;> cases instr <;> cases owed
  case release =>
    intro p k lk next instr owed
    cases k <;> cases instr <;> cases owed
  case sleep =>
    intro p k c lk next instr owed
    cases k <;> cases instr <;> cases owed
  case wakeup => exact fun _ _ _ _ _ => trivial
  case wakeupOther =>
    intro p k c next instr other owed
    cases k with
    | readDone =>
      cases instr
      exact absurd rfl other
    | closeWake writable =>
      cases instr
      cases writable with
      | false => exact absurd rfl other
      | true => cases owed
    | _ =>
      cases instr
      all_goals cases owed
  case enter =>
    intro p k next shared shared' _ entered owed
    rw [(enter_some entered).1] at owed
    cases owed

/-- Where `sleep` is called, and where it returns. -/
theorem sleep_cases {lk : Option (Lock Unit)} (instr : (client P).instr p k = .sleep chan lk next) :
    (∃ addr i, next = .write addr i false) ∧ chan = .nwrite ∨
      (∃ n, next = .readWait n) ∧ chan = .nread := by
  cases k <;> cases instr
  · exact .inl ⟨⟨_, _, rfl⟩, rfl⟩
  · exact .inr ⟨⟨_, rfl⟩, rfl⟩

/-- Debts are made and paid with the lock held. -/
structure Locked (debt : Debt P At Content) : Prop where
  locks : ∀ p k, debt.owes p k → k.locks = some (.own ())
  write : ∀ p addr i, ¬debt.owes p (.write addr i false)
  read : ∀ p n, ¬debt.owes p (.readWait n)

omit [DecidableEq P] in
/-- What a reader owes is settled under the lock of the pipe. -/
theorem readerDebt_locked : Locked (readerDebt P) where
  locks := fun _ k owes => by cases k <;> first | rfl | cases owes
  write := fun _ _ _ => False.elim
  read := fun _ _ => False.elim

omit [DecidableEq P] in
/-- So is what a writer owes. -/
theorem writerDebt_locked : Locked (writerDebt P) where
  locks := fun _ k owes => by cases k <;> first | rfl | cases owes
  write := fun _ _ _ => False.elim
  read := fun _ _ => False.elim

/-- Who owes a wakeup has the lock, also in `wakeup`. -/
theorem Locked.holds (locked : Locked debt) {pos : Pos Unit Chan At}
    (called : pos.Called (client P) p) (owes : debt.Owes chan p pos) :
    pos.Holds At.locks (.own ()) := by
  have resumed {k next : At} {c : Chan} {lk : Option (Lock Unit)}
      (instr : (client P).instr p k = .sleep c lk next) : ¬debt.owes p next := by
    rcases sleep_cases instr with ⟨⟨addr, i, rfl⟩, -⟩ | ⟨⟨n, rfl⟩, -⟩
    · exact locked.write p addr i
    · exact locked.read p n
  cases pos with
  | code k => exact locked.locks p k owes
  | sleepAcquire c lk next | sleepSwitch c lk next | sleepRelease c lk next =>
    obtain ⟨k, instr⟩ := called
    exact absurd owes (resumed instr)
  | switched lk next | sleepTidy lk next | sleepReacquire lk next =>
    obtain ⟨k, c, instr⟩ := called
    exact absurd owes (resumed instr)
  | wakeAcquire c next =>
    obtain ⟨k, instr⟩ := called
    show next.locks = some (.own ())
    cases k <;> cases instr <;> rfl
  | wakeLoop c next =>
    obtain ⟨k, instr⟩ := called
    refine .inl ?_
    cases k <;> cases instr <;> rfl

/-- With the lock free, who sleeps on a channel has a reason. -/
theorem Locked.rests (locked : Locked debt) (ran : State.Ran (client P) past s)
    (watched : debt.Watched (outline P) chan s) (free : s.held (.own ()) = none)
    (asleep : (s.thread p).state = .sleeping) (on : (s.thread p).chan = some chan) :
    chan.Rests s.shared.content := by
  rcases watched p (.inr ⟨asleep, on⟩) with rests | ⟨q, owes⟩
  · exact rests
  · have holds := locked.holds (State.Ran.called ran q) owes
    have held := ((State.Ran.owned disciplined ran).owner _ q).mpr holds
    rw [free] at held
    cases held

/-- While a reader sleeps, the read end is open. -/
theorem readopen_of_asleep (ran : State.Ran (client P) past s)
    (asleep : (s.thread p).state = .sleeping) (on : (s.thread p).chan = some .nread) :
    s.shared.content.readopen = true := by
  obtain ⟨k, chan, lk, next, instr, there, stands⟩ := State.Ran.rests ran p asleep
  obtain rfl := Option.some.inj (there.symm.trans on)
  rcases sleep_cases instr with ⟨-, other⟩ | ⟨⟨n, rfl⟩, -⟩
  · cases other
  have calls := ran_calls ran
  have reader : p ∈ s.shared.readers := by
    apply calls.reads p
    rw [stands]
    trivial
  by_contra closed
  have shut := calls.closed (Bool.not_eq_true _ ▸ closed)
  rw [calls.none shut] at reader
  cases reader

/-- No writer gives up while a reader sleeps, or holds `ptable.lock` to do so. -/
def Careful (s : State P Unit Chan At (Shared P)) (event : Event P At) : Prop :=
  ∀ p k q, event = .run p → (s.thread p).pos = .code k →
    GivesUp k (s.thread p).killed s.shared.content → ¬Debt.Dozes s .nread q

/-- In every run of any readers and writers of a pipe in which no writer that has stored bytes
without a `wakeup` since gives up while a reader sleeps: whenever the lock is free, a process sleeps
on `&p->nread` only if the pipe is empty and the write end is open, and on `&p->nwrite` only if the
pipe is full and the read end is open. -/
theorem pipe_sleepers {past : List (Event P At)} {s : State P Unit Chan At (Shared P)}
    (ran : State.RanWithin (client P) Careful past s) (free : s.held (.own ()) = none) {p : P}
    (asleep : (s.thread p).state = .sleeping) :
    ((s.thread p).chan = some .nread →
        s.shared.content.empty = true ∧ s.shared.content.writeopen = true) ∧
      ((s.thread p).chan = some .nwrite →
        s.shared.content.full = true ∧ s.shared.content.readopen = true) := by
  have history : State.Ran (client P) past s := ran.history
  refine ⟨fun on => ?_, fun on => ?_⟩
  · have watched := readerDebt_valid.ran outline_valid
      (fun s p k q careful stands dozes gives => careful p k q rfl stands gives dozes) ran
    rcases readerDebt_locked.rests history watched free asleep on with closed | rests
    · rw [readopen_of_asleep history asleep on] at closed
      cases closed
    · exact rests
  · have watched := writerDebt_valid.ran outline_valid (fun _ _ _ _ _ _ _ => trivial) ran
    exact writerDebt_locked.rests history watched free asleep on

/-- A run in which nobody is killed is a careful one. -/
theorem ranWithin_of_alive
    (alive : State.RanWithin (client P) (fun s _ => ∀ p, (s.thread p).killed = false) past s) :
    State.RanWithin (client P) Careful past s := by
  refine alive.imp fun past s label alive p k q _ _ gives => ?_
  obtain ⟨addr, i, -, -, -, -, killed⟩ := gives
  rw [alive p] at killed
  cases killed

/-- A reader finds nothing and goes to sleep. -/
theorem pipe_sleepers_reader : ∃ (past : List (Event Bool At))
    (s : State Bool Unit Chan At (Shared Bool)),
    State.RanWithin (client Bool) Careful past s ∧ s.held (.own ()) = none ∧
      (s.thread false).state = .sleeping ∧ (s.thread false).chan = some .nread ∧
      s.shared.content.empty = true ∧ s.shared.content.writeopen = true := by
  have runs : (replayWithin (State.step (client Bool))
    (fun _ s _ => ∀ p, (s.thread p).killed = false)
      [.choose false (.readAcquire 1), .run false, .run false, .run false, .run false, .run false,
        .run false] []
      (State.booted (client Bool) (fresh Bool fun _ => 0))).any (fun s =>
        s.held (.own ()) = none ∧ (s.thread false).state = .sleeping ∧
          (s.thread false).chan = some .nread) = true := by
    decide +kernel
  obtain ⟨s, within, holds⟩ :=
    Within.of_replay (State.booted_initial (client Bool) ⟨_, rfl⟩) runs
  obtain ⟨free, asleep, on⟩ := of_decide_eq_true holds
  have careful := ranWithin_of_alive within
  exact ⟨_, s, careful, free, asleep, on, (pipe_sleepers careful free asleep).1 on⟩

/-! ## A writer that gives up -/

/-- More bytes than fit in a pipe. -/
def excess : List UInt8 := List.replicate (pipeSize + 1) 0

/-- A reader sleeps, and a writer has stored some bytes of `excess`. -/
structure Filled (s : State Bool Unit Chan At (Shared Bool)) (n : Nat) : Prop where
  writer : ∃ dirty, (s.thread true).pos = .code (.write excess n dirty)
  reader : (s.thread false).state = .sleeping ∧ (s.thread false).chan = some .nread
  table : s.held .ptable = none
  counters : s.shared.content.nwrite = UInt32.ofNat n ∧ s.shared.content.nread = 0

/-- The reader has gone to sleep, and the writer has the lock. -/
theorem filled_zero : ∃ past s, State.Ran (client Bool) past s ∧ Filled s 0 := by
  have start : State.Ran (client Bool) [] (State.booted (client Bool) (fresh Bool fun _ => 0)) :=
    .nil (State.booted_initial (client Bool) ⟨_, rfl⟩)
  have runs : ∃ s, replay (State.step (client Bool))
      [.choose false (.readAcquire 1), .run false, .run false, .run false, .run false, .run false,
        .run false, .choose true (.writeAcquire excess), .run true]
      (State.booted (client Bool) (fresh Bool fun _ => 0)) = some s ∧ Filled s 0 :=
    ⟨_, rfl, ⟨false, rfl⟩, ⟨rfl, rfl⟩, rfl, rfl, rfl⟩
  obtain ⟨s, replayed, filled⟩ := runs
  exact ⟨_, s, start.replay replayed, filled⟩

/-- A writer stores one byte more. -/
theorem Filled.store {s : State Bool Unit Chan At (Shared Bool)} (filled : Filled s n)
    (room : n < pipeSize) : ∃ t, s.step (client Bool) (.run true) = some t ∧ Filled t (n + 1) := by
  obtain ⟨dirty, stands⟩ := filled.writer
  obtain ⟨nwrite, nread⟩ := filled.counters
  have more : excess[n]? = some 0 := by
    rw [excess, List.getElem?_replicate_of_lt (by omega)]
  have space : s.shared.content.full = false := by
    unfold Content.full
    rw [nwrite, nread, beq_eq_false_iff_ne, UInt32.zero_add]
    intro same
    rw [← UInt32.toNat_inj, UInt32.toNat_ofNat', UInt32.toNat_ofNat'] at same
    unfold pipeSize at room same
    omega
  have taken : s.step (client Bool) (.run true) = some (State.goto
      { s with shared := { s.shared with content := s.shared.content.store 0 } } true
      (.code (.write excess (n + 1) true))) := by
    simp [State.step, State.advance, stands, State.exec, client, instr, onContent,
      Content.writeRound, more, space]
  refine ⟨_, taken, ?_⟩
  constructor
  case writer => exact ⟨true, State.goto_pos _ _ _⟩
  case reader => exact filled.reader
  case table => exact filled.table
  case counters =>
    refine ⟨?_, nread⟩
    show s.shared.content.nwrite + 1 = UInt32.ofNat (n + 1)
    rw [nwrite, UInt32.ofNat_add]
    rfl

/-- The pipe can be filled up to its end. -/
theorem filled_le (le : n ≤ pipeSize) : ∃ past s, State.Ran (client Bool) past s ∧ Filled s n := by
  induction n with
  | zero => exact filled_zero
  | succ n ih =>
    obtain ⟨past, s, ran, filled⟩ := ih (by omega)
    obtain ⟨t, taken, more⟩ := filled.store (by omega)
    exact ⟨_, t, ran.cons taken, more⟩

/-- A writer is killed after it has filled the pipe and returns; a reader sleeps on, though the pipe
is full and the lock is free. -/
theorem killed_writer_wakes_nobody : ∃ (past : List (Event Bool At))
    (s : State Bool Unit Chan At (Shared Bool)),
    State.Ran (client Bool) past s ∧ s.held (.own ()) = none ∧
      (s.thread false).state = .sleeping ∧ (s.thread false).chan = some .nread ∧
      s.shared.content.empty = false := by
  obtain ⟨past, s, ran, filled⟩ := filled_le (Nat.le_refl _)
  obtain ⟨dirty, stands⟩ := filled.writer
  obtain ⟨nwrite, nread⟩ := filled.counters
  have more : excess[pipeSize]? = some 0 := by
    rw [excess, List.getElem?_replicate_of_lt (Nat.lt_succ_self _)]
  have full : s.shared.content.full = true := by
    unfold Content.full
    rw [nwrite, nread]
    rfl
  have runs : ∃ t, replay (State.step (client Bool)) [.kill true, .run true, .run true] s = some t ∧
      t.held (.own ()) = none ∧ t.thread false = s.thread false ∧ t.shared = s.shared := by
    simp [replay, State.step, State.kill, filled.table, State.advance, stands, State.exec, client,
      instr, onContent, Content.writeRound, more, full, State.goto, State.release, State.setHeld]
  obtain ⟨t, replayed, free, reader, same⟩ := runs
  refine ⟨_, t, ran.replay replayed, free, ?_, ?_, ?_⟩
  · rw [reader]
    exact filled.reader.1
  · rw [reader]
    exact filled.reader.2
  · rw [same]
    unfold Content.empty
    rw [nwrite, nread]
    rfl

end Xv6.Pipe
