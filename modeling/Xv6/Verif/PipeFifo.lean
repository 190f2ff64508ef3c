import Xv6.Kernel.Pipe
import Xv6.Verif.SleepOutline

/-!
# A pipe is a queue

The invariant of a pipe relates its counters and its ring to the bytes that have been stored and
removed: the counters are the numbers of these bytes modulo `2 ^ 32`, the removed bytes are the
first of the stored ones, at most `PIPESIZE` are left, and those are in the ring. The ring index of
a byte is its number modulo `PIPESIZE`, because `PIPESIZE` divides `2 ^ 32`.
-/

namespace Xv6.Pipe

open Lib Sleep Function

/-! ## The ring -/

/-- The pipe holds the bytes that were stored and not removed. -/
structure Queue (c : Content) : Prop where
  nwrite : c.nwrite = UInt32.ofNat c.stored.length
  nread : c.nread = UInt32.ofNat c.removed.length
  first : c.removed <+: c.stored
  room : c.stored.length ≤ c.removed.length + pipeSize
  ring : ∀ k byte, c.removed.length ≤ k → c.stored[k]? = some byte →
    c.data (k % pipeSize) = byte

namespace Queue

variable {c : Content}

/-- Not more bytes are removed than stored. -/
theorem le (queue : Queue c) : c.removed.length ≤ c.stored.length := queue.first.length_le

/-- The pipe is full. -/
theorem full_iff (queue : Queue c) :
    c.full = true ↔ c.stored.length = c.removed.length + pipeSize := by
  have le := queue.le
  have room := queue.room
  unfold Content.full
  rw [queue.nwrite, queue.nread, beq_iff_eq, ← UInt32.ofNat_add, ← UInt32.toNat_inj,
    UInt32.toNat_ofNat', UInt32.toNat_ofNat']
  unfold pipeSize at *
  omega

/-- It is empty. -/
theorem empty_iff (queue : Queue c) : c.empty = true ↔ c.stored.length = c.removed.length := by
  have le := queue.le
  have room := queue.room
  unfold Content.empty
  rw [queue.nwrite, queue.nread, beq_iff_eq, ← UInt32.toNat_inj, UInt32.toNat_ofNat',
    UInt32.toNat_ofNat']
  unfold pipeSize at *
  omega

/-- The counters subtract as numbers do. -/
theorem count (queue : Queue c) :
    (c.nwrite - c.nread).toNat = c.stored.length - c.removed.length := by
  have le := queue.le
  have room := queue.room
  rw [queue.nwrite, queue.nread, UInt32.toNat_sub, UInt32.toNat_ofNat', UInt32.toNat_ofNat']
  unfold pipeSize at *
  omega

/-- The slot of a counter. -/
theorem index (n : Nat) : (UInt32.ofNat n).toNat % pipeSize = n % pipeSize := by
  rw [UInt32.toNat_ofNat']
  unfold pipeSize
  omega

/-- A byte is stored in a pipe that is not full. -/
theorem store (queue : Queue c) (room : ¬c.full = true) (byte : UInt8) : Queue (c.store byte) := by
  have le := queue.le
  have space := queue.room
  rw [queue.full_iff] at room
  constructor
  case nwrite =>
    show c.nwrite + 1 = UInt32.ofNat (c.stored ++ [byte]).length
    rw [List.length_append, queue.nwrite, List.length_singleton, UInt32.ofNat_add]
    rfl
  case nread => exact queue.nread
  case first => exact queue.first.trans (List.prefix_append _ _)
  case room =>
    show (c.stored ++ [byte]).length ≤ c.removed.length + pipeSize
    rw [List.length_append, List.length_singleton]
    omega
  case ring =>
    intro k b later stored
    change (c.stored ++ [byte])[k]? = some b at stored
    show update c.data (c.nwrite.toNat % pipeSize) byte (k % pipeSize) = b
    rw [queue.nwrite, index]
    by_cases here : k < c.stored.length
    · -- An old byte is not in the place of the new one.
      rw [List.getElem?_append_left here] at stored
      have apart : k % pipeSize ≠ c.stored.length % pipeSize := by
        change c.removed.length ≤ k at later
        unfold pipeSize at *
        omega
      rw [update_of_ne apart]
      exact queue.ring k b later stored
    · have last : k = c.stored.length := by
        have bound := (List.getElem?_eq_some_iff.mp stored).1
        rw [List.length_append, List.length_singleton] at bound
        omega
      subst last
      rw [List.getElem?_append_right (Nat.le_refl _), Nat.sub_self] at stored
      rw [update_self]
      exact Option.some.inj stored

/-- A byte is taken from a pipe that is not empty. -/
theorem take (queue : Queue c) (nonempty : ¬c.empty = true) : Queue c.take := by
  have le := queue.le
  rw [queue.empty_iff] at nonempty
  have less : c.removed.length < c.stored.length := by omega
  have byte : c.data (c.nread.toNat % pipeSize) = c.stored[c.removed.length] := by
    rw [queue.nread, index]
    exact queue.ring _ _ (Nat.le_refl _) (List.getElem?_eq_getElem less)
  constructor
  case nwrite => exact queue.nwrite
  case nread =>
    show c.nread + 1 = UInt32.ofNat (c.removed ++ [_]).length
    rw [List.length_append, queue.nread, List.length_singleton, UInt32.ofNat_add]
    rfl
  case first =>
    show c.removed ++ [c.data (c.nread.toNat % pipeSize)] <+: c.stored
    rw [byte]
    have removed := List.prefix_iff_eq_take.mp queue.first
    have next : c.removed ++ [c.stored[c.removed.length]] =
        c.stored.take (c.removed.length + 1) := by
      rw [List.take_add_one, ← removed, List.getElem?_eq_getElem less]
      rfl
    rw [next]
    exact List.take_prefix _ _
  case room =>
    show c.stored.length ≤ (c.removed ++ [_]).length + pipeSize
    have room := queue.room
    rw [List.length_append]
    omega
  case ring =>
    intro k b later stored
    change (c.removed ++ [_]).length ≤ k at later
    rw [List.length_append] at later
    exact queue.ring k b (by omega) stored

end Queue

/-- A new pipe is empty. -/
theorem fresh_queue (P : Type) (data : Nat → UInt8) : Queue (fresh P data).content where
  nwrite := rfl
  nread := rfl
  first := List.prefix_rfl
  room := Nat.zero_le _
  ring := fun _ _ _ stored => by cases stored

/-! ## The code -/

/-- The lock held at a position. -/
def At.locks : At → Option (Lock Unit)
  | .idle | .writeAcquire _ | .readAcquire _ | .closeAcquire _ | .closeFree | .leave => none
  | _ => some (.own ())

/-- What a process knows when it is about to sleep. -/
def At.Knows : At → Content → Prop
  | .writeWake _ _, c | .writeSleep _ _, c => c.full = true ∧ c.readopen = true
  | .readSleep _, c => c.empty = true ∧ c.writeopen = true
  | _, _ => True

/-- Why a process may sleep: a reader also when the read end is closed, because then it is not
woken. -/
def Chan.Rests : Chan → Content → Prop
  | .nread, c => c.readopen = false ∨ c.empty = true ∧ c.writeopen = true
  | .nwrite, c => c.full = true ∧ c.readopen = true

/-- A round of `pipewrite` keeps the queue. -/
theorem writeRound_queue {c : Content} (queue : Queue c) (addr : List UInt8) (i : Nat)
    (killed : Bool) :
    Queue (c.writeRound addr i killed).1 ∧
      (c.writeRound addr i killed).2.Knows (c.writeRound addr i killed).1 := by
  unfold Content.writeRound
  cases addr[i]? with
  | none => exact ⟨queue, trivial⟩
  | some byte =>
    by_cases full : c.full = true
    · simp only [if_pos full]
      split
      · exact ⟨queue, trivial⟩
      · rename_i opened
        simp only [Bool.or_eq_true, Bool.not_eq_true', not_or, Bool.not_eq_false] at opened
        exact ⟨queue, full, opened.1⟩
    · simp only [if_neg full]
      exact ⟨queue.store full byte, trivial⟩

/-- The test of `piperead` says what it finds. -/
theorem readTest_knows (c : Content) (n : Nat) (killed : Bool) : (c.readTest n killed).Knows c := by
  unfold Content.readTest
  by_cases waits : (c.empty && c.writeopen) = true
  · simp only [if_pos waits]
    cases killed with
    | false => exact (Bool.and_eq_true _ _).mp waits
    | true => trivial
  · simp only [if_neg waits]
    trivial

/-- A round of `piperead` keeps the queue. -/
theorem readRound_queue {c : Content} (queue : Queue c) (n i : Nat) :
    Queue (c.readRound n i).1 ∧ (c.readRound n i).2.Knows (c.readRound n i).1 := by
  unfold Content.readRound
  by_cases more : i < n
  · by_cases drained : c.empty = true
    · simp only [if_pos more, if_pos drained]
      exact ⟨queue, trivial⟩
    · simp only [if_pos more, if_neg drained]
      exact ⟨queue.take drained, trivial⟩
  · simp only [if_neg more]
    exact ⟨queue, trivial⟩

/-- Closing an end leaves what is in the pipe. -/
theorem shut_queue {c : Content} (queue : Queue c) (writable : Bool) : Queue (c.shut writable) := by
  cases writable
  all_goals exact ⟨queue.nwrite, queue.nread, queue.first, queue.room, queue.ring⟩

variable {P : Type}

/-- A call starts with acquiring the lock, and does not touch the pipe. -/
theorem enter_some {p : P} {k next : At} {shared shared' : Shared P}
    (entered : enter p k next shared = some shared') :
    k = .idle ∧ ((∃ addr, next = .writeAcquire addr) ∨ (∃ n, next = .readAcquire n) ∨
      ∃ writable, next = .closeAcquire writable) ∧ shared'.content = shared.content := by
  unfold enter at entered
  split at entered
  case h_5 => cases entered
  all_goals
    obtain ⟨-, made⟩ := Option.ite_none_left_eq_some.mp entered
    cases made
  · exact ⟨rfl, .inl ⟨_, rfl⟩, rfl⟩
  · exact ⟨rfl, .inr (.inl ⟨_, rfl⟩), rfl⟩
  · exact ⟨rfl, .inr (.inr ⟨_, rfl⟩), rfl⟩
  · exact ⟨rfl, .inr (.inr ⟨_, rfl⟩), rfl⟩

/-- Nothing is known at the start of a call. -/
theorem entered_at {p : P} {k next : At} {shared shared' : Shared P}
    (entered : enter p k next shared = some shared') :
    next.locks = k.locks ∧ ∀ c, next.Knows c := by
  obtain ⟨rfl, call, -⟩ := enter_some entered
  rcases call with ⟨addr, rfl⟩ | ⟨n, rfl⟩ | ⟨writable, rfl⟩
  all_goals exact ⟨rfl, fun _ => trivial⟩

/-- The outline. -/
def outline (P : Type) : Outline P Unit Chan At (Shared P) Content where
  locks := At.locks
  guard := ()
  view := Shared.content
  inv := Queue
  knows := fun _ => At.Knows
  rests := Chan.Rests

variable [DecidableEq P]

/-- The code does not change which locks are held. -/
theorem code_locks {p : P} {k : At} {code : Bool → Shared P → Shared P × At}
    (instr : (client P).instr p k = .run code) (killed : Bool) (shared : Shared P) :
    (code killed shared).2.locks = k.locks := by
  cases k with
  | write addr i dirty =>
    cases instr
    dsimp only [Content.writeRound]
    repeat' split
    all_goals rfl
  | readWait n =>
    cases instr
    dsimp only [Content.readTest]
    repeat' split
    all_goals rfl
  | read n i =>
    cases instr
    dsimp only [Content.readRound]
    repeat' split
    all_goals rfl
  | closeTest =>
    cases instr
    dsimp only
    split <;> rfl
  | close | closeFree | leave =>
    cases instr
    rfl
  | _ => cases instr

/-- Code keeps the queue, and changes the pipe only with the lock. -/
theorem code_queue {p : P} {k : At} {code : Bool → Shared P → Shared P × At}
    (instr : (client P).instr p k = .run code) (killed : Bool) (shared : Shared P)
    (queue : Queue shared.content) :
    Queue (code killed shared).1.content ∧
      (code killed shared).2.Knows (code killed shared).1.content ∧
      (k.locks ≠ some (.own ()) → (code killed shared).1.content = shared.content) := by
  cases k with
  | write addr i dirty =>
    cases instr
    obtain ⟨kept, knows⟩ := writeRound_queue queue addr i killed
    exact ⟨kept, knows, fun free => absurd rfl free⟩
  | readWait n =>
    cases instr
    exact ⟨queue, readTest_knows shared.content n killed, fun _ => rfl⟩
  | read n i =>
    cases instr
    obtain ⟨kept, knows⟩ := readRound_queue queue n i
    exact ⟨kept, knows, fun free => absurd rfl free⟩
  | close writable =>
    cases instr
    exact ⟨shut_queue queue writable, trivial, fun free => absurd rfl free⟩
  | closeTest =>
    cases instr
    dsimp only
    split
    all_goals exact ⟨queue, trivial, fun _ => rfl⟩
  | closeFree | leave =>
    cases instr
    exact ⟨queue, trivial, fun _ => rfl⟩
  | _ => cases instr

/-- The lock is acquired and released in pairs. -/
theorem disciplined : Disciplined (client P) At.locks := by
  constructor
  case start => rfl
  case acquire =>
    intro p k lk next instr
    cases k <;> cases instr
    all_goals exact ⟨rfl, rfl⟩
  case release =>
    intro p k lk next instr
    cases k <;> cases instr
    all_goals exact ⟨rfl, rfl⟩
  case sleep =>
    intro p k chan lk next instr
    cases k <;> cases instr
    all_goals exact ⟨rfl, rfl⟩
  case wakeup =>
    intro p k chan next instr
    cases k <;> cases instr
    all_goals exact ⟨by simp [At.locks], rfl⟩
  case run => exact fun p k code killed shared instr => code_locks instr killed shared
  case enter => exact fun p k next shared shared' _ entered => (entered_at entered).1

/-- The outline describes the code. -/
theorem outline_valid : (outline P).Valid (client P) := by
  constructor
  case disciplined => exact disciplined
  case initial =>
    rintro shared ⟨data, rfl⟩
    exact fresh_queue P data
  case free =>
    intro p k c without _
    cases k with
    | writeWake | writeSleep | readSleep => exact absurd rfl without
    | _ => trivial
  case run => exact fun p k code killed shared instr queue _ => code_queue instr killed shared queue
  case acquire =>
    intro p k lk next instr
    cases k <;> cases instr
    all_goals exact fun _ _ => trivial
  case sleep =>
    intro p k chan lk next instr
    cases k <;> cases instr
    · exact ⟨rfl, fun _ _ knows => knows, fun _ _ => trivial⟩
    · exact ⟨rfl, fun _ _ knows => .inr knows, fun _ _ => trivial⟩
  case wakeup =>
    intro p k chan next instr
    cases k <;> cases instr
    case writeWake => exact fun _ _ knows => knows
    all_goals exact fun _ _ _ => trivial
  case enter =>
    intro p k next shared shared' _ entered
    exact ⟨(enter_some entered).2.2, fun c _ _ => (entered_at entered).2 c⟩

/-- In every run of any readers and writers of a pipe: the counters differ, modulo `2 ^ 32`, by at
most `PIPESIZE`; the bytes removed are the first of the bytes stored, in their order; and each byte
that is stored and not removed is in its place in the ring. -/
theorem pipe_fifo {past : List (Event P At)} {s : State P Unit Chan At (Shared P)}
    (ran : State.Ran (client P) past s) :
    (s.shared.content.nwrite - s.shared.content.nread).toNat =
        s.shared.content.stored.length - s.shared.content.removed.length ∧
      (s.shared.content.nwrite - s.shared.content.nread).toNat ≤ pipeSize ∧
      s.shared.content.removed <+: s.shared.content.stored ∧
      ∀ k byte, s.shared.content.removed.length ≤ k → s.shared.content.stored[k]? = some byte →
        s.shared.content.data (k % pipeSize) = byte := by
  have queue : Queue s.shared.content := (outline_valid.ran ran).inv
  have room := queue.room
  refine ⟨queue.count, ?_, queue.first, queue.ring⟩
  rw [queue.count]
  omega

/-- One byte goes through the pipe. -/
theorem pipe_fifo_byte : ∃ (past : List (Event Bool At))
    (s : State Bool Unit Chan At (Shared Bool)),
    State.Ran (client Bool) past s ∧ s.shared.content.removed = [7] ∧
      s.shared.content.removed <+: s.shared.content.stored := by
  have runs : (replay (State.step (client Bool))
      [.choose false (.writeAcquire [7, 8]), .run false, .run false, .run false, .run false,
        .run false, .run false, .run false, .run false, .choose true (.readAcquire 1), .run true,
        .run true, .run true]
      (State.booted (client Bool) (fresh Bool fun _ => 0))).any (fun s =>
        s.shared.content.removed = [7]) = true := by
    decide +kernel
  obtain ⟨s, ran, holds⟩ := History.of_replay (State.booted_initial (client Bool) ⟨_, rfl⟩) runs
  exact ⟨_, s, ran, of_decide_eq_true holds, (pipe_fifo ran).2.2.1⟩

end Xv6.Pipe
