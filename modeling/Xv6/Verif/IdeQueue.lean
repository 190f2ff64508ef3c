import Xv6.Kernel.Ide

/-!
# The disk queue

The requests that have arrived and are not completed are the queue, in the order of their arrival. A
process with a request is in `iderw` until the request is completed, and holds the lock of its
buffer, so no buffer is queued twice and no one else changes a queued buffer. The command of the
first buffer is with the controller, and no other.
-/

namespace Xv6.Ide

open Lib
open Function (update update_self update_of_ne)

variable {Process Buffer : Type}

namespace Phase

/-- The buffer that a process has called `iderw` for. -/
def on : Phase Buffer → Option Buffer
  | .out => none
  | .entered b | .asleep b _ | .woken b _ => some b

/-- The request of a process, with its buffer. -/
def ticket : Phase Buffer → Option (Buffer × Nat)
  | .out | .entered _ => none
  | .asleep b request | .woken b request => some (b, request)

/-- Who has a ticket waits for its buffer. -/
theorem on_of_ticket {phase : Phase Buffer} {b : Buffer} {k : Nat}
    (ticket : phase.ticket = some (b, k)) : phase.on = some b := by
  cases phase <;> cases ticket <;> rfl

section Wake

variable [DecidableEq Buffer] {phase : Phase Buffer} {b c : Buffer} {k : Nat}

/-- `wakeup` leaves the ticket. -/
@[simp] theorem wake_ticket : (phase.wake b).ticket = phase.ticket := by
  cases phase with
  | asleep c k => rw [wake]; split <;> rfl
  | _ => rfl

/-- It leaves the buffer. -/
@[simp] theorem wake_on : (phase.wake b).on = phase.on := by
  cases phase with
  | asleep c k => rw [wake]; split <;> rfl
  | _ => rfl

/-- Who is on the way into the queue was not asleep. -/
theorem of_wake_entered (inside : phase.wake b = .entered c) : phase = .entered c := by
  cases phase with
  | asleep d k => rw [wake] at inside; split at inside <;> cases inside
  | _ => exact inside

/-- Who sleeps on waits for another buffer. -/
theorem of_wake_asleep (sleeps : phase.wake b = .asleep c k) : phase = .asleep c k ∧ c ≠ b := by
  cases phase with
  | asleep d k =>
    rw [wake] at sleeps
    split at sleeps
    next => cases sleeps
    next apart =>
      cases sleeps
      exact ⟨rfl, apart⟩
  | _ => cases sleeps

end Wake

end Phase

namespace Buf

variable {b : Buf Process}

/-- The low byte of a number. -/
theorem byte_toNat (x : UInt32) : (x &&& 0xff).toUInt8.toNat = x.toNat % 256 := by
  have mask : x.toNat &&& 255 = x.toNat % 256 := Nat.and_two_pow_sub_one_eq_mod x.toNat 8
  rw [UInt32.toNat_toUInt8, UInt32.toNat_and, show (0xff : UInt32).toNat = 255 from rfl, mask]
  omega

variable (inside : b.blockno.toNat < fsSize)

include inside

/-- The byte with the drive: the sector number ends below its bits. -/
theorem command_drive : b.command.drive = if b.dev.toNat % 2 = 1 then 0xf0 else 0xe0 := by
  have bit : b.dev &&& 1 = if b.dev.toNat % 2 = 1 then 1 else 0 := by
    rw [← UInt32.toNat_inj, UInt32.toNat_and]
    have mask : b.dev.toNat &&& 1 = b.dev.toNat % 2 := Nat.and_one_is_mod _
    rw [show (1 : UInt32).toNat = 1 from rfl, mask]
    split
    next odd => rw [odd]; rfl
    next even =>
      rw [show b.dev.toNat % 2 = 0 by omega]
      rfl
  have top : (b.blockno * UInt32.ofNat (bSize / sectorSize)) >>> 24 = 0 := by
    rw [← UInt32.toNat_inj, show UInt32.ofNat (bSize / sectorSize) = 1 from rfl, UInt32.mul_one,
      UInt32.toNat_shiftRight, Nat.shiftRight_eq_div_pow]
    unfold fsSize at inside
    exact Nat.div_eq_of_lt (Nat.lt_trans inside (by decide))
  simp only [command, bit, top]
  split <;> rfl

/-- The controller is told the block of the buffer. -/
theorem command_sector : b.command.sector = b.blockno.toNat := by
  have whole : b.blockno * UInt32.ofNat (bSize / sectorSize) = b.blockno :=
    UInt32.mul_one b.blockno
  have drive : b.command.drive.toNat % 16 = 0 := by
    rw [command_drive inside]
    split <;> rfl
  have low : b.command.low.toNat = b.blockno.toNat % 256 := by
    simp only [command, whole]
    exact byte_toNat _
  have mid : b.command.mid.toNat = b.blockno.toNat / 256 % 256 := by
    simp only [command, whole]
    rw [byte_toNat, UInt32.toNat_shiftRight, Nat.shiftRight_eq_div_pow]
    rfl
  have high : b.command.high.toNat = b.blockno.toNat / 65536 % 256 := by
    simp only [command, whole]
    rw [byte_toNat, UInt32.toNat_shiftRight, Nat.shiftRight_eq_div_pow]
    rfl
  unfold fsSize at inside
  rw [Command.sector, drive, low, mid, high]
  omega

/-- The controller is told the disk of the buffer. -/
theorem command_disk : b.command.disk = b.dev.toNat % 2 := by
  rw [Command.disk, command_drive inside]
  split
  next odd => rw [odd]; rfl
  next even =>
    rw [show b.dev.toNat % 2 = 0 by omega]
    rfl

end Buf

namespace State

/-- The buffers of the requests that are not completed. -/
def pending (s : State Process Buffer) : List Buffer :=
  (s.arrived.drop s.completed.length).map Prod.snd

end State

/-- What the queue says of one process, at a phase. -/
structure Handles (s : State Process Buffer) (p : Process) (phase : Phase Buffer) : Prop where
  /-- A process in `iderw` holds the lock of its buffer. -/
  holds : ∀ b, phase.on = some b → (s.buf b).lock = some p
  /-- A buffer that is about to be queued has to be read or written. -/
  entered : ∀ b, phase = .entered b → (s.buf b).synced = false
  request : ∀ b k, phase.ticket = some (b, k) → s.arrived[k]? = some (p, b)
  /-- No process sleeps when its request is completed. -/
  asleep : ∀ b k, phase = .asleep b k → s.completed.length ≤ k
  /-- A completed request of a process has made its buffer what the disk has. -/
  done : ∀ b k, phase.ticket = some (b, k) → k < s.completed.length →
    (s.buf b).synced = true ∧ s.completed[k]? = some (b, (s.buf b).data)

/-- The queue and the processes in `iderw`. -/
structure Queued (s : State Process Buffer) : Prop where
  chain : Chain s.qnext s.idequeue s.pending
  /-- Requests are completed in the order of their arrival. -/
  served : s.completed.map Prod.fst = (s.arrived.take s.completed.length).map Prod.snd
  waits : ∀ p b k, s.completed.length ≤ k → s.arrived[k]? = some (p, b) →
    (s.phase p).ticket = some (b, k) ∧ (s.buf b).synced = false
  handles : ∀ p, Handles s p (s.phase p)

/-- A process does not see changes of other buffers, or new requests. -/
theorem Handles.frame {s t : State Process Buffer} {p : Process} {phase : Phase Buffer}
    (handles : Handles s p phase) (buf : ∀ b, phase.on = some b → t.buf b = s.buf b)
    (arrived : ∀ (k : Nat) request, s.arrived[k]? = some request → t.arrived[k]? = some request)
    (completed : t.completed = s.completed) : Handles t p phase where
  holds b uses := buf b uses ▸ handles.holds b uses
  entered b inside := by
    rw [buf b (by rw [inside]; rfl)]
    exact handles.entered b inside
  request b k ticket := arrived k _ (handles.request b k ticket)
  asleep b k sleeps := completed ▸ handles.asleep b k sleeps
  done b k ticket served := by
    rw [buf b (Phase.on_of_ticket ticket), completed]
    exact handles.done b k ticket (completed ▸ served)

/-- What the controller does for the first buffer of the queue. -/
structure Serves (s : State Process Buffer) (b : Buffer) : Prop where
  inside : (s.buf b).blockno.toNat < fsSize
  /-- The controller has the command of the buffer, or has done it. -/
  command : match s.controller with
    | .idle => False
    | .busy c => c = (s.buf b).command
    | .done data => data = s.own b ∧ ((s.buf b).dirty = true → (s.buf b).data = s.own b)

/-- The queue, and the controller. -/
structure Orderly (s : State Process Buffer) : Prop where
  queued : Queued s
  /-- Commands were given for the completed requests and for the first pending one. -/
  started : s.started = s.completed.map Prod.fst ++ s.pending.take 1
  /-- The controller has nothing to do if the queue is empty. -/
  idle : s.pending = [] → s.controller = .idle
  serves : ∀ b, s.pending.head? = some b → Serves s b

namespace Queued

variable {s : State Process Buffer} {p : Process} {b : Buffer}

section

variable (queued : Queued s)

include queued

/-- No more requests are done than have come. -/
theorem length_le : s.completed.length ≤ s.arrived.length := by
  have lengths := congrArg List.length queued.served
  simp only [List.length_map, List.length_take] at lengths
  omega

/-- A pending buffer has a request of a process that waits. -/
theorem of_pending {i : Nat} (pending : s.pending[i]? = some b) :
    ∃ p, (s.phase p).ticket = some (b, s.completed.length + i) ∧ (s.buf b).lock = some p ∧
      (s.buf b).synced = false := by
  rw [State.pending, List.getElem?_map, List.getElem?_drop, Option.map_eq_some_iff] at pending
  obtain ⟨⟨p, c⟩, arrived, same⟩ := pending
  obtain rfl : c = b := same
  obtain ⟨ticket, unsynced⟩ := queued.waits p c _ (Nat.le_add_right _ _) arrived
  exact ⟨p, ticket, (queued.handles p).holds c (Phase.on_of_ticket ticket), unsynced⟩

/-- A buffer is in the queue once. -/
theorem nodup : s.pending.Nodup := by
  rw [List.nodup_iff_getElem?_ne_getElem?]
  intro i j less inside same
  obtain ⟨b, first⟩ : ∃ b, s.pending[i]? = some b :=
    ⟨_, List.getElem?_eq_getElem (Nat.lt_trans less inside)⟩
  obtain ⟨p, ticket, lock, _⟩ := queued.of_pending first
  obtain ⟨q, ticket', lock', _⟩ := queued.of_pending (same ▸ first)
  have one : p = q := Option.some.inj (lock.symm.trans lock')
  rw [← one, ticket] at ticket'
  simp only [Option.some.injEq, Prod.mk.injEq, true_and] at ticket'
  omega

/-- A buffer of which no process has a request is not queued. -/
theorem not_mem (lock : (s.buf b).lock = some p) (none : (s.phase p).ticket = none) :
    b ∉ s.pending := by
  intro member
  obtain ⟨i, place⟩ := List.getElem?_of_mem member
  obtain ⟨q, ticket, lock', _⟩ := queued.of_pending place
  have one : p = q := Option.some.inj (lock.symm.trans lock')
  rw [← one, none] at ticket
  cases ticket

end

variable (queued : Queued s)

include queued

/-- A buffer that no process is in `iderw` for is changed. -/
theorem change [DecidableEq Buffer] (nobody : ∀ p, (s.phase p).on ≠ some b)
    (buf : Buf Process) : Queued { s with buf := update s.buf b buf } := by
  have other (p : Process) (c : Buffer) (uses : (s.phase p).on = some c) :
      update s.buf b buf c = s.buf c := by
    refine update_of_ne ?_ _ _
    rintro rfl
    exact nobody p uses
  refine ⟨queued.chain, queued.served, fun p c k pending arrived => ?_, fun p =>
    (queued.handles p).frame (other p) (fun _ _ => id) rfl⟩
  obtain ⟨ticket, unsynced⟩ := queued.waits p c k pending arrived
  dsimp only
  rw [other p c (Phase.on_of_ticket ticket)]
  exact ⟨ticket, unsynced⟩

/-- A process moves in `iderw`, keeping a request that is not completed. -/
theorem move [DecidableEq Process] {phase : Phase Buffer} (handles : Handles s p phase)
    (kept : ∀ b k, s.completed.length ≤ k → (s.phase p).ticket = some (b, k) →
      (s.buf b).synced = false → phase.ticket = some (b, k)) :
    Queued { s with phase := update s.phase p phase } := by
  refine ⟨queued.chain, queued.served, fun q b k pending arrived => ?_, fun q => ?_⟩
  · obtain ⟨ticket, unsynced⟩ := queued.waits q b k pending arrived
    refine ⟨?_, unsynced⟩
    dsimp only
    by_cases same : q = p
    · subst same
      rw [update_self]
      exact kept b k pending ticket unsynced
    · rw [update_of_ne same]
      exact ticket
  · dsimp only
    by_cases same : q = p
    · subst same
      rw [update_self]
      exact handles.frame (fun _ _ => rfl) (fun _ _ => id) rfl
    · rw [update_of_ne same]
      exact (queued.handles q).frame (fun _ _ => rfl) (fun _ _ => id) rfl

/-- A buffer that is about to be queued is not queued, so the queue does not depend on its link. -/
theorem fresh [DecidableEq Buffer] (inside : s.phase p = .entered b) :
    b ∉ s.pending ∧ Chain (update s.qnext b none) s.idequeue s.pending := by
  have lock := (queued.handles p).holds b (by rw [inside]; rfl)
  have fresh : b ∉ s.pending := queued.not_mem lock (by rw [inside]; rfl)
  refine ⟨fresh, queued.chain.congr fun c member => update_of_ne ?_ _ _⟩
  rintro rfl
  exact fresh member

/-- A request comes to the end of the queue. -/
theorem arrive [DecidableEq Process] [DecidableEq Buffer]
    (inside : s.phase p = .entered b) {head : Option Buffer} {next : Buffer → Option Buffer}
    (stored : (head, next) = storeSlot s.idequeue (update s.qnext b none)
      s.pending.getLast? (some b)) :
    Queued { s with
      idequeue := head
      qnext := next
      arrived := s.arrived ++ [(p, b)]
      phase := update s.phase p (.asleep b s.arrived.length) } := by
  have lock : (s.buf b).lock = some p := (queued.handles p).holds b (by rw [inside]; rfl)
  have unsynced := (queued.handles p).entered b inside
  have served := queued.length_le
  refine ⟨?chain, ?served, ?waits, fun q => ?_⟩
  case chain =>
    obtain ⟨fresh, chain⟩ := queued.fresh inside
    have longer := chain.append queued.nodup fresh (update_self _ _ _)
    rw [← stored] at longer
    dsimp only [State.pending]
    rw [List.drop_append_of_le_length served, List.map_append]
    exact longer
  case served =>
    dsimp only
    rw [List.take_append_of_le_length served]
    exact queued.served
  case waits =>
    intro q c k later arrived
    dsimp only at later arrived ⊢
    by_cases earlier : k < s.arrived.length
    · rw [List.getElem?_append_left earlier] at arrived
      obtain ⟨ticket, unsynced⟩ := queued.waits q c k later arrived
      have apart : q ≠ p := by
        rintro rfl
        rw [inside] at ticket
        cases ticket
      rw [update_of_ne apart]
      exact ⟨ticket, unsynced⟩
    · rw [List.getElem?_append_right (by omega), List.getElem?_singleton] at arrived
      split at arrived
      next zero =>
        cases arrived
        rw [update_self, show k = s.arrived.length by omega]
        exact ⟨rfl, unsynced⟩
      next => cases arrived
  dsimp only
  by_cases same : q = p
  · subst same
    rw [update_self]
    refine ⟨fun c uses => ?_, nofun, fun c k ticket => ?_, fun c k sleeps => ?_,
      fun c k ticket earlier => ?_⟩
    · cases uses
      exact lock
    · cases ticket
      exact List.getElem?_concat_length
    · cases sleeps
      exact served
    · cases ticket
      exact absurd earlier (Nat.not_lt_of_le served)
  · rw [update_of_ne same]
    exact (queued.handles q).frame (fun _ _ => rfl) (fun k _ arrived => by
      rw [List.getElem?_append_left (List.getElem?_eq_some_iff.mp arrived).1, arrived]) rfl

/-- The request of the first buffer is completed. -/
theorem complete [DecidableEq Buffer] {rest : List Buffer} {new : Buf Process}
    (first : s.pending = b :: rest)
    (lock : new.lock = (s.buf b).lock) (synced : new.synced = true) :
    Queued { s with
      idequeue := s.qnext b
      buf := update s.buf b new
      completed := s.completed ++ [(b, new.data)]
      phase := fun p => (s.phase p).wake b } := by
  have head : s.pending[0]? = some b := by rw [first]; rfl
  obtain ⟨p, ticket, held, _⟩ := queued.of_pending head
  have request := (queued.handles p).request b _ ticket
  -- No other process uses the buffer.
  have only (q : Process) (uses : (s.phase q).on = some b) : q = p :=
    Option.some.inj (((queued.handles q).holds b uses).symm.trans held)
  refine ⟨?chain, ?served, ?waits, ?_⟩
  case chain =>
    have chain := queued.chain
    rw [first] at chain
    dsimp only [State.pending]
    rw [List.length_append, List.length_singleton, ← List.tail_drop, List.map_tail]
    rw [State.pending] at first
    rw [first]
    exact chain.2
  case served =>
    dsimp only
    rw [List.map_append, queued.served, List.length_append, List.length_singleton, List.take_add,
      List.map_append]
    rw [State.pending] at first
    rw [List.map_take, List.map_take, first]
    rfl
  case waits =>
    intro q c k later arrived
    simp only [List.length_append, List.length_singleton] at later
    obtain ⟨has, unsynced⟩ := queued.waits q c k (by omega) arrived
    have apart : c ≠ b := by
      rintro rfl
      have one := only q (Phase.on_of_ticket has)
      rw [one, ticket] at has
      simp only [Option.some.injEq, Prod.mk.injEq, true_and] at has
      omega
    simp only [Phase.wake_ticket]
    rw [update_of_ne apart]
    exact ⟨has, unsynced⟩
  refine fun q => ⟨?holds, ?entered, ?request, ?asleep, ?done⟩
  case holds =>
    intro c uses
    rw [Phase.wake_on] at uses
    have holds := (queued.handles q).holds c uses
    by_cases same : c = b
    · subst same
      dsimp only
      rw [update_self, lock]
      exact holds
    · dsimp only
      rw [update_of_ne same]
      exact holds
  case entered =>
    intro c wakes
    have inside := Phase.of_wake_entered wakes
    have apart : c ≠ b := by
      rintro rfl
      have one := only q (by rw [inside]; rfl)
      rw [← one, inside] at ticket
      cases ticket
    dsimp only
    rw [update_of_ne apart]
    exact (queued.handles q).entered c inside
  case request =>
    rw [Phase.wake_ticket]
    exact (queued.handles q).request
  case asleep =>
    intro c k sleeps
    obtain ⟨sleeps, apart⟩ := Phase.of_wake_asleep sleeps
    have later := (queued.handles q).asleep c k sleeps
    have mine := (queued.handles q).request c k (by rw [sleeps]; rfl)
    have other : k ≠ s.completed.length := by
      rintro rfl
      rw [Nat.add_zero] at request
      rw [request] at mine
      cases mine
      exact apart rfl
    simp only [List.length_append, List.length_singleton]
    omega
  case done =>
    intro c k has served
    rw [Phase.wake_ticket] at has
    simp only [List.length_append, List.length_singleton] at served
    by_cases same : c = b
    · subst same
      have one := only q (Phase.on_of_ticket has)
      rw [one, ticket] at has
      simp only [Option.some.injEq, Prod.mk.injEq, true_and, Nat.add_zero] at has
      subst has
      dsimp only
      rw [update_self, List.getElem?_concat_length]
      exact ⟨synced, rfl⟩
    · have earlier : k ≠ s.completed.length := by
        rintro rfl
        have mine := (queued.handles q).request c _ has
        rw [Nat.add_zero] at request
        rw [request] at mine
        cases mine
        exact same rfl
      dsimp only
      rw [update_of_ne same, List.getElem?_append_left (by omega)]
      exact (queued.handles q).done c k has (by omega)

/-- The queue does not depend on the controller and the disks. -/
theorem frame (controller : Controller) (disk : Nat → Disk) (started : List Buffer) :
    Queued { s with controller := controller, disk := disk, started := started } :=
  ⟨queued.chain, queued.served, queued.waits, fun p =>
    (queued.handles p).frame (fun _ _ => rfl) (fun _ _ => id) rfl⟩

end Queued

/-- A result that is there. -/
theorem ok_of_toOption {ε α : Type} {r : Except ε α} {a : α} (result : r.toOption = some a) :
    r = .ok a := by
  cases r with
  | error => cases result
  | ok => cases result; rfl

namespace Orderly

variable {s t : State Process Buffer} {p : Process} {b : Buffer}

/-- A buffer that no process is in `iderw` for is changed. -/
theorem change [DecidableEq Buffer] (orderly : Orderly s) (nobody : ∀ p, (s.phase p).on ≠ some b)
    (buf : Buf Process) : Orderly { s with buf := update s.buf b buf } := by
  refine ⟨orderly.queued.change nobody buf, orderly.started, orderly.idle, ?_⟩
  intro c first
  obtain ⟨inside, command⟩ := orderly.serves c first
  obtain ⟨p, ticket, _⟩ := orderly.queued.of_pending (List.head?_eq_getElem? ▸ first)
  have same : update s.buf b buf c = s.buf c := by
    refine update_of_ne ?_ _ _
    rintro rfl
    exact nobody p (Phase.on_of_ticket ticket)
  constructor
  · dsimp only
    rw [same]
    exact inside
  · simp only [State.own, same]
    exact command

/-- No process is in `iderw` for a buffer that is free. -/
theorem nobody_of_free [DecidableEq Buffer] (orderly : Orderly s) (free : s.free b = true)
    (p : Process) : (s.phase p).on ≠ some b := by
  intro uses
  rw [State.free, (orderly.queued.handles p).holds b uses] at free
  rw [eq_of_beq free] at uses
  cases uses

/-- A process goes on, and the controller does not. -/
theorem move [DecidableEq Process] {phase : Phase Buffer} (orderly : Orderly s)
    (queued : Queued { s with phase := update s.phase p phase }) :
    Orderly { s with phase := update s.phase p phase } :=
  ⟨queued, orderly.started, orderly.idle, fun b first =>
    ⟨(orderly.serves b first).inside, (orderly.serves b first).command⟩⟩

/-- The controller finishes its command. -/
theorem finish {c : Command} (orderly : Orderly s) (busy : s.controller = .busy c) :
    Orderly (s.finish c) := by
  have nonempty : s.pending ≠ [] := fun empty => by
    rw [orderly.idle empty] at busy
    cases busy
  obtain ⟨b, rest, pending⟩ := List.exists_cons_of_ne_nil nonempty
  obtain ⟨inside, command⟩ := orderly.serves b (by rw [pending]; rfl)
  rw [busy] at command
  have command : c = (s.buf b).command := command
  have sector : c.sector = (s.buf b).blockno.toNat := by rw [command, Buf.command_sector inside]
  have disk : c.disk = (s.buf b).dev.toNat % 2 := by rw [command, Buf.command_disk inside]
  have write : c.write = if (s.buf b).dirty then some (s.buf b).data else none := by
    rw [command]
    rfl
  unfold State.finish
  split
  next read =>
    refine ⟨orderly.queued.frame _ s.disk s.started, orderly.started,
      fun empty => absurd empty nonempty, ?_⟩
    intro d first
    have same : s.pending.head? = some d := first
    rw [pending] at same
    cases same
    refine ⟨inside, ?_, ?_⟩
    · rw [sector, disk]
      rfl
    · intro dirty
      rw [write, if_pos dirty] at read
      cases read
  next data wrote =>
    have dirty : (s.buf b).dirty = true ∧ (s.buf b).data = data := by
      rw [write] at wrote
      split at wrote
      next dirty =>
        cases wrote
        exact ⟨dirty, rfl⟩
      next => cases wrote
    refine ⟨orderly.queued.frame _ _ s.started, orderly.started,
      fun empty => absurd empty nonempty, ?_⟩
    intro d first
    have same : s.pending.head? = some d := first
    rw [pending] at same
    cases same
    have written : update s.disk c.disk (update (s.disk c.disk) c.sector data)
        ((s.buf b).dev.toNat % 2) (s.buf b).blockno.toNat = data := by
      rw [← sector, ← disk, update_self, update_self]
    exact ⟨inside, written.symm, fun _ => dirty.2.trans written.symm⟩

/-- `idestart` gives the controller the first request. -/
theorem start {rest : List Buffer} (queued : Queued s)
    (started : s.started = s.completed.map Prod.fst) (pending : s.pending = b :: rest)
    (inside : (s.buf b).blockno.toNat < fsSize) :
    Orderly { s with controller := .busy (s.buf b).command, started := s.started ++ [b] } := by
  refine ⟨queued.frame _ s.disk _, ?_, fun empty => ?_, ?_⟩
  · change s.started ++ [b] = s.completed.map Prod.fst ++ s.pending.take 1
    rw [started, pending]
    rfl
  · have empty : s.pending = [] := empty
    rw [pending] at empty
    cases empty
  · intro c first
    have first : s.pending.head? = some c := first
    rw [pending] at first
    cases first
    exact ⟨inside, rfl⟩

/-- `ideintr` takes the first request from the queue and starts the next, or panics. -/
theorem ideintr [DecidableEq Buffer] {data : Block} (orderly : Orderly s)
    (done : s.controller = .done data) :
    { s with controller := .idle }.ideintr data = .error (.panic "incorrect blockno") ∨
      ∃ t, { s with controller := .idle }.ideintr data = .ok t ∧ Orderly t ∧
        ∃ b, s.idequeue = some b ∧ t.completed = s.completed ++ [(b, s.own b)] ∧
          (t.buf b).data = s.own b := by
  have nonempty : s.pending ≠ [] := fun empty => by
    rw [orderly.idle empty] at done
    cases done
  obtain ⟨b, rest, pending⟩ := List.exists_cons_of_ne_nil nonempty
  obtain ⟨inside, command⟩ := orderly.serves b (by rw [pending]; rfl)
  rw [done] at command
  obtain ⟨read, wrote⟩ := command
  have chain := orderly.queued.chain
  rw [pending] at chain
  obtain ⟨new, new_eq⟩ : ∃ new : Buf Process, new =
      { (if (s.buf b).dirty then s.buf b else { s.buf b with data := data }) with
        valid := true, dirty := false } := ⟨_, rfl⟩
  have filled : new.data = s.own b ∧ new.lock = (s.buf b).lock ∧ new.synced = true := by
    rw [new_eq]
    split
    next dirty => exact ⟨wrote dirty, rfl, rfl⟩
    next => exact ⟨read, rfl, rfl⟩
  obtain ⟨filled, lock, synced⟩ := filled
  obtain ⟨u, u_eq⟩ : ∃ u : State Process Buffer, u =
      { s with
        controller := .idle
        idequeue := s.qnext b
        buf := update s.buf b new
        completed := s.completed ++ [(b, new.data)]
        phase := fun p => (s.phase p).wake b } := ⟨_, rfl⟩
  have queued : Queued u := by
    rw [u_eq]
    exact ((orderly.queued.frame .idle s.disk s.started).complete pending lock synced)
  have rest_eq : u.pending = rest := by
    rw [State.pending] at pending
    rw [u_eq, State.pending]
    dsimp only
    rw [List.length_append, List.length_singleton, ← List.tail_drop, List.map_tail, pending]
    rfl
  have started : u.started = u.completed.map Prod.fst := by
    rw [u_eq]
    dsimp only
    rw [orderly.started, pending, List.map_append]
    rfl
  have run : { s with controller := .idle }.ideintr data =
      if u.idequeue ≠ none then u.idestart u.idequeue else .ok u := by
    have first : s.idequeue = some b := chain.1
    rw [State.ideintr, u_eq, filled]
    dsimp only
    rw [first]
    dsimp only
    rw [← new_eq]
    rfl
  rw [run]
  have answer : ∃ b, s.idequeue = some b ∧ u.completed = s.completed ++ [(b, s.own b)] ∧
      (u.buf b).data = s.own b := by
    refine ⟨b, chain.1, ?_, ?_⟩
    · rw [u_eq, filled]
    · rw [u_eq]
      dsimp only
      rw [update_self, filled]
  have next := queued.chain
  rw [rest_eq] at next
  cases rest with
  | nil =>
    rw [show u.idequeue = none from next, if_neg (not_not.mpr rfl)]
    refine .inr ⟨u, rfl, ⟨queued, ?_, fun _ => by rw [u_eq], ?_⟩, answer⟩
    · rw [started, rest_eq, List.take_nil, List.append_nil]
    · intro c first
      rw [rest_eq] at first
      cases first
  | cons c rest =>
    rw [next.1, if_pos (Option.some_ne_none c), State.idestart]
    split
    next => exact .inl rfl
    next inside =>
      have idle : u.controller = .idle := by rw [u_eq]
      rw [idle]
      exact .inr ⟨_, rfl, start queued started rest_eq (not_le.mp inside), answer⟩

variable [DecidableEq Process]

/-- `iderw` makes its checks. -/
theorem check (orderly : Orderly s) (out : s.phase p = .out) (checked : s.check p b = .ok t) :
    Orderly t := by
  unfold State.check at checked
  split at checked
  next => cases checked
  next lock =>
    split at checked
    next => cases checked
    next unsynced =>
      split at checked
      next => cases checked
      next =>
        cases checked
        refine orderly.move (orderly.queued.move ⟨fun c same => ?_, fun c same => ?_, nofun, nofun,
          nofun⟩ fun c k _ ticket => ?_)
        · cases same
          exact not_not.mp lock
        · cases same
          exact Bool.eq_false_iff.mpr unsynced
        · rw [out] at ticket
          cases ticket

/-- A sleeper may wake without a reason. -/
theorem rouse {k : Nat} (orderly : Orderly s) (sleeps : s.phase p = .asleep b k) :
    Orderly { s with phase := update s.phase p (.woken b k) } := by
  have handles := orderly.queued.handles p
  rw [sleeps] at handles
  refine orderly.move (orderly.queued.move
    ⟨handles.holds, nofun, handles.request, nofun, handles.done⟩ fun c j _ ticket _ => ?_)
  rw [sleeps] at ticket
  exact ticket

/-- A process that is woken looks at its buffer. -/
theorem test {k : Nat} (orderly : Orderly s) (woken : s.phase p = .woken b k) :
    Orderly (s.test p b k) := by
  have handles := orderly.queued.handles p
  rw [woken] at handles
  refine orderly.move (orderly.queued.move ?_ fun c j _ ticket unsynced => ?_)
  · split
    next => exact ⟨nofun, nofun, nofun, nofun, nofun⟩
    next unsynced =>
      refine ⟨handles.holds, nofun, handles.request, fun c j same => ?_, handles.done⟩
      cases same
      by_contra earlier
      exact unsynced (handles.done b k rfl (not_le.mp earlier)).1
  · rw [woken] at ticket
    cases ticket
    rw [if_neg (Bool.eq_false_iff.mp unsynced)]
    rfl

variable [DecidableEq Buffer] [Fintype Buffer]

/-- The part of `iderw` up to where it sleeps. -/
theorem enqueue (orderly : Orderly s) (inside : s.phase p = .entered b) :
    s.enqueue p b = .error (.panic "incorrect blockno") ∨
      ∃ t, s.enqueue p b = .ok t ∧ Orderly t := by
  have queued := orderly.queued
  obtain ⟨fresh, chain⟩ := queued.fresh inside
  have unsynced := (queued.handles p).entered b inside
  have walked := chain.lastSlot_eq (Nat.lt_succ_of_le queued.nodup.length_le_card)
  obtain ⟨head, next, stored⟩ : ∃ head next, (head, next) =
      storeSlot s.idequeue (update s.qnext b none) s.pending.getLast? (some b) :=
    ⟨_, _, rfl⟩
  have arrived := queued.arrive inside stored
  obtain ⟨u, u_eq⟩ : ∃ u : State Process Buffer, u =
      { s with
        idequeue := head
        qnext := next
        arrived := s.arrived ++ [(p, b)]
        phase := update s.phase p (.asleep b s.arrived.length) } := ⟨_, rfl⟩
  rw [← u_eq] at arrived
  have pending : u.pending = s.pending ++ [b] := by
    rw [u_eq, State.pending, State.pending]
    dsimp only
    rw [List.drop_append_of_le_length queued.length_le, List.map_append]
    rfl
  have order := arrived.chain
  rw [pending, show u.idequeue = head by rw [u_eq]] at order
  have tested (v : State Process Buffer) (same : v.buf = s.buf) :
      v.test p b s.arrived.length =
        { v with phase := update v.phase p (.asleep b s.arrived.length) } := by
    rw [State.test, same, unsynced]
    rfl
  rw [State.enqueue]
  dsimp only
  rw [walked]
  dsimp only
  rw [← stored]
  dsimp only
  cases waiting : s.pending with
  | nil =>
    rw [waiting] at order
    rw [if_pos order.1, State.idestart]
    split
    next => exact .inl rfl
    next small =>
      rw [orderly.idle waiting]
      refine .inr ⟨_, rfl, (tested _ ?_).symm ▸ ?_⟩
      · rfl
      have first : u.pending = [b] := by rw [pending, waiting]; rfl
      have started : u.started = u.completed.map Prod.fst := by
        rw [u_eq]
        dsimp only
        rw [orderly.started, waiting, List.take_nil, List.append_nil]
      have done := start arrived started first (by rw [u_eq]; exact not_le.mp small)
      rw [u_eq] at done
      exact done
  | cons c rest =>
    rw [waiting] at order
    have apart : head ≠ some b := by
      rw [order.1]
      intro same
      cases same
      exact fresh (waiting ▸ List.mem_cons_self)
    rw [if_neg apart]
    refine .inr ⟨_, rfl, (tested _ ?_).symm ▸ u_eq ▸ ?_⟩
    · rfl
    refine ⟨arrived, ?_, fun empty => ?_, ?_⟩
    · rw [pending, waiting, show u.started = s.started by rw [u_eq],
        show u.completed = s.completed by rw [u_eq], orderly.started, waiting]
      rfl
    · rw [pending, waiting] at empty
      cases empty
    · intro d first
      rw [pending, waiting] at first
      have serves := orderly.serves d (by rw [waiting]; exact first)
      rw [u_eq]
      exact ⟨serves.inside, serves.command⟩

/-- Every step keeps the order. -/
theorem step {event : Event Process Buffer} (orderly : Orderly s)
    (taken : s.step event = some t) : Orderly t := by
  cases event with
  | lock p b =>
    simp only [State.step] at taken
    split at taken
    next unlocked =>
      cases taken
      refine orderly.change (fun q uses => ?_) _
      rw [(orderly.queued.handles q).holds b uses] at unlocked
      cases unlocked
    next => cases taken
  | unlock b =>
    simp only [State.step] at taken
    split at taken
    next free =>
      cases taken
      exact orderly.change (orderly.nobody_of_free free) _
    next => cases taken
  | change b valid dirty dev blockno data =>
    simp only [State.step] at taken
    split at taken
    next free =>
      cases taken
      exact orderly.change (orderly.nobody_of_free free) _
    next => cases taken
  | call p b =>
    simp only [State.step] at taken
    split at taken
    next out => exact orderly.check out (ok_of_toOption taken)
    next => cases taken
  | enqueue p =>
    simp only [State.step] at taken
    split at taken
    next b inside =>
      have run := ok_of_toOption taken
      obtain panics | ⟨u, ends, kept⟩ := orderly.enqueue inside
      · rw [panics] at run
        cases run
      · rw [ends] at run
        cases run
        exact kept
    next => cases taken
  | rouse p =>
    simp only [State.step] at taken
    split at taken
    next b k sleeps =>
      cases taken
      exact orderly.rouse sleeps
    next => cases taken
  | resume p =>
    simp only [State.step] at taken
    split at taken
    next b k woken =>
      cases taken
      exact orderly.test woken
    next => cases taken
  | finish =>
    simp only [State.step] at taken
    split at taken
    next c busy =>
      cases taken
      exact orderly.finish busy
    next => cases taken
  | intr =>
    simp only [State.step] at taken
    split at taken
    next data done =>
      have run := ok_of_toOption taken
      obtain panics | ⟨u, ends, kept, _⟩ := orderly.ideintr done
      · rw [panics] at run
        cases run
      · rw [ends] at run
        cases run
        exact kept
    next => cases taken

/-- So does every run. -/
theorem of_ran {past : List (Event Process Buffer)} (ran : State.Ran past s) : Orderly s := by
  refine ran.invariant (fun _ s => Orderly s) (fun s initial => ?_) fun _ _ _ _ _ orderly taken =>
    orderly.step taken
  obtain ⟨empty, out, idle, arrived, started, completed⟩ := initial
  have pending : s.pending = [] := by rw [State.pending, arrived, List.drop_nil]; rfl
  refine ⟨?_, ?_, fun _ => idle, ?_⟩
  · refine ⟨by rw [pending]; exact empty, by rw [completed, arrived]; rfl, ?_, fun p => ?_⟩
    · intro p b k _ request
      rw [arrived] at request
      cases request
    · rw [out p]
      exact ⟨nofun, nofun, nofun, nofun, nofun⟩
  · rw [started, completed, pending]; rfl
  · intro b first
    rw [pending] at first
    cases first

end Orderly

variable [DecidableEq Process] [DecidableEq Buffer] [Fintype Buffer]
  {past : List (Event Process Buffer)} {s : State Process Buffer}

/-- The disk queue. The queue is the list of the requests that have arrived and are not completed,
in the order of their arrival, each buffer once; commands were given for the completed ones and the
first of the queue. An interrupt completes the first, and leaves in its buffer what its block on the
disk has. When `iderw` returns, its own request is completed and the buffer is still as it was then.
Neither the walk to the end of the queue nor the wait for the controller is endless. -/
theorem ide_queue_fifo (ran : State.Ran past s) :
    (∃ pending : List Buffer, Chain s.qnext s.idequeue pending ∧ pending.Nodup ∧
      s.arrived.map Prod.snd = s.completed.map Prod.fst ++ pending ∧
      s.started = s.completed.map Prod.fst ++ pending.take 1) ∧
    (∀ t, s.step .intr = some t → ∃ b, s.idequeue = some b ∧
      t.completed = s.completed ++ [(b, s.own b)] ∧ (t.buf b).data = s.own b) ∧
    (∀ p b k t, s.phase p = .woken b k → s.step (.resume p) = some t → t.phase p = .out →
      s.arrived[k]? = some (p, b) ∧ s.completed[k]? = some (b, (s.buf b).data)) ∧
    (∀ p b, s.phase p = .entered b → s.enqueue p b ≠ .error .spins) ∧
    ∀ data, s.controller = .done data →
      { s with controller := .idle }.ideintr data ≠ .error .spins := by
  have orderly := Orderly.of_ran ran
  have queued := orderly.queued
  refine ⟨⟨s.pending, queued.chain, queued.nodup, ?_, orderly.started⟩, ?_, ?_, ?_, ?_⟩
  · rw [queued.served, State.pending, ← List.map_append, List.take_append_drop]
  · intro t taken
    simp only [State.step] at taken
    split at taken
    next data done =>
      have run := ok_of_toOption taken
      obtain panics | ⟨u, ends, _, answer⟩ := orderly.ideintr done
      · rw [panics] at run
        cases run
      · rw [ends] at run
        cases run
        exact answer
    next => cases taken
  · intro p b k t woken taken returned
    have ticket : (s.phase p).ticket = some (b, k) := by rw [woken]; rfl
    have request := (queued.handles p).request b k ticket
    simp only [State.step, woken, Option.some.injEq] at taken
    rw [← taken, State.test] at returned
    dsimp only at returned
    rw [update_self] at returned
    split at returned
    next synced =>
      refine ⟨request, ((queued.handles p).done b k ticket ?_).2⟩
      by_contra later
      have unsynced := (queued.waits p b k (not_lt.mp later) request).2
      rw [synced] at unsynced
      cases unsynced
    next => cases returned
  · intro p b inside spins
    obtain panics | ⟨t, ends, _⟩ := orderly.enqueue inside
    · rw [panics] at spins
      cases spins
    · rw [ends] at spins
      cases spins
  · intro data done spins
    obtain panics | ⟨t, ends, _⟩ := orderly.ideintr done
    · rw [panics] at spins
      cases spins
    · rw [ends] at spins
      cases spins

/-- A driver with one buffer for each of two processes. -/
def twoBuffers : State Bool Bool where
  buf := fun b => ⟨false, false, 1, if b then 7 else 8, some b, Bytes.zero⟩
  idequeue := none
  qnext := fun _ => none
  havedisk1 := true
  phase := fun _ => .out
  controller := .idle
  disk := fun _ _ => Bytes.zero
  arrived := []
  started := []
  completed := []

/-- Two reads, of which the first is completed and returns. -/
def twoReads : List (Event Bool Bool) :=
  [.call true true, .call false false, .enqueue false, .enqueue true, .finish, .intr,
    .resume false]

/-- Two reads, of which one is done. -/
theorem ide_queue_fifo_twoReads :
    ∃ s, State.Ran twoReads.reverse s ∧ s.completed.length = 1 ∧
      ∃ pending, Chain s.qnext s.idequeue pending ∧
        s.arrived.map Prod.snd = s.completed.map Prod.fst ++ pending := by
  have initial : State.Initial twoBuffers := ⟨rfl, fun _ => rfl, rfl, rfl, rfl, rfl⟩
  have run : (replay State.step twoReads twoBuffers).any (fun s => s.completed.length == 1) =
      true := rfl
  obtain ⟨s, ran, completed⟩ := History.of_replay initial run
  obtain ⟨⟨pending, chain, _, order, _⟩, _⟩ := ide_queue_fifo ran
  exact ⟨s, ran, eq_of_beq completed, pending, chain, order⟩

end Xv6.Ide
