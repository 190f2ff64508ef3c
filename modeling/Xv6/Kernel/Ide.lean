import Mathlib.Data.Fintype.Card
import Xv6.Lib.Chain
import Xv6.Lib.Transition
import Xv6.Kernel.Param

/-!
# The disk driver

`ide.c` and the disk controller. The queue is kept as `idequeue` and the `qnext` pointers. The parts
of `iderw` and `ideintr` under `idelock` are one step each. The controller works on one command at a
time, raises one interrupt when it is done and reports no error. A buffer belongs to the process
that holds its sleep lock; the rest of the kernel changes a buffer only while its holder is not in
`iderw`. A panic or an endless loop stops the machine, so no step follows it.

The lists `arrived`, `started` and `completed` are not in the source: they record what happened.
-/

namespace Xv6.Ide

open Lib Function

/-- `struct buf`, its two flag bits as booleans and `qnext` apart. -/
structure Buf (Process : Type) where
  /-- `B_VALID`: buffer has been read from disk. -/
  valid : Bool
  /-- `B_DIRTY`: buffer needs to be written to disk. -/
  dirty : Bool
  dev : UInt32
  blockno : UInt32
  lock : Option Process
  data : Block

/-- `(b->flags & (B_VALID|B_DIRTY)) == B_VALID`. -/
def Buf.synced {Process : Type} (b : Buf Process) : Bool := b.valid && !b.dirty

/-- What `idestart` writes to the ports of the controller. -/
structure Command where
  /-- Number of sectors. -/
  count : UInt8
  /-- The low byte of the sector number. -/
  low : UInt8
  mid : UInt8
  high : UInt8
  /-- The drive, and the top of the sector number. -/
  drive : UInt8
  /-- The data of a write command. -/
  write : Option Block

/-- The sector the controller is told. -/
def Command.sector (c : Command) : Nat :=
  c.low.toNat + 2 ^ 8 * c.mid.toNat + 2 ^ 16 * c.high.toNat + 2 ^ 24 * (c.drive.toNat % 16)

/-- The disk the controller is told: 0 or 1. -/
def Command.disk (c : Command) : Nat := c.drive.toNat / 16 % 2

/-- `SECTOR_SIZE`. -/
def sectorSize : Nat := 512

/-- The command of `idestart` for a buffer. -/
def Buf.command {Process : Type} (b : Buf Process) : Command :=
  let sectorPerBlock := UInt32.ofNat (bSize / sectorSize)
  let sector := b.blockno * sectorPerBlock
  { count := sectorPerBlock.toUInt8
    low := (sector &&& 0xff).toUInt8
    mid := ((sector >>> 8) &&& 0xff).toUInt8
    high := ((sector >>> 16) &&& 0xff).toUInt8
    drive := ((0xe0 : UInt32) ||| ((b.dev &&& 1) <<< 4) ||| ((sector >>> 24) &&& 0x0f)).toUInt8
    write := if b.dirty then some b.data else none }

/-- The controller. -/
inductive Controller where
  | idle
  | busy (c : Command)
  /-- Done, with the interrupt raised, and the data that `insl` reads. -/
  | done (data : Block)

/-- Where a process is. The number of an arrived request is not in the source. -/
inductive Phase (Buffer : Type) where
  | out
  /-- In `iderw`, past the checks. -/
  | entered (b : Buffer)
  | asleep (b : Buffer) (request : Nat)
  /-- Woken, about to test the flags. -/
  | woken (b : Buffer) (request : Nat)
  deriving DecidableEq

/-- A process that sleeps on the buffer is woken. -/
def Phase.wake {Buffer : Type} [DecidableEq Buffer] (b : Buffer) : Phase Buffer → Phase Buffer
  | .asleep c request => if c = b then .woken c request else .asleep c request
  | .out => .out
  | .entered c => .entered c
  | .woken c request => .woken c request

/-- The driver, the disks, and the processes. -/
structure State (Process Buffer : Type) where
  buf : Buffer → Buf Process
  idequeue : Option Buffer
  qnext : Buffer → Option Buffer
  havedisk1 : Bool
  phase : Process → Phase Buffer
  controller : Controller
  disk : Nat → Disk
  /-- The requests in the order of their arrival in the queue. -/
  arrived : List (Process × Buffer)
  /-- The buffers for which a command was given, in order. -/
  started : List Buffer
  /-- The buffers whose request was completed, in order, with their block on the disk at that
  time. -/
  completed : List (Buffer × Block)

/-- Why the machine stops. -/
inductive Halt where
  | panic (message : String)
  /-- A loop that does not end. -/
  | spins

namespace State

variable {Process Buffer : Type} [DecidableEq Process] [DecidableEq Buffer]

/-- The block of a buffer on the disk. -/
def own (s : State Process Buffer) (b : Buffer) : Block :=
  s.disk ((s.buf b).dev.toNat % 2) (s.buf b).blockno.toNat

/-- `idestart`. The check of `sector_per_block` compares constants. -/
def idestart (s : State Process Buffer) : Option Buffer → Except Halt (State Process Buffer)
  | none => .error (.panic "idestart")
  | some b =>
    if fsSize ≤ (s.buf b).blockno.toNat then .error (.panic "incorrect blockno")
    else
      match s.controller with
      -- `idewait(0)` waits for a controller that is not busy.
      | .busy _ => .error .spins
      | .idle | .done _ =>
        .ok { s with controller := .busy (s.buf b).command, started := s.started ++ [b] }

/-- `wakeup`. -/
def wakeup (s : State Process Buffer) (b : Buffer) : State Process Buffer :=
  { s with phase := fun p => (s.phase p).wake b }

/-- `ideintr`, given the data that `insl` reads. -/
def ideintr (s : State Process Buffer) (data : Block) : Except Halt (State Process Buffer) :=
  match s.idequeue with
  | none => .ok s
  | some b =>
    let buf := s.buf b
    let buf := if buf.dirty then buf else { buf with data := data }
    let s := { s with
      idequeue := s.qnext b
      buf := update s.buf b { buf with valid := true, dirty := false }
      completed := s.completed ++ [(b, s.own b)] }
    let s := s.wakeup b
    if s.idequeue ≠ none then s.idestart s.idequeue else .ok s

/-- The checks at the start of `iderw`. -/
def check (s : State Process Buffer) (p : Process) (b : Buffer) :
    Except Halt (State Process Buffer) :=
  if (s.buf b).lock ≠ some p then .error (.panic "iderw: buf not locked")
  else if (s.buf b).synced then .error (.panic "iderw: nothing to do")
  else if (s.buf b).dev ≠ 0 ∧ ¬s.havedisk1 then
    .error (.panic "iderw: ide disk 1 not present")
  else .ok { s with phase := update s.phase p (.entered b) }

/-- The test of the flags in `iderw`, which sleeps or returns. -/
def test (s : State Process Buffer) (p : Process) (b : Buffer) (request : Nat) :
    State Process Buffer :=
  let phase := if (s.buf b).synced then .out else .asleep b request
  { s with phase := update s.phase p phase }

variable [Fintype Buffer]

/-- `iderw` from `acquire` on: append to the queue, start the disk if necessary, test the flags. -/
def enqueue (s : State Process Buffer) (p : Process) (b : Buffer) :
    Except Halt (State Process Buffer) :=
  let s := { s with qnext := update s.qnext b none }
  match lastSlot s.idequeue s.qnext (Fintype.card Buffer + 1) none with
  | none => .error .spins
  | some pp =>
    let request := s.arrived.length
    let s := { s with
      idequeue := (storeSlot s.idequeue s.qnext pp (some b)).1
      qnext := (storeSlot s.idequeue s.qnext pp (some b)).2
      arrived := s.arrived ++ [(p, b)] }
    if s.idequeue = some b then do
      let s ← s.idestart (some b)
      return s.test p b request
    else return s.test p b request

end State

/-- One step. -/
inductive Event (Process Buffer : Type) where
  /-- A process gets the lock of a buffer. -/
  | lock (p : Process) (b : Buffer)
  /-- The holder of a buffer releases its lock. -/
  | unlock (b : Buffer)
  /-- A buffer is changed by its holder, or by `bget` if it has none. -/
  | change (b : Buffer) (valid dirty : Bool) (dev blockno : UInt32) (data : Block)
  /-- A process calls `iderw`, which makes its checks. -/
  | call (p : Process) (b : Buffer)
  /-- `iderw` up to where it sleeps. -/
  | enqueue (p : Process)
  /-- A process that sleeps is killed, or woken for no reason. -/
  | rouse (p : Process)
  /-- `iderw` after `sleep`. -/
  | resume (p : Process)
  /-- The controller finishes its command and raises the interrupt. -/
  | finish
  /-- The interrupt is taken. -/
  | intr

namespace State

variable {Process Buffer : Type} [DecidableEq Process] [DecidableEq Buffer] [Fintype Buffer]

/-- The holder of a buffer, if it has one, is not in `iderw`. -/
def free (s : State Process Buffer) (b : Buffer) : Bool :=
  match (s.buf b).lock with
  | none => true
  | some p => s.phase p == .out

/-- The controller at the end of a command. -/
def finish (s : State Process Buffer) (c : Command) : State Process Buffer :=
  match c.write with
  | none => { s with controller := .done (s.disk c.disk c.sector) }
  | some data =>
    { s with
      controller := .done data
      disk := update s.disk c.disk (update (s.disk c.disk) c.sector data) }

/-- The step relation, as a partial function of the label. -/
def step (s : State Process Buffer) (event : Event Process Buffer) :
    Option (State Process Buffer) :=
  match event with
  | .lock p b =>
    let buf := { s.buf b with lock := some p }
    if (s.buf b).lock = none then some { s with buf := update s.buf b buf } else none
  | .unlock b =>
    let buf := { s.buf b with lock := none }
    if s.free b then some { s with buf := update s.buf b buf } else none
  | .change b valid dirty dev blockno data =>
    let buf := ⟨valid, dirty, dev, blockno, (s.buf b).lock, data⟩
    if s.free b then some { s with buf := update s.buf b buf } else none
  | .call p b =>
    match s.phase p with
    | .out => (s.check p b).toOption
    | _ => none
  | .enqueue p =>
    match s.phase p with
    | .entered b => (s.enqueue p b).toOption
    | _ => none
  | .rouse p =>
    match s.phase p with
    | .asleep b request =>
      some { s with phase := update s.phase p (.woken b request) }
    | _ => none
  | .resume p =>
    match s.phase p with
    | .woken b request => some (s.test p b request)
    | _ => none
  | .finish =>
    match s.controller with
    | .busy c => some (s.finish c)
    | _ => none
  | .intr =>
    match s.controller with
    | .done data => ({ s with controller := .idle }.ideintr data).toOption
    | _ => none

/-- The driver at the start: no requests. -/
def Initial (s : State Process Buffer) : Prop :=
  s.idequeue = none ∧ (∀ p, s.phase p = .out) ∧ s.controller = .idle ∧
    s.arrived = [] ∧ s.started = [] ∧ s.completed = []

/-- Runs, as histories of steps. -/
abbrev Ran : List (Event Process Buffer) → State Process Buffer → Prop := History Initial step

end State

end Xv6.Ide
