import Xv6.Kernel.Sleep

/-!
# Pipes

`pipewrite`, `piperead` and `pipeclose` on one pipe. A step is a lock operation or one round of a
loop, which runs with `p->lock` held. The file layer calls `pipeclose` for an end when its last
reference goes, and a call on an end holds a reference: so a call starts only on an end that is not
being closed, and `pipeclose` starts only when no call on that end is in progress. The bytes stored
in the pipe and removed from it are put on record in their order, as are the calls in progress and
whether a writer has stored a byte since it last called `wakeup`; the code does not see the record.
-/

namespace Xv6.Pipe

open Sleep

/-- `PIPESIZE`. -/
def pipeSize : Nat := 512

/-- `struct pipe` without its lock, and the record of its bytes. -/
structure Content where
  data : Nat → UInt8
  /-- Number of bytes read. -/
  nread : UInt32
  /-- Number of bytes written. -/
  nwrite : UInt32
  /-- The read fd is still open. -/
  readopen : Bool
  /-- The write fd is still open. -/
  writeopen : Bool
  /-- The bytes stored by `pipewrite`, in order. -/
  stored : List UInt8
  /-- The bytes removed by `piperead`, in order. -/
  removed : List UInt8

/-- The pipe, and the calls in progress. -/
structure Shared (P : Type) where
  content : Content
  /-- Who is in `piperead`. -/
  readers : List P
  /-- Who is in `pipewrite`. -/
  writers : List P
  /-- The last reference to the read end has gone. -/
  readShut : Bool
  /-- The last reference to the write end has gone. -/
  writeShut : Bool
  /-- `kfree` has been called. -/
  freed : Bool

/-- What processes sleep on. -/
inductive Chan where
  | nread
  | nwrite
  deriving DecidableEq

/-- Where a process is. -/
inductive At where
  /-- In none of the calls. -/
  | idle
  /-- `pipewrite`: about to acquire the lock. -/
  | writeAcquire (addr : List UInt8)
  /-- `pipewrite`: a round of the loop; the flag says whether a byte has been stored since the last
  `wakeup`. -/
  | write (addr : List UInt8) (i : Nat) (dirty : Bool)
  /-- `pipewrite`: the pipe is full, about to wake readers. -/
  | writeWake (addr : List UInt8) (i : Nat)
  /-- `pipewrite`: the pipe is full, about to sleep. -/
  | writeSleep (addr : List UInt8) (i : Nat)
  /-- `pipewrite`: about to release the lock and to return -1. -/
  | writeFail
  /-- `pipewrite`: the loop has ended, about to wake readers. -/
  | writeDone
  /-- `pipewrite`: about to release the lock and to return. -/
  | writeRelease
  /-- `piperead`: about to acquire the lock. -/
  | readAcquire (n : Nat)
  /-- `piperead`: the test of the `while` loop. -/
  | readWait (n : Nat)
  /-- `piperead`: the pipe is empty, about to sleep. -/
  | readSleep (n : Nat)
  /-- `piperead`: about to release the lock and to return -1. -/
  | readFail
  /-- `piperead`: a round of the `for` loop. -/
  | read (n i : Nat)
  /-- `piperead`: the loop has ended, about to wake writers. -/
  | readDone
  /-- `piperead`: about to release the lock and to return. -/
  | readRelease
  /-- `pipeclose`: about to acquire the lock. -/
  | closeAcquire (writable : Bool)
  /-- `pipeclose`: about to mark the end. -/
  | close (writable : Bool)
  /-- `pipeclose`: about to wake the other side. -/
  | closeWake (writable : Bool)
  /-- `pipeclose`: the test of both ends. -/
  | closeTest
  /-- `pipeclose`: about to release the lock. -/
  | closeRelease
  /-- `pipeclose`: about to release the lock and to free the pipe. -/
  | closeLast
  /-- `pipeclose`: about to call `kfree`. -/
  | closeFree
  /-- About to leave the call. -/
  | leave

namespace Content

/-- `p->nwrite == p->nread + PIPESIZE`. -/
def full (c : Content) : Bool := c.nwrite == c.nread + UInt32.ofNat pipeSize

/-- `p->nread == p->nwrite`. -/
def empty (c : Content) : Bool := c.nread == c.nwrite

/-- `p->data[p->nwrite++ % PIPESIZE] = byte`. -/
def store (c : Content) (byte : UInt8) : Content :=
  { c with
    data := Function.update c.data (c.nwrite.toNat % pipeSize) byte
    nwrite := c.nwrite + 1
    stored := c.stored ++ [byte] }

/-- `addr[i] = p->data[p->nread++ % PIPESIZE]`. -/
def take (c : Content) : Content :=
  { c with
    nread := c.nread + 1
    removed := c.removed ++ [c.data (c.nread.toNat % pipeSize)] }

/-- A round of the loop of `pipewrite`. -/
def writeRound (c : Content) (addr : List UInt8) (i : Nat) (killed : Bool) : Content × At :=
  match addr[i]? with
  | some byte =>
    if c.full then
      if !c.readopen || killed then (c, .writeFail) else (c, .writeWake addr i)
    else (c.store byte, .write addr (i + 1) true)
  | none => (c, .writeDone)

/-- The test of the `while` loop of `piperead`. -/
def readTest (c : Content) (n : Nat) (killed : Bool) : At :=
  if c.empty && c.writeopen then
    if killed then .readFail else .readSleep n
  else .read n 0

/-- A round of the `for` loop of `piperead`. -/
def readRound (c : Content) (n i : Nat) : Content × At :=
  if i < n then
    if c.empty then (c, .readDone) else (c.take, .read n (i + 1))
  else (c, .readDone)

/-- `pipeclose` marks the end. -/
def shut (c : Content) (writable : Bool) : Content :=
  if writable then { c with writeopen := false } else { c with readopen := false }

end Content

variable {P : Type} [DecidableEq P]

/-- Code that works on the pipe only. -/
def onContent (code : Bool → Content → Content × At) : Instr Unit Chan At (Shared P) :=
  .run fun killed shared =>
    ({ shared with content := (code killed shared.content).1 }, (code killed shared.content).2)

/-- The instructions. -/
def instr (p : P) : At → Instr Unit Chan At (Shared P)
  | .idle => .idle
  | .writeAcquire addr => .acquire (.own ()) (.write addr 0 false)
  | .write addr i _ => onContent fun killed c => c.writeRound addr i killed
  | .writeWake addr i => .wakeup .nread (.writeSleep addr i)
  | .writeSleep addr i => .sleep .nwrite (some (.own ())) (.write addr i false)
  | .writeFail => .release (.own ()) .leave
  | .writeDone => .wakeup .nread .writeRelease
  | .writeRelease => .release (.own ()) .leave
  | .readAcquire n => .acquire (.own ()) (.readWait n)
  | .readWait n => onContent fun killed c => (c, c.readTest n killed)
  | .readSleep n => .sleep .nread (some (.own ())) (.readWait n)
  | .readFail => .release (.own ()) .leave
  | .read n i => onContent fun _ c => c.readRound n i
  | .readDone => .wakeup .nwrite .readRelease
  | .readRelease => .release (.own ()) .leave
  | .closeAcquire writable => .acquire (.own ()) (.close writable)
  | .close writable => onContent fun _ c => (c.shut writable, .closeWake writable)
  | .closeWake writable => .wakeup (if writable then .nread else .nwrite) .closeTest
  | .closeTest => onContent fun _ c =>
    (c, if !c.readopen && !c.writeopen then .closeLast else .closeRelease)
  | .closeRelease => .release (.own ()) .leave
  | .closeLast => .release (.own ()) .closeFree
  | .closeFree => .run fun _ shared => ({ shared with freed := true }, .leave)
  | .leave => .run fun _ shared =>
    ({ shared with
      readers := shared.readers.filter (· ≠ p)
      writers := shared.writers.filter (· ≠ p) }, .idle)

/-- The calls that the file layer lets a process make. -/
def enter (p : P) (k next : At) (shared : Shared P) : Option (Shared P) :=
  match k, next with
  | .idle, .writeAcquire _ =>
    if shared.writeShut then none else some { shared with writers := p :: shared.writers }
  | .idle, .readAcquire _ =>
    if shared.readShut then none else some { shared with readers := p :: shared.readers }
  | .idle, .closeAcquire true =>
    if shared.writeShut || !shared.writers.isEmpty then none
    else some { shared with writeShut := true }
  | .idle, .closeAcquire false =>
    if shared.readShut || !shared.readers.isEmpty then none
    else some { shared with readShut := true }
  | _, _ => none

/-- The pipe that `pipealloc` makes. -/
def fresh (P : Type) (data : Nat → UInt8) : Shared P where
  content := ⟨data, 0, 0, true, true, [], []⟩
  readers := []
  writers := []
  readShut := false
  writeShut := false
  freed := false

/-- Readers and writers of one pipe. -/
def client (P : Type) [DecidableEq P] : Client P Unit Chan At (Shared P) where
  instr := instr
  enter := enter
  start := .idle
  initial := fun shared => ∃ data, shared = fresh P data

end Xv6.Pipe
