import Mathlib.Data.Fintype.Basic
import Mathlib.Data.List.FinRange
import Xv6.Lib.Ring
import Xv6.Lib.Transition
import Xv6.Kernel.Param

/-!
# The buffer cache

`bio.c` over the disk driver of `memide.c`. The cache is the array of `NBUF` buffers and their ring,
kept as the `next` and `prev` pointers the code assigns. A client is one use of a buffer, from
`bread` to `brelse`; a process that holds two buffers is two clients. Each `bcache.lock` critical
section is one step, and so is each acquisition and release of a buffer's sleep lock. A client
changes `b->data` only while it holds the buffer, and calls `bwrite` or `log_write` before `brelse`.
Of `log_write` only its effect on the buffer appears here.
-/

namespace Xv6

open Lib Function

/-- `struct buf`, its two flag bits as booleans and its links apart. -/
structure Buf where
  /-- `B_VALID`: buffer has been read from disk. -/
  valid : Bool
  /-- `B_DIRTY`: buffer needs to be written to disk. -/
  dirty : Bool
  /-- The device of the block. -/
  dev : UInt32
  /-- The number of the block. -/
  blockno : UInt32
  locked : Bool
  /-- The clients that use the buffer or wait for it. -/
  refcnt : Nat
  data : Block

/-- The block a buffer is for. -/
def Buf.key (b : Buf) : UInt32 × UInt32 := (b.dev, b.blockno)

/-- A buffer as the kernel image has it: all zero. -/
def Buf.blank : Buf := ⟨false, false, 0, 0, false, 0, Bytes.zero⟩

/-- `binit`: the head alone, then each buffer of the array behind the head. -/
def binit : Links (Fin nBuf) :=
  (List.finRange nBuf).foldl Links.pushFront { next := fun _ => none, prev := fun _ => none }

/-- The requests the disk driver refuses, with its message. -/
abbrev Driver : Type := UInt32 → UInt32 → Option String

/-- The checks `iderw` of `memide.c` makes on a request. -/
def memide (disksize : Nat) : Driver := fun dev blockno =>
  if dev ≠ 1 then some "iderw: request not for disk 1"
  else if blockno.toNat ≥ disksize then some "iderw: block out of range"
  else none

/-- A client's use of a buffer: the buffer `bget` chose and the block it asked for. -/
structure Request where
  buf : Fin nBuf
  key : UInt32 × UInt32
  deriving DecidableEq

/-- Where a client is between `bread` and `brelse`. -/
inductive Session where
  | idle
  /-- In `bget`, waiting for the buffer's lock. -/
  | waiting (r : Request)
  /-- In `bread`, with the lock. -/
  | locked (r : Request)
  /-- `bread` has returned. The flag is off while a change to the data waits for its `bwrite` or
  `log_write`. -/
  | holding (r : Request) (saved : Bool)
  /-- In `brelse`, past `releasesleep`. -/
  | releasing (r : Request)
  deriving DecidableEq

/-- The request of a client that uses a buffer. -/
def Session.request : Session → Option Request
  | .idle => none
  | .waiting r | .locked r | .holding r _ | .releasing r => some r

/-- The buffer a client uses. -/
def Session.buf (session : Session) : Option (Fin nBuf) := session.request.map Request.buf

/-- The buffer cache, the disk under it and its clients. -/
structure CacheState (Client : Type) where
  /-- The pointers of `bcache`. -/
  links : Links (Fin nBuf)
  buf : Fin nBuf → Buf
  /-- The disk, by device and block number. -/
  disk : UInt32 × UInt32 → Block
  session : Client → Session
  /-- The message of the panic that stopped the machine. -/
  panicked : Option String

/-- One step of one client. -/
inductive CacheEvent (Client : Type) where
  /-- `bget`'s critical section, for block `blockno` of device `dev`. -/
  | get (c : Client) (dev blockno : UInt32)
  /-- Take the buffer's lock. -/
  | lock (c : Client)
  /-- `bread` of block `blockno` of device `dev` returns a buffer with `data`. -/
  | read (c : Client) (dev blockno : UInt32) (data : Block)
  /-- Change the contents of block `blockno` of device `dev` in the buffer. -/
  | store (c : Client) (dev blockno : UInt32) (data : Block)
  | bwrite (c : Client)
  | logWrite (c : Client)
  /-- `brelse` up to `releasesleep`. -/
  | release (c : Client)
  /-- `brelse`'s critical section. -/
  | drop (c : Client)

namespace CacheState

variable {Client : Type} [DecidableEq Client]

/-- Stop with a message. -/
def panic (s : CacheState Client) (message : String) : CacheState Client :=
  { s with panicked := some message }

/-- Change one buffer. -/
def setBuf (s : CacheState Client) (i : Fin nBuf) (b : Buf) : CacheState Client :=
  { s with buf := update s.buf i b }

/-- Move one client. -/
def goto (s : CacheState Client) (c : Client) (session : Session) : CacheState Client :=
  { s with session := update s.session c session }

/-- `bget`'s critical section: the buffer and its new fields, or no buffer at all. No result would
mean that a walk of the ring does not end. -/
def bget (s : CacheState Client) (dev blockno : UInt32) : Option (Option (Fin nBuf × Buf)) :=
  -- Is the block already cached?
  (Links.scan s.links.next (fun i => (s.buf i).dev = dev ∧ (s.buf i).blockno = blockno)
    (nBuf + 1) (s.links.next none)).bind fun
  | some i => some (some (i, { s.buf i with refcnt := (s.buf i).refcnt + 1 }))
  | none =>
    -- Not cached; recycle an unused buffer.
    (Links.scan s.links.prev (fun i => (s.buf i).refcnt = 0 ∧ (s.buf i).dirty = false)
      (nBuf + 1) (s.links.prev none)).map fun found =>
    found.map fun i =>
      (i, { s.buf i with
        dev := dev, blockno := blockno, valid := false, dirty := false, refcnt := 1 })

/-- `iderw`. -/
def iderw (driver : Driver) (s : CacheState Client) (i : Fin nBuf) : CacheState Client :=
  let b := s.buf i
  if b.locked = false then s.panic "iderw: buf not locked"
  else if b.valid = true ∧ b.dirty = false then s.panic "iderw: nothing to do"
  else match driver b.dev b.blockno with
    | some message => s.panic message
    | none =>
      if b.dirty then
        { s.setBuf i { b with dirty := false, valid := true } with
          disk := update s.disk b.key b.data }
      else s.setBuf i { b with data := s.disk b.key, valid := true }

/-- The rest of `bread`, once the buffer is locked. -/
def bread (driver : Driver) (s : CacheState Client) (i : Fin nBuf) : CacheState Client :=
  if (s.buf i).valid = false then s.iderw driver i else s

/-- `bwrite`. -/
def bwrite (driver : Driver) (s : CacheState Client) (i : Fin nBuf) : CacheState Client :=
  if (s.buf i).locked = false then s.panic "bwrite"
  else (s.setBuf i { s.buf i with dirty := true }).iderw driver i

/-- `brelse`'s critical section. -/
def brelse (s : CacheState Client) (i : Fin nBuf) : CacheState Client :=
  let s := s.setBuf i { s.buf i with refcnt := (s.buf i).refcnt - 1 }
  -- no one is waiting for it.
  if (s.buf i).refcnt = 0 then { s with links := (s.links.unlink i).pushFront i } else s

/-- The step relation, as a partial function of the label. -/
def step (driver : Driver) (s : CacheState Client) (event : CacheEvent Client) :
    Option (CacheState Client) :=
  if s.panicked.isSome then none
  else match event with
    | .get c dev blockno =>
      if s.session c = .idle ∧ dev ≠ 0 then
        (s.bget dev blockno).map fun
        | some (i, b) => (s.setBuf i b).goto c (.waiting ⟨i, (dev, blockno)⟩)
        | none => s.panic "bget: no buffers"
      else none
    | .lock c =>
      match s.session c with
      | .waiting r =>
        if (s.buf r.buf).locked then none
        else some ((s.setBuf r.buf { s.buf r.buf with locked := true }).goto c (.locked r))
      | _ => none
    | .read c dev blockno data =>
      match s.session c with
      | .locked r =>
        if r.key = (dev, blockno) then
          let s := s.bread driver r.buf
          if s.panicked.isSome then some s
          else if (s.buf r.buf).data = data then some (s.goto c (.holding r true))
          else none
        else none
      | _ => none
    | .store c dev blockno data =>
      match s.session c with
      | .holding r _ =>
        if r.key = (dev, blockno) then
          some ((s.setBuf r.buf { s.buf r.buf with data := data }).goto c (.holding r false))
        else none
      | _ => none
    | .bwrite c =>
      match s.session c with
      | .holding r _ => some ((s.bwrite driver r.buf).goto c (.holding r true))
      | _ => none
    | .logWrite c =>
      match s.session c with
      | .holding r _ =>
        some ((s.setBuf r.buf { s.buf r.buf with dirty := true }).goto c (.holding r true))
      | _ => none
    | .release c =>
      match s.session c with
      | .holding r true =>
        if (s.buf r.buf).locked = false then some (s.panic "brelse")
        else some ((s.setBuf r.buf { s.buf r.buf with locked := false }).goto c (.releasing r))
      | _ => none
    | .drop c =>
      match s.session c with
      | .releasing r => some ((s.brelse r.buf).goto c .idle)
      | _ => none

/-- The cache after `binit`, over a disk. -/
def booted (Client : Type) (disk : UInt32 × UInt32 → Block) : CacheState Client where
  links := binit
  buf := fun _ => .blank
  disk := disk
  session := fun _ => .idle
  panicked := none

/-- Runs of the cache from a disk, as histories of steps. -/
abbrev Ran (driver : Driver) (disk : UInt32 × UInt32 → Block) :
    List (CacheEvent Client) → CacheState Client → Prop :=
  History (fun s => s = booted Client disk) (step driver)

/-- The contents most recently stored to a block, or else those the disk started with. -/
def latest (disk : UInt32 × UInt32 → Block) : List (CacheEvent Client) → UInt32 × UInt32 → Block
  | [], key => disk key
  | .store _ dev blockno data :: past, key =>
    if (dev, blockno) = key then data else latest disk past key
  | _ :: past, key => latest disk past key

end CacheState

end Xv6
