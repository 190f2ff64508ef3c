import Mathlib.Data.Fintype.Prod
import Xv6.Kernel.Bio
import Xv6.Kernel.LogOps

/-!
# File system calls over the buffer cache

Processes in `fileread` and in operations between `begin_op` and `end_op`, the last of which runs
`commit`, over the buffer cache of `bio.c`. A process has at most two buffers at a time, so it is
two clients of the cache. What a call reads and changes is left open; `commit` is the sequence of
its calls of `bread`, `bwrite` and `brelse`. An operation logs at most `MAXOPBLOCKS` blocks.
-/

namespace Xv6

open Lib

/-- `ROOTDEV`: device number of file system root disk. -/
def rootDev : UInt32 := 1

/-- One of the two buffers of a process. -/
abbrev Hand : Type := Fin 2

/-- What `commit` does next, with the block it is about. -/
inductive Command where
  /-- `bget`'s critical section. -/
  | get (h : Hand) (b : UInt32)
  /-- Take the buffer's lock. -/
  | lock (h : Hand)
  | read (h : Hand) (b : UInt32)
  /-- `memmove` between the two buffers. -/
  | copy (source h : Hand) (b : UInt32)
  /-- Copy `log.lh` into the header block. -/
  | head (h : Hand) (b : UInt32)
  | bwrite (h : Hand) (b : UInt32)
  /-- `brelse` up to `releasesleep`. -/
  | release (h : Hand)
  /-- `brelse`'s critical section. -/
  | drop (h : Hand)
  | clear

namespace Command

/-- `bread`. -/
def bread (h : Hand) (b : UInt32) : List Command := [.get h b, .lock h, .read h b]

/-- `brelse`. -/
def brelse (h : Hand) : List Command := [.release h, .drop h]

/-- The loop of `write_log`, from `tail` on. -/
def writeLog (region : LogRegion) (tail : Nat) : List UInt32 → List Command
  | [] => []
  | b :: rest =>
    let logged := UInt32.ofNat (region.start + tail + 1)
    bread 0 logged ++ bread 1 b ++ [.copy 1 0 logged, .bwrite 0 logged] ++ brelse 1 ++ brelse 0 ++
      writeLog region (tail + 1) rest

/-- `write_head`. -/
def writeHead (region : LogRegion) : List Command :=
  let b := UInt32.ofNat region.start
  bread 0 b ++ [.head 0 b, .bwrite 0 b] ++ brelse 0

/-- The loop of `install_trans`, from `tail` on. -/
def installTrans (region : LogRegion) (tail : Nat) : List UInt32 → List Command
  | [] => []
  | b :: rest =>
    bread 0 (UInt32.ofNat (region.start + tail + 1)) ++ bread 1 b ++ [.copy 0 1 b, .bwrite 1 b] ++
      brelse 0 ++ brelse 1 ++ installTrans region (tail + 1) rest

/-- `commit`. -/
def commit (region : LogRegion) (lh : List UInt32) : List Command :=
  if lh.length > 0 then
    writeLog region 0 lh ++ writeHead region ++ installTrans region 0 lh ++ [.clear] ++
      writeHead region
  else []

end Command

/-- What a process is doing. -/
inductive Task where
  /-- Nothing with the file system. -/
  | idle
  | reading
  /-- An operation that has logged some blocks. -/
  | inOp (logged : List UInt32)
  /-- The `commit` of its `end_op`, up to what is left of it. -/
  | committing (rest : List Command)

/-- The process is inside an operation. -/
def Task.InOp : Task → Prop
  | .inOp _ => True
  | _ => False

instance : DecidablePred Task.InOp := fun task =>
  match task with
  | .inOp _ => .isTrue trivial
  | .idle | .reading | .committing _ => .isFalse id

/-- The process may call `bread` and `brelse` as it likes. -/
def Task.Reads : Task → Prop
  | .reading | .inOp _ => True
  | _ => False

instance : DecidablePred Task.Reads := fun task =>
  match task with
  | .reading | .inOp _ => .isTrue trivial
  | .idle | .committing _ => .isFalse id

/-- The block of the buffer that a client holds. -/
def Session.held : Session → Option (UInt32 × UInt32)
  | .holding r _ => some r.key
  | _ => none

/-- The cache, the log and the processes. -/
structure LoadState (Proc : Type) where
  cache : CacheState (Proc × Hand)
  lh : List UInt32
  outstanding : Int
  committing : Bool
  task : Proc → Task

/-- One step of one process. -/
inductive LoadEvent (Proc : Type) where
  | fileread (p : Proc)
  /-- Return from `fileread`. -/
  | fileDone (p : Proc)
  /-- Be admitted by `begin_op`. -/
  | beginOp (p : Proc)
  /-- `bget`'s critical section. -/
  | get (p : Proc) (h : Hand) (b : UInt32)
  /-- Take the buffer's lock. -/
  | lock (p : Proc) (h : Hand)
  | read (p : Proc) (h : Hand) (b : UInt32) (data : Block)
  /-- Change the contents of a buffer. -/
  | store (p : Proc) (h : Hand) (b : UInt32) (data : Block)
  | logWrite (p : Proc) (h : Hand) (b : UInt32)
  /-- `brelse` up to `releasesleep`. -/
  | release (p : Proc) (h : Hand)
  /-- `brelse`'s critical section. -/
  | drop (p : Proc) (h : Hand)
  /-- The first critical section of `end_op`. -/
  | endOp (p : Proc)
  /-- The next command of `commit`. -/
  | commit (p : Proc)
  /-- The second critical section of `end_op`. -/
  | finish (p : Proc)

namespace LoadState

variable {Proc : Type} [DecidableEq Proc]

/-- Move one process. -/
def goto (s : LoadState Proc) (p : Proc) (task : Task) : LoadState Proc :=
  { s with task := Function.update s.task p task }

/-- The process has no buffer. -/
def EmptyHanded (s : LoadState Proc) (p : Proc) : Prop := ∀ h, s.cache.session (p, h) = .idle

instance (s : LoadState Proc) (p : Proc) : Decidable (s.EmptyHanded p) :=
  inferInstanceAs (Decidable (∀ _, _))

/-- The data of the buffer that a client holds, once `bread` has returned. -/
def data (driver : Driver) (s : LoadState Proc) (c : Proc × Hand) : Block :=
  match s.cache.session c with
  | .locked r => ((s.cache.bread driver r.buf).buf r.buf).data
  | .holding r _ => (s.cache.buf r.buf).data
  | _ => Bytes.zero

/-- A step of the cache. -/
def onCache (driver : Driver) (s : LoadState Proc) (event : CacheEvent (Proc × Hand)) :
    Option (LoadState Proc) :=
  (s.cache.step driver event).map fun cache => { s with cache := cache }

/-- A client holds the buffer of a block. -/
def Holds (s : LoadState Proc) (c : Proc × Hand) (b : UInt32) : Prop :=
  (s.cache.session c).held = some (rootDev, b)

instance (s : LoadState Proc) (c : Proc × Hand) (b : UInt32) : Decidable (s.Holds c b) :=
  inferInstanceAs (Decidable (_ = _))

/-- `log_write` by a process that has logged some blocks. -/
def logWrite (region : LogRegion) (driver : Driver) (s : LoadState Proc) (p : Proc) (h : Hand)
    (b : UInt32) (logged : List UInt32) : Option (LoadState Proc) :=
  if (s.lh.length : Int) ≥ logSize ∨ (s.lh.length : Int) ≥ (region.size : Int) - 1 then
    some { s with cache := s.cache.panic "too big a transaction" }
  else if s.outstanding < 1 then
    some { s with cache := s.cache.panic "log_write outside of trans" }
  else
    ({ s with lh := absorb b s.lh }.goto p (.inOp (absorb b logged))).onCache driver
      (.logWrite (p, h))

/-- The first critical section of `end_op`. -/
def endOp (region : LogRegion) (s : LoadState Proc) (p : Proc) : LoadState Proc :=
  let s := { s with outstanding := s.outstanding - 1 }
  if s.committing then { s with cache := s.cache.panic "log.committing" }
  else if s.outstanding = 0 then
    { s with committing := true }.goto p (.committing (Command.commit region s.lh))
  else s.goto p .idle

/-- A command of `commit`. -/
def run (driver : Driver) (s : LoadState Proc) (p : Proc) : Command → Option (LoadState Proc)
  | .get h b => s.onCache driver (.get (p, h) rootDev b)
  | .lock h => s.onCache driver (.lock (p, h))
  | .read h b => s.onCache driver (.read (p, h) rootDev b (s.data driver (p, h)))
  | .copy source h b => s.onCache driver (.store (p, h) rootDev b (s.data driver (p, source)))
  | .head h b =>
    s.onCache driver (.store (p, h) rootDev b (putHeader (s.data driver (p, h)) s.lh))
  | .bwrite h b => if s.Holds (p, h) b then s.onCache driver (.bwrite (p, h)) else none
  | .release h => s.onCache driver (.release (p, h))
  | .drop h => s.onCache driver (.drop (p, h))
  | .clear => some { s with lh := [] }

/-- The step relation, as a partial function of the label. -/
def step (region : LogRegion) (driver : Driver) (s : LoadState Proc) (event : LoadEvent Proc) :
    Option (LoadState Proc) :=
  if s.cache.panicked.isSome then none
  else match event with
    | .fileread p =>
      match s.task p with
      | .idle => some (s.goto p .reading)
      | _ => none
    | .fileDone p =>
      match s.task p with
      | .reading => if s.EmptyHanded p then some (s.goto p .idle) else none
      | _ => none
    | .beginOp p =>
      match s.task p with
      | .idle =>
        if s.committing = true ∨
            (s.lh.length : Int) + (s.outstanding + 1) * maxOpBlocks > logSize then none
        else some ({ s with outstanding := s.outstanding + 1 }.goto p (.inOp []))
      | _ => none
    | .get p h b =>
      if (s.task p).Reads then s.onCache driver (.get (p, h) rootDev b) else none
    | .lock p h => if (s.task p).Reads then s.onCache driver (.lock (p, h)) else none
    | .read p h b data =>
      if (s.task p).Reads then s.onCache driver (.read (p, h) rootDev b data) else none
    | .store p h b data =>
      if (s.task p).InOp then s.onCache driver (.store (p, h) rootDev b data) else none
    | .logWrite p h b =>
      match s.task p with
      | .inOp logged =>
        if s.Holds (p, h) b ∧ (absorb b logged).length ≤ maxOpBlocks then
          s.logWrite region driver p h b logged
        else none
      | _ => none
    | .release p h => if (s.task p).Reads then s.onCache driver (.release (p, h)) else none
    | .drop p h => if (s.task p).Reads then s.onCache driver (.drop (p, h)) else none
    | .endOp p =>
      if (s.task p).InOp ∧ s.EmptyHanded p then some (s.endOp region p) else none
    | .commit p =>
      match s.task p with
      | .committing (command :: rest) =>
        (s.run driver p command).map fun t => t.goto p (.committing rest)
      | _ => none
    | .finish p =>
      match s.task p with
      | .committing [] => some ({ s with committing := false }.goto p .idle)
      | _ => none

/-- The file system after `initlog`, over a disk: the cache is fresh, as far as calls can tell. -/
def booted (Proc : Type) (disk : UInt32 × UInt32 → Block) : LoadState Proc where
  cache := .booted (Proc × Hand) disk
  lh := []
  outstanding := 0
  committing := false
  task := fun _ => .idle

/-- Runs over any disk, as histories of steps. -/
abbrev Ran (region : LogRegion) (driver : Driver) : List (LoadEvent Proc) → LoadState Proc → Prop :=
  History (fun s => ∃ disk, s = booted Proc disk) (step region driver)

end LoadState

end Xv6
