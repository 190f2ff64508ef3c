import Xv6.Kernel.Inode

/-!
# Processes that share the inode cache

`iget`, `idup`, `ilock`, `iunlock`, `iput`, `ialloc` and `iupdate` of any processes. A step is a
critical section of `icache.lock`, an operation on the sleep lock of an entry, a use of the block
that holds an inode on disk, with its buffer locked, or a change of fields by the process that holds
the lock of the entry. `itrunc` acts on the inode alone; the blocks that it frees are left out.

A process locks, unlocks, puts and duplicates inodes that it has references to; it may hand a
reference on, as with an open file. It may change the fields of an inode that it has locked, but the
type becomes zero only in `iput`; and it calls `iupdate` after a change and before `iunlock`. The
references of each process, whether an entry has been changed since the last `iupdate`, and which
inodes have been valid in the cache since they were allocated, are on record; the code does not see
the record.
-/

namespace Xv6.Icache

open Function

/-- A device and an inode number. -/
abbrev Key : Type := UInt32 × UInt32

/-- `struct inode`: an entry of the cache. -/
structure Entry (P : Type) where
  /-- Device number and inode number. -/
  key : Key
  ref : Nat
  /-- Inode has been read from disk? -/
  valid : Bool
  copy : Dinode
  /-- Who holds `lock`. -/
  locked : Option P
  /-- The copy has been changed since the last `iupdate`. -/
  dirty : Bool

/-- The stages of `iput`. -/
inductive Stage where
  /-- About to acquire the lock. -/
  | acquire
  /-- About to test `valid` and `nlink`. -/
  | test
  | ref
  | itrunc
  /-- In `itrunc`, about to call `iupdate`. -/
  | itruncUpdate
  | type
  /-- About to call `iupdate`. -/
  | update
  /-- About to clear `valid`. -/
  | invalid
  /-- About to release the lock. -/
  | release
  /-- About to decrement `ref`. -/
  | drop
  deriving DecidableEq

/-- What a process is doing. -/
inductive Phase where
  /-- In none of the calls. -/
  | idle
  /-- `ialloc`, about to look at an inode. -/
  | ialloc (dev : UInt32) (type : UInt16) (inum : UInt32)
  /-- `ialloc`, about to call `iget`. -/
  | iget (key : Key)
  /-- `ilock`, about to acquire the lock. -/
  | ilock (ip : Fin nInode)
  /-- `ilock`, with the lock. -/
  | load (ip : Fin nInode)
  /-- `ilock` has panicked. -/
  | noType (ip : Fin nInode)
  | iput (stage : Stage) (ip : Fin nInode)
  deriving DecidableEq

/-- The cache, the disk and the processes. -/
structure State (P : Type) where
  icache : Fin nInode → Entry P
  disk : Key → Dinode
  /-- The inodes that `ilock` has read since `ialloc` returned them. -/
  seen : Key → Bool
  ninodes : UInt32
  /-- What each process is doing. -/
  phase : P → Phase
  /-- The references that each process has. -/
  refs : P → Fin nInode → Nat
  /-- The message of a panic. -/
  panicked : Option String

/-- Who does what. -/
inductive Event (P : Type) where
  | iget (p : P) (key : Key)
  /-- `idup`; the new reference is for a process. -/
  | idup (p q : P) (ip : Fin nInode)
  /-- A process hands a reference to another one. -/
  | hand (p q : P) (ip : Fin nInode)
  | ilock (p : P) (ip : Fin nInode)
  /-- A process that has locked an inode changes it. -/
  | change (p : P) (ip : Fin nInode) (copy : Dinode)
  | iupdate (p : P) (ip : Fin nInode)
  | iunlock (p : P) (ip : Fin nInode)
  | iput (p : P) (ip : Fin nInode)
  | ialloc (p : P) (dev : UInt32) (type : UInt16)
  /-- A process goes on in its call. -/
  | run (p : P)

/-- The process of an event. -/
def Event.who {P : Type} : Event P → P
  | .iget p _ | .idup p _ _ | .hand p _ _ | .ilock p _ | .change p _ _ | .iupdate p _ | .iunlock p _
  | .iput p _ | .ialloc p _ _ | .run p => p

namespace State

variable {P : Type} [DecidableEq P]

/-- Change an entry. -/
def setEntry (s : State P) (ip : Fin nInode) (change : Entry P → Entry P) : State P :=
  { s with icache := update s.icache ip (change (s.icache ip)) }

/-- A process goes on to a phase. -/
def goto (s : State P) (p : P) (phase : Phase) : State P :=
  { s with phase := update s.phase p phase }

/-- Change the number of references that a process has to an entry. -/
def setRefs (s : State P) (p : P) (ip : Fin nInode) (change : Nat → Nat) : State P :=
  let mine := update (s.refs p) ip (change (s.refs p ip))
  { s with refs := update s.refs p mine }

/-- A panic. -/
def panic (s : State P) (message : String) : State P := { s with panicked := some message }

/-- `ip->ref++`, and the reference that is returned. -/
def grant (s : State P) (p : P) (ip : Fin nInode) : State P :=
  (s.setEntry ip fun e => { e with ref := e.ref + 1 }).setRefs p ip (· + 1)

/-- `iget`. -/
def iget (s : State P) (p : P) (key : Key) : State P :=
  match (List.finRange nInode).find? fun ip =>
      (s.icache ip).ref > 0 ∧ (s.icache ip).key = key with
  | some ip => (s.grant p ip).goto p .idle
  | none =>
    -- Recycle an inode cache entry.
    match (List.finRange nInode).find? fun ip => (s.icache ip).ref = 0 with
    | none => s.panic "iget: no inodes"
    | some ip =>
      ((s.setEntry ip fun e => { e with key := key, ref := 1, valid := false }).setRefs p ip
        (· + 1)).goto p .idle

/-- `iupdate`. -/
def iupdate (s : State P) (ip : Fin nInode) : State P :=
  let e := s.icache ip
  { s.setEntry ip fun e => { e with dirty := false } with
    disk := update s.disk e.key e.copy }

/-- `acquiresleep`, when the lock is free. -/
def acquiresleep (s : State P) (p : P) (ip : Fin nInode) (phase : Phase) : Option (State P) :=
  if (s.icache ip).locked = none then
    some ((s.setEntry ip fun e => { e with locked := some p }).goto p phase)
  else none

/-- `ilock` with the lock: read the inode from disk if necessary. -/
def load (s : State P) (p : P) (ip : Fin nInode) : State P :=
  let e := s.icache ip
  if e.valid then s.goto p .idle
  else
    let s : State P :=
      { s.setEntry ip fun e => { e with copy := s.disk e.key, valid := true, dirty := false } with
        seen := update s.seen e.key true }
    if (s.icache ip).copy.type = 0 then (s.goto p (.noType ip)).panic "ilock: no type"
    else s.goto p .idle

/-- A round of the loop of `ialloc`. -/
def ialloc (s : State P) (p : P) (dev : UInt32) (type : UInt16) (inum : UInt32) : State P :=
  if inum < s.ninodes then
    if (s.disk (dev, inum)).type = 0 then
      { s.goto p (.iget (dev, inum)) with
        disk := update s.disk (dev, inum) { Dinode.zero with type := type }
        seen := update s.seen (dev, inum) false }
    else s.goto p (.ialloc dev type (inum + 1))
  else s.panic "ialloc: no inodes"

/-- A step of `iput`. -/
def iput (s : State P) (p : P) (ip : Fin nInode) : Stage → Option (State P)
  | .acquire => s.acquiresleep p ip (.iput .test ip)
  | .test =>
    let e := s.icache ip
    some (s.goto p (.iput (if e.valid ∧ e.copy.nlink = 0 then .ref else .release) ip))
  | .ref => some (s.goto p (.iput (if (s.icache ip).ref = 1 then .itrunc else .release) ip))
  | .itrunc =>
    some ((s.setEntry ip fun e =>
      { e with copy := { e.copy with size := 0, addrs := fun _ => 0 } }).goto p
        (.iput .itruncUpdate ip))
  | .itruncUpdate => some ((s.iupdate ip).goto p (.iput .type ip))
  | .type =>
    some ((s.setEntry ip fun e => { e with copy := { e.copy with type := 0 } }).goto p
      (.iput .update ip))
  | .update => some ((s.iupdate ip).goto p (.iput .invalid ip))
  | .invalid =>
    some ((s.setEntry ip fun e => { e with valid := false }).goto p (.iput .release ip))
  | .release =>
    some ((s.setEntry ip fun e => { e with locked := none }).goto p (.iput .drop ip))
  | .drop => some ((s.setEntry ip fun e => { e with ref := e.ref - 1 }).goto p .idle)

/-- A process goes on in its call. -/
def run (s : State P) (p : P) : Option (State P) :=
  match s.phase p with
  | .idle | .noType _ => none
  | .ialloc dev type inum => some (s.ialloc p dev type inum)
  | .iget key => some (s.iget p key)
  | .ilock ip => s.acquiresleep p ip (.load ip)
  | .load ip => some (s.load p ip)
  | .iput stage ip => s.iput p ip stage

/-- The calls and changes that a process may begin, when it is in none of the calls. -/
def begin (s : State P) : Event P → Option (State P)
  | .iget p key => some (s.iget p key)
  | .idup p q ip => if 0 < s.refs p ip then some (s.grant q ip) else none
  | .hand p q ip =>
    if 0 < s.refs p ip ∧ (s.icache ip).locked ≠ some p then
      some ((s.setRefs p ip (· - 1)).setRefs q ip (· + 1))
    else none
  | .ilock p ip =>
    if 0 < s.refs p ip then
      some (if (s.icache ip).ref < 1 then s.panic "ilock" else s.goto p (.ilock ip))
    else none
  | .change p ip copy =>
    if (s.icache ip).locked = some p ∧ copy.type ≠ 0 then
      some (s.setEntry ip fun e => { e with copy := copy, dirty := true })
    else none
  | .iupdate p ip => if (s.icache ip).locked = some p then some (s.iupdate ip) else none
  | .iunlock p ip =>
    if (s.icache ip).locked = some p ∧ (s.icache ip).dirty = false then
      some (if (s.icache ip).ref < 1 then s.panic "iunlock"
        else s.setEntry ip fun e => { e with locked := none })
    else none
  | .iput p ip =>
    if 0 < s.refs p ip then some ((s.setRefs p ip (· - 1)).goto p (.iput .acquire ip)) else none
  | .ialloc p dev type => some (s.goto p (.ialloc dev type 1))
  | .run _ => none

/-- The step relation. -/
def step (s : State P) (event : Event P) : Option (State P) :=
  if s.panicked.isSome then none
  else match event with
    | .run p => s.run p
    | event => if s.phase event.who = .idle then s.begin event else none

/-- No entry is in use, and no process is in a call. -/
structure Initial (s : State P) : Prop where
  entries : ∀ ip, (s.icache ip).ref = 0 ∧ (s.icache ip).valid = false ∧
    (s.icache ip).locked = none
  phases : ∀ p, s.phase p = .idle
  /-- They have no references. -/
  refs : ∀ p ip, s.refs p ip = 0
  seen : ∀ key, s.seen key = false
  panicked : s.panicked = none

/-- Histories from the start. -/
abbrev Ran (P : Type) [DecidableEq P] : List (Event P) → State P → Prop :=
  Lib.History (Initial (P := P)) step

/-- Histories whose every step meets a condition. -/
abbrev RanWithin (P : Type) [DecidableEq P] (meets : State P → Event P → Prop) :
    List (Event P) → State P → Prop :=
  Lib.Within (Initial (P := P)) step fun _ => meets

end State

end Xv6.Icache
