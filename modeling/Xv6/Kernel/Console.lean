import Xv6.Kernel.Sleep

/-!
# Reading from the console

`consoleread` and `consoleintr` on the input buffer, and the lock of the inode that `fileread` holds
when it calls `consoleread`. A step is an operation on a spin lock or one round of a loop, which
runs with the lock held. An interrupt handler takes its steps as one of the processes; the
characters that `getc` will return are chosen when it starts.
-/

namespace Xv6.Console

open Sleep

/-- `INPUT_BUF`. -/
def inputBuf : Nat := 128

/-- `C(x)`: Control-x. -/
def ctrl (x : Char) : UInt8 := UInt8.ofNat (x.toNat - '@'.toNat)

/-- The line feed. -/
def newline : UInt8 := 10

/-- `input`. -/
structure Input where
  buf : Nat → UInt8
  r : UInt32
  w : UInt32
  e : UInt32

/-- The input buffer, and the inode. -/
structure Shared where
  input : Input
  locked : Bool

/-- The spin locks. -/
inductive Spin where
  | cons
  | inode
  deriving DecidableEq

/-- What processes sleep on. -/
inductive Chan where
  | input
  | inode
  deriving DecidableEq

/-- Why a process locks the inode. -/
inductive Use where
  /-- `fileread` is about to call `consoleread`. -/
  | read (n : Int32)
  /-- `consoleread` is about to return. -/
  | finish
  /-- The inode is used for something else. -/
  | other

/-- Where a process is. -/
inductive At where
  /-- In none of the calls. -/
  | idle
  /-- `acquiresleep`: about to acquire the spin lock. -/
  | ilockAcquire (use : Use)
  /-- `acquiresleep`: the test of the loop. -/
  | ilockTest (use : Use)
  /-- `acquiresleep`: about to sleep. -/
  | ilockSleep (use : Use)
  /-- `acquiresleep`: about to release the spin lock. -/
  | ilockRelease (use : Use)
  /-- `releasesleep`: about to acquire the spin lock. -/
  | iunlockAcquire (use : Use)
  /-- `releasesleep`: about to clear the lock. -/
  | iunlock (use : Use)
  /-- `releasesleep`: about to wake. -/
  | iunlockWake (use : Use)
  /-- `releasesleep`: about to release the spin lock. -/
  | iunlockRelease (use : Use)
  /-- `consoleread`: about to acquire the lock. -/
  | readAcquire (n : Int32)
  /-- `consoleread`: the tests of the loops, with what has been copied to `dst`. -/
  | read (target : UInt32) (n : Int32) (dst : List UInt8)
  /-- `consoleread`: about to sleep. -/
  | readSleep (target : UInt32) (n : Int32) (dst : List UInt8)
  /-- `consoleread`: about to release the lock, to lock the inode and to return. -/
  | readRelease (dst : List UInt8)
  /-- `consoleintr`: about to acquire the lock. -/
  | intrAcquire (chars : List UInt8)
  /-- `consoleintr`: a round of the loop. -/
  | intr (chars : List UInt8)
  /-- `consoleintr`: about to wake. -/
  | intrWake (chars : List UInt8)
  /-- `consoleintr`: about to release the lock. -/
  | intrRelease

/-- The process is in `consoleread`. -/
def At.inRead : At → Bool
  | .readAcquire _ | .read _ _ _ | .readSleep _ _ _ | .readRelease _ => true
  | .ilockAcquire .finish | .ilockTest .finish | .ilockSleep .finish | .ilockRelease .finish => true
  | _ => false

namespace Input

/-- A round of the loop of `consoleread`. -/
def readRound (i : Input) (target : UInt32) (n : Int32) (dst : List UInt8) (killed : Bool) :
    Input × At :=
  if n ≤ 0 then (i, .readRelease dst)
  else if i.r == i.w then (i, if killed then .readRelease dst else .readSleep target n dst)
  else
    let c := i.buf (i.r.toNat % inputBuf)
    if c = ctrl 'D' then
      -- Save ^D for next time.
      (if n.toUInt32 < target then i else { i with r := i.r + 1 }, .readRelease dst)
    else
      ({ i with r := i.r + 1 },
        if c = newline then .readRelease (dst ++ [c]) else .read target (n - 1) (dst ++ [c]))

/-- A round of the loop of `consoleintr`; the line is killed one character at a time. -/
def intrRound (i : Input) : List UInt8 → Input × At
  | [] => (i, .intrRelease)
  | c :: chars =>
    if c = ctrl 'P' then (i, .intr chars)
    else if c = ctrl 'U' then
      if i.e ≠ i.w ∧ i.buf ((i.e - 1).toNat % inputBuf) ≠ newline then
        ({ i with e := i.e - 1 }, .intr (c :: chars))
      else (i, .intr chars)
    else if c = ctrl 'H' ∨ c = 0x7f then
      (if i.e ≠ i.w then { i with e := i.e - 1 } else i, .intr chars)
    else if c = ctrl 'D' then (i, .intr chars)
    else if c ≠ 0 ∧ (i.e - i.r).toNat < inputBuf then
      let c := if c = 13 then newline else c
      let i := { i with buf := Function.update i.buf (i.e.toNat % inputBuf) c, e := i.e + 1 }
      if c = newline ∨ c = ctrl 'D' ∨ i.e = i.r + UInt32.ofNat inputBuf then
        ({ i with w := i.e }, .intrWake chars)
      else (i, .intr chars)
    else (i, .intr chars)

end Input

/-- Code that works on the input buffer only. -/
def onInput (code : Bool → Input → Input × At) : Instr Spin Chan At Shared :=
  .run fun killed shared =>
    ({ shared with input := (code killed shared.input).1 }, (code killed shared.input).2)

/-- What follows `iunlock`. -/
def Use.next : Use → At
  | .read n => .readAcquire n
  | .finish | .other => .idle

/-- The instructions. -/
def instr {P : Type} (_ : P) : At → Instr Spin Chan At Shared
  | .idle => .idle
  | .ilockAcquire use => .acquire (.own .inode) (.ilockTest use)
  | .ilockTest use => .run fun _ shared =>
    if shared.locked then (shared, .ilockSleep use)
    else ({ shared with locked := true }, .ilockRelease use)
  | .ilockSleep use => .sleep .inode (some (.own .inode)) (.ilockTest use)
  | .ilockRelease use => .release (.own .inode) (.iunlockAcquire use)
  | .iunlockAcquire use => .acquire (.own .inode) (.iunlock use)
  | .iunlock use => .run fun _ shared => ({ shared with locked := false }, .iunlockWake use)
  | .iunlockWake use => .wakeup .inode (.iunlockRelease use)
  | .iunlockRelease use => .release (.own .inode) use.next
  | .readAcquire n => .acquire (.own .cons) (.read n.toUInt32 n [])
  | .read target n dst => onInput fun killed i => i.readRound target n dst killed
  | .readSleep target n dst => .sleep .input (some (.own .cons)) (.read target n dst)
  | .readRelease _ => .release (.own .cons) (.ilockAcquire .finish)
  | .intrAcquire chars => .acquire (.own .cons) (.intr chars)
  | .intr chars => onInput fun _ i => i.intrRound chars
  | .intrWake chars => .wakeup .input (.intr chars)
  | .intrRelease => .release (.own .cons) .idle

/-- A process may lock the inode, and an interrupt may occur. -/
def enter {P : Type} (_ : P) (k next : At) (shared : Shared) : Option Shared :=
  match k, next with
  | .idle, .ilockAcquire (.read _) | .idle, .ilockAcquire .other | .idle, .intrAcquire _ =>
    some shared
  | _, _ => none

/-- The console before input. -/
def fresh (buf : Nat → UInt8) : Shared where
  input := ⟨buf, 0, 0, 0⟩
  locked := false

/-- Readers of the console, and its interrupt handler. -/
def client (P : Type) : Client P Spin Chan At Shared where
  instr := instr
  enter := enter
  start := .idle
  initial := fun shared => ∃ buf, shared = fresh buf

end Xv6.Console
