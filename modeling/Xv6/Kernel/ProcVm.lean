import Mathlib.Algebra.Ring.Int.Defs
import Mathlib.Data.List.FinRange
import Xv6.Lib.Transition
import Xv6.Kernel.Vm

/-!
# Processes and pipes as users of memory

The operations of `proc.c`, `exec.c` and `pipe.c` that allocate or free pages, and the boot of
`main.c` up to `kinit2`. What the file system gives `exec` (the program headers and the outcome of
every `readi`) is an input. Between the operations a process may store to what is mapped for it and
the kernel to its stack.
-/

namespace Xv6

open Lib

/-- `MAXARG`: max exec arguments. -/
def maxArg : Nat := 32

/-- Change the slot of a process. -/
def setProc (p : Fin nProc) (change : Proc → Proc) : VmM Unit :=
  modify fun s => { s with proc := Function.update s.proc p (change (s.proc p)) }

/-! ## `proc.c` -/

/-- `allocproc`: a slot with a kernel stack. -/
def allocproc : VmM (Option (Fin nProc)) := do
  let s ← get
  match (List.finRange nProc).find? fun p => (s.proc p).state = .unused with
  | none => return none
  | some p =>
    setProc p ({ · with state := .embryo })
    let kstack ← kalloc
    setProc p ({ · with kstack := kstack })
    if kstack = 0 then
      setProc p ({ · with state := .unused })
      return none
    return some p

/-- `userinit`. The code does not check `allocproc`'s result, and would trap on the null pointer. -/
def userinit (layout : Layout) (initcode : Paint) (size : Nat) : VmM Unit := do
  match ← allocproc with
  | none => throw "trap"
  | some p =>
    modify fun s => { s with initproc := some p }
    let pgdir ← setupkvm layout
    setProc p ({ · with pgdir := pgdir })
    if pgdir = 0 then throw "userinit: out of memory?"
    inituvm pgdir initcode size
    setProc p ({ · with sz := pgSize })
    setProc p ({ · with state := .alive })

/-- `growproc`. -/
def growproc (layout : Layout) (p : Fin nProc) (n : Int) : VmM Bool := do
  let curproc := (← get).proc p
  let target := ((curproc.sz + n) % 2 ^ 32).toNat
  if n > 0 then
    let sz ← allocuvm layout curproc.pgdir curproc.sz target
    if sz = 0 then
      return false
    setProc p ({ · with sz := sz })
    return true
  else if n < 0 then
    let sz ← deallocuvm layout curproc.pgdir curproc.sz target
    if sz = 0 then
      return false
    setProc p ({ · with sz := sz })
    return true
  else
    return true

/-- `fork`. -/
def fork (layout : Layout) (p : Fin nProc) : VmM (Option (Fin nProc)) := do
  match ← allocproc with
  | none => return none
  | some np =>
    let curproc := (← get).proc p
    let pgdir ← copyuvm layout curproc.pgdir curproc.sz
    setProc np ({ · with pgdir := pgdir })
    if pgdir = 0 then
      kfree layout ((← get).proc np).kstack
      setProc np ({ · with kstack := 0, state := .unused })
      return none
    setProc np ({ · with sz := curproc.sz, parent := some p })
    setProc np ({ · with state := .alive })
    return some np

/-- `wait`, once it holds `ptable.lock`: reap one exited child, if there is one. -/
def wait (layout : Layout) (p : Fin nProc) : VmM (Option (Fin nProc)) := do
  let s ← get
  match (List.finRange nProc).find? fun q =>
      (s.proc q).parent = some p ∧ (s.proc q).state = .zombie with
  | none => return none
  | some q =>
    kfree layout (s.proc q).kstack
    setProc q ({ · with kstack := 0 })
    freevm layout ((← get).proc q).pgdir
    setProc q ({ · with parent := none, state := .unused })
    return some q

/-! ## `pipe.c` -/

/-- The word of `nread` in `struct pipe`, after the lock and the data. -/
def pipeNread : Nat := 141

/-- The word of `nwrite`. -/
def pipeNwrite : Nat := 142

/-- The word of `readopen`: read fd is still open. -/
def pipeReadopen : Nat := 143

/-- The word of `writeopen`: write fd is still open. -/
def pipeWriteopen : Nat := 144

/-- `pipealloc`, given whether both calls of `filealloc` succeed. -/
def pipealloc (filealloc : Bool) : VmM (Option Nat) := do
  if filealloc = false then
    return none
  else
    let p ← kalloc
    if p = 0 then
      return none
    setWord p pipeReadopen 1
    setWord p pipeWriteopen 1
    setWord p pipeNwrite 0
    setWord p pipeNread 0
    -- initlock: locked and cpu
    setWord p 0 0
    setWord p 2 0
    modify fun s => { s with files := (p, false) :: (p, true) :: s.files }
    return some p

/-- `pipeclose`. -/
def pipeclose (layout : Layout) (p : Nat) (writable : Bool) : VmM Unit := do
  if writable then setWord p pipeWriteopen 0 else setWord p pipeReadopen 0
  let page := (← get).mem p
  if page pipeReadopen = 0 ∧ page pipeWriteopen = 0 then kfree layout p

/-- The end of `fileclose` for the last reference to a file of type `FD_PIPE`. -/
def fileclosePipe (layout : Layout) (file : Nat × Bool) : VmM Unit := do
  if file ∉ (← get).files then throw "fileclose"
  modify fun s => { s with files := s.files.erase file }
  pipeclose layout file.1 file.2

/-- The pipe files of which `exit` drops the last reference. -/
def exitFiles (layout : Layout) : List (Nat × Bool) → VmM Unit
  | [] => pure ()
  | file :: rest => do
    fileclosePipe layout file
    exitFiles layout rest

/-- `exit`. -/
def exit (layout : Layout) (p : Fin nProc) (files : List (Nat × Bool)) : VmM Unit := do
  if (← get).initproc = some p then throw "init exiting"
  exitFiles layout files
  -- Pass abandoned children to init.
  modify fun s => { s with proc := fun q =>
    if (s.proc q).parent = some p then { s.proc q with parent := s.initproc } else s.proc q }
  setProc p ({ · with state := .zombie, sz := 0 })

/-! ## `exec.c` -/

/-- `struct proghdr`, with what `readi` gives for the pages of the segment. -/
structure Proghdr where
  /-- `type == ELF_PROG_LOAD`. -/
  load : Bool
  vaddr : UInt32
  filesz : UInt32
  memsz : UInt32
  /-- What `readi` stores into each page, and whether it is all it should. -/
  readi : Nat → Paint × Bool

/-- A program file and the arguments for it. -/
structure Image where
  /-- `namei` finds the file, and it has an ELF header. -/
  elf : Bool
  /-- The program headers; none where `readi` fails. -/
  headers : List (Option Proghdr)
  /-- The arguments: `strlen` of each, and what copying it does to each page. -/
  args : List (UInt32 × (Nat → Paint))
  /-- What copying `ustack` does to each page. -/
  ustack : Nat → Paint

/-- The loop of `exec` over the program headers: the size, or nothing where it goes to `bad`. -/
def execLoad (layout : Layout) (pgdir : Nat) : List (Option Proghdr) → Nat → VmM (Option Nat)
  | [], sz => return some sz
  | none :: _, _ => return none
  | some ph :: rest, sz => do
    if ph.load = false then
      execLoad layout pgdir rest sz
    else if ph.memsz < ph.filesz then
      return none
    else if uint (ph.vaddr.toNat + ph.memsz.toNat) < ph.vaddr.toNat then
      return none
    else
      let sz ← allocuvm layout pgdir sz (uint (ph.vaddr.toNat + ph.memsz.toNat))
      if sz = 0 then
        return none
      else if ph.vaddr.toNat % pgSize ≠ 0 then
        return none
      else if ← loaduvm pgdir ph.vaddr.toNat ph.filesz.toNat ph.readi then
        execLoad layout pgdir rest sz
      else
        return none

/-- The loop of `exec` over the arguments: their number and the stack pointer. -/
def execPush (layout : Layout) (cr3 pgdir : Nat) :
    List (UInt32 × (Nat → Paint)) → Nat → Nat → VmM (Option (Nat × Nat))
  | [], argc, sp => return some (argc, sp)
  | (strlen, paint) :: rest, argc, sp => do
    if argc ≥ maxArg then
      return none
    else
      let sp := uint (sp + 2 ^ 33 - (strlen.toNat + 1)) / 4 * 4
      if ← copyout layout cr3 pgdir sp paint (uint (strlen.toNat + 1)) then
        execPush layout cr3 pgdir rest (argc + 1) sp
      else
        return none

/-- The part of `exec` that builds the new image in `pgdir`, with the old page directory still in
use: its size, or nothing where it goes to `bad`. -/
def execBuild (layout : Layout) (cr3 pgdir : Nat) (image : Image) : VmM (Option Nat) := do
  match ← execLoad layout pgdir image.headers 0 with
  | none => return none
  | some sz =>
    -- Allocate two pages at the next page boundary.
    -- Make the first inaccessible.  Use the second as the user stack.
    let sz := pgRoundUp sz
    let sz ← allocuvm layout pgdir sz (uint (sz + 2 * pgSize))
    if sz = 0 then
      return none
    clearpteu pgdir (sz - 2 * pgSize)
    match ← execPush layout cr3 pgdir image.args 0 sz with
    | none => return none
    | some (argc, sp) =>
      let len := (3 + argc + 1) * 4
      if ← copyout layout cr3 pgdir (uint (sp + 2 ^ 32 - len)) image.ustack len then
        return some sz
      else
        return none

/-- `exec`. -/
def exec (layout : Layout) (p : Fin nProc) (image : Image) : VmM Bool := do
  if image.elf = false then
    return false
  else
    let pgdir ← setupkvm layout
    if pgdir = 0 then
      return false
    match ← execBuild layout ((← get).proc p).pgdir pgdir image with
    | none =>
      freevm layout pgdir
      return false
    | some sz =>
      -- Commit to the user image.
      let oldpgdir := ((← get).proc p).pgdir
      setProc p ({ · with pgdir := pgdir, sz := sz })
      freevm layout oldpgdir
      return true

/-! ## Boot and runs -/

/-- `startothers`: a stack for each other processor. -/
def startothers : Nat → VmM Unit
  | 0 => pure ()
  | others + 1 => do
    let _ ← kalloc
    startothers others

/-- `main` up to `kinit2`. -/
def boot (layout : Layout) (others : Nat) : VmM Unit := do
  freerange layout layout.kend (p2v (4 * 1024 * 1024))
  kvmalloc layout
  startothers others
  freerange layout (p2v (4 * 1024 * 1024)) (p2v physTop)

/-- The machine when `main` starts: no free page, no process, no file. -/
structure Unbooted (s : Vm) : Prop where
  /-- `kmem.freelist` is null. -/
  freelist : s.freelist = 0
  kpgdir : s.kpgdir = 0
  /-- Every slot is unused. -/
  proc : ∀ p, (s.proc p).state = .unused
  /-- There is no first process yet. -/
  initproc : s.initproc = none
  files : s.files = []

/-- The operations. Those that allocate come with the outcomes of their calls of `kalloc`. -/
inductive VmEvent where
  | userinit (refusals : List Bool) (initcode : Paint) (size : Nat)
  | fork (p : Fin nProc) (refusals : List Bool)
  | exec (p : Fin nProc) (refusals : List Bool) (image : Image)
  | growproc (p : Fin nProc) (refusals : List Bool) (n : Int32)
  /-- `exit`, with the pipe files it closes. -/
  | exit (p : Fin nProc) (files : List (Nat × Bool))
  | wait (p : Fin nProc)
  | pipealloc (refusals : List Bool) (filealloc : Bool)
  | pipeclose (file : Nat × Bool)
  /-- A process stores to its memory. -/
  | store (p : Fin nProc) (va : UInt32) (paint : Paint)
  /-- The kernel stores to the stack of a process. -/
  | push (p : Fin nProc) (words : Page → Page)

/-- The operation is by a process that runs. -/
def alive (p : Fin nProc) : VmM Unit := do
  if ((← get).proc p).state ≠ .alive then throw "not running"

/-- What `fetchstr` has checked: the arguments lie in the memory of the process. -/
def argvInside (p : Fin nProc) (image : Image) : VmM Unit := do
  if ∃ arg ∈ image.args, ((← get).proc p).sz ≤ arg.1.toNat then throw "sys_exec"

/-- Settle the outcomes of the coming calls of `kalloc`. -/
def setRefusals (refusals : List Bool) : VmM Unit :=
  modify fun s => { s with refusals := refusals }

/-- An operation as a computation. -/
def VmEvent.run (layout : Layout) : VmEvent → VmM Unit
  | .userinit refusals initcode size => do
    if (← get).initproc ≠ none then throw "booted"
    setRefusals refusals
    Xv6.userinit layout initcode size
  | .fork p refusals => do
    alive p
    setRefusals refusals
    let _ ← Xv6.fork layout p
  | .exec p refusals image => do
    alive p
    argvInside p image
    setRefusals refusals
    let _ ← Xv6.exec layout p image
  | .growproc p refusals n => do
    alive p
    setRefusals refusals
    let _ ← Xv6.growproc layout p n.toInt
  | .exit p files => do
    alive p
    Xv6.exit layout p files
  | .wait p => do
    alive p
    let _ ← Xv6.wait layout p
  | .pipealloc refusals filealloc => do
    setRefusals refusals
    let _ ← Xv6.pipealloc filealloc
  | .pipeclose file => fileclosePipe layout file
  | .store p va paint => do
    alive p
    let page ← translate ((← get).proc p).pgdir va.toNat fun pte => Writable pte ∧ ForUser pte
    Xv6.store layout page paint
  | .push p words => do
    alive p
    let kstack := ((← get).proc p).kstack
    setPage kstack (words ((← get).mem kstack))

/-- The step relation: an operation that completes. -/
def Vm.step (layout : Layout) (s : Vm) (event : VmEvent) : Option Vm :=
  match event.run layout s with
  | .ok (_, t) => some t
  | .error _ => none

/-- The machine after `kinit2`. -/
def Booted (layout : Layout) (s : Vm) : Prop :=
  ∃ start others, Unbooted start ∧ boot layout others start = .ok ((), s)

/-- Runs of the operations from boot, as histories. -/
abbrev Vm.Ran (layout : Layout) : List VmEvent → Vm → Prop :=
  History (Booted layout) (Vm.step layout)

/-- No argument of `exec` has more than 32 MB, its nul included. -/
def VmEvent.Short : VmEvent → Prop
  | .exec _ _ image => ∀ arg ∈ image.args, arg.1.toNat < 2 ^ 25
  | _ => True

/-- Runs in which no argument of `exec` is longer. -/
abbrev Vm.RanShort (layout : Layout) : List VmEvent → Vm → Prop :=
  Within (Booted layout) (Vm.step layout) fun _ _ event => event.Short

end Xv6
