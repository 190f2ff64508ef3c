import Mathlib.Algebra.Ring.Nat
import Mathlib.Tactic.Common

/-!
# Physical pages and page tables

The page allocator of `kalloc.c` and the page tables of `vm.c`. Memory is the pages the kernel can
address, each an array of words, named by its kernel virtual address: a free page holds the link of
the free list in its first word, a page directory or a page table holds its entries. Addresses and
sizes are natural numbers, reduced modulo `2^32` where the code can wrap around. `kalloc` may fail
at any point: a run carries the list of its refusals. What is stored to a user page is an input of
the run. A panic stops the run.
-/

namespace Xv6

open Function

/-- `PGSIZE`: bytes mapped by a page. -/
def pgSize : Nat := 4096

/-- `NPDENTRIES`: directory entries per page directory, and as many entries per page table. -/
def npdEntries : Nat := 1024

/-- `KERNBASE`: first kernel virtual address. -/
def kernBase : Nat := 0x80000000

/-- `EXTMEM`: start of extended memory. -/
def extMem : Nat := 0x100000

/-- `KERNLINK`: address where kernel is linked. -/
def kernLink : Nat := kernBase + extMem

/-- `PHYSTOP`: top physical memory. -/
def physTop : Nat := 0xE000000

/-- `DEVSPACE`: other devices are at high addresses. -/
def devSpace : Nat := 0xFE000000

/-- The value of an unsigned 32-bit computation. -/
def uint (n : Nat) : Nat := n % 2 ^ 32

/-- `V2P`. -/
def v2p (a : Nat) : Nat := uint (a + (2 ^ 32 - kernBase))

/-- `P2V`. -/
def p2v (a : Nat) : Nat := uint (a + kernBase)

/-- `PGROUNDUP`. -/
def pgRoundUp (sz : Nat) : Nat := uint (sz + pgSize - 1) / pgSize * pgSize

/-- `PGROUNDDOWN`. -/
def pgRoundDown (a : Nat) : Nat := a / pgSize * pgSize

/-- `PDX`: page directory index. A 32-bit address has ten bits there. -/
def pdx (va : Nat) : Nat := va / 2 ^ 22

/-- `PTX`: page table index. -/
def ptx (va : Nat) : Nat := va / 2 ^ 12 % 2 ^ 10

/-- `PTE_P`: present. -/
def pteP : Nat := 1

/-- `PTE_W`: writeable. -/
def pteW : Nat := 2

/-- `PTE_U`: user. -/
def pteU : Nat := 4

/-- `PTE_ADDR`. -/
def pteAddr (pte : Nat) : Nat := pte / 2 ^ 12 * 2 ^ 12

/-- `PTE_FLAGS`. -/
def pteFlags (pte : Nat) : Nat := pte % 2 ^ 12

/-- `pte & PTE_P`. -/
def Present (pte : Nat) : Prop := pte % 2 = 1

instance (pte : Nat) : Decidable (Present pte) := inferInstanceAs (Decidable (_ = _))

/-- `pte & PTE_W`. -/
def Writable (pte : Nat) : Prop := pte / 2 % 2 = 1

instance (pte : Nat) : Decidable (Writable pte) := inferInstanceAs (Decidable (_ = _))

/-- `pte & PTE_U`. -/
def ForUser (pte : Nat) : Prop := pte / 2 ^ 2 % 2 = 1

instance (pte : Nat) : Decidable (ForUser pte) := inferInstanceAs (Decidable (_ = _))

/-- Where the linker has put the kernel (`kernel.ld`). -/
structure Layout where
  /-- `data`: the beginning of the data section, on a page boundary after text and read-only data.
  -/
  data : Nat
  /-- `end`: first address after kernel loaded from ELF file. -/
  kend : Nat
  /-- The data section starts on a page boundary. -/
  aligned : data % pgSize = 0
  /-- The text comes first. -/
  linked : kernLink < data
  /-- The data section comes before the end. -/
  order : data ≤ kend
  /-- The kernel fits the memory mapped at boot. -/
  fits : kend ≤ p2v (4 * 1024 * 1024)

/-- The state of a slot of the process table, as far as memory is concerned. -/
inductive SlotState where
  | unused
  | embryo
  /-- `SLEEPING`, `RUNNABLE` or `RUNNING`. -/
  | alive
  | zombie
  deriving DecidableEq

/-- `NPROC`: maximum number of processes. -/
def nProc : Nat := 64

/-- The fields of `struct proc` that have to do with memory. -/
structure Proc where
  state : SlotState
  /-- Size of process memory (bytes). -/
  sz : Nat
  pgdir : Nat
  /-- Bottom of kernel stack for this process. -/
  kstack : Nat
  parent : Option (Fin nProc)

/-- The words of a page. -/
abbrev Page : Type := Nat → Nat

/-- Memory and who uses it. -/
structure Vm where
  /-- The pages, by kernel virtual address. -/
  mem : Nat → Page
  freelist : Nat
  /-- For the coming calls of `kalloc`, whether it fails. -/
  refusals : List Bool
  kpgdir : Nat
  proc : Fin nProc → Proc
  initproc : Option (Fin nProc)
  /-- The open files of type `FD_PIPE`: the pipe and whether this is its write end. -/
  files : List (Nat × Bool)

/-- A kernel computation over memory, which may panic. -/
abbrev VmM : Type → Type := StateT Vm (Except String)

/-- Store one word of a page. -/
def setWord (page i value : Nat) : VmM Unit :=
  modify fun s => { s with
    mem := update s.mem page (update (s.mem page) i value) }

/-- Store all words of a page. -/
def setPage (page : Nat) (words : Page) : VmM Unit :=
  modify fun s => { s with mem := update s.mem page words }

/-! ## `kalloc.c` -/

section Kalloc

variable (layout : Layout)

/-- `kfree`. -/
def kfree (v : Nat) : VmM Unit := do
  if v % pgSize ≠ 0 ∨ v < layout.kend ∨ v2p v ≥ physTop then throw "kfree"
  -- Fill with junk to catch dangling refs.
  setPage v fun _ => 0x01010101
  setWord v 0 (← get).freelist
  modify fun s => { s with freelist := v }

/-- The loop of `freerange`. -/
def freerangeFrom (vend p : Nat) : VmM Unit :=
  if p + pgSize ≤ vend then do
    kfree layout p
    freerangeFrom vend (p + pgSize)
  else pure ()
termination_by vend - p
decreasing_by simp only [pgSize] at *; omega

/-- `freerange`. -/
def freerange (vstart vend : Nat) : VmM Unit :=
  freerangeFrom layout vend (pgRoundUp vstart)

/-- `kalloc`: 0 if the memory cannot be allocated. -/
def kalloc : VmM Nat := do
  let s ← get
  if s.refusals.headD false then
    set { s with refusals := s.refusals.tail }
    return 0
  else
    let r := s.freelist
    if r ≠ 0 then
      set { s with refusals := s.refusals.tail, freelist := s.mem r 0 }
    else
      set { s with refusals := s.refusals.tail }
    return r

end Kalloc

/-! ## `vm.c` -/

/-- `walkpgdir`: the page table and the index in it of the entry for `va`. -/
def walkpgdir (pgdir va : Nat) (alloc : Bool) : VmM (Option (Nat × Nat)) := do
  let pde := (← get).mem pgdir (pdx va)
  if Present pde then
    return some (p2v (pteAddr pde), ptx va)
  else if alloc = false then
    return none
  else
    let pgtab ← kalloc
    if pgtab = 0 then
      return none
    -- Make sure all those PTE_P bits are zero.
    setPage pgtab fun _ => 0
    setWord pgdir (pdx va) (v2p pgtab ||| pteP ||| pteW ||| pteU)
    return some (pgtab, ptx va)

/-- The loop of `mappages`, for the pages from `a` to `last`. -/
def mappagesFrom (pgdir perm : Nat) : Nat → Nat → Nat → VmM Bool
  | 0, _, _ => pure true
  | count + 1, a, pa => do
    match ← walkpgdir pgdir a true with
    | none => return false
    | some (pgtab, i) =>
      if Present ((← get).mem pgtab i) then throw "remap"
      setWord pgtab i (pa ||| perm ||| pteP)
      mappagesFrom pgdir perm count (uint (a + pgSize)) (uint (pa + pgSize))

/-- `mappages`. -/
def mappages (pgdir va size pa perm : Nat) : VmM Bool :=
  let a := pgRoundDown va
  let last := pgRoundDown (uint (va + size + (2 ^ 32 - 1)))
  mappagesFrom pgdir perm (uint (last + (2 ^ 32 - a)) / pgSize + 1) a pa

/-- The loop of `deallocuvm`. -/
def deallocuvmFrom (layout : Layout) (pgdir oldsz a : Nat) : VmM Unit :=
  if a < oldsz then do
    match ← walkpgdir pgdir a false with
    | none =>
      -- a = PGADDR(PDX(a) + 1, 0, 0) - PGSIZE, and then a += PGSIZE
      deallocuvmFrom layout pgdir oldsz ((pdx a + 1) * 2 ^ 22)
    | some (pgtab, i) =>
      let pte := (← get).mem pgtab i
      if Present pte then
        let pa := pteAddr pte
        if pa = 0 then throw "kfree"
        kfree layout (p2v pa)
        setWord pgtab i 0
      deallocuvmFrom layout pgdir oldsz (a + pgSize)
  else pure ()
termination_by oldsz - a
decreasing_by all_goals simp only [pgSize, pdx] at *; omega

/-- `deallocuvm`. -/
def deallocuvm (layout : Layout) (pgdir oldsz newsz : Nat) : VmM Nat := do
  if newsz ≥ oldsz then
    return oldsz
  else
    deallocuvmFrom layout pgdir oldsz (pgRoundUp newsz)
    return newsz

/-- The second loop of `freevm`: the page tables. -/
def freevmFrom (layout : Layout) (pgdir : Nat) : List Nat → VmM Unit
  | [] => pure ()
  | i :: rest => do
    let pde := (← get).mem pgdir i
    if Present pde then kfree layout (p2v (pteAddr pde))
    freevmFrom layout pgdir rest

/-- `freevm`. -/
def freevm (layout : Layout) (pgdir : Nat) : VmM Unit := do
  if pgdir = 0 then throw "freevm: no pgdir"
  let _ ← deallocuvm layout pgdir kernBase 0
  freevmFrom layout pgdir (List.range npdEntries)
  kfree layout pgdir

/-- `struct kmap`. -/
structure Kmap where
  virt : Nat
  /-- First physical address. -/
  physStart : Nat
  /-- End of the physical range. -/
  physEnd : Nat
  perm : Nat

/-- `kmap`: the kernel's mappings, which are present in every process's page table. -/
def kmap (layout : Layout) : List Kmap :=
  [⟨kernBase, 0, extMem, pteW⟩,
   ⟨kernLink, v2p kernLink, v2p layout.data, 0⟩,
   ⟨layout.data, v2p layout.data, physTop, pteW⟩,
   ⟨devSpace, devSpace, 0, pteW⟩]

/-- The loop of `setupkvm`. -/
def setupkvmFrom (layout : Layout) (pgdir : Nat) : List Kmap → VmM Nat
  | [] => return pgdir
  | k :: rest => do
    if ← mappages pgdir k.virt (uint (k.physEnd + (2 ^ 32 - k.physStart))) k.physStart k.perm then
      setupkvmFrom layout pgdir rest
    else
      freevm layout pgdir
      return 0

/-- `setupkvm`. -/
def setupkvm (layout : Layout) : VmM Nat := do
  let pgdir ← kalloc
  if pgdir = 0 then
    return 0
  setPage pgdir fun _ => 0
  if p2v physTop > devSpace then throw "PHYSTOP too high"
  setupkvmFrom layout pgdir (kmap layout)

/-- `kvmalloc`. -/
def kvmalloc (layout : Layout) : VmM Unit := do
  let kpgdir ← setupkvm layout
  modify fun s => { s with kpgdir := kpgdir }

/-- The loop of `allocuvm`. -/
def allocuvmFrom (layout : Layout) (pgdir oldsz newsz a : Nat) : VmM Nat :=
  if a < newsz then do
    let mem ← kalloc
    if mem = 0 then
      let _ ← deallocuvm layout pgdir newsz oldsz
      return 0
    setPage mem fun _ => 0
    if ← mappages pgdir a pgSize (v2p mem) (pteW ||| pteU) then
      allocuvmFrom layout pgdir oldsz newsz (a + pgSize)
    else
      let _ ← deallocuvm layout pgdir newsz oldsz
      kfree layout mem
      return 0
  else return newsz
termination_by newsz - a
decreasing_by simp only [pgSize] at *; omega

/-- `allocuvm`: the new size, or 0 on error. -/
def allocuvm (layout : Layout) (pgdir oldsz newsz : Nat) : VmM Nat := do
  if newsz ≥ kernBase then
    return 0
  else if newsz < oldsz then
    return oldsz
  else
    allocuvmFrom layout pgdir oldsz newsz (pgRoundUp oldsz)

/-- `clearpteu`. -/
def clearpteu (pgdir uva : Nat) : VmM Unit := do
  match ← walkpgdir pgdir uva false with
  | none => throw "clearpteu"
  | some (pgtab, i) =>
    let pte := (← get).mem pgtab i
    setWord pgtab i (pte - pteU * (pte / 2 ^ 2 % 2))

/-- The loop of `copyuvm`. -/
def copyuvmFrom (layout : Layout) (pgdir sz d i : Nat) : VmM Nat :=
  if i < sz then do
    match ← walkpgdir pgdir i false with
    | none => throw "copyuvm: pte should exist"
    | some (pgtab, j) =>
      let pte := (← get).mem pgtab j
      if ¬Present pte then throw "copyuvm: page not present"
      let mem ← kalloc
      if mem = 0 then
        freevm layout d
        return 0
      setPage mem ((← get).mem (p2v (pteAddr pte)))
      if ← mappages d i pgSize (v2p mem) (pteFlags pte) then
        copyuvmFrom layout pgdir sz d (i + pgSize)
      else
        freevm layout d
        return 0
  else return d
termination_by sz - i
decreasing_by simp only [pgSize] at *; omega

/-- `copyuvm`. -/
def copyuvm (layout : Layout) (pgdir sz : Nat) : VmM Nat := do
  let d ← setupkvm layout
  if d = 0 then
    return 0
  copyuvmFrom layout pgdir sz d 0

/-! ## Stores to mapped pages -/

/-- What a store does. -/
structure Paint where
  /-- What it does to the words of the page. -/
  page : Page → Page
  /-- What it does to the process table, if the page is one of the kernel's data. -/
  table : (Fin nProc → Proc) → Fin nProc → Proc := id

/-- A store to a page. The kernel's data are kept apart from its pages. -/
def store (layout : Layout) (page : Nat) (paint : Paint) : VmM Unit := do
  setPage page (paint.page ((← get).mem page))
  if layout.data ≤ page ∧ page < layout.kend then
    modify fun s => { s with proc := paint.table s.proc }

/-- The page that the processor finds for an address under the page directory it uses, if the entry
allows the access. -/
def translate (cr3 va : Nat) (allows : Nat → Prop) [DecidablePred allows] : VmM Nat := do
  match ← walkpgdir cr3 va false with
  | none => throw "page fault"
  | some (pgtab, i) =>
    let pte := (← get).mem pgtab i
    if Present pte ∧ allows pte then
      return p2v (pteAddr pte)
    else throw "page fault"

/-- A store of the kernel, to a page at `va`. Its data and the memory behind them are mapped at
their own addresses; any other address is what the current process has there. -/
def kstore (layout : Layout) (cr3 va : Nat) (paint : Paint) : VmM Unit := do
  if layout.data ≤ va ∧ va < p2v physTop then
    store layout va paint
  else
    store layout (← translate cr3 va Writable) paint

/-- `*pte`, for a `pte` from `walkpgdir`. The null pointer is address 0 of the current process. -/
def readPte (cr3 : Nat) : Option (Nat × Nat) → VmM Nat
  | some (pgtab, i) => return (← get).mem pgtab i
  | none => do
    let page ← translate cr3 0 fun _ => True
    return (← get).mem page 0

/-- `uva2ka`: 0 if the page is not mapped for the user. The code does not check what `walkpgdir`
returns. -/
def uva2ka (cr3 pgdir uva : Nat) : VmM Nat := do
  let pte ← readPte cr3 (← walkpgdir pgdir uva false)
  if ¬Present pte then
    return 0
  else if ¬ForUser pte then
    return 0
  else
    return p2v (pteAddr pte)

/-- `copyout`, with the store it makes to each page it reaches. -/
def copyout (layout : Layout) (cr3 pgdir va : Nat) (paint : Nat → Paint) (len : Nat) : VmM Bool :=
  if 0 < len then do
    let va0 := pgRoundDown va
    let pa0 ← uva2ka cr3 pgdir va0
    if pa0 = 0 then
      return false
    let n := min (pgSize - va % pgSize) len
    kstore layout cr3 pa0 (paint len)
    copyout layout cr3 pgdir (uint (va0 + pgSize)) paint (len - n)
  else return true
termination_by len
decreasing_by
  simp only [pgSize]
  omega

/-- The loop of `loaduvm`: what `readi` stores into each page, and whether it is all it should. -/
def loaduvmFrom (pgdir addr sz : Nat) (readi : Nat → Paint × Bool) (i : Nat) : VmM Bool :=
  if i < sz then do
    match ← walkpgdir pgdir (uint (addr + i)) false with
    | none => throw "loaduvm: address should exist"
    | some (pgtab, j) =>
      let pa := pteAddr ((← get).mem pgtab j)
      setPage (p2v pa) ((readi i).1.page ((← get).mem (p2v pa)))
      if (readi i).2 then
        loaduvmFrom pgdir addr sz readi (i + pgSize)
      else
        return false
  else return true
termination_by sz - i
decreasing_by simp only [pgSize] at *; omega

/-- `loaduvm`. -/
def loaduvm (pgdir addr sz : Nat) (readi : Nat → Paint × Bool) : VmM Bool := do
  if addr % pgSize ≠ 0 then throw "loaduvm: addr must be page aligned"
  loaduvmFrom pgdir addr sz readi 0

/-- `inituvm`. The code does not check `kalloc`'s result, and `memset` through the null pointer
traps; nor does it check that of `mappages`. -/
def inituvm (pgdir : Nat) (init : Paint) (sz : Nat) : VmM Unit := do
  if sz ≥ pgSize then throw "inituvm: more than a page"
  let mem ← kalloc
  if mem = 0 then throw "trap"
  setPage mem fun _ => 0
  let _ ← mappages pgdir 0 pgSize (v2p mem) (pteW ||| pteU)
  setPage mem (init.page ((← get).mem mem))

end Xv6
