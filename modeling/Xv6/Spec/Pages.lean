import Xv6.Kernel.ProcVm

/-!
# Who owns a page

The uses the kernel has for the pages it allocates, read off its tables, and what it means that
every page has one use.
-/

namespace Xv6

/-- Whose page directory. -/
inductive Holder where
  | kernel
  /-- The `pgdir` of a process. -/
  | proc (p : Fin nProc)
  deriving DecidableEq

/-- The owners of pages. -/
inductive Owner where
  /-- A page directory. -/
  | pgdir (holder : Holder)
  /-- The page table at entry `i` of a page directory. -/
  | pgtab (pd i : Nat)
  /-- The user page at entry `j` of the page table at entry `i` of a page directory. -/
  | user (pd i j : Nat)
  /-- The kernel stack of a process. -/
  | kstack (p : Fin nProc)
  | pipe
  deriving DecidableEq

/-- A process has memory until it is reaped. -/
def Proc.Live (proc : Proc) : Prop := proc.state = .alive ∨ proc.state = .zombie

/-- A page has an owner. The user part of a page directory is its entries below `KERNBASE`. -/
inductive Owns (s : Vm) : Owner → Nat → Prop where
  /-- The kernel's page directory. -/
  | kpgdir (set : s.kpgdir ≠ 0) : Owns s (.pgdir .kernel) s.kpgdir
  /-- The page directory of a process. -/
  | pgdir {p : Fin nProc} (live : (s.proc p).Live) : Owns s (.pgdir (.proc p)) (s.proc p).pgdir
  | pgtab {holder : Holder} {pd i : Nat} (owned : Owns s (.pgdir holder) pd)
      (inside : i < npdEntries)
      (present : Present (s.mem pd i)) : Owns s (.pgtab pd i) (p2v (pteAddr (s.mem pd i)))
  | user {pd i pt j : Nat} (owned : Owns s (.pgtab pd i) pt) (below : i < pdx kernBase)
      (inside : j < npdEntries) (present : Present (s.mem pt j)) :
      Owns s (.user pd i j) (p2v (pteAddr (s.mem pt j)))
  | kstack {p : Fin nProc} (live : (s.proc p).Live) : Owns s (.kstack p) (s.proc p).kstack
  /-- A pipe that a file still refers to. -/
  | pipe {v : Nat} {writable : Bool} (opened : (v, writable) ∈ s.files) : Owns s .pipe v

/-- The free list from `v` on, as the first words of its pages link it. -/
inductive FreeList (mem : Nat → Page) : Nat → List Nat → Prop where
  /-- The null pointer ends the list. -/
  | nil : FreeList mem 0 []
  /-- A page, and the list its first word points to. -/
  | cons {v : Nat} {rest : List Nat} (page : v ≠ 0) (linked : FreeList mem (mem v 0) rest) :
      FreeList mem v (v :: rest)

/-- Every page has one use: it is on the free list once, or it has one owner. -/
structure Exclusive (s : Vm) : Prop where
  /-- The free list ends, has no page twice, and none that is in use. -/
  free : ∃ pages, FreeList s.mem s.freelist pages ∧ pages.Nodup ∧
    ∀ owner v, Owns s owner v → v ∉ pages
  /-- A page in use has one owner. -/
  alone : ∀ owner other v, Owns s owner v → Owns s other v → owner = other

end Xv6
