import Xv6.Spec.Pages

/-!
# Address spaces

What a page directory maps: for every page number the page its entries lead to, and what the page
holds. The user part is the pages below `KERNBASE`.
-/

namespace Xv6

/-- The page that an entry of a page directory or of a page table leads to. -/
def Vm.next (s : Vm) (v i : Nat) : Option Nat :=
  if Present (s.mem v i) then some (p2v (pteAddr (s.mem v i))) else none

/-- The page with number `k` in the address space of a page directory. -/
def Vm.leaf (s : Vm) (pd k : Nat) : Option Nat :=
  (s.next pd (k / npdEntries)).bind fun pt => s.next pt (k % npdEntries)

/-- An entry, if it is present. -/
def presentPte (w : Nat) : Option Nat := if Present w then some w else none

/-- The entry of a page table for the page with number `k`, if it is present. -/
def Vm.pte (s : Vm) (pd k : Nat) : Option Nat :=
  (s.next pd (k / npdEntries)).bind fun pt => presentPte (s.mem pt (k % npdEntries))

/-- What the page with number `k` holds, if it is present. -/
def Vm.page (s : Vm) (pd k : Nat) : Option Page := (s.leaf pd k).map s.mem

/-- The pages of a 32-bit address space. -/
def allPages : Nat := 2 ^ 32 / pgSize

/-- The pages below `KERNBASE`. -/
def userPages : Nat := kernBase / pgSize

/-- The user pages of a process are those below its size. -/
def Vm.Exact (s : Vm) (p : Fin nProc) : Prop :=
  ∀ k, k < userPages →
    ((s.page (s.proc p).pgdir k).isSome ↔ k * pgSize < pgRoundUp (s.proc p).sz)

/-- A page of zeros. -/
def zeroPage : Page := fun _ => 0

/-- A process has grown or shrunk by `n`. -/
structure Grew (s : Vm) (p : Fin nProc) (n : Int) (t : Vm) : Prop where
  /-- Its size says so. -/
  size : ((t.proc p).sz : Int) = (s.proc p).sz + n
  /-- Its pages are those below the new size. -/
  pages : t.Exact p
  /-- The pages below both sizes are as they were. -/
  kept : ∀ k, k < userPages → k * pgSize < pgRoundUp (s.proc p).sz →
    k * pgSize < pgRoundUp (t.proc p).sz →
    t.page (t.proc p).pgdir k = s.page (s.proc p).pgdir k
  /-- The new pages are zeroed. -/
  zeroed : ∀ k, k < userPages → ¬k * pgSize < pgRoundUp (s.proc p).sz →
    k * pgSize < pgRoundUp (t.proc p).sz → t.page (t.proc p).pgdir k = some zeroPage

/-- A process and its user pages are as they were. -/
structure Intact (s : Vm) (p : Fin nProc) (t : Vm) : Prop where
  /-- The slot of the process is. -/
  proc : t.proc p = s.proc p
  /-- The pages and what they hold are. -/
  page : ∀ k, k < userPages → t.page (s.proc p).pgdir k = s.page (s.proc p).pgdir k

/-- The page is on the free list. -/
def Vm.OnFreeList (s : Vm) (v : Nat) : Prop :=
  ∃ pages, FreeList s.mem s.freelist pages ∧ v ∈ pages

/-- How many calls of `kalloc` succeed before one fails, from the refusals to come and the number of
free pages. -/
def granted : List Bool → Nat → Nat
  | [], free => free
  | _ :: _, 0 => 0
  | refused :: later, free + 1 => if refused then 0 else granted later free + 1

/-- Of the coming calls of `kalloc`, the first that fails is the one after `n` others. -/
def Vm.FirstFails (s : Vm) (n : Nat) : Prop :=
  ∃ pages, FreeList s.mem s.freelist pages ∧ granted s.refusals pages.length = n

/-- In a call of `fork`, the first call of `kalloc` that fails is for a page table of the copy.
Before it come those for the kernel stack, the page directory and the 64 page tables of the kernel's
part, those for every 4 MB that have been copied (a page table and 1024 pages), and that for the
first page of the next 4 MB. -/
def Vm.LacksPageTable (s : Vm) (p : Fin nProc) : Prop :=
  (∃ q, (s.proc q).state = .unused) ∧
    ∃ m, m * 2 ^ 22 < (s.proc p).sz ∧ s.FirstFails (1 + 65 + 1025 * m + 1)

end Xv6
