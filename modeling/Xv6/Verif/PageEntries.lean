import Mathlib.Data.List.Nodup
import Xv6.Lib.Wp
import Xv6.Spec.Pages

/-!
# Pages and entries

The words of page directories and page tables as addresses with flags, and what the smallest
operations on memory do.
-/

namespace Xv6

open Lib Function

variable {layout : Layout} {s : Vm} {stops : String → Prop}

variable {pa flags v i va pd perm : Nat}

/-! ## Entries -/

/-- Flags in the low twelve bits of an aligned address. -/
theorem aligned_or (aligned : pa % pgSize = 0) (small : flags < pgSize) :
    pa ||| flags = pa + flags := by
  have shape : pa = 2 ^ 12 * (pa / 2 ^ 12) := by
    simp only [pgSize] at aligned
    omega
  rw [shape]
  exact (Nat.two_pow_add_eq_or_of_lt small _).symm

/-- A page as the kernel addresses it. -/
structure IsPage (layout : Layout) (v : Nat) : Prop where
  aligned : v % pgSize = 0
  behind : layout.kend ≤ v
  small : v < 2 ^ 32
  memory : v2p v < physTop

/-- The kernel ends above `KERNBASE`. -/
theorem Layout.kernBase_lt (layout : Layout) : kernBase < layout.kend := by
  have linked := layout.linked
  have order := layout.order
  simp only [kernLink, extMem, kernBase] at *
  omega

namespace IsPage

variable {layout : Layout} {v : Nat}

variable (page : IsPage layout v)

include page

/-- A page lies above `KERNBASE`. -/
theorem kernBase_lt : kernBase < v :=
  Nat.lt_of_lt_of_le layout.kernBase_lt page.behind

/-- A page is not the null pointer. -/
theorem ne_zero : v ≠ 0 :=
  Nat.ne_zero_of_lt page.kernBase_lt

/-- The physical address of a page, without wrapping around. -/
theorem v2p_eq : v2p v = v - kernBase := by
  have above := page.kernBase_lt
  have small := page.small
  simp only [v2p, uint, kernBase] at *
  omega

/-- The physical address of a page is aligned. -/
theorem v2p_aligned : v2p v % pgSize = 0 := by
  have above := page.kernBase_lt
  have aligned := page.aligned
  rw [page.v2p_eq]
  simp only [pgSize, kernBase] at *
  omega

/-- An entry with a page's physical address leads to the page. -/
theorem entry_page {flags : Nat} (small : flags < pgSize) :
    p2v (pteAddr (v2p v ||| flags)) = v := by
  have aligned := page.v2p_aligned
  have above := page.kernBase_lt
  have size := page.small
  rw [aligned_or aligned small, page.v2p_eq] at *
  simp only [p2v, pteAddr, uint, kernBase, pgSize] at *
  omega

end IsPage

/-- An aligned address with flags is present if the flags are. -/
theorem present_or (aligned : pa % pgSize = 0) (small : flags < pgSize) :
    Present (pa ||| flags) ↔ Present flags := by
  rw [aligned_or aligned small]
  simp only [Present, pgSize] at *
  omega

/-- An aligned address with flags is for the user if the flags are. -/
theorem forUser_or (aligned : pa % pgSize = 0) (small : flags < pgSize) :
    ForUser (pa ||| flags) ↔ ForUser flags := by
  rw [aligned_or aligned small]
  simp only [ForUser, pgSize] at *
  omega

/-! ## Flags -/

/-- The entry `mappages` writes, as an address and its flags. -/
theorem entry_flags (pa perm : Nat) : pa ||| perm ||| pteP = pa ||| (perm ||| pteP) :=
  Nat.or_assoc ..

/-- The flags of an entry fit its low twelve bits. -/
theorem flags_lt (small : perm < pgSize) : perm ||| pteP < pgSize :=
  Nat.or_lt_two_pow (n := 12) small (by decide)

/-- The flags of an entry say that it is present. -/
theorem flags_present (perm : Nat) : Present (perm ||| pteP) := by
  have low : (perm ||| pteP).testBit 0 = true := by simp [pteP]
  simpa [Present, Nat.testBit_zero] using low

/-- The flags of an entry are for the user if the permissions are. -/
theorem flags_forUser (perm : Nat) : ForUser (perm ||| pteP) ↔ ForUser perm := by
  have same : (perm ||| pteP).testBit 2 = perm.testBit 2 := by
    have clear : Nat.testBit 1 2 = false := rfl
    simp [pteP, clear]
  simpa [ForUser, Nat.testBit, Nat.shiftRight_eq_div_pow] using same

/-- Clearing `PTE_U` leaves the entry present or not. -/
theorem clearu_present (pte : Nat) : Present (pte - pteU * (pte / 2 ^ 2 % 2)) ↔ Present pte := by
  simp only [Present, pteU]
  omega

/-- Clearing `PTE_U` leaves the address. -/
theorem clearu_addr (pte : Nat) : pteAddr (pte - pteU * (pte / 2 ^ 2 % 2)) = pteAddr pte := by
  simp only [pteAddr, pteU]
  omega

/-! ## Stores, `kfree` and `mappages` -/

/-- The free list depends on the first words of its pages. -/
theorem FreeList.congr {mem mem' : Nat → Page} {pages : List Nat} (linked : FreeList mem v pages)
    (same : ∀ x ∈ pages, mem' x 0 = mem x 0) : FreeList mem' v pages := by
  induction linked with
  | nil => exact .nil
  | cons page linked ih =>
    apply FreeList.cons page
    rw [same _ (.head _)]
    exact ih fun x member => same x (.tail _ member)

/-- A free list has its pages in one order. -/
theorem FreeList.unique {mem : Nat → Page} {pages pages' : List Nat} (linked : FreeList mem v pages)
    (linked' : FreeList mem v pages') : pages = pages' := by
  induction linked generalizing pages' with
  | nil =>
    cases linked' with
    | nil => rfl
    | cons page => exact absurd rfl page
  | cons page _ ih =>
    cases linked' with
    | nil => exact absurd rfl page
    | cons _ rest' => rw [ih rest']

/-- What a store of one word does. -/
theorem setWord_spec {w : Nat} :
    Wp stops (setWord v i w)
      (fun _ t => t = { s with mem := update s.mem v (update (s.mem v) i w) }) s :=
  Wp.modify

/-- What a store of a page does. -/
theorem setPage_spec {page : Page} :
    Wp stops (setPage v page) (fun _ t => t = { s with mem := update s.mem v page }) s :=
  Wp.modify

/-- What `kfree` leaves in a page. -/
def junk (freelist : Nat) : Page := update (fun _ => 0x01010101) 0 freelist

/-- Its first word links the free list. -/
theorem junk_zero (freelist : Nat) : junk freelist 0 = freelist :=
  update_self ..

/-- `kfree` checks that its argument is a page and puts it on the free list. -/
theorem kfree_run (small : v < 2 ^ 32) (allowed : ¬IsPage layout v → stops "kfree") :
    Wp stops (kfree layout v) (fun _ t => IsPage layout v ∧
      t = { s with mem := update s.mem v (junk s.freelist), freelist := v }) s := by
  unfold kfree
  apply Wp.ite
  · intro refused
    apply Wp.throw_bind
    apply allowed
    intro page
    rcases refused with unaligned | early | late
    · exact unaligned page.aligned
    · exact Nat.not_lt_of_le page.behind early
    · exact Nat.not_lt_of_le late page.memory
  · intro passed
    have page : IsPage layout v := by
      simp only [not_or, ne_eq, Decidable.not_not] at passed
      exact ⟨passed.1, by omega, small, by omega⟩
    apply Wp.bind setPage_spec
    rintro _ _ rfl
    apply Wp.get
    apply Wp.bind setWord_spec
    rintro _ _ rfl
    apply Wp.mono Wp.modify
    rintro _ _ rfl
    exact ⟨page, by simp [junk]⟩

/-- An address has its page directory entry among the 1024. -/
theorem pdx_lt (small : va < 2 ^ 32) : pdx va < npdEntries := by
  simp only [pdx, npdEntries]
  omega

/-- `mappages` for one page makes one round. -/
theorem mappages_one (aligned : va % pgSize = 0) (small : va < 2 ^ 32) :
    mappages pd va pgSize pa perm = mappagesFrom pd perm 1 va pa := by
  have start : pgRoundDown va = va := by
    simp only [pgRoundDown, pgSize] at *
    omega
  have single : uint (pgRoundDown (uint (va + pgSize + (2 ^ 32 - 1))) + (2 ^ 32 - va)) / pgSize
      = 0 := by
    simp only [pgRoundDown, uint, pgSize] at *
    omega
  rw [mappages, start, single]

/-! ## The kernel's mappings -/

/-- The mapping lies in the kernel's part of the address space and is not for the user. -/
structure Kmap.Guarded (k : Kmap) : Prop where
  aligned : k.virt % pgSize = 0
  above : kernBase ≤ k.virt
  nonempty : 0 < uint (k.physEnd + (2 ^ 32 - k.physStart))
  below : k.virt + uint (k.physEnd + (2 ^ 32 - k.physStart)) ≤ 2 ^ 32
  phys : k.physStart % pgSize = 0
  permitted : k.perm < pgSize
  guarded : ¬ForUser k.perm

/-- The mappings of the kernel are guarded. -/
theorem kmap_guarded (layout : Layout) : ∀ k ∈ kmap layout, k.Guarded := by
  have aligned := layout.aligned
  have linked := layout.linked
  have order := layout.order
  have fits := layout.fits
  intro k member
  simp only [kmap, List.mem_cons, List.not_mem_nil, or_false] at member
  simp only [kernLink, extMem, kernBase, p2v, uint, pgSize] at aligned linked order fits
  rcases member with rfl | rfl | rfl | rfl
  all_goals
    constructor
    all_goals
      simp only [kernBase, kernLink, extMem, physTop, devSpace, v2p, uint, pteW, pgSize, ForUser]
        <;> omega

end Xv6
