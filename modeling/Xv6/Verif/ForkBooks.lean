import Xv6.Verif.FirstProcess

/-!
# What a failed `fork` gives back

`fork` takes a page for the kernel stack, and `copyuvm` takes pages for the address space of the
child. A failure frees them all, except where `kalloc` fails for a page table of the copy: the page
for the copy is in no page table yet, and nothing frees it.
-/

namespace Xv6

open Lib

variable {layout : Layout} {s t : Vm} {b : Books} {free lost : List Nat} {p : Fin nProc} {v : Nat}

/-- The pages on the free list are those the books say. -/
theorem Audited.onFreeList (audited : Audited layout s b) (v : Nat) :
    s.OnFreeList v ↔ v ∈ b.free := by
  constructor
  · rintro ⟨pages, linked, member⟩
    rwa [linked.unique audited.list] at member
  · exact fun member => ⟨b.free, audited.list, member⟩

/-- The first call of `kalloc` that fails, by the books. -/
theorem Audited.firstFails (audited : Audited layout s b) (n : Nat) :
    s.FirstFails n ↔ grants s b = n := by
  constructor
  · rintro ⟨pages, linked, count⟩
    rwa [linked.unique audited.list] at count
  · exact fun count => ⟨b.free, audited.list, count⟩

section

variable {free' : List Nat} (shifts : Shifts layout s ⟨none, free, []⟩ t ⟨none, free', lost⟩)

include shifts

/-- The pages that were free are free or lost. -/
theorem Shifts.free_or_lost (v : Nat) : v ∈ free' ∨ v ∈ lost ↔ v ∈ free := by
  have rootless (n : Node) : t.node none n = none := by
    cases n <;> simp [Vm.node]
  rw [← Books.has_free s free v, ← shifts.has v]
  simp [Books.Has, Books.loose, rootless]

/-- A lost page is not on the free list. -/
theorem Shifts.not_free (member : v ∈ lost) : ¬t.OnFreeList v := by
  rw [shifts.audited.onFreeList]
  exact fun onList => List.disjoint_of_nodup_append shifts.audited.once onList member

/-- The free list is as it was exactly if no page has been lost. -/
theorem Shifts.same_free : (∀ v, t.OnFreeList v ↔ v ∈ free) ↔ lost = [] := by
  constructor
  · intro same
    refine List.eq_nil_iff_forall_not_mem.mpr fun v member => shifts.not_free member ?_
    exact (same v).mpr ((shifts.free_or_lost v).mp (.inr member))
  · rintro rfl v
    rw [shifts.audited.onFreeList, ← shifts.free_or_lost]
    simp

end

/-- A failed `fork` loses a page where `kalloc` fails for a page table of the copy. -/
theorem Balanced.fork_failed (balanced : Balanced layout s free) (alive : (s.proc p).state = .alive)
    (refusals : List Bool) (fails : fork layout p { s with refusals := refusals } = .ok (none, t)) :
    t.proc p = s.proc p ∧ ∃ free' lost, Shifts layout s ⟨none, free, []⟩ t ⟨none, free', lost⟩ ∧
      (lost ≠ [] ↔ Vm.LacksPageTable { s with refusals := refusals } p) := by
  obtain ⟨c, c_eq⟩ : ∃ c, c = ({ s with refusals := refusals } : Vm) := ⟨_, rfl⟩
  rw [← c_eq] at fails ⊢
  have words : c.mem = s.mem := by rw [c_eq]
  have proc : c.proc = s.proc := by rw [c_eq]
  have balanced' : Balanced layout c free := by
    rw [c_eq]
    exact balanced.congr rfl rfl rfl rfl rfl
  have calls : Wp anyPanic (fork layout p) _ c :=
    fork_forks balanced' (by rw [proc, alive]) (.inl fun _ => trivial)
  obtain ⟨-, others, free', lost, shifts, lacks⟩ := calls.ok fails
  have same : Shifts layout s ⟨none, free, []⟩ c ⟨none, free, []⟩ :=
    .of_mem balanced.ledger.list words (by rw [c_eq])
  refine ⟨?_, free', lost, same.trans shifts, lacks.trans ?_⟩
  · rw [others p (.inl (by rw [proc, alive]; nofun)), proc]
  · unfold Vm.LacksPageTable LacksTable
    simp only [balanced'.ledger.list.firstFails, ← exists_and_left]
    refine exists_congr fun m => and_congr_right fun _ => ?_
    simp only [npdEntries, pgSize]
    omega

/-- In every run a `fork` that fails leaves the parent and the pages in use, and it leaves the free
list as it was exactly if the first call of `kalloc` that fails is not for a page table of the
copy. -/
theorem fork_failure_frees {past : List VmEvent} (run : Vm.RanShort layout past s) {p : Fin nProc}
    (alive : (s.proc p).state = .alive) (refusals : List Bool)
    (fails : fork layout p { s with refusals := refusals } = .ok (none, t)) :
    ((∀ v, t.OnFreeList v ↔ s.OnFreeList v) ↔
      ¬Vm.LacksPageTable { s with refusals := refusals } p) ∧
    t.proc p = s.proc p ∧ ∀ owner v, Owns s owner v → t.mem v = s.mem v := by
  obtain ⟨free, balanced⟩ := run.balanced
  obtain ⟨proc, free', lost, shifts, lacks⟩ := balanced.fork_failed alive refusals fails
  refine ⟨?_, proc, fun owner v owns => ?_⟩
  · rw [← lacks, not_not, ← shifts.same_free]
    simp only [balanced.ledger.list.onFreeList]
  · apply shifts.outside
    rw [Books.has_free]
    obtain ⟨c, v', n, claims, -, under, -⟩ := owns_claim owns
    exact balanced.ledger.not_free claims under

/-- The first refusal among enough pages. -/
theorem granted_replicate (n : Nat) {free : Nat} (enough : n < free) :
    granted (List.replicate n false ++ [true]) free = n := by
  induction n generalizing free with
  | zero =>
    obtain ⟨free, rfl⟩ := Nat.exists_eq_succ_of_ne_zero (Nat.ne_of_gt enough)
    rfl
  | succ n ih =>
    obtain ⟨free, rfl⟩ := Nat.exists_eq_succ_of_ne_zero (Nat.ne_zero_of_lt enough)
    rw [List.replicate_succ, List.cons_append, granted, if_neg nofun,
      ih (Nat.lt_of_succ_lt_succ enough)]

/-- With too few pages the first process cannot fork. -/
theorem First.fork_fails (first : First s p free) (refusals : List Bool)
    (few : granted refusals free.length < 68) :
    ∃ t, fork smallKernel p { s with refusals := refusals } = .ok (none, t) := by
  have balanced : Balanced smallKernel { s with refusals := refusals } free :=
    first.balanced.congr rfl rfl rfl rfl rfl
  obtain ⟨w, entry, -⟩ := first.entry
  have present (x : Nat) (below : x * pgSize < (s.proc p).sz) :
      s.pte (s.proc p).pgdir x ≠ none := by
    rw [first.size] at below
    obtain rfl : x = 0 := by
      simp only [pgSize] at below
      omega
    rw [entry]
    exact Option.some_ne_none w
  obtain ⟨r, t, ends, -, forked⟩ :=
    (fork_forks balanced first.alive (.inr fun x _ => present x)).ends
  cases r with
  | none => exact ⟨t, ends⟩
  | some np =>
    have enough := forked.2.1 (by rw [first.size]; decide)
    exact absurd few (Nat.not_lt.mpr enough)

/-- The first process forks, with pages for the kernel stack, the page directory and the page tables
of the kernel's part, and none for the copy of its page: all 66 pages are free again. -/
theorem fork_failure_frees_init : ∃ past s p t, Vm.RanShort smallKernel past s ∧
    (s.proc p).state = .alive ∧
    fork smallKernel p { s with refusals := List.replicate 66 false ++ [true] } = .ok (none, t) ∧
    (∀ v, t.OnFreeList v ↔ s.OnFreeList v) ∧ t.proc p = s.proc p ∧
    ∀ owner v, Owns s owner v → t.mem v = s.mem v := by
  obtain ⟨s, p, free, run, first⟩ := firstProcess_runs
  have count : granted (List.replicate 66 false ++ [true]) free.length = 66 :=
    granted_replicate 66 (Nat.lt_of_lt_of_le (by decide) first.supply)
  obtain ⟨t, fails⟩ := first.fork_fails _ (by rw [count]; decide)
  obtain ⟨same, rest⟩ := fork_failure_frees run first.alive _ fails
  refine ⟨_, s, p, t, run, first.alive, fails, same.mpr ?_, rest⟩
  rintro ⟨-, m, -, pages, linked, short⟩
  rw [linked.unique first.balanced.ledger.list.list, count] at short
  omega

/-- The first process forks, with a page for the copy of its page and none for the page table of the
copy: a page of the free list is lost. -/
theorem fork_loses_page : ∃ past s p t v, Vm.RanShort smallKernel past s ∧
    (s.proc p).state = .alive ∧
    fork smallKernel p { s with refusals := List.replicate 67 false ++ [true] } = .ok (none, t) ∧
    s.OnFreeList v ∧ ¬t.OnFreeList v := by
  obtain ⟨s, p, free, run, first⟩ := firstProcess_runs
  have count : granted (List.replicate 67 false ++ [true]) free.length = 67 :=
    granted_replicate 67 (Nat.lt_of_lt_of_le (by decide) first.supply)
  obtain ⟨t, fails⟩ := first.fork_fails _ (by rw [count]; decide)
  obtain ⟨-, free', lost, shifts, lacks⟩ := first.balanced.fork_failed first.alive _ fails
  obtain ⟨v, member⟩ := List.exists_mem_of_ne_nil _ (lacks.mpr ⟨first.slot, 0,
    by rw [show (s.proc p).sz = pgSize from first.size]; decide,
    free, first.balanced.ledger.list.list, count⟩)
  refine ⟨_, s, p, t, v, run, first.alive, fails, ?_, shifts.not_free member⟩
  rw [first.balanced.ledger.list.onFreeList]
  exact (shifts.free_or_lost v).mp (.inr member)

end Xv6
