import Xv6.Verif.PageOwnership

/-!
# The first process

A machine boots and `userinit` makes its first process. Most of memory is still free.
-/

namespace Xv6

open Lib

variable {layout : Layout} {s t : Vm}

/-- An operation that ends is a step. -/
theorem Vm.step_of_ends {event : VmEvent} (ends : event.run layout s = .ok ((), t)) :
    s.step layout event = some t := by
  rw [Vm.step, ends]

/-- `kalloc` grants no more pages than there are. -/
theorem granted_le (refusals : List Bool) (free : Nat) : granted refusals free ≤ free := by
  induction refusals generalizing free with
  | nil => exact Nat.le_refl free
  | cons refused later ih =>
    cases free with
    | zero => exact Nat.le_refl 0
    | succ free =>
      unfold granted
      split
      · exact Nat.zero_le _
      · exact Nat.succ_le_succ (ih free)

/-- The kernel loaded at 1 MB, with 36 KB of text and 48 KB of data. -/
def smallKernel : Layout where
  data := 0x80109000
  kend := 0x80115000
  aligned := by decide
  linked := by decide
  order := by decide
  fits := by decide

/-- The machine before `main`. -/
def powerOn : Vm where
  mem := fun _ _ => 0
  freelist := 0
  refusals := []
  kpgdir := 0
  proc := fun _ => ⟨.unused, 0, 0, 0, none⟩
  initproc := none
  files := []

/-- The first process, on a machine with free memory. -/
structure First (s : Vm) (p : Fin nProc) (free : List Nat) : Prop where
  balanced : Balanced smallKernel s free
  supply : 40000 ≤ free.length
  alive : (s.proc p).state = .alive
  size : (s.proc p).sz = pgSize
  pages : s.Exact p
  /-- The process may store to its page. -/
  entry : ∃ w, s.pte (s.proc p).pgdir 0 = some w ∧ Writable w ∧ ForUser w
  /-- There are slots for other processes. -/
  slot : ∃ q, (s.proc q).state = .unused

/-- A machine on which the first process runs. -/
theorem firstProcess_runs : ∃ s p free,
    Vm.RanShort smallKernel [.userinit [] ⟨id, id⟩ 0] s ∧ First s p free := by
  have unbooted : Unbooted powerOn := ⟨rfl, rfl, fun _ => rfl, rfl, rfl⟩
  have booting : Wp (fun _ => False) (boot smallKernel 0) _ powerOn := boot_balanced unbooted 0
  obtain ⟨⟨⟩, s, boots, free, balanced, count, unused, init⟩ := booting.ends
  have ready : Balanced smallKernel { s with refusals := [] } free :=
    balanced.congr rfl rfl rfl rfl rfl
  have enough : 68 ≤ grants { s with refusals := [] } ⟨none, free, []⟩ :=
    Nat.le_trans (by decide) count
  have made : Wp (fun _ => False) (VmEvent.run smallKernel (.userinit [] ⟨id, id⟩ 0))
      (fun _ t => ∃ p free', First t p free') s := by
    apply Wp.get
    apply Wp.ite
    · exact fun set => absurd init set
    intro _
    apply Wp.bind Wp.modify
    rintro _ _ rfl
    apply Wp.mono (userinit_makes ready ⟨id, id⟩
      (.inr ⟨enough, by decide, ⟨0, by decide⟩, unused _⟩))
    rintro _ t ⟨free', balanced', made⟩
    obtain ⟨cost, p, w, others, alive, size, pages, entry, writable, forUser⟩ := made enough
    refine ⟨p, free', balanced', ?_, alive, size, pages, ⟨w, entry, writable, forUser⟩, ?_⟩
    · have left : grants t ⟨none, free', []⟩ ≤ free'.length := granted_le _ _
      have all : grants { s with refusals := [] } ⟨none, free, []⟩ = free.length := rfl
      omega
    · obtain ⟨q, apart⟩ := exists_ne (show Fin 64 from p)
      exact ⟨q, by rw [others q apart]; exact unused q⟩
  obtain ⟨⟨⟩, t, ends, p, free', first⟩ := made.ends
  exact ⟨t, p, free', .cons (.nil ⟨powerOn, 0, unbooted, boots⟩) trivial
    (Vm.step_of_ends ends), first⟩

end Xv6
