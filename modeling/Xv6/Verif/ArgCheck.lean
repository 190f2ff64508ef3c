import Xv6.Kernel.Syscall
import Xv6.Verif.ExecOverrun

/-!
# System calls stay in the memory of their process

The checks of `syscall.c` are made in wrapping arithmetic. They are right because the memory of a
process ends below `KERNBASE`, so that no sum of an address in it and an `int` wraps around. A
process that has its page table among its pages can set its size to anything.
-/

namespace Xv6

open Lib Function

/-- The string at `p` of length `l` and its nul are in the memory of the process. -/
structure Caller.IsString (c : Caller) (p : UInt32) (l : Int32) : Prop where
  length : 0 ≤ l.toInt
  inside : (p.toNat : Int) + l.toInt < c.sz.toNat
  nul : c.mem (p + l.toUInt32) = 0
  first : ∀ k : UInt32, (k.toNat : Int) < l.toInt → c.mem (p + k) ≠ 0

/-- What the functions give lies in the memory of the process. -/
structure Caller.Checked (c : Caller) : Prop where
  fetchint : ∀ addr v, c.fetchint addr = some v → addr.toNat + 4 ≤ c.sz.toNat ∧ v = c.word addr
  argint : ∀ n v, c.argint n = some v →
    (c.argaddr n).toNat + 4 ≤ c.sz.toNat ∧ v = c.word (c.argaddr n)
  argptr : ∀ n size p, c.argptr n size = some p →
    0 ≤ size.toInt ∧ (p.toNat : Int) + size.toInt ≤ c.sz.toNat
  fetchstr : ∀ addr p l, c.fetchstr addr = some (p, l) → p = addr ∧ c.IsString p l
  argstr : ∀ n p l, c.argstr n = some (p, l) → c.IsString p l

namespace Caller

variable {c : Caller}

/-- A word below the size, without wrapping around. -/
theorem fetchint_inside (small : c.sz.toNat < kernBase) {addr : UInt32} {v : Int32}
    (fetched : c.fetchint addr = some v) : addr.toNat + 4 ≤ c.sz.toNat ∧ v = c.word addr := by
  unfold fetchint at fetched
  split at fetched
  · cases fetched
  · rename_i passed
    rw [not_or, UInt32.not_le, UInt32.not_lt, UInt32.lt_iff_toNat_lt, UInt32.le_iff_toNat_le,
      UInt32.toNat_add] at passed
    have four : (4 : UInt32).toNat = 4 := rfl
    refine ⟨?_, (Option.some.inj fetched).symm⟩
    simp only [kernBase] at small
    omega

/-- A natural number as an `int` and as a `uint`. -/
theorem toNat_toUInt32 {x : Int32} (nonneg : 0 ≤ x.toInt) : (x.toUInt32.toNat : Int) = x.toInt := by
  have signed : x.toInt = x.toUInt32.toBitVec.toInt := rfl
  have unsigned : x.toUInt32.toNat = x.toUInt32.toBitVec.toNat := rfl
  have bound := x.toUInt32.toBitVec.isLt
  rw [BitVec.toInt_eq_toNat_cond] at signed
  split at signed <;> omega

/-- An address below `KERNBASE` as an `int`. -/
theorem toInt_toInt32 {x : UInt32} (small : x.toNat < kernBase) : x.toInt32.toInt = x.toNat := by
  have signed : x.toInt32.toInt = x.toBitVec.toInt := rfl
  have unsigned : x.toNat = x.toBitVec.toNat := rfl
  rw [BitVec.toInt_eq_toNat_cond] at signed
  simp only [kernBase] at small
  split at signed <;> omega

/-- A block below the size, without wrapping around. -/
theorem argptr_inside (small : c.sz.toNat < kernBase) {n size : Int32} {p : UInt32}
    (found : c.argptr n size = some p) :
    0 ≤ size.toInt ∧ (p.toNat : Int) + size.toInt ≤ c.sz.toNat := by
  obtain ⟨i, -, checked⟩ := Option.bind_eq_some_iff.mp found
  split at checked
  · cases checked
  rename_i passed
  obtain rfl := Option.some.inj checked
  rw [not_or, not_or, Int32.not_lt, UInt32.not_le, UInt32.not_lt, UInt32.lt_iff_toNat_lt,
    UInt32.le_iff_toNat_le, UInt32.toNat_add, Int32.le_iff_toInt_le] at passed
  obtain ⟨nonneg, first, last⟩ := passed
  have nonneg : 0 ≤ size.toInt := nonneg
  have same := toNat_toUInt32 nonneg
  have bound := size.toInt_lt
  simp only [kernBase] at small
  omega

/-- The loop of `fetchstr`: no byte from `pp` up to `s` is a nul. -/
theorem fetchstrFrom_inside (small : c.sz.toNat < kernBase) {pp s : UInt32} {l : Int32}
    (order : pp.toNat ≤ s.toNat)
    (before : ∀ k : UInt32, pp.toNat + k.toNat < s.toNat → c.mem (pp + k) ≠ 0)
    (found : c.fetchstrFrom pp s = some l) : c.IsString pp l := by
  fun_induction fetchstrFrom c pp s with
  | case1 s more nul =>
    have below := UInt32.lt_iff_toNat_lt.mp more
    have length : (s - pp).toNat = s.toNat - pp.toNat :=
      UInt32.toNat_sub_of_le _ _ (UInt32.le_iff_toNat_le.mpr order)
    have size : l.toInt = (s - pp).toNat := by
      rw [← Option.some.inj found]
      apply toInt_toInt32
      omega
    constructor
    case length => omega
    case inside => omega
    case nul =>
      rw [← Option.some.inj found]
      show c.mem (pp + (s - pp)) = 0
      rw [UInt32.add_comm, UInt32.sub_add_cancel, nul]
    case first =>
      intro k less
      apply before
      omega
  | case2 s more notNul ih =>
    have below := UInt32.lt_iff_toNat_lt.mp more
    have bound := c.sz.toNat_lt
    have next : (s + 1).toNat = s.toNat + 1 := by
      rw [UInt32.toNat_add, show (1 : UInt32).toNat = 1 from rfl]
      omega
    apply ih _ _ found
    · omega
    intro k less
    by_cases last : pp.toNat + k.toNat = s.toNat
    · have here : pp + k = s := by
        apply UInt32.toNat_inj.mp
        rw [UInt32.toNat_add]
        omega
      rwa [here]
    · apply before
      omega
  | case3 s done => cases found

/-- A string below the size, with its nul. -/
theorem fetchstr_inside (small : c.sz.toNat < kernBase) {addr p : UInt32} {l : Int32}
    (found : c.fetchstr addr = some (p, l)) : p = addr ∧ c.IsString p l := by
  unfold fetchstr at found
  split at found
  · cases found
  · obtain ⟨l', scanned, pair⟩ := Option.map_eq_some_iff.mp found
    obtain ⟨rfl, rfl⟩ := Prod.mk.inj pair
    refine ⟨rfl, fetchstrFrom_inside small (Nat.le_refl _) ?_ scanned⟩
    intro k less
    omega

end Caller

/-- System calls stay in the memory of their process: in every run with short arguments of `exec`
the size of a process is below `KERNBASE`, and for every such size the checks are right, whatever
the stack pointer and the memory of the process. -/
theorem arguments_inside {layout : Layout} {past : List VmEvent} {s : Vm}
    (run : Vm.RanShort layout past s) :
    (∀ p, s.Live p → (s.proc p).sz < kernBase) ∧
      ∀ c : Caller, c.sz.toNat < kernBase → c.Checked := by
  obtain ⟨free, balanced⟩ := run.balanced
  refine ⟨fun p live => (balanced.housed p live).small, fun c small => ?_⟩
  constructor
  case fetchint => exact fun addr v => Caller.fetchint_inside small
  case argint => exact fun n v => Caller.fetchint_inside small
  case argptr => exact fun n size p => Caller.argptr_inside small
  case fetchstr => exact fun addr p l => Caller.fetchstr_inside small
  case argstr =>
    intro n p l found
    obtain ⟨addr, -, found⟩ := Option.bind_eq_some_iff.mp found
    exact (Caller.fetchstr_inside small found).2

/-- The first process has grown to 40 MB and passes a pointer to its last word. -/
theorem arguments_inside_large : ∃ past s p, Vm.RanShort smallKernel past s ∧ s.Live p ∧
    (s.proc p).sz = 0x2801000 ∧ (s.proc p).sz < kernBase ∧
    Caller.Checked ⟨0x2801000, 0x2800ff8, fun _ => 0⟩ ∧
    Caller.argint ⟨0x2801000, 0x2800ff8, fun _ => 0⟩ 0 = some 0 := by
  obtain ⟨s, p, free, run, first⟩ := firstProcess_runs
  obtain ⟨t, free', step, large⟩ := first.grows
  have run' : Vm.RanShort smallKernel _ t := .cons run (by trivial) step
  obtain ⟨below, checked⟩ := arguments_inside run'
  exact ⟨_, t, p, run', .inl large.alive, large.size, below p (.inl large.alive),
    checked _ (by decide), by decide⟩

/-- The entry for the first page of the kernel's data as a page of the process. -/
def dataEntry : Nat := v2p smallKernel.data ||| 7

/-- After the long argument of `exec` the process stores an entry for the kernel's data to its page
table, and through it another size to its slot. A system call then reads beyond that size. -/
theorem argument_outside : ∃ past s p, Vm.Ran smallKernel past s ∧ s.Live p ∧
    ∃ c : Caller, c.sz.toNat = (s.proc p).sz ∧ c.fetchint 0xfffffffd = some 0 ∧
      ¬0xfffffffd + 4 ≤ c.sz.toNat ∧ ¬c.Checked := by
  obtain ⟨p, s, pt, run, overran⟩ := overrun_runs
  obtain ⟨leads, present, writable, forUser⟩ := selfEntry_user overran.page
  have entry (t : Vm) (x w : Nat) (low : x < npdEntries) (dir : t.next (s.proc p).pgdir 0 = some pt)
      (word : t.mem pt x = w) (present : Present w) : t.pte (s.proc p).pgdir x = some w := by
    rw [Vm.pte, Nat.div_eq_of_lt low, dir, Option.bind_some, Nat.mod_eq_of_lt low, word, presentPte,
      if_pos present]
  -- The first store is to the page table, which is at address 0.
  have first : s.step smallKernel (.store p 0 ⟨fun page => update page 1 dataEntry, id⟩) = some _ :=
    store_steps overran.alive 0 (entry s 0 _ (by decide) overran.table
      (by rw [overran.words]) present)
      writable forUser _ leads
  rw [if_neg fun data => absurd overran.page.behind (Nat.not_le.mpr data.2)] at first
  -- The second goes through the entry it has made.
  obtain ⟨s₁, s₁_eq⟩ : ∃ s₁, s₁ = ({ s with
      mem := update s.mem pt (update (s.mem pt) 1 dataEntry) } : Vm) := ⟨_, rfl⟩
  have proc : s₁.proc = s.proc := by rw [s₁_eq]
  have dir : s₁.mem (s.proc p).pgdir = s.mem (s.proc p).pgdir := by
    rw [s₁_eq]
    exact update_of_ne overran.apart.symm _ _
  have word : s₁.mem pt 1 = dataEntry := by simp only [s₁_eq, update_self]
  have found : s₁.pte (s₁.proc p).pgdir 1 = some dataEntry := by
    rw [proc]
    exact entry s₁ 1 _ (by decide) ((Vm.next_congr dir 0).trans overran.table) word (by decide)
  have second : s₁.step smallKernel
      (.store p 4096 ⟨id, fun proc => update proc p { proc p with sz := 0xffffffff }⟩) = some _ :=
    store_steps (by rw [proc]; exact overran.alive) 4096 found (by decide) (by decide) _
      (show p2v (pteAddr dataEntry) = smallKernel.data by decide)
  rw [s₁_eq] at second
  refine ⟨_, _, p, .cons (.cons run first) second, ?_, ⟨0xffffffff, 0, fun _ => 0⟩, ?_, by decide,
    by decide, fun checked => ?_⟩
  · simp [Vm.Live, Proc.Live, overran.alive, smallKernel]
  · simp [smallKernel]
  · exact absurd (checked.fetchint 0xfffffffd 0 (by decide)).1 (by decide)

end Xv6
