import Xv6.Verif.SpaceUser

/-!
# Building an address space

`setupkvm` and the loop of `copyuvm`, from right books to right books: the address space is built,
or all pages taken for it are free again. The loop of `copyuvm` has one exit at which a page stays
in hand.
-/

namespace Xv6

open Lib

variable {layout : Layout} {s t u : Vm} {b b' : Books} {pd : Nat} {stops : String → Prop}

/-! ## The kernel's mappings -/

/-- The number of the first page of a mapping. -/
def Kmap.first (k : Kmap) : Nat := k.virt / pgSize

/-- The number of pages of a mapping. -/
def Kmap.count (k : Kmap) : Nat := uint (k.physEnd + (2 ^ 32 - k.physStart)) / pgSize

/-- The page is in the mapping. -/
def Kmap.Covers (k : Kmap) (x : Nat) : Prop := k.first ≤ x ∧ x < k.first + k.count

/-- The entry that the mapping has for a page. -/
def Kmap.entry (k : Kmap) (x : Nat) : Nat := pageEntry k.physStart k.perm (x - k.first)

/-- The mapping is made of pages in the kernel's part. -/
structure Kmap.Paged (k : Kmap) : Prop where
  kernel : userPages ≤ k.first
  inside : k.first + k.count ≤ allPages
  phys : k.physStart % pgSize = 0
  low : k.physStart < 2 ^ 32
  permitted : k.perm < pgSize
  rounds : ∀ pd, mappages pd k.virt (uint (k.physEnd + (2 ^ 32 - k.physStart))) k.physStart k.perm =
    mappagesFrom pd k.perm k.count (k.first * pgSize) k.physStart

variable {k : Kmap} {x v w pgdir sz : Nat}

/-- A mapping of whole pages is made in as many rounds. -/
theorem Kmap.Guarded.paged (ok : k.Guarded) (low : k.physStart < 2 ^ 32)
    (whole : uint (k.physEnd + (2 ^ 32 - k.physStart)) % pgSize = 0) : k.Paged := by
  obtain ⟨aligned, above, nonempty, below, phys, permitted, -⟩ := ok
  constructor
  case kernel =>
    simp only [Kmap.first, userPages, kernBase, pgSize] at *
    omega
  case inside =>
    simp only [Kmap.first, Kmap.count, allPages, pgSize] at *
    omega
  case phys => exact phys
  case low => exact low
  case permitted => exact permitted
  case rounds =>
    intro pd
    have start : pgRoundDown k.virt = k.first * pgSize := rfl
    have number : uint (pgRoundDown (uint (k.virt + uint (k.physEnd + (2 ^ 32 - k.physStart)) +
        (2 ^ 32 - 1))) + (2 ^ 32 - k.first * pgSize)) / pgSize + 1 = k.count := by
      unfold Kmap.count
      generalize uint (k.physEnd + (2 ^ 32 - k.physStart)) = size at *
      simp only [Kmap.first, pgRoundDown, uint, pgSize, kernBase] at *
      omega
    rw [mappages, start, number]

/-- The kernel's mappings are of pages up to `PHYSTOP` or from `DEVSPACE` on. -/
theorem kmap_covers (layout : Layout) (member : k ∈ kmap layout) :
    k.Paged ∧ ∀ x, k.Covers x → x < p2v physTop / pgSize ∨ devSpace / pgSize ≤ x := by
  have guarded := kmap_guarded layout k member
  have aligned := layout.aligned
  have linked := layout.linked
  have order := layout.order
  have fits := layout.fits
  simp only [kmap, List.mem_cons, List.not_mem_nil, or_false] at member
  simp only [kernLink, extMem, kernBase, p2v, uint, pgSize] at aligned linked order fits
  constructor
  · apply guarded.paged
    all_goals
      rcases member with rfl | rfl | rfl | rfl
      all_goals
        simp only [kernBase, kernLink, extMem, physTop, devSpace, v2p, uint, pgSize]
        omega
  · rcases member with rfl | rfl | rfl | rfl
    all_goals
      intro x covers
      simp only [Kmap.Covers, Kmap.first, Kmap.count, kernBase, kernLink, extMem, physTop, devSpace,
        v2p, p2v, uint, pgSize] at covers ⊢
      omega

/-- The kernel's mappings follow one another. -/
theorem kmap_apart (layout : Layout) :
    (kmap layout).Pairwise fun k k' => k.first + k.count ≤ k'.first := by
  have aligned := layout.aligned
  have linked := layout.linked
  have order := layout.order
  have fits := layout.fits
  simp only [kernLink, extMem, kernBase, p2v, uint, pgSize] at aligned linked order fits
  simp only [kmap, List.pairwise_cons, List.mem_cons, List.not_mem_nil, or_false,
    List.Pairwise.nil, and_true, forall_eq_or_imp, forall_eq, Kmap.first, Kmap.count, kernBase,
    kernLink, extMem, physTop, devSpace, v2p, uint, pgSize, IsEmpty.forall_iff, implies_true]
  omega

/-- They leave no gap up to `PHYSTOP`, nor from `DEVSPACE` on. -/
theorem kmap_full (layout : Layout)
    (inside : userPages ≤ x ∧ x < p2v physTop / pgSize ∨ devSpace / pgSize ≤ x ∧ x < allPages) :
    ∃ k ∈ kmap layout, k.Covers x := by
  have aligned := layout.aligned
  have linked := layout.linked
  have order := layout.order
  have fits := layout.fits
  simp only [kernLink, extMem, kernBase, p2v, uint, pgSize] at aligned linked order fits
  simp only [kmap, List.mem_cons, List.not_mem_nil, or_false, exists_eq_or_imp, exists_eq_left,
    Kmap.Covers, Kmap.first, Kmap.count, kernBase, kernLink, extMem, physTop, devSpace, v2p, uint,
    pgSize]
  simp only [userPages, allPages, kernBase, physTop, devSpace, p2v, uint, pgSize] at inside
  omega

/-- The page tables of the kernel's part. -/
def kernelTables : List Nat := List.range' 512 56 ++ List.range' 1016 8

/-- They are for the pages of the kernel's mappings. -/
theorem mem_kernelTables {i : Nat} :
    i ∈ kernelTables ↔ (512 ≤ i ∧ i < 568) ∨ (1016 ≤ i ∧ i < 1024) := by
  rw [kernelTables, List.mem_append, List.mem_range'_1, List.mem_range'_1]

/-- They have their places in a page directory. -/
theorem kernelTables_once : kernelTables.Nodup := by decide

/-- The pages of the kernel's mappings have these page tables. -/
theorem covers_kernelTables (member : k ∈ kmap layout) (covers : k.Covers x) :
    x / npdEntries ∈ kernelTables := by
  obtain ⟨paged, places⟩ := kmap_covers layout member
  have kernel := paged.kernel
  have inside := paged.inside
  have place := places x covers
  obtain ⟨lower, upper⟩ := covers
  rw [mem_kernelTables]
  simp only [userPages, allPages, kernBase, physTop, devSpace, p2v, uint, pgSize, npdEntries] at *
  omega

/-! ## `setupkvm` -/

/-- The pages of some mappings have been mapped. -/
structure KernelBuilt (layout : Layout) (pd : Nat) (maps : List Kmap) (s : Vm) (b : Books) (t : Vm)
    (b' : Books) : Prop where
  moves : Moves layout s b t b'
  root : b'.root = b.root
  hand : b'.hand = b.hand
  page : ∀ x, x < userPages → t.page pd x = s.page pd x
  pte : ∀ x, x < allPages → (∀ k ∈ maps, ¬k.Covers x) → t.pte pd x = s.pte pd x
  next : ∀ i, (∀ k ∈ maps, ∀ x, k.Covers x → x / npdEntries ≠ i) → t.next pd i = s.next pd i
  mapped : ∀ k ∈ maps, ∀ x, k.Covers x → t.pte pd x = some (k.entry x)
  paid : ∀ tables, tables.Nodup → (∀ k ∈ maps, ∀ x, k.Covers x → x / npdEntries ∈ tables) →
    grants s b + s.present pd tables = t.present pd tables + grants t b'

/-- Some page tables are there and all could be. -/
theorem Vm.present_lt {tables : List Nat} {i : Nat} (listed : i ∈ tables)
    (none : s.next pd i = none) :
    s.present pd tables < tables.length := by
  apply Nat.lt_of_le_of_ne List.countP_le_length
  intro all
  have there := List.countP_eq_length.mp all i listed
  rw [none] at there
  cases there

/-- The loop of `setupkvm`. -/
theorem setupkvmFrom_built (maps : List Kmap) (paged : ∀ k ∈ maps, k.Paged)
    (order : maps.Pairwise fun k k' => k.first + k.count ≤ k'.first) (audited : Audited layout s b)
    (root : b.root = some pd) (fresh : ∀ k ∈ maps, ∀ x, k.Covers x → s.leaf pd x = none) :
    Wp stops (setupkvmFrom layout pd maps)
      (fun r t => (r = 0 ∧ (∃ free, Moves layout s b t ⟨none, free, b.hand⟩) ∧
          ∀ tables, tables.Nodup → (∀ k ∈ maps, ∀ x, k.Covers x → x / npdEntries ∈ tables) →
            grants s b + s.present pd tables < tables.length) ∨
        (r = pd ∧ ∃ b', KernelBuilt layout pd maps s b t b')) s := by
  induction maps generalizing s b with
  | nil =>
    exact Wp.pure (.inr ⟨rfl, b, .refl audited, rfl, rfl, fun _ _ => rfl, fun _ _ _ => rfl,
      fun _ _ => rfl, by simp, fun _ _ _ => Nat.add_comm ..⟩)
  | cons k rest ih =>
    have ok := paged k (.head _)
    obtain ⟨before, order⟩ := List.pairwise_cons.mp order
    unfold setupkvmFrom
    rw [ok.rounds]
    apply Wp.bind (mappagesFrom_ranged ok.permitted k.count audited root ok.kernel ok.inside
      (fun _ => rfl) (fun x lower upper => fresh k (.head _) x ⟨lower, upper⟩) ok.phys ok.low)
    rintro done t ⟨b', ranged⟩
    have root' : b'.root = some pd := ranged.root.trans root
    have paid (tables : List Nat) (once : tables.Nodup)
        (listed : ∀ k' ∈ k :: rest, ∀ x, k'.Covers x → x / npdEntries ∈ tables) :=
      ranged.paid tables once fun x lower upper => listed k (.head _) x ⟨lower, upper⟩
    cases done with
    | false =>
      rw [if_neg (by simp)]
      apply Wp.bind (freevm_moves ranged.moves.audited root')
      rintro _ u ⟨free, freed⟩
      rw [ranged.hand] at freed
      refine Wp.pure (.inl ⟨rfl, ⟨free, ranged.moves.trans freed⟩, fun tables once listed => ?_⟩)
      obtain ⟨x, lower, upper, none⟩ := ranged.lacks rfl
      have lacks := Vm.present_lt (listed k (.head _) x ⟨lower, upper⟩) none
      rw [paid tables once listed]
      exact lacks
    | true =>
      have apart (k' : Kmap) (member : k' ∈ rest) (x : Nat) (covers : k'.Covers x) :
          x < k.first ∨ k.first + k.count ≤ x :=
        .inr (Nat.le_trans (before k' member) covers.1)
      have inside (k' : Kmap) (member : k' ∈ rest) (x : Nat) (covers : k'.Covers x) :
          x < allPages :=
        Nat.lt_of_lt_of_le covers.2 (paged k' (.tail _ member)).inside
      rw [if_pos rfl]
      apply Wp.mono (ih (fun k' member => paged k' (.tail _ member)) order
        ranged.moves.audited root'
        fun k' member x covers => by
          rw [Vm.leaf_of_pte (ranged.pte x (inside k' member x covers) (apart k' member x covers)),
            fresh k' (.tail _ member) x covers])
      rintro r u (⟨zero, ⟨free, freed⟩, lacks⟩ | ⟨same, b'', built⟩)
      · rw [ranged.hand] at freed
        refine .inl ⟨zero, ⟨free, ranged.moves.trans freed⟩, fun tables once listed => ?_⟩
        have before := paid tables once listed
        have after := lacks tables once fun k' member => listed k' (.tail _ member)
        rw [if_pos rfl] at before
        omega
      · refine .inr ⟨same, b'', ?_⟩
        constructor
        case moves => exact ranged.moves.trans built.moves
        case root => exact built.root.trans ranged.root
        case hand => exact built.hand.trans ranged.hand
        case page => exact fun x user => (built.page x user).trans (ranged.page x user)
        case pte =>
          intro x low out
          have here := out k (.head _)
          rw [built.pte x low fun k' member => out k' (.tail _ member), ranged.pte x low]
          unfold Kmap.Covers at here
          omega
        case next =>
          intro i out
          rw [built.next i fun k' member => out k' (.tail _ member), ranged.next i]
          exact fun x lower upper => out k (.head _) x ⟨lower, upper⟩
        case mapped =>
          intro k' member x covers
          rcases List.mem_cons.mp member with rfl | later
          · rw [built.pte x (Nat.lt_of_lt_of_le covers.2 ok.inside)]
            · exact ranged.mapped rfl x covers.1 covers.2
            · intro k'' later covers'
              have first := before k'' later
              unfold Kmap.Covers at covers covers'
              omega
          · exact built.mapped k' later x covers
        case paid =>
          intro tables once listed
          have before := paid tables once listed
          have after := built.paid tables once fun k' member => listed k' (.tail _ member)
          rw [if_pos rfl] at before
          omega

/-- An address space without user pages has been built. -/
structure SetUp (layout : Layout) (pd : Nat) (s : Vm) (b : Books) (t : Vm) (b' : Books) : Prop where
  moves : Moves layout s b t b'
  root : b'.root = some pd
  hand : b'.hand = b.hand
  page : ∀ x, x < userPages → t.page pd x = none
  next : ∀ i, i ∉ kernelTables → t.next pd i = none
  kernel : ∀ k ∈ kmap layout, ∀ x, k.Covers x → t.pte pd x = some (k.entry x)
  bare : ∀ x, x < allPages → (∀ k ∈ kmap layout, ¬k.Covers x) → t.pte pd x = none
  /-- One page has been taken for the page directory, and one for each page table. -/
  cost : grants s b = grants t b' + 65

/-- `setupkvm` builds an address space, or all pages taken for it are free again. -/
theorem setupkvm_setUp (audited : Audited layout s b) (root : b.root = none) :
    Wp stops (setupkvm layout)
      (fun r t => (r = 0 ∧ grants s b < 65 ∧ ∃ free, Moves layout s b t ⟨none, free, b.hand⟩) ∨
        (r ≠ 0 ∧ ∃ b', SetUp layout r s b t b')) s := by
  have same : b = ⟨none, b.free, b.hand⟩ := by
    rw [← root]
  unfold setupkvm
  apply Wp.bind (kalloc_moves audited)
  rintro pd t ⟨words, ⟨rfl, refused, still⟩ | ⟨rest, isPage, first, granted, taken⟩⟩
  · rw [if_pos rfl]
    refine Wp.pure (.inl ⟨rfl, by omega, b.free, ?_⟩)
    rw [← same]
    exact still
  · have cleared := Moves.fill taken.audited (.head _) zeroPage
    rw [if_neg isPage.ne_zero]
    apply Wp.bind setPage_spec
    intro _ c c_eq
    have c_eq : c = { t with mem := Function.update t.mem pd zeroPage } := c_eq
    rw [← c_eq] at cleared
    have blank (i : Nat) : c.next pd i = none := by
      have zero : c.mem pd = zeroPage := by
        rw [c_eq]
        exact Function.update_self ..
      rw [Vm.next, zero]
      exact if_neg (show ¬Present 0 by decide)
    have leaf (x : Nat) : c.leaf pd x = none := by
      rw [Vm.leaf, blank, Option.bind_none]
    have planted := Moves.plant cleared.audited root rfl blank
    have moved := (taken.trans cleared).trans planted
    have granted : grants s b = Xv6.granted c.refusals rest.length + 1 := by rw [granted, c_eq]
    have none : c.present pd kernelTables = 0 := by
      rw [Vm.present, List.countP_eq_zero]
      intro i _
      rw [blank]
      exact Bool.false_ne_true
    have number : kernelTables.length = 64 := by decide
    rw [if_neg (by decide)]
    apply Wp.mono (setupkvmFrom_built (kmap layout) (fun k member => (kmap_covers layout member).1)
      (kmap_apart layout) moved.audited rfl fun _ _ x _ => leaf x)
    rintro r u (⟨rfl, ⟨free, freed⟩, lacks⟩ | ⟨rfl, b', built⟩)
    · have short : Xv6.granted c.refusals rest.length + _ < _ :=
        lacks kernelTables kernelTables_once fun _ member _ => covers_kernelTables member
      exact .inl ⟨rfl, by omega, free, moved.trans freed⟩
    refine .inr ⟨isPage.ne_zero, b', moved.trans built.moves, built.root, built.hand, ?_, ?_,
      built.mapped, ?_, ?_⟩
    · intro x user
      rw [built.page x user, Vm.page, leaf, Option.map_none]
    · intro i other
      rw [built.next i fun k member x covers same =>
        other (same ▸ covers_kernelTables member covers),
        blank]
    · intro x inside out
      rw [built.pte x inside out, Vm.pte, blank, Option.bind_none]
    · have all : u.present r kernelTables = kernelTables.length := by
        rw [Vm.present, List.countP_eq_length]
        intro i member
        have place : userPages ≤ i * npdEntries ∧ i * npdEntries < p2v physTop / pgSize ∨
            devSpace / pgSize ≤ i * npdEntries ∧ i * npdEntries < allPages := by
          rw [mem_kernelTables] at member
          simp only [userPages, allPages, kernBase, physTop, devSpace, p2v, uint, pgSize,
            npdEntries]
          omega
        obtain ⟨k, listed, covers⟩ := kmap_full layout place
        have there := built.mapped k listed _ covers
        rw [Vm.pte, Nat.mul_div_cancel _ (by decide)] at there
        obtain ⟨pt, table, -⟩ := Option.bind_eq_some_iff.mp there
        rw [table]
        rfl
      have paid : Xv6.granted c.refusals rest.length + _ = _ :=
        built.paid kernelTables kernelTables_once fun _ member _ => covers_kernelTables member
      omega

/-! ## `copyuvm` -/

/-- An address space that is no part of the books has the pages below a size. -/
structure Bystander (pgdir sz : Nat) (s : Vm) (b : Books) : Prop where
  apart : ∀ node v, v ∈ s.node (some pgdir) node → ¬b.Has s v
  present : ∀ x, x < allPages → x * pgSize < sz → s.pte pgdir x ≠ none

namespace Bystander

variable {pgdir sz : Nat} (aside : Bystander pgdir sz s b) (shifts : Shifts layout s b t b')

include aside shifts

/-- Its page directory stays. -/
theorem dir : t.mem pgdir = s.mem pgdir := shifts.outside _ (aside.apart .dir pgdir rfl)

/-- Its parts stay. -/
theorem node : t.node (some pgdir) = s.node (some pgdir) := by
  apply Vm.node_congr
  · intro _ root
    rw [← Option.some.inj root]
    exact aside.dir shifts
  · exact fun i pt table => shifts.outside pt (aside.apart _ pt table)

variable {x : Nat}

/-- Its entries stay. -/
theorem pte (inside : x < allPages) : t.pte pgdir x = s.pte pgdir x := by
  apply Vm.pte_congr (aside.dir shifts) _ inside
  exact fun i pt low found => shifts.outside pt (aside.apart _ pt (Vm.node_table low found))

/-- Its pages stay, with what they hold. -/
theorem page (user : x < userPages) : t.page pgdir x = s.page pgdir x := by
  rw [Vm.page, Vm.page, Vm.leaf_of_pte (aside.pte shifts (user_lt user))]
  apply Option.map_congr
  intro v found
  rw [← Vm.node_user_eq user] at found
  exact shifts.outside v (aside.apart _ v found)

/-- It stays outside the books. -/
theorem stays : Bystander pgdir sz t b' := by
  constructor
  case apart =>
    intro n v part
    rw [aside.node shifts] at part
    rw [shifts.has]
    exact aside.apart n v part
  case present =>
    intro x inside low
    rw [aside.pte shifts inside]
    exact aside.present x inside low

end Bystander

/-- The entry for a copy has the flags of the entry for the page. -/
theorem pteFlags_copy (page : IsPage layout v) (present : Present w) :
    pteFlags (v2p v ||| pteFlags w ||| pteP) = pteFlags w := by
  have odd : pteFlags w ||| pteP = pteFlags w := by
    have low : pteFlags w % 2 = 1 := by
      simp only [Present, pteFlags] at *
      omega
    apply Nat.eq_of_testBit_eq
    rintro (_ | i)
    · simp [Nat.testBit_zero, low]
    · rw [Nat.testBit_or, show pteP.testBit (i + 1) = false by simp [pteP, Nat.testBit_succ],
        Bool.or_false]
  have aligned := page.v2p_aligned
  have small : pteFlags w < pgSize := Nat.mod_lt _ (by decide)
  rw [Nat.or_assoc, odd, aligned_or aligned small]
  simp only [pteFlags, pgSize] at *
  omega

/-- The pages of an address space from `k` on have been copied, as far as they are below a size. -/
structure Copied (pgdir sz pd k : Nat) (s t : Vm) : Prop where
  fits : sz ≤ kernBase
  flags : ∀ x, x < userPages → pagesFrom k sz x →
    (t.pte pd x).map pteFlags = (s.pte pgdir x).map pteFlags
  page : ∀ x, x < userPages → pagesFrom k sz x → t.page pd x = s.page pgdir x
  pte : ∀ x, x < allPages → ¬pagesFrom k sz x → t.pte pd x = s.pte pd x
  kept : ∀ x, x < userPages → ¬pagesFrom k sz x → t.page pd x = s.page pd x

/-- One page has been copied before the others. -/
theorem Copied.cons {k : Nat} {c : Vm} {b₁ b₂ : Books} (aside : Bystander pgdir sz s b)
    (user : k < userPages) (more : k * pgSize < sz) (entry : s.pte pgdir k = some w)
    (present : Present w) (isPage : IsPage layout v)
    (fetched : Fetched layout pd v (s.mem (p2v (pteAddr w))) s b c b₁)
    (first : b₁.hand.head? = some v) (mapped : UserMapped layout pd k (pteFlags w) c b₁ true t b₂)
    (rest : Copied pgdir sz pd (k + 1) t u) : Copied pgdir sz pd k s u := by
  have after : ¬pagesFrom (k + 1) sz k := fun both => absurd both.1 (Nat.not_succ_le_self _)
  have moved := fetched.moves.trans mapped.moves
  have there : t.pte pd k = some (v2p v ||| pteFlags w ||| pteP) := by
    rw [mapped.entry rfl, first, Option.map_some]
  constructor
  case fits => exact rest.fits
  case flags =>
    intro x inside mine
    rcases (pagesFrom_succ more x).mp mine with rfl | later
    · rw [rest.pte x (user_lt user) after, there, entry, Option.map_some, Option.map_some,
        pteFlags_copy isPage present]
    · rw [rest.flags x inside later, aside.pte moved.toShifts (user_lt inside)]
  case page =>
    intro x inside mine
    rcases (pagesFrom_succ more x).mp mine with rfl | later
    · rw [rest.kept x user after, mapped.page x user, if_pos ⟨rfl, rfl⟩, first, Option.map_some,
        fetched.filled, Vm.page, Vm.leaf_eq, entry]
      rfl
    · rw [rest.page x inside later, aside.page moved.toShifts inside]
  case pte =>
    intro x inside kept
    rw [pagesFrom_succ more, not_or] at kept
    rw [rest.pte x inside kept.2, mapped.pte x inside kept.1, fetched.pte x inside]
  case kept =>
    intro x inside kept
    rw [pagesFrom_succ more, not_or] at kept
    rw [rest.kept x inside kept.2, mapped.page x inside, if_neg fun both => kept.1 both.2,
      fetched.page x inside]

/-- `mappages` panics at a page that is mapped. -/
theorem mappages_remap {k pa perm : Nat} (inside : k < allPages) (there : s.pte pd k ≠ none)
    (stopped : stops "remap") :
    Wp stops (mappages pd (k * pgSize) pgSize pa perm) (fun _ _ => False) s := by
  have small : k * pgSize < 2 ^ 32 := by
    simp only [allPages, pgSize] at *
    omega
  obtain ⟨w, entry⟩ := Option.ne_none_iff_exists'.mp there
  obtain ⟨pt, table, found⟩ := Option.bind_eq_some_iff.mp entry
  have walk : Wp stops (walkpgdir pd (k * pgSize) true)
      (fun r t => r = some (pt, k % npdEntries) ∧ t = s) s := by
    obtain ⟨present, leads⟩ := Option.ite_none_right_eq_some.mp table
    unfold walkpgdir
    rw [pdx_page, ptx_page]
    apply Wp.get
    rw [if_pos present, Option.some.inj leads]
    exact Wp.pure ⟨rfl, rfl⟩
  rw [mappages_one (Nat.mul_mod_left ..) small]
  unfold mappagesFrom
  apply Wp.bind walk
  rintro _ _ ⟨rfl, rfl⟩
  apply Wp.get
  rw [if_pos (Option.ite_none_right_eq_some.mp found).1]
  exact Wp.throw_bind stopped

/-- Of the calls of `kalloc` in the loop of `copyuvm` from page `k` on, the one after `g` others is
for a page table. -/
def LacksTable (sz k g : Nat) : Prop :=
  ∃ m, k ≤ m * npdEntries ∧ m * npdEntries * pgSize < sz ∧
    g + k + (k + npdEntries - 1) / npdEntries = m * (npdEntries + 1) + 1

/-- The first call is for a page. -/
theorem LacksTable.zero {k : Nat} : ¬LacksTable sz k 0 := by
  rintro ⟨m, order, -, count⟩
  simp only [npdEntries] at *
  omega

/-- The next is for its page table, if it is the first page of one. -/
theorem LacksTable.one {k : Nat} (more : k * pgSize < sz) (first : k % npdEntries = 0) :
    LacksTable sz k 1 := by
  obtain ⟨m, rfl⟩ : ∃ m, k = m * npdEntries :=
    ⟨_, (Nat.div_mul_cancel (Nat.dvd_of_mod_eq_zero first)).symm⟩
  refine ⟨m, Nat.le_refl _, more, ?_⟩
  rw [npdEntries]
  omega

/-- Every page takes a call, and every first page of a page table another one. -/
theorem LacksTable.succ {k g : Nat} :
    LacksTable sz (k + 1) g ↔ LacksTable sz k (g + 1 + if k % npdEntries = 0 then 1 else 0) := by
  unfold LacksTable
  apply exists_congr
  intro m
  by_cases first : k % npdEntries = 0
  · rw [if_pos first]
    simp only [npdEntries] at *
    omega
  · rw [if_neg first]
    simp only [npdEntries] at *
    omega

/-- The loop of `copyuvm`: the copy is built, or all its pages are free again, except for one that
is left in hand if `kalloc` fails for a page table. -/
theorem copyuvmFrom_copies (k : Nat) (low : k ≤ userPages) (audited : Audited layout s b)
    (root : b.root = some pd) (fresh : ∀ x, x < userPages → k ≤ x → s.page pd x = none)
    (tables : ∀ i, i < pdx kernBase → (s.next pd i = none ↔ k ≤ i * npdEntries))
    (parent : (∀ message, stops message) ∨ Bystander pgdir sz s b)
    (high : kernBase < sz → stops "remap" ∧ s.pte pd userPages ≠ none) :
    Wp stops (copyuvmFrom layout pgdir sz pd (k * pgSize))
      (fun r t => (r = pd ∧ (Bystander pgdir sz s b → Copied pgdir sz pd k s t) ∧
          (∀ x, x < allPages → ¬pagesFrom k sz x → t.pte pd x = s.pte pd x) ∧
          (k * pgSize < sz → 1 + (if k % npdEntries = 0 then 1 else 0) ≤ grants s b) ∧
          ∃ b', Moves layout s b t b' ∧ b'.root = b.root ∧ b'.hand = b.hand) ∨
        (r = 0 ∧ ∃ free lost, Moves layout s b t ⟨none, free, lost ++ b.hand⟩ ∧
          (lost ≠ [] ↔ LacksTable sz k (grants s b)))) s := by
  induction gap : sz - k * pgSize using Nat.strong_induction_on generalizing s b k with
  | _ n ih =>
  unfold copyuvmFrom
  apply Wp.ite
  · intro more
    have inside : k < allPages := Nat.lt_of_le_of_lt low (by decide)
    apply Wp.bind (walkpgdir_next pgdir (k * pgSize))
    rintro r t ⟨rfl, found⟩
    rw [pdx_page, ptx_page] at found
    cases table : t.next pgdir (k / npdEntries) with
    | none =>
      rw [table] at found
      subst found
      rcases parent with any | aside
      · exact Wp.throw (any _)
      · refine absurd ?_ (aside.present k inside more)
        rw [Vm.pte, table, Option.bind_none]
    | some pt =>
      rw [table] at found
      subst found
      have entry (present : Present (t.mem pt (k % npdEntries))) :
          t.pte pgdir k = some (t.mem pt (k % npdEntries)) := by
        rw [Vm.pte, table, Option.bind_some, presentPte, if_pos present]
      apply Wp.get
      apply Wp.ite
      · intro absent
        rcases parent with any | aside
        · exact Wp.throw_bind (any _)
        · refine absurd ?_ (aside.present k inside more)
          rw [Vm.pte, table, Option.bind_some, presentPte, if_neg absent]
      · intro present
        have present := not_not.mp present
        apply Wp.bind (kalloc_moves audited)
        rintro v u ⟨words, ⟨rfl, refused, still⟩ | ⟨rest, isPage, -, granted, taken⟩⟩
        · rw [if_pos rfl]
          apply Wp.bind (freevm_moves still.audited root)
          rintro _ w ⟨free, freed⟩
          refine Wp.pure (.inr ⟨rfl, free, [], still.trans freed, ?_⟩)
          rw [refused]
          exact iff_of_false (fun absurd => absurd rfl) LacksTable.zero
        · rw [if_neg isPage.ne_zero]
          apply Wp.get
          apply Wp.bind (setPage_fetched taken words root (.head _) _)
          rintro _ c ⟨c_eq, fetched⟩
          rcases Nat.lt_or_eq_of_le low with user | rfl
          · have empty : c.page pd k = none := by
              rw [fetched.page k user, fresh k user (Nat.le_refl _)]
            have granted : grants t b = grants c
              { b with free := rest, hand := v :: b.hand } + 1 := by
              rw [granted, c_eq]
              rfl
            have entries : k / npdEntries < pdx kernBase := by
              simp only [userPages, kernBase, pgSize, npdEntries, pdx] at *
              omega
            -- There is no page table yet where the page is the first of one.
            have lack : c.next pd (k / npdEntries) = none ↔ k % npdEntries = 0 := by
              rw [fetched.next, tables _ entries]
              simp only [npdEntries]
              omega
            apply Wp.bind (mappages_page fetched.moves.audited root rfl user empty
              (Nat.mod_lt _ (by decide)))
            rintro done w ⟨b', result⟩
            have moved := fetched.moves.trans result.moves
            have root' : b'.root = some pd := result.root.trans root
            cases done with
            | true =>
              obtain ⟨made, cost⟩ := result.made rfl
              simp only [lack] at cost
              have shorter : sz - (k + 1) * pgSize < n := by
                simp only [pgSize] at *
                omega
              rw [if_pos rfl, ← Nat.succ_mul]
              apply Wp.mono (ih _ shorter (k + 1) user moved.audited root' _ _
                (parent.imp_right fun aside => aside.stays moved.toShifts) _ rfl)
              · rintro r x (⟨rfl, copied, pte, -, b'', later, root'', hand⟩ |
                  ⟨zero, free, lost, later, lacks⟩)
                · refine .inl ⟨rfl, fun aside => ?_, fun x inside kept => ?_,
                    fun _ => by omega, b'',
                    moved.trans later, root''.trans result.root, hand.trans result.hand⟩
                  · rw [words] at fetched
                    exact .cons aside user more (entry present) present isPage fetched rfl result
                      (copied (aside.stays moved.toShifts))
                  · rw [pagesFrom_succ more, not_or] at kept
                    rw [pte x inside kept.2, result.pte x inside kept.1, fetched.pte x inside]
                · rw [result.hand] at later
                  refine .inr ⟨zero, free, lost, moved.trans later, lacks.trans ?_⟩
                  rw [granted, cost, LacksTable.succ, Nat.add_right_comm]
              · intro x inside later
                rw [result.page x inside, if_neg fun both => Nat.ne_of_gt later both.2,
                  fetched.page x inside, fresh x inside (Nat.le_of_succ_le later)]
              · intro i below
                by_cases here : i = k / npdEntries
                · refine iff_of_false (here ▸ made) ?_
                  simp only [here, npdEntries]
                  omega
                · rw [result.next i here, fetched.next, tables i below]
                  simp only [npdEntries] at *
                  omega
              · intro above
                refine ⟨(high above).1, ?_⟩
                rw [result.pte _ (by decide) (Nat.ne_of_gt user), fetched.pte _ (by decide)]
                exact (high above).2
            | false =>
              obtain ⟨-, none, cost⟩ := result.lacks rfl
              rw [if_neg (by simp)]
              apply Wp.bind (freevm_moves moved.audited root')
              rintro _ x ⟨free, freed⟩
              rw [result.hand] at freed
              refine Wp.pure (.inr ⟨rfl, free, [v], moved.trans freed, ?_⟩)
              rw [granted, cost]
              exact iff_of_true (List.cons_ne_nil _ _) (.one more (lack.mp none))
          · -- The first page of the kernel is mapped already.
            obtain ⟨stopped, there⟩ := high more
            rw [← fetched.pte _ inside] at there
            exact Wp.bind (mappages_remap inside there stopped) fun _ _ never => never.elim
  · intro done
    have none (x : Nat) : ¬pagesFrom k sz x := by
      rintro ⟨lower, upper⟩
      have scaled := Nat.mul_le_mul_right pgSize lower
      omega
    refine Wp.pure (.inl ⟨rfl, fun _ => ?_, fun _ _ _ => rfl, fun more => absurd more done, b,
      .refl audited, rfl, rfl⟩)
    refine ⟨?_, fun x _ mine => absurd mine (none x), fun x _ mine => absurd mine (none x),
      fun _ _ _ => rfl, fun _ _ _ => rfl⟩
    simp only [userPages, kernBase, pgSize] at *
    omega

/-- `copyuvm` builds the copy, or all its pages are free again, except for one that is left in hand
if `kalloc` fails for a page table of the copy. -/
theorem copyuvm_copies (audited : Audited layout s b) (root : b.root = none)
    (parent : (∀ message, stops message) ∨ Bystander pgdir sz s b)
    (high : kernBase < sz → stops "remap") :
    Wp stops (copyuvm layout pgdir sz)
      (fun r t => (r ≠ 0 ∧ ∃ u b₁ b₂, SetUp layout r s b u b₁ ∧ Moves layout u b₁ t b₂ ∧
          b₂.root = some r ∧ b₂.hand = b.hand ∧
          (∀ x, x < allPages → ¬pagesFrom 0 sz x → t.pte r x = u.pte r x) ∧
          (0 < sz → 67 ≤ grants s b) ∧ (Bystander pgdir sz s b → Copied pgdir sz r 0 u t)) ∨
        (r = 0 ∧ ∃ free lost, Moves layout s b t ⟨none, free, lost ++ b.hand⟩ ∧
          (lost ≠ [] ↔ 65 ≤ grants s b ∧ LacksTable sz 0 (grants s b - 65)))) s := by
  unfold copyuvm
  apply Wp.bind (setupkvm_setUp audited root)
  rintro d t (⟨rfl, short, free, moves⟩ | ⟨nonzero, b', setUp⟩)
  · rw [if_pos rfl]
    refine Wp.pure (.inr ⟨rfl, free, [], moves, iff_of_false (fun absurd => absurd rfl) ?_⟩)
    omega
  rw [if_neg nonzero]
  obtain ⟨k, listed, covers⟩ : ∃ k ∈ kmap layout, k.Covers userPages :=
    kmap_full layout (.inl ⟨Nat.le_refl _, by decide⟩)
  have loop : Wp stops (copyuvmFrom layout pgdir sz d (0 * pgSize)) _ t :=
    copyuvmFrom_copies 0 (Nat.zero_le _) setUp.moves.audited setUp.root
      (fun x user _ => setUp.page x user)
      (fun i below => iff_of_true (setUp.next i (by
        rw [mem_kernelTables]
        simp only [pdx, kernBase] at below
        omega)) (Nat.zero_le _))
      (parent.imp_right fun aside => aside.stays setUp.moves.toShifts)
      fun above => ⟨high above, by rw [setUp.kernel k listed _ covers]; exact Option.some_ne_none _⟩
  rw [Nat.zero_mul] at loop
  apply Wp.mono loop
  rintro r u (⟨rfl, copied, pte, enough, b'', moves, root', hand⟩ | ⟨rfl, free, lost, moves, lacks⟩)
  · have paid (some : 0 < sz) : 67 ≤ grants s b := by
      have two : 2 ≤ grants t b' := enough some
      rw [setUp.cost]
      omega
    exact .inl ⟨nonzero, t, b', b'', setUp, moves, root'.trans setUp.root,
      hand.trans setUp.hand, pte,
      paid, fun aside => copied (aside.stays setUp.moves.toShifts)⟩
  · rw [setUp.hand] at moves
    refine .inr ⟨rfl, free, lost, setUp.moves.trans moves, lacks.trans ?_⟩
    rw [setUp.cost, Nat.add_sub_cancel]
    exact (and_iff_right (Nat.le_add_left _ _)).symm

end Xv6
