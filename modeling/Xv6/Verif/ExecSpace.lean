import Xv6.Verif.SpaceBuild

/-!
# The address space that `exec` builds

`loaduvm`, `clearpteu` and `copyout` in an address space that has the user pages below a size. Stack
pointers that wrap around stay above `DEVSPACE` as long as no argument is longer than 32 MB, and
there the kernel's part has page tables: `uva2ka` finds a page table at every address, and every
store is to a user page of the address space.
-/

namespace Xv6

open Lib Function

variable {layout : Layout} {s t u : Vm} {b b' : Books} {pd sz newsz x w cr3 : Nat}
  {stops : String → Prop}

/-! ## Entries of an address space -/

/-- A page is there if its entry is. -/
theorem page_eq_none : s.page pd x = none ↔ s.pte pd x = none := by
  rw [Vm.page, Vm.leaf_eq, Option.map_eq_none_iff, Option.map_eq_none_iff]

/-- An entry is there if its page is. -/
theorem pte_ne_none : s.pte pd x ≠ none ↔ s.page pd x ≠ none :=
  page_eq_none.not.symm

/-- An entry is found in a page table. -/
theorem table_of_pte (entry : s.pte pd x = some w) :
    ∃ pt, s.next pd (x / npdEntries) = some pt ∧ s.mem pt (x % npdEntries) = w ∧ Present w := by
  obtain ⟨pt, table, found⟩ := Option.bind_eq_some_iff.mp entry
  obtain ⟨present, same⟩ := Option.ite_none_right_eq_some.mp found
  obtain rfl := Option.some.inj same
  exact ⟨pt, table, rfl, present⟩

/-- The page of an entry. -/
theorem leaf_of_entry (entry : s.pte pd x = some w) : s.leaf pd x = some (p2v (pteAddr w)) := by
  rw [Vm.leaf_eq, entry, Option.map_some]

/-- The kernel's part of an address space is not for the user, and all of it is there from
`DEVSPACE` on. -/
structure Guarded (pd : Nat) (s : Vm) : Prop where
  kernel : ∀ x w, userPages ≤ x → x < allPages → s.pte pd x = some w → ¬ForUser w
  top : ∀ x, devSpace / pgSize ≤ x → x < allPages → s.pte pd x ≠ none

/-- The kernel's part depends on its entries. -/
theorem Guarded.congr (guarded : Guarded pd s)
    (same : ∀ x, userPages ≤ x → x < allPages → t.pte pd x = s.pte pd x) : Guarded pd t := by
  constructor
  · intro x w lower upper entry
    rw [same x lower upper] at entry
    exact guarded.kernel x w lower upper entry
  · intro x lower upper
    rw [same x (Nat.le_trans (by decide) lower) upper]
    exact guarded.top x lower upper

/-- The entries of the kernel's mappings are not for the user. -/
theorem Kmap.entry_guarded {k : Kmap} (member : k ∈ kmap layout) (x : Nat) :
    ¬ForUser (k.entry x) := by
  obtain ⟨-, -, -, -, phys, permitted, guarded⟩ := kmap_guarded layout k member
  have aligned : uint (k.physStart + (x - k.first) * pgSize) % pgSize = 0 := by
    simp only [uint, pgSize] at *
    omega
  rwa [Kmap.entry, pageEntry, entry_flags, forUser_or aligned (flags_lt permitted), flags_forUser]

/-- What `setupkvm` builds is guarded. -/
theorem SetUp.guarded (setUp : SetUp layout pd s b t b') : Guarded pd t := by
  constructor
  · intro x w _ upper entry
    by_cases covered : ∃ k ∈ kmap layout, k.Covers x
    · obtain ⟨k, member, covers⟩ := covered
      rw [setUp.kernel k member x covers] at entry
      obtain rfl := Option.some.inj entry
      exact k.entry_guarded member x
    · rw [setUp.bare x upper fun k member covers => covered ⟨k, member, covers⟩] at entry
      cases entry
  · intro x lower upper
    obtain ⟨k, member, covers⟩ := kmap_full layout (.inr ⟨lower, upper⟩)
    rw [setUp.kernel k member x covers]
    exact Option.some_ne_none _

/-! ## Stores to user pages -/

/-- User pages of an address space have been stored to. -/
structure Painted (layout : Layout) (pd : Nat) (s : Vm) (b : Books) (t : Vm) : Prop where
  moves : Moves layout s b t b
  dir : t.mem pd = s.mem pd
  pte : ∀ x, x < allPages → t.pte pd x = s.pte pd x

/-- Nothing has been stored. -/
theorem Painted.refl (audited : Audited layout s b) : Painted layout pd s b s :=
  ⟨.refl audited, rfl, fun _ _ => rfl⟩

/-- Stores follow one another. -/
theorem Painted.trans (first : Painted layout pd s b t) (second : Painted layout pd t b u) :
    Painted layout pd s b u :=
  ⟨first.moves.trans second.moves, second.dir.trans first.dir,
    fun x inside => (second.pte x inside).trans (first.pte x inside)⟩

/-- A store to one user page. -/
theorem Painted.one (audited : Audited layout s b) (root : b.root = some pd) (user : x < userPages)
    (entry : s.pte pd x = some w) (page : Page) :
    Painted layout pd s b { s with mem := update s.mem (p2v (pteAddr w)) page } := by
  have part := Audited.node_user root user (leaf_of_entry entry)
  generalize p2v (pteAddr w) = v at part ⊢
  have dir : update s.mem v page pd = s.mem pd := by
    apply update_of_ne
    rintro rfl
    cases audited.alone .dir _ _ root part
  refine ⟨Moves.paint audited part page, dir, fun y inside => Vm.pte_congr dir ?_ inside⟩
  · intro i pt low found
    apply update_of_ne
    rintro rfl
    cases audited.alone _ _ _ (Moves.table_part root low found) part

/-! ## The image of a program -/

/-- An address space with the user pages below a size. -/
structure Space (layout : Layout) (pd sz : Nat) (s : Vm) (b : Books) : Prop where
  audited : Audited layout s b
  root : b.root = some pd
  small : sz < kernBase
  pages : ∀ x, x < userPages → (s.pte pd x ≠ none ↔ x < pageUp sz)
  guarded : Guarded pd s
  /-- There is no page table between the memory that the kernel maps and `DEVSPACE`. -/
  gap : ∀ i, pdx (p2v physTop) ≤ i → i < pdx devSpace → s.next pd i = none

/-- What `setupkvm` builds has no user page. -/
theorem SetUp.space (setUp : SetUp layout pd s b t b') : Space layout pd 0 t b' := by
  refine ⟨setUp.moves.audited, setUp.root, by decide, fun x user => ?_, setUp.guarded,
    fun i lower upper => setUp.next i ?_⟩
  · rw [pte_ne_none, setUp.page x user]
    exact iff_of_false (fun absurd => absurd rfl) (Nat.not_lt_zero x)
  · rw [mem_kernelTables]
    simp only [pdx, p2v, uint, physTop, devSpace, kernBase] at *
    omega

namespace Space

variable (space : Space layout pd sz s b)

include space

/-- Stores keep the pages. -/
theorem painted (painted : Painted layout pd s b t) : Space layout pd sz t b := by
  refine ⟨painted.moves.audited, space.root, space.small, fun x user => ?_,
    space.guarded.congr fun x _ upper => painted.pte x upper,
    fun i lower upper => (Vm.next_congr painted.dir i).trans (space.gap i lower upper)⟩
  rw [painted.pte x (user_lt user), space.pages x user]

/-- A page below the size. -/
theorem below {y : Nat} (inside : y < sz) : y / pgSize < userPages ∧ y / pgSize < pageUp sz := by
  have small := space.small
  simp only [pageUp, uint, userPages, pgSize, kernBase] at *
  omega

/-- The entry of a page below the size. -/
theorem entry (lower : x < pageUp sz) : x < userPages ∧ ∃ w, s.pte pd x = some w := by
  have user : x < userPages := by
    have small := space.small
    simp only [pageUp, uint, userPages, pgSize, kernBase] at *
    omega
  exact ⟨user, Option.ne_none_iff_exists'.mp ((space.pages x user).mpr lower)⟩

/-- The page of an entry for the user is a page of memory. -/
theorem isPage (user : x < userPages) (entry : s.pte pd x = some w) :
    IsPage layout (p2v (pteAddr w)) :=
  space.audited.isPage _ (.inr ⟨_, Audited.node_user space.root user (leaf_of_entry entry)⟩)

end Space

/-- `allocuvm` for the image of a program. -/
theorem allocuvm_space (space : Space layout pd sz s b) :
    Wp stops (allocuvm layout pd sz newsz)
      (fun r t => ∃ b', Moves layout s b t b' ∧ b'.root = b.root ∧ b'.hand = b.hand ∧
        (r ≠ 0 → Space layout pd r t b' ∧ r = max sz newsz) ∧
        (0 < newsz → newsz < kernBase → 2 * pageUp newsz ≤ grants s b → r ≠ 0)) s := by
  by_cases high : kernBase ≤ newsz
  · unfold allocuvm
    rw [if_pos high]
    exact Wp.pure ⟨b, .refl space.audited, rfl, rfl, fun zero => absurd rfl zero,
      fun _ low => absurd high (Nat.not_le.mpr low)⟩
  by_cases less : newsz < sz
  · unfold allocuvm
    rw [if_neg high, if_pos less]
    exact Wp.pure ⟨b, .refl space.audited, rfl, rfl, fun _ =>
      ⟨space, (Nat.max_eq_left (Nat.le_of_lt less)).symm⟩,
      fun _ _ _ => Nat.ne_zero_of_lt less⟩
  have fresh (x : Nat) (user : x < userPages) (above : pageUp sz ≤ x) : s.page pd x = none := by
    rw [page_eq_none]
    exact not_not.mp ((space.pages x user).not.mpr (Nat.not_lt.mpr above))
  have below := Nat.lt_of_not_le high
  apply Wp.mono (allocuvm_allocated space.audited space.root below (Nat.le_of_not_lt less) fresh)
  rintro r t ⟨b', allocated⟩
  refine ⟨b', allocated.moves, allocated.root, allocated.hand, fun nonzero => ?_,
    fun positive _ enough => ?_⟩
  · obtain ⟨rfl, new, old⟩ | ⟨zero, -⟩ := allocated.page
    · refine ⟨⟨allocated.moves.audited, allocated.root.trans space.root, below,
        fun x user => ?_, ?_,
        fun i lower upper => ?_⟩, (Nat.max_eq_right (Nat.le_of_not_lt less)).symm⟩
      · rw [pte_ne_none, below_pageUp below]
        by_cases mine : pagesFrom (pageUp sz) r x
        · rw [new x user mine]
          exact iff_of_true (Option.some_ne_none _) mine.2
        · rw [old x user mine, ← pte_ne_none, space.pages x user]
          have order : pageUp sz ≤ pageUp r := by
            simp only [pageUp, uint, pgSize, kernBase] at *
            omega
          rw [pagesFrom, ← below_pageUp below] at mine
          rw [← below_pageUp below]
          omega
      · refine space.guarded.congr fun x lower upper => allocated.pte x upper fun mine => ?_
        have above := mine.2
        simp only [userPages, pgSize, kernBase] at *
        omega
      · rw [allocated.next i (Nat.le_trans (by decide) lower), space.gap i lower upper]
    · exact absurd zero nonzero
  · rw [(allocated.supplied 0 (by omega)).1]
    exact Nat.ne_of_gt positive

/-! ## `loaduvm` -/

/-- The loop of `loaduvm` stores to the pages of the segment. -/
theorem loaduvmFrom_painted {addr filesz : Nat} (aligned : addr % pgSize = 0)
    (fits : addr + filesz ≤ sz) (readi : Nat → Paint × Bool) (i : Nat) (step : i % pgSize = 0)
    (space : Space layout pd sz s b) :
    Wp stops (loaduvmFrom pd addr filesz readi i) (fun _ t => Painted layout pd s b t) s := by
  induction gap : filesz - i using Nat.strong_induction_on generalizing s i with
  | _ n ih =>
  unfold loaduvmFrom
  apply Wp.ite
  · intro more
    obtain ⟨user, lower⟩ := space.below (y := addr + i) (by omega)
    have va : uint (addr + i) = (addr + i) / pgSize * pgSize := by
      have small := space.small
      simp only [uint, pgSize, kernBase] at *
      omega
    rw [va]
    generalize (addr + i) / pgSize = x at user lower
    obtain ⟨-, w, entry⟩ := space.entry lower
    obtain ⟨pt, table, word, -⟩ := table_of_pte entry
    apply Wp.bind (walkpgdir_next pd (x * pgSize))
    rintro _ s ⟨rfl, rfl⟩
    rw [pdx_page, ptx_page, table]
    apply Wp.get
    apply Wp.get
    rw [word]
    apply Wp.bind setPage_spec
    rintro _ t t_eq
    have painted := Painted.one space.audited space.root user entry
      ((readi i).1.page (s.mem (p2v (pteAddr w))))
    rw [← t_eq] at painted
    apply Wp.ite
    · intro _
      have shorter : filesz - (i + pgSize) < n := by
        simp only [pgSize]
        omega
      apply Wp.mono (ih _ shorter (i + pgSize) (by simp [step]) (space.painted painted) rfl)
      exact fun _ u later => painted.trans later
    · exact fun _ => Wp.pure painted
  · exact fun _ => Wp.pure (.refl space.audited)

/-- `loaduvm` stores to the pages of the segment. -/
theorem loaduvm_painted {addr filesz : Nat} (aligned : addr % pgSize = 0)
    (fits : addr + filesz ≤ sz) (readi : Nat → Paint × Bool) (space : Space layout pd sz s b) :
    Wp stops (loaduvm pd addr filesz readi) (fun _ t => Painted layout pd s b t) s := by
  unfold loaduvm
  rw [if_neg (not_not.mpr aligned)]
  exact loaduvmFrom_painted aligned fits readi 0 rfl space

/-! ## `clearpteu` -/

/-- `clearpteu` takes the user's permission from the entry of a page below the size. -/
theorem clearpteu_space (space : Space layout pd sz s b) (lower : x < pageUp sz) :
    Wp stops (clearpteu pd (x * pgSize))
      (fun _ t => Moves layout s b t b ∧ Space layout pd sz t b) s := by
  obtain ⟨user, w, entry⟩ := space.entry lower
  obtain ⟨pt, table, word, present⟩ := table_of_pte entry
  have low := div_lt (user_lt user)
  have place : x % npdEntries < npdEntries := Nat.mod_lt _ (by decide)
  have audited := space.audited
  have root := space.root
  unfold clearpteu
  apply Wp.bind (walkpgdir_next pd (x * pgSize))
  rintro _ s ⟨rfl, rfl⟩
  rw [pdx_page, ptx_page, table]
  apply Wp.get
  rw [word]
  apply Wp.mono setWord_spec
  intro _ t t_eq
  have present' := (clearu_present w).mpr present
  have pte (y : Nat) (inside : y < allPages) :=
    audited.pte_poke_table (w := w - pteU * (w / 2 ^ 2 % 2)) root low table place inside
  simp only [page_indices, presentPte, if_pos present'] at pte
  have node := Moves.node_poke_table (w := w - pteU * (w / 2 ^ 2 % 2)) audited root low table place
  have leads : leadsTo (w - pteU * (w / 2 ^ 2 % 2)) = s.node b.root (.user x) := by
    rw [leadsTo, if_pos present', clearu_addr, root, Vm.node_user_eq user, leaf_of_entry entry]
  rw [page_indices, if_pos user, leads, update_eq_self] at node
  have part := Moves.table_part root low table
  have moves := Moves.shuffle audited node (.refl _) (Moves.list_poke audited part)
    (Moves.outside_poke part) rfl
  have same : s.poke pt (x % npdEntries) (w - pteU * (w / 2 ^ 2 % 2)) = t := t_eq.symm
  rw [same] at pte moves
  refine ⟨moves, moves.audited, root, space.small, fun y user' => ?_, ?_, fun i lower upper => ?_⟩
  · rw [pte y (user_lt user')]
    split
    · rename_i here
      rw [here]
      exact iff_of_true (Option.some_ne_none _) lower
    · exact space.pages y user'
  · refine space.guarded.congr fun y above inside => ?_
    rw [pte y inside, if_neg (by omega)]
  · rw [← same, audited.next_poke_table root low table, space.gap i lower upper]

/-! ## `copyout` -/

/-- `uva2ka` where there is an entry. -/
theorem uva2ka_entry (entry : s.pte pd x = some w) :
    Wp stops (uva2ka cr3 pd (x * pgSize))
      (fun r t => t = s ∧ r = if ForUser w then p2v (pteAddr w) else 0) s := by
  obtain ⟨pt, table, word, present⟩ := table_of_pte entry
  unfold uva2ka
  apply Wp.bind (walkpgdir_next pd (x * pgSize))
  rintro _ _ ⟨rfl, rfl⟩
  rw [pdx_page, ptx_page, table]
  apply Wp.get
  rw [word]
  show Wp stops (if ¬Present w then pure 0 else _) _ _
  rw [if_neg (not_not.mpr present)]
  apply Wp.ite
  · intro guarded
    rw [if_neg guarded]
    exact Wp.pure ⟨rfl, rfl⟩
  · intro allowed
    rw [if_pos (not_not.mp allowed)]
    exact Wp.pure ⟨rfl, rfl⟩

/-- A store of the kernel to a page of the allocator. -/
theorem kstore_page {v : Nat} (page : IsPage layout v) (paint : Paint) :
    Wp stops (kstore layout cr3 v paint)
      (fun _ t => t = { s with mem := update s.mem v (paint.page (s.mem v)) }) s := by
  have direct : layout.data ≤ v ∧ v < p2v physTop := by
    have order := layout.order
    have behind := page.behind
    have above := page.kernBase_lt
    have memory := page.memory
    rw [page.v2p_eq] at memory
    simp only [p2v, uint, physTop, kernBase] at *
    omega
  unfold kstore store
  rw [if_pos direct]
  apply Wp.get
  apply Wp.bind setPage_spec
  rintro _ _ rfl
  rw [if_neg fun data => absurd page.behind (Nat.not_le.mpr data.2)]
  exact Wp.pure rfl

/-- `copyout` stores to user pages of the address space, or fails at a page above `DEVSPACE`. -/
theorem copyout_painted (paint : Nat → Paint) (len va : Nat) (space : Space layout pd sz s b)
    (range : va + len ≤ pageUp sz * pgSize ∨ devSpace ≤ va ∧ va < 2 ^ 32) :
    Wp stops (copyout layout cr3 pd va paint len)
      (fun r t => Painted layout pd s b t ∧ (devSpace ≤ va → 0 < len → r = false)) s := by
  induction len using Nat.strong_induction_on generalizing s va with
  | _ len ih =>
  unfold copyout
  apply Wp.ite
  · intro more
    have start : pgRoundDown va = va / pgSize * pgSize := rfl
    rw [start]
    rcases range with inside | ⟨above, small⟩
    · have lower : va / pgSize < pageUp sz := by
        simp only [pgSize] at *
        omega
      obtain ⟨user, w, entry⟩ := space.entry lower
      have page := space.isPage user entry
      apply Wp.bind (uva2ka_entry entry)
      rintro _ s ⟨rfl, rfl⟩
      have high : ¬devSpace ≤ va := by
        simp only [userPages, devSpace, kernBase, pgSize] at *
        omega
      by_cases allowed : ForUser w
      · rw [if_pos allowed, if_neg page.ne_zero]
        apply Wp.bind (kstore_page page (paint len))
        intro _ t t_eq
        have painted := Painted.one space.audited space.root user entry
          ((paint len).page (s.mem (p2v (pteAddr w))))
        rw [← t_eq] at painted
        have shorter : len - min (pgSize - va % pgSize) len < len := by
          simp only [pgSize]
          omega
        apply Wp.mono (ih _ shorter _ (space.painted painted) (.inl ?_))
        · exact fun _ u later => ⟨painted.trans later.1, fun absurd => (high absurd).elim⟩
        · simp only [uint, userPages, kernBase, pgSize] at *
          omega
      · rw [if_neg allowed, if_pos rfl]
        exact Wp.pure ⟨.refl space.audited, fun absurd => (high absurd).elim⟩
    · have lower : devSpace / pgSize ≤ va / pgSize := Nat.div_le_div_right above
      have upper : va / pgSize < allPages := by
        simp only [allPages, pgSize]
        omega
      obtain ⟨w, entry⟩ := Option.ne_none_iff_exists'.mp (space.guarded.top _ lower upper)
      have guarded := space.guarded.kernel _ w (Nat.le_trans (by decide) lower) upper entry
      apply Wp.bind (uva2ka_entry entry)
      rintro _ _ ⟨rfl, rfl⟩
      rw [if_neg guarded, if_pos rfl]
      exact Wp.pure ⟨.refl space.audited, fun _ _ => rfl⟩
  · exact fun none => Wp.pure ⟨.refl space.audited, fun _ some => (none some).elim⟩

/-! ## `exec.c` -/

/-- A size lies below the end of its last page. -/
theorem le_pageUp (small : sz < kernBase) : sz ≤ pageUp sz * pgSize := by
  simp only [pageUp, uint, pgSize, kernBase] at *
  omega

/-- The loop of `exec` over the arguments stores to the stack of the new image. -/
theorem execPush_painted (args : List (UInt32 × (Nat → Paint))) (argc sp : Nat)
    (short : ∀ arg ∈ args, arg.1.toNat < 2 ^ 25) (few : argc ≤ maxArg) (below : sp ≤ sz)
    (space : Space layout pd sz s b) :
    Wp stops (execPush layout cr3 pd args argc sp)
      (fun r t => Painted layout pd s b t ∧
        ∀ argc' sp', r = some (argc', sp') → argc' ≤ maxArg ∧ sp' ≤ sz) s := by
  induction args generalizing s argc sp with
  | nil =>
    refine Wp.pure ⟨.refl space.audited, fun argc' sp' same => ?_⟩
    obtain ⟨rfl, rfl⟩ := Prod.mk.inj (Option.some.inj same)
    exact ⟨few, below⟩
  | cons arg rest ih =>
    obtain ⟨strlen, paint⟩ := arg
    have fits : strlen.toNat < 2 ^ 25 := short _ (.head _)
    have small := space.small
    have ends := le_pageUp small
    unfold execPush
    apply Wp.ite
    · exact fun _ => Wp.pure ⟨.refl space.audited, by simp⟩
    intro room
    have length : uint (strlen.toNat + 1) = strlen.toNat + 1 := Nat.mod_eq_of_lt (by omega)
    rw [length]
    apply Wp.bind (copyout_painted paint _ _ space ?_)
    · rintro copied t ⟨painted, high⟩
      apply Wp.ite
      · intro done
        have inside : uint (sp + 2 ^ 33 - (strlen.toNat + 1)) / 4 * 4 ≤ sz := by
          by_contra above
          refine absurd (high ?_ (Nat.succ_pos _)) (by simp [done])
          simp only [uint, devSpace, kernBase] at *
          omega
        apply Wp.mono (ih _ _ (fun arg member => short arg (.tail _ member)) (by omega) inside
          (space.painted painted))
        exact fun _ u later => ⟨painted.trans later.1, later.2⟩
      · exact fun _ => Wp.pure ⟨painted, by simp⟩
    · simp only [uint, devSpace, kernBase] at *
      omega

/-- The loop of `exec` over the program headers adds pages to the image. -/
theorem execLoad_space (headers : List (Option Proghdr)) (space : Space layout pd sz s b) :
    Wp stops (execLoad layout pd headers sz)
      (fun r t => ∃ b', Moves layout s b t b' ∧ b'.root = b.root ∧ b'.hand = b.hand ∧
        ∀ sz', r = some sz' → Space layout pd sz' t b') s := by
  have stop : ∃ b', Moves layout s b s b' ∧ b'.root = b.root ∧ b'.hand = b.hand ∧
      ∀ sz', (none : Option Nat) = some sz' → Space layout pd sz' s b' :=
    ⟨b, .refl space.audited, rfl, rfl, fun _ absurd => by cases absurd⟩
  induction headers generalizing s b sz with
  | nil =>
    refine Wp.pure ⟨b, .refl space.audited, rfl, rfl, fun sz' same => ?_⟩
    cases same
    exact space
  | cons header rest ih =>
    cases header with
    | none => exact Wp.pure stop
    | some ph =>
      unfold execLoad
      apply Wp.ite
      · exact fun _ => ih space stop
      intro _
      apply Wp.ite
      · exact fun _ => Wp.pure stop
      intro enough
      apply Wp.ite
      · exact fun _ => Wp.pure stop
      intro unwrapped
      apply Wp.bind (allocuvm_space space)
      rintro sz' t ⟨b', moves, root, hand, grown, -⟩
      have stop' : ∃ b', Moves layout s b t b' ∧ b'.root = b.root ∧ b'.hand = b.hand ∧
          ∀ sz', (none : Option Nat) = some sz' → Space layout pd sz' t b' :=
        ⟨b', moves, root, hand, fun _ absurd => by cases absurd⟩
      apply Wp.ite
      · exact fun _ => Wp.pure stop'
      intro nonzero
      obtain ⟨space', size⟩ := grown nonzero
      apply Wp.ite
      · exact fun _ => Wp.pure stop'
      intro aligned
      have fits : ph.vaddr.toNat + ph.filesz.toNat ≤ sz' := by
        have memsz := ph.memsz.toNat_lt
        have vaddr := ph.vaddr.toNat_lt
        rw [UInt32.lt_iff_toNat_lt] at enough
        simp only [uint] at unwrapped size
        omega
      apply Wp.bind (loaduvm_painted (not_not.mp aligned) fits ph.readi space')
      intro all u painted
      have moves' := moves.trans painted.moves
      apply Wp.ite
      · intro _
        apply Wp.mono (ih (space'.painted painted) ⟨b', .refl painted.moves.audited, rfl, rfl,
          fun _ absurd => by cases absurd⟩)
        rintro r w ⟨b'', later, root', hand', result⟩
        exact ⟨b'', moves'.trans later, root'.trans root, hand'.trans hand, result⟩
      · exact fun _ => Wp.pure ⟨b', moves', root, hand, fun _ absurd => by cases absurd⟩

/-- The new image is built in an address space without user pages. -/
theorem execBuild_space (image : Image) (short : ∀ arg ∈ image.args, arg.1.toNat < 2 ^ 25)
    (space : Space layout pd 0 s b) :
    Wp stops (execBuild layout cr3 pd image)
      (fun r t => ∃ b', Moves layout s b t b' ∧ b'.root = b.root ∧ b'.hand = b.hand ∧
        ∀ sz, r = some sz → Space layout pd sz t b') s := by
  unfold execBuild
  apply Wp.bind (execLoad_space image.headers space)
  rintro (- | sz) s₁ ⟨b₁, moves₁, root₁, hand₁, loaded⟩
  · exact Wp.pure ⟨b₁, moves₁, root₁, hand₁, fun _ absurd => by cases absurd⟩
  have space₁ := loaded sz rfl
  have small₁ := space₁.small
  by_cases high : kernBase ≤ pgRoundUp sz
  · -- There is no room for the stack.
    have full : Wp stops (allocuvm layout pd (pgRoundUp sz) (uint (pgRoundUp sz + 2 * pgSize)))
        (fun r t => r = 0 ∧ t = s₁) s₁ := by
      unfold allocuvm
      rw [if_pos]
      · exact Wp.pure ⟨rfl, rfl⟩
      · simp only [pgRoundUp, uint, pgSize, kernBase] at *
        omega
    apply Wp.bind full
    rintro _ _ ⟨rfl, rfl⟩
    rw [if_pos rfl]
    exact Wp.pure ⟨b₁, moves₁, root₁, hand₁, fun _ absurd => by cases absurd⟩
  have whole : Space layout pd (pgRoundUp sz) s₁ b₁ := by
    refine ⟨space₁.audited, space₁.root, Nat.lt_of_not_le high, fun x user => ?_, space₁.guarded,
      space₁.gap⟩
    rw [space₁.pages x user]
    simp only [pageUp, pgRoundUp, uint, pgSize, kernBase] at *
    omega
  apply Wp.bind (allocuvm_space whole)
  rintro sz₂ s₂ ⟨b₂, moves₂, root₂, hand₂, grown, -⟩
  have moves₂ := moves₁.trans moves₂
  have root₂ := root₂.trans root₁
  have hand₂ := hand₂.trans hand₁
  apply Wp.ite
  · exact fun _ => Wp.pure ⟨b₂, moves₂, root₂, hand₂, fun _ absurd => by cases absurd⟩
  intro nonzero
  obtain ⟨space₂, size⟩ := grown nonzero
  have small₂ := space₂.small
  have guard : sz₂ - 2 * pgSize = pageUp sz * pgSize ∧ pageUp sz < pageUp sz₂ := by
    simp only [pageUp, pgRoundUp, uint, pgSize, kernBase] at *
    omega
  rw [guard.1]
  apply Wp.bind (clearpteu_space space₂ guard.2)
  rintro _ s₃ ⟨moves₃, space₃⟩
  have moves₃ := moves₂.trans moves₃
  apply Wp.bind (execPush_painted image.args 0 sz₂ short (Nat.zero_le _) (Nat.le_refl _) space₃)
  rintro (- | ⟨argc, sp⟩) s₄ ⟨painted, result⟩
  · exact Wp.pure ⟨b₂, moves₃.trans painted.moves, root₂, hand₂, fun _ absurd => by cases absurd⟩
  obtain ⟨few, inside⟩ := result argc sp rfl
  have space₄ := space₃.painted painted
  have ends := le_pageUp small₂
  apply Wp.bind (copyout_painted image.ustack _ _ space₄ ?_)
  · rintro copied s₅ ⟨painted', -⟩
    have moves₅ := (moves₃.trans painted.moves).trans painted'.moves
    apply Wp.ite
    · intro _
      refine Wp.pure ⟨b₂, moves₅, root₂, hand₂, fun sz' same => ?_⟩
      cases same
      exact space₄.painted painted'
    · exact fun _ => Wp.pure ⟨b₂, moves₅, root₂, hand₂, fun _ absurd => by cases absurd⟩
  · simp only [maxArg, uint, devSpace, kernBase] at *
    omega

end Xv6
