import Xv6.Verif.SpaceOps

/-!
# The user part of an address space

`mappages` for one user page, `deallocuvm`, `freevm` and `allocuvm`, from right books to right
books. Each says what the user pages hold in the end.
-/

namespace Xv6

open Lib Function

variable {layout : Layout} {s t u : Vm} {b b' : Books} {pd : Nat} {stops : String → Prop}

variable {k v oldsz newsz sz : Nat}

/-- A page that is not present has no entry. -/
theorem leaf_of_page (empty : s.page pd k = none) : s.leaf pd k = none :=
  Option.map_eq_none_iff.mp empty

/-- A user page has its address below `KERNBASE`. -/
theorem page_below (user : k < userPages) : k * pgSize < kernBase := by
  simp only [userPages, kernBase, pgSize] at *
  omega

/-- The pages of an address space are found in memory. -/
theorem page_mem (words : t.mem = s.mem) (k : Nat) : t.page pd k = s.page pd k := by
  rw [Vm.page, Vm.page, Vm.leaf, Vm.leaf, words]
  simp only [Vm.next, words]

/-- A page has been taken and filled, beside the address space. -/
structure Fetched (layout : Layout) (pd v : Nat) (words : Page) (s : Vm) (b : Books) (t : Vm)
    (b' : Books) : Prop where
  moves : Moves layout s b t b'
  filled : t.mem v = words
  page : ∀ x, x < userPages → t.page pd x = s.page pd x
  next : ∀ i, t.next pd i = s.next pd i
  pte : ∀ x, x < allPages → t.pte pd x = s.pte pd x

/-- A page that `kalloc` gave is filled. -/
theorem setPage_fetched (taken : Moves layout s b t b') (same : t.mem = s.mem)
    (root : b'.root = some pd) (held : v ∈ b'.hand) (words : Page) :
    Wp stops (setPage v words)
      (fun _ u => u = { t with mem := update t.mem v words } ∧
        Fetched layout pd v words s b u b') t := by
  apply Wp.mono setPage_spec
  intro _ u u_eq
  have loose : v ∈ b'.loose := List.mem_append_right _ held
  have filled := Moves.fill taken.audited held words
  rw [← u_eq] at filled
  have others (x : Nat) (other : x ≠ v) : u.mem x = t.mem x := by
    rw [u_eq]
    exact update_of_ne other _ _
  have apart := (taken.audited.loose_ne_dir root loose).symm
  refine ⟨u_eq, taken.trans filled, ?_, ?_, ?_, ?_⟩
  · rw [u_eq]
    exact update_self ..
  · intro x user
    rw [taken.audited.page_same root loose others user, page_mem same]
  · intro i
    rw [Vm.next_congr (others pd apart), Vm.next_congr (congrFun same pd)]
  · intro x inside
    rw [taken.audited.pte_same root loose others inside]
    exact Vm.pte_congr (congrFun same pd) (fun _ pt _ _ => congrFun same pt) inside

/-! ## `mappages` -/

/-- The first page in hand has been mapped as a user page, or there is no page table for it. -/
structure UserMapped (layout : Layout) (pd k perm : Nat) (s : Vm) (b : Books) (r : Bool) (t : Vm)
    (b' : Books) : Prop where
  moves : Moves layout s b t b'
  root : b'.root = b.root
  hand : b'.hand = if r then b.hand.tail else b.hand
  page : ∀ x, x < userPages →
    t.page pd x = if r ∧ x = k then b.hand.head?.map s.mem else s.page pd x
  leaf : r = true → t.leaf pd k = b.hand.head?
  entry : r = true → t.pte pd k = b.hand.head?.map fun v => v2p v ||| perm ||| pteP
  pte : ∀ x, x < allPages → x ≠ k → t.pte pd x = s.pte pd x
  next : ∀ i, i ≠ k / npdEntries → t.next pd i = s.next pd i
  /-- It is mapped, with a page for the page table if there was none. -/
  made : r = true → t.next pd (k / npdEntries) ≠ none ∧
    grants s b = grants t b' + if s.next pd (k / npdEntries) = none then 1 else 0
  /-- A failure is for want of a page for the page table. -/
  lacks : r = false → t.next pd (k / npdEntries) = none ∧ s.next pd (k / npdEntries) = none ∧
    grants s b = 0

/-- `mappages` for one page in hand. -/
theorem mappages_page {perm : Nat} {rest : List Nat} (audited : Audited layout s b)
    (root : b.root = some pd) (held : b.hand = v :: rest) (user : k < userPages)
    (empty : s.page pd k = none) (permitted : perm < pgSize) :
    Wp stops (mappages pd (k * pgSize) pgSize (v2p v) perm)
      (fun r t => ∃ b', UserMapped layout pd k perm s b r t b') s := by
  have small : k * pgSize < 2 ^ 32 := (page_below user).trans (by decide)
  have low := div_lt (user_lt user)
  have entry : k % npdEntries < npdEntries := Nat.mod_lt _ (by decide)
  have isPage := audited.isPage v (.inl (b.loose_of_hand held))
  rw [mappages_one (Nat.mul_mod_left ..) small]
  unfold mappagesFrom
  apply Wp.bind (walkpgdir_grown audited root small)
  intro r t post
  obtain ⟨found, b', grown⟩ := post
  rw [pdx_page, ptx_page] at found
  rw [pdx_page] at grown
  cases table : t.next pd (k / npdEntries) with
  | none =>
    rw [table] at found
    subst found
    refine Wp.pure ⟨b', grown.moves, grown.root, grown.hand, ?_, by simp, by simp,
      fun x inside _ => grown.pte x inside, grown.others, by simp, fun _ => ⟨table, ?_⟩⟩
    · intro x inside
      rw [grown.page x inside]
      simp
    · rcases grown.cost with ⟨there, same, -⟩ | ⟨none, ⟨-, cost⟩ | ⟨there, -⟩⟩
      · exact absurd (same.symm.trans table) there
      · exact ⟨none, cost⟩
      · exact absurd table there
  | some pt =>
    rw [table] at found
    subst found
    have root' : b'.root = some pd := grown.root.trans root
    have held' : b'.hand = v :: rest := grown.hand.trans held
    have empty' : t.leaf pd k = none := by
      rw [grown.leaf (user_lt user), leaf_of_page empty]
    have flags := flags_lt permitted
    have present : Present (v2p v ||| perm ||| pteP) := by
      rw [entry_flags]
      exact (present_or isPage.v2p_aligned flags).mpr (flags_present perm)
    have leads : leadsTo (v2p v ||| perm ||| pteP) = some v := by
      rw [leadsTo, if_pos present, entry_flags, isPage.entry_page flags]
    have audited' := grown.moves.audited
    have part := Moves.table_part root' low table
    have mapped := Moves.map audited' root' held' low table entry (by rwa [page_indices])
      (by rwa [page_indices]) leads
    have leaf (x : Nat) (inside : x < allPages) := audited'.leaf_poke_table
      (w := v2p v ||| perm ||| pteP) root' low table entry inside
    have pte (x : Nat) (inside : x < allPages) := audited'.pte_poke_table
      (w := v2p v ||| perm ||| pteP) root' low table entry inside
    have next := audited'.next_poke_table (j := k % npdEntries) (w := v2p v ||| perm ||| pteP) root'
      low table
    simp only [page_indices, leads] at leaf
    simp only [page_indices, presentPte, if_pos present] at pte
    apply Wp.get
    apply Wp.ite
    · exact fun present => absurd present (not_present_of_leaf table empty')
    intro _
    apply Wp.bind setWord_spec
    rintro _ _ rfl
    refine Wp.pure ⟨_, grown.moves.trans mapped, grown.root, ?_, ?_, ?_, ?_, ?_, ?_,
      fun _ => ⟨?_, ?_⟩, by simp⟩
    · rw [held]
      rfl
    · intro x inside
      by_cases here : x = k
      · have apart : v ≠ pt := by
          rintro rfl
          exact audited'.apart _ v part (b'.loose_of_hand held')
        have words : (t.poke pt (k % npdEntries) (v2p v ||| perm ||| pteP)).mem v = s.mem v :=
          (update_of_ne apart _ _).trans (grown.held v (by rw [held]; exact .head _))
        rw [if_pos ⟨rfl, here⟩, held, here, List.head?_cons, Option.map_some, ← words]
        exact congrArg (Option.map _) (leaf k (user_lt user)) |>.trans (by rw [if_pos rfl]; rfl)
      · rw [if_neg fun both => here both.2, ← grown.page x inside]
        apply audited'.page_poke root' part (by simp) inside
        rw [leaf x (user_lt inside), if_neg here]
    · intro _
      have entry := leaf k (user_lt user)
      rw [if_pos rfl] at entry
      rw [held]
      exact entry
    · intro _
      have entry := pte k (user_lt user)
      rw [if_pos rfl] at entry
      rw [held]
      exact entry
    · intro x inside other
      have entry := pte x inside
      rw [if_neg other, grown.pte x inside] at entry
      exact entry
    · exact fun i other => (next i).trans (grown.others i other)
    · exact fun none => Option.some_ne_none pt (table.symm.trans ((next _).symm.trans none))
    · show _ = grants t b' + _
      rcases grown.cost with ⟨there, -, cost⟩ | ⟨none, ⟨none', -⟩ | ⟨-, cost⟩⟩
      · rw [if_neg there, cost, Nat.add_zero]
      · rw [none'] at table
        cases table
      · rw [if_pos none, cost]

/-! ## `deallocuvm` -/

/-- Some user pages have been freed. -/
structure Dropped (layout : Layout) (pd : Nat) (gone : Nat → Prop) (s : Vm) (b : Books) (t : Vm)
    (b' : Books) : Prop where
  moves : Moves layout s b t b'
  root : b'.root = b.root
  hand : b'.hand = b.hand
  next : ∀ i, t.next pd i = s.next pd i
  absent : ∀ x, x < userPages → gone x → t.page pd x = none
  page : ∀ x, x < userPages → ¬gone x → t.page pd x = s.page pd x
  pte : ∀ x, x < allPages → ¬gone x → t.pte pd x = s.pte pd x

namespace Dropped

variable {gone gone' : Nat → Prop} {b'' : Books}

/-- No page is freed. -/
theorem refl (audited : Audited layout s b) : Dropped layout pd (fun _ => False) s b s b :=
  ⟨.refl audited, rfl, rfl, fun _ => rfl, fun _ _ never => never.elim, fun _ _ _ => rfl,
    fun _ _ _ => rfl⟩

/-- Pages are freed after others. -/
theorem trans (first : Dropped layout pd gone s b t b')
    (second : Dropped layout pd gone' t b' u b'') :
    Dropped layout pd (fun x => gone x ∨ gone' x) s b u b'' := by
  constructor
  case moves => exact first.moves.trans second.moves
  case root => exact second.root.trans first.root
  case hand => exact second.hand.trans first.hand
  case next => exact fun i => (second.next i).trans (first.next i)
  case absent =>
    intro x user either
    by_cases late : gone' x
    · exact second.absent x user late
    · rw [second.page x user late, first.absent x user (either.resolve_right late)]
  case page =>
    intro x user neither
    rw [not_or] at neither
    rw [second.page x user neither.2, first.page x user neither.1]
  case pte =>
    intro x inside neither
    rw [not_or] at neither
    rw [second.pte x inside neither.2, first.pte x inside neither.1]

/-- Pages that were not there are gone too. -/
theorem widen (dropped : Dropped layout pd gone s b t b') (more : ∀ x, gone x → gone' x)
    (blank : ∀ x, x < userPages → gone' x → gone x ∨ s.page pd x = none) :
    Dropped layout pd gone' s b t b' := by
  constructor
  case moves => exact dropped.moves
  case root => exact dropped.root
  case hand => exact dropped.hand
  case next => exact dropped.next
  case absent =>
    intro x user now
    by_cases before : gone x
    · exact dropped.absent x user before
    · rw [dropped.page x user before]
      exact (blank x user now).resolve_left before
  case page => exact fun x user kept => dropped.page x user fun before => kept (more x before)
  case pte => exact fun x inside kept => dropped.pte x inside fun before => kept (more x before)

/-- One page is freed and its entry cleared. -/
theorem one (audited : Audited layout s b) (root : b.root = some pd) {k pt v : Nat}
    (user : k < userPages) (table : s.next pd (k / npdEntries) = some pt)
    (there : s.leaf pd k = some v) :
    ∃ b', Dropped layout pd (fun x => x = k) s b
      { s with
        freelist := v
        mem := update (update s.mem v (junk s.freelist)) pt
          (update (update s.mem v (junk s.freelist) pt) (k % npdEntries) 0) } b' := by
  have low := div_lt (user_lt user)
  have entry : k % npdEntries < npdEntries := Nat.mod_lt _ (by decide)
  have part := Moves.table_part root low table
  have apart : pt ≠ v := by
    rintro rfl
    cases audited.alone _ _ pt part (Audited.node_user root user there)
  have leaf (x : Nat) (inside : x < allPages) :=
    audited.leaf_poke_table (w := 0) root low table entry inside
  have pte (x : Nat) (inside : x < allPages) :=
    audited.pte_poke_table (w := 0) root low table entry inside
  have next (i : Nat) := audited.next_poke_table (j := k % npdEntries) (w := 0) root low table i
  have kept (x : Nat) (inside : x < userPages) :=
    audited.page_poke (i := k % npdEntries) (w := 0) root part (by simp) inside
  -- The entry is cleared first: then the page is in hand.
  have cleared := Moves.unmap audited root low table entry (by rwa [page_indices])
    (by rwa [page_indices])
  rw [update_of_ne apart, update_comm apart.symm]
  simp only [page_indices] at leaf pte
  obtain ⟨c, c_eq⟩ : ∃ c, c = s.poke pt (k % npdEntries) 0 := ⟨_, rfl⟩
  have swap : ({ s with
      freelist := v
      mem := update (update s.mem pt
        (update (s.mem pt) (k % npdEntries) 0)) v (junk s.freelist) } : Vm) =
      { c with mem := update c.mem v (junk s.freelist), freelist := v } := by
    rw [c_eq]
    rfl
  rw [← c_eq] at cleared leaf pte next kept
  rw [swap]
  have freed := Moves.push cleared.audited rfl (show junk s.freelist 0 = c.freelist by
    rw [c_eq, junk_zero]
    rfl)
  obtain ⟨d, d_eq⟩ : ∃ d : Vm, d =
      { c with mem := update c.mem v (junk s.freelist), freelist := v } := ⟨_, rfl⟩
  rw [← d_eq] at freed ⊢
  have others (x : Nat) (other : x ≠ v) : d.mem x = c.mem x := by
    rw [d_eq]
    exact update_of_ne other _ _
  have loose : v ∈ ({ b with hand := v :: b.hand } : Books).loose :=
    List.mem_append_right _ (.head _)
  have notDir := (cleared.audited.loose_ne_dir root loose).symm
  refine ⟨_, cleared.trans freed, rfl, rfl, ?_, ?_, ?_, ?_⟩
  · intro i
    rw [Vm.next_congr (others pd notDir), next]
  · rintro x - rfl
    rw [cleared.audited.page_same root loose others user, Vm.page, leaf x (user_lt user),
      if_pos rfl]
    rfl
  · intro x inside other
    rw [cleared.audited.page_same root loose others inside, kept x inside]
    rw [leaf x (user_lt inside), if_neg other]
  · intro x inside other
    rw [cleared.audited.pte_same root loose others inside, pte x inside, if_neg other]

end Dropped

/-- The pages from `k` on that begin below a size. -/
def pagesFrom (k sz : Nat) : Nat → Prop := fun x => k ≤ x ∧ x * pgSize < sz

/-- The loop of `deallocuvm`. -/
theorem deallocuvmFrom_dropped (below : oldsz ≤ kernBase) (k : Nat) (audited : Audited layout s b)
    (root : b.root = some pd) :
    Wp stops (deallocuvmFrom layout pd oldsz (k * pgSize))
      (fun _ t => ∃ b', Dropped layout pd (pagesFrom k oldsz) s b t b') s := by
  induction gap : oldsz - k * pgSize using Nat.strong_induction_on generalizing s b k with
  | _ n ih =>
  unfold deallocuvmFrom
  apply Wp.ite
  · intro more
    have user : k < userPages := by
      simp only [userPages, kernBase, pgSize] at *
      omega
    apply Wp.bind (walkpgdir_next _ _)
    rintro r t ⟨rfl, found⟩
    rw [pdx_page, ptx_page] at found
    cases table : t.next pd (k / npdEntries) with
    | none =>
      rw [table] at found
      subst found
      have skip : (pdx (k * pgSize) + 1) * 2 ^ 22 = (k / npdEntries + 1) * npdEntries * pgSize := by
        rw [pdx_page]
        simp only [npdEntries, pgSize]
        omega
      dsimp only [Option.map_none]
      rw [skip]
      have shorter : oldsz - (k / npdEntries + 1) * npdEntries * pgSize < n := by
        simp only [npdEntries, pgSize] at *
        omega
      apply Wp.mono (ih _ shorter _ audited root rfl)
      rintro _ u ⟨b', dropped⟩
      refine ⟨b', dropped.widen ?_ ?_⟩
      · rintro x ⟨lower, upper⟩
        refine ⟨?_, upper⟩
        simp only [npdEntries] at *
        omega
      · rintro x - ⟨lower, upper⟩
        by_cases late : (k / npdEntries + 1) * npdEntries ≤ x
        · exact .inl ⟨late, upper⟩
        · have same : x / npdEntries = k / npdEntries := by
            simp only [npdEntries] at *
            omega
          right
          rw [Vm.page, Vm.leaf, same, table]
          rfl
    | some pt =>
      rw [table] at found
      subst found
      have shorter : oldsz - (k + 1) * pgSize < n := by
        simp only [pgSize] at *
        omega
      have step : k * pgSize + pgSize = (k + 1) * pgSize := (Nat.succ_mul k pgSize).symm
      have leaf : t.leaf pd k = t.next pt (k % npdEntries) := by
        rw [Vm.leaf, table, Option.bind_some]
      dsimp only [Option.map_some]
      apply Wp.get
      rw [step]
      apply Wp.ite
      · intro present
        have there : t.leaf pd k = some (p2v (pteAddr (t.mem pt (k % npdEntries)))) := by
          rw [leaf, Vm.next, if_pos present]
        have page := audited.isPage _ (.inr ⟨.user k, Audited.node_user root user there⟩)
        have low : pteAddr (t.mem pt (k % npdEntries)) ≠ 0 := by
          intro zero
          have above := page.kernBase_lt
          rw [zero] at above
          exact absurd above (by decide)
        obtain ⟨b', first⟩ := Dropped.one audited root user table there
        apply Wp.ite
        · exact fun zero => absurd zero low
        intro _
        apply Wp.bind (kfree_run page.small fun refused => absurd page refused)
        rintro _ _ ⟨-, rfl⟩
        apply Wp.bind setWord_spec
        rintro _ _ rfl
        apply Wp.mono (ih _ shorter _ first.moves.audited (first.root.trans root) rfl)
        rintro _ u ⟨b'', rest⟩
        refine ⟨b'', (first.trans rest).widen ?_ ?_⟩
        · rintro x (rfl | ⟨lower, upper⟩)
          · exact ⟨Nat.le_refl _, more⟩
          · exact ⟨Nat.le_of_succ_le lower, upper⟩
        · rintro x - ⟨lower, upper⟩
          left
          rcases Nat.eq_or_lt_of_le lower with rfl | later
          · exact .inl rfl
          · exact .inr ⟨later, upper⟩
      · intro absent
        have none : t.page pd k = none := by
          rw [Vm.page, leaf, Vm.next, if_neg absent]
          rfl
        apply Wp.mono (ih _ shorter _ audited root rfl)
        rintro _ u ⟨b', rest⟩
        refine ⟨b', rest.widen ?_ ?_⟩
        · rintro x ⟨lower, upper⟩
          exact ⟨Nat.le_of_succ_le lower, upper⟩
        · rintro x - ⟨lower, upper⟩
          rcases Nat.eq_or_lt_of_le lower with rfl | later
          · exact .inr none
          · exact .inl ⟨later, upper⟩
  · intro done
    refine Wp.pure ⟨b, (Dropped.refl audited).widen (fun _ never => never.elim) ?_⟩
    rintro x - ⟨lower, upper⟩
    have order := Nat.mul_le_mul_right pgSize lower
    omega

/-- The number of the page at `PGROUNDUP` of a size. -/
def pageUp (sz : Nat) : Nat := uint (sz + pgSize - 1) / pgSize

/-- `deallocuvm` frees the pages from the new size to the old one. -/
theorem deallocuvm_dropped (audited : Audited layout s b) (root : b.root = some pd)
    (below : oldsz ≤ kernBase) (less : newsz < oldsz) :
    Wp stops (deallocuvm layout pd oldsz newsz)
      (fun r t => r = newsz ∧ ∃ b', Dropped layout pd (pagesFrom (pageUp newsz) oldsz) s b t b')
      s := by
  unfold deallocuvm
  rw [if_neg (Nat.not_le.mpr less)]
  apply Wp.bind (deallocuvmFrom_dropped below (pageUp newsz) audited root)
  exact fun _ t dropped => Wp.pure ⟨rfl, dropped⟩

/-! ## `freevm` -/

/-- The second loop of `freevm`: the page tables, in hand after the page directory. -/
theorem freevmFrom_moves (entries : List Nat) (inside : ∀ i ∈ entries, i < npdEntries)
    {hand : List Nat} (audited : Audited layout s b) (root : b.root = none)
    (held : b.hand = pd :: (entries.filterMap (fun i => s.node (some pd) (.table i)) ++ hand)) :
    Wp stops (freevmFrom layout pd entries)
      (fun _ t => ∃ free, Moves layout s b t ⟨none, free, pd :: hand⟩) s := by
  induction entries generalizing s b with
  | nil =>
    have same : b = ⟨none, b.free, pd :: hand⟩ := by
      rw [List.filterMap_nil, List.nil_append] at held
      rw [← root, ← held]
    refine Wp.pure ⟨b.free, ?_⟩
    rw [← same]
    exact .refl audited
  | cons i rest ih =>
    have inside' (j : Nat) (member : j ∈ rest) := inside j (.tail _ member)
    have entry : s.node (some pd) (.table i) = s.next pd i := by
      rw [Vm.node, if_pos (inside i (.head _)), Option.bind_some]
    rw [List.filterMap_cons, entry] at held
    unfold freevmFrom
    apply Wp.get
    apply Wp.ite
    · intro present
      rw [Vm.next, if_pos present] at held
      generalize p2v (pteAddr (s.mem pd i)) = pt at held ⊢
      have perm : (pt :: pd ::
          (rest.filterMap (fun i => s.node (some pd) (.table i)) ++ hand)).Perm b.hand := by
        rw [held]
        exact .swap ..
      have swapped := Moves.reorder audited perm
      have other : pd ≠ pt := by
        rintro rfl
        have once := (List.nodup_append.mp swapped.audited.once).2.1
        exact (List.nodup_cons.mp once).1 (.head _)
      apply Wp.bind (kfree_moves swapped.audited rfl)
      intro _ t post
      obtain ⟨freed, words⟩ := post
      have dir (j : Nat) : t.node (some pd) (.table j) = s.node (some pd) (.table j) := by
        simp only [Vm.node, Option.bind_some, Vm.next_congr (words pd other)]
      apply Wp.mono (ih inside' freed.audited root (by simp only [dir]))
      rintro _ u ⟨free, moves⟩
      exact ⟨free, (swapped.trans freed).trans moves⟩
    · intro absent
      rw [Vm.next, if_neg absent] at held
      exact ih inside' audited root held

/-- `freevm` frees all pages of an address space. -/
theorem freevm_moves (audited : Audited layout s b) (root : b.root = some pd) :
    Wp stops (freevm layout pd) (fun _ t => ∃ free, Moves layout s b t ⟨none, free, b.hand⟩) s := by
  have dir := audited.isPage pd (.inr ⟨.dir, root⟩)
  unfold freevm
  rw [if_neg dir.ne_zero]
  apply Wp.bind (deallocuvm_dropped audited root (Nat.le_refl _) (by decide))
  intro _ t post
  obtain ⟨_, b', dropped⟩ := post
  have empty (k : Nat) (user : k < userPages) : t.leaf pd k = none := by
    apply leaf_of_page
    apply dropped.absent k user
    exact ⟨by rw [show pageUp 0 = 0 by decide]; exact Nat.zero_le _, page_below user⟩
  have apart := Moves.uproot dropped.moves.audited (dropped.root.trans root) empty
  apply Wp.bind (freevmFrom_moves (List.range npdEntries) (fun i => List.mem_range.mp) apart.audited
    rfl rfl)
  intro _ u post
  obtain ⟨free, tables⟩ := post
  apply Wp.mono (kfree_moves tables.audited rfl)
  intro _ w post
  obtain ⟨freed, _⟩ := post
  have all := ((dropped.moves.trans apart).trans tables).trans freed
  refine ⟨pd :: free, ?_⟩
  rw [← dropped.hand]
  exact all

/-! ## `allocuvm` -/

/-- User pages from `k` on have been added up to a size, or all from `first` on are gone. -/
structure Allocated (layout : Layout) (pd first k newsz : Nat) (s : Vm) (b : Books) (r : Nat)
    (t : Vm) (b' : Books) : Prop where
  moves : Moves layout s b t b'
  root : b'.root = b.root
  hand : b'.hand = b.hand
  page : r = newsz ∧ (∀ x, x < userPages → pagesFrom k newsz x → t.page pd x = some zeroPage) ∧
      (∀ x, x < userPages → ¬pagesFrom k newsz x → t.page pd x = s.page pd x) ∨
    r = 0 ∧ (∀ x, x < userPages → pagesFrom first newsz x → t.page pd x = none) ∧
      ∀ x, x < userPages → ¬pagesFrom first newsz x → t.page pd x = s.page pd x
  pte : ∀ x, x < allPages → ¬pagesFrom first newsz x → t.pte pd x = s.pte pd x
  /-- No page table of the kernel's part is new. -/
  next : ∀ i, pdx kernBase ≤ i → t.next pd i = s.next pd i
  /-- A page and a page table for each of them are enough. -/
  supplied : ∀ c, 2 * (pageUp newsz - k) + c ≤ grants s b → r = newsz ∧ c ≤ grants t b'

/-- The pages from a later one on, and the first of them. -/
theorem pagesFrom_succ (more : k * pgSize < sz) (x : Nat) :
    pagesFrom k sz x ↔ x = k ∨ pagesFrom (k + 1) sz x := by
  unfold pagesFrom
  constructor
  · rintro ⟨lower, upper⟩
    rcases Nat.eq_or_lt_of_le lower with rfl | later
    · exact .inl rfl
    · exact .inr ⟨later, upper⟩
  · rintro (rfl | ⟨lower, upper⟩)
    · exact ⟨Nat.le_refl _, more⟩
    · exact ⟨Nat.le_of_succ_le lower, upper⟩

/-- Below `KERNBASE` rounding up does not wrap around. -/
theorem below_pageUp (small : sz < kernBase) (k : Nat) : k < pageUp sz ↔ k * pgSize < sz := by
  simp only [pageUp, uint, pgSize, kernBase] at *
  omega

/-- `allocuvm` after a failure: the pages are freed, and the pages of before stay. -/
theorem Allocated.undone {first : Nat} {c : Vm} {b₁ : Books} (moves : Moves layout s b c b₁)
    (root : b₁.root = b.root) (hand : b₁.hand = b.hand)
    (page : ∀ x, x < userPages → c.page pd x = s.page pd x)
    (pte : ∀ x, x < allPages → c.pte pd x = s.pte pd x) (next : ∀ i, c.next pd i = s.next pd i)
    (dropped : Dropped layout pd (pagesFrom first newsz) c b₁ t b')
    (short : grants s b < 2 * (pageUp newsz - k)) :
    Allocated layout pd first k newsz s b 0 t b' := by
  constructor
  case moves => exact moves.trans dropped.moves
  case root => exact dropped.root.trans root
  case hand => exact dropped.hand.trans hand
  case page =>
    refine .inr ⟨rfl, dropped.absent, fun x inside kept => ?_⟩
    rw [dropped.page x inside kept, page x inside]
  case pte =>
    intro x inside kept
    rw [dropped.pte x inside kept, pte x inside]
  case next => exact fun i _ => (dropped.next i).trans (next i)
  case supplied => exact fun c enough => absurd enough (by omega)

/-- The loop of `allocuvm`. -/
theorem allocuvmFrom_allocated (below : newsz < kernBase) (k : Nat) (order : pageUp oldsz ≤ k)
    (grows : k * pgSize < newsz → oldsz < newsz) (audited : Audited layout s b)
    (root : b.root = some pd) (fresh : ∀ x, x < userPages → k ≤ x → s.page pd x = none) :
    Wp stops (allocuvmFrom layout pd oldsz newsz (k * pgSize))
      (fun r t => ∃ b', Allocated layout pd (pageUp oldsz) k newsz s b r t b') s := by
  induction gap : newsz - k * pgSize using Nat.strong_induction_on generalizing s b k with
  | _ n ih =>
  unfold allocuvmFrom
  apply Wp.ite
  · intro more
    have user : k < userPages := by
      simp only [userPages, kernBase, pgSize] at *
      omega
    have less := grows more
    have here := (below_pageUp below k).mpr more
    apply Wp.bind (kalloc_moves audited)
    rintro v t ⟨words, ⟨rfl, refused, still⟩ | ⟨rest, isPage, first, granted, taken⟩⟩
    · rw [if_pos rfl]
      apply Wp.bind (deallocuvm_dropped still.audited root (Nat.le_of_lt below) less)
      rintro _ u ⟨-, b', dropped⟩
      refine Wp.pure ⟨b', .undone still rfl rfl (fun x _ => page_mem words x) ?_
        (Vm.next_congr (congrFun words pd)) dropped (by omega)⟩
      exact fun x => Vm.pte_congr (congrFun words pd) fun _ pt _ _ => congrFun words pt
    · rw [if_neg isPage.ne_zero]
      apply Wp.bind (setPage_fetched taken words root (.head _) zeroPage)
      rintro _ c ⟨c_eq, fetched⟩
      have granted : grants s b = grants c { b with free := rest, hand := v :: b.hand } + 1 := by
        rw [granted, c_eq]
        rfl
      apply Wp.bind (mappages_page fetched.moves.audited root rfl user (by rw [fetched.page k user,
        fresh k user (Nat.le_refl _)]) (by decide))
      rintro done u ⟨b', mapped⟩
      have moved := fetched.moves.trans mapped.moves
      have root' : b'.root = some pd := mapped.root.trans root
      have next (i : Nat) (above : pdx kernBase ≤ i) : u.next pd i = s.next pd i := by
        have other : i ≠ k / npdEntries := by
          simp only [pdx, userPages, kernBase, pgSize, npdEntries] at *
          omega
        exact (mapped.next i other).trans (fetched.next i)
      cases done with
      | true =>
        have shorter : newsz - (k + 1) * pgSize < n := by
          simp only [pgSize] at *
          omega
        have page (x : Nat) (inside : x < userPages) (other : x ≠ k) :
            u.page pd x = s.page pd x := by
          rw [mapped.page x inside, if_neg fun both => other both.2, fetched.page x inside]
        have zero : u.page pd k = some zeroPage := by
          rw [mapped.page k user, if_pos ⟨rfl, rfl⟩, List.head?_cons, Option.map_some,
            fetched.filled]
        rw [if_pos rfl, ← Nat.succ_mul]
        apply Wp.mono (ih _ shorter (k + 1) (Nat.le_succ_of_le order) (fun _ => less) moved.audited
          root' _ rfl)
        · rintro r w ⟨b'', rest⟩
          refine ⟨b'', moved.trans rest.moves, rest.root.trans mapped.root,
            rest.hand.trans mapped.hand, ?_, ?_, ?_, ?_⟩
          · rcases rest.page with ⟨done, there, others⟩ | ⟨failed, gone, others⟩
            · have after : ¬pagesFrom (k + 1) newsz k :=
                fun both => absurd both.1 (Nat.not_succ_le_self _)
              refine .inl ⟨done, fun x inside mine => ?_, fun x inside kept => ?_⟩
              · rcases (pagesFrom_succ more x).mp mine with rfl | later
                · rw [others x inside after, zero]
                · exact there x inside later
              · rw [pagesFrom_succ more, not_or] at kept
                rw [others x inside kept.2, page x inside kept.1]
            · refine .inr ⟨failed, gone, fun x inside kept => ?_⟩
              have other : x ≠ k := by
                rintro rfl
                exact kept ⟨order, more⟩
              rw [others x inside kept, page x inside other]
          · intro x inside kept
            have other : x ≠ k := by
              rintro rfl
              exact kept ⟨order, more⟩
            rw [rest.pte x inside kept, mapped.pte x inside other, fetched.pte x inside]
          · exact fun i above => (rest.next i above).trans (next i above)
          · intro c enough
            have cost := (mapped.made rfl).2
            apply rest.supplied
            split at cost <;> omega
        · intro x inside later
          rw [page x inside (Nat.ne_of_gt later), fresh x inside (Nat.le_of_succ_le later)]
      | false =>
        rw [if_neg (by simp)]
        apply Wp.bind (deallocuvm_dropped moved.audited root' (Nat.le_of_lt below) less)
        rintro _ w ⟨-, b'', dropped⟩
        have held : b''.hand = v :: b.hand := dropped.hand.trans mapped.hand
        have root'' : b''.root = some pd := dropped.root.trans root'
        have audited' := dropped.moves.audited
        have loose := b''.loose_of_hand held
        apply Wp.bind (kfree_moves audited' held)
        rintro _ y ⟨freed, others⟩
        refine Wp.pure ⟨_, (moved.trans dropped.moves).trans freed, dropped.root.trans mapped.root,
          rfl, .inr ⟨rfl, ?_, ?_⟩, ?_, ?_, ?_⟩
        · intro x inside gone
          rw [audited'.page_same root'' loose others inside, dropped.absent x inside gone]
        · intro x inside stays
          rw [audited'.page_same root'' loose others inside, dropped.page x inside stays,
            mapped.page x inside, if_neg (by simp), fetched.page x inside]
        · intro x inside stays
          have other : x ≠ k := by
            rintro rfl
            exact stays ⟨order, more⟩
          rw [audited'.pte_same root'' loose others inside, dropped.pte x inside stays,
            mapped.pte x inside other, fetched.pte x inside]
        · intro i above
          rw [Vm.next_congr (others pd (audited'.loose_ne_dir root'' loose).symm), dropped.next,
            next i above]
        · intro c enough
          have cost := (mapped.lacks rfl).2.2
          omega
  · intro done
    have none (x : Nat) : ¬pagesFrom k newsz x := by
      rintro ⟨lower, upper⟩
      have scaled := Nat.mul_le_mul_right pgSize lower
      omega
    refine Wp.pure ⟨b, .refl audited, rfl, rfl, .inl ⟨rfl, ?_, fun _ _ _ => rfl⟩, fun _ _ _ => rfl,
      fun _ _ => rfl, ?_⟩
    · exact fun x _ mine => absurd mine (none x)
    · exact fun c enough => ⟨rfl, by omega⟩

/-- `allocuvm` adds zero pages up to the new size, or leaves the user pages. -/
theorem allocuvm_allocated (audited : Audited layout s b) (root : b.root = some pd)
    (below : newsz < kernBase) (order : oldsz ≤ newsz)
    (fresh : ∀ x, x < userPages → pageUp oldsz ≤ x → s.page pd x = none) :
    Wp stops (allocuvm layout pd oldsz newsz)
      (fun r t => ∃ b', Allocated layout pd (pageUp oldsz) (pageUp oldsz) newsz s b r t b') s := by
  unfold allocuvm
  rw [if_neg (Nat.not_le.mpr below), if_neg (Nat.not_lt.mpr order)]
  refine allocuvmFrom_allocated below (pageUp oldsz) (Nat.le_refl _) ?_ audited root fresh
  intro more
  apply Nat.lt_of_le_of_ne order
  rintro rfl
  simp only [pageUp, uint, pgSize, kernBase] at *
  omega

end Xv6
