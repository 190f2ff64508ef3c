import Xv6.Verif.PageBooks

/-!
# What the functions of `vm.c` do to an address space

Each function, from right books, ends with right books: no page gets lost, nothing outside the books
changes, and the user pages are those it should leave. No function panics.
-/

namespace Xv6

open Lib Function

variable {layout : Layout} {s t u : Vm} {b b' : Books} {pd : Nat} {stops : String → Prop}

/-! ## `kalloc.c` -/

/-- How many of the coming calls of `kalloc` succeed before one fails. -/
def grants (s : Vm) (b : Books) : Nat := granted s.refusals b.free.length

/-- A call that is refused fails. -/
theorem granted_refused {refusals : List Bool} (refused : refusals.headD false = true)
    (free : Nat) : granted refusals free = 0 := by
  cases refusals with
  | nil => cases refused
  | cons first later =>
    cases free with
    | zero => rfl
    | succ free => exact if_pos refused

/-- A call that is not refused takes one of the pages. -/
theorem granted_succ {refusals : List Bool} (allowed : ¬refusals.headD false = true)
    (free : Nat) : granted refusals (free + 1) = granted refusals.tail free + 1 := by
  cases refusals with
  | nil => rfl
  | cons first later => exact if_neg allowed

/-- Without a page every call fails. -/
theorem granted_zero (refusals : List Bool) : granted refusals 0 = 0 := by
  cases refusals <;> rfl

/-- `kalloc` fails or takes the first page of the free list. -/
theorem kalloc_moves (audited : Audited layout s b) :
    Wp stops kalloc (fun r t => t.mem = s.mem ∧
      ((r = 0 ∧ grants s b = 0 ∧ Moves layout s b t b) ∨
        ∃ rest, IsPage layout r ∧ b.free = r :: rest ∧
          grants s b = granted t.refusals rest.length + 1 ∧
          Moves layout s b t { b with free := rest, hand := r :: b.hand })) s := by
  have still (refusals : List Bool) : Moves layout s b { s with refusals := refusals } b :=
    Moves.shuffle audited (Vm.node_congr (fun _ _ => rfl) fun _ _ _ => rfl) (.refl _) audited.list
      (fun _ _ => rfl) rfl
  unfold kalloc
  apply Wp.get
  apply Wp.ite
  · intro refused
    apply Wp.set
    exact Wp.pure ⟨rfl, .inl ⟨rfl, granted_refused refused _, still _⟩⟩
  · intro allowed
    have list := audited.list
    apply Wp.ite
    · intro nonempty
      apply Wp.set
      obtain ⟨rest, first⟩ : ∃ rest, b.free = s.freelist :: rest := by
        generalize s.freelist = head at *
        generalize b.free = free at *
        cases list with
        | nil => exact absurd rfl nonempty
        | cons page linked => exact ⟨_, rfl⟩
      have isPage := audited.isPage _ (.inl (b.loose_of_free first))
      have taken : grants s b = granted s.refusals.tail rest.length + 1 := by
        rw [grants, first]
        exact granted_succ allowed _
      exact Wp.pure ⟨rfl, .inr ⟨rest, isPage, first, taken, Moves.pop audited first _⟩⟩
    · intro empty
      apply Wp.set
      have zero : s.freelist = 0 := not_not.mp empty
      have none : b.free = [] := by
        rw [zero] at list
        generalize b.free = free at *
        cases list with
        | nil => rfl
        | cons page linked => exact absurd rfl page
      refine Wp.pure ⟨rfl, .inl ⟨zero, ?_, still _⟩⟩
      rw [grants, none]
      exact granted_zero _

variable {v i k va pt perm pa count : Nat} {rest : List Nat}

/-- `kfree` puts a page in hand on the free list. -/
theorem kfree_moves (audited : Audited layout s b) (held : b.hand = v :: rest) :
    Wp stops (kfree layout v) (fun _ t =>
      Moves layout s b t { b with free := v :: b.free, hand := rest } ∧
        ∀ x, x ≠ v → t.mem x = s.mem x) s := by
  have page := audited.isPage v (.inl (b.loose_of_hand held))
  apply Wp.mono (kfree_run page.small fun refused => absurd page refused)
  rintro _ t ⟨-, rfl⟩
  exact ⟨Moves.push audited held (junk_zero _), fun x other => update_of_ne other _ _⟩

/-! ## Page tables -/

/-- `walkpgdir` without allocation reads an entry of the page directory. -/
theorem walkpgdir_next (pd va : Nat) :
    Wp stops (walkpgdir pd va false)
      (fun r t => t = s ∧ r = (s.next pd (pdx va)).map fun pt => (pt, ptx va)) s := by
  unfold walkpgdir
  apply Wp.get
  apply Wp.ite
  · intro present
    apply Wp.pure
    rw [Vm.next, if_pos present]
    exact ⟨rfl, rfl⟩
  · intro absent
    rw [if_pos rfl]
    apply Wp.pure
    rw [Vm.next, if_neg absent]
    exact ⟨rfl, rfl⟩

/-- A page table is there or has been asked for. -/
structure Grown (layout : Layout) (pd i : Nat) (s : Vm) (b : Books) (t : Vm) (b' : Books) :
    Prop where
  moves : Moves layout s b t b'
  root : b'.root = b.root
  hand : b'.hand = b.hand
  pte : ∀ k, k < allPages → t.pte pd k = s.pte pd k
  page : ∀ k, k < userPages → t.page pd k = s.page pd k
  held : ∀ v ∈ b.hand, t.mem v = s.mem v
  others : ∀ i', i' ≠ i → t.next pd i' = s.next pd i'
  /-- One page is asked for, if there was no page table. -/
  cost : (s.next pd i ≠ none ∧ t.next pd i = s.next pd i ∧ grants s b = grants t b') ∨
    s.next pd i = none ∧ (t.next pd i = none ∧ grants s b = 0 ∨
      t.next pd i ≠ none ∧ grants s b = grants t b' + 1)

/-- The pages of the address space stay. -/
theorem Grown.leaf (grown : Grown layout pd i s b t b') (inside : k < allPages) :
    t.leaf pd k = s.leaf pd k :=
  Vm.leaf_of_pte (grown.pte k inside)

/-- The end of `walkpgdir`, with a page for the page table in hand. -/
theorem grown_table (audited : Audited layout s b) (root : b.root = some pd)
    (inside : pdx va < npdEntries) (empty : s.next pd (pdx va) = none) (words : t.mem = s.mem)
    (first : b.free = pt :: rest) (granted : grants s b = granted t.refusals rest.length + 1)
    (taken : Moves layout s b t { b with free := rest, hand := pt :: b.hand }) :
    Wp stops
      (do
        if pt = 0 then
          return none
        setPage pt fun _ => 0
        setWord pd (pdx va) (v2p pt ||| pteP ||| pteW ||| pteU)
        return some (pt, ptx va))
      (fun r u => r = (u.next pd (pdx va)).map (fun pt => (pt, ptx va)) ∧
        ∃ b', Grown layout pd (pdx va) s b u b') t := by
  have loose : pt ∈ b.loose := b.loose_of_free first
  have page := audited.isPage pt (.inl loose)
  have other := audited.loose_ne_dir root loose
  have cleared := Moves.fill taken.audited (.head _) fun _ => 0
  rw [if_neg page.ne_zero]
  apply Wp.bind setPage_spec
  intro _ c c_eq
  rw [← c_eq] at cleared
  apply Wp.bind setWord_spec
  rintro _ _ rfl
  have moved := taken.trans cleared
  have same (x : Nat) (apart : x ≠ pt) : c.mem x = s.mem x := by
    rw [c_eq, ← words]
    exact update_of_ne apart _ _
  have blank (j : Nat) : c.next pt j = none := by
    have zero : c.mem pt = fun _ => 0 := by
      rw [c_eq]
      exact update_self ..
    rw [Vm.next, zero, if_neg (show ¬Present 0 by decide)]
  have dir (i : Nat) : c.next pd i = s.next pd i := Vm.next_congr (same pd other.symm) i
  have leads : leadsTo (v2p pt ||| pteP ||| pteW ||| pteU) = some pt := by
    have present : Present (v2p pt ||| (pteP ||| (pteW ||| pteU))) :=
      (present_or page.v2p_aligned (by decide)).mpr (by decide)
    rw [Nat.or_assoc, Nat.or_assoc, leadsTo, if_pos present, page.entry_page (by decide)]
  have linked := Moves.link moved.audited root rfl inside (by rw [dir, empty]) blank leads
  have pte (k : Nat) (low : k < allPages) : c.pte pd k = s.pte pd k :=
    audited.pte_same root loose same low
  have pte' (k : Nat) (low : k < allPages) :
      (c.poke pd (pdx va) (v2p pt ||| pteP ||| pteW ||| pteU)).pte pd k = c.pte pd k :=
    moved.audited.pte_link root (by rw [dir, empty]) blank leads other low
  have next (i : Nat) := Vm.next_poke (s := c) pd (pdx va) (v2p pt ||| pteP ||| pteW ||| pteU) pd i
  have entry := next (pdx va)
  rw [if_pos ⟨rfl, rfl⟩, leads] at entry
  apply Wp.pure
  refine ⟨?_, _, moved.trans linked, rfl, rfl, ?_, ?_, ?_, ?_, .inr ⟨empty, .inr ⟨?_, ?_⟩⟩⟩
  · exact (congrArg (Option.map fun pt => (pt, ptx va)) entry).symm
  · exact fun k low => (pte' k low).trans (pte k low)
  · intro k user
    have kept := moved.audited.page_poke (n := .dir) (i := pdx va) root root (by simp) user
      (Vm.leaf_of_pte (pte' k (user_lt user)))
    exact kept.trans (audited.page_same root loose same user)
  · intro v held
    have notDir := audited.loose_ne_dir root (List.mem_append_right _ held)
    have notTable : v ≠ pt := by
      rintro rfl
      have free : v ∈ b.free := by
        rw [first]
        exact .head _
      exact (List.nodup_append.mp audited.once).2.2 v free v held rfl
    exact (update_of_ne notDir _ _).trans (same v notTable)
  · intro i apart
    have kept := next i
    rw [if_neg fun both => apart both.2, dir] at kept
    exact kept
  · exact fun none => Option.some_ne_none pt (entry.symm.trans none)
  · rw [granted]
    show _ = Xv6.granted c.refusals rest.length + 1
    rw [c_eq]

/-- `walkpgdir` with allocation may add a page table. -/
theorem walkpgdir_grown (audited : Audited layout s b) (root : b.root = some pd)
    (small : va < 2 ^ 32) :
    Wp stops (walkpgdir pd va true)
      (fun r t => r = (t.next pd (pdx va)).map (fun pt => (pt, ptx va)) ∧
        ∃ b', Grown layout pd (pdx va) s b t b') s := by
  have inside : pdx va < npdEntries := pdx_lt small
  unfold walkpgdir
  apply Wp.get
  apply Wp.ite
  · intro present
    have found : s.next pd (pdx va) = some (p2v (pteAddr (s.mem pd (pdx va)))) := if_pos present
    apply Wp.pure
    rw [found]
    refine ⟨rfl, b, .refl audited, rfl, rfl, fun _ _ => rfl, fun _ _ => rfl, fun _ _ => rfl,
      fun _ _ => rfl, .inl ⟨?_, rfl, rfl⟩⟩
    rw [found]
    exact Option.some_ne_none _
  · intro absent
    have empty : s.next pd (pdx va) = none := if_neg absent
    rw [if_neg (by simp)]
    apply Wp.bind (kalloc_moves audited)
    rintro pt t ⟨words, failed | ⟨rest, -, first, granted, taken⟩⟩
    · obtain ⟨rfl, refused, moves⟩ := failed
      rw [if_pos rfl]
      have next (v i : Nat) : t.next v i = s.next v i := Vm.next_congr (by rw [words]) i
      have pte (k : Nat) (page : k < allPages) : t.pte pd k = s.pte pd k :=
        Vm.pte_congr (by rw [words]) (fun _ _ _ _ => by rw [words]) page
      apply Wp.pure
      refine ⟨by rw [next, empty]; rfl, b, moves, rfl, rfl, pte, ?_, fun _ _ => by rw [words],
        fun _ _ => next _ _, .inr ⟨empty, .inl ⟨by rw [next, empty], refused⟩⟩⟩
      intro k user
      rw [Vm.page, Vm.leaf_of_pte (pte k (user_lt user)), words, Vm.page]
    · exact grown_table audited root inside empty words first granted taken

/-! ## The pages that page tables take -/

/-- How many of some page tables are there. -/
def Vm.present (s : Vm) (pd : Nat) (tables : List Nat) : Nat :=
  tables.countP fun i => (s.next pd i).isSome

/-- Page tables are counted by the page directory. -/
theorem Vm.present_congr {tables : List Nat} (next : ∀ i, t.next pd i = s.next pd i) :
    t.present pd tables = s.present pd tables := by
  simp only [Vm.present, next]

/-- Every call that succeeds is for a page table that is there then. -/
theorem Grown.paid (grown : Grown layout pd i s b t b') {tables : List Nat} (once : tables.Nodup)
    (listed : i ∈ tables) :
    grants s b + s.present pd tables =
      t.present pd tables + if (t.next pd i).isSome then grants t b' else 0 := by
  have perm := List.perm_cons_erase listed
  have rest : (tables.erase i).countP (fun i => (t.next pd i).isSome) =
      (tables.erase i).countP fun i => (s.next pd i).isSome := by
    apply List.countP_congr
    intro j member
    have apart : j ≠ i := (once.mem_erase_iff.mp member).1
    rw [grown.others j apart]
  have count (r : Vm) : r.present pd tables =
      (tables.erase i).countP (fun i => (r.next pd i).isSome) +
      if (r.next pd i).isSome then 1 else 0 := by
    rw [Vm.present, perm.countP_eq, List.countP_cons]
  rw [count s, count t, rest]
  rcases grown.cost with ⟨there, same, cost⟩ | ⟨empty, ⟨none, cost⟩ | ⟨there, cost⟩⟩
  · have there := Option.isSome_iff_ne_none.mpr there
    rw [same, there, cost]
    simp only [if_true]
    omega
  · rw [empty, none, cost]
    simp
  · have there := Option.isSome_iff_ne_none.mpr there
    rw [empty, there, cost]
    simp only [Option.isSome_none, Bool.false_eq_true, if_false, if_true]
    omega

/-! ## The kernel's part -/

/-- The page directory entry of a page. -/
theorem pdx_page (k : Nat) : pdx (k * pgSize) = k / npdEntries := by
  simp only [pdx, pgSize, npdEntries]
  omega

/-- The page table entry of a page. -/
theorem ptx_page (k : Nat) : ptx (k * pgSize) = k % npdEntries := by
  simp only [ptx, pgSize, npdEntries]
  omega

/-- A page number from the indices of its entries. -/
theorem page_indices (k : Nat) : k / npdEntries * npdEntries + k % npdEntries = k :=
  Nat.div_add_mod' k npdEntries

/-- An entry that leads nowhere is not present. -/
theorem not_present_of_leaf (table : s.next pd (k / npdEntries) = some pt)
    (empty : s.leaf pd k = none) : ¬Present (s.mem pt (k % npdEntries)) := by
  intro present
  rw [Vm.leaf, table, Option.bind_some, Vm.next, if_pos present] at empty
  cases empty

/-- The entry for the page with number `i` in a range of physical memory. -/
def pageEntry (pa perm i : Nat) : Nat := uint (pa + i * pgSize) ||| perm ||| pteP

/-- The entries of a range from its second page on. -/
theorem pageEntry_succ (pa perm i : Nat) :
    pageEntry (uint (pa + pgSize)) perm i = pageEntry pa perm (i + 1) := by
  have same : uint (uint (pa + pgSize) + i * pgSize) = uint (pa + (i + 1) * pgSize) := by
    simp only [uint, pgSize]
    omega
  rw [pageEntry, same, pageEntry]

/-- Pages in the kernel's part are mapped one after another, as far as there are page tables. -/
structure Ranged (layout : Layout) (pd perm pa k count : Nat) (s : Vm) (b : Books) (r : Bool)
    (t : Vm) (b' : Books) : Prop where
  moves : Moves layout s b t b'
  root : b'.root = b.root
  hand : b'.hand = b.hand
  page : ∀ x, x < userPages → t.page pd x = s.page pd x
  pte : ∀ x, x < allPages → x < k ∨ k + count ≤ x → t.pte pd x = s.pte pd x
  next : ∀ i, (∀ x, k ≤ x → x < k + count → x / npdEntries ≠ i) → t.next pd i = s.next pd i
  mapped : r = true → ∀ x, k ≤ x → x < k + count → t.pte pd x = some (pageEntry pa perm (x - k))
  /-- Every call of `kalloc` that succeeds is for a page table. -/
  paid : ∀ tables, tables.Nodup → (∀ x, k ≤ x → x < k + count → x / npdEntries ∈ tables) →
    grants s b + s.present pd tables = t.present pd tables + if r then grants t b' else 0
  /-- A failure is for want of a page table. -/
  lacks : r = false → ∃ x, k ≤ x ∧ x < k + count ∧ t.next pd (x / npdEntries) = none

/-- Without a page table nothing is mapped. -/
theorem Ranged.failed (grown : Grown layout pd (k / npdEntries) s b t b')
    (empty : t.next pd (k / npdEntries) = none) :
    Ranged layout pd perm pa k (count + 1) s b false t b' := by
  have same (i : Nat) : t.next pd i = s.next pd i := by
    by_cases here : i = k / npdEntries
    · rcases grown.cost with ⟨-, same, -⟩ | ⟨none, -⟩
      · rw [here, same]
      · rw [here, empty, none]
    · exact grown.others i here
  constructor
  case moves => exact grown.moves
  case root => exact grown.root
  case hand => exact grown.hand
  case page => exact grown.page
  case pte => exact fun x inside _ => grown.pte x inside
  case next => exact fun i _ => same i
  case mapped => exact fun absurd => by cases absurd
  case paid =>
    intro tables once listed
    have here := listed k (Nat.le_refl _) (Nat.lt_add_of_pos_right (Nat.succ_pos _))
    have paid := grown.paid once here
    rwa [empty] at paid
  case lacks =>
    exact fun _ => ⟨k, Nat.le_refl _, Nat.lt_add_of_pos_right (Nat.succ_pos _), empty⟩

/-- One page is mapped in a page table that is there. -/
theorem Ranged.one {w : Nat} (root : b.root = some pd)
    (grown : Grown layout pd (k / npdEntries) s b t b')
    (table : t.next pd (k / npdEntries) = some pt) (kernel : userPages ≤ k) (inside : k < allPages)
    (present : Present w) (word : w = pageEntry pa perm 0) :
    Ranged layout pd perm pa k 1 s b true (t.poke pt (k % npdEntries) w) b' := by
  have root' : b'.root = some pd := grown.root.trans root
  have low := div_lt inside
  have entry : k % npdEntries < npdEntries := Nat.mod_lt _ (by decide)
  have audited := grown.moves.audited
  have part := Moves.table_part root' low table
  have stored := Moves.guard (w := w) audited root' low table entry (by rwa [page_indices])
  have pte (x : Nat) (page : x < allPages) :=
    audited.pte_poke_table (w := w) root' low table entry page
  simp only [page_indices] at pte
  have dir (i : Nat) := audited.next_poke_table (j := k % npdEntries) (w := w) root' low table i
  constructor
  case moves => exact grown.moves.trans stored
  case root => exact grown.root
  case hand => exact grown.hand
  case page =>
    intro x user
    have other : x ≠ k := by omega
    have kept := audited.page_poke (w := w) root' part (by simp) user
      (Vm.leaf_of_pte (by rw [pte x (user_lt user), if_neg other]))
    rw [kept, grown.page x user]
  case pte =>
    intro x page apart
    have other : x ≠ k := by omega
    rw [pte x page, if_neg other, grown.pte x page]
  case next =>
    intro i apart
    have other : i ≠ k / npdEntries :=
      (apart k (Nat.le_refl _) (Nat.lt_succ_self _)).symm
    rw [dir, grown.others i other]
  case mapped =>
    intro _ x lower upper
    have here : x = k := by omega
    rw [here, pte k inside, if_pos rfl, presentPte, if_pos present, word, Nat.sub_self]
  case paid =>
    intro tables once listed
    have here := listed k (Nat.le_refl _) (Nat.lt_succ_self _)
    have paid := grown.paid once here
    rw [table] at paid
    rw [Vm.present_congr dir]
    exact paid
  case lacks => exact fun absurd => by cases absurd

/-- One page before the others. -/
theorem Ranged.cons {r : Bool} {b'' : Books} (first : Ranged layout pd perm pa k 1 s b true t b')
    (rest : Ranged layout pd perm (uint (pa + pgSize)) (k + 1) count t b' r u b'')
    (inside : k < allPages) : Ranged layout pd perm pa k (count + 1) s b r u b'' := by
  constructor
  case moves => exact first.moves.trans rest.moves
  case root => exact rest.root.trans first.root
  case hand => exact rest.hand.trans first.hand
  case page => exact fun x user => (rest.page x user).trans (first.page x user)
  case pte =>
    intro x page apart
    rw [rest.pte x page (by omega), first.pte x page (by omega)]
  case next =>
    intro i apart
    rw [rest.next i fun x lower upper => apart x (by omega) (by omega),
      first.next i fun x lower upper => apart x (by omega) (by omega)]
  case mapped =>
    intro done x lower upper
    by_cases here : x = k
    · rw [here, rest.pte k inside (by omega)]
      exact first.mapped rfl k (Nat.le_refl _) (Nat.lt_succ_self _)
    · have number : x - k = x - (k + 1) + 1 := by omega
      rw [rest.mapped done x (by omega) (by omega), pageEntry_succ, number]
  case paid =>
    intro tables once listed
    have before := first.paid tables once fun x lower upper => listed x (by omega) (by omega)
    have after := rest.paid tables once fun x lower upper => listed x (by omega) (by omega)
    rw [if_pos rfl] at before
    omega
  case lacks =>
    intro failed
    obtain ⟨x, lower, upper, none⟩ := rest.lacks failed
    exact ⟨x, by omega, by omega, none⟩

/-- The loop of `mappages` over pages of the kernel. -/
theorem mappagesFrom_ranged (permitted : perm < pgSize) (count : Nat) {a : Nat}
    (audited : Audited layout s b) (root : b.root = some pd) (kernel : userPages ≤ k)
    (inside : k + count ≤ allPages) (start : 0 < count → a = k * pgSize)
    (fresh : ∀ x, k ≤ x → x < k + count → s.leaf pd x = none) (aligned : pa % pgSize = 0)
    (low : pa < 2 ^ 32) :
    Wp stops (mappagesFrom pd perm count a pa)
      (fun r t => ∃ b', Ranged layout pd perm pa k count s b r t b') s := by
  induction count generalizing s b k a pa with
  | zero =>
    refine Wp.pure ⟨b, .refl audited, rfl, rfl, fun _ _ => rfl, fun _ _ _ => rfl, fun _ _ => rfl,
      fun _ x lower upper => by omega, fun _ _ _ => ?_, fun absurd => by cases absurd⟩
    rw [if_pos rfl, Nat.add_comm]
  | succ count ih =>
    have a_eq := start (Nat.succ_pos _)
    have here : k < allPages := by omega
    have small : k * pgSize < 2 ^ 32 := by
      simp only [allPages, pgSize] at *
      omega
    subst a_eq
    unfold mappagesFrom
    apply Wp.bind (walkpgdir_grown audited root small)
    intro r t post
    obtain ⟨found, b', grown⟩ := post
    rw [pdx_page, ptx_page] at found
    rw [pdx_page] at grown
    cases table : t.next pd (k / npdEntries) with
    | none =>
      rw [table] at found
      subst found
      exact Wp.pure ⟨b', Ranged.failed grown table⟩
    | some pt =>
      rw [table] at found
      subst found
      have empty : t.leaf pd k = none := by
        rw [grown.leaf here, fresh k (Nat.le_refl _) (by omega)]
      have present : Present (pa ||| perm ||| pteP) := by
        rw [entry_flags, present_or aligned (flags_lt permitted)]
        exact flags_present perm
      have word : pa ||| perm ||| pteP = pageEntry pa perm 0 := by
        rw [pageEntry, Nat.zero_mul, Nat.add_zero, uint, Nat.mod_eq_of_lt low]
      have first := Ranged.one root grown table kernel here present word
      apply Wp.get
      apply Wp.ite
      · exact fun mapped => absurd mapped (not_present_of_leaf table empty)
      intro _
      apply Wp.bind setWord_spec
      rintro _ _ rfl
      refine Wp.mono (ih (k := k + 1) first.moves.audited (first.root.trans root) (by omega)
        (by omega) ?_ ?_ ?_ (Nat.mod_lt _ (by decide))) ?_
      · intro more
        simp only [uint, allPages, pgSize] at *
        omega
      · intro x lower upper
        have kept := Vm.leaf_of_pte (first.pte x (by omega) (by omega))
        exact kept.trans (fresh x (by omega) (by omega))
      · simp only [uint, pgSize] at *
        omega
      · rintro r u ⟨b'', rest⟩
        exact ⟨b'', first.cons rest here⟩

end Xv6
