import Xv6.Verif.PageLedger

/-!
# Processes and the ledger

What `userinit`, `growproc`, `fork`, `wait` and `exec` make of the pages they take and give back.
Each opens the books of the processes it works on, and when it closes them the ledger is right. For
`exec` no argument may be so long that the stack pointer for it falls into the addresses that no
page directory maps.
-/

namespace Xv6

open Lib Function

variable {layout : Layout} {s t u : Vm} {b b' : Books} {free : List Nat} {stops : String → Prop}

/-- Every panic is allowed. -/
def anyPanic : String → Prop := fun _ => True

variable {p q np : Fin nProc} {pd v x w size : Nat}

/-! ## `proc.c` -/

/-- A slot of the process table changes. -/
theorem setProc_spec {change : Proc → Proc} :
    Wp stops (setProc p change)
      (fun _ t => t = { s with proc := update s.proc p (change (s.proc p)) }) s :=
  Wp.modify

/-- A slot without memory is not live. -/
theorem not_live (state : (s.proc p).state = .unused ∨ (s.proc p).state = .embryo) : ¬s.Live p := by
  rcases state with state | state <;> simp [Vm.Live, Proc.Live, state]

/-- `allocproc` takes a page for the kernel stack of an unused slot. -/
theorem allocproc_shifts (audited : Audited layout s b) :
    Wp stops allocproc
      (fun r t => t.names = s.names ∧ t.mem = s.mem ∧
        match r with
        | none => Shifts layout s b t b ∧
          (∀ q, (s.proc q).state ≠ .unused ∨ t.Live q → t.proc q = s.proc q) ∧
          (grants s b = 0 ∨ ∀ q, (s.proc q).state ≠ .unused)
        | some np => (s.proc np).state = .unused ∧ (t.proc np).state = .embryo ∧
          (∀ q, q ≠ np → t.proc q = s.proc q) ∧
          ∃ b', Shifts layout s b t b' ∧ b'.root = b.root ∧
            b'.hand = (t.proc np).kstack :: b.hand ∧ grants s b = grants t b' + 1) s := by
  unfold allocproc
  apply Wp.get
  split
  · rename_i none
    refine Wp.pure ⟨rfl, rfl, (Moves.refl audited).toShifts, fun _ _ => rfl,
      .inr fun q unused => ?_⟩
    have used := List.find?_eq_none.mp none q (List.mem_finRange q)
    simp [unused] at used
  · rename_i np found
    have unused : (s.proc np).state = .unused := by simpa using List.find?_some found
    apply Wp.bind setProc_spec
    intro _ s₁ s₁_eq
    have shifts₁ : Shifts layout s b s₁ b := .of_mem audited (by rw [s₁_eq]) (by rw [s₁_eq])
    have proc₁ : s₁.proc = update s.proc np { s.proc np with state := .embryo } := by rw [s₁_eq]
    apply Wp.bind (kalloc_moves shifts₁.audited)
    rintro v s₂ ⟨words, ⟨rfl, refused, still⟩ | ⟨rest, page, first, granted, taken⟩⟩
    · apply Wp.bind setProc_spec
      rintro _ _ rfl
      rw [if_pos rfl]
      apply Wp.bind setProc_spec
      rintro _ _ rfl
      refine Wp.pure ⟨?_, ?_, ?_, fun q used => ?_, .inl ?_⟩
      · rw [← show s₁.names = s.names by rw [s₁_eq]; rfl]
        exact still.names
      · rw [← show s₁.mem = s.mem by rw [s₁_eq]]
        exact words
      · exact shifts₁.trans (still.toShifts.trans (.of_mem still.audited rfl rfl))
      · have other : q ≠ np := by
          rintro rfl
          rcases used with used | live
          · exact used unused
          · exact not_live (.inl (by simp)) live
        simp [update_of_ne other, still.proc, proc₁]
      · rw [← refused, s₁_eq]
        rfl
    · apply Wp.bind setProc_spec
      rintro _ s₃ s₃_eq
      have kstack : (s₃.proc np).kstack = v := by simp [s₃_eq]
      rw [if_neg page.ne_zero]
      refine Wp.pure ⟨?_, ?_, unused, ?_, fun q other => ?_,
        { b with free := rest, hand := v :: b.hand }, ?_, rfl, by rw [kstack], ?_⟩
      · rw [← show s₁.names = s.names by rw [s₁_eq]; rfl, s₃_eq]
        exact taken.names
      · rw [← show s₁.mem = s.mem by rw [s₁_eq], s₃_eq]
        exact words
      · simp [s₃_eq, taken.proc, proc₁]
      · simp [s₃_eq, update_of_ne other, taken.proc, proc₁]
      · exact (shifts₁.trans taken.toShifts).trans
          (.of_mem taken.audited (by rw [s₃_eq]) (by rw [s₃_eq]))
      · rw [← show grants s₁ b = grants s b by rw [s₁_eq]; rfl, granted, s₃_eq]
        rfl

/-- The entry `inituvm` makes can be used and written by the process. -/
theorem user_entry (page : IsPage layout v) :
    Writable (v2p v ||| (pteW ||| pteU) ||| pteP) ∧
      ForUser (v2p v ||| (pteW ||| pteU) ||| pteP) := by
  have aligned := page.v2p_aligned
  have flags : pteW ||| pteU ||| pteP = 7 := by decide
  rw [entry_flags, flags, aligned_or aligned (by decide)]
  simp only [Writable, ForUser, pgSize] at *
  omega

/-- `inituvm` maps one page at 0, or loses it for want of a page table. -/
theorem inituvm_maps (audited : Audited layout s b) (root : b.root = some pd)
    (empty : s.page pd 0 = none) (init : Paint)
    (ready : (∀ message, stops message) ∨ 2 ≤ grants s b ∧ size < pgSize) :
    Wp stops (inituvm pd init size)
      (fun _ t => ∃ b' lost, Moves layout s b t b' ∧ b'.root = b.root ∧ b'.hand = lost ++ b.hand ∧
        (∀ x, x < allPages → x ≠ 0 → t.pte pd x = s.pte pd x) ∧
        (2 ≤ grants s b → grants s b ≤ grants t b' + 2 ∧
          ∃ w, t.pte pd 0 = some w ∧ Writable w ∧ ForUser w)) s := by
  unfold inituvm
  apply Wp.ite
  · exact fun large => Wp.throw_bind
      (ready.elim (· _) fun fits => absurd fits.2 (Nat.not_lt.mpr large))
  intro _
  apply Wp.bind (kalloc_moves audited)
  rintro v t ⟨words, ⟨rfl, refused, -⟩ | ⟨rest, isPage, first, granted, taken⟩⟩
  · rw [if_pos rfl]
    exact Wp.throw_bind (ready.elim (· _) fun enough => by omega)
  rw [if_neg isPage.ne_zero]
  apply Wp.bind (setPage_fetched taken words root (.head _) zeroPage)
  rintro _ c ⟨c_eq, fetched⟩
  have granted : grants s b = grants c { b with free := rest, hand := v :: b.hand } + 1 := by
    rw [granted, c_eq]
    rfl
  have empty' : c.page pd 0 = none := by rw [fetched.page 0 (by decide), empty]
  have mapping : Wp stops (mappages pd (0 * pgSize) pgSize (v2p v) (pteW ||| pteU)) _ c :=
    mappages_page fetched.moves.audited root rfl (by decide) empty' (by decide)
  rw [Nat.zero_mul] at mapping
  apply Wp.bind mapping
  rintro done u ⟨b', mapped⟩
  have moved := fetched.moves.trans mapped.moves
  have root' : b'.root = some pd := mapped.root.trans root
  have pte (x : Nat) (inside : x < allPages) (other : x ≠ 0) : u.pte pd x = s.pte pd x := by
    rw [mapped.pte x inside other, fetched.pte x inside]
  apply Wp.get
  apply Wp.mono setPage_spec
  intro _ y y_eq
  cases done with
  | true =>
    have entry : u.pte pd 0 = some (v2p v ||| (pteW ||| pteU) ||| pteP) := mapped.entry rfl
    have leads : p2v (pteAddr (v2p v ||| (pteW ||| pteU) ||| pteP)) = v := by
      rw [entry_flags, isPage.entry_page (by decide)]
    have painted := Painted.one mapped.moves.audited root' (show 0 < userPages by decide) entry
      (init.page (u.mem v))
    rw [leads, ← y_eq] at painted
    refine ⟨b', [], moved.trans painted.moves, mapped.root, mapped.hand, fun x inside other => ?_,
      fun _ => ⟨?_, _, (painted.pte 0 (by decide)).trans entry, user_entry isPage⟩⟩
    · rw [painted.pte x inside, pte x inside other]
    · have cost := (mapped.made rfl).2
      rw [show grants y b' = grants u b' by rw [y_eq]; rfl]
      split at cost <;> omega
  | false =>
    have held : b'.hand = v :: b.hand := mapped.hand
    have filled := Moves.fill mapped.moves.audited (by rw [held]; exact .head _)
      (init.page (u.mem v))
    rw [← y_eq] at filled
    refine ⟨b', [v], moved.trans filled, mapped.root, held, fun x inside other => ?_,
      fun enough => ?_⟩
    · have others (z : Nat) (apart : z ≠ v) : y.mem z = u.mem z := by
        rw [y_eq]
        exact update_of_ne apart _ _
      rw [mapped.moves.audited.pte_same root' (b'.loose_of_hand held) others inside,
        pte x inside other]
    · have none := (mapped.lacks rfl).2.2
      omega

/-- `userinit` makes a process with one page. -/
theorem userinit_makes (balanced : Balanced layout s free) (initcode : Paint)
    (ready : (∀ message, stops message) ∨
      68 ≤ grants s ⟨none, free, []⟩ ∧ size < pgSize ∧ ∃ q, (s.proc q).state = .unused) :
    Wp stops (userinit layout initcode size)
      (fun _ t => ∃ free', Balanced layout t free' ∧ (68 ≤ grants s ⟨none, free, []⟩ →
        grants s ⟨none, free, []⟩ ≤ grants t ⟨none, free', []⟩ + 68 ∧
        ∃ p w, (∀ q, q ≠ p → t.proc q = s.proc q) ∧ (t.proc p).state = .alive ∧
          (t.proc p).sz = pgSize ∧ t.Exact p ∧ t.pte (t.proc p).pgdir 0 = some w ∧ Writable w ∧
          ForUser w)) s := by
  unfold userinit
  apply Wp.bind (allocproc_shifts balanced.ledger.list)
  rintro (_ | p) s₁ ⟨names₁, -, found⟩
  · refine Wp.throw (ready.elim (· _) fun enough => ?_)
    obtain ⟨supply, -, q, unused⟩ := enough
    rcases found.2.2 with none | used
    · omega
    · exact absurd unused (used q)
  obtain ⟨-, -, others₁, b₁, shifts₁, root₁, hand₁, cost₁⟩ := found
  apply Wp.bind Wp.modify
  intro _ s₂ s₂_eq
  have books₂ : Audited layout s₂ b₁ := by
    rw [s₂_eq]
    exact shifts₁.audited.congr rfl rfl
  have cost₂ : grants s₂ b₁ = grants s₁ b₁ := by
    rw [s₂_eq]
    rfl
  apply Wp.bind (setupkvm_setUp books₂ root₁)
  rintro pd s₃ (⟨rfl, short, -⟩ | ⟨nonzero, b₃, setUp⟩)
  · apply Wp.bind setProc_spec
    rintro _ _ rfl
    rw [if_pos rfl]
    exact Wp.throw_bind (ready.elim (· _) fun enough => by omega)
  have cost₃ := setUp.cost
  apply Wp.bind setProc_spec
  intro _ s₄ s₄_eq
  rw [if_neg nonzero]
  have words₄ : s₄.mem = s₃.mem := by rw [s₄_eq]
  have books₄ : Audited layout s₄ b₃ := setUp.moves.audited.congr words₄ (by rw [s₄_eq])
  have cost₄ : grants s₄ b₃ = grants s₃ b₃ := by
    rw [s₄_eq]
    rfl
  have pte₄ (x : Nat) (inside : x < allPages) : s₄.pte pd x = s₃.pte pd x :=
    Vm.pte_congr (by rw [words₄]) (fun _ _ _ _ => by rw [words₄]) inside
  have empty₄ : s₄.page pd 0 = none := by
    rw [page_mem words₄, setUp.page 0 (by decide)]
  apply Wp.bind (inituvm_maps books₄ setUp.root empty₄ initcode
    (ready.imp_right fun enough => ⟨by omega, enough.2.1⟩))
  rintro _ s₅ ⟨b₅, lost, moves₅, root₅, hand₅, pte₅, supplied₅⟩
  apply Wp.bind setProc_spec
  rintro _ _ rfl
  apply Wp.mono setProc_spec
  intro _ t t_eq
  have mine : t.proc p = ⟨.alive, pgSize, pd, (s₁.proc p).kstack, (s₁.proc p).parent⟩ := by
    simp [t_eq, moves₅.proc, s₄_eq, setUp.moves.proc, s₂_eq]
  have others (q : Fin nProc) (other : q ≠ p) : t.proc q = s.proc q := by
    simp [t_eq, moves₅.proc, s₄_eq, setUp.moves.proc, s₂_eq, other, others₁ q other]
  have words : t.mem = s₅.mem := by rw [t_eq]
  have pte (x : Nat) (inside : x < allPages) : t.pte pd x = s₅.pte pd x :=
    Vm.pte_congr (by rw [words]) (fun _ _ _ _ => by rw [words]) inside
  have fresh (x : Nat) (user : x < userPages) (later : x ≠ 0) : t.page pd x = none := by
    rw [page_eq_none, pte x (user_lt user), pte₅ x (user_lt user) later, pte₄ x (user_lt user),
      ← page_eq_none, setUp.page x user]
  have housed : Housed t p := by
    constructor
    case small =>
      rw [mine]
      exact (by decide : pgSize < kernBase)
    case guarded =>
      rw [mine]
      refine setUp.guarded.congr fun x above inside => ?_
      rw [pte x inside, pte₅ x inside (by rintro rfl; exact absurd above (by decide)),
        pte₄ x inside]
    case fresh =>
      rw [mine]
      intro _ x user above
      have above : pageUp pgSize ≤ x := above
      apply fresh x user
      rintro rfl
      exact absurd above (by decide)
  have shifts : Shifts layout s ⟨none, free, []⟩ t b₅ := by
    have first : Shifts layout s ⟨none, free, []⟩ s₂ b₁ :=
      shifts₁.trans (.of_mem shifts₁.audited (by rw [s₂_eq]) (by rw [s₂_eq]))
    have second : Shifts layout s₂ b₁ s₄ b₃ :=
      setUp.moves.toShifts.trans (.of_mem setUp.moves.audited words₄ (by rw [s₄_eq]))
    exact (first.trans second).trans
      (moves₅.toShifts.trans (.of_mem moves₅.audited words (by rw [t_eq])))
  have names : t.kpgdir = s.kpgdir ∧ t.files = s.files := by
    have names₁ := names₁
    have names₃ := setUp.moves.names
    have names₅ := moves₅.names
    simp only [Vm.names, Prod.mk.injEq] at names₁ names₃ names₅
    simp [t_eq, names₅, s₄_eq, names₃, s₂_eq, names₁]
  refine ⟨b₅.free, balanced.close (q := p) shifts names.1 names.2 (fun q other _ => by
    rw [others q other]) (fun c v claims _ _ => balanced.ledger.outside_free claims)
    fun _ => ⟨housed, .inl ?_, .inl ?_⟩, fun enough => ?_⟩
  · rw [mine, root₅, setUp.root]
  · rw [mine, hand₅, setUp.hand, hand₁]
    exact List.mem_append_right _ (.head _)
  · obtain ⟨cost₅, w, entry, writable, forUser⟩ := supplied₅ (by omega)
    have entry' := (pte 0 (by decide)).trans entry
    refine ⟨?_, p, w, others, by rw [mine], by rw [mine], fun x user => ?_,
      by rw [mine]; exact entry', writable, forUser⟩
    · have same : grants t ⟨none, b₅.free, []⟩ = grants s₅ b₅ := by
        rw [t_eq]
        rfl
      omega
    · rw [mine, show pgRoundUp pgSize = pgSize by decide]
      by_cases zero : x = 0
      · rw [zero, Option.isSome_iff_ne_none, ← pte_ne_none, entry']
        exact iff_of_true (Option.some_ne_none w) (by decide)
      · rw [fresh x user zero]
        refine iff_of_false (by simp) ?_
        simp only [pgSize]
        omega

variable {target : Nat}

/-- A process alone on its books. -/
theorem Balanced.books (balanced : Balanced layout s free) (live : s.Live p) :
    Audited layout s ⟨some (s.proc p).pgdir, free, []⟩ :=
  balanced.ledger.held _ _ live.dir

/-- Closing the books of a process that keeps its page directory and its kernel stack. -/
theorem Balanced.rehouse (balanced : Balanced layout s free) (live : s.Live p)
    (moves : Moves layout s ⟨some (s.proc p).pgdir, free, []⟩ t b')
    (root : b'.root = some (s.proc p).pgdir) (sz : Nat)
    (housed : Housed { t with proc := update t.proc p { t.proc p with sz := sz } } p) :
    Balanced layout { t with proc := update t.proc p { t.proc p with sz := sz } } b'.free := by
  have names := moves.names
  simp only [Vm.names, Prod.mk.injEq] at names
  refine balanced.close (q := p)
    (moves.toShifts.trans (.of_mem moves.audited rfl rfl)) names.1 names.2.2 ?_ ?_ ?_
  · intro q other _
    simp [update_of_ne other, moves.proc]
  · intro c v claims dir _
    exact balanced.ledger.outside claims live.dir fun same => absurd same dir
  · intro _
    refine ⟨housed, .inl ?_, .inr ?_⟩
    · simp [root, moves.proc]
    · simp only [update_self, moves.proc]
      exact ⟨live.stack, balanced.ledger.outside live.stack live.dir nofun⟩

/-- What `growproc` makes of the user pages of a process, with its result and the new size. -/
inductive Resized (s : Vm) (p : Fin nProc) (n : Int) (t : Vm) : Bool → Nat → Prop where
  /-- The process has the size asked for. -/
  | done {sz : Nat} (size : (sz : Int) = (s.proc p).sz + n) (left : 0 < sz ∨ n = 0)
      (pages : ∀ x, x < userPages → t.page (s.proc p).pgdir x =
        if x < pageUp sz then
          if x < pageUp (s.proc p).sz then s.page (s.proc p).pgdir x else some zeroPage
        else none) : Resized s p n t true sz
  /-- The process is as it was. The call succeeds if it gives back more than there is. -/
  | kept {r : Bool}
      (past : if r then ((s.proc p).sz : Int) + n < 0 else 0 < n ∨ (s.proc p).sz = 0)
      (pages : ∀ x, x < userPages → t.page (s.proc p).pgdir x = s.page (s.proc p).pgdir x) :
      Resized s p n t r (s.proc p).sz
  /-- The process has given back all its memory. -/
  | emptied (all : ((s.proc p).sz : Int) + n = 0) (positive : 0 < (s.proc p).sz)
      (pages : ∀ x, x < userPages → t.page (s.proc p).pgdir x = none) :
      Resized s p n t false (s.proc p).sz

section

variable {n : Int}

variable (audited : Audited layout s b) (root : b.root = some (s.proc p).pgdir)
  (small : (s.proc p).sz < kernBase)
  (fresh : ∀ x, x < userPages → pageUp (s.proc p).sz ≤ x → s.page (s.proc p).pgdir x = none)

include audited root small fresh

/-- The part of `growproc` that allocates. -/
theorem allocuvm_resizes (more : 0 < n) (size : (target : Int) = (s.proc p).sz + n) :
    Wp stops (allocuvm layout (s.proc p).pgdir (s.proc p).sz target)
      (fun r t => ∃ b', Moves layout s b t b' ∧ b'.root = b.root ∧
        (∀ x, userPages ≤ x → x < allPages → t.pte (s.proc p).pgdir x = s.pte (s.proc p).pgdir x) ∧
        (if r = 0 then Resized s p n t false (s.proc p).sz
          else r < kernBase ∧ Resized s p n t true r)) s := by
  by_cases high : kernBase ≤ target
  · unfold allocuvm
    rw [if_pos high]
    exact Wp.pure ⟨b, .refl audited, rfl, fun _ _ _ => rfl, .kept (.inl more) fun _ _ => rfl⟩
  have below := Nat.lt_of_not_le high
  apply Wp.mono (allocuvm_allocated audited root below (by omega) fresh)
  rintro r t ⟨b', allocated⟩
  refine ⟨b', allocated.moves, allocated.root, fun x above inside => ?_, ?_⟩
  · refine allocated.pte x inside fun mine => ?_
    have upper := mine.2
    simp only [userPages, pgSize, kernBase] at *
    omega
  obtain ⟨rfl, zeroed, old⟩ | ⟨rfl, gone, old⟩ := allocated.page
  · rw [if_neg (by omega)]
    refine ⟨below, .done size (.inl (by omega)) fun x user => ?_⟩
    by_cases mine : pagesFrom (pageUp (s.proc p).sz) r x
    · rw [zeroed x user mine, if_pos ((below_pageUp below x).mpr mine.2),
        if_neg (Nat.not_lt.mpr mine.1)]
    · rw [old x user mine]
      by_cases lower : x < pageUp (s.proc p).sz
      · rw [if_pos, if_pos lower]
        simp only [pageUp, uint, pgSize, kernBase] at *
        omega
      · rw [fresh x user (Nat.not_lt.mp lower), if_neg]
        exact fun upper => mine ⟨Nat.not_lt.mp lower, (below_pageUp below x).mp upper⟩
  · refine .kept (.inl more) fun x user => ?_
    by_cases mine : pagesFrom (pageUp (s.proc p).sz) target x
    · rw [gone x user mine, fresh x user mine.1]
    · exact old x user mine

/-- The part of `growproc` that frees. -/
theorem deallocuvm_resizes (less : n < 0) (low : -2 ^ 31 ≤ n)
    (wraps : target = (((s.proc p).sz + n) % 2 ^ 32).toNat) :
    Wp stops (deallocuvm layout (s.proc p).pgdir (s.proc p).sz target)
      (fun r t => ∃ b', Moves layout s b t b' ∧ b'.root = b.root ∧
        (∀ x, userPages ≤ x → x < allPages → t.pte (s.proc p).pgdir x = s.pte (s.proc p).pgdir x) ∧
        (if r = 0 then Resized s p n t false (s.proc p).sz
          else r < kernBase ∧ Resized s p n t true r)) s := by
  by_cases keeps : (s.proc p).sz ≤ target
  · have beyond : ((s.proc p).sz : Int) + n < 0 := by
      simp only [kernBase] at small
      omega
    unfold deallocuvm
    rw [if_pos keeps]
    refine Wp.pure ⟨b, .refl audited, rfl, fun _ _ _ => rfl, ?_⟩
    split
    · exact .kept (.inr ‹_›) fun _ _ => rfl
    · exact ⟨small, .kept beyond fun _ _ => rfl⟩
  have shrinks := Nat.lt_of_not_le keeps
  have size : (target : Int) = (s.proc p).sz + n := by
    simp only [kernBase] at small
    omega
  apply Wp.mono (deallocuvm_dropped audited root (Nat.le_of_lt small) shrinks)
  rintro target t ⟨rfl, b', dropped⟩
  refine ⟨b', dropped.moves, dropped.root, fun x above inside => ?_, ?_⟩
  · refine dropped.pte x inside fun mine => ?_
    have upper := mine.2
    simp only [userPages, pgSize, kernBase] at *
    omega
  have pages (x : Nat) (user : x < userPages) : t.page (s.proc p).pgdir x =
      if x < pageUp target then s.page (s.proc p).pgdir x else none := by
    by_cases upper : x < pageUp target
    · rw [if_pos upper, dropped.page x user fun mine => absurd mine.1 (Nat.not_le.mpr upper)]
    rw [if_neg upper]
    by_cases mine : x * pgSize < (s.proc p).sz
    · exact dropped.absent x user ⟨Nat.not_lt.mp upper, mine⟩
    · rw [dropped.page x user fun range => mine range.2]
      exact fresh x user (Nat.not_lt.mp ((below_pageUp small x).not.mpr mine))
  split
  · rename_i zero
    rw [zero] at size pages
    exact .emptied size.symm (by omega) pages
  · refine ⟨shrinks.trans small, .done size (.inl (Nat.pos_of_ne_zero ‹_›)) fun x user => ?_⟩
    rw [pages x user]
    split
    · rw [if_pos]
      simp only [pageUp, uint, pgSize, kernBase] at *
      omega
    · rfl

/-- `growproc` allocates and frees user pages, and then sets the size. -/
theorem growproc_resizes (n : Int32) :
    Wp stops (growproc layout p n.toInt)
      (fun r t => ∃ u b' sz, Moves layout s b u b' ∧ b'.root = b.root ∧
        (∀ x, userPages ≤ x → x < allPages → u.pte (s.proc p).pgdir x = s.pte (s.proc p).pgdir x) ∧
        sz < kernBase ∧ Resized s p n.toInt u r sz ∧
        t = { u with proc := update u.proc p { u.proc p with sz := sz } }) s := by
  have high := n.toInt_lt
  have low := n.le_toInt
  have same (u : Vm) (proc : u.proc = s.proc) :
      u = { u with proc := update u.proc p { u.proc p with sz := (s.proc p).sz } } := by
    rw [proc, update_eq_self, ← proc]
  -- Both ways the size is set only when the pages have been.
  have finish {r : Nat} {u : Vm} {b' : Books} (moves : Moves layout s b u b')
      (kept : b'.root = b.root) (pte : ∀ x, userPages ≤ x → x < allPages →
        u.pte (s.proc p).pgdir x = s.pte (s.proc p).pgdir x)
      (resized : if r = 0 then Resized s p n.toInt u false (s.proc p).sz
        else r < kernBase ∧ Resized s p n.toInt u true r) :
      Wp stops (if r = 0 then return false else do
          setProc p ({ · with sz := r })
          return true)
        (fun r t => ∃ u b' sz, Moves layout s b u b' ∧ b'.root = b.root ∧
          (∀ x, userPages ≤ x → x < allPages →
            u.pte (s.proc p).pgdir x = s.pte (s.proc p).pgdir x) ∧
          sz < kernBase ∧ Resized s p n.toInt u r sz ∧
          t = { u with proc := update u.proc p { u.proc p with sz := sz } }) u := by
    split at resized
    · rw [if_pos ‹_›]
      exact Wp.pure ⟨u, b', _, moves, kept, pte, small, resized, same u moves.proc⟩
    · rw [if_neg ‹_›]
      apply Wp.bind setProc_spec
      rintro _ _ rfl
      exact Wp.pure ⟨u, b', r, moves, kept, pte, resized.1, resized.2, rfl⟩
  unfold growproc
  apply Wp.get
  apply Wp.ite
  · intro more
    apply Wp.bind (allocuvm_resizes audited root small fresh more (by
      simp only [kernBase] at small
      omega))
    rintro r u ⟨b', moves, kept, pte, resized⟩
    exact finish moves kept pte resized
  · intro notMore
    apply Wp.ite
    · intro less
      apply Wp.bind (deallocuvm_resizes audited root small fresh less low rfl)
      rintro r u ⟨b', moves, kept, pte, resized⟩
      exact finish moves kept pte resized
    · intro notLess
      refine Wp.pure ⟨s, b, _, .refl audited, rfl, fun _ _ _ => rfl, small,
        .done (by omega) (.inr (by omega)) fun x user => ?_, same s rfl⟩
      split
      · rfl
      · exact fresh x user (Nat.not_lt.mp ‹_›)

end

/-- A process has no page above its new size. -/
theorem Resized.fresh {n : Int} {r : Bool} {sz : Nat} (resized : Resized s p n t r sz)
    (before : ∀ x, x < userPages → pageUp (s.proc p).sz ≤ x → s.page (s.proc p).pgdir x = none)
    (user : x < userPages) (above : pageUp sz ≤ x) : t.page (s.proc p).pgdir x = none := by
  cases resized with
  | done size left pages => rw [pages x user, if_neg (Nat.not_lt.mpr above)]
  | kept past pages => rw [pages x user, before x user above]
  | emptied all positive pages => exact pages x user

/-- `growproc` keeps the ledger right. -/
theorem growproc_balanced (balanced : Balanced layout s free)
    (alive : (s.proc p).state = .alive) (n : Int32) :
    Wp stops (growproc layout p n.toInt) (fun _ t => ∃ free', Balanced layout t free') s := by
  have live : s.Live p := .inl alive
  have housed := balanced.housed p live
  apply Wp.mono (growproc_resizes (balanced.books live) rfl housed.small (housed.fresh alive) n)
  rintro r _ ⟨u, b', sz, moves, root, pte, small, resized, rfl⟩
  refine ⟨b'.free, balanced.rehouse live moves root sz ⟨?_, ?_, fun _ x user above => ?_⟩⟩
  · simpa using small
  · have guarded := housed.guarded.congr pte
    simp only [update_self, moves.proc]
    exact ⟨guarded.kernel, guarded.top⟩
  · simp only [update_self, moves.proc] at above ⊢
    exact resized.fresh (housed.fresh alive) user above

/-- What `fork` makes of the pages: a process, or its pages are free again, except for one that is
lost if `kalloc` fails for a page table of the copy. -/
def Forked (layout : Layout) (s : Vm) (free : List Nat) (p : Fin nProc) (t : Vm) :
    Option (Fin nProc) → Prop
  | none => (∀ q, (s.proc q).state ≠ .unused ∨ t.Live q → t.proc q = s.proc q) ∧
    ∃ free' lost, Shifts layout s ⟨none, free, []⟩ t ⟨none, free', lost⟩ ∧
      (lost ≠ [] ↔ (∃ q, (s.proc q).state = .unused) ∧ 66 ≤ grants s ⟨none, free, []⟩ ∧
        LacksTable (s.proc p).sz 0 (grants s ⟨none, free, []⟩ - 66))
  | some np => (s.proc np).state = .unused ∧
    (0 < (s.proc p).sz → 68 ≤ grants s ⟨none, free, []⟩) ∧
    (∀ q, q ≠ np → t.proc q = s.proc q) ∧ Housed t np ∧
    ∃ b', Shifts layout s ⟨none, free, []⟩ t b' ∧ b'.root = some (t.proc np).pgdir ∧
      (t.proc np).kstack ∈ b'.hand

/-- `fork` makes a process or frees what it has taken. -/
theorem fork_forks (balanced : Balanced layout s free) (alive : (s.proc p).state = .alive)
    (parent : (∀ message, stops message) ∨ ∀ x, x < allPages → x * pgSize < (s.proc p).sz →
      s.pte (s.proc p).pgdir x ≠ none) :
    Wp stops (fork layout p) (fun r t => t.names = s.names ∧ Forked layout s free p t r) s := by
  have small := (balanced.housed p (.inl alive)).small
  have used : (s.proc p).state ≠ .unused := by
    rw [alive]
    nofun
  unfold fork
  apply Wp.bind (allocproc_shifts balanced.ledger.list)
  rintro (_ | np) s₁ ⟨names₁, words₁, found⟩
  · obtain ⟨shifts, others, full⟩ := found
    refine Wp.pure ⟨names₁, others, free, [], shifts, iff_of_false (fun some => some rfl) ?_⟩
    rintro ⟨⟨q, unused⟩, enough, -⟩
    rcases full with none | full
    · omega
    · exact full q unused
  obtain ⟨unused, embryo, others₁, b₁, shifts₁, root₁, hand₁, cost₁⟩ := found
  have apart : p ≠ np := by
    rintro rfl
    exact used unused
  have aside : (∀ message, stops message) ∨ Bystander (s.proc p).pgdir (s.proc p).sz s₁ b₁ := by
    refine parent.imp_right fun present => Bystander.stays ⟨fun n v part => ?_, present⟩ shifts₁
    rw [Books.has_free]
    exact balanced.ledger.not_free (Vm.Live.dir (.inl alive)) (under_dir.mpr ⟨n, part⟩)
  apply Wp.get
  rw [others₁ p apart]
  apply Wp.bind (copyuvm_copies shifts₁.audited root₁ aside fun high => by omega)
  rintro d s₂ (⟨nonzero, u, b₂, b₃, setUp, moves, root, hand, pte, paid, -⟩ |
    ⟨rfl, free', lost, moves, lacks⟩)
  · have all := setUp.moves.trans moves
    apply Wp.bind setProc_spec
    rintro _ _ rfl
    rw [if_neg nonzero]
    apply Wp.bind setProc_spec
    rintro _ _ rfl
    apply Wp.bind setProc_spec
    intro _ t t_eq
    have words : t.mem = s₂.mem := by rw [t_eq]
    have mine : t.proc np = ⟨.alive, (s.proc p).sz, d, (s₁.proc np).kstack, some p⟩ := by
      simp [t_eq, all.proc]
    have pte (x : Nat) (inside : x < allPages) (other : ¬pagesFrom 0 (s.proc p).sz x) :
        t.pte d x = u.pte d x := by
      rw [← pte x inside other]
      exact Vm.pte_congr (by rw [words]) (fun _ _ _ _ => by rw [words]) inside
    refine Wp.pure ⟨?_, unused, fun some => ?_, fun q other => ?_,
      ⟨?_, ?_, fun _ x user above => ?_⟩, b₃, ?_, ?_, ?_⟩
    · rw [← names₁, ← all.names, t_eq]
      rfl
    · rw [cost₁]
      exact Nat.succ_le_succ (paid some)
    · simp [t_eq, update_of_ne other, all.proc, others₁ q other]
    · rw [mine]
      exact small
    · rw [mine]
      refine setUp.guarded.congr fun x above inside => pte x inside fun mine => ?_
      have below := mine.2
      simp only [userPages, pgSize, kernBase] at *
      omega
    · rw [mine] at above ⊢
      have outside : ¬pagesFrom 0 (s.proc p).sz x := fun below =>
        absurd ((below_pageUp small x).mpr below.2) (Nat.not_lt.mpr above)
      rw [page_eq_none, pte x (user_lt user) outside, ← page_eq_none, setUp.page x user]
    · exact (shifts₁.trans all.toShifts).trans (.of_mem all.audited words (by rw [t_eq]))
    · rw [mine, root]
    · rw [mine, hand, hand₁]
      exact .head _
  · rw [hand₁] at moves
    have perm : ((s₁.proc np).kstack :: lost).Perm (lost ++ [(s₁.proc np).kstack]) :=
      (List.perm_append_singleton ..).symm
    have sorted := Moves.reorder moves.audited perm
    apply Wp.bind setProc_spec
    intro _ s₃ s₃_eq
    rw [if_pos rfl]
    have shifts₃ : Shifts layout s ⟨none, free, []⟩ s₃
        ⟨none, free', (s₁.proc np).kstack :: lost⟩ :=
      (shifts₁.trans (moves.trans sorted).toShifts).trans
        (.of_mem sorted.audited (by rw [s₃_eq]) (by rw [s₃_eq]))
    apply Wp.get
    rw [show (s₃.proc np).kstack = (s₁.proc np).kstack by simp [s₃_eq, moves.proc]]
    apply Wp.bind (kfree_moves shifts₃.audited rfl)
    rintro _ s₄ ⟨freed, -⟩
    apply Wp.bind setProc_spec
    rintro _ _ rfl
    refine Wp.pure ⟨?_, fun q used => ?_, _, lost,
      (shifts₃.trans freed.toShifts).trans (.of_mem freed.audited rfl rfl), ?_⟩
    · rw [← names₁, ← moves.names]
      have names : s₃.names = s₂.names := by rw [s₃_eq]; rfl
      exact freed.names.trans names
    · have other : q ≠ np := by
        rintro rfl
        rcases used with used | live
        · exact used unused
        · exact not_live (.inl (by simp)) live
      simp [update_of_ne other, freed.proc, s₃_eq, moves.proc, others₁ q other]
    · have slot : ∃ q, (s.proc q).state = .unused := ⟨np, unused⟩
      rw [lacks, cost₁, and_iff_right slot, Nat.succ_le_succ_iff, Nat.add_sub_add_right]

/-- `fork` keeps the ledger right. -/
theorem fork_balanced (balanced : Balanced layout s free) (alive : (s.proc p).state = .alive) :
    Wp anyPanic (fork layout p) (fun _ t => ∃ free', Balanced layout t free') s := by
  apply Wp.mono (fork_forks balanced alive (.inl fun _ => trivial))
  rintro r t ⟨names, forked⟩
  simp only [Vm.names, Prod.mk.injEq] at names
  cases r with
  | none =>
    obtain ⟨others, free', lost, shifts, -⟩ := forked
    exact ⟨free', balanced.aside shifts names.1 names.2.2
      (fun q live => by rw [others q (.inr live)])
      fun c v claims => balanced.ledger.outside_free claims⟩
  | some np =>
    obtain ⟨-, -, others, housed, b', shifts, root, held⟩ := forked
    exact ⟨b'.free, balanced.close (q := np) shifts names.1 names.2.2
      (fun q other _ => by rw [others q other])
      (fun c v claims _ _ => balanced.ledger.outside_free claims)
      fun _ => ⟨housed, .inl root, .inl held⟩⟩

/-- A process on its books, with its kernel stack. -/
theorem Balanced.all_books (balanced : Balanced layout s free) (live : s.Live p) :
    Audited layout s ⟨some (s.proc p).pgdir, free, [(s.proc p).kstack]⟩ := by
  have stack := balanced.ledger.held _ _ live.stack
  refine Audited.adopt (balanced.books live)
    (stack.isPage _ (.inl (List.mem_append_right _ (.head _))))
    fun has => ?_
  exact balanced.ledger.outside live.stack live.dir nofun _ ((under_page rfl).mpr rfl) has

/-- `wait` frees the memory of an exited child. -/
theorem wait_balanced (balanced : Balanced layout s free) (p : Fin nProc) :
    Wp stops (wait layout p) (fun _ t => ∃ free', Balanced layout t free') s := by
  unfold wait
  apply Wp.get
  split
  · exact Wp.pure ⟨free, balanced⟩
  rename_i q found
  have live : s.Live q := by
    have both := List.find?_some found
    simp only [decide_eq_true_eq] at both
    exact .inr both.2
  apply Wp.bind (kfree_moves (balanced.all_books live) rfl)
  rintro _ s₁ ⟨freed, -⟩
  apply Wp.bind setProc_spec
  intro _ s₂ s₂_eq
  have shifts₂ := freed.toShifts.trans
    (.of_mem (t := s₂) freed.audited (by rw [s₂_eq]) (by rw [s₂_eq]))
  apply Wp.get
  rw [show (s₂.proc q).pgdir = (s.proc q).pgdir by simp [s₂_eq, freed.proc]]
  apply Wp.bind (freevm_moves shifts₂.audited rfl)
  rintro _ s₃ ⟨free', emptied⟩
  apply Wp.bind setProc_spec
  intro _ t t_eq
  have shifts := (shifts₂.trans emptied.toShifts).trans
    (.of_mem (t := t) emptied.audited (by rw [t_eq]) (by rw [t_eq]))
  have names₂ : s₂.names = s₁.names := by rw [s₂_eq]; rfl
  have names : t.names = s₃.names := by rw [t_eq]; rfl
  rw [emptied.names, names₂, freed.names] at names
  simp only [Vm.names, Prod.mk.injEq] at names
  refine Wp.pure ⟨free', balanced.close (q := q) shifts names.1 names.2.2 (fun r other _ => ?_)
    (fun c v claims dir stack x under has => ?_) fun absurd => ?_⟩
  · simp [t_eq, update_of_ne other, emptied.proc, s₂_eq, freed.proc]
  · have loose : x ∈ free ++ [(s.proc q).kstack] ∨ ∃ n, x ∈ s.node (some (s.proc q).pgdir) n := has
    rw [List.mem_append, List.mem_singleton] at loose
    rcases loose with (member | held) | part
    · exact balanced.ledger.not_free claims under member
    · exact stack (balanced.ledger.apart _ _ _ _ x claims live.stack under
        ((under_page rfl).mpr held))
    · exact dir (balanced.ledger.apart _ _ _ _ x claims live.dir under (under_dir.mpr part))
  · exact (not_live (.inl (by simp [t_eq])) absurd).elim

/-! ## `exec.c` -/

/-- `exec` replaces the memory of a process, or leaves it. -/
theorem exec_balanced (balanced : Balanced layout s free) (live : s.Live p) (image : Image)
    (short : ∀ arg ∈ image.args, arg.1.toNat < 2 ^ 25) :
    Wp stops (exec layout p image) (fun _ t => ∃ free', Balanced layout t free') s := by
  have ledger := balanced.ledger
  have failed {t : Vm} {free' : List Nat}
      (moves : Moves layout s ⟨none, free, []⟩ t ⟨none, free', []⟩) : Balanced layout t free' := by
    have names := moves.names
    simp only [Vm.names, Prod.mk.injEq] at names
    exact balanced.aside moves.toShifts names.1 names.2.2 (fun q _ => by rw [moves.proc])
      fun c v claims => ledger.outside_free claims
  unfold exec
  apply Wp.ite
  · exact fun _ => Wp.pure ⟨free, balanced⟩
  intro _
  apply Wp.bind (setupkvm_setUp ledger.list rfl)
  rintro pd s₁ (⟨rfl, -, free₁, moves⟩ | ⟨nonzero, b₁, setUp⟩)
  · rw [if_pos rfl]
    exact Wp.pure ⟨free₁, failed moves⟩
  rw [if_neg nonzero]
  apply Wp.get
  apply Wp.bind (execBuild_space image short setUp.space)
  rintro (- | sz) s₂ ⟨b₂, moves, root, hand, built⟩
  · apply Wp.bind (freevm_moves moves.audited (root.trans setUp.root))
    rintro _ s₃ ⟨free₃, freed⟩
    rw [hand, setUp.hand] at freed
    exact Wp.pure ⟨free₃, failed ((setUp.moves.trans moves).trans freed)⟩
  have space := built sz rfl
  have moves := setUp.moves.trans moves
  have shifts : Shifts layout s ⟨none, free, []⟩
      { s₂ with proc := update s₂.proc p { s₂.proc p with pgdir := pd, sz := sz } } b₂ :=
    moves.toShifts.trans (.of_mem moves.audited rfl rfl)
  apply Wp.get
  apply Wp.bind setProc_spec
  rintro _ s₃ s₃_eq
  rw [← s₃_eq] at shifts
  rw [moves.proc]
  have words : s₃.mem = s₂.mem := by rw [s₃_eq]
  have names := moves.names
  simp only [Vm.names, Prod.mk.injEq] at names
  have mine : s₃.proc p = { s.proc p with pgdir := pd, sz := sz } := by simp [s₃_eq, moves.proc]
  have pte (x : Nat) (inside : x < allPages) : s₃.pte pd x = s₂.pte pd x :=
    Vm.pte_congr (by rw [words]) (fun _ _ _ _ => by rw [words]) inside
  have housed : Housed s₃ p := by
    constructor <;> rw [mine]
    · exact space.small
    · exact space.guarded.congr fun x _ inside => pte x inside
    · intro _ x user above
      rw [page_eq_none, pte x (user_lt user), ← not_not (a := _ = none)]
      exact (space.pages x user).not.mpr (Nat.not_lt.mpr above)
  -- The new page directory is the process's, and the old one is nobody's.
  have balanced₃ : Balanced layout s₃ b₂.free := by
    refine balanced.close (q := p) shifts (by rw [s₃_eq]; exact names.1)
      (by rw [s₃_eq]; exact names.2.2) (fun q other _ => ?_)
      (fun c v claims _ _ => ledger.outside_free claims) fun _ => ⟨housed, .inl ?_, .inr ?_⟩
    · simp [s₃_eq, update_of_ne other, moves.proc]
    · rw [mine, root, setUp.root]
    · rw [mine]
      exact ⟨live.stack, ledger.outside_free live.stack⟩
  have outside := ledger.outside_free live.dir
  have same (x : Nat) (under : s.Under (.dir (.proc p)) (s.proc p).pgdir x) : s₃.mem x = s.mem x :=
    shifts.outside x (outside x under)
  have old : Audited layout s₃ ⟨some (s.proc p).pgdir, b₂.free, []⟩ := by
    have node : s₃.node (some (s.proc p).pgdir) = s.node (some (s.proc p).pgdir) :=
      Claim.node_congr free same
    refine (balanced.books live).refree balanced₃.ledger.list node nofun fun n x part member => ?_
    refine outside x (under_dir.mpr ⟨n, part⟩) ((shifts.has x).mp (.inl ?_))
    exact List.mem_append_left _ member
  have apart (c : Claim) (v : Nat) (claims : s₃.Claims c v) :
      Outside s₃ ⟨some (s.proc p).pgdir, b₂.free, []⟩ c v := by
    intro x under has
    rcases has_books (c := .dir (.proc p)).mp has with member | part
    · exact balanced₃.ledger.not_free claims under member
    have before := (under_congr same).mp part
    by_cases here : c = .dir (.proc p)
    · subst here
      obtain ⟨-, rfl⟩ := claims
      rw [mine] at under
      have given : b₂.Gives (.dir (.proc p)) pd := root.trans setUp.root
      exact outside x before ((shifts.has x).mp (given.has under))
    · have kept : s.Claims c v := by
        rw [s₃_eq] at claims
        match c with
        | .dir .kernel => simpa [Vm.Claims, names] using claims
        | .dir (.proc q) =>
          have other : q ≠ p := by simpa using here
          simpa [Vm.Claims, Vm.Live, moves.proc, other] using claims
        | .stack q =>
          by_cases mine : q = p <;>
            simpa [Vm.Claims, Vm.Live, Proc.Live, moves.proc, mine] using claims
        | .pipe => simpa [Vm.Claims, names] using claims
      refine here (ledger.apart _ _ _ _ x kept live.dir
        ((under_congr fun y mine => ?_).mp under) before)
      exact shifts.outside y (ledger.outside_free kept y mine)
  apply Wp.bind (freevm_moves old rfl)
  rintro _ t ⟨free', freed⟩
  have names := freed.names
  simp only [Vm.names, Prod.mk.injEq] at names
  exact Wp.pure ⟨free', balanced₃.aside freed.toShifts names.1 names.2.2
    (fun q _ => by rw [freed.proc]) apart⟩

end Xv6
