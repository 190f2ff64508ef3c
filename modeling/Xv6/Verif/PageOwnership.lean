import Xv6.Verif.ProcLedger

/-!
# Every page has one owner

The other operations, from boot on, keep the ledger right as well, and so do all runs in which the
arguments of `exec` are short.
-/

namespace Xv6

open Lib Function

variable {layout : Layout} {s t u : Vm} {b b' : Books} {free : List Nat} {stops : String → Prop}

variable {p : Fin nProc} {v : Nat}

/-! ## `pipe.c` -/

/-- Closing books that have to do with a pipe. -/
theorem Balanced.close_pipe (balanced : Balanced layout s free) (shifts : Shifts layout s b t b')
    (proc : t.proc = s.proc) (kpgdir : t.kpgdir = s.kpgdir)
    (outside : ∀ c v, s.Claims c v → c ≠ .pipe → Outside s b c v)
    (files : ∀ v, t.Claims .pipe v → s.Claims .pipe v ∧ Outside s b .pipe v ∨ v ∈ b'.hand)
    (piped : Piped t) : Balanced layout t b'.free := by
  constructor
  case ledger =>
    apply balanced.ledger.close shifts (· = .pipe)
    · exact fun _ _ pipe pipe' _ => pipe.trans pipe'.symm
    · intro c v claims
      by_cases pipe : c = .pipe
      · subst pipe
        exact (files v claims).imp_right fun held => ⟨rfl, held⟩
      · have before : s.Claims c v := by
          rcases c with (_ | q) | q | _
          · simpa [Vm.Claims, kpgdir] using claims
          · simpa [Vm.Claims, Vm.Live, proc] using claims
          · simpa [Vm.Claims, Vm.Live, proc] using claims
          · exact absurd rfl pipe
        exact .inl ⟨before, outside c v before pipe⟩
  case housed =>
    intro q live
    have before : s.Live q := by rwa [Vm.Live, proc] at live
    refine (balanced.housed q before).congr (by rw [proc]) fun x => pte_under (.proc q) ?_
    exact fun y under => shifts.outside y (outside _ _ before.dir (by simp) y under)
  case piped => exact piped

/-- `pipealloc` makes a pipe out of a free page. -/
theorem pipealloc_balanced (balanced : Balanced layout s free) (filealloc : Bool) :
    Wp stops (pipealloc filealloc) (fun _ t => ∃ free', Balanced layout t free') s := by
  have ledger := balanced.ledger
  unfold pipealloc
  apply Wp.ite
  · exact fun _ => Wp.pure ⟨free, balanced⟩
  intro _
  apply Wp.bind (kalloc_moves ledger.list)
  rintro v s₁ ⟨words, ⟨rfl, -, still⟩ | ⟨rest, isPage, first, -, taken⟩⟩
  · have names := still.names
    simp only [Vm.names, Prod.mk.injEq] at names
    rw [if_pos rfl]
    exact Wp.pure ⟨free, balanced.aside still.toShifts names.1 names.2.2
      (fun q _ => by rw [still.proc]) fun c v claims => ledger.outside_free claims⟩
  rw [if_neg isPage.ne_zero]
  iterate 6
    apply Wp.bind setWord_spec
    rintro _ _ rfl
  apply Wp.bind Wp.modify
  intro _ t t_eq
  simp only [update_self, update_idem] at t_eq
  obtain ⟨page, page_eq⟩ : ∃ page, t.mem = update s₁.mem v page := ⟨_, by rw [t_eq]⟩
  have opened (writable : Bool) : t.mem v (pipeOpen writable) ≠ 0 := by
    cases writable <;>
      simp [t_eq, pipeOpen, pipeReadopen, pipeWriteopen, pipeNwrite, pipeNread]
  have names := taken.names
  simp only [Vm.names, Prod.mk.injEq] at names
  have files : t.files = (v, false) :: (v, true) :: s.files := by rw [t_eq, ← names.2.2]
  have shifts : Shifts layout s ⟨none, free, []⟩ t ⟨none, rest, [v]⟩ := by
    have filled := Moves.fill taken.audited (.head _) page
    exact (taken.trans filled).toShifts.trans
      (.of_mem filled.audited page_eq (by rw [t_eq]))
  have unclaimed : ¬s.Claims .pipe v := fun claims => by
    have free : v ∈ free := (show free = v :: rest from first) ▸ .head _
    exact ledger.not_free claims ((under_page rfl).mpr rfl) free
  have new (writable : Bool) : (v, writable) ∉ s.files := fun opened => unclaimed ⟨_, opened⟩
  have old {x : Nat} (other : x ≠ v) (writable : Bool) :
      (x, writable) ∈ t.files ↔ (x, writable) ∈ s.files := by
    simp [files, other]
  refine Wp.pure ⟨rest, balanced.close_pipe shifts (by rw [t_eq]; exact taken.proc)
    (by rw [t_eq]; exact names.1) (fun c v claims _ => ledger.outside_free claims) ?_ ⟨?_, ?_⟩⟩
  · rintro x ⟨writable, opened⟩
    by_cases here : x = v
    · exact .inr (List.mem_singleton.mpr here)
    · have claims : s.Claims .pipe x := ⟨writable, (old here writable).mp opened⟩
      exact .inl ⟨claims, ledger.outside_free claims⟩
  · simp [files, new, balanced.piped.once]
  · rintro x ⟨_, claimed⟩ writable
    by_cases here : x = v
    · rw [here, files]
      exact iff_of_true (opened writable) (by cases writable <;> simp)
    · have claims : s.Claims .pipe x := ⟨_, (old here _).mp claimed⟩
      rw [old here, page_eq, update_of_ne here, words]
      exact balanced.piped.flags x claims writable

/-- `pipeclose` notes that an end is closed. -/
theorem pipeclose_eq (v : Nat) (writable : Bool) :
    pipeclose layout v writable = (do
      setWord v (pipeOpen writable) 0
      let page := (← get).mem v
      if page pipeReadopen = 0 ∧ page pipeWriteopen = 0 then kfree layout v) := by
  cases writable <;> rfl

/-- Closing a file of a pipe closes its end, and frees the pipe with the last one. -/
theorem fileclosePipe_balanced (balanced : Balanced layout s free) (file : Nat × Bool) :
    Wp anyPanic (fileclosePipe layout file)
      (fun _ t => (∃ free', Balanced layout t free') ∧ t.proc = s.proc) s := by
  obtain ⟨v, writable⟩ := file
  have ledger := balanced.ledger
  have once := balanced.piped.once
  unfold fileclosePipe
  apply Wp.get
  apply Wp.ite
  · exact fun _ => Wp.throw_bind trivial
  intro opened
  have opened : (v, writable) ∈ s.files := not_not.mp opened
  have claimed : s.Claims .pipe v := ⟨writable, opened⟩
  have books := ledger.held _ _ claimed
  have gone : (v, writable) ∉ s.files.erase (v, writable) := once.not_mem_erase
  have kept {other : Nat × Bool} (apart : other ≠ (v, writable)) :
      other ∈ s.files.erase (v, writable) ↔ other ∈ s.files :=
    List.mem_erase_of_ne apart
  apply Wp.bind Wp.modify
  rintro _ _ rfl
  rw [pipeclose_eq]
  apply Wp.bind setWord_spec
  intro _ t t_eq
  have page (x : Nat) : t.mem x =
      if x = v then update (s.mem v) (pipeOpen writable) 0 else s.mem x := by
    rw [t_eq]
    split
    · rename_i here
      rw [here]
      exact update_self ..
    · exact update_of_ne ‹_› _ _
  have files : t.files = s.files.erase (v, writable) := by rw [t_eq]
  have shifts : Shifts layout s ⟨none, free, [v]⟩ t ⟨none, free, [v]⟩ := by
    have filled := Moves.fill books (.head _) (update (s.mem v) (pipeOpen writable) 0)
    exact filled.toShifts.trans (.of_mem filled.audited (by rw [t_eq]) (by rw [t_eq]))
  have piped : Piped t := by
    refine ⟨files ▸ once.erase _, ?_⟩
    rintro x ⟨_, claims⟩ end'
    have claims := files ▸ claims
    have flags := balanced.piped.flags x ⟨_, List.mem_of_mem_erase claims⟩ end'
    rw [files, page]
    by_cases here : x = v
    · subst here
      rw [if_pos rfl]
      by_cases same : end' = writable
      · rw [same, update_self]
        exact iff_of_false (fun zero => zero rfl) gone
      · rw [update_of_ne, kept (by simpa using same), flags]
        cases end' <;> cases writable <;> first | exact absurd rfl same | decide
    · rw [if_neg here, kept (by simp [here]), flags]
  have outside (c : Claim) (x : Nat) (claims : s.Claims c x) (other : c ≠ .pipe) :
      Outside s ⟨none, free, [v]⟩ c x :=
    ledger.outside claims claimed fun same => absurd same other
  have others (x : Nat) (claims : t.Claims .pipe x) (other : x ≠ v) :
      s.Claims .pipe x ∧ Outside s ⟨none, free, [v]⟩ .pipe x := by
    obtain ⟨_, opened⟩ := claims
    rw [files] at opened
    have before : s.Claims .pipe x := ⟨_, List.mem_of_mem_erase opened⟩
    exact ⟨before, ledger.outside before claimed fun _ => other⟩
  apply Wp.get
  apply Wp.ite
  · intro closed
    apply Wp.mono (kfree_moves shifts.audited rfl)
    rintro _ u ⟨freed, same⟩
    have names := freed.names
    simp only [Vm.names, Prod.mk.injEq] at names
    -- Both ends are closed, so that no file is left.
    have unclaimed (x : Nat) (claims : u.Claims .pipe x) : t.Claims .pipe x ∧ x ≠ v := by
      simp only [Vm.Claims, names.2.2] at claims
      refine ⟨claims, ?_⟩
      rintro rfl
      obtain ⟨end', opened⟩ := claims
      apply (piped.flags x ⟨end', opened⟩ end').mpr opened
      cases end'
      · exact closed.1
      · exact closed.2
    refine ⟨⟨_, balanced.close_pipe (shifts.trans freed.toShifts) (by rw [freed.proc, t_eq])
      (by rw [names.1, t_eq]) outside (fun x claims => ?_) (piped.congr names.2.2 ?_)⟩,
      by rw [freed.proc, t_eq]⟩
    · obtain ⟨claims, other⟩ := unclaimed x claims
      exact .inl (others x claims other)
    · intro x claims
      have claims' : u.Claims .pipe x := by simpa only [Vm.Claims, names.2.2] using claims
      exact same x (unclaimed x claims').2
  · intro _
    refine Wp.pure ⟨⟨_, balanced.close_pipe shifts (by rw [t_eq]) (by rw [t_eq]) outside
      (fun x claims => ?_) piped⟩, by rw [t_eq]⟩
    by_cases here : x = v
    · exact .inr (List.mem_singleton.mpr here)
    · exact .inl (others x claims here)

/-- `exit` closes files one by one. -/
theorem exitFiles_balanced (files : List (Nat × Bool)) (balanced : Balanced layout s free) :
    Wp anyPanic (exitFiles layout files)
      (fun _ t => (∃ free', Balanced layout t free') ∧ t.proc = s.proc) s := by
  induction files generalizing free s with
  | nil => exact Wp.pure ⟨⟨free, balanced⟩, rfl⟩
  | cons file rest ih =>
    unfold exitFiles
    apply Wp.bind (fileclosePipe_balanced balanced file)
    rintro _ t ⟨⟨free', balanced'⟩, proc⟩
    apply Wp.mono (ih balanced')
    rintro _ u ⟨done, proc'⟩
    exact ⟨done, proc'.trans proc⟩

/-- `exit` closes files and leaves a zombie with its memory. -/
theorem exit_balanced (balanced : Balanced layout s free) (live : s.Live p)
    (files : List (Nat × Bool)) :
    Wp anyPanic (exit layout p files) (fun _ t => ∃ free', Balanced layout t free') s := by
  unfold exit
  apply Wp.get
  apply Wp.ite
  · exact fun _ => Wp.throw_bind trivial
  intro _
  apply Wp.bind (exitFiles_balanced files balanced)
  rintro _ s₁ ⟨⟨free₁, balanced₁⟩, proc₁⟩
  have live : s₁.Live p := by rwa [Vm.Live, proc₁]
  have housed := balanced₁.housed p live
  apply Wp.bind Wp.modify
  rintro _ _ rfl
  apply Wp.mono setProc_spec
  intro _ t t_eq
  have words : t.mem = s₁.mem := by rw [t_eq]
  have mine : (t.proc p).state = .zombie ∧ (t.proc p).sz = 0 ∧
      (t.proc p).pgdir = (s₁.proc p).pgdir ∧ (t.proc p).kstack = (s₁.proc p).kstack := by
    simp only [t_eq, update_self, true_and]
    split <;> exact ⟨rfl, rfl⟩
  obtain ⟨state, sz, pgdir, kstack⟩ := mine
  refine ⟨free₁, balanced₁.close (q := p) (.of_mem balanced₁.ledger.list words (by rw [t_eq]))
    (by rw [t_eq]) (by rw [t_eq]) (fun q other _ => ?_)
    (fun c v claims _ _ => balanced₁.ledger.outside_free claims)
    fun _ => ⟨⟨?_, ?_, fun alive => ?_⟩, .inr ?_, .inr ?_⟩⟩
  · simp only [t_eq, update_of_ne other, Proc.memory]
    split <;> rfl
  · rw [sz]
    decide
  · rw [pgdir]
    exact housed.guarded.congr fun x _ =>
      Vm.pte_congr (by rw [words]) fun _ _ _ _ => by rw [words]
  · rw [state] at alive
    cases alive
  · rw [pgdir]
    exact ⟨live.dir, balanced₁.ledger.outside_free live.dir⟩
  · rw [kstack]
    exact ⟨live.stack, balanced₁.ledger.outside_free live.stack⟩

/-! ## Stores -/

/-- The processor finds a page by the entry for an address. -/
theorem translate_spec {va cr3 : Nat} {allows : Nat → Prop} [DecidablePred allows]
    (found : stops "page fault" ∨ ∃ w, s.pte cr3 (va / pgSize) = some w ∧ allows w) :
    Wp stops (translate cr3 va allows)
      (fun r t => t = s ∧ ∃ w, s.pte cr3 (va / pgSize) = some w ∧ allows w ∧ r = p2v (pteAddr w))
      s := by
  have indices : pdx va = va / pgSize / npdEntries ∧ ptx va = va / pgSize % npdEntries := by
    simp only [pdx, ptx, pgSize, npdEntries]
    omega
  unfold translate
  apply Wp.bind (walkpgdir_next cr3 va)
  rintro _ _ ⟨rfl, rfl⟩
  rw [indices.1, indices.2]
  cases table : Vm.next _ cr3 (va / pgSize / npdEntries) with
  | none =>
    refine Wp.throw (found.resolve_right ?_)
    rintro ⟨w, entry, -⟩
    simp [Vm.pte, table] at entry
  | some pt =>
    apply Wp.get
    apply Wp.ite
    · intro allowed
      refine Wp.pure ⟨rfl, _, ?_, allowed.2, rfl⟩
      rw [Vm.pte, table, Option.bind_some, presentPte, if_pos allowed.1]
    · intro refused
      refine Wp.throw (found.resolve_right ?_)
      rintro ⟨w, entry, allowed⟩
      rw [Vm.pte, table, Option.bind_some, presentPte] at entry
      split at entry
      · cases entry
        exact refused ⟨‹_›, allowed⟩
      · cases entry

/-- A store outside the kernel's data. -/
theorem store_page (page : IsPage layout v) (paint : Paint) :
    Wp stops (store layout v paint)
      (fun _ t => t = { s with mem := update s.mem v (paint.page (s.mem v)) }) s := by
  unfold store
  apply Wp.get
  apply Wp.bind setPage_spec
  rintro _ _ rfl
  rw [if_neg fun data => absurd page.behind (Nat.not_le.mpr data.2)]
  exact Wp.pure rfl

/-- A process stores to a page of its own. -/
theorem store_balanced (balanced : Balanced layout s free) (live : s.Live p) (va : UInt32)
    (paint : Paint) :
    Wp anyPanic (do
        let page ← translate (s.proc p).pgdir va.toNat fun pte => Writable pte ∧ ForUser pte
        store layout page paint)
      (fun _ t => ∃ free', Balanced layout t free') s := by
  have books := balanced.books live
  have housed := balanced.housed p live
  apply Wp.bind (translate_spec (.inl trivial))
  rintro v s ⟨rfl, w, entry, ⟨-, forUser⟩, leads⟩
  have inside : va.toNat / pgSize < allPages := by
    have small := va.toNat_lt
    simp only [allPages, pgSize]
    omega
  have user : va.toNat / pgSize < userPages := by
    by_contra above
    exact housed.guarded.kernel _ w (Nat.le_of_not_lt above) inside entry forUser
  have page := books.isPage _ (.inr ⟨_, Audited.node_user rfl user (leaf_of_entry entry)⟩)
  rw [← leads] at page
  apply Wp.mono (store_page page paint)
  intro _ t t_eq
  have painted := Painted.one books rfl user entry (paint.page (s.mem v))
  rw [← leads, ← t_eq] at painted
  have housed' : Housed t p := housed.congr (by rw [t_eq]) painted.pte
  refine ⟨free, (balanced.rehouse live painted.moves rfl (s.proc p).sz ?_).congr rfl rfl rfl ?_ rfl⟩
  · refine housed'.congr ?_ fun x _ => rfl
    simp [t_eq]
  · simp [t_eq]

/-- The kernel stores to the stack of a process. -/
theorem push_balanced (balanced : Balanced layout s free) (live : s.Live p) (words : Page) :
    Wp stops (setPage (s.proc p).kstack words) (fun _ t => ∃ free', Balanced layout t free') s := by
  have ledger := balanced.ledger
  apply Wp.mono setPage_spec
  intro _ t t_eq
  have filled := Moves.fill (ledger.held _ _ live.stack) (.head _) words
  rw [← t_eq] at filled
  have names := filled.names
  simp only [Vm.names, Prod.mk.injEq] at names
  have apart := ledger.outside live.dir live.stack (by simp)
  refine ⟨free, balanced.close (q := p) filled.toShifts names.1 names.2.2
    (fun q _ _ => by rw [filled.proc]) (fun c v claims _ stack => ?_)
    fun _ => ⟨?_, .inr ?_, .inl ?_⟩⟩
  · exact ledger.outside claims live.stack fun same => absurd same stack
  · refine (balanced.housed p live).congr (by rw [filled.proc]) fun x => pte_under (.proc p) ?_
    exact fun y under => filled.outside y (apart y under)
  · rw [filled.proc]
    exact ⟨live.dir, apart⟩
  · rw [filled.proc]
    exact .head _

/-! ## `main.c` -/

/-- `freerange` adds its pages to the free list, where all others are below. -/
theorem freerangeFrom_adds {vend : Nat} (top : vend ≤ p2v physTop) (a : Nat)
    (aligned : a % pgSize = 0) (behind : layout.kend ≤ a) (audited : Audited layout s b)
    (below : ∀ v, b.Has s v → v < a) :
    Wp stops (freerangeFrom layout vend a)
      (fun _ t => t.tables = s.tables ∧ ∃ b', Audited layout t b' ∧ b'.root = b.root ∧
        (∀ v, b'.Has t v → b.Has s v ∨ v < vend) ∧
        b.free.length + (vend - a) / pgSize ≤ b'.free.length) s := by
  induction gap : vend - a using Nat.strong_induction_on generalizing s b a with
  | _ n ih =>
  unfold freerangeFrom
  apply Wp.ite
  · intro more
    have page : IsPage layout a := by
      have above := Nat.lt_of_lt_of_le layout.kernBase_lt behind
      refine ⟨aligned, behind, ?_, ?_⟩ <;>
        simp only [pgSize, p2v, v2p, uint, physTop, kernBase] at * <;> omega
    have new : ¬b.Has s a := fun has => absurd (below a has) (Nat.lt_irrefl a)
    have shorter : vend - (a + pgSize) < n := by
      simp only [pgSize] at *
      omega
    apply Wp.bind (kfree_moves (audited.adopt page new) rfl)
    rintro _ t ⟨freed, -⟩
    have has (v : Nat) (has : Books.Has { b with free := a :: b.free } t v) :
        v = a ∨ b.Has s v := by
      rcases (freed.has v).mp has with loose | part
      · rw [Books.loose, List.mem_append, List.mem_cons] at loose
        rcases loose with free | rfl | hand
        · exact .inr (.inl (List.mem_append_left _ free))
        · exact .inl rfl
        · exact .inr (.inl (List.mem_append_right _ hand))
      · exact .inr (.inr part)
    have later (v : Nat) (mine : Books.Has { b with free := a :: b.free } t v) :
        v < a + pgSize := by
      rcases has v mine with rfl | old
      · exact Nat.lt_add_of_pos_right (by decide)
      · exact Nat.lt_add_right _ (below v old)
    apply Wp.mono (ih _ shorter _ (by simp [aligned]) (by omega) freed.audited later rfl)
    rintro _ u ⟨tables, b', books, root, among, count⟩
    refine ⟨tables.trans freed.tables, b', books, root, fun v mine => ?_, ?_⟩
    · rcases among v mine with old | low
      · rcases has v old with rfl | old
        · simp only [pgSize] at more
          omega
        · exact .inl old
      · exact .inr low
    · rw [List.length_cons] at count
      simp only [pgSize] at *
      omega
  · intro _
    refine Wp.pure ⟨rfl, b, audited, rfl, fun v mine => .inl mine, ?_⟩
    simp only [pgSize] at *
    omega

/-- `startothers` keeps the pages it allocates. -/
theorem startothers_moves (others : Nat) (audited : Audited layout s b) :
    Wp stops (startothers others) (fun _ t => ∃ b', Moves layout s b t b' ∧
      b'.root = b.root) s := by
  induction others generalizing s b with
  | zero => exact Wp.pure ⟨b, .refl audited, rfl⟩
  | succ others ih =>
    unfold startothers
    apply Wp.bind (kalloc_moves audited)
    rintro r t ⟨-, ⟨-, -, still⟩ | ⟨rest, -, -, -, taken⟩⟩
    · apply Wp.mono (ih still.audited)
      rintro _ u ⟨b', later, root⟩
      exact ⟨b', still.trans later, root⟩
    · apply Wp.mono (ih taken.audited)
      rintro _ u ⟨b', later, root⟩
      exact ⟨b', taken.trans later, root⟩

/-- `kvmalloc` gives the kernel its page directory, if there are pages for it. -/
theorem kvmalloc_builds (audited : Audited layout s b) (root : b.root = none) :
    Wp stops (kvmalloc layout)
      (fun _ t => (t.proc, t.initproc, t.files) = (s.proc, s.initproc, s.files) ∧
        ∃ b', Shifts layout s b t b' ∧ (t.kpgdir ≠ 0 → b'.root = some t.kpgdir)) s := by
  unfold kvmalloc
  apply Wp.bind (setupkvm_setUp audited root)
  rintro pd s₁ (⟨rfl, -, free, moves⟩ | ⟨-, b', setUp⟩)
  · apply Wp.mono Wp.modify
    rintro _ _ rfl
    have tables := moves.tables
    simp only [Vm.tables, Vm.names, Prod.mk.injEq] at tables
    exact ⟨by simp [tables], _, moves.toShifts.trans (.of_mem moves.audited rfl rfl),
      fun nonzero => absurd rfl nonzero⟩
  · apply Wp.mono Wp.modify
    rintro _ _ rfl
    have tables := setUp.moves.tables
    simp only [Vm.tables, Vm.names, Prod.mk.injEq] at tables
    exact ⟨by simp [tables], b', setUp.moves.toShifts.trans (.of_mem setUp.moves.audited rfl rfl),
      fun _ => setUp.root⟩

/-- Before boot the allocator has no page. -/
theorem Unbooted.audited (unbooted : Unbooted s) : Audited layout s ⟨none, [], []⟩ := by
  have none (v : Nat) : ¬Books.Has ⟨none, [], []⟩ s v := by simp [Books.has_free]
  constructor
  case list =>
    rw [unbooted.freelist]
    exact .nil
  case once => exact List.nodup_nil
  case isPage => exact fun v has => absurd has (none v)
  case apart => exact fun n v part => absurd (.inr ⟨n, part⟩) (none v)
  case alone => exact fun n _ v part => absurd (.inr ⟨n, part⟩) (none v)

/-- After boot the ledger is right, and the memory above 4 MB is free. -/
theorem boot_balanced (unbooted : Unbooted s) (others : Nat) :
    Wp stops (boot layout others)
      (fun _ t => ∃ free, Balanced layout t free ∧ 50000 ≤ free.length ∧
        (∀ p, (t.proc p).state = .unused) ∧ t.initproc = none) s := by
  have fits := layout.fits
  have behind : layout.kend ≤ pgRoundUp layout.kend := by
    simp only [p2v, uint, kernBase, pgRoundUp, pgSize] at *
    omega
  have none (v : Nat) : ¬Books.Has ⟨none, [], []⟩ s v := by simp [Books.has_free]
  unfold boot freerange
  apply Wp.bind (freerangeFrom_adds (by decide) _ (Nat.mul_mod_left ..) behind unbooted.audited
    fun v has => absurd has (none v))
  rintro _ s₁ ⟨tables₁, b₁, books₁, root₁, among₁, -⟩
  simp only [Vm.tables, Vm.names, Prod.mk.injEq] at tables₁
  apply Wp.bind (kvmalloc_builds books₁ root₁)
  rintro _ s₂ ⟨tables₂, b₂, shifts₂, root₂⟩
  simp only [Prod.mk.injEq] at tables₂
  apply Wp.bind (startothers_moves others shifts₂.audited)
  rintro _ s₃ ⟨b₃, moves₃, root₃⟩
  have tables₃ := moves₃.tables
  simp only [Vm.tables, Vm.names, Prod.mk.injEq] at tables₃
  rw [show pgRoundUp (p2v (4 * 1024 * 1024)) = p2v (4 * 1024 * 1024) by decide]
  apply Wp.mono (freerangeFrom_adds (Nat.le_refl _) _ (by decide) fits moves₃.audited fun v has =>
    (among₁ v ((shifts₂.has v).mp ((moves₃.has v).mp has))).resolve_left (none v))
  rintro _ t ⟨tables, b, books, root, -, count⟩
  simp only [Vm.tables, Vm.names, Prod.mk.injEq] at tables
  obtain ⟨proc, kpgdir, initproc, files⟩ := tables
  have proc : t.proc = s.proc := by rw [proc, tables₃.1, tables₂.1, tables₁.1]
  have files : t.files = [] := by
    rw [files, tables₃.2.2.2, tables₂.2.2, tables₁.2.2.2, unbooted.files]
  have unused (p : Fin nProc) : (t.proc p).state = .unused := by rw [proc, unbooted.proc p]
  have dead (p : Fin nProc) : ¬t.Live p := not_live (.inl (unused p))
  -- Only the kernel has pages.
  have kernel {c : Claim} {v : Nat} (claims : t.Claims c v) :
      c = .dir .kernel ∧ b.root = some v := by
    rcases c with (_ | p) | p | _
    · obtain ⟨nonzero, rfl⟩ := claims
      rw [kpgdir, tables₃.2.1] at nonzero ⊢
      exact ⟨rfl, root.trans (root₃.trans (root₂ nonzero))⟩
    · exact absurd claims.1 (dead p)
    · exact absurd claims.1 (dead p)
    · simp [Vm.Claims, files] at claims
  refine ⟨b.free, ⟨⟨?_, fun c v claims => ?_, fun c v c' v' x claims claims' _ _ => ?_⟩, ?_, ?_⟩,
    Nat.le_trans (Nat.le_trans (by decide) (Nat.le_add_left _ _)) count, unused, ?_⟩
  · exact books.forget (.inr rfl) (List.nil_sublist _)
  · obtain ⟨rfl, root⟩ := kernel claims
    exact books.forget (.inl root.symm) (List.nil_sublist _)
  · exact (kernel claims).1.trans (kernel claims').1.symm
  · exact fun p live => absurd live (dead p)
  · refine ⟨by simp [files], fun v claims => ?_⟩
    simp [Vm.Claims, files] at claims
  · rw [initproc, tables₃.2.2.1, tables₂.2.1, tables₁.2.2.1, unbooted.initproc]

/-! ## Runs -/

/-- The process of an operation runs. -/
theorem alive_spec (p : Fin nProc) :
    Wp anyPanic (alive p) (fun _ t => t = s ∧ (s.proc p).state = .alive) s := by
  unfold alive
  apply Wp.get
  apply Wp.ite
  · exact fun _ => Wp.throw trivial
  · exact fun running => Wp.pure ⟨rfl, not_not.mp running⟩

/-- What `kalloc` will answer is no part of the ledger. -/
theorem setRefusals_balanced (balanced : Balanced layout s free) (refusals : List Bool) :
    Wp stops (setRefusals refusals) (fun _ t => Balanced layout t free ∧ t.proc = s.proc) s := by
  apply Wp.mono Wp.modify
  rintro _ _ rfl
  exact ⟨balanced.congr rfl rfl rfl rfl rfl, rfl⟩

/-- An operation of a process that allocates. -/
theorem event_balanced {α : Type} (balanced : Balanced layout s free) (p : Fin nProc)
    (refusals : List Bool)
    {op : VmM α} (keeps : ∀ u : Vm, Balanced layout u free → (u.proc p).state = .alive →
      Wp anyPanic op (fun _ t => ∃ free', Balanced layout t free') u) :
    Wp anyPanic
      (do
        alive p
        setRefusals refusals
        let _ ← op)
      (fun _ t => ∃ free', Balanced layout t free') s := by
  apply Wp.bind (alive_spec p)
  rintro _ _ ⟨rfl, running⟩
  apply Wp.bind (setRefusals_balanced balanced refusals)
  rintro _ t ⟨balanced', proc⟩
  apply Wp.bind (keeps t balanced' (by rw [proc, running]))
  exact fun _ u balanced'' => Wp.pure balanced''

/-- An operation keeps the ledger right. -/
theorem VmEvent.run_balanced (balanced : Balanced layout s free) (event : VmEvent)
    (short : event.Short) :
    Wp anyPanic (event.run layout) (fun _ t => ∃ free', Balanced layout t free') s := by
  cases event with
  | userinit refusals initcode size =>
    apply Wp.get
    apply Wp.ite
    · exact fun _ => Wp.throw_bind trivial
    · intro _
      apply Wp.bind (setRefusals_balanced balanced refusals)
      rintro _ t ⟨balanced', -⟩
      apply Wp.mono (userinit_makes balanced' initcode (.inl fun _ => trivial))
      exact fun _ u ⟨free', balanced'', _⟩ => ⟨free', balanced''⟩
  | fork p refusals =>
    exact event_balanced balanced p refusals fun _ balanced' => fork_balanced balanced'
  | exec p refusals image =>
    apply Wp.bind (alive_spec p)
    rintro _ s ⟨rfl, running⟩
    have checked : Wp anyPanic (argvInside p image) (fun _ t => t = s) s := by
      unfold argvInside
      apply Wp.get
      apply Wp.ite
      · exact fun _ => Wp.throw trivial
      · exact fun _ => Wp.pure rfl
    apply Wp.bind checked
    rintro _ _ rfl
    apply Wp.bind (setRefusals_balanced balanced refusals)
    rintro _ t ⟨balanced', proc⟩
    apply Wp.bind (exec_balanced balanced' (.inl (by rw [proc, running])) image short)
    exact fun _ u balanced'' => Wp.pure balanced''
  | growproc p refusals n =>
    exact event_balanced balanced p refusals fun _ balanced' running =>
      growproc_balanced balanced' running n
  | exit p files =>
    apply Wp.bind (alive_spec p)
    rintro _ _ ⟨rfl, running⟩
    exact exit_balanced balanced (.inl running) files
  | wait p =>
    apply Wp.bind (alive_spec p)
    rintro _ _ ⟨rfl, -⟩
    apply Wp.bind (wait_balanced balanced p)
    exact fun _ u balanced' => Wp.pure balanced'
  | pipealloc refusals filealloc =>
    apply Wp.bind (setRefusals_balanced balanced refusals)
    rintro _ t ⟨balanced', -⟩
    apply Wp.bind (pipealloc_balanced balanced' filealloc)
    exact fun _ u balanced'' => Wp.pure balanced''
  | pipeclose file =>
    apply Wp.mono (fileclosePipe_balanced balanced file)
    exact fun _ t done => done.1
  | store p va paint =>
    apply Wp.bind (alive_spec p)
    rintro _ _ ⟨rfl, running⟩
    apply Wp.get
    exact store_balanced balanced (.inl running) va paint
  | push p words =>
    apply Wp.bind (alive_spec p)
    rintro _ _ ⟨rfl, running⟩
    apply Wp.get
    apply Wp.get
    exact push_balanced balanced (.inl running) _

/-- Every step keeps the ledger right. -/
theorem Vm.step_balanced (balanced : Balanced layout s free) {event : VmEvent} (short : event.Short)
    (step : s.step layout event = some t) : ∃ free', Balanced layout t free' := by
  unfold Vm.step at step
  split at step
  · rename_i u ends
    cases step
    exact (event.run_balanced balanced short).ok ends
  · cases step

/-- In every run from boot with short arguments of `exec` the ledger is right. -/
theorem Vm.RanShort.balanced {past : List VmEvent} (run : Vm.RanShort layout past s) :
    ∃ free, Balanced layout s free := by
  apply Within.invariant (fun _ u => ∃ free, Balanced layout u free) _ _ run
  · rintro t ⟨start, others, unbooted, ends⟩
    have boots : Wp anyPanic (boot layout others) _ start := boot_balanced unbooted others
    obtain ⟨free, balanced, -⟩ := boots.ok ends
    exact ⟨free, balanced⟩
  · rintro _ t u event ⟨free, balanced⟩ short step
    exact Vm.step_balanced balanced short step

end Xv6
