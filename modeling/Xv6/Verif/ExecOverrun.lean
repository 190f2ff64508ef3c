import Xv6.Verif.FirstProcess

/-!
# Long arguments of `exec`

In runs with short arguments every page has one owner. An argument of more than 32 MB takes the
stack pointer for it below `DEVSPACE`, into addresses that the new page directory has no page table
for. There `uva2ka` reads the entry through the null pointer: what the process has stored at address
0 tells `copyout` where to write.
-/

namespace Xv6

open Lib Function

variable {layout : Layout} {s t u : Vm} {b : Books} {free : List Nat} {stops : String → Prop}

variable {p : Fin nProc} {pd pt v w : Nat}

/-! ## Runs -/

/-- A process that runs may make an operation. -/
theorem alive_passes (alive : (s.proc p).state = .alive) :
    Wp stops (Xv6.alive p) (fun _ t => t = s) s := by
  unfold Xv6.alive
  apply Wp.get
  rw [if_neg (not_not.mpr alive)]
  exact Wp.pure rfl

/-- An operation of a running process that allocates and ends is a step. -/
theorem step_of_wp (event : VmEvent) {α : Type} {op : VmM α} {refusals : List Bool}
    (alive : (s.proc p).state = .alive)
    (run : event.run layout = (do
      Xv6.alive p
      setRefusals refusals
      let _ ← op)) {post : α → Vm → Prop}
    (wp : Wp (fun _ => False) op post { s with refusals := refusals }) :
    ∃ r t, s.step layout event = some t ∧ post r t := by
  have ends : Wp (fun _ => False) (event.run layout) (fun _ t => ∃ r, post r t) s := by
    rw [run]
    apply Wp.bind (alive_passes alive)
    rintro _ _ rfl
    apply Wp.bind Wp.modify
    rintro _ _ rfl
    apply Wp.bind wp
    exact fun r t done => Wp.pure ⟨r, done⟩
  obtain ⟨⟨⟩, t, ends, r, done⟩ := ends.ends
  exact ⟨r, t, Vm.step_of_ends ends, done⟩

/-- So is a call of `exec`, with arguments from the memory of the process. -/
theorem exec_steps {image : Image} {refusals : List Bool} (alive : (s.proc p).state = .alive)
    (inside : ∀ arg ∈ image.args, arg.1.toNat < (s.proc p).sz) {post : Bool → Vm → Prop}
    (wp : Wp (fun _ => False) (exec layout p image) post { s with refusals := refusals }) :
    ∃ r t, s.step layout (.exec p refusals image) = some t ∧ post r t := by
  have checked : Wp (fun _ => False) (argvInside p image) (fun _ t => t = s) s := by
    unfold argvInside
    apply Wp.get
    rw [if_neg fun ⟨arg, member, beyond⟩ => absurd (inside arg member) (Nat.not_lt.mpr beyond)]
    exact Wp.pure rfl
  have ends : Wp (fun _ => False) (VmEvent.run layout (.exec p refusals image))
      (fun _ t => ∃ r, post r t) s := by
    apply Wp.bind (alive_passes alive)
    rintro _ s rfl
    apply Wp.bind checked
    rintro _ s rfl
    apply Wp.bind Wp.modify
    rintro _ _ rfl
    apply Wp.bind wp
    exact fun r t done => Wp.pure ⟨r, done⟩
  obtain ⟨⟨⟩, t, ends, r, done⟩ := ends.ends
  exact ⟨r, t, Vm.step_of_ends ends, done⟩

/-- A process with 40 MB. -/
structure Large (s : Vm) (p : Fin nProc) (free : List Nat) : Prop where
  balanced : Balanced smallKernel s free
  supply : 1000 ≤ free.length
  alive : (s.proc p).state = .alive
  size : (s.proc p).sz = 0x2801000
  present : ∀ x, x * pgSize < (s.proc p).sz → s.pte (s.proc p).pgdir x ≠ none
  /-- The process may store to its first page. -/
  entry : ∃ w, s.pte (s.proc p).pgdir 0 = some w ∧ Writable w ∧ ForUser w

/-- The first process grows by 40 MB. -/
theorem First.grows (first : First s p free) : ∃ t free',
    s.step smallKernel (.growproc p [] 0x2800000) = some t ∧ Large t p free' := by
  have live : s.Live p := .inl first.alive
  have housed := first.balanced.housed p live
  have books : Audited smallKernel { s with refusals := [] } ⟨some (s.proc p).pgdir, free, []⟩ :=
    (first.balanced.books live).congr rfl rfl
  have supply := first.supply
  have grown : Wp (fun _ => False) (growproc smallKernel p (0x2800000 : Int32).toInt)
      (fun _ t => (t.proc p).state = .alive ∧ (t.proc p).sz = 0x2801000 ∧
        (∀ x, x * pgSize < (t.proc p).sz → t.pte (t.proc p).pgdir x ≠ none) ∧
        (∃ w, t.pte (t.proc p).pgdir 0 = some w ∧ Writable w ∧ ForUser w) ∧
        ∃ b, Audited smallKernel t b ∧ 1000 ≤ grants t b) { s with refusals := [] } := by
    have target : (((s.proc p).sz + (0x2800000 : Int32).toInt) % 2 ^ 32).toNat = 0x2801000 := by
      rw [first.size]
      decide
    unfold growproc
    apply Wp.get
    rw [if_pos (by decide)]
    simp only [target]
    have fresh := housed.fresh first.alive
    have sized : (s.proc p).sz ≤ 0x2801000 := by
      rw [first.size]
      decide
    apply Wp.bind (allocuvm_allocated books rfl (by decide) sized fresh)
    rintro r t ⟨b, allocated⟩
    have enough : 2 * (pageUp 0x2801000 - pageUp (s.proc p).sz) + 1000 ≤
        grants { s with refusals := [] } ⟨some (s.proc p).pgdir, free, []⟩ := by
      rw [first.size, show pageUp 0x2801000 - pageUp pgSize = 0x2800 by decide]
      exact Nat.le_trans (by decide) supply
    obtain ⟨rfl, left⟩ := allocated.supplied 1000 enough
    rw [if_neg (by decide)]
    apply Wp.bind setProc_spec
    intro _ u u_eq
    have words : u.mem = t.mem := by rw [u_eq]
    have mine : u.proc p = { s.proc p with sz := 0x2801000 } := by
      simp [u_eq, allocated.moves.proc]
    have pte (x : Nat) (inside : x < allPages) :
        u.pte (s.proc p).pgdir x = t.pte (s.proc p).pgdir x :=
      Vm.pte_congr (by rw [words]) (fun _ _ _ _ => by rw [words]) inside
    have pgdir : (u.proc p).pgdir = (s.proc p).pgdir := by rw [mine]
    have kept : u.pte (s.proc p).pgdir 0 = s.pte (s.proc p).pgdir 0 := by
      rw [pte 0 (by decide), allocated.pte 0 (by decide)]
      · rfl
      · rw [first.size]
        exact fun mine => absurd mine.1 (by decide)
    refine Wp.pure ⟨by rw [mine]; exact first.alive, by rw [mine], fun x below => ?_,
      by rw [pgdir, kept]; exact first.entry, b,
      allocated.moves.audited.congr words (by rw [u_eq]), by rw [u_eq]; exact left⟩
    rw [mine] at below ⊢
    have user : x < userPages := by
      simp only [userPages, pgSize, kernBase] at *
      omega
    by_cases zero : x = 0
    · obtain ⟨w, entry, -⟩ := first.entry
      rw [zero, kept, entry]
      exact Option.some_ne_none w
    · rw [pte x (user_lt user), pte_ne_none]
      obtain ⟨-, new, -⟩ | ⟨absurd, -⟩ := allocated.page
      · rw [new x user ⟨?_, below⟩]
        · exact Option.some_ne_none _
        · rw [first.size, show pageUp pgSize = 1 by decide]
          omega
      · cases absurd
  obtain ⟨-, t, step, alive, size, present, entry, b, audited, left⟩ :=
    step_of_wp (.growproc p [] 0x2800000) first.alive rfl grown
  have short : (VmEvent.growproc p [] 0x2800000).Short := trivial
  obtain ⟨free', balanced⟩ := Vm.step_balanced first.balanced short step
  have same : free' = b.free := balanced.ledger.list.list.unique audited.list
  exact ⟨t, free', step, balanced, same ▸ Nat.le_trans left (granted_le _ _), alive, size, present,
    entry⟩

/-- A store of a running process through an entry that allows it. -/
theorem store_steps (alive : (s.proc p).state = .alive) (va : UInt32)
    (entry : s.pte (s.proc p).pgdir (va.toNat / pgSize) = some w) (writable : Writable w)
    (forUser : ForUser w) (paint : Paint) (leads : p2v (pteAddr w) = v) :
    s.step layout (.store p va paint) = some { s with
      mem := update s.mem v (paint.page (s.mem v))
      proc := if layout.data ≤ v ∧ v < layout.kend then paint.table s.proc else s.proc } := by
  generalize stored : ({ s with
      mem := update s.mem v (paint.page (s.mem v))
      proc := if layout.data ≤ v ∧ v < layout.kend then paint.table s.proc else s.proc } : Vm) = t
  have stores : Wp (fun _ => False) (VmEvent.run layout (.store p va paint))
    (fun _ u => u = t) s := by
    apply Wp.bind (alive_passes alive)
    rintro _ _ rfl
    apply Wp.get
    apply Wp.bind (translate_spec (.inr ⟨w, entry, writable, forUser⟩))
    rintro page s ⟨rfl, w', entry', -, page_eq⟩
    obtain rfl := Option.some.inj (entry.symm.trans entry')
    rw [page_eq, leads]
    unfold store
    apply Wp.get
    apply Wp.bind setPage_spec
    rintro _ _ rfl
    apply Wp.ite
    · intro data
      apply Wp.mono Wp.modify
      rintro _ _ rfl
      rw [← stored, if_pos data]
    · intro other
      rw [← stored, if_neg other]
      exact Wp.pure rfl
  obtain ⟨⟨⟩, _, ends, rfl⟩ := stores.ends
  exact Vm.step_of_ends ends

/-! ## The overrun -/

/-- A store to a page outside the books. -/
theorem Audited.elsewhere (audited : Audited layout s b) (root : b.root = some pd)
    (page : IsPage layout v) (new : ¬b.Has s v) (words : Page) :
    Audited layout { s with mem := update s.mem v words } b ∧
      (∀ x, b.Has { s with mem := update s.mem v words } x ↔ b.Has s x) ∧
      ∀ x, x < allPages → ({ s with mem := update s.mem v words } : Vm).pte pd x = s.pte pd x := by
  have adopted := audited.adopt page new
  have filled := Moves.fill adopted (.head _) words
  have others (x : Nat) (other : x ≠ v) : update s.mem v words x = s.mem x :=
    update_of_ne other _ _
  have loose : v ∈ Books.loose { b with hand := v :: b.hand } := List.mem_append_right _ (.head _)
  refine ⟨filled.audited.forget (.inl rfl) (List.sublist_cons_self _ _), fun x => ?_,
    fun x => adopted.pte_same root loose others⟩
  unfold Books.Has
  rw [show Vm.node { s with mem := update s.mem v words } b.root = s.node b.root from
    adopted.node_same loose others]

/-- A program with one argument of 32 MB and 12 KB, made of one word. -/
def overrun (w : Nat) : Image where
  elf := true
  headers := []
  args := [(0x2002fff, fun _ => ⟨fun _ _ => w, id⟩)]
  ustack := fun _ => ⟨id, id⟩

/-- `uva2ka` where there is no page table: the entry is what the process has at address 0. -/
theorem uva2ka_null {cr3 x : Nat} (missing : s.next pd (x / npdEntries) = none)
    (entry : s.pte cr3 0 = some v) (word : s.mem (p2v (pteAddr v)) 0 = w) (present : Present w)
    (forUser : ForUser w) :
    Wp stops (uva2ka cr3 pd (x * pgSize)) (fun r t => t = s ∧ r = p2v (pteAddr w)) s := by
  unfold uva2ka
  apply Wp.bind (walkpgdir_next pd (x * pgSize))
  rintro _ s ⟨rfl, rfl⟩
  rw [pdx_page, missing]
  have read : Wp stops (readPte cr3 none) (fun r t => t = s ∧ r = w) s := by
    apply Wp.bind (translate_spec (.inr ⟨v, by rwa [Nat.zero_div], trivial⟩))
    rintro page s ⟨rfl, v', entry', -, page_eq⟩
    rw [Nat.zero_div] at entry'
    obtain rfl := Option.some.inj (entry.symm.trans entry')
    rw [page_eq]
    apply Wp.get
    exact Wp.pure ⟨rfl, word⟩
  apply Wp.bind read
  rintro _ s ⟨rfl, rfl⟩
  rw [if_neg (not_not.mpr present), if_neg (not_not.mpr forUser)]
  exact Wp.pure ⟨rfl, rfl⟩

section

variable {cr3 entry : Nat} {paint : Nat → Paint}
  (space : Space layout pd (2 * pgSize) s b) (page : IsPage layout pt) (foreign : ¬b.Has s pt)
  (found : s.pte cr3 0 = some entry) (word : s.mem (p2v (pteAddr entry)) 0 = w)
    (present : Present w)
  (forUser : ForUser w) (leads : p2v (pteAddr w) = pt)

include space page foreign found word present forUser leads

/-- `copyout` across `DEVSPACE` writes one page and then fails. -/
theorem copyout_overruns :
    Wp stops (copyout layout cr3 pd 0xfdfff000 paint 0x2003000)
      (fun r t => r = false ∧ ∃ words, t = { s with mem := update s.mem pt words } ∧
        words = (paint 0x2003000).page (s.mem pt)) s := by
  have first : pgRoundDown 0xfdfff000 = 0xfdfff * pgSize := by decide
  have second : uint (0xfdfff * pgSize + pgSize) = 0xfe000 * pgSize := by decide
  unfold copyout
  rw [if_pos (by decide), first]
  apply Wp.bind (uva2ka_null (space.gap _ (by decide) (by decide)) found word present forUser)
  rintro pa s ⟨rfl, pa_eq⟩
  rw [leads] at pa_eq
  rw [pa_eq, if_neg page.ne_zero]
  apply Wp.bind (kstore_page page _)
  intro _ t t_eq
  obtain ⟨-, -, pte⟩ := space.audited.elsewhere space.root page foreign
    ((paint 0x2003000).page (s.mem pt))
  rw [← t_eq] at pte
  obtain ⟨w', entry'⟩ := Option.ne_none_iff_exists'.mp
    (space.guarded.top 0xfe000 (by decide) (by decide))
  have guarded := space.guarded.kernel 0xfe000 w' (by decide) (by decide) entry'
  rw [← pte _ (by decide)] at entry'
  rw [second]
  unfold copyout
  rw [if_pos (by decide), show pgRoundDown (0xfe000 * pgSize) = 0xfe000 * pgSize by decide]
  apply Wp.bind (uva2ka_entry entry')
  rintro _ t ⟨rfl, rfl⟩
  rw [if_neg guarded, if_pos rfl]
  exact Wp.pure ⟨rfl, _, t_eq, rfl⟩

end

/-- The image for the long argument is not completed, with one page overwritten outside its books.
-/
theorem execBuild_overruns {cr3 entry : Nat} (space : Space layout pd 0 s b)
    (enough : 4 ≤ grants s b) (page : IsPage layout pt)
    (foreign : ∀ x, x = pt ∨ x = p2v (pteAddr entry) → ¬b.Has s x)
    (kept : ∀ u b', Moves layout s b u b' → u.pte cr3 0 = some entry)
    (word : s.mem (p2v (pteAddr entry)) 0 = w) (present : Present w) (forUser : ForUser w)
    (leads : p2v (pteAddr w) = pt) :
    Wp stops (execBuild layout cr3 pd (overrun w))
      (fun r t => r = none ∧ ∃ u b', Moves layout s b u b' ∧ b'.root = some pd ∧
        t = { u with mem := update u.mem pt fun _ => w }) s := by
  unfold execBuild
  have loads : execLoad layout pd (overrun w).headers 0 = pure (some 0) := rfl
  have start : pgRoundUp 0 = 0 ∧ uint (0 + 2 * pgSize) = 2 * pgSize := by decide
  rw [loads, pure_bind]
  simp only [start]
  apply Wp.bind (allocuvm_space space)
  rintro sz s₁ ⟨b₁, moves₁, root₁, -, built, supplied⟩
  have nonzero := supplied (by decide) (by decide) enough
  obtain ⟨space₁, size⟩ := built nonzero
  obtain rfl : sz = 2 * pgSize := size
  rw [if_neg nonzero]
  have clear : Wp stops (clearpteu pd (0 * pgSize)) _ s₁ := clearpteu_space space₁ (by decide)
  rw [Nat.zero_mul] at clear
  rw [Nat.sub_self]
  apply Wp.bind clear
  rintro _ s₂ ⟨moves₂, space₂⟩
  have moves := moves₁.trans moves₂
  have outside (x : Nat) (mine : x = pt ∨ x = p2v (pteAddr entry)) : ¬b₁.Has s₂ x := fun has =>
    foreign x mine ((moves.has x).mp has)
  have word' : s₂.mem (p2v (pteAddr entry)) 0 = w := by
    rw [moves.outside _ (foreign _ (.inr rfl)), word]
  have push : execPush layout cr3 pd (overrun w).args 0 (2 * pgSize) = (do
      if ← copyout layout cr3 pd 0xfdfff000 (fun _ => ⟨fun _ _ => w, id⟩) 0x2003000 then
        execPush layout cr3 pd [] 1 0xfdfff000
      else
        return none) := rfl
  rw [push, bind_assoc]
  apply Wp.bind (copyout_overruns space₂ page (outside _ (.inl rfl))
    (kept s₂ b₁ moves) word' present
    forUser leads)
  rintro _ s₃ ⟨rfl, words, s₃_eq, rfl⟩
  exact Wp.pure ⟨rfl, s₂, b₁, moves, space₂.root, s₃_eq⟩

/-- `exec` with the long argument fails, with one page overwritten that it does not own. -/
theorem exec_overruns {entry : Nat} (balanced : Balanced layout s free) (live : s.Live p)
    (enough : 100 ≤ grants s ⟨none, free, []⟩) (table : s.next (s.proc p).pgdir 0 = some pt)
    (found : s.pte (s.proc p).pgdir 0 = some entry) (word : s.mem (p2v (pteAddr entry)) 0 = w)
    (present : Present w) (forUser : ForUser w) (leads : p2v (pteAddr w) = pt) :
    Wp stops (exec layout p (overrun w))
      (fun _ t => t.proc = s.proc ∧ t.mem pt = (fun _ => w) ∧
        t.mem (s.proc p).pgdir = s.mem (s.proc p).pgdir) s := by
  have books := balanced.books live
  have isTable := Vm.node_table (by decide) table
  have isPage : IsPage layout pt := books.isPage pt (.inr ⟨_, isTable⟩)
  have outside {n : Node} {x : Nat} (part : x ∈ s.node (some (s.proc p).pgdir) n) :
      ¬Books.Has ⟨none, free, []⟩ s x :=
    balanced.ledger.outside_free live.dir x (under_dir.mpr ⟨n, part⟩)
  have userPage : ¬Books.Has ⟨none, free, []⟩ s (p2v (pteAddr entry)) := by
    apply outside (n := .user 0)
    rw [Vm.node_user_eq (by decide)]
    exact leaf_of_entry found
  unfold exec
  rw [if_neg (show ¬(overrun w).elf = false from nofun)]
  apply Wp.bind (setupkvm_setUp balanced.ledger.list rfl)
  rintro pd s₁ (⟨rfl, short, -⟩ | ⟨nonzero, b₁, setUp⟩)
  · omega
  have cost := setUp.cost
  rw [if_neg nonzero]
  apply Wp.get
  rw [setUp.moves.proc]
  have foreign (x : Nat) (mine : x = pt ∨ x = p2v (pteAddr entry)) : ¬b₁.Has s₁ x := by
    rw [setUp.moves.has]
    rcases mine with here | here <;> rw [here]
    · exact outside isTable
    · exact userPage
  have kept (u : Vm) (b' : Books) (moves : Moves layout s₁ b₁ u b') :
      u.pte (s.proc p).pgdir 0 = some entry := by
    have all := setUp.moves.trans moves
    rw [← found]
    apply pte_under (.proc p) (fun x under => ?_) (by decide)
    exact all.outside x (balanced.ledger.outside_free live.dir x under)
  have word₁ : s₁.mem (p2v (pteAddr entry)) 0 = w := by
    rw [setUp.moves.outside _ userPage, word]
  apply Wp.bind (execBuild_overruns setUp.space (by omega) isPage foreign kept word₁ present forUser
    leads)
  rintro _ s₂ ⟨rfl, u, b₂, moves, root, s₂_eq⟩
  have all := setUp.moves.trans moves
  have foreign : ¬b₂.Has u pt := fun has => outside isTable ((all.has _).mp has)
  obtain ⟨audited, has, -⟩ := all.audited.elsewhere root isPage foreign fun _ => w
  rw [← s₂_eq] at audited has
  apply Wp.bind (freevm_moves audited root)
  rintro _ t ⟨free', freed⟩
  have apart := books.table_ne_dir rfl (by decide) table
  have dir : ¬Books.Has ⟨none, free, []⟩ s (s.proc p).pgdir := outside (n := .dir) rfl
  refine Wp.pure ⟨?_, ?_, ?_⟩
  · rw [freed.proc, s₂_eq]
    exact all.proc
  · rw [freed.outside pt ((has pt).not.mpr foreign), s₂_eq]
    exact update_self ..
  · rw [freed.outside _ ((has _).not.mpr ((all.has _).not.mpr dir)), s₂_eq]
    exact (update_of_ne apart.symm _ _).trans (all.outside _ dir)

/-! ## Ownership -/

/-- In every run from boot with short arguments of `exec` every page is free or has one owner. -/
theorem Vm.page_ownership_exclusive {past : List VmEvent} (run : Vm.RanShort layout past s) :
    Exclusive s := by
  obtain ⟨free, balanced⟩ := run.balanced
  exact balanced.ledger.exclusive

/-- A small program with one argument. -/
def shortImage : Image where
  elf := true
  headers := [some ⟨true, 0, 512, 8192, fun _ => (⟨id, id⟩, true)⟩]
  args := [(4, fun _ => ⟨id, id⟩)]
  ustack := fun _ => ⟨id, id⟩

/-- The first process grows, forks and runs a small program. -/
theorem Vm.page_ownership_exclusive_exec : ∃ p s, Vm.RanShort smallKernel
    [.exec p [] shortImage, .fork p [], .growproc p [] 0x2800000, .userinit [] ⟨id, id⟩ 0] s ∧
    Exclusive s := by
  obtain ⟨s₀, p, free₀, run₀, first⟩ := firstProcess_runs
  obtain ⟨s₁, free₁, step₁, large⟩ := first.grows
  have balanced₁ : Balanced smallKernel { s₁ with refusals := [] } free₁ :=
    large.balanced.congr rfl rfl rfl rfl rfl
  obtain ⟨r, s₂, step₂, -, forked⟩ := step_of_wp (.fork p []) large.alive rfl
    (fork_forks balanced₁ large.alive (.inr fun x _ => large.present x))
  have run₂ : Vm.RanShort smallKernel _ s₂ :=
    .cons (.cons run₀ (by trivial) step₁) (by trivial) step₂
  have parent : s₂.proc p = s₁.proc p := by
    have used : (s₁.proc p).state ≠ .unused := by rw [large.alive]; nofun
    cases r with
    | none => exact forked.1 p (.inl used)
    | some np =>
      apply forked.2.2.1 p
      rintro rfl
      exact used forked.1
  obtain ⟨free₂, balanced₂⟩ := run₂.balanced
  have short : (VmEvent.exec p [] shortImage).Short := by
    simp [VmEvent.Short, shortImage]
  have running : (s₂.proc p).state = .alive := by rw [parent, large.alive]
  have ready : Balanced smallKernel { s₂ with refusals := [] } free₂ :=
    balanced₂.congr rfl rfl rfl rfl rfl
  obtain ⟨-, s₃, step₃, -⟩ := exec_steps running (by simp [shortImage, parent, large.size])
    (exec_balanced ready (.inl running) shortImage short)
  have run : Vm.RanShort smallKernel _ s₃ := .cons run₂ short step₃
  exact ⟨p, s₃, run, Vm.page_ownership_exclusive run⟩

/-- The entry for a page table as a page of the process, with all flags. -/
def selfEntry (pt : Nat) : Nat := v2p pt ||| 0xfff

/-- It is a page of the process. -/
theorem selfEntry_user (page : IsPage layout pt) :
    p2v (pteAddr (selfEntry pt)) = pt ∧ Present (selfEntry pt) ∧ Writable (selfEntry pt) ∧
      ForUser (selfEntry pt) := by
  refine ⟨page.entry_page (by decide), ?_⟩
  have aligned := page.v2p_aligned
  rw [selfEntry, aligned_or aligned (by decide)]
  simp only [Present, Writable, ForUser, pgSize] at *
  omega

/-- After the long argument the page table of the process is a page of the process. -/
structure Overrun (s : Vm) (p : Fin nProc) (pt : Nat) : Prop where
  alive : (s.proc p).state = .alive
  table : s.next (s.proc p).pgdir 0 = some pt
  apart : pt ≠ (s.proc p).pgdir
  page : IsPage smallKernel pt
  words : s.mem pt = fun _ => selfEntry pt

/-- The first process grows, stores an entry for its page table at address 0 and calls `exec` with
the long argument. -/
theorem overrun_runs : ∃ p s pt, Vm.Ran smallKernel
    [.exec p [] (overrun (selfEntry pt)), .store p 0 ⟨fun _ _ => selfEntry pt, id⟩,
      .growproc p [] 0x2800000, .userinit [] ⟨id, id⟩ 0] s ∧ Overrun s p pt := by
  obtain ⟨s₀, p, free₀, run₀, first⟩ := firstProcess_runs
  obtain ⟨s₁, free₁, step₁, large⟩ := first.grows
  have live : s₁.Live p := .inl large.alive
  have books := large.balanced.books live
  obtain ⟨entry, found, writable, forUser⟩ := large.entry
  obtain ⟨pt, table, -⟩ := table_of_pte found
  rw [Nat.zero_div] at table
  have isTable := Vm.node_table (by decide) table
  have page : IsPage smallKernel pt := books.isPage pt (.inr ⟨_, isTable⟩)
  obtain ⟨leads, present, -, user⟩ := selfEntry_user page
  have stored : s₁.step smallKernel (.store p 0 ⟨fun _ _ => selfEntry pt, id⟩) =
      some { s₁ with mem := update s₁.mem (p2v (pteAddr entry)) fun _ => selfEntry pt } := by
    rw [store_steps large.alive 0 found writable forUser _ rfl]
    simp
  have painted := Painted.one books rfl (by decide) found fun _ => selfEntry pt
  obtain ⟨s₂, s₂_eq⟩ : ∃ s₂, s₂ = ({ s₁ with
      mem := update s₁.mem (p2v (pteAddr entry)) fun _ => selfEntry pt } : Vm) := ⟨_, rfl⟩
  rw [← s₂_eq] at stored painted
  have word : s₂.mem (p2v (pteAddr entry)) 0 = selfEntry pt := by
    simp only [s₂_eq, update_self]
  have short : (VmEvent.store p 0 ⟨fun _ _ => selfEntry pt, id⟩).Short := trivial
  obtain ⟨free₂, balanced₂⟩ := Vm.step_balanced large.balanced short stored
  have same : free₂ = free₁ := balanced₂.ledger.list.list.unique painted.moves.audited.list
  have enough : 100 ≤ free₂.length := by
    rw [same]
    exact Nat.le_trans (by decide) large.supply
  have proc : s₂.proc = s₁.proc := painted.moves.proc
  have pgdir : (s₂.proc p).pgdir = (s₁.proc p).pgdir := by rw [proc]
  have table₂ : s₂.next (s₂.proc p).pgdir 0 = some pt := by
    rw [pgdir, Vm.next_congr painted.dir, table]
  have found₂ : s₂.pte (s₂.proc p).pgdir 0 = some entry := by
    rw [pgdir, painted.pte 0 (by decide), found]
  have running : (s₂.proc p).state = .alive := by rw [proc, large.alive]
  have ready : Balanced smallKernel { s₂ with refusals := [] } free₂ :=
    balanced₂.congr rfl rfl rfl rfl rfl
  have fits : ∀ arg ∈ (overrun (selfEntry pt)).args, arg.1.toNat < (s₂.proc p).sz := by
    simp [overrun, proc, large.size]
  obtain ⟨-, t, step₃, proc₃, words, dir⟩ := exec_steps running fits
    (exec_overruns ready (.inl running) enough table₂ found₂ word present user leads)
  refine ⟨p, t, pt, .cons (.cons (.cons run₀.history step₁) stored) step₃, ?_, ?_, ?_, page, words⟩
  · rw [proc₃]
    exact running
  · rw [proc₃, Vm.next_congr dir]
    exact table₂
  · rw [proc₃]
    exact pgdir ▸ books.table_ne_dir rfl (by decide) table

/-- Two entries of a page table that is a page of the process own it. -/
theorem exec_overrun_shares : ∃ p s pt, Vm.Ran smallKernel
    [.exec p [] (overrun (selfEntry pt)), .store p 0 ⟨fun _ _ => selfEntry pt, id⟩,
      .growproc p [] 0x2800000, .userinit [] ⟨id, id⟩ 0] s ∧ ¬Exclusive s := by
  obtain ⟨p, s, pt, run, overran⟩ := overrun_runs
  obtain ⟨leads, present, -, -⟩ := selfEntry_user overran.page
  refine ⟨p, s, pt, run, fun exclusive => ?_⟩
  have table : Owns s (.pgtab (s.proc p).pgdir 0) pt := by
    have found := overran.table
    unfold Vm.next at found
    split at found
    · rename_i there
      rw [← Option.some.inj found]
      exact .pgtab (.pgdir (.inl overran.alive)) (by decide) there
    · cases found
  have user (j : Nat) (inside : j < npdEntries) : Owns s (.user (s.proc p).pgdir 0 j) pt := by
    have owned := Owns.user table (by decide) inside (by rw [overran.words]; exact present)
    rwa [overran.words, leads] at owned
  cases exclusive.alone _ _ pt (user 0 (by decide)) (user 1 (by decide))

end Xv6
