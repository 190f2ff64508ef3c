import Xv6.Verif.ExecSpace

/-!
# The ledger of all pages

The kernel's tables name page directories, kernel stacks and pipes. The ledger has books for each of
them beside one free list, and no page is in the books of two. An operation opens the books of what
it works on: whatever it does in them, the books of the others stay as they are, so that it is
enough to say who has the pages in the end.
-/

namespace Xv6

open Lib Function

variable {layout : Layout} {s t u : Vm} {b b' : Books} {free : List Nat} {v w x : Nat}

/-! ## Claims -/

/-- What the kernel's tables name. -/
inductive Claim where
  /-- A page directory. -/
  | dir (holder : Holder)
  /-- The kernel stack of a process. -/
  | stack (p : Fin nProc)
  | pipe
  deriving DecidableEq

/-- The claim is to a page directory, with all that it leads to. -/
def Claim.isDir : Claim → Bool
  | .dir _ => true
  | _ => false

/-- The processes that have memory. -/
def Vm.Live (s : Vm) (p : Fin nProc) : Prop := (s.proc p).Live

/-- The tables name a page. -/
def Vm.Claims (s : Vm) : Claim → Nat → Prop
  | .dir .kernel, v => s.kpgdir ≠ 0 ∧ v = s.kpgdir
  | .dir (.proc p), v => s.Live p ∧ v = (s.proc p).pgdir
  | .stack p, v => s.Live p ∧ v = (s.proc p).kstack
  | .pipe, v => ∃ writable, (v, writable) ∈ s.files

/-- A process claims its page directory. -/
theorem Vm.Live.dir {p : Fin nProc} (live : s.Live p) :
    s.Claims (.dir (.proc p)) (s.proc p).pgdir :=
  ⟨live, rfl⟩

/-- A process claims its kernel stack. -/
theorem Vm.Live.stack {p : Fin nProc} (live : s.Live p) : s.Claims (.stack p) (s.proc p).kstack :=
  ⟨live, rfl⟩

variable {c c' : Claim}

/-- The books of a claim. -/
def Claim.books (free : List Nat) (v : Nat) : Claim → Books
  | .dir _ => ⟨some v, free, []⟩
  | _ => ⟨none, free, [v]⟩

/-- A page belongs to a claim. -/
def Vm.Under (s : Vm) (c : Claim) (v x : Nat) : Prop := (c.books [] v).Has s x

/-- The pages of a page directory are its parts. -/
theorem under_dir {holder : Holder} :
    s.Under (.dir holder) v x ↔ ∃ n, x ∈ s.node (some v) n := by
  simp [Vm.Under, Books.Has, Claim.books, Books.loose]

/-- Any other claim is to one page. -/
theorem under_page (single : c.isDir = false) : s.Under c v x ↔ x = v := by
  have rootless (n : Node) : s.node none n = none := by
    cases n <;> simp [Vm.node]
  cases c <;> simp [Claim.isDir] at single <;>
    simp [Vm.Under, Books.Has, Claim.books, Books.loose, rootless]

/-- The books of a claim have the free pages and those that belong to it. -/
theorem has_books : (c.books free v).Has s x ↔ x ∈ free ∨ s.Under c v x := by
  cases c <;> simp [Vm.Under, Books.Has, Claim.books, Books.loose, or_assoc]

/-- The claim is to pages outside some books. -/
def Outside (s : Vm) (b : Books) (c : Claim) (v : Nat) : Prop := ∀ x, s.Under c v x → ¬b.Has s x

/-- A claim whose pages stay is to the same parts. -/
theorem Claim.node_congr (free : List Nat) (same : ∀ x, s.Under c v x → t.mem x = s.mem x) :
    t.node (c.books free v).root = s.node (c.books free v).root := by
  cases c with
  | dir holder =>
    apply Vm.node_congr
    · intro _ root
      obtain rfl := Option.some.inj root
      exact same _ (under_dir.mpr ⟨.dir, rfl⟩)
    · exact fun i pt table => same pt (under_dir.mpr ⟨_, table⟩)
  | stack | pipe =>
    apply Vm.node_congr
    · exact fun _ rootless => by cases rootless
    · exact fun i pt table => by simp [Claim.books, Vm.node] at table

/-- A claim whose pages stay is to the same pages. -/
theorem under_congr (same : ∀ x, s.Under c v x → t.mem x = s.mem x) :
    t.Under c v x ↔ s.Under c v x := by
  unfold Vm.Under Books.Has
  rw [Claim.node_congr [] same]

/-- The entries of a page directory whose pages stay. -/
theorem pte_under (holder : Holder) (same : ∀ x, s.Under (.dir holder) v x → t.mem x = s.mem x)
    (inside : x < allPages) : t.pte v x = s.pte v x := by
  apply Vm.pte_congr (same v (under_dir.mpr ⟨.dir, rfl⟩)) _ inside
  exact fun i pt low found => same pt (under_dir.mpr ⟨_, Vm.node_table low found⟩)

/-! ## The ledger -/

/-- There are right books for every claim, and no page belongs to two. -/
structure PageLedger (layout : Layout) (s : Vm) (free : List Nat) : Prop where
  list : Audited layout s ⟨none, free, []⟩
  held : ∀ c v, s.Claims c v → Audited layout s (c.books free v)
  apart : ∀ c v c' v' x, s.Claims c v → s.Claims c' v' → s.Under c v x → s.Under c' v' x → c = c'

namespace PageLedger

variable (ledger : PageLedger layout s free)

include ledger

/-- A page that belongs to a claim is not free. -/
theorem not_free (claims : s.Claims c v) (under : s.Under c v x) : x ∉ free := by
  have audited := ledger.held c v claims
  intro member
  cases c with
  | dir holder =>
    obtain ⟨n, part⟩ := under_dir.mp under
    exact audited.apart n x part (List.mem_append_left _ member)
  | stack | pipe =>
    obtain rfl := (under_page rfl).mp under
    exact (List.nodup_append.mp audited.once).2.2 x member x (.head _) rfl

/-- A page belongs to one claim. -/
theorem one_claim {v' : Nat} (claims : s.Claims c v) (claims' : s.Claims c' v')
    (under : s.Under c v x) (under' : s.Under c' v' x) : c = c' ∧ v = v' := by
  obtain rfl := ledger.apart c v c' v' x claims claims' under under'
  refine ⟨rfl, ?_⟩
  match c with
  | .dir .kernel | .dir (.proc p) | .stack p => exact claims.2.trans claims'.2.symm
  | .pipe => exact ((under_page rfl).mp under).symm.trans ((under_page rfl).mp under')

/-- Every claim is outside the free list. -/
theorem outside_free (claims : s.Claims c v) : Outside s ⟨none, free, []⟩ c v := by
  intro x under
  rw [Books.has_free]
  exact ledger.not_free claims under

/-- A claim is outside the books of another. -/
theorem outside {v' : Nat} (claims : s.Claims c v) (claims' : s.Claims c' v')
    (differ : c = c' → v ≠ v') : Outside s (c'.books free v') c v := by
  intro x under has
  rcases has_books.mp has with member | under'
  · exact ledger.not_free claims under member
  · obtain ⟨same, same'⟩ := ledger.one_claim claims claims' under under'
    exact differ same same'

end PageLedger

/-- The books have the pages of a claim: the address space, or a page in hand. -/
def Books.Gives (b : Books) (c : Claim) (v : Nat) : Prop :=
  if c.isDir then b.root = some v else v ∈ b.hand

/-- The pages of a claim that the books have are in them. -/
theorem Books.Gives.has (gives : b.Gives c v) (under : s.Under c v x) : b.Has s x := by
  unfold Gives at gives
  cases c with
  | dir holder =>
    obtain ⟨n, part⟩ := under_dir.mp under
    rw [← (show b.root = some v from gives)] at part
    exact .inr ⟨n, part⟩
  | stack | pipe =>
    obtain rfl := (under_page rfl).mp under
    exact .inl (List.mem_append_right _ gives)

/-- After an operation a claim is as it was, outside the books that were open, or a new one to pages
that the books have. -/
def Settled (s : Vm) (b b' : Books) (new : Claim → Prop) (c : Claim) (v : Nat) : Prop :=
  (s.Claims c v ∧ Outside s b c v) ∨ (new c ∧ b'.Gives c v)

/-- Closing the books. -/
theorem PageLedger.close (ledger : PageLedger layout s free) (shifts : Shifts layout s b t b')
    (new : Claim → Prop) (single : ∀ c c', new c → new c' → c.isDir = c'.isDir → c = c')
    (claims : ∀ c v, t.Claims c v → Settled s b b' new c v) : PageLedger layout t b'.free := by
  have same {c : Claim} {v : Nat} (out : Outside s b c v) (x : Nat) (under : s.Under c v x) :
      t.mem x = s.mem x := shifts.outside x (out x under)
  have list : Audited layout t ⟨none, b'.free, []⟩ :=
    shifts.audited.forget (.inr rfl) (List.nil_sublist _)
  have notFree {c : Claim} {v x : Nat} (out : Outside s b c v) (under : s.Under c v x) :
      x ∉ b'.free := fun member =>
    out x under ((shifts.has x).mp (.inl (List.mem_append_left _ member)))
  constructor
  case list => exact list
  case held =>
    intro c v now
    rcases claims c v now with ⟨before, out⟩ | ⟨-, gives⟩
    · have held := ledger.held c v before
      cases c with
      | dir holder =>
        exact held.refree list (Claim.node_congr free (same out)) (by simp [Claim.books])
          fun n x part => notFree out (under_dir.mpr ⟨n, part⟩)
      | stack | pipe =>
        refine held.refree list (Claim.node_congr free (same out)) ?_ fun n x part => ?_
        · intro x member
          exact notFree out ((under_page rfl).mpr (List.mem_singleton.mp member))
        · cases n <;> simp [Claim.books, Vm.node] at part
    · unfold Books.Gives at gives
      cases c with
      | dir holder => exact shifts.audited.forget (.inl gives.symm) (List.nil_sublist _)
      | stack | pipe => exact shifts.audited.forget (.inr rfl) (List.singleton_sublist.mpr gives)
  case apart =>
    intro c v c' v' x now now' under under'
    rcases claims c v now with ⟨before, out⟩ | ⟨isNew, gives⟩
    · rw [under_congr (same out)] at under
      rcases claims c' v' now' with ⟨before', out'⟩ | ⟨-, gives'⟩
      · rw [under_congr (same out')] at under'
        exact ledger.apart c v c' v' x before before' under under'
      · exact absurd ((shifts.has x).mp (gives'.has under')) (out x under)
    · rcases claims c' v' now' with ⟨-, out'⟩ | ⟨isNew', gives'⟩
      · rw [under_congr (same out')] at under'
        exact absurd ((shifts.has x).mp (gives.has under)) (out' x under')
      · apply single c c' isNew isNew'
        have mixed {c c' : Claim} {v v' : Nat} (dir : c.isDir = true) (page : c'.isDir = false)
            (gives : b'.Gives c v) (gives' : b'.Gives c' v') (under : t.Under c v x)
            (under' : t.Under c' v' x) : False := by
          rw [Books.Gives, if_pos dir] at gives
          rw [Books.Gives, page] at gives'
          obtain rfl := (under_page page).mp under'
          cases c with
          | dir holder =>
            obtain ⟨n, part⟩ := under_dir.mp under
            rw [← gives] at part
            exact shifts.audited.apart n x part (List.mem_append_right _ gives')
          | stack | pipe => cases dir
        cases kind : c.isDir <;> cases kind' : c'.isDir
        · rfl
        · exact (mixed kind' kind gives' gives under' under).elim
        · exact (mixed kind kind' gives gives' under under').elim
        · rfl

/-! ## Exclusive ownership -/

/-- The owner of a part of a claim. -/
def Claim.owner (v : Nat) : Claim → Node → Owner
  | .dir holder, .dir => .pgdir holder
  | .dir _, .table i => .pgtab v i
  | .dir _, .user k => .user v (k / npdEntries) (k % npdEntries)
  | .stack p, _ => .kstack p
  | .pipe, _ => .pipe

/-- An owner has a part of a claim. -/
theorem owns_claim {owner : Owner} (owns : Owns s owner x) :
    ∃ c v n, s.Claims c v ∧ owner = c.owner v n ∧ s.Under c v x ∧
      (c.isDir = true → x ∈ s.node (some v) n) := by
  induction owns with
  | kpgdir set =>
    exact ⟨.dir .kernel, s.kpgdir, .dir, ⟨set, rfl⟩, rfl, under_dir.mpr ⟨.dir, rfl⟩, fun _ => rfl⟩
  | pgdir live =>
    exact ⟨.dir (.proc _), _, .dir, ⟨live, rfl⟩, rfl, under_dir.mpr ⟨.dir, rfl⟩, fun _ => rfl⟩
  | @pgtab holder pd i owned inside present ih =>
    obtain ⟨c, v, n, claims, same, under, part⟩ := ih
    have found : p2v (pteAddr (s.mem pd i)) ∈ s.node (some pd) (.table i) :=
      Vm.node_table inside (if_pos present)
    match c, n with
    | .dir holder', .dir =>
      obtain rfl := Option.some.inj (part rfl)
      exact ⟨.dir holder', _, .table i, claims, rfl, under_dir.mpr ⟨_, found⟩, fun _ => found⟩
  | @user pd i pt j owned below inside present ih =>
    obtain ⟨c, v, n, claims, same, under, part⟩ := ih
    match c, n with
    | .dir holder', .table i' =>
      obtain ⟨rfl, rfl⟩ := Owner.pgtab.inj same
      have low : i * npdEntries + j < userPages := by
        simp only [pdx, userPages, kernBase, pgSize, npdEntries] at *
        omega
      have indices : (i * npdEntries + j) / npdEntries = i ∧
          (i * npdEntries + j) % npdEntries = j := by
        simp only [npdEntries] at *
        omega
      have table : s.next pd i = some pt := by
        have entry := part rfl
        rw [Vm.node] at entry
        split at entry
        · exact entry
        · cases entry
      have found : p2v (pteAddr (s.mem pt j)) ∈ s.node (some pd) (.user (i * npdEntries + j)) := by
        rw [Vm.node_user_eq low, Vm.leaf, indices.1, indices.2, table]
        exact if_pos present
      refine ⟨.dir holder', pd, .user (i * npdEntries + j), claims, ?_, under_dir.mpr ⟨_, found⟩,
        fun _ => found⟩
      rw [Claim.owner, indices.1, indices.2]
  | kstack live =>
    exact ⟨.stack _, _, .dir, ⟨live, rfl⟩, rfl, (under_page rfl).mpr rfl,
      fun absurd => by cases absurd⟩
  | pipe opened =>
    exact ⟨.pipe, _, .dir, ⟨_, opened⟩, rfl, (under_page rfl).mpr rfl,
      fun absurd => by cases absurd⟩

/-- With a right ledger every page has one use. -/
theorem PageLedger.exclusive (ledger : PageLedger layout s free) : Exclusive s := by
  constructor
  · have once := ledger.list.once
    rw [Books.loose, List.append_nil] at once
    refine ⟨free, ledger.list.list, once, fun owner x owns => ?_⟩
    obtain ⟨c, v, n, claims, -, under, -⟩ := owns_claim owns
    exact ledger.not_free claims under
  · intro owner other x owns owns'
    obtain ⟨c, v, n, claims, rfl, under, part⟩ := owns_claim owns
    obtain ⟨c', v', n', claims', rfl, under', part'⟩ := owns_claim owns'
    obtain ⟨rfl, rfl⟩ := ledger.one_claim claims claims' under under'
    cases c with
    | dir holder =>
      have audited := ledger.held _ v claims
      rw [audited.alone n n' x (part rfl) (part' rfl)]
    | stack | pipe => rfl

/-! ## Processes and pipes -/

/-- What the slot of a process says about its memory. -/
def Proc.memory (x : Proc) : SlotState × Nat × Nat × Nat := (x.state, x.sz, x.pgdir, x.kstack)

/-- A process fits its address space. -/
structure Housed (s : Vm) (p : Fin nProc) : Prop where
  small : (s.proc p).sz < kernBase
  guarded : Guarded (s.proc p).pgdir s
  /-- A running process has no page above its size. -/
  fresh : (s.proc p).state = .alive →
    ∀ x, x < userPages → pageUp (s.proc p).sz ≤ x → s.page (s.proc p).pgdir x = none

variable {p q : Fin nProc}

/-- A process whose slot and entries stay fits as before. -/
theorem Housed.congr (housed : Housed s p) (slot : (t.proc p).memory = (s.proc p).memory)
    (same : ∀ x, x < allPages → t.pte (s.proc p).pgdir x = s.pte (s.proc p).pgdir x) :
    Housed t p := by
  obtain ⟨state, sz, pgdir, -⟩ := Prod.mk.inj slot |>.imp_right fun rest => by
    simpa only [Prod.mk.injEq] using rest
  constructor
  case small =>
    rw [sz]
    exact housed.small
  case guarded =>
    rw [pgdir]
    exact housed.guarded.congr fun x _ upper => same x upper
  case fresh =>
    rw [state, sz, pgdir]
    intro alive x user above
    rw [page_eq_none, same x (user_lt user), ← page_eq_none]
    exact housed.fresh alive x user above

/-- The word of a pipe that says whether an end of it is open. -/
def pipeOpen (writable : Bool) : Nat := if writable then pipeWriteopen else pipeReadopen

/-- The pipes and the open files agree. -/
structure Piped (s : Vm) : Prop where
  once : s.files.Nodup
  flags : ∀ v, s.Claims .pipe v → ∀ writable,
    s.mem v (pipeOpen writable) ≠ 0 ↔ (v, writable) ∈ s.files

/-- Pipes that stay agree with files that stay. -/
theorem Piped.congr (piped : Piped s) (files : t.files = s.files)
    (same : ∀ v, s.Claims .pipe v → t.mem v = s.mem v) : Piped t := by
  constructor
  · rw [files]
    exact piped.once
  · intro v claims writable
    have before : s.Claims .pipe v := by
      obtain ⟨writable, opened⟩ := claims
      exact ⟨writable, files ▸ opened⟩
    rw [files, same v before]
    exact piped.flags v before writable

/-- The ledger is right, and processes and pipes agree with it. -/
structure Balanced (layout : Layout) (s : Vm) (free : List Nat) : Prop where
  ledger : PageLedger layout s free
  housed : ∀ p, s.Live p → Housed s p
  piped : Piped s

namespace Balanced

/-- Only memory, the free list and the tables matter. -/
theorem congr (balanced : Balanced layout s free) (words : t.mem = s.mem)
    (freelist : t.freelist = s.freelist)
    (kpgdir : t.kpgdir = s.kpgdir) (proc : t.proc = s.proc) (files : t.files = s.files) :
    Balanced layout t free := by
  have ledger := balanced.ledger
  have claims (c : Claim) (v : Nat) : t.Claims c v ↔ s.Claims c v := by
    match c with
    | .dir .kernel => rw [Vm.Claims, kpgdir, Vm.Claims]
    | .dir (.proc p) | .stack p => simp only [Vm.Claims, Vm.Live, proc]
    | .pipe => simp only [Vm.Claims, files]
  have under (c : Claim) (v x : Nat) : t.Under c v x ↔ s.Under c v x :=
    under_congr fun x _ => by rw [words]
  constructor
  case ledger =>
    refine ⟨ledger.list.congr words freelist, fun c v now => ?_, ?_⟩
    · exact (ledger.held c v ((claims c v).mp now)).congr words freelist
    · intro c v c' v' x now now' mine mine'
      rw [claims] at now now'
      rw [under] at mine mine'
      exact ledger.apart c v c' v' x now now' mine mine'
  case housed =>
    intro p live
    rw [Vm.Live, proc] at live
    exact (balanced.housed p live).congr (by rw [proc]) fun x inside =>
      Vm.pte_congr (by rw [words]) (fun _ _ _ _ => by rw [words]) inside
  case piped => exact balanced.piped.congr files fun v _ => by rw [words]

variable (balanced : Balanced layout s free)

include balanced

/-- Closing the books of a process. Its slot may have changed, with a new page directory or kernel
stack from the books; the other slots say what they did. -/
theorem close (shifts : Shifts layout s b t b') (kpgdir : t.kpgdir = s.kpgdir)
    (files : t.files = s.files)
    (others : ∀ p, p ≠ q → t.Live p → (t.proc p).memory = (s.proc p).memory)
    (outside : ∀ c v, s.Claims c v → c ≠ .dir (.proc q) → c ≠ .stack q → Outside s b c v)
    (mine : t.Live q → Housed t q ∧
      (b'.root = some (t.proc q).pgdir ∨ s.Claims (.dir (.proc q)) (t.proc q).pgdir ∧
        Outside s b (.dir (.proc q)) (t.proc q).pgdir) ∧
      ((t.proc q).kstack ∈ b'.hand ∨ s.Claims (.stack q) (t.proc q).kstack ∧
        Outside s b (.stack q) (t.proc q).kstack)) : Balanced layout t b'.free := by
  have live {p : Fin nProc} (other : p ≠ q) (live : t.Live p) : s.Live p := by
    have state : (t.proc p).state = (s.proc p).state := congrArg (·.1) (others p other live)
    rwa [Vm.Live, Proc.Live, state] at live
  constructor
  case ledger =>
    apply balanced.ledger.close shifts fun c => c = .dir (.proc q) ∨ c = .stack q
    · rintro _ _ (rfl | rfl) (rfl | rfl) kind <;> first | rfl | cases kind
    · intro c v
      have kept (before : s.Claims c v) (dir : c ≠ .dir (.proc q)) (stack : c ≠ .stack q) :
          Settled s b b' (fun c => c = .dir (.proc q) ∨ c = .stack q) c v :=
        .inl ⟨before, outside c v before dir stack⟩
      match c with
      | .dir .kernel =>
        rw [Vm.Claims, kpgdir]
        exact fun claims => kept claims nofun nofun
      | .pipe =>
        rw [Vm.Claims, files]
        exact fun claims => kept claims nofun nofun
      | .dir (.proc p) =>
        rintro ⟨alive, rfl⟩
        by_cases here : p = q
        · subst here
          exact (mine alive).2.1.symm.imp_right fun root => ⟨.inl rfl, root⟩
        · have same : (t.proc p).pgdir = (s.proc p).pgdir :=
            congrArg (·.2.2.1) (others p here alive)
          exact kept ⟨live here alive, same⟩ (by simpa using here) nofun
      | .stack p =>
        rintro ⟨alive, rfl⟩
        by_cases here : p = q
        · subst here
          exact (mine alive).2.2.symm.imp_right fun held => ⟨.inr rfl, held⟩
        · have same : (t.proc p).kstack = (s.proc p).kstack :=
            congrArg (·.2.2.2) (others p here alive)
          exact kept ⟨live here alive, same⟩ nofun (by simpa using here)
  case housed =>
    intro p alive
    by_cases here : p = q
    · subst here
      exact (mine alive).1
    · have before := live here alive
      refine (balanced.housed p before).congr (others p here alive) fun x => pte_under (.proc p) ?_
      intro y under
      exact shifts.outside y (outside _ _ before.dir (by simpa using here) nofun y under)
  case piped =>
    apply balanced.piped.congr files
    intro v claims
    exact shifts.outside v (outside .pipe v claims nofun nofun v ((under_page rfl).mpr rfl))

/-- Closing books in which nothing is claimed. -/
theorem aside (shifts : Shifts layout s b t b') (kpgdir : t.kpgdir = s.kpgdir)
    (files : t.files = s.files) (same : ∀ p, t.Live p → (t.proc p).memory = (s.proc p).memory)
    (outside : ∀ c v, s.Claims c v → Outside s b c v) : Balanced layout t b'.free := by
  let p : Fin nProc := ⟨0, by decide⟩
  refine balanced.close (q := p) shifts kpgdir files (fun p _ => same p)
    (fun c v claims _ _ => outside c v claims) fun live => ?_
  have same := same p live
  obtain ⟨state, sz, pgdir, kstack⟩ := by simpa only [Proc.memory, Prod.mk.injEq] using same
  have before : s.Live p := by rwa [Vm.Live, Proc.Live, state] at live
  have dir : s.Claims (.dir (.proc p)) (t.proc p).pgdir := ⟨before, pgdir⟩
  have stack : s.Claims (.stack p) (t.proc p).kstack := ⟨before, kstack⟩
  refine ⟨(balanced.housed p before).congr same fun x => pte_under (.proc p) ?_,
    .inr ⟨dir, outside _ _ dir⟩, .inr ⟨stack, outside _ _ stack⟩⟩
  exact fun y under => shifts.outside y (outside _ _ before.dir y under)

end Balanced

end Xv6
