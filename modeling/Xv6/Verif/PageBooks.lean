import Xv6.Spec.AddressSpace
import Xv6.Verif.PageEntries

/-!
# Books about pages

Where the pages of the allocator are while one address space changes: on the free list, in the hands
of the running code, or in the tree under a page directory. A step moves a page from one place to
another, and all other memory stays.
-/

namespace Xv6

open Lib Function

variable {layout : Layout} {s t u : Vm}

/-! ## Entries -/

/-- Where an entry leads. -/
def leadsTo (w : Nat) : Option Nat := if Present w then some (p2v (pteAddr w)) else none

/-- The state with one word of a page stored. -/
def Vm.poke (s : Vm) (v i w : Nat) : Vm :=
  { s with mem := update s.mem v (update (s.mem v) i w) }

variable {v pd k : Nat} {b : Books} {rest : List Nat}

/-- Entries depend on the page they are in. -/
theorem Vm.next_congr (same : t.mem v = s.mem v) (i : Nat) : t.next v i = s.next v i := by
  rw [Vm.next, same, Vm.next]

/-- A store to a page changes one entry of it. -/
theorem Vm.next_poke (v i w x j : Nat) :
    (s.poke v i w).next x j = if x = v ∧ j = i then leadsTo w else s.next x j := by
  by_cases page : x = v
  · subst page
    have words : (s.poke x i w).mem x = update (s.mem x) i w := update_self ..
    by_cases word : j = i
    · rw [if_pos ⟨rfl, word⟩, Vm.next, words, word, update_self, leadsTo]
    · rw [if_neg (fun both => word both.2), Vm.next, words, update_of_ne word, Vm.next]
  · rw [if_neg (fun both => page both.1)]
    exact Vm.next_congr (update_of_ne page _ _) j

/-! ## The parts of an address space -/

/-- A part of an address space. -/
inductive Node where
  /-- The page directory. -/
  | dir
  /-- The page table at an entry of the page directory. -/
  | table (i : Nat)
  /-- The user page with a number. -/
  | user (k : Nat)
  deriving DecidableEq

/-- The page of a part, if there is a page directory. -/
def Vm.node (s : Vm) (root : Option Nat) : Node → Option Nat
  | .dir => root
  | .table i => if i < npdEntries then root.bind fun pd => s.next pd i else none
  | .user k => if k < userPages then root.bind fun pd => s.leaf pd k else none

/-- A page table is a part. -/
theorem Vm.node_table {i pt : Nat} (inside : i < npdEntries) (found : pt ∈ s.next pd i) :
    pt ∈ s.node (some pd) (.table i) := by
  rw [Vm.node, if_pos inside]
  exact found

/-- So is a user page. -/
theorem Vm.node_user_eq (inside : k < userPages) : s.node (some pd) (.user k) = s.leaf pd k := by
  rw [Vm.node, if_pos inside, Option.bind_some]

/-- The page tables of a page directory. -/
def Vm.pageTables (s : Vm) (pd : Nat) : List Nat :=
  (List.range npdEntries).filterMap fun i => s.node (some pd) (.table i)

/-- A page number has its page directory entry among the 1024. -/
theorem div_lt (inside : k < allPages) : k / npdEntries < npdEntries := by
  simp only [allPages, npdEntries, pgSize] at *
  omega

/-- User pages are among all pages. -/
theorem user_lt (inside : k < userPages) : k < allPages :=
  inside.trans (by decide)

/-- An entry that is present leads to a page. -/
theorem leadsTo_eq (w : Nat) : leadsTo w = (presentPte w).map fun w => p2v (pteAddr w) := by
  unfold leadsTo presentPte
  split <;> rfl

/-- The page at an entry. -/
theorem Vm.leaf_eq (s : Vm) (pd k : Nat) :
    s.leaf pd k = (s.pte pd k).map fun w => p2v (pteAddr w) := by
  unfold Vm.leaf Vm.pte
  rw [Option.map_bind]
  congr 1
  funext pt
  exact leadsTo_eq _

/-- Pages with the same entry are the same. -/
theorem Vm.leaf_of_pte (same : t.pte pd k = s.pte pd k) : t.leaf pd k = s.leaf pd k := by
  rw [Vm.leaf_eq, same, Vm.leaf_eq]

/-- Entries depend on the page directory and the page tables. -/
theorem Vm.pte_congr (dir : t.mem pd = s.mem pd)
    (tables : ∀ i pt, i < npdEntries → pt ∈ s.next pd i → t.mem pt = s.mem pt)
    (inside : k < allPages) : t.pte pd k = s.pte pd k := by
  have low := div_lt inside
  unfold Vm.pte
  rw [Vm.next_congr dir]
  cases table : s.next pd (k / npdEntries) with
  | none => rw [Option.bind_none, Option.bind_none]
  | some pt => rw [Option.bind_some, Option.bind_some, tables _ pt low table]

/-- The parts depend on the page directory and the page tables. -/
theorem Vm.node_congr {root : Option Nat} (dir : ∀ pd ∈ root, t.mem pd = s.mem pd)
    (tables : ∀ i pt, pt ∈ s.node root (.table i) → t.mem pt = s.mem pt) :
    t.node root = s.node root := by
  funext node
  cases root with
  | none => cases node <;> simp only [Vm.node, Option.bind_none]
  | some pd =>
    have dir := dir pd rfl
    cases node with
    | dir => rfl
    | table i => simp only [Vm.node, Option.bind_some, Vm.next_congr dir]
    | user k =>
      simp only [Vm.node, Option.bind_some]
      split
      · rename_i inside
        apply Vm.leaf_of_pte
        apply Vm.pte_congr dir _ (user_lt inside)
        exact fun i pt low found => tables i pt (Vm.node_table low found)
      · rfl

/-! ## Books -/

/-- Where pages are. -/
structure Books where
  root : Option Nat
  free : List Nat
  hand : List Nat

/-- The pages outside the address space. -/
def Books.loose (b : Books) : List Nat := b.free ++ b.hand

/-- The first free page is outside the address space. -/
theorem Books.loose_of_free (first : b.free = v :: rest) : v ∈ b.loose := by
  rw [loose, first]
  exact .head _

/-- The first page in hand before the others. -/
theorem Books.loose_perm (held : b.hand = v :: rest) : b.loose.Perm (v :: (b.free ++ rest)) := by
  rw [loose, held]
  exact List.perm_middle

/-- So is the first page in hand. -/
theorem Books.loose_of_hand (held : b.hand = v :: rest) : v ∈ b.loose :=
  (loose_perm held).mem_iff.mpr (.head _)

/-- The books have a page. -/
def Books.Has (b : Books) (s : Vm) (v : Nat) : Prop :=
  v ∈ b.loose ∨ ∃ node, v ∈ s.node b.root node

/-- The books are right: every page is in one place. -/
structure Audited (layout : Layout) (s : Vm) (b : Books) : Prop where
  list : FreeList s.mem s.freelist b.free
  once : b.loose.Nodup
  isPage : ∀ v, b.Has s v → IsPage layout v
  /-- The address space is apart from the other pages. -/
  apart : ∀ node v, v ∈ s.node b.root node → v ∉ b.loose
  alone : ∀ node node' v, v ∈ s.node b.root node → v ∈ s.node b.root node' → node = node'

/-- What the changes of processes leave. -/
def Vm.names (s : Vm) : Nat × Option (Fin nProc) × List (Nat × Bool) :=
  (s.kpgdir, s.initproc, s.files)

/-- What the changes of an address space leave. -/
def Vm.tables (s : Vm) : (Fin nProc → Proc) × Nat × Option (Fin nProc) × List (Nat × Bool) :=
  (s.proc, s.names)

/-- Pages move, and no other page changes. -/
structure Shifts (layout : Layout) (s : Vm) (b : Books) (t : Vm) (b' : Books) : Prop where
  audited : Audited layout t b'
  has : ∀ v, b'.Has t v ↔ b.Has s v
  /-- The pages outside the books keep their contents. -/
  outside : ∀ v, ¬b.Has s v → t.mem v = s.mem v

/-- Two moves in a row. -/
theorem Shifts.trans {b' b'' : Books} (first : Shifts layout s b t b')
    (second : Shifts layout t b' u b'') : Shifts layout s b u b'' := by
  constructor
  case audited => exact second.audited
  case has => exact fun v => (second.has v).trans (first.has v)
  case outside =>
    intro v out
    rw [second.outside v (fun has => out ((first.has v).mp has)), first.outside v out]

/-- Pages move, and nothing else changes. -/
structure Moves (layout : Layout) (s : Vm) (b : Books) (t : Vm) (b' : Books) : Prop
    extends Shifts layout s b t b' where
  tables : t.tables = s.tables

namespace Moves

variable {b b' b'' : Books}

/-- Nothing moves. -/
theorem refl (audited : Audited layout s b) : Moves layout s b s b :=
  ⟨⟨audited, fun _ => Iff.rfl, fun _ _ => rfl⟩, rfl⟩

/-- Two moves in a row. -/
theorem trans (first : Moves layout s b t b') (second : Moves layout t b' u b'') :
    Moves layout s b u b'' :=
  ⟨first.toShifts.trans second.toShifts, second.tables.trans first.tables⟩

/-- The process table is one of the tables. -/
theorem proc (moves : Moves layout s b t b') : t.proc = s.proc :=
  congrArg (·.1) moves.tables

/-- So are the others. -/
theorem names (moves : Moves layout s b t b') : t.names = s.names :=
  congrArg (·.2) moves.tables

end Moves

/-! ## Moving a page -/

namespace Moves

variable {b b' : Books}

/-- Pages outside the address space are shuffled. -/
theorem shuffle (audited : Audited layout s b) (node : t.node b'.root = s.node b.root)
    (perm : b'.loose.Perm b.loose) (list : FreeList t.mem t.freelist b'.free)
    (outside : ∀ v, ¬b.Has s v → t.mem v = s.mem v) (tables : t.tables = s.tables) :
    Moves layout s b t b' := by
  have has (v : Nat) : b'.Has t v ↔ b.Has s v := by
    unfold Books.Has
    rw [node, perm.mem_iff]
  refine ⟨⟨?_, has, outside⟩, tables⟩
  constructor
  case list => exact list
  case once => exact perm.nodup_iff.mpr audited.once
  case isPage => exact fun v mine => audited.isPage v ((has v).mp mine)
  case apart =>
    intro n v part loose
    rw [node] at part
    exact audited.apart n v part (perm.mem_iff.mp loose)
  case alone =>
    rw [node]
    exact audited.alone

variable {n : Node} {v : Nat}

/-- A page becomes a part of the address space. -/
theorem join (audited : Audited layout s b) (empty : s.node b.root n = none)
    (node : t.node b'.root = update (s.node b.root) n (some v))
    (perm : b.loose.Perm (v :: b'.loose)) (list : FreeList t.mem t.freelist b'.free)
    (outside : ∀ v, ¬b.Has s v → t.mem v = s.mem v) (tables : t.tables = s.tables) :
    Moves layout s b t b' := by
  have split (m : Node) (x : Nat) :
      x ∈ t.node b'.root m ↔ (m = n ∧ x = v) ∨ (m ≠ n ∧ x ∈ s.node b.root m) := by
    rw [node]
    by_cases here : m = n
    · subst here
      rw [update_self]
      simp [eq_comm]
    · rw [update_of_ne here]
      simp [here]
  have has (x : Nat) : b'.Has t x ↔ b.Has s x := by
    unfold Books.Has
    rw [perm.mem_iff, List.mem_cons]
    constructor
    · rintro (loose | ⟨m, part⟩)
      · exact .inl (.inr loose)
      · rcases (split m x).mp part with ⟨-, rfl⟩ | ⟨-, part⟩
        · exact .inl (.inl rfl)
        · exact .inr ⟨m, part⟩
    · rintro ((rfl | loose) | ⟨m, part⟩)
      · exact .inr ⟨n, (split n x).mpr (.inl ⟨rfl, rfl⟩)⟩
      · exact .inl loose
      · refine .inr ⟨m, (split m x).mpr (.inr ⟨?_, part⟩)⟩
        rintro rfl
        rw [empty] at part
        cases part
  have nodup := perm.nodup_iff.mp audited.once
  have fresh : ∀ m, v ∉ s.node b.root m := fun m part =>
    audited.apart m v part (perm.mem_iff.mpr (.head _))
  refine ⟨⟨?_, has, outside⟩, tables⟩
  constructor
  case list => exact list
  case once => exact (List.nodup_cons.mp nodup).2
  case isPage => exact fun x mine => audited.isPage x ((has x).mp mine)
  case apart =>
    intro m x part loose
    rcases (split m x).mp part with ⟨-, rfl⟩ | ⟨-, part⟩
    · exact (List.nodup_cons.mp nodup).1 loose
    · exact audited.apart m x part (perm.mem_iff.mpr (.tail _ loose))
  case alone =>
    intro m m' x part part'
    rcases (split m x).mp part with ⟨rfl, rfl⟩ | ⟨-, part⟩
    · rcases (split m' x).mp part' with ⟨rfl, -⟩ | ⟨-, part'⟩
      · rfl
      · exact absurd part' (fresh m')
    · rcases (split m' x).mp part' with ⟨-, rfl⟩ | ⟨-, part'⟩
      · exact absurd part (fresh m)
      · exact audited.alone m m' x part part'

/-- A page is no part of the address space any more. -/
theorem leave (audited : Audited layout s b) (there : v ∈ s.node b.root n)
    (node : t.node b'.root = update (s.node b.root) n none) (perm : b'.loose.Perm (v :: b.loose))
    (list : FreeList t.mem t.freelist b'.free) (outside : ∀ v, ¬b.Has s v → t.mem v = s.mem v)
    (tables : t.tables = s.tables) : Moves layout s b t b' := by
  have split (m : Node) (x : Nat) : x ∈ t.node b'.root m ↔ m ≠ n ∧ x ∈ s.node b.root m := by
    rw [node]
    by_cases here : m = n
    · subst here
      rw [update_self]
      simp
    · rw [update_of_ne here]
      simp [here]
  have has (x : Nat) : b'.Has t x ↔ b.Has s x := by
    unfold Books.Has
    rw [perm.mem_iff, List.mem_cons]
    constructor
    · rintro ((rfl | loose) | ⟨m, part⟩)
      · exact .inr ⟨n, there⟩
      · exact .inl loose
      · exact .inr ⟨m, ((split m x).mp part).2⟩
    · rintro (loose | ⟨m, part⟩)
      · exact .inl (.inr loose)
      · by_cases here : m = n
        · subst here
          exact .inl (.inl (Option.mem_unique part there))
        · exact .inr ⟨m, (split m x).mpr ⟨here, part⟩⟩
  refine ⟨⟨?_, has, outside⟩, tables⟩
  constructor
  case list => exact list
  case once =>
    exact perm.nodup_iff.mpr (List.nodup_cons.mpr ⟨audited.apart n v there, audited.once⟩)
  case isPage => exact fun x mine => audited.isPage x ((has x).mp mine)
  case apart =>
    intro m x part loose
    obtain ⟨other, part⟩ := (split m x).mp part
    rcases List.mem_cons.mp (perm.mem_iff.mp loose) with rfl | loose
    · exact other (audited.alone m n x part there)
    · exact audited.apart m x part loose
  case alone =>
    intro m m' x part part'
    exact audited.alone m m' x ((split m x).mp part).2 ((split m' x).mp part').2

end Moves

namespace Audited

variable {b : Books}

variable {v pd k : Nat}

/-- A page outside the address space is no page directory and no page table. -/
theorem node_same (audited : Audited layout s b) (loose : v ∈ b.loose)
    (others : ∀ x, x ≠ v → t.mem x = s.mem x) : t.node b.root = s.node b.root := by
  have other {n : Node} {x : Nat} (part : x ∈ s.node b.root n) : x ≠ v := by
    rintro rfl
    exact audited.apart n x part loose
  apply Vm.node_congr
  · exact fun pd root => others pd (other (n := .dir) root)
  · exact fun i pt table => others pt (other table)

variable (audited : Audited layout s b) (root : b.root = some pd) (loose : v ∈ b.loose)
  (others : ∀ x, x ≠ v → t.mem x = s.mem x)

include audited root loose others

/-- So the entries stay when it changes. -/
theorem pte_same (inside : k < allPages) : t.pte pd k = s.pte pd k := by
  have other {n : Node} {x : Nat} (part : x ∈ s.node b.root n) : x ≠ v := by
    rintro rfl
    exact audited.apart n x part loose
  apply Vm.pte_congr (others pd (other (n := .dir) root)) _ inside
  intro i pt low found
  apply others pt (other (n := .table i) _)
  rw [root]
  exact Vm.node_table low found

/-- A page outside the address space is no user page either. -/
theorem page_same (inside : k < userPages) : t.page pd k = s.page pd k := by
  have node := audited.node_same loose others
  have leaf : t.leaf pd k = s.leaf pd k := by
    have user := congrFun node (.user k)
    rwa [root, Vm.node_user_eq inside, Vm.node_user_eq inside] at user
  unfold Vm.page
  rw [leaf]
  cases found : s.leaf pd k with
  | none => rw [Option.map_none, Option.map_none]
  | some x =>
    rw [Option.map_some, Option.map_some, others x]
    rintro rfl
    apply audited.apart (.user k) x _ loose
    rw [root, Vm.node_user_eq inside]
    exact found

end Audited

/-! ## Entries of an audited address space -/

namespace Audited

variable {b : Books} {pd : Nat}

variable {v i pt k w j : Nat}

section

variable (audited : Audited layout s b) (root : b.root = some pd)

include audited root

/-- A page outside the address space is not the page directory. -/
theorem loose_ne_dir (loose : v ∈ b.loose) : v ≠ pd := by
  rintro rfl
  exact audited.apart .dir v root loose

/-- A page table is not the page directory. -/
theorem table_ne_dir (inside : i < npdEntries) (found : pt ∈ s.next pd i) : pt ≠ pd := by
  rintro rfl
  have part : pt ∈ s.node b.root (.table i) := by
    rw [root]
    exact Vm.node_table inside found
  cases audited.alone .dir _ pt root part

/-- The page directory entries have different page tables. -/
theorem table_inj {i' : Nat} (inside : i < npdEntries) (found : pt ∈ s.next pd i)
    (inside' : i' < npdEntries) (found' : pt ∈ s.next pd i') : i = i' := by
  have part := Vm.node_table inside found
  have part' := Vm.node_table inside' found'
  rw [← root] at part part'
  cases audited.alone _ _ pt part part'
  rfl

end

/-- A user page is a part. -/
theorem node_user (root : b.root = some pd) (inside : k < userPages) (found : v ∈ s.leaf pd k) :
    v ∈ s.node b.root (.user k) := by
  rw [root, Vm.node_user_eq inside]
  exact found

variable (audited : Audited layout s b) (root : b.root = some pd)

include audited root

/-- A new page table that is blank adds no entry. -/
theorem pte_link
    (empty : s.next pd i = none) (blank : ∀ j, s.next v j = none) (leads : leadsTo w = some v)
    (other : v ≠ pd) (inside : k < allPages) : (s.poke pd i w).pte pd k = s.pte pd k := by
  have low := div_lt inside
  have words (x : Nat) (apart : x ≠ pd) : (s.poke pd i w).mem x = s.mem x :=
    update_of_ne apart _ _
  unfold Vm.pte
  rw [Vm.next_poke]
  by_cases here : k / npdEntries = i
  · have absent : ¬Present (s.mem v (k % npdEntries)) := by
      intro present
      have none := blank (k % npdEntries)
      rw [Vm.next, if_pos present] at none
      cases none
    rw [if_pos ⟨rfl, here⟩, here, empty, leads, Option.bind_some, Option.bind_none, words v other,
      presentPte, if_neg absent]
  · rw [if_neg fun both => here both.2]
    cases found : s.next pd (k / npdEntries) with
    | none => rw [Option.bind_none, Option.bind_none]
    | some pt =>
      have apart := audited.table_ne_dir root low found
      rw [Option.bind_some, Option.bind_some, words pt apart]

/-- A store to a page table leaves the page directory. -/
theorem next_poke_table (inside : i < npdEntries) (found : pt ∈ s.next pd i) (i' : Nat) :
    (s.poke pt j w).next pd i' = s.next pd i' := by
  have apart := audited.table_ne_dir root inside found
  rw [Vm.next_poke, if_neg fun both => apart both.1.symm]

/-- A store to a page table changes one entry. -/
theorem pte_poke_table (inside : i < npdEntries) (found : pt ∈ s.next pd i) (low : j < npdEntries)
    (page : k < allPages) :
    (s.poke pt j w).pte pd k = if k = i * npdEntries + j then presentPte w else s.pte pd k := by
  have entry := div_lt page
  unfold Vm.pte
  rw [audited.next_poke_table root inside found]
  have split : k = i * npdEntries + j ↔ k / npdEntries = i ∧ k % npdEntries = j := by
    simp only [npdEntries] at *
    omega
  cases table : s.next pd (k / npdEntries) with
  | none =>
    rw [Option.bind_none, if_neg, Option.bind_none]
    intro here
    rw [(split.mp here).1, found] at table
    cases table
  | some pt' =>
    rw [Option.bind_some, Option.bind_some]
    by_cases here : k / npdEntries = i
    · have same : pt' = pt := by
        rw [here] at table
        exact Option.mem_unique table found
      subst same
      have words : (s.poke pt' j w).mem pt' = update (s.mem pt') j w :=
        update_self ..
      rw [words]
      by_cases word : k % npdEntries = j
      · rw [if_pos (split.mpr ⟨here, word⟩), word, update_self]
      · rw [if_neg fun both => word (split.mp both).2, update_of_ne word]
    · have apart : pt' ≠ pt := by
        rintro rfl
        exact here (audited.table_inj root entry table inside found)
      have words : (s.poke pt j w).mem pt' = s.mem pt' := update_of_ne apart _ _
      rw [words, if_neg fun both => here (split.mp both).1]

/-- The page at that entry. -/
theorem leaf_poke_table (inside : i < npdEntries) (found : pt ∈ s.next pd i) (low : j < npdEntries)
    (page : k < allPages) :
    (s.poke pt j w).leaf pd k = if k = i * npdEntries + j then leadsTo w else s.leaf pd k := by
  rw [Vm.leaf_eq, audited.pte_poke_table root inside found low page, leadsTo_eq, Vm.leaf_eq]
  split <;> rfl

/-- A store to the page directory or a page table leaves the contents of the user pages. -/
theorem page_poke {n : Node}
    (part : v ∈ s.node b.root n) (table : ∀ k, n ≠ .user k) (inside : k < userPages)
    (same : (s.poke v i w).leaf pd k = s.leaf pd k) : (s.poke v i w).page pd k = s.page pd k := by
  unfold Vm.page
  rw [same]
  cases found : s.leaf pd k with
  | none => rw [Option.map_none, Option.map_none]
  | some x =>
    have apart : x ≠ v := by
      rintro rfl
      exact table k (audited.alone n (.user k) x part (node_user root inside found))
    have words : (s.poke v i w).mem x = s.mem x := update_of_ne apart _ _
    rw [Option.map_some, Option.map_some, words]

end Audited

/-! ## Steps -/

namespace Moves

variable {b : Books}

variable {rest : List Nat} {v i w pt j : Nat} {n : Node}

section

variable (audited : Audited layout s b)

include audited

/-- The first page of the free list is taken. -/
theorem pop {r : Nat} (first : b.free = r :: rest) (refusals : List Bool) :
    Moves layout s b { s with freelist := s.mem r 0, refusals := refusals }
      { b with free := rest, hand := r :: b.hand } := by
  have list := audited.list
  rw [first] at list
  have linked : FreeList s.mem (s.mem r 0) rest := by
    generalize s.freelist = head at list
    cases list with
    | cons page linked => exact linked
  have perm : (rest ++ r :: b.hand).Perm b.loose := by
    rw [Books.loose, first]
    exact List.perm_middle
  exact shuffle audited (Vm.node_congr (fun _ _ => rfl) fun _ _ _ => rfl) perm linked
    (fun _ _ => rfl) rfl

/-- A page outside the address space and off the free list changes its contents. -/
theorem fill (held : v ∈ b.hand) (page : Page) :
    Moves layout s b { s with mem := update s.mem v page } b := by
  have others (x : Nat) (other : x ≠ v) : update s.mem v page x = s.mem x :=
    update_of_ne other _ _
  have loose : v ∈ b.loose := List.mem_append_right _ held
  have list : FreeList (update s.mem v page) s.freelist b.free := by
    apply audited.list.congr
    intro x free
    rw [others x]
    rintro rfl
    exact (List.nodup_append.mp audited.once).2.2 x free x held rfl
  refine shuffle audited (audited.node_same loose others) (.refl _) list ?_ rfl
  intro x out
  apply others
  rintro rfl
  exact out (.inl loose)

/-- A page in hand is put on the free list. -/
theorem push (held : b.hand = v :: rest) {words : Page} (linked : words 0 = s.freelist) :
    Moves layout s b { s with mem := update s.mem v words, freelist := v }
      { b with free := v :: b.free, hand := rest } := by
  have others (x : Nat) (other : x ≠ v) : update s.mem v words x = s.mem x :=
    update_of_ne other _ _
  have perm : (v :: b.free ++ rest).Perm b.loose := (b.loose_perm held).symm
  have loose : v ∈ b.loose := perm.mem_iff.mp (.head _)
  have fresh : v ∉ b.free := by
    have once := perm.nodup_iff.mpr audited.once
    exact fun free => (List.nodup_cons.mp once).1 (List.mem_append_left _ free)
  have list : FreeList (update s.mem v words) v (v :: b.free) := by
    apply FreeList.cons (audited.isPage v (.inl loose)).ne_zero
    rw [update_self, linked]
    apply audited.list.congr
    intro x free
    rw [others x]
    rintro rfl
    exact fresh free
  refine shuffle audited (audited.node_same loose others) perm list ?_ rfl
  intro x out
  apply others
  rintro rfl
  exact out (.inl loose)

/-- The pages in hand are taken in another order. -/
theorem reorder {hand : List Nat} (perm : hand.Perm b.hand) :
    Moves layout s b s { b with hand := hand } :=
  shuffle audited rfl (perm.append_left _) audited.list (fun _ _ => rfl) rfl

/-- A page in hand becomes a page directory. -/
theorem plant (rootless : b.root = none) {pd : Nat}
    (held : b.hand = pd :: rest) (blank : ∀ i, s.next pd i = none) :
    Moves layout s b s { b with root := some pd, hand := rest } := by
  have node : s.node (some pd) = update (s.node b.root) .dir (some pd) := by
    funext n
    rw [rootless]
    cases n with
    | dir => rfl
    | table i => simp [Vm.node, blank]
    | user k => simp [Vm.node, Vm.leaf, blank]
  exact join (n := .dir) audited rootless node (b.loose_perm held) audited.list (fun _ _ => rfl) rfl

/-- An address space without user pages is taken apart. -/
theorem uproot {pd : Nat} (root : b.root = some pd)
    (empty : ∀ k, k < userPages → s.leaf pd k = none) :
    Moves layout s b s { b with root := none, hand := pd :: (s.pageTables pd ++ b.hand) } := by
  have dir : pd ∈ s.node b.root .dir := root
  have table (v : Nat) : v ∈ s.pageTables pd ↔ ∃ i, v ∈ s.node b.root (.table i) := by
    rw [Vm.pageTables, List.mem_filterMap, root]
    constructor
    · rintro ⟨i, -, found⟩
      exact ⟨i, found⟩
    · rintro ⟨i, found⟩
      refine ⟨i, List.mem_range.mpr ?_, found⟩
      by_contra outside
      rw [Vm.node, if_neg outside] at found
      cases found
  have parts (v : Nat) : (∃ node, v ∈ s.node b.root node) ↔ v = pd ∨ v ∈ s.pageTables pd := by
    constructor
    · rintro ⟨node, part⟩
      cases node with
      | dir => exact .inl (Option.mem_unique part dir)
      | table i => exact .inr ((table v).mpr ⟨i, part⟩)
      | user k =>
        rw [root, Vm.node] at part
        split at part
        · rename_i inside
          rw [Option.bind_some, empty k inside] at part
          cases part
        · cases part
    · rintro (rfl | found)
      · exact ⟨.dir, dir⟩
      · obtain ⟨i, part⟩ := (table v).mp found
        exact ⟨.table i, part⟩
  have perm : (b.free ++ pd :: (s.pageTables pd ++ b.hand)).Perm
      (pd :: s.pageTables pd ++ b.loose) := by
    rw [Books.loose]
    exact List.perm_append_comm_assoc b.free (pd :: s.pageTables pd) b.hand
  have has (v : Nat) : ({ b with root := none, hand := pd :: (s.pageTables pd ++ b.hand) } :
      Books).Has s v ↔ b.Has s v := by
    have rootless (n : Node) : s.node none n = none := by
      cases n <;> simp [Vm.node]
    simp only [Books.Has, rootless, Option.not_mem_none, exists_false, or_false, parts]
    rw [Books.loose, perm.mem_iff]
    simp only [List.mem_append, List.mem_cons]
    exact or_comm
  refine ⟨⟨?_, has, fun _ _ => rfl⟩, rfl⟩
  constructor
  case list => exact audited.list
  case once =>
    refine perm.nodup_iff.mpr (List.nodup_append.mpr ⟨?_, audited.once, ?_⟩)
    · refine List.nodup_cons.mpr ⟨fun found => ?_, ?_⟩
      · obtain ⟨i, part⟩ := (table pd).mp found
        cases audited.alone _ _ pd dir part
      · refine List.Nodup.filterMap ?_ List.nodup_range
        intro i i' v found found'
        rw [← root] at found found'
        cases audited.alone _ _ v found found'
        rfl
    · rintro v member _ loose rfl
      have part := (parts v).mpr (List.mem_cons.mp member)
      obtain ⟨node, part⟩ := part
      exact audited.apart node v part loose
  case isPage => exact fun v mine => audited.isPage v ((has v).mp mine)
  case apart =>
    intro n v part
    cases n <;> simp [Vm.node] at part
  case alone =>
    intro n n' v part
    cases n <;> simp [Vm.node] at part

/-- The free list does not run through a part of the address space. -/
theorem list_poke {n : Node} {v i w : Nat}
    (part : v ∈ s.node b.root n) : FreeList (s.poke v i w).mem s.freelist b.free := by
  apply audited.list.congr
  intro x free
  have apart : x ≠ v := by
    rintro rfl
    exact audited.apart n x part (List.mem_append_left _ free)
  have words : (s.poke v i w).mem x = s.mem x := update_of_ne apart _ _
  rw [words]

end

/-- A store to a part of the address space leaves the pages outside the books. -/
theorem outside_poke (part : v ∈ s.node b.root n) (x : Nat) (out : ¬b.Has s x) :
    (s.poke v i w).mem x = s.mem x := by
  apply update_of_ne
  rintro rfl
  exact out (.inr ⟨n, part⟩)

variable {pd : Nat}

/-- A blank page in hand becomes a page table. -/
theorem link (audited : Audited layout s b) (root : b.root = some pd) (held : b.hand = v :: rest)
    (inside : i < npdEntries) (empty : s.next pd i = none) (blank : ∀ j, s.next v j = none)
    (leads : leadsTo w = some v) : Moves layout s b (s.poke pd i w) { b with hand := rest } := by
  have dir : pd ∈ s.node b.root .dir := root
  have other := audited.loose_ne_dir root (b.loose_of_hand held)
  have node : (s.poke pd i w).node b.root =
      update (s.node b.root) (.table i) (some v) := by
    rw [root]
    funext n
    cases n with
    | dir => rfl
    | table i' =>
      by_cases here : i' = i
      · rw [here, update_self, Vm.node, if_pos inside, Option.bind_some, Vm.next_poke,
          if_pos ⟨rfl, rfl⟩, leads]
      · rw [update_of_ne (by simpa using here)]
        simp only [Vm.node, Option.bind_some, Vm.next_poke, here, and_false, if_false]
    | user k =>
      rw [update_of_ne (by simp)]
      simp only [Vm.node, Option.bind_some]
      split
      · rename_i low
        exact Vm.leaf_of_pte (audited.pte_link root empty blank leads other (user_lt low))
      · rfl
  refine join audited (n := .table i) ?_ node (b.loose_perm held) (list_poke audited dir)
    (outside_poke dir) rfl
  rw [root, Vm.node, if_pos inside, Option.bind_some, empty]

/-- The parts after a store to a page table: only that of a user page may change. -/
theorem node_poke_table (audited : Audited layout s b) (root : b.root = some pd)
    (inside : i < npdEntries) (found : pt ∈ s.next pd i) (low : j < npdEntries) :
    (s.poke pt j w).node b.root =
      if i * npdEntries + j < userPages then
        update (s.node b.root) (.user (i * npdEntries + j)) (leadsTo w)
      else s.node b.root := by
  rw [root]
  have entries (k : Nat) (page : k < userPages) := audited.leaf_poke_table (w := w) root inside
    found low (user_lt page)
  have others (n : Node) (other : n ≠ .user (i * npdEntries + j)) :
      (s.poke pt j w).node (some pd) n = s.node (some pd) n := by
    cases n with
    | dir => rfl
    | table i' => simp only [Vm.node, Option.bind_some, audited.next_poke_table root inside found]
    | user k =>
      simp only [Vm.node, Option.bind_some]
      split
      · rename_i page
        rw [entries k page, if_neg (by simpa using other)]
      · rfl
  split
  · rename_i user
    funext n
    by_cases here : n = .user (i * npdEntries + j)
    · rw [here, update_self, Vm.node, if_pos user, Option.bind_some, entries _ user,
        if_pos rfl]
    · rw [update_of_ne here, others n here]
  · rename_i kernel
    funext n
    by_cases here : n = .user (i * npdEntries + j)
    · rw [here, Vm.node, if_neg kernel, Vm.node, if_neg kernel]
    · exact others n here

/-- A page table among the parts, with the page directory in the books. -/
theorem table_part (root : b.root = some pd) (inside : i < npdEntries) (found : pt ∈ s.next pd i) :
    pt ∈ s.node b.root (.table i) := by
  rw [root]
  exact Vm.node_table inside found

variable (audited : Audited layout s b) (root : b.root = some pd)

include audited root

/-- A page in hand is mapped for the user. -/
theorem map (held : b.hand = v :: rest)
    (inside : i < npdEntries) (found : pt ∈ s.next pd i) (low : j < npdEntries)
    (user : i * npdEntries + j < userPages) (empty : s.leaf pd (i * npdEntries + j) = none)
    (leads : leadsTo w = some v) : Moves layout s b (s.poke pt j w) { b with hand := rest } := by
  have part := table_part root inside found
  have node := node_poke_table (w := w) audited root inside found low
  rw [if_pos user, leads] at node
  refine join audited ?_ node (b.loose_perm held) (list_poke audited part) (outside_poke part) rfl
  rw [root, Vm.node, if_pos user, Option.bind_some, empty]

/-- The kernel's part of the address space has no pages of its own. -/
theorem guard (inside : i < npdEntries) (found : pt ∈ s.next pd i) (low : j < npdEntries)
    (kernel : userPages ≤ i * npdEntries + j) : Moves layout s b (s.poke pt j w) b := by
  have part := table_part root inside found
  have node := node_poke_table (w := w) audited root inside found low
  rw [if_neg (Nat.not_lt.mpr kernel)] at node
  exact shuffle audited node (.refl _) (list_poke audited part) (outside_poke part) rfl

/-- A user page comes to hand. -/
theorem unmap (inside : i < npdEntries) (found : pt ∈ s.next pd i) (low : j < npdEntries)
    (user : i * npdEntries + j < userPages) (there : v ∈ s.leaf pd (i * npdEntries + j)) :
    Moves layout s b (s.poke pt j 0) { b with hand := v :: b.hand } := by
  have part := table_part root inside found
  have node := node_poke_table (w := 0) audited root inside found low
  rw [if_pos user] at node
  exact leave audited (Audited.node_user root user there) node List.perm_middle
    (list_poke audited part) (outside_poke part) rfl

end Moves

/-! ## Stores to user pages -/

section

variable {b : Books}

variable {k v : Nat}

/-- A store to a user page leaves the parts of the address space. -/
theorem Audited.node_paint (audited : Audited layout s b) (part : v ∈ s.node b.root (.user k))
    (others : ∀ x, x ≠ v → t.mem x = s.mem x) : t.node b.root = s.node b.root := by
  apply Vm.node_congr
  · intro pd root
    apply others
    rintro rfl
    cases audited.alone .dir _ pd root part
  · intro i pt table
    apply others
    rintro rfl
    cases audited.alone _ _ pt table part

/-- A store to a user page moves nothing. -/
theorem Moves.paint (audited : Audited layout s b) (part : v ∈ s.node b.root (.user k))
    (page : Page) : Moves layout s b { s with mem := update s.mem v page } b := by
  have others (x : Nat) (other : x ≠ v) : update s.mem v page x = s.mem x :=
    update_of_ne other _ _
  have list : FreeList (update s.mem v page) s.freelist b.free := by
    apply audited.list.congr
    intro x free
    rw [others x]
    rintro rfl
    exact audited.apart _ x part (List.mem_append_left _ free)
  refine Moves.shuffle audited (audited.node_paint part others) (.refl _) list ?_ rfl
  intro x out
  apply others
  rintro rfl
  exact out (.inr ⟨_, part⟩)

end

/-! ## Opening books -/

/-- With nothing but the free list, the pages are those on it. -/
theorem Books.has_free (s : Vm) (free : List Nat) (v : Nat) :
    Books.Has ⟨none, free, []⟩ s v ↔ v ∈ free := by
  have rootless (n : Node) : s.node none n = none := by
    cases n <;> simp [Vm.node]
  unfold Books.Has
  simp [Books.loose, rootless]

section

variable {b : Books} {v : Nat} (audited : Audited layout s b)

include audited

/-- Only memory and the free list matter. -/
theorem Audited.congr (words : t.mem = s.mem)
    (freelist : t.freelist = s.freelist) : Audited layout t b := by
  have node : t.node b.root = s.node b.root :=
    Vm.node_congr (fun _ _ => by rw [words]) fun _ _ _ => by rw [words]
  constructor
  case list =>
    rw [words, freelist]
    exact audited.list
  case once => exact audited.once
  case isPage =>
    rintro v (loose | part)
    · exact audited.isPage v (.inl loose)
    · rw [node] at part
      exact audited.isPage v (.inr part)
  case apart =>
    rw [node]
    exact audited.apart
  case alone =>
    rw [node]
    exact audited.alone

/-- Books about fewer pages. -/
theorem Audited.forget {root : Option Nat} {hand : List Nat} (fewer : root = b.root ∨ root = none)
    (less : hand.Sublist b.hand) : Audited layout s ⟨root, b.free, hand⟩ := by
  have sub : (b.free ++ hand).Sublist b.loose := less.append_left b.free
  have part {n : Node} {v : Nat} (part : v ∈ s.node root n) : v ∈ s.node b.root n := by
    rcases fewer with rfl | rfl
    · exact part
    · cases n <;> simp [Vm.node] at part
  constructor
  case list => exact audited.list
  case once => exact sub.nodup audited.once
  case isPage =>
    rintro v (loose | ⟨n, mine⟩)
    · exact audited.isPage v (.inl (sub.subset loose))
    · exact audited.isPage v (.inr ⟨n, part mine⟩)
  case apart => exact fun n v mine loose => audited.apart n v (part mine) (sub.subset loose)
  case alone => exact fun n n' v mine mine' => audited.alone n n' v (part mine) (part mine')

/-- A page from elsewhere comes to hand. -/
theorem Audited.adopt (page : IsPage layout v) (new : ¬b.Has s v) :
    Audited layout s { b with hand := v :: b.hand } := by
  have perm : (b.free ++ v :: b.hand).Perm (v :: b.loose) := List.perm_middle
  constructor
  case list => exact audited.list
  case once =>
    exact perm.nodup_iff.mpr (List.nodup_cons.mpr ⟨fun loose => new (.inl loose), audited.once⟩)
  case isPage =>
    rintro x (loose | part)
    · rcases List.mem_cons.mp (perm.mem_iff.mp loose) with rfl | loose
      · exact page
      · exact audited.isPage x (.inl loose)
    · exact audited.isPage x (.inr part)
  case apart =>
    intro n x part loose
    rcases List.mem_cons.mp (perm.mem_iff.mp loose) with rfl | loose
    · exact new (.inr ⟨n, part⟩)
    · exact audited.apart n x part loose
  case alone => exact audited.alone

/-- The kernel's tables are no part of the books. -/
theorem Shifts.of_mem (words : t.mem = s.mem) (freelist : t.freelist = s.freelist) :
    Shifts layout s b t b := by
  have node : t.node b.root = s.node b.root :=
    Vm.node_congr (fun _ _ => by rw [words]) fun _ _ _ => by rw [words]
  refine ⟨audited.congr words freelist, fun v => ?_, fun _ _ => by rw [words]⟩
  unfold Books.Has
  rw [node]

/-- Another free list beside the same pages. -/
theorem Audited.refree {free : List Nat} (list : Audited layout t ⟨none, free, []⟩)
    (node : t.node b.root = s.node b.root) (hand : ∀ v ∈ b.hand, v ∉ free)
    (apart : ∀ node v, v ∈ s.node b.root node → v ∉ free) :
    Audited layout t { b with free := free } := by
  have page {v : Nat} (member : v ∈ free) : IsPage layout v :=
    list.isPage v (.inl (List.mem_append_left _ member))
  have loose {v : Nat} (member : v ∈ free ++ b.hand) : v ∈ free ∨ v ∈ b.hand :=
    List.mem_append.mp member
  have held {v : Nat} (member : v ∈ b.hand) : v ∈ b.loose := List.mem_append_right _ member
  constructor
  case list => exact list.list
  case once =>
    refine List.nodup_append.mpr ⟨?_, (List.nodup_append.mp audited.once).2.1, ?_⟩
    · exact (List.nodup_append.mp list.once).1
    · rintro v member _ held rfl
      exact hand v held member
  case isPage =>
    rintro v (member | part)
    · exact (loose member).elim page fun mine => audited.isPage v (.inl (held mine))
    · rw [node] at part
      exact audited.isPage v (.inr part)
  case apart =>
    intro n v part member
    rw [node] at part
    exact (loose member).elim (apart n v part) fun mine => audited.apart n v part (held mine)
  case alone =>
    rw [node]
    exact audited.alone

end

end Xv6
