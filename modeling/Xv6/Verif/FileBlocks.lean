import Xv6.Spec.FileArray
import Xv6.Verif.BlockAlloc

/-!
# Blocks for files

`bmap` takes a free block for a place of an inode that has none, and finds the block of a place that
has one. Blocks that no file refers to may be marked, so the marks only cover the blocks in use.
What a file holds already stays, and as long as there is a free block for every block that a file
still lacks, `balloc` does not run out.
-/

namespace Xv6

open Lib Function

/-! ## A volume whose marks cover its files -/

namespace Volume

variable {v v' : Volume} {sb : Superblock} {inum b n : Nat} {place : Place}

/-- The marks cover the metadata and the blocks of the files. -/
abbrev Covered (v : Volume) (sb : Superblock) : Prop :=
  Cover (v.Marked sb) (· < sb.dataStart) (v.Refers sb)

open Classical in
/-- The volume without the marks that have no use. -/
noncomputable def strict (v : Volume) (sb : Superblock) : Volume :=
  { v with mark := fun b => decide (b < sb.dataStart ∨ ∃ r, v.Refers sb r b) }

/-- Without the marks of blocks that nobody refers to, all blocks are accounted for. -/
theorem Covered.strict (covered : v.Covered sb) : (v.strict sb).Accounted sb := by
  apply covered.ledger.congr (fun b => ?_) (fun _ _ => Iff.rfl)
  simp only [Marked, Volume.strict, decide_eq_true_eq]
  exact and_iff_right_of_imp fun used => (covered.used used).1

/-- A block that is not marked is not marked there. -/
theorem Covered.unmarked_strict (covered : v.Covered sb) (unmarked : ¬v.Marked sb b) :
    ¬(v.strict sb).Marked sb b := by
  simp only [Marked, Volume.strict, decide_eq_true_eq]
  exact fun used => unmarked (covered.used used.2)

/-- A block that is referred to is a data block. -/
theorem Covered.data (covered : v.Covered sb) {r : Nat × Place} (refers : v.Refers sb r b) :
    sb.dataStart ≤ b ∧ b < sb.size :=
  ⟨Nat.le_of_not_lt (covered.apart r b refers), (covered.marked_refs r b refers).1⟩

/-- How many blocks are free. -/
def free (v : Volume) (sb : Superblock) : Nat :=
  ((Finset.range sb.size).filter fun b => v.mark b = false).card

/-- There are free blocks for what a file lacks of its first `n` blocks. -/
def Budget (v : Volume) (sb : Superblock) (inum n : Nat) : Prop :=
  (v.node inum).missing v.data n ≤ v.free sb

/-- A zeroed block is put at an empty place of an inode. -/
structure Adds (sb : Superblock) (inum : Nat) (place : Place) (b : Nat) (v v' : Volume) : Prop
    extends
    Grows sb inum v v' where
  empty : (v.node inum).blockAt v.data place = 0
  refers : ∀ r c, v'.Refers sb r c ↔ v.Refers sb r c ∨ r = (inum, place) ∧ c = b
  mark : v'.mark = update v.mark b true
  content : ∀ r c, v.Refers sb r c → r.2 ≠ .indirect → v'.data c = v.data c

section

variable (covered : v.Covered sb) (numbered : inum < sb.ninodes) (typed : (v.node inum).type ≠ 0)
  (unmarked : ¬v.Marked sb b) (nonzero : b ≠ 0) (small : b < 2 ^ 32)

include covered numbered typed unmarked nonzero small

/-- A block is added at an address. -/
theorem Covered.addAddr {i : Fin (nDirect + 1)} (empty : (v.node inum).addrs i = 0) :
    Adds sb inum (.ofAddr i) b v (v.addAddr inum i b) := by
  have refers := refers_addAddr covered.strict numbered typed
    (covered.unmarked_strict unmarked) nonzero
    small empty
  refine ⟨⟨?others, ?node, ?keeps⟩, ?empty, ?refers, ?mark, ?content⟩
  case others => exact fun j apart => update_of_ne apart _ _
  case node =>
    show { update v.node inum ((v.node inum).setAddr i b) inum with
      addrs := (v.node inum).addrs } = v.node inum
    rw [update_self]
    rfl
  case keeps => exact fun r c old => (refers r c).mpr (.inl old)
  case empty =>
    rw [Dinode.blockAt_ofAddr, empty]
    rfl
  case refers => exact refers
  case mark => rfl
  case content =>
    intro r c old _
    apply update_of_ne
    rintro rfl
    exact unmarked (covered.marked_refs r c old)

/-- A block put into an entry of the indirect block. -/
theorem Covered.addEntry {j : Fin nIndirect} (present : (v.node inum).indirect ≠ 0)
    (empty : (v.node inum).blockAt v.data (.entry j) = 0) :
    Adds sb inum (.entry j) b v (v.addEntry (v.node inum).indirect j b) := by
  have refers := refers_addEntry covered.strict numbered typed
    (covered.unmarked_strict unmarked) nonzero
    small present empty
  refine ⟨⟨?others, ?node, ?keeps⟩, ?empty, ?refers, ?mark, ?content⟩
  case others => exact fun _ _ => rfl
  case node => rfl
  case keeps => exact fun r c old => (refers r c).mpr (.inl old)
  case empty => exact empty
  case refers => exact refers
  case mark => rfl
  case content =>
    intro r c old leaf
    have new : c ≠ b := by
      rintro rfl
      exact unmarked (covered.marked_refs r c old)
    have apart : c ≠ (v.node inum).indirect := by
      rintro rfl
      have same := covered.once _ _ _ old (refers_indirect numbered typed present)
      exact leaf (congrArg Prod.snd same)
    show update (update v.data b Bytes.zero) _ _ c = _
    rw [update_of_ne apart, update_of_ne new]

end

/-- The blocks in use are marked still. -/
theorem Adds.covered (adds : Adds sb inum place b v v') (covered : v.Covered sb)
    (unmarked : ¬v.Marked sb b) (inside : b < sb.size) : v'.Covered sb :=
  covered.add unmarked (marked_set inside adds.mark) adds.refers

/-- Marks that were accounted for still are. -/
theorem Adds.accounted (adds : Adds sb inum place b v v') (accounted : v.Accounted sb)
    (unmarked : ¬v.Marked sb b) (inside : b < sb.size) : v'.Accounted sb :=
  accounted.add unmarked (marked_set inside adds.mark) adds.refers

/-- There is one free block fewer. -/
theorem Adds.free (adds : Adds sb inum place b v v') (unmarked : ¬v.Marked sb b)
    (inside : b < sb.size) : v'.free sb + 1 = v.free sb := by
  have unset : v.mark b = false := by
    rw [← Bool.not_eq_true]
    exact fun set => unmarked ⟨inside, set⟩
  have rest : ((Finset.range sb.size).filter fun c => v'.mark c = false) =
      ((Finset.range sb.size).filter fun c => v.mark c = false).erase b := by
    ext c
    rw [Finset.mem_erase, Finset.mem_filter, Finset.mem_filter, adds.mark, update_apply]
    by_cases here : c = b
    · simp [here]
    · simp [here]
  rw [Volume.free, Volume.free, rest]
  exact Finset.card_erase_add_one (Finset.mem_filter.mpr ⟨Finset.mem_range.mpr inside, unset⟩)

/-- A place of an allocated inode is empty when nothing is referred to from it. -/
theorem empty_iff (numbered : inum < sb.ninodes) (typed : (v.node inum).type ≠ 0) (place : Place) :
    (v.node inum).blockAt v.data place = 0 ↔ ∀ b, ¬v.Refers sb (inum, place) b := by
  constructor
  · rintro none b ⟨-, -, nonzero, same⟩
    exact nonzero (same.symm.trans none)
  · intro none
    by_contra nonzero
    exact none _ ⟨numbered, typed, nonzero, rfl⟩

section

variable (adds : Adds sb inum place b v v') (numbered : inum < sb.ninodes)
  (typed : (v.node inum).type ≠ 0)

include adds numbered typed

/-- The file lacks one block fewer. -/
theorem Adds.missing (below : place.Below n) :
    (v'.node inum).missing v'.data n + 1 = (v.node inum).missing v.data n := by
  have typed' : (v'.node inum).type ≠ 0 := by
    rw [← adds.node] at typed
    exact typed
  have rest : (Finset.univ.filter fun p : Place =>
        p.Below n ∧ (v'.node inum).blockAt v'.data p = 0) =
      (Finset.univ.filter fun p : Place =>
        p.Below n ∧ (v.node inum).blockAt v.data p = 0).erase place := by
    ext p
    simp only [Finset.mem_erase, Finset.mem_filter, Finset.mem_univ, true_and]
    rw [empty_iff numbered typed', empty_iff numbered typed]
    simp only [adds.refers, Prod.mk.injEq, true_and, not_or, not_and]
    constructor
    · rintro ⟨inside, none⟩
      exact ⟨fun here => (none b).2 here rfl, inside, fun c => (none c).1⟩
    · rintro ⟨apart, inside, none⟩
      exact ⟨inside, fun c => ⟨none c, fun here => absurd here apart⟩⟩
  rw [Dinode.missing, Dinode.missing, rest]
  exact Finset.card_erase_add_one
    (Finset.mem_filter.mpr ⟨Finset.mem_univ place, below, adds.empty⟩)

/-- So there are free blocks as before for the rest of the file. -/
theorem Adds.budget (unmarked : ¬v.Marked sb b) (inside : b < sb.size) (below : place.Below n) :
    v'.Budget sb inum n ↔ v.Budget sb inum n := by
  have free := adds.free unmarked inside
  have missing := adds.missing numbered typed below
  unfold Budget
  omega

end

/-- There is a free block for each that is missing. -/
theorem Budget.free_pos (budget : v.Budget sb inum n) (below : place.Below n)
    (empty : (v.node inum).blockAt v.data place = 0) : 0 < v.free sb := by
  apply Nat.lt_of_lt_of_le _ budget
  exact Finset.card_pos.mpr ⟨place, Finset.mem_filter.mpr ⟨Finset.mem_univ place, below, empty⟩⟩

end Volume

/-! ## `balloc` -/

variable {s t : Fs} {v v' : Volume} {stops : String → Prop} {ip : Fin nInode} {inum : Nat}

/-- What `balloc` says when no block is free. -/
def outOfBlocks : String := "balloc: out of blocks"

/-- The loop of `balloc` finds an unmarked block if there is one. -/
theorem ballocFrom_takes (b : Nat) (start : b % bpb = 0)
    (enough : ¬stops outOfBlocks → ∃ c, b ≤ c ∧ c < s.sb.size ∧ s.mark c = false) :
    Wp stops (ballocFrom s.sb.size b)
      (fun r t => r < s.sb.size ∧ s.mark r = false ∧
        t = { s with toStore := (s.toStore.setMark r true).write r Bytes.zero }) s := by
  induction gap : s.sb.size - b using Nat.strong_induction_on generalizing b with
  | _ n ih =>
  unfold ballocFrom
  apply Wp.ite
  · intro more
    have bit (bi : Nat) (inside : bi < bpb) :
        s.sb.bblock (b + bi) = s.sb.bblock b ∧ (b + bi) % bpb = bi := by
      simp only [Superblock.bblock, bpb, bSize] at *
      omega
    apply Wp.get
    apply bread_spec
    split
    · rename_i bi found
      have unset : (s.disk (s.sb.bblock b)).bit bi = false := by simpa using List.find?_some found
      have bound := List.mem_range.mp (List.mem_of_find?_eq_some found)
      obtain ⟨block, place⟩ := bit bi (by omega)
      apply Wp.bind logWrite_spec
      rintro _ _ rfl
      apply Wp.bind logWrite_spec
      rintro _ _ rfl
      apply Wp.pure
      refine ⟨by omega, ?_, ?_⟩
      · rw [Store.mark, block, place]
        exact unset
      · rw [Store.setMark, block, place, if_pos rfl]
    · rename_i taken
      have positive : 0 < bpb := by decide
      refine ih _ (by omega) (b + bpb) (by simp [start]) (fun total => ?_) rfl
      obtain ⟨c, after, inside, unset⟩ := enough total
      refine ⟨c, Nat.le_of_not_lt fun before => ?_, inside, unset⟩
      obtain ⟨block, place⟩ := bit (c - b) (by omega)
      have here : b + (c - b) = c := by omega
      rw [here] at block place
      have set := List.find?_eq_none.mp taken (c - b) (List.mem_range.mpr (by omega))
      rw [Store.mark, block, place] at unset
      rw [unset] at set
      exact set (by simp)
  · intro done
    apply Wp.throw
    by_contra total
    obtain ⟨c, after, inside, -⟩ := enough total
    omega

/-- What `balloc` returns and leaves. -/
structure Taken (s : Fs) (v : Volume) (b : Nat) (t : Fs) : Prop where
  shows : Shows t.toStore (v.grab b)
  unmarked : ¬v.Marked s.sb b
  inside : b < s.sb.size
  nonzero : b ≠ 0
  icache : t.icache = s.icache
  untouched : Untouched s.toStore t.toStore
  /-- Where the marks are accounted for, it is a good allocation. -/
  fresh : Sound s v → ∀ call ∈ t.ballocs, call.Fresh

/-- `balloc` takes a block that is not marked. -/
theorem balloc_takes (shows : Shows s.toStore v) (covered : v.Covered s.sb)
    (enough : ¬stops outOfBlocks → 0 < v.free s.sb) :
    Wp stops balloc (fun b t => Taken s v b t) s := by
  unfold balloc
  apply Wp.get
  have found (total : ¬stops outOfBlocks) : ∃ c, 0 ≤ c ∧ c < s.sb.size ∧ s.mark c = false := by
    obtain ⟨c, member⟩ := Finset.card_pos.mp (enough total)
    obtain ⟨inside, unset⟩ := Finset.mem_filter.mp member
    have bound := Finset.mem_range.mp inside
    exact ⟨c, Nat.zero_le c, bound, (shows.mark c bound).trans unset⟩
  apply Wp.bind (ballocFrom_takes 0 rfl found)
  rintro b _ ⟨inside, unset, rfl⟩
  apply Wp.bind Wp.modify
  rintro _ _ rfl
  apply Wp.pure
  have unmarked : ¬v.Marked s.sb b := by
    rintro ⟨-, set⟩
    rw [← shows.mark b inside, unset] at set
    cases set
  have start : s.sb.dataStart ≤ b :=
    Nat.le_of_not_lt fun reserved => unmarked (covered.marked_reserved b reserved)
  have nonzero : b ≠ 0 := by
    have before : s.sb.bblock b < s.sb.dataStart := shows.wellFormed.bitmap b inside
    omega
  have marked := shows.setMark inside true
  refine ⟨marked.writeData start inside Bytes.zero, unmarked, inside, nonzero, rfl,
    (shows.untouched_setMark b true).trans (marked.untouched_write start inside Bytes.zero),
    fun sound call member => ?_⟩
  rcases List.mem_cons.mp member with rfl | old
  · refine ⟨inside, fun r refers => ?_, update_self ..⟩
    rw [shows.refers_iff sound.accounted] at refers
    exact unmarked (sound.accounted.marked_of_refs refers)
  · exact sound.fresh call old

/-! ## `bmap` -/

/-- A file gets blocks, and what the files hold stays. -/
structure Extends (sb : Superblock) (inum : Nat) (v v' : Volume) : Prop extends
    Grows sb inum v v' where
  content : ∀ r b, v.Refers sb r b → r.2 ≠ .indirect → v'.data b = v.data b

/-- Nothing is added. -/
theorem Extends.refl (sb : Superblock) (inum : Nat) (v : Volume) : Extends sb inum v v :=
  ⟨.refl sb inum v, fun _ _ _ _ => rfl⟩

/-- Two additions in a row. -/
theorem Extends.trans {sb : Superblock} {v v' v'' : Volume} (first : Extends sb inum v v')
    (second : Extends sb inum v' v'') : Extends sb inum v v'' :=
  ⟨first.toGrows.trans second.toGrows, fun r b refers leaf =>
    (second.content r b (first.keeps r b refers) leaf).trans (first.content r b refers leaf)⟩

/-- What `bmap` returns and leaves. -/
structure Located (ip : Fin nInode) (inum : Nat) (place : Place) (s : Fs) (v : Volume) (b : Nat)
    (t : Fs) (v' : Volume) : Prop where
  shows : Shows t.toStore v'
  covered : v'.Covered s.sb
  touches : Touches ip s.toStore t.toStore
  extended : Extends s.sb inum v v'
  refers : v'.Refers s.sb (inum, place) b
  already : (v.node inum).blockAt v.data place ≠ 0 → t = s
  /-- There are free blocks as before for the rest of the file. -/
  budget : ∀ n, place.Below n → (v'.Budget s.sb inum n ↔ v.Budget s.sb inum n)
  sound : Sound s v → Sound t v'

variable {place : Place} {b k : Nat}

/-- The block is there. -/
theorem Located.found (shows : Shows s.toStore v) (covered : v.Covered s.sb)
    (refers : v.Refers s.sb (inum, place) b) : Located ip inum place s v b s v :=
  ⟨shows, covered, (⟨rfl, fun _ _ => rfl⟩ : Untouched _ _).touches rfl ip, .refl _ _ _, refers,
    fun _ => rfl, fun _ _ => Iff.rfl, fun sound => sound⟩

/-- The block is new. -/
theorem Located.added (adds : Volume.Adds s.sb inum place b v v') (covered : v.Covered s.sb)
    (numbered : inum < s.sb.ninodes) (typed : (v.node inum).type ≠ 0) (unmarked : ¬v.Marked s.sb b)
    (inside : b < s.sb.size) (shows : Shows t.toStore v') (touches : Touches ip s.toStore t.toStore)
    (fresh : Sound s v → ∀ call ∈ t.ballocs, call.Fresh) : Located ip inum place s v b t v' where
  shows := shows
  covered := adds.covered covered unmarked inside
  touches := touches
  extended := ⟨adds.toGrows, adds.content⟩
  refers := (adds.refers _ _).mpr (.inr ⟨rfl, rfl⟩)
  already := fun nonzero => absurd adds.empty nonzero
  budget := fun _ below => adds.budget numbered typed unmarked inside below
  sound := fun sound =>
    ⟨shows, touches.sb ▸ adds.accounted sound.accounted unmarked inside, fresh sound⟩

/-- An address of the inode leads to a block, which may be new. -/
theorem bmapAddr_locates (shows : Shows s.toStore v) (covered : v.Covered s.sb)
    (holds : s.Holds inum ip) (i : Fin (nDirect + 1))
    (enough : ¬stops outOfBlocks → ∃ n, (Place.ofAddr i).Below n ∧ v.Budget s.sb inum n) :
    Wp stops (bmapAddr ip i) (fun b t => ∃ v', Located ip inum (.ofAddr i) s v b t v') s := by
  obtain ⟨numbered, typed⟩ := shows.held holds
  have copy := shows.copy_eq holds
  unfold bmapAddr getAddr
  apply Wp.get
  apply Wp.ite
  · intro none
    have empty : (v.node inum).addrs i = 0 := by
      rw [← copy]
      exact UInt32.toNat_inj.mp none
    have lacks : (v.node inum).blockAt v.data (.ofAddr i) = 0 := by
      rw [Dinode.blockAt_ofAddr, empty]
      rfl
    have free (total : ¬stops outOfBlocks) : 0 < v.free s.sb := by
      obtain ⟨n, below, budget⟩ := enough total
      exact budget.free_pos below lacks
    apply Wp.bind (balloc_takes shows covered free)
    intro b t taken
    have small : b < 2 ^ 32 := by
      have fits := shows.wellFormed.fits
      have inside := taken.inside
      omega
    have holds' : t.Holds inum ip := by
      unfold Store.Holds
      rw [taken.icache]
      exact holds
    have copy' : (t.icache ip).copy = v.node inum := by rw [taken.icache, copy]
    obtain ⟨shows', touches⟩ := taken.shows.setCopy holds' (d := (v.node inum).setAddr i b) typed
    have adds := covered.addAddr numbered typed taken.unmarked taken.nonzero small empty
    apply Wp.bind setAddr_spec
    rintro _ _ rfl
    apply Wp.pure
    rw [copy']
    exact ⟨_, .added adds covered numbered typed taken.unmarked taken.inside shows'
      ((taken.untouched.touches taken.icache ip).trans touches) taken.fresh⟩
  · intro nonzero
    apply Wp.pure
    refine ⟨v, .found shows covered ⟨numbered, typed, nonzero, ?_⟩⟩
    rw [Dinode.blockAt_ofAddr, copy]

/-- The second step of `bmap`, for a block of the indirect block. -/
theorem bmapEntry_locates (shows : Shows s.toStore v) (covered : v.Covered s.sb) {indirect : Nat}
    (ip : Fin nInode) (owned : v.Refers s.sb (inum, .indirect) indirect) (j : Fin nIndirect)
    (enough : ¬stops outOfBlocks → ∃ n, (Place.entry j).Below n ∧ v.Budget s.sb inum n) :
    Wp stops
      (do
        let bp ← bread indirect
        let addr := (bp.word (4 * j)).toNat
        if addr = 0 then
          let addr ← balloc
          logWrite indirect (bp.setWord (4 * j) (UInt32.ofNat addr))
          return addr
        else
          return addr)
      (fun b t => ∃ v', Located ip inum (.entry j) s v b t v') s := by
  have numbered : inum < s.sb.ninodes := owned.1
  have typed : (v.node inum).type ≠ 0 := owned.2.1
  have shape : (v.node inum).indirect = indirect := owned.2.2.2
  subst shape
  have nonzero : (v.node inum).indirect ≠ 0 := owned.2.2.1
  obtain ⟨start, inside⟩ := covered.data owned
  have content : s.disk (v.node inum).indirect = v.data (v.node inum).indirect :=
    shows.data _ start inside
  have number : ((s.disk (v.node inum).indirect).word (4 * j)).toNat =
      (v.node inum).blockAt v.data (.entry j) := by
    rw [content, Dinode.blockAt_entry, if_neg nonzero]
  apply bread_spec
  apply Wp.ite
  · intro none
    have empty := number.symm.trans none
    have free (total : ¬stops outOfBlocks) : 0 < v.free s.sb := by
      obtain ⟨n, below, budget⟩ := enough total
      exact budget.free_pos below empty
    apply Wp.bind (balloc_takes shows covered free)
    intro b t taken
    have small : b < 2 ^ 32 := by
      have fits := shows.wellFormed.fits
      have bound := taken.inside
      omega
    have adds := covered.addEntry numbered typed taken.unmarked taken.nonzero small nonzero empty
    have sb := taken.untouched.sb
    have written := taken.shows.writeData (sb ▸ start) (sb ▸ inside)
      ((v.data (v.node inum).indirect).setWord (4 * j) (UInt32.ofNat b))
    have untouched := taken.untouched.trans (taken.shows.untouched_write (sb ▸ start) (sb ▸ inside)
      ((v.data (v.node inum).indirect).setWord (4 * j) (UInt32.ofNat b)))
    rw [content]
    apply Wp.bind logWrite_spec
    rintro _ _ rfl
    apply Wp.pure
    exact ⟨_, .added adds covered numbered typed taken.unmarked taken.inside written
      (untouched.touches taken.icache ip) taken.fresh⟩
  · intro found
    apply Wp.pure
    exact ⟨v, .found shows covered ⟨numbered, typed, found, number.symm⟩⟩

/-- The place of a block of a file is one that the file uses. -/
theorem filePlace_below {n : Nat} (isPlace : place ∈ filePlace k) (inside : k < n) :
    place.Below n := by
  unfold filePlace at isPlace
  split at isPlace
  · cases isPlace
    exact inside
  · split at isPlace
    · cases isPlace
      show nDirect + (k - nDirect) < n
      omega
    · cases isPlace

/-- `bmap` gives an inode the block it is asked for. -/
theorem bmap_locates (shows : Shows s.toStore v) (covered : v.Covered s.sb)
    (holds : s.Holds inum ip) (isPlace : place ∈ filePlace k)
    (enough : ¬stops outOfBlocks → ∃ n, k < n ∧ v.Budget s.sb inum n) :
    Wp stops (bmap ip k) (fun b t => ∃ v', Located ip inum place s v b t v') s := by
  unfold bmap
  unfold filePlace at isPlace
  split at isPlace
  · rename_i direct
    have same : place = .ofAddr ⟨k, Nat.lt_succ_of_lt direct⟩ := by
      rw [← Option.some.inj isPlace]
      simp [Place.ofAddr, direct]
    rw [dif_pos direct, same]
    apply bmapAddr_locates shows covered holds
    intro total
    obtain ⟨n, inside, budget⟩ := enough total
    exact ⟨n,
      same ▸ filePlace_below (by simp [filePlace, direct] at isPlace ⊢; exact isPlace) inside,
      budget⟩
  · rename_i far
    split at isPlace
    · rename_i inside
      obtain rfl := Option.some.inj isPlace
      have enough' (total : ¬stops outOfBlocks) :
          ∃ n, (Place.entry ⟨k - nDirect, inside⟩).Below n ∧ Place.indirect.Below n ∧
            v.Budget s.sb inum n := by
        obtain ⟨n, below, budget⟩ := enough total
        refine ⟨n, ?_, ?_, budget⟩
        · show nDirect + (k - nDirect) < n
          omega
        · show nDirect < n
          omega
      rw [dif_neg far]
      dsimp only
      rw [if_pos inside]
      have enough₁ (total : ¬stops outOfBlocks) :
          ∃ n, (Place.ofAddr (Fin.last nDirect)).Below n ∧ v.Budget s.sb inum n := by
        obtain ⟨n, -, below, budget⟩ := enough' total
        exact ⟨n, by rw [Place.ofAddr_last]; exact below, budget⟩
      apply Wp.bind (bmapAddr_locates shows covered holds (Fin.last nDirect) enough₁)
      rintro indirect t ⟨v₁, first⟩
      rw [Place.ofAddr_last] at first
      have sb := first.touches.sb
      have enough₂ (total : ¬stops outOfBlocks) :
          ∃ n, (Place.entry ⟨k - nDirect, inside⟩).Below n ∧ v₁.Budget t.sb inum n := by
        obtain ⟨n, below, below', budget⟩ := enough' total
        exact ⟨n, below, sb ▸ (first.budget n below').mpr budget⟩
      apply Wp.mono (bmapEntry_locates first.shows (sb ▸ first.covered) ip (sb ▸ first.refers)
        ⟨k - nDirect, inside⟩ enough₂)
      rintro b u ⟨v₂, second⟩
      refine ⟨v₂, second.shows, sb ▸ second.covered, first.touches.trans second.touches,
        first.extended.trans (sb ▸ second.extended), sb ▸ second.refers, fun nonzero => ?_,
        fun n below => ?_, fun sound => second.sound (first.sound sound)⟩
      · -- An entry is in an indirect block that is there.
        obtain ⟨numbered, typed⟩ := shows.held holds
        have present : (v.node inum).blockAt v.data .indirect ≠ 0 := by
          intro none
          apply nonzero
          rw [Dinode.blockAt_entry]
          exact if_pos none
        have kept := first.extended.keeps (inum, .entry ⟨k - nDirect, inside⟩) _
          ⟨numbered, typed, nonzero, rfl⟩
        have some' : (v₁.node inum).blockAt v₁.data (.entry ⟨k - nDirect, inside⟩) ≠ 0 := by
          rw [kept.2.2.2]
          exact kept.2.2.1
        rw [second.already some', first.already present]
      · have below' : Place.indirect.Below n := by
          have inside' : nDirect + (k - nDirect) < n := below
          show nDirect < n
          omega
        exact (sb ▸ second.budget n below).trans (first.budget n below')
    · cases isPlace

/-- Every block of a file has a place. -/
theorem filePlace_some (inside : k < maxFile) : ∃ place, place ∈ filePlace k := by
  unfold filePlace
  split
  · exact ⟨_, rfl⟩
  · have bound : k - nDirect < nIndirect := by
      unfold maxFile at inside
      omega
    rw [dif_pos bound]
    exact ⟨_, rfl⟩

/-- Running out of blocks is no double free. -/
theorem noDoubleFree_outOfBlocks : noDoubleFree outOfBlocks := by simp [noDoubleFree, outOfBlocks]

/-- `bmap` in a file system whose marks are accounted for. -/
theorem bmap_spec (sound : Sound s v) (holds : s.Holds inum ip) (bn : Nat) :
    Wp noDoubleFree (bmap ip bn) (fun b t => ∃ place v', Located ip inum place s v b t v') s := by
  by_cases inside : bn < maxFile
  · obtain ⟨place, isPlace⟩ := filePlace_some inside
    apply Wp.mono (bmap_locates sound.shows (.of_ledger sound.accounted) holds isPlace
      fun total => absurd noDoubleFree_outOfBlocks total)
    exact fun b t located => ⟨place, located⟩
  · have far : ¬bn < nDirect ∧ ¬bn - nDirect < nIndirect := by
      unfold maxFile at inside
      omega
    unfold bmap
    rw [dif_neg far.1]
    dsimp only
    rw [if_neg far.2]
    exact Wp.throw (by simp [noDoubleFree])

end Xv6
