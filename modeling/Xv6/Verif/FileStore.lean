import Xv6.Verif.FileBlocks

/-!
# `writei` on the bytes of a file

The loop of `writei` stores one chunk after another, each inside a block. A chunk leaves every other
byte of every file, so the chunks together replace a range of the bytes of the file, and only the
blocks that the file lacks are allocated. The size is stored when the file gets longer.
-/

namespace Xv6

open Lib Function

/-! ## Bytes of a volume -/

namespace Volume

variable {v v' : Volume} {sb : Superblock} {inum b k : Nat} {place : Place}

/-- A byte of a file. -/
def byte (v : Volume) (inum k : Nat) : UInt8 :=
  (filePlace (k / bSize)).elim 0 fun place =>
    (v.data ((v.node inum).blockAt v.data place)).byte (k % bSize)

/-- It is in the block that the file has there. -/
theorem Refers.byte (refers : v.Refers sb (inum, place) b)
    (isPlace : place ∈ filePlace (k / bSize)) :
    v.byte inum k = (v.data b).byte (k % bSize) := by
  have found : filePlace (k / bSize) = some place := isPlace
  have block : (v.node inum).blockAt v.data place = b := refers.2.2.2
  rw [Volume.byte, found, Option.elim_some, block]

/-- Writing to a block that is no indirect block leaves the references. -/
theorem Covered.writeLeaf (covered : v.Covered sb) (refers : v.Refers sb (inum, place) b)
    (leaf : place ≠ .indirect) (data : Block) :
    Covered { v with data := update v.data b data } sb ∧
      ∀ r c, Refers { v with data := update v.data b data } sb r c ↔ v.Refers sb r c := by
  have same := (covered.strict.writeLeaf (v := v.strict sb) refers leaf data).2
  exact ⟨covered.sub (fun _ => Iff.rfl) fun r c => (same r c).mp, same⟩

/-- With the same references and marks there are free blocks for a file as before. -/
theorem budget_congr (numbered : inum < sb.ninodes) (typed : (v.node inum).type ≠ 0)
    (typed' : (v'.node inum).type ≠ 0) (refers : ∀ r c, v'.Refers sb r c ↔ v.Refers sb r c)
    (mark : v'.mark = v.mark) (n : Nat) : v'.Budget sb inum n ↔ v.Budget sb inum n := by
  have missing : (v'.node inum).missing v'.data n = (v.node inum).missing v.data n := by
    unfold Dinode.missing
    congr 2
    funext p
    rw [empty_iff numbered typed', empty_iff numbered typed]
    simp only [refers]
  unfold Budget free
  rw [missing, mark]

end Volume

/-- Two places of one file are those of two blocks. -/
theorem filePlace_inj {j k : Nat} {place : Place} (first : place ∈ filePlace j)
    (second : place ∈ filePlace k) : j = k := by
  unfold filePlace at first second
  split at first
  · cases first
    split at second
    · simpa using second.symm
    · split at second <;> cases second
  · split at first
    · cases first
      split at second
      · cases second
      · split at second
        · have same := Option.some.inj second
          simp only [Place.entry.injEq, Fin.mk.injEq] at same
          omega
        · cases second
    · cases first

/-! ## The loop of `writei` -/

variable {s t u : Fs} {v v' v'' : Volume} {stops : String → Prop} {ip : Fin nInode}
  {inum off len : Nat} {src : Nat → UInt8}

/-- Some bytes of a file have been stored. -/
structure Stored (ip : Fin nInode) (inum off len : Nat) (src : Nat → UInt8) (s : Fs) (v : Volume)
    (t : Fs) (v' : Volume) : Prop where
  shows : Shows t.toStore v'
  covered : v'.Covered s.sb
  touches : Touches ip s.toStore t.toStore
  grows : Grows s.sb inum v v'
  inside : ∀ k, k < len → v'.byte inum (off + k) = src k
  outside : ∀ i k place b, place ∈ filePlace (k / bSize) → v.Refers s.sb (i, place) b →
    (i = inum → k < off ∨ off + len ≤ k) → v'.byte i k = v.byte i k
  mapped : v'.MappedTo s.sb inum (off + len)
  already : v.MappedTo s.sb inum (off + len) → t.icache = s.icache
  /-- There are free blocks as before for the rest of the file. -/
  budget : ∀ n, off + len ≤ n * bSize → (v'.Budget s.sb inum n ↔ v.Budget s.sb inum n)
  sound : Sound s v → Sound t v'

/-- Nothing is stored yet. -/
theorem Stored.none (shows : Shows s.toStore v) (covered : v.Covered s.sb)
    (mapped : v.MappedTo s.sb inum off) : Stored ip inum off 0 src s v s v :=
  ⟨shows, covered, (⟨rfl, fun _ _ => rfl⟩ : Untouched _ _).touches rfl ip, .refl _ _ _,
    fun _ small => absurd small (Nat.not_lt_zero _), fun _ _ _ _ _ _ _ => rfl, mapped, fun _ => rfl,
    fun _ _ => Iff.rfl, fun sound => sound⟩

/-- A byte below an offset is in a block below it. -/
theorem Volume.MappedTo.block {sb : Superblock} {k : Nat} (mapped : v.MappedTo sb inum off)
    (below : k < off) : ∃ place ∈ filePlace (k / bSize), ∃ b, v.Refers sb (inum, place) b :=
  mapped (k / bSize) (Nat.lt_of_le_of_lt (Nat.div_mul_le_self k bSize) below)

/-- Some bytes are stored, and then those behind them. -/
theorem Stored.trans {m : Nat} (first : Stored ip inum off m src s v t v')
    (second : Stored ip inum (off + m) len (fun k => src (m + k)) t v' u v'') :
    Stored ip inum off (m + len) src s v u v'' := by
  have sb := first.touches.sb
  have whole : off + (m + len) = off + m + len := (Nat.add_assoc off m len).symm
  constructor
  case shows => exact second.shows
  case covered => exact sb ▸ second.covered
  case touches => exact first.touches.trans second.touches
  case grows => exact first.grows.trans (sb ▸ second.grows)
  case inside =>
    intro k small
    by_cases early : k < m
    · obtain ⟨place, isPlace, b, refers⟩ := first.mapped.block (k := off + k) (by omega)
      rw [second.outside inum (off + k) place b isPlace (sb ▸ refers) (fun _ => .inl (by omega))]
      exact first.inside k early
    · have later := second.inside (k - m) (by omega)
      have here : off + m + (k - m) = off + k := by omega
      have index : m + (k - m) = k := by omega
      rw [here, index] at later
      exact later
  case outside =>
    intro i k place b isPlace refers apart
    have kept := first.grows.keeps (i, place) b refers
    rw [second.outside i k place b isPlace (sb ▸ kept) (fun same => by have := apart same; omega)]
    exact first.outside i k place b isPlace refers (fun same => by have := apart same; omega)
  case mapped =>
    rw [whole]
    exact sb ▸ second.mapped
  case already =>
    intro all
    rw [whole] at all
    have early : v.MappedTo s.sb inum (off + m) := fun k below => all k (by omega)
    have later : v'.MappedTo t.sb inum (off + m + len) := sb ▸ first.grows.mappedTo all
    exact (second.already later).trans (first.already early)
  case budget =>
    intro n bound
    exact (sb ▸ second.budget n (by omega)).trans (first.budget n (by omega))
  case sound => exact fun sound => second.sound (first.sound sound)

/-- One round of the loop stores a chunk in one block. -/
theorem Located.stored {place : Place} {b m : Nat} (located : Located ip inum place s v b t v')
    (isPlace : place ∈ filePlace (off / bSize)) (mapped : v.MappedTo s.sb inum off)
    (positive : 0 < m) (fits : off % bSize + m ≤ bSize) (src : Nat → UInt8) :
    ∃ v'', Stored ip inum off m src s v
      { t with toStore := t.toStore.write b ((t.disk b).setRange (off % bSize) m src) } v'' := by
  have sb := located.touches.sb
  have leaf := filePlace_ne_indirect isPlace
  have refers := located.refers
  obtain ⟨start, inside⟩ := located.covered.data refers
  have content : t.disk b = v'.data b := located.shows.data b (sb ▸ start) (sb ▸ inside)
  obtain ⟨data, chunk⟩ : ∃ data, data = (t.disk b).setRange (off % bSize) m src := ⟨_, rfl⟩
  obtain ⟨covered, same⟩ := located.covered.writeLeaf refers leaf data
  have shows := located.shows.writeData (sb ▸ start) (sb ▸ inside) data
  have accounted (sound : Sound s v) :
      Volume.Accounted { v' with data := update v'.data b data } t.sb :=
    ((located.sound sound).accounted.writeLeaf (sb ▸ refers) leaf data).1
  obtain ⟨numbered, typed, -⟩ := refers
  have kept : Grows s.sb inum v' { v' with data := update v'.data b data } :=
    ⟨fun _ _ => rfl, rfl, fun r c => (same r c).mpr⟩
  have grows := located.extended.toGrows.trans kept
  have here := kept.keeps _ _ located.refers
  rw [← chunk]
  refine ⟨{ v' with data := update v'.data b data },
    shows, covered, located.touches.trans
      ((located.shows.untouched_write (sb ▸ start) (sb ▸ inside) data).touches rfl ip),
    grows, ?inside, ?outside, ?mapped, ?already, ?budget, fun sound =>
      ⟨shows, accounted sound, (located.sound sound).fresh⟩⟩
  case inside =>
    intro k small
    have split : (off + k) / bSize = off / bSize ∧ (off + k) % bSize = off % bSize + k := by
      simp only [bSize] at *
      omega
    rw [here.byte (k := off + k) (split.1 ▸ isPlace), split.2]
    show (update v'.data b data b).byte (off % bSize + k) = src k
    rw [update_self, chunk]
    exact Bytes.byte_setRange_inside _ _ _ _ _ small fits
  case outside =>
    intro i k place' c isPlace' old apart
    have later := located.extended.keeps _ _ old
    have stays : v'.data c = v.data c :=
      located.extended.content _ _ old (filePlace_ne_indirect isPlace')
    rw [(kept.keeps _ _ later).byte isPlace', old.byte isPlace', ← stays]
    show (update v'.data b data c).byte (k % bSize) = _
    by_cases block : c = b
    · -- The same block is the same one of the same file.
      subst block
      have one := located.covered.once _ _ _ later located.refers
      simp only [Prod.mk.injEq] at one
      obtain ⟨number, rfl⟩ := one
      have index := filePlace_inj isPlace' isPlace
      have outside := apart number
      rw [update_self, chunk, ← content]
      apply Bytes.byte_setRange_outside
      simp only [bSize] at *
      omega
    · rw [update_of_ne block]
  case mapped =>
    intro k below
    by_cases old : k * bSize < off
    · exact grows.mappedTo mapped k old
    · have index : k = off / bSize := by
        simp only [bSize] at *
        omega
      rw [index]
      exact ⟨place, isPlace, b, here⟩
  case already =>
    intro all
    obtain ⟨place', isPlace', c, old⟩ := all.block (k := off) (by omega)
    have samePlace : place' = place := Option.mem_unique isPlace' isPlace
    have there : (v.node inum).blockAt v.data place ≠ 0 := by
      rw [← samePlace, old.2.2.2]
      exact old.2.2.1
    show t.icache = s.icache
    rw [located.already there]
  case budget =>
    intro n bound
    have below : off / bSize < n := by
      simp only [bSize] at *
      omega
    rw [← located.budget n (filePlace_below isPlace below)]
    exact Volume.budget_congr (v := v') numbered typed (by exact typed) same (by rfl) n

/-- The loop of `writei` stores the bytes. -/
theorem writeiFrom_stores (src : Nat → UInt8) (n off tot : Nat) (shows : Shows s.toStore v)
    (covered : v.Covered s.sb) (holds : s.Holds inum ip) (mapped : v.MappedTo s.sb inum off)
    (range : off + (n - tot) ≤ maxFile * bSize) (enough : ¬stops outOfBlocks →
      ∃ blocks, off + (n - tot) ≤ blocks * bSize ∧ v.Budget s.sb inum blocks) :
    Wp stops (writeiFrom ip src n off tot)
      (fun r t => r = off + (n - tot) ∧
        ∃ v', Stored ip inum off (n - tot) (fun k => src (tot + k)) s v t v') s := by
  induction gap : n - tot using Nat.strong_induction_on generalizing s v off tot with
  | _ left ih =>
  unfold writeiFrom
  apply Wp.ite
  · intro more
    have positive : off % bSize < bSize := Nat.mod_lt _ (by decide)
    have block : off / bSize < maxFile := by
      simp only [bSize] at *
      omega
    obtain ⟨place, isPlace⟩ := filePlace_some block
    have enough' (total : ¬stops outOfBlocks) :
        ∃ blocks, off / bSize < blocks ∧ v.Budget s.sb inum blocks := by
      obtain ⟨blocks, bound, budget⟩ := enough total
      refine ⟨blocks, ?_, budget⟩
      simp only [bSize] at *
      omega
    apply Wp.bind (bmap_locates shows covered holds isPlace enough')
    rintro b t ⟨v₁, located⟩
    apply bread_spec
    apply Wp.bind logWrite_spec
    rintro _ _ rfl
    obtain ⟨m, chunk⟩ : ∃ m, m = min (n - tot) (bSize - off % bSize) := ⟨_, rfl⟩
    dsimp only
    rw [← chunk]
    obtain ⟨v₂, first⟩ := located.stored isPlace mapped (m := m) (by omega) (by omega)
      (fun k => src (tot + k))
    have sb := first.touches.sb
    have enough₂ (total : ¬stops outOfBlocks) :
        ∃ blocks, off + m + (n - (tot + m)) ≤ blocks * bSize ∧ v₂.Budget t.sb inum blocks := by
      obtain ⟨blocks, bound, budget⟩ := enough total
      exact ⟨blocks, by omega, sb ▸ (first.budget blocks (by omega)).mpr budget⟩
    apply Wp.mono (ih (n - (tot + m)) (by omega) (off + m) (tot + m) first.shows
      (sb ▸ first.covered)
      (first.touches.holds.mpr holds) (sb ▸ first.mapped) (by omega) enough₂ rfl)
    rintro r u ⟨rfl, v₃, second⟩
    have whole : left = m + (n - (tot + m)) := by omega
    have shift : (fun k => src (tot + m + k)) = fun k => src (tot + (m + k)) :=
      funext fun k => by rw [Nat.add_assoc]
    rw [shift] at second
    refine ⟨by omega, v₃, ?_⟩
    rw [whole]
    exact first.trans second
  · intro done
    have none : left = 0 := by omega
    apply Wp.pure
    rw [none]
    exact ⟨rfl, v, .none shows covered mapped⟩

/-! ## `writei` -/

/-- Only one inode changes, in the cache and on disk. -/
structure Rewrites (ip : Fin nInode) (inum : Nat) (s t : Store) : Prop where
  sb : t.sb = s.sb
  dinode : ∀ i, i < s.sb.ninodes → i ≠ inum → t.dinode i = s.dinode i
  others : ∀ jp, jp ≠ ip → t.icache jp = s.icache jp
  inum : (t.icache ip).inum = (s.icache ip).inum
  ref : (t.icache ip).ref = (s.icache ip).ref
  valid : (t.icache ip).valid = (s.icache ip).valid

/-- The file of an inode has been changed by a write. -/
structure Filed (ip : Fin nInode) (inum off len : Nat) (src : Nat → UInt8) (s : Fs) (v : Volume)
    (t : Fs) (v' : Volume) : Prop where
  shows : Shows t.toStore v'
  covered : v'.Covered s.sb
  rewrites : Rewrites ip inum s.toStore t.toStore
  others : ∀ i, i ≠ inum → v'.node i = v.node i
  /-- So does the inode but for its blocks and its size. -/
  node : { v'.node inum with addrs := (v.node inum).addrs, size := (v.node inum).size } =
    v.node inum
  size : (v'.node inum).size.toNat = max (v.node inum).size.toNat (off + len)
  keeps : ∀ r b, v.Refers s.sb r b → v'.Refers s.sb r b
  inside : ∀ k, k < len → v'.byte inum (off + k) = src k
  outside : ∀ i k place b, place ∈ filePlace (k / bSize) → v.Refers s.sb (i, place) b →
    (i = inum → k < off ∨ off + len ≤ k) → v'.byte i k = v.byte i k
  mapped : v'.MappedTo s.sb inum (v'.node inum).size.toNat
  /-- The inode is stored if the file gets longer, and only then. -/
  clean : t.Clean ip ↔ s.Clean ip ∨ (v.node inum).size.toNat < off + len
  agrees : ∀ part, s.Agrees part ip → t.Agrees part ip
  /-- There are free blocks as before for the rest of the file. -/
  budget : ∀ n, off + len ≤ n * bSize → (v'.Budget s.sb inum n ↔ v.Budget s.sb inum n)
  sound : Sound s v → Sound t v'

/-- The bytes of a file do not depend on its size. -/
theorem Volume.byte_setNode {d : Dinode} (addrs : d.addrs = (v.node inum).addrs) (i k : Nat) :
    (v.setNode inum d).byte i k = v.byte i k := by
  have block (place : Place) :
      ((v.setNode inum d).node i).blockAt v.data place = (v.node i).blockAt v.data place := by
    by_cases here : i = inum
    · subst here
      have node : (v.setNode i d).node i = d := update_self ..
      rw [node]
      cases place <;> simp only [Dinode.blockAt, addrs]
    · have node : (v.setNode inum d).node i = v.node i := update_of_ne here _ _
      rw [node]
  show (filePlace (k / bSize)).elim 0 (fun place =>
    (v.data (((v.setNode inum d).node i).blockAt v.data place)).byte (k % bSize)) = _
  simp only [block]
  rfl

/-- Inside the file, its size stays. -/
theorem Stored.filed (stored : Stored ip inum off len src s v t v') (before : Shows s.toStore v)
    (full : v.MappedTo s.sb inum (v.node inum).size.toNat)
    (within : off + len ≤ (v.node inum).size.toNat) : Filed ip inum off len src s v t v' := by
  have same : t.icache = s.icache := stored.already fun k below => full k (by omega)
  have size : (v'.node inum).size = (v.node inum).size := by rw [← stored.grows.node]
  have held {i : Nat} (holds : t.Holds i ip) : s.Holds i ip := by
    unfold Store.Holds at holds ⊢
    rwa [same] at holds
  have agrees (part : Dinode → Dinode) (agrees : s.Agrees part ip) : t.Agrees part ip := by
    apply agrees.congr (by rw [same])
    exact fun i holds' => stored.touches.dinode i (before.held holds').1
  constructor
  case shows => exact stored.shows
  case covered => exact stored.covered
  case rewrites =>
    obtain ⟨⟨sb, dinode⟩, others, number, ref, valid⟩ := stored.touches
    exact ⟨sb, fun i numbered _ => dinode i numbered, others, number, ref, valid⟩
  case others => exact stored.grows.others
  case node =>
    have node := stored.grows.node
    rw [← size]
    exact node
  case size =>
    rw [size]
    omega
  case keeps => exact stored.grows.keeps
  case inside => exact stored.inside
  case outside => exact stored.outside
  case mapped =>
    rw [size]
    exact stored.grows.mappedTo full
  case clean =>
    rw [or_iff_left (Nat.not_lt.mpr within)]
    constructor
    · intro clean
      apply clean.congr (by rw [same])
      exact fun i holds' => (stored.touches.dinode i (before.held (held holds')).1).symm
    · exact agrees id
  case agrees => exact agrees
  case budget => exact stored.budget
  case sound => exact stored.sound

/-- An inode with another size. -/
def Dinode.withSize (d : Dinode) (size : UInt32) : Dinode := { d with size := size }

/-- After a change of its copy, the inode is stored. -/
theorem Touches.save {s t : Store} (touches : Touches ip s t) (holds : t.Holds inum ip)
    (d : Dinode) :
    Rewrites ip inum s (t.save ip d) := by
  have entry := t.setEntry_same ip { t.icache ip with copy := d }
  have number : (t.icache ip).inum = inum := holds.2.2
  constructor
  case sb => exact touches.sb
  case dinode =>
    intro i numbered apart
    have stored := (t.setEntry ip { t.icache ip with copy := d }).dinode_setDinode inum d i
    rw [if_neg apart] at stored
    rw [Store.save, number, stored]
    exact touches.dinode i numbered
  case others =>
    intro jp apart
    have other := t.setEntry_of_ne { t.icache ip with copy := d } apart
    exact other.trans (touches.others jp apart)
  case inum => exact (congrArg Inode.inum entry).trans touches.inum
  case ref => exact (congrArg Inode.ref entry).trans touches.ref
  case valid => exact (congrArg Inode.valid entry).trans touches.valid

/-- The array got longer, and the new size is stored. -/
theorem Stored.saved (stored : Stored ip inum off len src s v t v') (holds : s.Holds inum ip)
    {size : UInt32} (stop : size.toNat = off + len)
    (longer : (v.node inum).size.toNat < off + len) :
    Filed ip inum off len src s v
      { t with toStore := t.toStore.save ip ((t.icache ip).copy.withSize size) }
      (v'.setNode inum ((v'.node inum).withSize size)) := by
  have touches := stored.touches
  have holds' := touches.holds.mpr holds
  have typed := (stored.shows.held holds').2
  have typed' : ((v'.node inum).withSize size).type ≠ 0 := typed
  rw [stored.shows.copy_eq holds']
  have saved := stored.shows.save holds' typed'
  have addrs : ((v'.node inum).withSize size).addrs = (v'.node inum).addrs := rfl
  have refers (r : Nat × Place) (b : Nat) :
      (v'.setNode inum ((v'.node inum).withSize size)).Refers s.sb r b ↔ v'.Refers s.sb r b :=
    Volume.refers_setNode typed typed' addrs r b
  have bytes := Volume.byte_setNode addrs
  have here : (v'.setNode inum ((v'.node inum).withSize size)).node inum =
      (v'.node inum).withSize size := update_self ..
  constructor
  case shows => exact saved.shows
  case covered => exact stored.covered.sub (fun _ => Iff.rfl) fun r b => (refers r b).mp
  case rewrites => exact touches.save holds' _
  case others =>
    intro i apart
    have other : (v'.setNode inum ((v'.node inum).withSize size)).node i = v'.node i :=
      update_of_ne apart _ _
    rw [other]
    exact stored.grows.others i apart
  case node =>
    have old : (v'.node inum).size = (v.node inum).size := by rw [← stored.grows.node]
    rw [here, ← old]
    exact stored.grows.node
  case size =>
    rw [here]
    show size.toNat = _
    omega
  case keeps => exact fun r b old => (refers r b).mpr (stored.grows.keeps r b old)
  case inside =>
    intro k small
    rw [bytes]
    exact stored.inside k small
  case outside =>
    intro i k place b isPlace old apart
    rw [bytes]
    exact stored.outside i k place b isPlace old apart
  case mapped =>
    rw [here]
    show Volume.MappedTo _ s.sb inum size.toNat
    rw [stop]
    intro k below
    obtain ⟨place, isPlace, b, there⟩ := stored.mapped k below
    exact ⟨place, isPlace, b, (refers _ _).mpr there⟩
  case clean => exact iff_of_true saved.clean (.inr longer)
  case agrees => exact fun part _ => saved.clean.agrees part
  case budget =>
    intro n bound
    have numbered : inum < s.sb.ninodes := touches.sb ▸ (stored.shows.held holds').1
    rw [← stored.budget n bound]
    exact Volume.budget_congr numbered typed (by rw [here]; exact typed') refers rfl n
  case sound =>
    intro sound
    have old := stored.sound sound
    exact ⟨saved.shows, old.accounted.congr (fun _ => Iff.rfl)
      (touches.sb.symm ▸ refers), old.fresh⟩

/-- `writei` refuses to write there. -/
def WriteBad (size off n : UInt32) : Prop :=
  size.toNat < off.toNat ∨ 2 ^ 32 ≤ off.toNat + n.toNat ∨ maxFile * bSize < off.toNat + n.toNat

instance (size off n : UInt32) : Decidable (WriteBad size off n) :=
  inferInstanceAs (Decidable (_ ∨ _))

variable {devsw : Nat → Option (Nat → Option Nat)}

/-- It does so before it changes anything. -/
theorem writei_bad {off n : UInt32} (plain : (s.icache ip).copy.type ≠ tDev)
    (bad : WriteBad (s.icache ip).copy.size off n) :
    writei devsw ip src off n s = .ok (none, s) := by
  have wp : Wp (fun _ => False) (writei devsw ip src off n) (fun r t => r = none ∧ t = s) s := by
    unfold writei
    apply Wp.get
    dsimp only
    rw [if_neg plain]
    apply Wp.ite
    · exact fun _ => Wp.pure ⟨rfl, rfl⟩
    intro inFile
    apply Wp.ite
    · exact fun _ => Wp.pure ⟨rfl, rfl⟩
    · intro fits
      simp only [gt_iff_lt, UInt32.lt_iff_toNat_lt, UInt32.toNat_add, not_or, Nat.not_lt]
        at inFile fits
      have small := off.toNat_lt
      have small' := n.toNat_lt
      unfold WriteBad at bad
      omega
  obtain ⟨r, t, ends, rfl, rfl⟩ := wp.ends
  exact ends

/-- `writei` stores the bytes, and the size if it is a new one. -/
theorem writei_files {off n : UInt32} (shows : Shows s.toStore v) (covered : v.Covered s.sb)
    (holds : s.Holds inum ip) (plain : (v.node inum).type ≠ tDev)
    (full : v.MappedTo s.sb inum (v.node inum).size.toNat)
    (good : ¬WriteBad (v.node inum).size off n)
    (enough : ¬stops outOfBlocks → ∃ blocks, off.toNat + n.toNat ≤ blocks * bSize ∧
      v.Budget s.sb inum blocks) :
    Wp stops (writei devsw ip src off n)
      (fun r t => r = some n.toNat ∧ ∃ v', Filed ip inum off.toNat n.toNat src s v t v') s := by
  have copy := shows.copy_eq holds
  have small := off.toNat_lt
  have small' := n.toNat_lt
  simp only [WriteBad, not_or, Nat.not_lt, Nat.not_le] at good
  obtain ⟨start, whole, range⟩ := good
  have sum : (off + n).toNat = off.toNat + n.toNat := by
    rw [UInt32.toNat_add]
    omega
  unfold writei
  apply Wp.get
  dsimp only
  rw [copy, if_neg plain, if_neg, if_neg]
  · have mapped : v.MappedTo s.sb inum off.toNat := fun k below => full k (by omega)
    apply Wp.bind (writeiFrom_stores src n.toNat off.toNat 0 shows covered holds
      mapped range enough)
    rintro r t ⟨rfl, v₁, stored⟩
    have zero : (fun k => src (0 + k)) = src := funext fun k => by rw [Nat.zero_add]
    rw [Nat.sub_zero] at stored ⊢
    rw [zero] at stored
    apply Wp.ite
    · rintro ⟨-, longer⟩
      apply save_bind
      apply Wp.pure
      have stop : (UInt32.ofNat (off.toNat + n.toNat)).toNat = off.toNat + n.toNat :=
        UInt32.toNat_ofNat_of_lt' whole
      exact ⟨rfl, _, stored.saved holds stop longer⟩
    · intro short
      apply Wp.pure
      refine ⟨rfl, v₁, stored.filed shows full ?_⟩
      by_cases empty : n > 0
      · have within : ¬off.toNat + n.toNat > (v.node inum).size.toNat :=
          fun longer => short ⟨empty, longer⟩
        omega
      · have zero : n.toNat = 0 := by
          have none : ¬0 < n.toNat := fun positive => empty (UInt32.lt_iff_toNat_lt.mpr positive)
          omega
        omega
  · rw [sum]
    omega
  · simp only [gt_iff_lt, UInt32.lt_iff_toNat_lt, sum]
    omega

/-- `writei` keeps the file system good and the cache in agreement with the disk. -/
theorem writei_spec (good : Good s v) (holds : s.Holds inum ip)
    (devsw : Nat → Option (Nat → Option Nat)) (src : Nat → UInt8) (off n : UInt32) :
    Wp noDoubleFree (writei devsw ip src off n)
      (fun _ t => ∃ v', Good t v' ∧ CleanKept s.toStore t.toStore) s := by
  have shows := good.shows
  obtain ⟨numbered, typed⟩ := shows.held holds
  have copy := shows.copy_eq holds
  have stay : ∃ v', Good s v' ∧ CleanKept s.toStore s.toStore := ⟨v, good, fun _ _ agrees => agrees⟩
  by_cases plain : (s.icache ip).copy.type = tDev
  · unfold writei
    apply Wp.get
    dsimp only
    rw [if_pos plain]
    apply Wp.ite
    · exact fun _ => Wp.pure stay
    · intro _
      split
      · exact Wp.pure stay
      · exact Wp.pure stay
  by_cases bad : WriteBad (s.icache ip).copy.size off n
  · exact Wp.of_ok (writei_bad plain bad) stay
  rw [copy] at plain bad
  apply Wp.mono (writei_files shows (.of_ledger good.accounted) holds plain
    (good.full inum numbered typed) bad fun total => absurd noDoubleFree_outOfBlocks total)
  rintro _ t ⟨-, v', filed⟩
  have sb := filed.rewrites.sb
  refine ⟨v', ⟨filed.sound good.toSound, fun i numbered' typed' => ?_⟩, fun part jp agrees => ?_⟩
  · by_cases here : i = inum
    · rw [here, sb]
      exact filed.mapped
    · rw [filed.others i here] at typed' ⊢
      intro k below
      obtain ⟨place, isPlace, b, refers⟩ := good.full i (sb ▸ numbered') typed' k below
      exact ⟨place, isPlace, b, sb ▸ filed.keeps _ _ refers⟩
  · by_cases here : jp = ip
    · subst here
      exact filed.agrees part agrees
    · apply agrees.congr (filed.rewrites.others jp here)
      intro i holds'
      apply filed.rewrites.dinode i (shows.held holds').1
      rintro rfl
      exact here (shows.unique jp ip holds'.1 holds.1 (holds'.2.2.trans holds.2.2.symm))

end Xv6
