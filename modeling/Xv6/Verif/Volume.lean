import Xv6.Spec.Blocks

/-!
# A disk and the volume it holds

A volume is what the blocks mean: marks, inodes and data blocks. Each kind of block write and each
change of the inode cache is a lemma that says what it does to the volume; the layout of the disk
and the cache are dealt with here and nowhere else.
-/

namespace Xv6

open Lib Function

/-! ## Inodes in blocks -/

/-- An inode in a block is made of its own bytes. -/
theorem getDinode_congr {data data' : Block} {offset offset' : Nat}
    (same : ∀ k, k < dinodeSize → data.byte (offset + k) = data'.byte (offset' + k)) :
    getDinode data offset = getDinode data' offset' := by
  have half (k : Nat) (inside : k + 2 ≤ dinodeSize) :
      data.half (offset + k) = data'.half (offset' + k) :=
    Bytes.half_congr fun i small => by
      rw [Nat.add_assoc, Nat.add_assoc]
      exact same (k + i) (by omega)
  have word (k : Nat) (inside : k + 4 ≤ dinodeSize) :
      data.word (offset + k) = data'.word (offset' + k) :=
    Bytes.word_congr fun i small => by
      rw [Nat.add_assoc, Nat.add_assoc]
      exact same (k + i) (by omega)
  have addrs (i : Fin (nDirect + 1)) :
      data.word (offset + 12 + 4 * i) = data'.word (offset' + 12 + 4 * i) := by
    have bound : i.val < 13 := i.isLt
    rw [Nat.add_assoc, Nat.add_assoc]
    exact word _ (by simp only [dinodeSize]; omega)
  simp only [getDinode, addrs]
  rw [half 2 (by decide), half 4 (by decide), half 6 (by decide), word 8 (by decide)]
  congr 1
  exact half 0 (by decide)

/-- Storing an inode leaves the bytes outside it alone. -/
theorem byte_putDinode_outside (data : Block) (offset other : Nat) (d : Dinode)
    (apart : other < offset ∨ offset + dinodeSize ≤ other) :
    (putDinode data offset d).byte other = data.byte other := by
  simp only [dinodeSize] at apart
  have length : (List.ofFn d.addrs).length = 13 := List.length_ofFn
  simp only [putDinode]
  rw [Bytes.byte_setWords_outside _ _ _ _ (by rw [length]; omega),
    Bytes.byte_setWord_outside _ _ _ _ (by omega), Bytes.byte_setHalf_outside _ _ _ _ (by omega),
    Bytes.byte_setHalf_outside _ _ _ _ (by omega), Bytes.byte_setHalf_outside _ _ _ _ (by omega),
    Bytes.byte_setHalf_outside _ _ _ _ (by omega)]

/-- An inode is read as it was stored. -/
theorem getDinode_putDinode_same (data : Block) (offset : Nat) (d : Dinode)
    (fits : offset + dinodeSize ≤ bSize) : getDinode (putDinode data offset d) offset = d := by
  simp only [dinodeSize] at fits
  have type : (putDinode data offset d).half offset = d.type := by
    rw [putDinode, Bytes.half_setWords_before _ _ _ _ (by omega),
      Bytes.half_setWord_apart _ _ _ _ (by omega), Bytes.half_setHalf_apart _ _ _ _ (by omega),
      Bytes.half_setHalf_apart _ _ _ _ (by omega), Bytes.half_setHalf_apart _ _ _ _ (by omega),
      Bytes.half_setHalf_same _ _ _ (by omega)]
  have major : (putDinode data offset d).half (offset + 2) = d.major := by
    rw [putDinode, Bytes.half_setWords_before _ _ _ _ (by omega),
      Bytes.half_setWord_apart _ _ _ _ (by omega), Bytes.half_setHalf_apart _ _ _ _ (by omega),
      Bytes.half_setHalf_apart _ _ _ _ (by omega), Bytes.half_setHalf_same _ _ _ (by omega)]
  have minor : (putDinode data offset d).half (offset + 4) = d.minor := by
    rw [putDinode, Bytes.half_setWords_before _ _ _ _ (by omega),
      Bytes.half_setWord_apart _ _ _ _ (by omega), Bytes.half_setHalf_apart _ _ _ _ (by omega),
      Bytes.half_setHalf_same _ _ _ (by omega)]
  have nlink : (putDinode data offset d).half (offset + 6) = d.nlink := by
    rw [putDinode, Bytes.half_setWords_before _ _ _ _ (by omega),
      Bytes.half_setWord_apart _ _ _ _ (by omega), Bytes.half_setHalf_same _ _ _ (by omega)]
  have size : (putDinode data offset d).word (offset + 8) = d.size := by
    rw [putDinode, Bytes.word_setWords_before _ _ _ _ (by omega),
      Bytes.word_setWord_same _ _ _ (by omega)]
  have addrs (i : Fin (nDirect + 1)) :
      (putDinode data offset d).word (offset + 12 + 4 * i) = d.addrs i := by
    have length : (List.ofFn d.addrs).length = 13 := List.length_ofFn
    rw [putDinode, Bytes.word_setWords_same _ _ _ (by rw [length]; omega) _ (by simp [i.isLt])]
    exact List.getElem_ofFn ..
  simp only [getDinode, type, major, minor, nlink, size, addrs]

/-- Storing an inode leaves the others alone. -/
theorem getDinode_putDinode_apart (data : Block) (offset other : Nat) (d : Dinode)
    (apart : other + dinodeSize ≤ offset ∨ offset + dinodeSize ≤ other) :
    getDinode (putDinode data offset d) other = getDinode data other := by
  apply getDinode_congr
  intro k small
  exact byte_putDinode_outside _ _ _ _ (by omega)

/-! ## The parts of the disk -/

namespace Superblock.WellFormed

variable {sb : Superblock} {b i x : Nat}

variable (wellFormed : sb.WellFormed)

include wellFormed

/-- A data block is none of the bitmap. -/
theorem data_ne_bitmap (data : sb.dataStart ≤ x) (inside : b < sb.size) : sb.bblock b ≠ x :=
  Nat.ne_of_lt (Nat.lt_of_lt_of_le (wellFormed.bitmap b inside) data)

/-- An inode block is not either. -/
theorem inode_ne_bitmap (numbered : i < sb.ninodes) (b : Nat) : sb.iblock i ≠ sb.bblock b :=
  Nat.ne_of_lt (Nat.lt_of_lt_of_le (wellFormed.inodes i numbered) (Nat.le_add_left ..))

/-- A data block is no inode block. -/
theorem data_ne_inode (data : sb.dataStart ≤ x) (inside : x < sb.size)
    (numbered : i < sb.ninodes) : sb.iblock i ≠ x := by
  have bitmap : sb.bmapstart ≤ sb.bblock x := Nat.le_add_left ..
  have before := Nat.lt_of_lt_of_le (wellFormed.inodes i numbered) bitmap
  exact Nat.ne_of_lt (Nat.lt_of_lt_of_le (before.trans (wellFormed.bitmap x inside)) data)

/-- The super block is none of the bitmap. -/
theorem super_ne_bitmap (b : Nat) : 1 ≠ sb.bblock b := by
  have bitmap : sb.bmapstart ≤ sb.bblock b := Nat.le_add_left ..
  exact Nat.ne_of_lt ((wellFormed.boot.trans wellFormed.order).trans bitmap)

/-- It is no inode block. -/
theorem super_ne_inode (i : Nat) : 1 ≠ sb.iblock i :=
  Nat.ne_of_lt (wellFormed.boot.trans (Nat.le_add_left ..))

/-- It is no data block. -/
theorem super_ne_data (data : sb.dataStart ≤ x) (inside : x < sb.size) : 1 ≠ x := by
  have bitmap : sb.bmapstart ≤ sb.bblock x := Nat.le_add_left ..
  have after := (wellFormed.boot.trans wellFormed.order).trans bitmap
  exact Nat.ne_of_lt (Nat.lt_of_lt_of_le (Nat.lt_of_lt_of_le (by decide) after)
    (Nat.le_of_lt (Nat.lt_of_lt_of_le (wellFormed.bitmap x inside) data)))

end Superblock.WellFormed

namespace Store

variable {s t : Store}

/-- The disk with one block replaced. -/
def write (s : Store) (b : Nat) (data : Block) : Store :=
  { s with disk := update s.disk b data }

variable {x : Inode} {b i inum : Nat} {ip jp : Fin nInode}

/-- The other blocks stay. -/
theorem disk_write_of_ne (s : Store) {x : Nat} (data : Block) (apart : b ≠ x) :
    (s.write x data).disk b = s.disk b :=
  update_of_ne apart _ _

/-- A write outside the bitmap leaves the marks. -/
theorem mark_write_of_ne (s : Store) {x : Nat} (data : Block) (apart : s.sb.bblock b ≠ x) :
    (s.write x data).mark b = s.mark b := by
  show ((s.write x data).disk (s.sb.bblock b)).bit (b % bpb) = s.mark b
  rw [disk_write_of_ne s data apart]
  rfl

/-- A write outside the inode blocks leaves the inodes on disk. -/
theorem dinode_write_of_ne (s : Store) {x : Nat} (data : Block) (apart : s.sb.iblock i ≠ x) :
    (s.write x data).dinode i = s.dinode i := by
  show getDinode ((s.write x data).disk (s.sb.iblock i)) (i % ipb * dinodeSize) = s.dinode i
  rw [disk_write_of_ne s data apart]
  rfl

/-- Setting or clearing a bit of the bitmap. -/
def setMark (s : Store) (b : Nat) (value : Bool) : Store :=
  s.write (s.sb.bblock b)
    (if value then (s.disk (s.sb.bblock b)).setBit (b % bpb)
      else (s.disk (s.sb.bblock b)).clearBit (b % bpb))

/-- Storing an inode on disk. -/
def setDinode (s : Store) (inum : Nat) (d : Dinode) : Store :=
  s.write (s.sb.iblock inum)
    (putDinode (s.disk (s.sb.iblock inum)) (inum % ipb * dinodeSize) d)

/-- The bit of a block is in its block of the bitmap. -/
theorem mark_inside (b : Nat) : b % bpb / 8 < bSize := by
  have small : b % bpb < 4096 := Nat.mod_lt _ (by decide)
  simp only [bSize]
  omega

/-- One bit changes. -/
theorem mark_setMark (s : Store) (b : Nat) (value : Bool) (c : Nat) :
    (s.setMark b value).mark c = if c = b then value else s.mark c := by
  have bits := s.disk (s.sb.bblock b) |>.bit_setBit (b % bpb) (c % bpb) (mark_inside b)
  have bits' := s.disk (s.sb.bblock b) |>.bit_clearBit (b % bpb) (c % bpb) (mark_inside b)
  simp only [mark, setMark, write]
  by_cases block : s.sb.bblock c = s.sb.bblock b
  · have place : c % bpb = b % bpb ↔ c = b := by
      simp only [Superblock.bblock, bpb, bSize] at *
      omega
    rw [block, update_self]
    cases value with
    | false => simp only [Bool.false_eq_true, if_false, bits', place]
    | true => simp only [if_true, bits, place]
  · have apart : c ≠ b := fun same => block (by rw [same])
    rw [update_of_ne block, if_neg apart]

/-- Two inodes of a block do not overlap. -/
theorem dinode_apart {j : Nat} (block : i / ipb = j / ipb) (apart : i ≠ j) :
    i % ipb * dinodeSize + dinodeSize ≤ j % ipb * dinodeSize ∨
      j % ipb * dinodeSize + dinodeSize ≤ i % ipb * dinodeSize := by
  have places : i % ipb ≠ j % ipb := by
    intro same
    apply apart
    rw [← Nat.div_add_mod i ipb, ← Nat.div_add_mod j ipb, block, same]
  simp only [dinodeSize]
  omega

/-- One inode changes. -/
theorem dinode_setDinode (s : Store) (inum : Nat) (d : Dinode) (i : Nat) :
    (s.setDinode inum d).dinode i = if i = inum then d else s.dinode i := by
  simp only [dinode, setDinode, write]
  by_cases block : s.sb.iblock i = s.sb.iblock inum
  · rw [block, update_self]
    by_cases same : i = inum
    · have fits : inum % ipb * dinodeSize + dinodeSize ≤ bSize := by
        have small : inum % ipb < 8 := Nat.mod_lt _ (by decide)
        simp only [dinodeSize, bSize]
        omega
      rw [if_pos same, same, getDinode_putDinode_same _ _ _ fits]
    · have blocks : i / ipb = inum / ipb := by
        simp only [Superblock.iblock] at block
        omega
      rw [if_neg same, getDinode_putDinode_apart _ _ _ _ (dinode_apart blocks same)]
  · have apart : i ≠ inum := fun same => block (by rw [same])
    rw [update_of_ne block, if_neg apart]

/-! ## The inode cache -/

/-- No two entries in use are for one inode. -/
def Unique (s : Store) : Prop :=
  ∀ ip jp, 0 < (s.icache ip).ref → 0 < (s.icache jp).ref →
    (s.icache ip).inum = (s.icache jp).inum → ip = jp

/-- An inode that is cached and read is its copy in memory. -/
theorem inode_of_holds (unique : s.Unique) (holds : s.Holds inum ip) :
    s.inode inum = (s.icache ip).copy := by
  unfold inode
  split
  · rename_i jp found
    have holds' : s.Holds inum jp := by simpa using List.find?_some found
    rw [unique jp ip holds'.1 holds.1 (holds'.2.2.trans holds.2.2.symm)]
  · rename_i none
    rw [List.find?_eq_none] at none
    exact absurd (decide_eq_true holds) (none ip (List.mem_finRange ip))

/-- An inode that is not is the one on disk. -/
theorem inode_of_none (none : ∀ ip, ¬s.Holds inum ip) : s.inode inum = s.dinode inum := by
  unfold inode
  split
  · rename_i ip found
    have holds : s.Holds inum ip := by simpa using List.find?_some found
    exact absurd holds (none ip)
  · rfl

/-- An inode is seen as before if its entry and the disk have not changed. -/
theorem inode_congr (holds : ∀ ip, t.Holds inum ip ↔ s.Holds inum ip)
    (copy : ∀ ip, s.Holds inum ip → (t.icache ip).copy = (s.icache ip).copy)
    (disk : t.dinode inum = s.dinode inum) : t.inode inum = s.inode inum := by
  have same : (fun ip => decide (t.Holds inum ip)) = fun ip => decide (s.Holds inum ip) :=
    funext fun ip => by simp only [holds]
  unfold inode
  rw [same]
  split
  · rename_i ip found
    have held : s.Holds inum ip := by simpa using List.find?_some found
    exact copy ip held
  · exact disk

/-- Storing an inode leaves the others as they are seen. -/
theorem inode_setDinode_of_ne (s : Store) (d : Dinode) (apart : i ≠ inum) :
    (s.setDinode inum d).inode i = s.inode i := by
  have disk : (s.setDinode inum d).dinode i = s.dinode i := by
    rw [dinode_setDinode, if_neg apart]
  exact inode_congr (fun _ => Iff.rfl) (fun _ _ => rfl) disk

/-- The inode cache with one entry replaced. -/
def setEntry (s : Store) (ip : Fin nInode) (x : Inode) : Store :=
  { s with icache := update s.icache ip x }

/-- A change of an entry. -/
theorem setEntry_same (s : Store) (ip : Fin nInode) (x : Inode) : (s.setEntry ip x).icache ip = x :=
  update_self ..

/-- The other entries stay. -/
theorem setEntry_of_ne (s : Store) (x : Inode) (apart : jp ≠ ip) :
    (s.setEntry ip x).icache jp = s.icache jp :=
  update_of_ne apart _ _

/-- Which inodes the other entries hold. -/
theorem holds_setEntry_of_ne (s : Store) (x : Inode) (apart : jp ≠ ip) :
    (s.setEntry ip x).Holds inum jp ↔ s.Holds inum jp := by
  unfold Holds
  rw [setEntry_of_ne s x apart]

/-- An entry changes to one for an inode that no other entry is for. -/
theorem Unique.setEntry (alone : s.Unique)
    (unique : 0 < x.ref → ∀ jp, jp ≠ ip → 0 < (s.icache jp).ref → (s.icache jp).inum ≠ x.inum) :
    (s.setEntry ip x).Unique := by
  intro jp kp inUse inUse' same
  by_cases here : jp = ip
  · by_cases here' : kp = ip
    · rw [here, here']
    · rw [here, setEntry_same] at inUse same
      rw [setEntry_of_ne s x here'] at inUse' same
      exact absurd same.symm (unique inUse kp here' inUse')
  · by_cases here' : kp = ip
    · rw [here', setEntry_same] at inUse' same
      rw [setEntry_of_ne s x here] at inUse same
      exact absurd same (unique inUse' jp here inUse)
    · rw [setEntry_of_ne s x here] at inUse same
      rw [setEntry_of_ne s x here'] at inUse' same
      exact alone jp kp inUse inUse' same

/-- An inode is seen as before if the entry that changes does not hold it. -/
theorem inode_setEntry_of_not (s : Store) (before : ¬s.Holds i ip)
    (after : ¬(s.setEntry ip x).Holds i ip) : (s.setEntry ip x).inode i = s.inode i := by
  apply inode_congr
  case holds =>
    intro jp
    by_cases here : jp = ip
    · rw [here]
      exact iff_of_false after before
    · exact holds_setEntry_of_ne s x here
  case copy =>
    intro jp holds
    have apart : jp ≠ ip := by
      rintro rfl
      exact before holds
    rw [setEntry_of_ne s x apart]
  case disk => rfl

end Store

/-! ## Volumes -/

/-- What the blocks of a disk mean. -/
structure Volume where
  mark : Nat → Bool
  node : Nat → Dinode
  data : Disk

/-- A disk with an inode cache holds a volume. -/
structure Shows (s : Store) (v : Volume) : Prop where
  wellFormed : s.sb.WellFormed
  sb : getSuperblock (s.disk 1) = s.sb
  mark : ∀ b, b < s.sb.size → s.mark b = v.mark b
  data : ∀ b, s.sb.dataStart ≤ b → b < s.sb.size → s.disk b = v.data b
  node : ∀ inum, inum < s.sb.ninodes → s.inode inum = v.node inum
  unique : s.Unique
  numbered : ∀ ip, 0 < (s.icache ip).ref → (s.icache ip).inum < s.sb.ninodes
  /-- The inodes that are cached and read are allocated. -/
  typed : ∀ inum ip, s.Holds inum ip → (s.icache ip).copy.type ≠ 0 ∧ (s.dinode inum).type ≠ 0

namespace Shows

variable {s : Store} {v : Volume}

variable {x : Inode} {data : Block} {v' : Volume} {inum : Nat} {d : Dinode} {ip : Fin nInode}

variable (shows : Shows s v)

include shows

/-- A write shows if its parts do. -/
theorem write {x : Nat} (super : 1 ≠ x)
    (mark : ∀ b, b < s.sb.size → (s.write x data).mark b = v'.mark b)
    (blocks : ∀ b, s.sb.dataStart ≤ b → b < s.sb.size → (s.write x data).disk b = v'.data b)
    (node : ∀ inum, inum < s.sb.ninodes → (s.write x data).inode inum = v'.node inum)
    (typed : ∀ inum ip, s.Holds inum ip → ((s.write x data).dinode inum).type ≠ 0) :
    Shows (s.write x data) v' := by
  constructor
  case wellFormed => exact shows.wellFormed
  case sb =>
    rw [Store.disk_write_of_ne s data super]
    exact shows.sb
  case mark => exact mark
  case data => exact blocks
  case node => exact node
  case unique => exact shows.unique
  case numbered => exact shows.numbered
  case typed => exact fun inum ip holds => ⟨(shows.typed inum ip holds).1, typed inum ip holds⟩

/-- A write that leaves the inode blocks. -/
theorem write_of_ne {x : Nat} (super : 1 ≠ x)
    (apart : ∀ inum, inum < s.sb.ninodes → s.sb.iblock inum ≠ x)
    (mark : ∀ b, b < s.sb.size → (s.write x data).mark b = v'.mark b)
    (blocks : ∀ b, s.sb.dataStart ≤ b → b < s.sb.size → (s.write x data).disk b = v'.data b)
    (nodes : v'.node = v.node) : Shows (s.write x data) v' := by
  have dinode {inum : Nat} (numbered : inum < s.sb.ninodes) :
      (s.write x data).dinode inum = s.dinode inum :=
    Store.dinode_write_of_ne s data (apart inum numbered)
  apply shows.write super mark blocks
  · intro inum numbered
    have same : (s.write x data).inode inum = s.inode inum :=
      Store.inode_congr (fun _ => Iff.rfl) (fun _ _ => rfl) (dinode numbered)
    rw [same, nodes]
    exact shows.node inum numbered
  · intro inum ip holds
    rw [dinode (holds.2.2 ▸ shows.numbered ip holds.1)]
    exact (shows.typed inum ip holds).2

/-- A bit is set or cleared. -/
theorem setMark {b : Nat} (inside : b < s.sb.size) (value : Bool) :
    Shows (s.setMark b value) { v with mark := update v.mark b value } := by
  apply shows.write_of_ne (shows.wellFormed.super_ne_bitmap b)
  case apart => exact fun inum numbered => shows.wellFormed.inode_ne_bitmap numbered b
  case mark =>
    intro c inside
    show (s.setMark b value).mark c = update v.mark b value c
    rw [Store.mark_setMark, update_apply, shows.mark c inside]
  case blocks =>
    intro c data bound
    rw [Store.disk_write_of_ne s _ (shows.wellFormed.data_ne_bitmap data inside).symm]
    exact shows.data c data bound
  case nodes => rfl

/-- A data block is written. -/
theorem writeData {x : Nat} (start : s.sb.dataStart ≤ x) (inside : x < s.sb.size)
    (data : Block) : Shows (s.write x data) { v with data := update v.data x data } := by
  apply shows.write_of_ne (shows.wellFormed.super_ne_data start inside)
  case apart => exact fun inum numbered => shows.wellFormed.data_ne_inode start inside numbered
  case mark =>
    intro b bound
    rw [Store.mark_write_of_ne s data (shows.wellFormed.data_ne_bitmap start bound)]
    exact shows.mark b bound
  case blocks =>
    intro b start' bound
    show update s.disk x data b = update v.data x data b
    rw [update_apply, update_apply, shows.data b start' bound]
  case nodes => rfl

/-- An inode is stored. -/
theorem setDinode (numbered : inum < s.sb.ninodes) (typed : ∀ ip, s.Holds inum ip → d.type ≠ 0)
    (marks : v'.mark = v.mark) (data : v'.data = v.data)
    (node : ∀ i, i < s.sb.ninodes → (s.setDinode inum d).inode i = v'.node i) :
    Shows (s.setDinode inum d) v' := by
  apply shows.write (shows.wellFormed.super_ne_inode inum)
  case mark =>
    intro b inside
    rw [Store.mark_write_of_ne s _ (shows.wellFormed.inode_ne_bitmap numbered b).symm, marks]
    exact shows.mark b inside
  case blocks =>
    intro b start inside
    rw [Store.disk_write_of_ne s _
      (shows.wellFormed.data_ne_inode start inside numbered).symm, data]
    exact shows.data b start inside
  case node => exact node
  case typed =>
    intro i ip holds
    show ((s.setDinode inum d).dinode i).type ≠ 0
    rw [Store.dinode_setDinode]
    split
    · rename_i here
      exact typed ip (here ▸ holds)
    · exact (shows.typed i ip holds).2

/-- An inode that is held may be stored: the copy in the cache is what counts. -/
theorem iupdate (holds : s.Holds inum ip) (typed : d.type ≠ 0) : Shows (s.setDinode inum d) v := by
  have numbered : inum < s.sb.ninodes := holds.2.2 ▸ shows.numbered ip holds.1
  apply shows.setDinode numbered (fun _ _ => typed) rfl rfl
  intro i bound
  rw [← shows.node i bound]
  by_cases here : i = inum
  · subst here
    have unique : (s.setDinode i d).Unique := shows.unique
    rw [Store.inode_of_holds shows.unique holds, Store.inode_of_holds unique holds]
    rfl
  · exact Store.inode_setDinode_of_ne s d here

/-- Storing an inode that is not cached. -/
theorem setDinode_of_none (numbered : inum < s.sb.ninodes) (none : ∀ ip, ¬s.Holds inum ip)
    (d : Dinode) : Shows (s.setDinode inum d) { v with node := update v.node inum d } := by
  refine shows.setDinode numbered (fun ip holds => absurd holds (none ip)) rfl rfl fun i bound => ?_
  show (s.setDinode inum d).inode i = update v.node inum d i
  by_cases here : i = inum
  · subst here
    have none' (ip : Fin nInode) : ¬(s.setDinode i d).Holds i ip := none ip
    rw [Store.inode_of_none none', Store.dinode_setDinode, if_pos rfl, update_self]
  · rw [update_of_ne here, Store.inode_setDinode_of_ne s d here, shows.node i bound]

/-- An inode that is free on disk is not cached and read. -/
theorem not_holds_of_free (free : (s.dinode inum).type = 0) (ip : Fin nInode) : ¬s.Holds inum ip :=
  fun holds => (shows.typed inum ip holds).2 free

/-- An entry of the inode cache changes. -/
theorem setEntry (marks : v'.mark = v.mark) (data : v'.data = v.data)
    (unique : 0 < x.ref → ∀ jp, jp ≠ ip → 0 < (s.icache jp).ref → (s.icache jp).inum ≠ x.inum)
    (numbered : 0 < x.ref → x.inum < s.sb.ninodes)
    (typed : 0 < x.ref → x.valid = true → x.copy.type ≠ 0 ∧ (s.dinode x.inum).type ≠ 0)
    (node : ∀ i, i < s.sb.ninodes → (s.setEntry ip x).inode i = v'.node i) :
    Shows (s.setEntry ip x) v' := by
  constructor
  case wellFormed => exact shows.wellFormed
  case sb => exact shows.sb
  case mark => exact marks ▸ shows.mark
  case data => exact data ▸ shows.data
  case node => exact node
  case unique => exact shows.unique.setEntry unique
  case numbered =>
    intro jp inUse
    by_cases here : jp = ip
    · rw [here, Store.setEntry_same] at inUse ⊢
      exact numbered inUse
    · rw [Store.setEntry_of_ne s x here] at inUse ⊢
      exact shows.numbered jp inUse
  case typed =>
    intro inum jp holds
    by_cases here : jp = ip
    · obtain ⟨inUse, valid, rfl⟩ := holds
      rw [here, Store.setEntry_same] at inUse valid ⊢
      exact typed inUse valid
    · rw [Store.holds_setEntry_of_ne s x here] at holds
      rw [Store.setEntry_of_ne s x here]
      exact shows.typed inum jp holds

/-- An entry that is in use is the only one for its inode. -/
theorem others (inUse : 0 < (s.icache ip).ref) (jp : Fin nInode)
    (apart : jp ≠ ip) (inUse' : 0 < (s.icache jp).ref) : (s.icache jp).inum ≠ (s.icache ip).inum :=
  fun same => apart (shows.unique jp ip inUse' inUse same)

/-- An entry holds its inode with a new copy. -/
theorem enter (inUse : 0 < (s.icache ip).ref) (inUse' : 0 < x.ref)
    (inum : x.inum = (s.icache ip).inum) (valid : x.valid = true) (typed : x.copy.type ≠ 0)
    (typed' : (s.dinode x.inum).type ≠ 0) :
    Shows (s.setEntry ip x) { v with node := update v.node x.inum x.copy } := by
  have unique : 0 < x.ref → ∀ jp, jp ≠ ip → 0 < (s.icache jp).ref → (s.icache jp).inum ≠ x.inum :=
    fun _ => inum ▸ shows.others inUse
  refine shows.setEntry rfl rfl unique (fun _ => inum ▸ shows.numbered ip inUse)
    (fun _ _ => ⟨typed, typed'⟩) fun i bound => ?_
  show (s.setEntry ip x).inode i = update v.node x.inum x.copy i
  by_cases here : i = x.inum
  · rw [here, update_self]
    have holds : (s.setEntry ip x).Holds x.inum ip := by
      unfold Store.Holds
      rw [Store.setEntry_same]
      exact ⟨inUse', valid, rfl⟩
    rw [Store.inode_of_holds (shows.unique.setEntry unique) holds, Store.setEntry_same]
  · rw [update_of_ne here, Store.inode_setEntry_of_not s, shows.node i bound]
    · rintro ⟨-, -, same⟩
      exact here (same.symm.trans inum.symm)
    · rintro ⟨-, -, same⟩
      rw [Store.setEntry_same] at same
      exact here same.symm

/-- An entry that does not hold an inode goes on without one. -/
theorem idle (before : ∀ i, ¬s.Holds i ip) (after : 0 < x.ref → x.valid = false)
    (numbered : 0 < x.ref → x.inum < s.sb.ninodes)
    (unique : 0 < x.ref → ∀ jp, jp ≠ ip → 0 < (s.icache jp).ref → (s.icache jp).inum ≠ x.inum) :
    Shows (s.setEntry ip x) v := by
  apply shows.setEntry rfl rfl unique numbered
  case typed =>
    intro inUse valid
    rw [after inUse] at valid
    cases valid
  case node =>
    intro i bound
    rw [Store.inode_setEntry_of_not s (before i), shows.node i bound]
    rintro ⟨inUse, valid, -⟩
    rw [Store.setEntry_same] at inUse valid
    rw [after inUse] at valid
    cases valid

/-- An entry gives up its inode, which is then the one on disk. -/
theorem leave (holds : s.Holds inum ip) (after : 0 < x.ref → x.valid = false ∧ x.inum = inum) :
    Shows (s.setEntry ip x) { v with node := update v.node inum (s.dinode inum) } := by
  obtain ⟨inUse, valid, same⟩ := holds
  have unheld (i : Nat) : ¬(s.setEntry ip x).Holds i ip := by
    rintro ⟨inUse', valid', -⟩
    rw [Store.setEntry_same] at inUse' valid'
    rw [(after inUse').1] at valid'
    cases valid'
  refine shows.setEntry rfl rfl ?unique ?numbered ?typed ?node
  case unique =>
    intro inUse'
    rw [(after inUse').2, ← same]
    exact shows.others inUse
  case numbered =>
    intro inUse'
    rw [(after inUse').2, ← same]
    exact shows.numbered ip inUse
  case typed =>
    intro inUse' valid'
    rw [(after inUse').1] at valid'
    cases valid'
  case node =>
    intro i bound
    show (s.setEntry ip x).inode i = update v.node inum (s.dinode inum) i
    by_cases here : i = inum
    · rw [here, update_self]
      apply Store.inode_of_none
      intro jp holds'
      by_cases other : jp = ip
      · rw [other] at holds'
        exact unheld inum holds'
      · rw [Store.holds_setEntry_of_ne s x other] at holds'
        exact shows.others inUse jp other holds'.1 (holds'.2.2.trans same.symm)
    · rw [update_of_ne here, Store.inode_setEntry_of_not s _ (unheld i),
        shows.node i bound]
      rintro ⟨-, -, same'⟩
      exact here (same'.symm.trans same)

end Shows

end Xv6
