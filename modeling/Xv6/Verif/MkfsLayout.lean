import Xv6.Host.Mkfs
import Xv6.Verif.BlockAccount

/-!
# How `mkfs` lays out files

The image is a volume: the blocks before `freeblock` are marked, and the rest are blank. Files are
laid out in it when their bytes are in the blocks of their inodes and they have no further blocks.
The layout is kept when a file gets a blank block and when bytes are written after its end.
-/

namespace Xv6.Mkfs

open Lib Function

/-- The inodes for which the inode blocks have places. -/
def table : Superblock := { sb with ninodes := ninodeblocks * ipb }

/-- A file with its bytes in a volume, for each inode, and bounds on the number of their blocks. -/
structure Laid (v : Volume) (content : Nat → List UInt8) (room : Nat → Nat) : Prop where
  accounted : v.Accounted table
  bytes : ∀ i k c, (content i)[k]? = some c → ∃ place ∈ filePlace (k / bSize),
    ∃ b, v.Refers table (i, place) b ∧ (v.data b).byte (k % bSize) = c
  blocks : ∀ i k place b, place ∈ filePlace k → v.Refers table (i, place) b → k < room i
  /-- There is an indirect block for further blocks than the direct ones. -/
  indirect : ∀ i b, v.Refers table (i, .indirect) b → nDirect < room i
  blank : ∀ b, b < fsSize → v.mark b = false → v.data b = Bytes.zero

namespace Laid

variable {v v' : Volume} {content : Nat → List UInt8} {room room' : Nat → Nat} {inum b : Nat}

variable (laid : Laid v content room)

include laid

/-- One reference more, and the bytes of files as before. -/
theorem grow {place : Place}
    (adds : Volume.Adds table inum place b v v') (free : v.mark b = false) (inside : b < fsSize)
    (wider : ∀ i, room i ≤ room' i) (blocks : ∀ k, place ∈ filePlace k → k < room' inum)
    (indirect : place = .indirect → nDirect < room' inum)
    (blank : ∀ c, c < fsSize → v'.mark c = false → v'.data c = Bytes.zero) :
    Laid v' content room' where
  accounted := adds.accounted laid.accounted (by simp [Volume.Marked, free]) inside
  bytes := by
    intro i k c byte
    obtain ⟨place, there, b, old, same⟩ := laid.bytes i k c byte
    refine ⟨place, there, b, adds.keeps _ _ old, ?_⟩
    rw [adds.content (i, place) b old (filePlace_ne_indirect there), same]
  blocks := by
    intro i k place' c there new
    rcases (adds.refers _ _).mp new with old | ⟨here, -⟩
    · exact Nat.lt_of_lt_of_le (laid.blocks i k place' c there old) (wider i)
    · obtain ⟨rfl, rfl⟩ := Prod.mk.inj here
      exact blocks k there
  indirect := by
    intro i c new
    rcases (adds.refers _ _).mp new with old | ⟨here, -⟩
    · exact Nat.lt_of_lt_of_le (laid.indirect i c old) (wider i)
    · obtain ⟨rfl, rfl⟩ := Prod.mk.inj here
      exact indirect rfl
  blank := blank

/-- A block that is referred to is marked. -/
theorem marked {r : Nat × Place} (refers : v.Refers table r b) : v.mark b = true :=
  (laid.accounted.marked_of_refs refers).2

/-- A blank block becomes an entry of `addrs`. -/
theorem addAddr {i : Fin (nDirect + 1)} (numbered : inum < table.ninodes)
    (typed : (v.node inum).type ≠ 0) (free : v.mark b = false) (inside : b < fsSize)
    (nonzero : b ≠ 0) (empty : (v.node inum).addrs i = 0) (wider : ∀ j, room j ≤ room' j)
    (within : i.val < room' inum) : Laid (v.addAddr inum i b) content room' := by
  have unmarked : ¬v.Marked table b := fun marked => by simp [marked.2] at free
  have small : b < 2 ^ 32 := inside.trans (by decide)
  have covered : v.Covered table := .of_ledger laid.accounted
  have adds := covered.addAddr numbered typed unmarked nonzero small empty
  refine laid.grow adds free inside wider ?_ ?_ ?_
  · intro k there
    unfold Place.ofAddr at there
    split at there
    · rename_i direct
      have same : k = i := filePlace_inj there (by simp [filePlace, direct])
      rw [same]
      exact within
    · exact absurd rfl (filePlace_ne_indirect there)
  · intro last
    unfold Place.ofAddr at last
    split at last
    · cases last
    · rename_i far
      exact Nat.lt_of_le_of_lt (Nat.le_of_not_lt far) within
  · intro c bound unset
    have other : c ≠ b := by
      rintro rfl
      simp [Volume.addAddr] at unset
    simp only [Volume.addAddr, update_of_ne other] at unset ⊢
    exact laid.blank c bound unset

/-- A blank block becomes an entry of an indirect block. -/
theorem addEntry {j : Fin nIndirect} (numbered : inum < table.ninodes)
    (typed : (v.node inum).type ≠ 0) (free : v.mark b = false) (inside : b < fsSize)
    (nonzero : b ≠ 0)
    (present : (v.node inum).indirect ≠ 0) (empty : (v.node inum).blockAt v.data (.entry j) = 0)
    (wider : ∀ j, room j ≤ room' j) (within : nDirect + j < room' inum) :
    Laid (v.addEntry (v.node inum).indirect j b) content room' := by
  have unmarked : ¬v.Marked table b := fun marked => by simp [marked.2] at free
  have small : b < 2 ^ 32 := inside.trans (by decide)
  have covered : v.Covered table := .of_ledger laid.accounted
  have adds := covered.addEntry numbered typed unmarked nonzero small present empty
  have owned : v.Refers table (inum, .indirect) (v.node inum).indirect :=
    Volume.refers_indirect numbered typed present
  refine laid.grow adds free inside wider ?_ ?_ ?_
  · intro k there
    have same : k = nDirect + j := filePlace_inj there (by simp [filePlace])
    rw [same]
    exact within
  · intro last
    cases last
  · intro c bound unset
    have other : c ≠ b := by
      rintro rfl
      simp [Volume.addEntry] at unset
    simp only [Volume.addEntry, update_of_ne other] at unset
    have other' : c ≠ (v.node inum).indirect := by
      rintro rfl
      simp [laid.marked owned] at unset
    simp only [Volume.addEntry, update_of_ne other, update_of_ne other']
    exact laid.blank c bound unset

/-- Bytes are written after the end of a file, in one block. -/
theorem write {place : Place} {x : Nat} {p : List UInt8} {buf : Block}
    (there : place ∈ filePlace ((content inum).length / bSize))
    (refers : v.Refers table (inum, place) x)
    (fits : (content inum).length % bSize + p.length ≤ bSize)
    (written : ∀ k c, p[k]? = some c → buf.byte ((content inum).length % bSize + k) = c)
    (kept : ∀ k, k < (content inum).length % bSize → buf.byte k = (v.data x).byte k) :
    Laid { v with data := update v.data x buf } (update content inum (content inum ++ p)) room := by
  obtain ⟨accounted, same⟩ := laid.accounted.writeLeaf refers (filePlace_ne_indirect there) buf
  constructor
  case accounted => exact accounted
  case blocks =>
    exact fun i k place b there' refers' => laid.blocks i k place b there' ((same _ _).mp refers')
  case indirect => exact fun i b refers' => laid.indirect i b ((same _ _).mp refers')
  case blank =>
    intro c bound unset
    have other : c ≠ x := by
      rintro rfl
      rw [laid.marked refers] at unset
      cases unset
    simp only [update_of_ne other]
    exact laid.blank c bound unset
  case bytes =>
    -- A byte that was there before is in another block, or in the part of the block that is kept.
    have old (i k : Nat) (c : UInt8) (byte : (content i)[k]? = some c) :
        ∃ place ∈ filePlace (k / bSize), ∃ b, v.Refers table (i, place) b ∧
          (update v.data x buf b).byte (k % bSize) = c := by
      obtain ⟨place', there', b, refers', same'⟩ := laid.bytes i k c byte
      refine ⟨place', there', b, refers', ?_⟩
      by_cases here : b = x
      · subst here
        have meet := laid.accounted.once _ _ _ refers' refers
        obtain ⟨rfl, rfl⟩ := Prod.mk.inj meet
        have block := filePlace_inj there' there
        have inside : k < (content i).length := (List.getElem?_eq_some_iff.mp byte).1
        have before : k % bSize < (content i).length % bSize := by
          have lower := Nat.div_add_mod k bSize
          have upper := Nat.div_add_mod (content i).length bSize
          rw [block] at lower
          omega
        rw [update_self, kept _ before, same']
      · rw [update_of_ne here, same']
    intro i k c byte
    simp only [same]
    by_cases here : i = inum
    · subst here
      rw [update_self, List.getElem?_append] at byte
      split at byte
      · exact old i k c byte
      rename_i after
      have inside : k - (content i).length < p.length := (List.getElem?_eq_some_iff.mp byte).1
      have split : k / bSize = (content i).length / bSize ∧
          k % bSize = (content i).length % bSize + (k - (content i).length) := by
        simp only [bSize] at *
        omega
      rw [split.1, split.2]
      refine ⟨place, there, x, refers, ?_⟩
      rw [update_self]
      exact written _ c byte
    · rw [update_of_ne here] at byte
      exact old i k c byte

/-- The same references, and the same data blocks. -/
theorem congr (refers : ∀ r c, v'.Refers table r c ↔ v.Refers table r c) (mark : v'.mark = v.mark)
    (data : ∀ b, nmeta ≤ b → v'.data b = v.data b) : Laid v' content room where
  accounted := by
    refine laid.accounted.congr (fun c => ?_) refers
    unfold Volume.Marked
    rw [mark]
  bytes := by
    intro i k c byte
    obtain ⟨place, there, b, old, same⟩ := laid.bytes i k c byte
    exact ⟨place, there, b, (refers _ _).mpr old, by rw [data b (laid.accounted.data old).1, same]⟩
  blocks := fun i k place b there new => laid.blocks i k place b there ((refers _ _).mp new)
  indirect := fun i b new => laid.indirect i b ((refers _ _).mp new)
  blank := by
    intro b bound unset
    rw [mark] at unset
    have start : nmeta ≤ b := by
      by_contra before
      have marked := (laid.accounted.marked_iff b).mpr (.inl (Nat.lt_of_not_le before))
      rw [marked.2] at unset
      cases unset
    rw [data b start]
    exact laid.blank b bound unset

/-- The same inodes of the table, and the same data blocks. -/
theorem congr_nodes (nodes : ∀ i, i < table.ninodes → v'.node i = v.node i)
    (mark : v'.mark = v.mark) (data : ∀ b, nmeta ≤ b → v'.data b = v.data b) :
    Laid v' content room := by
  refine laid.congr (fun r c => ?_) mark data
  unfold Volume.Refers
  refine and_congr_right fun numbered => ?_
  rw [nodes r.1 numbered]
  refine and_congr_right fun typed => and_congr_right fun _ => ?_
  rw [Dinode.blockAt_congr]
  intro present
  exact data _ (laid.accounted.data (Volume.refers_indirect numbered typed present)).1

end Laid

end Xv6.Mkfs
