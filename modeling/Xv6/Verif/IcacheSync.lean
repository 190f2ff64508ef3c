import Xv6.Lib.Tally
import Xv6.Kernel.Icache

/-!
# The inode cache agrees with the disk

The reference count of an entry is the number of references that processes have or are putting. The
entries in use are for different inodes. A valid entry in use agrees with the disk, except while the
process that holds its lock has changed it or is freeing it; and its inode is allocated on disk,
except between the last `iupdate` of a freeing `iput` and the end of its validity, so that `ialloc`
does not touch an inode that is valid in the cache. What a freeing `iput` has stored is an inode
without type, size and blocks.
-/

namespace Xv6

open Lib Function

/-- An inode without size and blocks. -/
def Dinode.Truncated (d : Dinode) : Prop := d.size = 0 ∧ ∀ i, d.addrs i = 0

/-- The inode is linked, or is free. -/
def Dinode.Settled (d : Dinode) : Prop := d.nlink = 0 → d.type = 0 ∧ d.Truncated

namespace Icache

/-- How a valid entry and the disk compare. -/
inductive Mode where
  | clean
  /-- The entry has been changed; both have a type. -/
  | changed
  /-- The entry has been truncated; both have a type. -/
  | truncated
  /-- The truncated entry has been stored. -/
  | stored
  | typeless
  /-- The truncated entry has been stored without a type. -/
  | freed
  /-- Nothing is known. -/
  | void

/-- What a mode says, for an inode that has been read since it was allocated or not. -/
def Mode.Fits {P : Type} (e : Entry P) (disk : Dinode) (seen : Bool) : Mode → Prop
  | .clean => e.copy = disk ∧ disk.type ≠ 0 ∧ e.dirty = false
  | .changed => e.copy.type ≠ 0 ∧ disk.type ≠ 0
  | .truncated => e.copy.type ≠ 0 ∧ disk.type ≠ 0 ∧ e.copy.Truncated
  | .stored => e.copy = disk ∧ disk.type ≠ 0 ∧ e.copy.Truncated
  | .typeless => disk.type ≠ 0 ∧ e.copy.type = 0 ∧ e.copy.Truncated
  | .freed => seen = true → disk.type = 0 ∧ disk.Truncated
  | .void => True

/-- The mode of an entry whose holder is not in a call on it. -/
def Mode.base (dirty : Bool) : Mode := if dirty then .changed else .clean

/-- A valid entry whose holder is not in a call on it has a type, as on disk. -/
theorem Mode.base_fits {P : Type} {e : Entry P} {disk : Dinode} {seen dirty : Bool}
    (fits : (Mode.base dirty).Fits e disk seen) : e.copy.type ≠ 0 ∧ disk.type ≠ 0 := by
  cases dirty with
  | true => exact fits
  | false =>
    obtain ⟨same, typed, -⟩ := fits
    rw [same]
    exact ⟨typed, typed⟩

/-- The mode in a stage of `iput`. -/
def Stage.mode (dirty : Bool) : Stage → Mode
  | .acquire | .drop => .base dirty
  | .test | .ref | .itrunc | .release => .clean
  | .itruncUpdate => .truncated
  | .type => .stored
  | .update => .typeless
  | .invalid => .freed

/-- The mode of an entry from what its holder is doing. -/
def Phase.mode (ip : Fin nInode) (dirty : Bool) : Phase → Mode
  | .load ip' => if ip' = ip then .clean else .base dirty
  | .noType ip' => if ip' = ip then .void else .base dirty
  | .iput stage ip' => if ip' = ip then stage.mode dirty else .base dirty
  | _ => .base dirty

/-- The entry that a process is working on. -/
def Phase.target : Phase → Option (Fin nInode)
  | .ilock ip | .load ip | .noType ip | .iput _ ip => some ip
  | _ => none

/-- The process is working on the entry, or on none. -/
def Phase.Near (ip : Fin nInode) (phase : Phase) : Prop :=
  phase.target = none ∨ phase.target = some ip

variable {phase : Phase} {ip : Fin nInode}

/-- A phase near one inode is about no other. -/
theorem Phase.Near.ne {j : Fin nInode} (near : phase.Near ip) (other : j ≠ ip) :
    phase.target ≠ some j := by
  rintro there
  rcases near with nothing | here
  · rw [nothing] at there
    cases there
  · rw [here] at there
    exact other (Option.some.inj there).symm

/-- The references that are being put. -/
def Phase.puts (ip : Fin nInode) : Phase → Nat
  | .iput _ ip' => if ip' = ip then 1 else 0
  | _ => 0

/-- The process holds the lock. -/
def Phase.Locks (ip : Fin nInode) : Phase → Prop
  | .load ip' | .noType ip' => ip' = ip
  | .iput stage ip' => ip' = ip ∧ stage ≠ .acquire ∧ stage ≠ .drop
  | _ => False

/-- An entry that the process holds is valid. -/
def Phase.Sure (ip : Fin nInode) : Phase → Prop
  | .load ip' | .noType ip' => ip' ≠ ip
  | .iput stage ip' => ip' = ip → stage ≠ .test ∧ stage ≠ .release
  | _ => True

/-- The process is in `ilock`. -/
def Phase.Locking (ip : Fin nInode) : Phase → Prop
  | .ilock ip' | .load ip' | .noType ip' => ip' = ip
  | _ => False

/-- For an inode that the call is not about, only the writes of the holder count. -/
theorem Phase.mode_of_ne (other : phase.target ≠ some ip) (dirty : Bool) :
    phase.mode ip dirty = .base dirty := by
  cases phase with
  | load ip' | noType ip' | iput stage ip' =>
    have apart : ip' ≠ ip := fun same => other (by rw [same]; rfl)
    exact if_neg apart
  | _ => rfl

/-- A process that is not working on an entry that it holds has found it valid. -/
theorem Phase.sure_of_ne (other : phase.target ≠ some ip) : phase.Sure ip := by
  cases phase with
  | load ip' | noType ip' => exact fun same => other (by rw [same]; rfl)
  | iput stage ip' => exact fun same => absurd (by rw [same]; rfl) other
  | _ => trivial

/-- A call holds a reference for `iput` only to its own inode. -/
theorem Phase.puts_of_ne (other : phase.target ≠ some ip) : phase.puts ip = 0 := by
  cases phase with
  | iput stage ip' =>
    have apart : ip' ≠ ip := fun same => other (by rw [same]; rfl)
    exact if_neg apart
  | _ => rfl

/-- Who holds the lock in a call works on the entry. -/
theorem Phase.Locks.target (locks : phase.Locks ip) : phase.target = some ip := by
  cases phase with
  | load ip' | noType ip' =>
    obtain rfl := locks
    rfl
  | iput stage ip' =>
    obtain ⟨rfl, -⟩ := locks
    rfl
  | _ => cases locks

/-- Who is in `ilock` works on the entry. -/
theorem Phase.Locking.target (locking : phase.Locking ip) : phase.target = some ip := by
  cases phase with
  | ilock ip' | load ip' | noType ip' =>
    obtain rfl := locking
    rfl
  | _ => cases locking

namespace State

variable {P : Type}

section Updates

variable (s : State P) (p : P) (ip : Fin nInode) (change : Entry P → Entry P) (phase : Phase)
  (count : Nat → Nat)

/-- A change of an entry. -/
@[simp] theorem setEntry_icache_self : (s.setEntry ip change).icache ip = change (s.icache ip) :=
  update_self _ _ _

/-- It leaves the phases. -/
@[simp] theorem setEntry_phase : (s.setEntry ip change).phase = s.phase := rfl

/-- It leaves the references that processes have. -/
@[simp] theorem setEntry_refs : (s.setEntry ip change).refs = s.refs := rfl

/-- It leaves the disk. -/
@[simp] theorem setEntry_disk : (s.setEntry ip change).disk = s.disk := rfl

/-- `iupdate` makes the entry clean. -/
@[simp] theorem iupdate_icache_self :
    (s.iupdate ip).icache ip = { s.icache ip with dirty := false } := update_self _ _ _

/-- It leaves the phases. -/
@[simp] theorem iupdate_phase : (s.iupdate ip).phase = s.phase := rfl

/-- It leaves the references. -/
@[simp] theorem iupdate_refs : (s.iupdate ip).refs = s.refs := rfl

/-- It stores the copy. -/
@[simp] theorem iupdate_disk_self :
    (s.iupdate ip).disk (s.icache ip).key = (s.icache ip).copy := update_self _ _ _

variable [DecidableEq P]

/-- A move leaves the entries. -/
@[simp] theorem goto_icache : (s.goto p phase).icache = s.icache := rfl

/-- It changes the phase of the process. -/
@[simp] theorem goto_phase_self : (s.goto p phase).phase p = phase := update_self _ _ _

/-- It leaves the references. -/
@[simp] theorem goto_refs : (s.goto p phase).refs = s.refs := rfl

/-- It leaves the disk. -/
@[simp] theorem goto_disk : (s.goto p phase).disk = s.disk := rfl

/-- A change of references leaves the entries. -/
@[simp] theorem setRefs_icache : (s.setRefs p ip count).icache = s.icache := rfl

/-- It leaves the phases. -/
@[simp] theorem setRefs_phase : (s.setRefs p ip count).phase = s.phase := rfl

/-- It changes one count. -/
@[simp] theorem setRefs_refs_self :
    (s.setRefs p ip count).refs p ip = count (s.refs p ip) := by
  simp [setRefs]

/-- It leaves the disk. -/
@[simp] theorem setRefs_disk : (s.setRefs p ip count).disk = s.disk := rfl

end Updates

/-- The references that a process has or is putting. -/
def owns (s : State P) (p : P) (ip : Fin nInode) : Nat := s.refs p ip + (s.phase p).puts ip

/-- The mode of an entry. -/
def mode (s : State P) (ip : Fin nInode) : Mode :=
  match (s.icache ip).locked with
  | none => .clean
  | some p => (s.phase p).mode ip (s.icache ip).dirty

/-- Why a process may hold a lock: it has a reference, or it is putting one. -/
def Keeps (s : State P) (p : P) (ip : Fin nInode) : Prop :=
  0 < s.refs p ip ∨ ∃ stage, s.phase p = .iput stage ip ∧ stage ≠ .drop

/-- Who keeps an inode has a reference to it. -/
theorem Keeps.owns {s : State P} {p : P} {ip : Fin nInode} (keeps : s.Keeps p ip) :
    0 < s.owns p ip := by
  unfold State.owns
  rcases keeps with has | ⟨stage, putting, -⟩
  · exact Nat.add_pos_left has _
  · rw [putting, Phase.puts, if_pos rfl]
    exact Nat.succ_pos _

/-- An inode that is not locked is clean. -/
theorem mode_of_free {s : State P} {ip : Fin nInode} (free : (s.icache ip).locked = none) :
    s.mode ip = .clean := by
  unfold mode
  rw [free]

/-- Otherwise its mode is up to who has locked it. -/
theorem mode_of_held {s : State P} {ip : Fin nInode} {p : P}
    (held : (s.icache ip).locked = some p) :
    s.mode ip = (s.phase p).mode ip (s.icache ip).dirty := by
  unfold mode
  rw [held]

/-- The invariant of the cache. -/
structure Cached [Fintype P] (s : State P) : Prop where
  count : ∀ ip, (s.icache ip).ref = ∑ p, s.owns p ip
  unique : ∀ i j, 0 < (s.icache i).ref → 0 < (s.icache j).ref →
    (s.icache i).key = (s.icache j).key → i = j
  holder : ∀ ip p, (s.icache ip).locked = some p → s.Keeps p ip
  locks : ∀ p ip, (s.phase p).Locks ip → (s.icache ip).locked = some p
  locking : ∀ p ip, (s.phase p).Locking ip → 0 < s.refs p ip
  sure : ∀ ip p, (s.icache ip).locked = some p → (s.phase p).Sure ip → (s.icache ip).valid = true
  fits : ∀ ip, 0 < (s.icache ip).ref → (s.icache ip).valid = true →
    (s.mode ip).Fits (s.icache ip) (s.disk (s.icache ip).key) (s.seen (s.icache ip).key)

/-- A step of a process on an entry. -/
structure Local (s t : State P) (p : P) (ip : Fin nInode) : Prop where
  entries : ∀ j, j ≠ ip → t.icache j = s.icache j
  phases : ∀ q, q ≠ p → t.phase q = s.phase q
  refs : ∀ q j, q ≠ p ∨ j ≠ ip → t.refs q j = s.refs q j
  disk : (t.disk = s.disk ∧ t.seen = s.seen) ∨ 0 < (s.icache ip).ref ∧
    ∀ key, key ≠ (s.icache ip).key → t.disk key = s.disk key ∧ t.seen key = s.seen key
  about : t.phase p = s.phase p ∨ (s.phase p).Near ip ∧ (t.phase p).Near ip

namespace Local

variable {s t : State P} {p : P} {ip j : Fin nInode}

variable {q : P}

variable (frame : Local s t p ip)

include frame

/-- Who works on another entry stays there. -/
theorem phase_of_target (other : j ≠ ip)
    (target : (t.phase q).target = some j) : t.phase q = s.phase q := by
  by_cases here : q = p
  · rw [here] at target ⊢
    rcases frame.about with same | ⟨-, after⟩
    · exact same
    · exact absurd target (after.ne other)
  · exact frame.phases q here

/-- Other references stay. -/
theorem owns (other : q ≠ p ∨ j ≠ ip) : t.owns q j = s.owns q j := by
  unfold State.owns
  rw [frame.refs q j other]
  by_cases here : q = p
  · have apart : j ≠ ip := other.resolve_left (not_not.mpr here)
    rw [here]
    rcases frame.about with same | ⟨before, after⟩
    · rw [same]
    · rw [Phase.puts_of_ne (before.ne apart), Phase.puts_of_ne (after.ne apart)]
  · rw [frame.phases q here]

/-- Other inodes are kept. -/
theorem keeps (other : j ≠ ip) (keeps : s.Keeps q j) : t.Keeps q j := by
  rcases keeps with has | ⟨stage, putting, early⟩
  · left
    rwa [frame.refs q j (.inr other)]
  right
  refine ⟨stage, ?_, early⟩
  by_cases here : q = p
  · rw [here] at putting ⊢
    rcases frame.about with same | ⟨before, -⟩
    · rw [same, putting]
    · refine absurd ?_ (before.ne other)
      rw [putting]
      rfl
  · rw [frame.phases q here, putting]

/-- Who keeps an entry without a step of its own. -/
theorem keeps_other (other : q ≠ p) (keeps : s.Keeps q j) : t.Keeps q j := by
  unfold Keeps at keeps ⊢
  rwa [frame.refs q j (.inl other), frame.phases q other]

/-- Who is sure of an entry was so before the step on another one. -/
theorem sure (other : j ≠ ip) (sure : (t.phase q).Sure j) : (s.phase q).Sure j := by
  by_cases here : q = p
  · rw [here] at sure ⊢
    rcases frame.about with same | ⟨before, -⟩
    · rwa [← same]
    · exact Phase.sure_of_ne (before.ne other)
  · rwa [← frame.phases q here]

/-- The other entries have the mode they had. -/
theorem mode (other : j ≠ ip) : t.mode j = s.mode j := by
  have entry := frame.entries j other
  cases held : (s.icache j).locked with
  | none => rw [mode_of_free held, mode_of_free (by rw [entry, held])]
  | some q =>
    rw [mode_of_held held, mode_of_held (by rw [entry, held]), entry]
    by_cases here : q = p
    · rw [here]
      rcases frame.about with same | ⟨before, after⟩
      · rw [same]
      · rw [Phase.mode_of_ne (before.ne other), Phase.mode_of_ne (after.ne other)]
    · rw [frame.phases q here]

end Local

variable [Fintype P] [DecidableEq P] {s t : State P} {p : P} {ip : Fin nInode}

/-- A step of a process on an entry keeps the invariant, if it does so for the entry. -/
theorem Cached.local (cached : Cached s) (frame : Local s t p ip)
    (count : (t.icache ip).ref + s.owns p ip = (s.icache ip).ref + t.owns p ip)
    (unique : 0 < (t.icache ip).ref → ∀ j, j ≠ ip → 0 < (s.icache j).ref →
      (s.icache j).key ≠ (t.icache ip).key)
    (holder : ∀ q, (t.icache ip).locked = some q → t.Keeps q ip)
    (locks : ∀ q, (t.phase q).Locks ip → (t.icache ip).locked = some q)
    (locking : (t.phase p).Locking ip → 0 < t.refs p ip)
    (sure : ∀ q, (t.icache ip).locked = some q → (t.phase q).Sure ip → (t.icache ip).valid = true)
    (fits : 0 < (t.icache ip).ref → (t.icache ip).valid = true →
      (t.mode ip).Fits (t.icache ip) (t.disk (t.icache ip).key) (t.seen (t.icache ip).key)) :
    Cached t := by
  constructor
  case count =>
    intro j
    by_cases here : j = ip
    · subst here
      have change := sum_change (fun q => s.owns q j) (fun q => t.owns q j) p
        fun q apart => frame.owns (.inl apart)
      have before := cached.count j
      omega
    · rw [frame.entries j here, cached.count j]
      exact Finset.sum_congr rfl fun q _ => (frame.owns (.inr here)).symm
  case unique =>
    intro i j usedI usedJ same
    by_cases hereI : i = ip
    · by_cases hereJ : j = ip
      · rw [hereI, hereJ]
      · rw [frame.entries j hereJ] at usedJ same
        rw [hereI] at usedI same
        exact absurd same.symm (unique usedI j hereJ usedJ)
    · by_cases hereJ : j = ip
      · rw [frame.entries i hereI] at usedI same
        rw [hereJ] at usedJ same
        exact absurd same (unique usedJ i hereI usedI)
      · rw [frame.entries i hereI] at usedI same
        rw [frame.entries j hereJ] at usedJ same
        exact cached.unique i j usedI usedJ same
  case holder =>
    intro j q held
    by_cases here : j = ip
    · rw [here] at held ⊢
      exact holder q held
    · rw [frame.entries j here] at held
      exact frame.keeps here (cached.holder j q held)
  case locks =>
    intro q j holds
    by_cases here : j = ip
    · rw [here] at holds ⊢
      exact locks q holds
    · rw [frame.phase_of_target here holds.target] at holds
      rw [frame.entries j here]
      exact cached.locks q j holds
  case locking =>
    intro q j waits
    by_cases here : j = ip
    · by_cases mine : q = p
      · rw [here, mine] at waits ⊢
        exact locking waits
      · rw [frame.phases q mine] at waits
        rw [frame.refs q j (.inl mine)]
        exact cached.locking q j waits
    · rw [frame.phase_of_target here waits.target] at waits
      rw [frame.refs q j (.inr here)]
      exact cached.locking q j waits
  case sure =>
    intro j q held certain
    by_cases here : j = ip
    · rw [here] at held certain ⊢
      exact sure q held certain
    · rw [frame.entries j here] at held ⊢
      exact cached.sure j q held (frame.sure here certain)
  case fits =>
    intro j used valid
    by_cases here : j = ip
    · rw [here] at used valid ⊢
      exact fits used valid
    rw [frame.mode here]
    rw [frame.entries j here] at used valid ⊢
    have disk : t.disk (s.icache j).key = s.disk (s.icache j).key ∧
        t.seen (s.icache j).key = s.seen (s.icache j).key := by
      rcases frame.disk with ⟨same, seen⟩ | ⟨mine, same⟩
      · rw [same, seen]
        exact ⟨rfl, rfl⟩
      · exact same _ fun key => here (cached.unique j ip used mine key)
    rw [disk.1, disk.2]
    exact cached.fits j used valid

/-! ## The steps -/

/-- The process that holds the lock of an entry changes it, or the disk. -/
theorem Cached.work (cached : Cached s) (frame : Local s t p ip)
    (mine : (s.icache ip).locked = some p) (held : (t.icache ip).locked = some p)
    (key : (t.icache ip).key = (s.icache ip).key) (ref : (t.icache ip).ref = (s.icache ip).ref)
    (owns : t.owns p ip = s.owns p ip) (keeps : s.Keeps p ip → t.Keeps p ip)
    (locking : (t.phase p).Locking ip → 0 < t.refs p ip)
    (sure : ((s.phase p).Sure ip → (s.icache ip).valid = true) → (t.phase p).Sure ip →
      (t.icache ip).valid = true)
    (fits : (t.icache ip).valid = true →
      ((s.icache ip).valid = true → ((s.phase p).mode ip (s.icache ip).dirty).Fits (s.icache ip)
        (s.disk (s.icache ip).key) (s.seen (s.icache ip).key)) →
      ((t.phase p).mode ip (t.icache ip).dirty).Fits (t.icache ip) (t.disk (s.icache ip).key)
        (t.seen (s.icache ip).key)) :
    Cached t := by
  refine cached.local frame ?_ ?_ ?_ ?_ locking ?_ ?_
  · rw [ref, owns]
  · rw [ref, key]
    exact fun used j other used' same => other (cached.unique j ip used' used same)
  · intro q holds
    obtain rfl := Option.some.inj (held.symm.trans holds)
    exact keeps (cached.holder ip p mine)
  · intro q holds
    by_cases here : q = p
    · rw [here, held]
    · rw [frame.phases q here] at holds
      exact absurd (Option.some.inj ((cached.locks q ip holds).symm.trans mine)) here
  · intro q holds
    obtain rfl := Option.some.inj (held.symm.trans holds)
    exact sure (cached.sure ip p mine)
  · intro used valid
    rw [mode_of_held held, key]
    refine fits valid fun valid' => ?_
    rw [ref] at used
    have before := cached.fits ip used valid'
    rwa [mode_of_held mine] at before

omit [DecidableEq P] in
/-- A panic changes nothing. -/
theorem Cached.panic (cached : Cached s) (message : String) : Cached (s.panic message) :=
  ⟨cached.count, cached.unique, cached.holder, cached.locks, cached.locking,
    cached.sure, cached.fits⟩

/-! ## Frames -/

section Frames

variable {P : Type} {s t : State P} {p : P} {ip : Fin nInode}

/-- Nothing happens. -/
theorem Local.refl (s : State P) (p : P) (ip : Fin nInode) : Local s s p ip :=
  ⟨fun _ _ => rfl, fun _ _ => rfl, fun _ _ _ => rfl, .inl ⟨rfl, rfl⟩, .inl rfl⟩

/-- A change of one entry is local. -/
theorem local_setEntry (s : State P) (p : P) (ip : Fin nInode) (change : Entry P → Entry P) :
    Local s (s.setEntry ip change) p ip where
  entries := fun _ other => update_of_ne other _ _
  phases := fun _ _ => rfl
  refs := fun _ _ _ => rfl
  disk := .inl ⟨rfl, rfl⟩
  about := .inl rfl

/-- So is `iupdate`, since no other entry in use has the key. -/
theorem local_iupdate (p : P) (used : 0 < (s.icache ip).ref) : Local s (s.iupdate ip) p ip where
  entries := fun _ other => update_of_ne other _ _
  phases := fun _ _ => rfl
  refs := fun _ _ _ => rfl
  disk := .inr ⟨used, fun _ other => ⟨update_of_ne other _ _, rfl⟩⟩
  about := .inl rfl

/-- The entry with the inode read from disk. -/
theorem local_read (p : P) (used : 0 < (s.icache ip).ref) :
    Local s { s.setEntry ip fun e =>
      { e with copy := s.disk e.key, valid := true, dirty := false } with
        seen := update s.seen (s.icache ip).key true } p ip where
  entries := fun _ other => update_of_ne other _ _
  phases := fun _ _ => rfl
  refs := fun _ _ _ => rfl
  disk := .inr ⟨used, fun _ other => ⟨rfl, update_of_ne other _ _⟩⟩
  about := .inl rfl

variable [DecidableEq P]

/-- The process also changes its references to the entry. -/
theorem Local.setRefs (frame : Local s t p ip) (count : Nat → Nat) :
    Local s (t.setRefs p ip count) p ip where
  entries := frame.entries
  phases := frame.phases
  refs := by
    intro q j other
    rw [← frame.refs q j other]
    unfold State.setRefs
    dsimp only
    by_cases here : q = p
    · rw [here, update_self, update_of_ne (other.resolve_left (not_not.mpr here))]
    · rw [update_of_ne here]
  disk := frame.disk
  about := frame.about

/-- The process also goes on to another phase. -/
theorem Local.goto (frame : Local s t p ip) {phase : Phase} (before : (s.phase p).Near ip)
    (after : phase.Near ip) : Local s (t.goto p phase) p ip where
  entries := frame.entries
  phases := fun q other => (update_of_ne other _ _).trans (frame.phases q other)
  refs := frame.refs
  disk := frame.disk
  about := .inr ⟨before, by rwa [goto_phase_self]⟩

end Frames

/-! ## The steps -/

variable {phase : Phase} {key : Key} {q : P} {j : Fin nInode} {event : Event P}

/-- A process gets the lock of an inode. -/
theorem Cached.acquired (cached : Cached s) (free : (s.icache ip).locked = none)
    (near : (s.phase p).Near ip) (after : phase.Near ip)
    (puts : phase.puts ip = (s.phase p).puts ip)
    (keeps : 0 < s.refs p ip ∨ ∃ stage, phase = .iput stage ip ∧ stage ≠ .drop)
    (locking : phase.Locking ip → 0 < s.refs p ip) (unsure : ¬phase.Sure ip)
    (clean : ∀ dirty, phase.mode ip dirty = .clean) :
    Cached ((s.setEntry ip fun e => { e with locked := some p }).goto p phase) := by
  have frame := (local_setEntry s p ip fun e => { e with locked := some p }).goto near after
  refine cached.local frame ?_ ?_ ?_ ?_ ?_ ?_ ?_
  · simp [State.owns, puts]
  · simp only [goto_icache, setEntry_icache_self]
    exact fun used j other used' same => other (cached.unique j ip used' used same)
  · intro q held
    simp only [goto_icache, setEntry_icache_self, Option.some.injEq] at held
    subst held
    simpa [Keeps] using keeps
  · intro q holds
    simp only [goto_icache, setEntry_icache_self, Option.some.injEq]
    by_contra here
    rw [frame.phases q (Ne.symm here)] at holds
    cases (cached.locks q ip holds).symm.trans free
  · simpa using locking
  · intro q held certain
    simp only [goto_icache, setEntry_icache_self, Option.some.injEq] at held
    rw [← held, goto_phase_self] at certain
    exact absurd certain unsure
  · intro used valid
    simp only [goto_icache, setEntry_icache_self] at used valid
    have before := cached.fits ip used valid
    rw [mode_of_free free] at before
    rw [mode_of_held (p := p) (by simp), goto_phase_self, clean]
    simpa [Mode.Fits, State.goto, State.setEntry] using before

/-- A process releases a lock, with the entry clean. -/
theorem Cached.released (cached : Cached s) (mine : (s.icache ip).locked = some p)
    (frame : Local s t p ip) (entry : t.icache ip = { s.icache ip with locked := none })
    (disk : t.disk = s.disk) (seen : t.seen = s.seen) (owns : t.owns p ip = s.owns p ip)
    (outside : ¬(t.phase p).Locks ip ∧ ¬(t.phase p).Locking ip)
    (clean : (s.phase p).mode ip (s.icache ip).dirty = .clean) : Cached t := by
  refine cached.local frame ?_ ?_ ?_ ?_ ?_ ?_ ?_
  · rw [entry, owns]
  · rw [entry]
    exact fun used j other used' same => other (cached.unique j ip used' used same)
  · intro q held
    rw [entry] at held
    cases held
  · intro q holds
    by_cases here : q = p
    · rw [here] at holds
      exact absurd holds outside.1
    · rw [frame.phases q here] at holds
      exact absurd (Option.some.inj ((cached.locks q ip holds).symm.trans mine)) here
  · exact fun locking => absurd locking outside.2
  · intro q held
    rw [entry] at held
    cases held
  · intro used valid
    rw [entry] at used valid
    have before := cached.fits ip used valid
    rw [mode_of_held mine, clean] at before
    rw [mode_of_free (by rw [entry]), entry, disk, seen]
    exact before

/-- The reference count and the references of a process change together. -/
theorem Cached.counted (cached : Cached s) (frame : Local s t p ip) {ref : Nat}
    (entry : t.icache ip = { s.icache ip with ref := ref }) (disk : t.disk = s.disk)
    (seen : t.seen = s.seen) (used : 0 < ref → 0 < (s.icache ip).ref)
    (count : ref + s.owns p ip = (s.icache ip).ref + t.owns p ip)
    (keeps : s.Keeps p ip → t.Keeps p ip)
    (locks : (t.phase p).Locks ip → (s.icache ip).locked = some p)
    (locking : (t.phase p).Locking ip → 0 < t.refs p ip)
    (sure : (t.phase p).Sure ip → (s.phase p).Sure ip ∨ (s.icache ip).locked ≠ some p ∨
      (s.icache ip).valid = true)
    (fits : ((s.phase p).mode ip (s.icache ip).dirty).Fits (s.icache ip) (s.disk (s.icache ip).key)
        (s.seen (s.icache ip).key) →
      ((t.phase p).mode ip (s.icache ip).dirty).Fits (s.icache ip) (s.disk (s.icache ip).key)
        (s.seen (s.icache ip).key)) :
    Cached t := by
  have held : (t.icache ip).locked = (s.icache ip).locked := by rw [entry]
  refine cached.local frame ?_ ?_ ?_ ?_ locking ?_ ?_
  · rw [entry]
    exact count
  · rw [entry]
    exact fun used' j other used'' same =>
      other (cached.unique j ip used'' (used used') same)
  · intro q holds
    rw [held] at holds
    have before := cached.holder ip q holds
    by_cases here : q = p
    · rw [here] at before ⊢
      exact keeps before
    · exact frame.keeps_other here before
  · intro q holds
    rw [held]
    by_cases here : q = p
    · rw [here] at holds ⊢
      exact locks holds
    · rw [frame.phases q here] at holds
      exact cached.locks q ip holds
  · intro q holds certain
    rw [held] at holds
    rw [entry]
    by_cases here : q = p
    · rw [here] at certain holds
      rcases sure certain with before | other | valid
      · exact cached.sure ip p holds before
      · exact absurd holds other
      · exact valid
    · rw [frame.phases q here] at certain
      exact cached.sure ip q holds certain
  · intro used' valid
    rw [entry] at used' valid
    have before := cached.fits ip (used used') valid
    rw [entry, disk, seen]
    cases holds : (s.icache ip).locked with
    | none =>
      rw [mode_of_free holds] at before
      rw [mode_of_free (held.trans holds)]
      exact before
    | some q =>
      rw [mode_of_held holds] at before
      rw [mode_of_held (held.trans holds), entry]
      by_cases here : q = p
      · subst here
        exact fits before
      · rw [frame.phases q here]
        exact before

/-- A process goes on, and no entry changes. -/
theorem Cached.goto (cached : Cached s) (near : (s.phase p).Near ip) (after : phase.Near ip)
    (puts : phase.puts ip = (s.phase p).puts ip)
    (keeps : s.Keeps p ip → (s.goto p phase).Keeps p ip)
    (locks : phase.Locks ip → (s.icache ip).locked = some p)
    (locking : phase.Locking ip → 0 < s.refs p ip)
    (sure : phase.Sure ip → (s.phase p).Sure ip ∨ (s.icache ip).locked ≠ some p ∨
      (s.icache ip).valid = true)
    (fits : ((s.phase p).mode ip (s.icache ip).dirty).Fits (s.icache ip) (s.disk (s.icache ip).key)
        (s.seen (s.icache ip).key) →
      (phase.mode ip (s.icache ip).dirty).Fits (s.icache ip) (s.disk (s.icache ip).key)
        (s.seen (s.icache ip).key)) :
    Cached (s.goto p phase) := by
  have mine : (s.goto p phase).phase p = phase := goto_phase_self s p phase
  have owns : (s.goto p phase).owns p ip = s.owns p ip := by
    rw [State.owns, mine, puts]
    rfl
  refine cached.counted ((Local.refl s p ip).goto near after) rfl rfl rfl id ?_ keeps ?_ ?_ ?_ ?_
  · rw [owns]
  · rwa [mine]
  · rwa [mine]
  · rwa [mine]
  · rwa [mine]

omit [DecidableEq P] in
/-- An entry that a process owns a reference to is in use. -/
theorem Cached.used (cached : Cached s) (has : 0 < s.owns p ip) : 0 < (s.icache ip).ref := by
  rw [cached.count]
  exact Nat.lt_of_lt_of_le has (le_sum (fun q => s.owns q ip) p)

/-- A process gets one more reference to an entry in use. -/
theorem Cached.grant (cached : Cached s) (q : P) (used : 0 < (s.icache ip).ref) :
    Cached (s.grant q ip) := by
  have frame : Local s (s.grant q ip) q ip := (local_setEntry s q ip _).setRefs _
  have entry : (s.grant q ip).icache ip = { s.icache ip with ref := (s.icache ip).ref + 1 } :=
    setEntry_icache_self s ip fun e => { e with ref := e.ref + 1 }
  refine cached.counted frame entry rfl rfl (fun _ => used) ?_ ?_ (cached.locks q ip) ?_ .inl id
  · simp only [State.owns, State.grant, setRefs_refs_self, setEntry_refs, setRefs_phase,
      setEntry_phase]
    omega
  · rintro (has | putting)
    · left
      simp only [State.grant, setRefs_refs_self, setEntry_refs]
      omega
    · exact .inr putting
  · intro locking
    simp only [State.grant, setRefs_refs_self]
    omega

omit [DecidableEq P] in
/-- An entry that is not in use is not locked. -/
theorem Cached.unlocked (cached : Cached s) (unused : (s.icache ip).ref = 0) :
    (s.icache ip).locked = none := by
  cases held : (s.icache ip).locked with
  | none => rfl
  | some q =>
    have used := cached.used (cached.holder ip q held).owns
    omega

section

variable (cached : Cached s)

include cached

/-- `iget` takes an unused entry. -/
theorem Cached.recycled (unused : (s.icache ip).ref = 0)
    (absent : ∀ j, 0 < (s.icache j).ref → (s.icache j).key ≠ key) :
    Cached ((s.setEntry ip fun e => { e with key := key, ref := 1, valid := false }).setRefs p ip
      (· + 1)) := by
  have free := cached.unlocked unused
  have frame := (local_setEntry s p ip fun e =>
    { e with key := key, ref := 1, valid := false }).setRefs (· + 1)
  have unowned (q : P) : s.owns q ip = 0 := by
    by_contra has
    have used := cached.used (Nat.pos_of_ne_zero has)
    omega
  refine cached.local frame ?_ ?_ ?_ ?_ ?_ ?_ ?_
  · have mine := unowned p
    simp only [State.owns, setRefs_icache, setEntry_icache_self, setRefs_refs_self, setEntry_refs,
      setRefs_phase, setEntry_phase] at mine ⊢
    omega
  · simp only [setRefs_icache, setEntry_icache_self]
    exact fun _ j _ used => absent j used
  · intro q held
    simp only [setRefs_icache, setEntry_icache_self] at held
    cases free.symm.trans held
  · intro q holds
    cases free.symm.trans (cached.locks q ip holds)
  · simp
  · intro q held
    simp only [setRefs_icache, setEntry_icache_self] at held
    cases free.symm.trans held
  · intro _ valid
    simp at valid

/-- A process outside of calls on entries goes on outside of them. -/
theorem Cached.outside (before : (s.phase p).target = none)
    (after : phase.target = none) : Cached (s.goto p phase) := by
  have old (j : Fin nInode) : (s.phase p).target ≠ some j := by simp [before]
  have new (j : Fin nInode) : phase.target ≠ some j := by simp [after]
  have ip : Fin nInode := ⟨0, by decide⟩
  have near : (s.phase p).Near ip := .inl before
  refine cached.goto near (.inl after) ?_ ?_ ?_ ?_ ?_ ?_
  · rw [Phase.puts_of_ne (old ip), Phase.puts_of_ne (new ip)]
  · rintro (has | ⟨stage, putting, -⟩)
    · exact .inl has
    · rw [putting] at before
      cases before
  · exact fun locks => absurd locks.target (new ip)
  · exact fun locking => absurd locking.target (new ip)
  · exact fun _ => .inl (Phase.sure_of_ne (old ip))
  · rw [Phase.mode_of_ne (old ip), Phase.mode_of_ne (new ip)]
    exact id

/-- `iget` keeps the invariant. -/
theorem Cached.iget (key : Key) (before : (s.phase p).target = none) : Cached (s.iget p key) := by
  unfold State.iget
  split
  · rename_i ip found
    have hit : 0 < (s.icache ip).ref ∧ (s.icache ip).key = key := by
      simpa using List.find?_some found
    exact (cached.grant p hit.1).outside before rfl
  · rename_i absent
    split
    · exact cached.panic _
    · rename_i ip found
      have unused : (s.icache ip).ref = 0 := by simpa using List.find?_some found
      refine (cached.recycled unused fun j used same => ?_).outside before rfl
      have missed := List.find?_eq_none.mp absent j (List.mem_finRange j)
      simp [used, same] at missed

/-- `iput` takes over a reference. -/
theorem Cached.put (idle : s.phase p = .idle) (has : 0 < s.refs p ip) :
    Cached ((s.setRefs p ip (· - 1)).goto p (.iput .acquire ip)) := by
  have before : (s.phase p).Near ip := .inl (by rw [idle]; rfl)
  have after : (Phase.iput .acquire ip).Near ip := .inr rfl
  have frame := ((Local.refl s p ip).setRefs (· - 1)).goto before after
  have entry : ((s.setRefs p ip (· - 1)).goto p (.iput .acquire ip)).icache ip =
      { s.icache ip with ref := (s.icache ip).ref } := rfl
  refine cached.counted frame entry rfl rfl id ?_ ?_ ?_ ?_ ?_ ?_
  · simp only [State.owns, goto_refs, setRefs_refs_self, goto_phase_self, idle, Phase.puts,
      if_true]
    omega
  · exact fun _ => .inr ⟨.acquire, goto_phase_self _ _ _, by simp⟩
  · rw [goto_phase_self]
    exact fun locks => absurd rfl locks.2.1
  · rw [goto_phase_self]
    exact False.elim
  · rw [idle]
    exact fun _ => .inl trivial
  · rw [goto_phase_self, idle, Phase.mode, if_pos rfl]
    exact id

/-- `iput` decrements the reference count. -/
theorem Cached.dropped (dropping : s.phase p = .iput .drop ip) :
    Cached ((s.setEntry ip fun e => { e with ref := e.ref - 1 }).goto p .idle) := by
  have before : (s.phase p).Near ip := .inr (by rw [dropping]; rfl)
  have after : Phase.idle.Near ip := .inl rfl
  have frame := (local_setEntry s p ip fun e => { e with ref := e.ref - 1 }).goto before after
  have mine : s.owns p ip = s.refs p ip + 1 := by
    simp only [State.owns, dropping, Phase.puts, if_true]
  have used := cached.used (Nat.lt_of_lt_of_eq (Nat.succ_pos _) mine.symm)
  have entry : ((s.setEntry ip fun e => { e with ref := e.ref - 1 }).goto p .idle).icache ip =
      { s.icache ip with ref := (s.icache ip).ref - 1 } :=
    setEntry_icache_self s ip fun e => { e with ref := e.ref - 1 }
  refine cached.counted frame entry rfl rfl (fun _ => used) ?_ ?_ ?_ ?_ ?_ ?_
  · rw [mine]
    simp only [State.owns, goto_refs, setEntry_refs, goto_phase_self, Phase.puts]
    omega
  · rintro (has | ⟨stage, there, early⟩)
    · exact .inl has
    · rw [dropping] at there
      cases there
      exact absurd rfl early
  · rw [goto_phase_self]
    exact False.elim
  · rw [goto_phase_self]
    exact False.elim
  · rw [dropping]
    exact fun _ => .inl fun _ => by simp
  · rw [goto_phase_self, dropping, Phase.mode, if_pos rfl]
    exact id

end

omit [Fintype P] in
/-- Other counts stay. -/
theorem setRefs_refs_of_ne (s : State P) (count : Nat → Nat) (other : q ≠ p ∨ j ≠ ip) :
    (s.setRefs p ip count).refs q j = s.refs q j := by
  exact ((Local.refl s p ip).setRefs count).refs q j other

/-- The references of all processes when one of them changes its own. -/
theorem sum_owns_setRefs (s : State P) (count : Nat → Nat) (p : P) (ip : Fin nInode) :
    (∑ r, (s.setRefs p ip count).owns r ip) + s.refs p ip =
      (∑ r, s.owns r ip) + count (s.refs p ip) := by
  have change := sum_change (fun r => s.owns r ip) (fun r => (s.setRefs p ip count).owns r ip) p
    fun r other => by
      unfold State.owns
      rw [setRefs_refs_of_ne s count (.inl other), setRefs_phase]
  simp only [State.owns, setRefs_refs_self, setRefs_phase] at change ⊢
  omega

omit [Fintype P] in
/-- A process that hands a reference on; the others lose nothing. -/
theorem refs_le_handed (s : State P) {r : P} (other : r ≠ p ∨ j ≠ ip) :
    s.refs r j ≤ ((s.setRefs p ip (· - 1)).setRefs q ip (· + 1)).refs r j := by
  rw [← setRefs_refs_of_ne s (· - 1) other]
  by_cases here : r = q ∧ j = ip
  · rw [here.1, here.2, setRefs_refs_self]
    exact Nat.le_succ _
  · rw [setRefs_refs_of_ne _ _ (not_and_or.mp here)]

/-- A reference goes to another process, as in `fork`. -/
theorem Cached.handed (cached : Cached s) (has : 0 < s.refs p ip)
    (without : (s.icache ip).locked ≠ some p) (idle : s.phase p = .idle) :
    Cached ((s.setRefs p ip (· - 1)).setRefs q ip (· + 1)) := by
  constructor
  case count =>
    intro j
    show (s.icache j).ref = _
    by_cases here : j = ip
    · rw [here, cached.count ip]
      have first := sum_owns_setRefs s (· - 1) p ip
      have second := sum_owns_setRefs (s.setRefs p ip (· - 1)) (· + 1) q ip
      omega
    · rw [cached.count j]
      refine Finset.sum_congr rfl fun r _ => ?_
      unfold State.owns
      rw [setRefs_refs_of_ne _ _ (.inr here), setRefs_refs_of_ne _ _ (.inr here), setRefs_phase,
        setRefs_phase]
  case unique => exact cached.unique
  case holder =>
    intro j r held
    rcases cached.holder j r held with has | putting
    · refine .inl (Nat.lt_of_lt_of_le has (refs_le_handed s ?_))
      rw [← not_and_or]
      rintro ⟨rfl, rfl⟩
      exact without held
    · exact .inr putting
  case locks => exact cached.locks
  case locking =>
    intro r j locking
    refine Nat.lt_of_lt_of_le (cached.locking r j locking) (refs_le_handed s (.inl ?_))
    rintro rfl
    change (s.phase r).Locking j at locking
    rw [idle] at locking
    exact locking
  case sure => exact cached.sure
  case fits => exact cached.fits

omit [DecidableEq P] in
/-- `ialloc` writes an inode that is free on disk. -/
theorem Cached.allocated (cached : Cached s) (free : (s.disk key).type = 0) (dinode : Dinode) :
    Cached { s with disk := update s.disk key dinode, seen := update s.seen key false } := by
  refine ⟨cached.count, cached.unique, cached.holder, cached.locks, cached.locking, cached.sure, ?_⟩
  intro ip used valid
  have before := cached.fits ip used valid
  show (s.mode ip).Fits (s.icache ip) (update s.disk key dinode (s.icache ip).key)
    (update s.seen key false (s.icache ip).key)
  by_cases same : (s.icache ip).key = key
  · -- The inode has no type on disk: its entry is about to become invalid.
    rw [same] at before ⊢
    rw [update_self]
    cases mode : s.mode ip with
    | clean | truncated | stored =>
      rw [mode] at before
      exact absurd free before.2.1
    | changed =>
      rw [mode] at before
      exact absurd free before.2
    | typeless =>
      rw [mode] at before
      exact absurd free before.1
    | freed =>
      rw [update_self]
      nofun
    | void => trivial
  · rw [update_of_ne same, update_of_ne same]
    exact before

omit [DecidableEq P] in
/-- An entry that a process is putting is in use. -/
theorem Cached.used_of_iput (cached : Cached s) {stage : Stage}
    (putting : s.phase p = .iput stage ip) : 0 < (s.icache ip).ref := by
  apply cached.used (p := p)
  rw [State.owns, putting, Phase.puts, if_pos rfl]
  exact Nat.succ_pos _

section

variable (cached : Cached s)

include cached

/-- `iput` goes on while it holds the lock. -/
theorem Cached.stage {stage next : Stage} (putting : s.phase p = .iput stage ip)
    (locked : stage ≠ .acquire ∧ stage ≠ .drop) (early : next ≠ .drop) {u : State P}
    (frame : Local s u p ip) (refs : u.refs p ip = s.refs p ip)
    (held : (u.icache ip).locked = (s.icache ip).locked)
    (key : (u.icache ip).key = (s.icache ip).key) (ref : (u.icache ip).ref = (s.icache ip).ref)
    (sure : (stage ≠ .test ∧ stage ≠ .release → (s.icache ip).valid = true) →
      next ≠ .test ∧ next ≠ .release → (u.icache ip).valid = true)
    (fits : (u.icache ip).valid = true →
      ((s.icache ip).valid = true → (stage.mode (s.icache ip).dirty).Fits (s.icache ip)
        (s.disk (s.icache ip).key) (s.seen (s.icache ip).key)) →
      (next.mode (u.icache ip).dirty).Fits (u.icache ip) (u.disk (s.icache ip).key)
        (u.seen (s.icache ip).key)) :
    Cached (u.goto p (.iput next ip)) := by
  have mine : (s.icache ip).locked = some p := by
    apply cached.locks p ip
    rw [putting]
    exact ⟨rfl, locked⟩
  have before : (s.phase p).Near ip := .inr (by rw [putting]; rfl)
  refine cached.work (frame.goto before (.inr rfl)) mine (held.trans mine) key ref ?_ ?_ ?_ ?_ ?_
  · unfold State.owns
    rw [goto_phase_self, goto_refs, refs, putting]
    rfl
  · exact fun _ => .inr ⟨next, goto_phase_self _ _ _, early⟩
  · rw [goto_phase_self]
    exact False.elim
  · rw [goto_phase_self, putting]
    exact fun before certain => sure (fun early => before fun _ => early) (certain rfl)
  · rw [goto_phase_self, putting]
    simp only [Phase.mode, if_true]
    exact fits

/-- Every step of `iput` keeps the invariant. -/
theorem Cached.iput {stage : Stage} (putting : s.phase p = .iput stage ip)
    (taken : s.iput p ip stage = some t) : Cached t := by
  have used := cached.used_of_iput putting
  have before : (s.phase p).Near ip := .inr (by rw [putting]; rfl)
  cases stage with
  | acquire =>
    obtain ⟨free, made⟩ := Option.ite_none_right_eq_some.mp taken
    cases made
    refine cached.acquired free before (.inr rfl) ?_ ?_ ?_ ?_ ?_
    · rw [putting]
      rfl
    · exact .inr ⟨.test, rfl, by simp⟩
    · exact False.elim
    · exact fun certain => absurd rfl (certain rfl).1
    · exact fun _ => if_pos rfl
  | test =>
    cases taken
    refine cached.stage putting (by simp) ?_ (Local.refl s p ip) rfl rfl rfl rfl ?_ ?_
    · split <;> simp
    · split
      · rename_i found
        exact fun _ _ => found.1
      · exact fun _ early => absurd rfl early.2
    · intro valid fits
      split <;> exact fits valid
  | ref =>
    cases taken
    refine cached.stage putting (by simp) ?_ (Local.refl s p ip) rfl rfl rfl rfl ?_ ?_
    · split <;> simp
    · exact fun before _ => before (by simp)
    · intro valid fits
      split <;> exact fits valid
  | itrunc =>
    cases taken
    refine cached.stage putting (by simp) (by simp) (local_setEntry s p ip _) rfl ?_ ?_ ?_ ?_ ?_
    · simp
    · simp
    · simp
    · simp
    · intro valid fits
      rw [setEntry_icache_self] at valid ⊢
      obtain ⟨same, typed, -⟩ := fits valid
      refine ⟨?_, typed, rfl, fun _ => rfl⟩
      show (s.icache ip).copy.type ≠ 0
      rw [same]
      exact typed
  | itruncUpdate =>
    cases taken
    refine cached.stage putting (by simp) (by simp) (local_iupdate p used) rfl ?_ ?_ ?_ ?_ ?_
    · simp
    · simp
    · simp
    · simp
    · intro valid fits
      rw [iupdate_icache_self] at valid ⊢
      rw [iupdate_disk_self]
      exact ⟨rfl, (fits valid).1, (fits valid).2.2⟩
  | type =>
    cases taken
    refine cached.stage putting (by simp) (by simp) (local_setEntry s p ip _) rfl ?_ ?_ ?_ ?_ ?_
    · simp
    · simp
    · simp
    · simp
    · intro valid fits
      rw [setEntry_icache_self] at valid ⊢
      exact ⟨(fits valid).2.1, rfl, (fits valid).2.2⟩
  | update =>
    cases taken
    refine cached.stage putting (by simp) (by simp) (local_iupdate p used) rfl ?_ ?_ ?_ ?_ ?_
    · simp
    · simp
    · simp
    · simp
    · intro valid fits _
      rw [iupdate_icache_self] at valid
      rw [iupdate_disk_self]
      exact (fits valid).2
  | invalid =>
    cases taken
    refine cached.stage putting (by simp) (by simp) (local_setEntry s p ip _) rfl ?_ ?_ ?_ ?_ ?_
    · simp
    · simp
    · simp
    · exact fun _ early => absurd rfl early.2
    · intro valid
      simp at valid
  | release =>
    cases taken
    have mine : (s.icache ip).locked = some p := by
      apply cached.locks p ip
      rw [putting]
      exact ⟨rfl, by simp⟩
    refine cached.released mine ((local_setEntry s p ip _).goto before (.inr rfl)) ?_
      rfl rfl ?_ ?_ ?_
    · rw [goto_icache, setEntry_icache_self]
    · simp only [State.owns, goto_refs, setEntry_refs, goto_phase_self, putting]
      rfl
    · rw [goto_phase_self]
      exact ⟨fun locks => absurd rfl locks.2.2, False.elim⟩
    · rw [putting]
      exact if_pos rfl
  | drop =>
    cases taken
    exact cached.dropped putting

/-- `ilock` reads the inode if need be. -/
theorem Cached.load (loading : s.phase p = .load ip) : Cached (s.load p ip) := by
  have mine : (s.icache ip).locked = some p := by
    apply cached.locks p ip
    rw [loading]
    rfl
  have has : 0 < s.refs p ip := by
    apply cached.locking p ip
    rw [loading]
    rfl
  have before : (s.phase p).Near ip := .inr (by rw [loading]; rfl)
  unfold State.load
  dsimp only
  split
  · rename_i valid
    refine cached.goto before (.inl rfl) ?_ ?_ ?_ ?_ ?_ ?_
    · rw [loading]
      rfl
    · exact fun _ => .inl has
    · exact False.elim
    · exact False.elim
    · exact fun _ => .inr (.inr valid)
    · rw [loading]
      simp only [Phase.mode, if_true]
      rintro ⟨same, typed, undirty⟩
      rw [undirty]
      exact ⟨same, typed, undirty⟩
  · -- The inode is read from disk.
    have frame := local_read p (cached.used (Nat.add_pos_left has _))
    have entry : (s.setEntry ip fun e =>
        { e with copy := s.disk e.key, valid := true, dirty := false }).icache ip = _ :=
      setEntry_icache_self _ _ _
    rw [entry]
    split
    · apply Cached.panic
      refine cached.work (frame.goto before (.inr rfl)) mine ?_ ?_ ?_ ?_ ?_ ?_ ?_ ?_
      · simp [entry, mine]
      · simp [entry]
      · simp [entry]
      · simp only [State.owns, goto_refs, setEntry_refs, goto_phase_self, loading]
        rfl
      · exact fun _ => .inl has
      · exact fun _ => has
      · rw [goto_phase_self]
        exact fun _ certain => absurd rfl certain
      · intro _ _
        rw [goto_phase_self]
        simp only [Phase.mode, if_true]
        trivial
    · rename_i typed
      refine cached.work (frame.goto before (.inl rfl)) mine ?_ ?_ ?_ ?_ ?_ ?_ ?_ ?_
      · simp [entry, mine]
      · simp [entry]
      · simp [entry]
      · simp only [State.owns, goto_refs, setEntry_refs, goto_phase_self, loading]
        rfl
      · exact fun _ => .inl has
      · exact fun _ => has
      · simp [entry]
      · intro _ _
        rw [goto_phase_self, goto_icache, entry]
        exact ⟨rfl, typed, rfl⟩

/-- A process in one of its calls goes on. -/
theorem Cached.run (taken : s.run p = some t) : Cached t := by
  unfold State.run at taken
  split at taken
  · cases taken
  · cases taken
  · rename_i dev type inum allocating
    cases taken
    have before : (s.phase p).target = none := by rw [allocating]; rfl
    unfold State.ialloc
    split
    · split
      · rename_i free
        exact (cached.outside before rfl).allocated free _
      · exact cached.outside before rfl
    · exact cached.panic _
  · rename_i key getting
    cases taken
    exact cached.iget key (by rw [getting]; rfl)
  · rename_i ip waiting
    obtain ⟨free, made⟩ := Option.ite_none_right_eq_some.mp taken
    cases made
    have has : 0 < s.refs p ip := by
      apply cached.locking p ip
      rw [waiting]
      rfl
    have before : (s.phase p).Near ip := .inr (by rw [waiting]; rfl)
    refine cached.acquired free before (.inr rfl) ?_ (.inl has) (fun _ => has) ?_ ?_
    · rw [waiting]
      rfl
    · exact fun certain => absurd rfl certain
    · exact fun _ => if_pos rfl
  · rename_i ip loading
    cases taken
    exact cached.load loading
  · rename_i stage ip putting
    exact cached.iput putting taken

/-- A process outside of the calls begins something. -/
theorem Cached.begin (idle : s.phase event.who = .idle) (taken : s.begin event = some t) :
    Cached t := by
  cases event with
  | iget p key =>
    cases taken
    exact cached.iget key (by rw [show s.phase p = .idle from idle]; rfl)
  | idup p q ip =>
    obtain ⟨has, made⟩ := Option.ite_none_right_eq_some.mp taken
    cases made
    exact cached.grant q (cached.used (p := p) (Nat.add_pos_left has _))
  | hand p q ip =>
    obtain ⟨⟨has, without⟩, made⟩ := Option.ite_none_right_eq_some.mp taken
    cases made
    exact cached.handed has without idle
  | ilock p ip =>
    obtain ⟨has, made⟩ := Option.ite_none_right_eq_some.mp taken
    cases made
    split
    · exact cached.panic _
    · change s.phase p = .idle at idle
      have before : (s.phase p).Near ip := .inl (by rw [idle]; rfl)
      refine cached.goto before (.inr rfl) ?_ (fun _ => .inl has) False.elim (fun _ => has) ?_ ?_
      · rw [idle]
        rfl
      · rw [idle]
        exact .inl
      · rw [idle]
        exact id
  | change p ip copy =>
    obtain ⟨⟨mine, typed⟩, made⟩ := Option.ite_none_right_eq_some.mp taken
    cases made
    change s.phase p = .idle at idle
    refine cached.work (local_setEntry s p ip _) mine ?_ ?_ ?_ rfl id ?_ ?_ ?_
    · simp [mine]
    · simp
    · simp
    · rw [setEntry_phase, idle]
      exact False.elim
    · simp
    · intro valid fits
      rw [setEntry_icache_self] at valid ⊢
      rw [setEntry_phase, idle]
      rw [idle] at fits
      exact ⟨typed, (Mode.base_fits (fits valid)).2⟩
  | iupdate p ip =>
    obtain ⟨mine, made⟩ := Option.ite_none_right_eq_some.mp taken
    cases made
    change s.phase p = .idle at idle
    have used := cached.used (cached.holder ip p mine).owns
    refine cached.work (local_iupdate p used) mine ?_ ?_ ?_ rfl id ?_ ?_ ?_
    · simp [mine]
    · simp
    · simp
    · rw [iupdate_phase, idle]
      exact False.elim
    · simp
    · intro valid fits
      rw [iupdate_icache_self] at valid ⊢
      rw [iupdate_phase, idle, iupdate_disk_self]
      rw [idle] at fits
      exact ⟨rfl, (Mode.base_fits (fits valid)).1, rfl⟩
  | iunlock p ip =>
    obtain ⟨⟨mine, undirty⟩, made⟩ := Option.ite_none_right_eq_some.mp taken
    cases made
    change s.phase p = .idle at idle
    split
    · exact cached.panic _
    · refine cached.released mine (local_setEntry s p ip _) ?_ rfl rfl rfl ?_ ?_
      · rw [setEntry_icache_self]
      · rw [setEntry_phase, idle]
        exact ⟨False.elim, False.elim⟩
      · rw [idle, undirty]
        rfl
  | iput p ip =>
    obtain ⟨has, made⟩ := Option.ite_none_right_eq_some.mp taken
    cases made
    exact cached.put idle has
  | ialloc p dev type =>
    cases taken
    exact cached.outside (by rw [show s.phase p = .idle from idle]; rfl) rfl
  | run p => cases taken

/-- Every step keeps the invariant. -/
theorem Cached.step (taken : s.step event = some t) : Cached t := by
  unfold State.step at taken
  obtain ⟨-, taken⟩ := Option.ite_none_left_eq_some.mp taken
  split at taken
  · exact cached.run taken
  · obtain ⟨idle, taken⟩ := Option.ite_none_right_eq_some.mp taken
    exact cached.begin idle taken

end

omit [DecidableEq P] in
/-- It holds at the start. -/
theorem Initial.cached (start : Initial s) : Cached s := by
  have owns (p : P) (ip : Fin nInode) : s.owns p ip = 0 := by
    rw [State.owns, start.refs, start.phases]
    rfl
  constructor
  case count =>
    intro ip
    rw [(start.entries ip).1]
    simp [owns]
  case unique =>
    intro i j used
    rw [(start.entries i).1] at used
    cases used
  case holder =>
    intro ip p held
    rw [(start.entries ip).2.2] at held
    cases held
  case locks =>
    intro p ip locks
    rw [start.phases] at locks
    cases locks
  case locking =>
    intro p ip locking
    rw [start.phases] at locking
    cases locking
  case sure =>
    intro ip p held
    rw [(start.entries ip).2.2] at held
    cases held
  case fits =>
    intro ip _ valid
    rw [(start.entries ip).2.1] at valid
    cases valid

/-- It holds in every run. -/
theorem Ran.cached {past : List (Event P)} (ran : Ran P past s) : Cached s :=
  ran.invariant (fun _ s => Cached s) (fun _ start => start.cached)
    fun _ _ _ _ _ cached taken => cached.step taken

/-- In every run of any processes: the entries in use are for different inodes; the reference count
of an entry is the number of references that processes have or are putting; and a valid entry in use
whose lock is free agrees with the inode on disk. -/
theorem icache_coherent {past : List (Event P)} (ran : Ran P past s) :
    (∀ i j, 0 < (s.icache i).ref → 0 < (s.icache j).ref →
      (s.icache i).key = (s.icache j).key → i = j) ∧
    (∀ ip, (s.icache ip).ref = ∑ p, s.owns p ip) ∧
    ∀ ip, 0 < (s.icache ip).ref → (s.icache ip).valid = true → (s.icache ip).locked = none →
      (s.icache ip).copy = s.disk (s.icache ip).key := by
  have cached := Ran.cached ran
  refine ⟨cached.unique, cached.count, fun ip used valid free => ?_⟩
  have fits := cached.fits ip used valid
  rw [mode_of_free free] at fits
  exact fits.1

/-- An empty cache, and a disk with one inode. -/
def small (P : Type) : State P where
  icache := fun _ => ⟨(0, 0), 0, false, Dinode.zero, none, false⟩
  disk := fun key =>
    if key = (1, 1) then { Dinode.zero with type := 2, nlink := 1 } else Dinode.zero
  seen := fun _ => false
  ninodes := 2
  phase := fun _ => .idle
  refs := fun _ _ => 0
  panicked := none

/-- The small disk is one to start from. -/
theorem small_initial (P : Type) : Initial (small P) where
  entries := fun _ => ⟨rfl, rfl, rfl⟩
  phases := fun _ => rfl
  refs := fun _ _ => rfl
  seen := fun _ => rfl
  panicked := rfl

/-- The first entry of the cache. -/
def entry0 : Fin nInode := ⟨0, by decide⟩

/-- A process frees the inode while a second one waits for the lock, and a third one allocates it
again; then the second one reads the new inode. -/
theorem icache_coherent_reallocated : ∃ (past : List (Event (Fin 3))) (s : State (Fin 3)),
    Ran (Fin 3) past s ∧ (s.icache entry0).ref = 2 ∧ (s.icache entry0).valid = true ∧
      (s.icache entry0).locked = none ∧ (s.icache entry0).copy.type = 1 ∧
      (s.icache entry0).copy = s.disk (s.icache entry0).key := by
  have runs : (replay step
      [.iget 0 (1, 1), .ilock 0 entry0, .run 0, .run 0,
        .change 0 entry0 { Dinode.zero with type := 2 }, .iupdate 0 entry0, .iunlock 0 entry0,
        .iput 0 entry0, .run 0, .run 0, .run 0, .iget 1 (1, 1), .ilock 1 entry0, .run 0, .run 0,
        .run 0, .run 0, .ialloc 2 1 1, .run 2, .run 2, .run 0, .run 0, .run 0, .run 1, .run 1,
        .iunlock 1 entry0] (small (Fin 3))).any (fun s =>
        (s.icache entry0).ref = 2 ∧ (s.icache entry0).valid = true ∧
          (s.icache entry0).locked = none ∧ (s.icache entry0).copy.type = 1) = true := by
    decide +kernel
  obtain ⟨s, ran, holds⟩ := History.of_replay (small_initial (Fin 3)) runs
  obtain ⟨ref, valid, free, typed⟩ := of_decide_eq_true holds
  have used : 0 < (s.icache entry0).ref := by omega
  exact ⟨_, s, ran, ref, valid, free, typed, (icache_coherent ran).2.2 entry0 used valid free⟩

end State

end Icache

end Xv6
