import Xv6.Verif.IcacheSync

/-!
# Inodes without links

`iput` reads the reference count and decrements it in two critical sections of `icache.lock`. Of two
processes that put the last two references to an inode without links, each may read a count of two,
and then neither frees the inode. In runs in which an `iput` that reads a larger count than one
leaves a reference that is not past its own reading, an inode without links that is valid in the
cache is kept by a reference, or is being freed.
-/

namespace Xv6.Icache.State

open Lib

variable {P : Type}

/-- A process has a reference, or is putting one and has not decided to leave the inode. -/
def Anchors (s : State P) (p : P) (ip : Fin nInode) : Prop :=
  0 < s.refs p ip ∨ ∃ stage, s.phase p = .iput stage ip ∧ stage ≠ .release ∧ stage ≠ .drop

/-- The process has no reference, or is putting the one that counts. -/
theorem Anchors.owns {s : State P} {p : P} {ip : Fin nInode} (anchors : s.Anchors p ip) :
    0 < s.owns p ip := by
  rcases anchors with has | ⟨stage, putting, -, early⟩
  · exact Keeps.owns (.inl has)
  · exact Keeps.owns (.inr ⟨stage, putting, early⟩)

/-- An entry in use holds an inode that has been read. -/
def Reads (s : State P) (ip : Fin nInode) (key : Key) : Prop :=
  0 < (s.icache ip).ref ∧ (s.icache ip).valid = true ∧ (s.icache ip).key = key

/-- A valid entry for an inode without links is anchored, and what has been read and is no longer in
the cache is linked or freed. -/
structure Watched (s : State P) : Prop where
  anchored : ∀ ip, (s.icache ip).valid = true → (s.icache ip).copy.nlink = 0 → ∃ p, s.Anchors p ip
  settled : ∀ key, s.seen key = true → (∀ ip, ¬s.Reads ip key) → (s.disk key).Settled

/-- An `iput` that reads a reference count other than one leaves a reference that is not past its
own reading. -/
def Attentive (s : State P) (event : Event P) : Prop :=
  ∀ p ip, event = .run p → s.phase p = .iput .ref ip → (s.icache ip).ref ≠ 1 →
    0 < s.refs p ip ∨ ∃ q, q ≠ p ∧ s.Anchors q ip

section

variable {s t : State P} {p : P} {ip : Fin nInode}

/-- Who is an anchor elsewhere stays one. -/
theorem Local.anchors (frame : Local s t p ip) {q : P} {j : Fin nInode} (other : q ≠ p ∨ j ≠ ip)
    (anchors : s.Anchors q j) : t.Anchors q j := by
  rcases anchors with has | ⟨stage, putting, early⟩
  · left
    rwa [frame.refs q j other]
  right
  refine ⟨stage, ?_, early⟩
  by_cases here : q = p
  · have apart : j ≠ ip := other.resolve_left (not_not.mpr here)
    rw [here] at putting ⊢
    rcases frame.about with same | ⟨before, -⟩
    · rw [same, putting]
    · refine absurd ?_ (before.ne apart)
      rw [putting]
      rfl
  · rw [frame.phases q here, putting]

/-- A step of a process on an entry, given what it means for the entry and the inodes it changes. -/
theorem Watched.local (watched : Watched s) (frame : Local s t p ip)
    (anchors : (t.icache ip).valid = true → (t.icache ip).copy.nlink = 0 → ∃ q, t.Anchors q ip)
    (settled : ∀ key, t.seen key = true → ¬t.Reads ip key →
      s.Reads ip key ∨ t.disk key ≠ s.disk key ∨ t.seen key ≠ s.seen key → (t.disk key).Settled) :
    Watched t := by
  constructor
  case anchored =>
    intro j valid unlinked
    by_cases same : j = ip
    · rw [same] at valid unlinked ⊢
      exact anchors valid unlinked
    · rw [frame.entries j same] at valid unlinked
      obtain ⟨q, others⟩ := watched.anchored j valid unlinked
      exact ⟨q, frame.anchors (.inr same) others⟩
  case settled =>
    intro key seen unread
    by_cases changed : s.Reads ip key ∨ t.disk key ≠ s.disk key ∨ t.seen key ≠ s.seen key
    · exact settled key seen (unread ip) changed
    simp only [not_or, not_not] at changed
    obtain ⟨before, disk, same⟩ := changed
    rw [disk]
    refine watched.settled key (same ▸ seen) fun j reads => ?_
    by_cases here : j = ip
    · exact before (here ▸ reads)
    · apply unread j
      unfold Reads
      rwa [frame.entries j here]

/-- What stays the same does not differ. -/
theorem not_differs {d : Dinode} {seen : Bool} : ¬(d ≠ d ∨ seen ≠ seen) := by simp

/-- A step that leaves the entry for its inode, and read if it was so. What it stores is of an entry
that has been read. -/
theorem Watched.same (watched : Watched s) (frame : Local s t p ip)
    (key : (t.icache ip).key = (s.icache ip).key)
    (used : 0 < (s.icache ip).ref → 0 < (t.icache ip).ref)
    (valid : (s.icache ip).valid = true → (t.icache ip).valid = true)
    (change : t.disk = s.disk ∧ t.seen = s.seen ∨
      0 < (t.icache ip).ref ∧ (t.icache ip).valid = true)
    (anchors : (t.icache ip).valid = true → (t.icache ip).copy.nlink = 0 → ∃ q, t.Anchors q ip) :
    Watched t := by
  refine watched.local frame anchors fun k seen unread changed => ?_
  have reads : t.Reads ip k := by
    rcases changed with before | changed
    · exact ⟨used before.1, valid before.2.1, key.trans before.2.2⟩
    rcases change with ⟨disk, seen'⟩ | ⟨used', valid'⟩
    · rw [disk, seen'] at changed
      exact absurd changed not_differs
    refine ⟨used', valid', key.trans ?_⟩
    by_contra other
    rcases frame.disk with ⟨disk, seen'⟩ | ⟨-, same⟩
    · rw [disk, seen'] at changed
      exact absurd changed not_differs
    · obtain ⟨disk, seen'⟩ := same k (Ne.symm other)
      exact absurd seen' (changed.resolve_left (absurd disk))
  exact absurd reads unread

/-- A step that leaves the fields of the entry, and the process its anchor. -/
theorem Watched.keep (watched : Watched s) (frame : Local s t p ip)
    (key : (t.icache ip).key = (s.icache ip).key)
    (used : 0 < (s.icache ip).ref → 0 < (t.icache ip).ref)
    (valid : (t.icache ip).valid = (s.icache ip).valid)
    (copy : (t.icache ip).copy.nlink = (s.icache ip).copy.nlink)
    (change : t.disk = s.disk ∧ t.seen = s.seen ∨
      0 < (t.icache ip).ref ∧ (t.icache ip).valid = true)
    (mine : s.Anchors p ip → t.Anchors p ip) : Watched t := by
  refine watched.same frame key used (valid ▸ id) change fun valid' unlinked => ?_
  rw [valid] at valid'
  rw [copy] at unlinked
  obtain ⟨q, anchors⟩ := watched.anchored ip valid' unlinked
  by_cases here : q = p
  · rw [here] at anchors
    exact ⟨p, mine anchors⟩
  · exact ⟨q, frame.anchors (.inl here) anchors⟩

variable [DecidableEq P]

variable (watched : Watched s)

include watched

omit [DecidableEq P] in
/-- A panic changes nothing. -/
theorem Watched.panic (message : String) : Watched (s.panic message) :=
  ⟨watched.anchored, watched.settled⟩

omit [DecidableEq P] in
/-- `ialloc` writes an inode, which has then not been read. -/
theorem Watched.allocated (key : Key) (dinode : Dinode) :
    Watched { s with
      disk := Function.update s.disk key dinode
      seen := Function.update s.seen key false } := by
  refine ⟨watched.anchored, fun k seen unread => ?_⟩
  dsimp only at seen ⊢
  by_cases same : k = key
  · rw [same, Function.update_self] at seen
    cases seen
  · rw [Function.update_of_ne same] at seen ⊢
    exact watched.settled k seen unread

/-- A process that is in no `iput` goes on to another phase. -/
theorem Watched.goto {phase : Phase} (near : (s.phase p).Near ip) (after : phase.Near ip)
    (outside : ∀ stage, s.phase p ≠ .iput stage ip) : Watched (s.goto p phase) := by
  refine watched.keep ((Local.refl s p ip).goto near after) rfl id rfl rfl (.inl ⟨rfl, rfl⟩) ?_
  rintro (has | ⟨stage, putting, -⟩)
  · exact .inl has
  · exact absurd putting (outside stage)

/-- A process outside of calls on entries goes on outside of them. -/
theorem Watched.outside {phase : Phase} (before : (s.phase p).target = none)
    (after : phase.target = none) : Watched (s.goto p phase) := by
  have near : (s.phase p).Near ⟨0, nInode_pos⟩ := .inl before
  refine watched.goto near (.inl after) fun stage putting => ?_
  rw [putting] at before
  cases before

/-- A step of `iput` that goes on with the inode. -/
theorem Watched.stage {stage next : Stage} (now : s.phase p = .iput stage ip)
    (early : next ≠ .release ∧ next ≠ .drop) {u : State P} (frame : Local s u p ip)
    (key : (u.icache ip).key = (s.icache ip).key) (ref : (u.icache ip).ref = (s.icache ip).ref)
    (valid : (u.icache ip).valid = (s.icache ip).valid)
    (change : u.disk = s.disk ∧ u.seen = s.seen ∨
      0 < (u.icache ip).ref ∧ (u.icache ip).valid = true) : Watched (u.goto p (.iput next ip)) := by
  have near : (s.phase p).Near ip := .inr (by rw [now]; rfl)
  exact watched.same (frame.goto near (.inr rfl)) key (ref ▸ id) (valid ▸ id) change fun _ _ =>
    ⟨p, .inr ⟨next, goto_phase_self _ _ _, early⟩⟩

/-- A process gets a reference. -/
theorem Watched.grant (q : P) : Watched (s.grant q ip) := by
  have frame : Local s (s.grant q ip) q ip := (local_setEntry s q ip _).setRefs _
  have entry : (s.grant q ip).icache ip = { s.icache ip with ref := (s.icache ip).ref + 1 } :=
    setEntry_icache_self s ip fun e => { e with ref := e.ref + 1 }
  refine watched.keep frame (by rw [entry]) ?_ (by rw [entry]) (by rw [entry]) (.inl ⟨rfl, rfl⟩)
    fun _ => .inl ?_
  · rw [entry]
    exact fun _ => Nat.succ_pos _
  · simp only [State.grant, setRefs_refs_self]
    exact Nat.succ_pos _

/-- A process hands a reference to another one. -/
theorem Watched.handed {q : P} : Watched ((s.setRefs p ip (· - 1)).setRefs q ip (· + 1)) := by
  refine ⟨fun j valid unlinked => ?_, watched.settled⟩
  obtain ⟨r, anchors⟩ := watched.anchored j valid unlinked
  by_cases here : r = p ∧ j = ip
  · refine ⟨q, .inl ?_⟩
    rw [here.2, setRefs_refs_self]
    exact Nat.succ_pos _
  · refine ⟨r, ?_⟩
    rcases anchors with has | putting
    · exact .inl (Nat.lt_of_lt_of_le has (refs_le_handed s (not_and_or.mp here)))
    · exact .inr putting

/-- `iget` finds the inode, or takes an entry that is not in use. -/
theorem Watched.iget (key : Key) (outside : (s.phase p).target = none) :
    Watched (s.iget p key) := by
  unfold State.iget
  split
  · exact (watched.grant p).outside outside rfl
  split
  · exact watched.panic _
  · rename_i ip found
    have unused : (s.icache ip).ref = 0 := by simpa using List.find?_some found
    have recycled : Watched ((s.setEntry ip fun e =>
        { e with key := key, ref := 1, valid := false }).setRefs p ip (· + 1)) := by
      refine watched.local ((local_setEntry s p ip _).setRefs _) (fun valid => ?_)
        fun k _ _ changed => ?_
      · simp at valid
      · rcases changed with reads | changed
        · exact absurd reads.1 (by omega)
        · exact absurd changed not_differs
    exact recycled.outside outside rfl

end

section

variable [DecidableEq P] [Fintype P] {s t : State P} {p : P} {ip : Fin nInode}

section

variable (watched : Watched s) (cached : Cached s)

include watched cached

/-- A step of `iput`. -/
theorem Watched.iput {stage : Stage} (now : s.phase p = .iput stage ip)
    (attentive : Attentive s (.run p)) (taken : s.iput p ip stage = some t) : Watched t := by
  have near : (s.phase p).Near ip := .inr (by rw [now]; rfl)
  have used := cached.used_of_iput now
  -- The entry is valid from the test on until `iput` ends its validity.
  have valid (locked : stage ≠ .acquire ∧ stage ≠ .drop) (sure : stage ≠ .test ∧ stage ≠ .release) :
      (s.icache ip).valid = true := by
    refine cached.sure ip p (cached.locks p ip ?_) ?_
    · rw [now]
      exact ⟨rfl, locked⟩
    · rw [now]
      exact fun _ => sure
  -- A process that leaves the inode keeps what other references it has.
  have leaves {u : State P} (frame : Local s u p ip) {phase : Phase} (after : phase.Near ip)
      (refs : u.refs = s.refs)
      (others : (u.icache ip).valid = true → (u.icache ip).copy.nlink = 0 →
        0 < s.refs p ip ∨ ∃ q, q ≠ p ∧ s.Anchors q ip)
      (settled : ∀ key, u.seen key = true → ¬u.Reads ip key →
        s.Reads ip key ∨ u.disk key ≠ s.disk key ∨ u.seen key ≠ s.seen key →
          (u.disk key).Settled) : Watched (u.goto p phase) := by
    refine watched.local (frame.goto near after) (fun valid unlinked => ?_) settled
    rcases others valid unlinked with has | ⟨q, other, anchors⟩
    · refine ⟨p, .inl ?_⟩
      rw [goto_refs, refs]
      exact has
    · exact ⟨q, (frame.goto near after).anchors (.inl other) anchors⟩
  -- It is no anchor itself at the end.
  have late (ends : stage = .release ∨ stage = .drop) (valid : (s.icache ip).valid = true)
      (unlinked : (s.icache ip).copy.nlink = 0) :
      0 < s.refs p ip ∨ ∃ q, q ≠ p ∧ s.Anchors q ip := by
    obtain ⟨q, anchors⟩ := watched.anchored ip valid unlinked
    by_cases here : q = p
    · rw [here] at anchors
      rcases anchors with has | ⟨stage', there, early⟩
      · exact .inl has
      · rw [now] at there
        cases there
        rcases ends with rfl | rfl
        · exact absurd rfl early.1
        · exact absurd rfl early.2
    · exact .inr ⟨q, here, anchors⟩
  cases stage with
  | acquire =>
    obtain ⟨-, made⟩ := Option.ite_none_right_eq_some.mp taken
    cases made
    exact watched.stage now (by simp) (local_setEntry s p ip _) (by simp) (by simp) (by simp)
      (.inl ⟨rfl, rfl⟩)
  | test =>
    cases taken
    split
    · exact watched.stage now (by simp) (Local.refl s p ip) rfl rfl rfl (.inl ⟨rfl, rfl⟩)
    · rename_i linked
      exact leaves (Local.refl s p ip) (.inr rfl) rfl
        (fun valid unlinked => absurd ⟨valid, unlinked⟩ linked)
        fun key _ unread changed => absurd changed (by simp [unread])
  | ref =>
    cases taken
    split
    · exact watched.stage now (by simp) (Local.refl s p ip) rfl rfl rfl (.inl ⟨rfl, rfl⟩)
    · rename_i more
      exact leaves (Local.refl s p ip) (.inr rfl) rfl (fun _ _ => attentive p ip rfl now more)
        fun key _ unread changed => absurd changed (by simp [unread])
  | itrunc | type =>
    cases taken
    exact watched.stage now (by simp) (local_setEntry s p ip _) (by simp) (by simp) (by simp)
      (.inl ⟨rfl, rfl⟩)
  | itruncUpdate | update =>
    cases taken
    refine watched.stage now (by simp) (local_iupdate p used) (by simp) (by simp) (by simp)
      (.inr ⟨?_, ?_⟩)
    · simpa using used
    · simpa using valid (by simp) (by simp)
  | invalid =>
    cases taken
    have locked : (s.icache ip).locked = some p := by
      apply cached.locks p ip
      rw [now]
      exact ⟨rfl, by simp⟩
    have fits := cached.fits ip used (valid (by simp) (by simp))
    rw [mode_of_held locked, now, Phase.mode, if_pos rfl] at fits
    refine leaves (local_setEntry s p ip _) (.inr rfl) rfl (fun valid => ?_)
      fun key seen _ changed => ?_
    · simp at valid
    · rcases changed with ⟨-, -, rfl⟩ | changed
      · exact fun _ => fits seen
      · exact absurd changed not_differs
  | release =>
    cases taken
    refine leaves (local_setEntry s p ip _) (.inr rfl) rfl (fun valid unlinked => ?_)
      fun key _ unread changed => ?_
    · rw [setEntry_icache_self] at valid unlinked
      exact late (.inl rfl) valid unlinked
    · unfold Reads at unread changed
      rw [setEntry_icache_self] at unread
      exact absurd (changed.resolve_right not_differs) unread
  | drop =>
    cases taken
    have after := cached.dropped now
    have frame := (local_setEntry s p ip fun e => { e with ref := e.ref - 1 }).goto near
      (.inl rfl : Phase.idle.Near ip)
    refine leaves (local_setEntry s p ip _) (.inl rfl) rfl (fun valid unlinked => ?_)
      fun key _ unread changed => ?_
    · rw [setEntry_icache_self] at valid unlinked
      exact late (.inr rfl) valid unlinked
    obtain ⟨-, valid, rfl⟩ := changed.resolve_right not_differs
    -- The last reference goes; on disk the inode has the links it has in the cache.
    have unused : (s.icache ip).ref - 1 = 0 := by
      by_contra more
      apply unread
      unfold Reads
      rw [setEntry_icache_self]
      exact ⟨Nat.pos_of_ne_zero more, valid, rfl⟩
    have entry : ((s.setEntry ip fun e => { e with ref := e.ref - 1 }).goto p .idle).icache ip =
        { s.icache ip with ref := (s.icache ip).ref - 1 } :=
      setEntry_icache_self s ip fun e => { e with ref := e.ref - 1 }
    have free := after.unlocked (by rw [entry]; exact unused)
    rw [entry] at free
    have fits := cached.fits ip used valid
    rw [mode_of_free free] at fits
    intro unlinked
    rw [setEntry_disk, ← fits.1] at unlinked
    have owned : ∃ q, 0 < ((s.setEntry ip fun e => { e with ref := e.ref - 1 }).goto p .idle).owns
        q ip := by
      rcases late (.inr rfl) valid unlinked with has | ⟨q, other, anchors⟩
      · exact ⟨p, Nat.add_pos_left has _⟩
      · exact ⟨q, (frame.anchors (.inl other) anchors).owns⟩
    obtain ⟨q, owns⟩ := owned
    have kept := after.used owns
    rw [entry, unused] at kept
    exact absurd kept (Nat.lt_irrefl 0)

/-- `ilock` reads the inode. -/
theorem Watched.load (now : s.phase p = .load ip) : Watched (s.load p ip) := by
  have has : 0 < s.refs p ip := by
    apply cached.locking p ip
    rw [now]
    rfl
  have used := cached.used (Nat.add_pos_left has ((s.phase p).puts ip))
  have near : (s.phase p).Near ip := .inr (by rw [now]; rfl)
  unfold State.load
  dsimp only
  split
  · refine watched.goto near (.inl rfl) fun stage putting => ?_
    rw [now] at putting
    cases putting
  · split
    · apply Watched.panic
      refine watched.same ((local_read p used).goto near (.inr rfl)) ?_ ?_ ?_ (.inr ⟨?_, ?_⟩)
        fun _ _ => ⟨p, .inl has⟩
      all_goals simp [used]
    · refine watched.same ((local_read p used).goto near (.inl rfl)) ?_ ?_ ?_ (.inr ⟨?_, ?_⟩)
        fun _ _ => ⟨p, .inl has⟩
      all_goals simp [used]

/-- A process in one of its calls goes on. -/
theorem Watched.run (attentive : Attentive s (.run p)) (taken : s.run p = some t) : Watched t := by
  unfold State.run at taken
  split at taken
  · cases taken
  · cases taken
  · rename_i dev type inum now
    cases taken
    have outside : (s.phase p).target = none := by
      rw [now]
      rfl
    unfold State.ialloc
    split
    · split
      · exact (watched.outside outside rfl).allocated (dev, inum) _
      · exact watched.outside outside rfl
    · exact watched.panic _
  · rename_i key now
    cases taken
    exact watched.iget key (by rw [now]; rfl)
  · rename_i ip now
    obtain ⟨-, made⟩ := Option.ite_none_right_eq_some.mp taken
    cases made
    have near : (s.phase p).Near ip := .inr (by rw [now]; rfl)
    refine watched.keep ((local_setEntry s p ip _).goto near (.inr rfl)) ?_ ?_ ?_ ?_
      (.inl ⟨rfl, rfl⟩) ?_
    · simp
    · simp
    · simp
    · simp
    · rintro (has | ⟨stage, putting, -⟩)
      · exact .inl has
      · rw [now] at putting
        cases putting
  · rename_i ip now
    cases taken
    exact watched.load cached now
  · rename_i stage ip now
    exact watched.iput cached now attentive taken

/-- A process outside of the calls begins something. -/
theorem Watched.begin {event : Event P}
    (idle : s.phase event.who = .idle) (taken : s.begin event = some t) : Watched t := by
  have outside (ip : Fin nInode) (stage : Stage) : s.phase event.who ≠ .iput stage ip := by
    rw [idle]
    simp
  have free : (s.phase event.who).target = none := by
    rw [idle]
    rfl
  have near (ip : Fin nInode) : (s.phase event.who).Near ip := .inl free
  cases event with
  | iget p key =>
    cases taken
    exact watched.iget key free
  | idup p q ip =>
    obtain ⟨-, made⟩ := Option.ite_none_right_eq_some.mp taken
    cases made
    exact watched.grant q
  | hand p q ip =>
    obtain ⟨-, made⟩ := Option.ite_none_right_eq_some.mp taken
    cases made
    exact watched.handed
  | ilock p ip =>
    obtain ⟨-, made⟩ := Option.ite_none_right_eq_some.mp taken
    cases made
    split
    · exact watched.panic _
    · exact watched.goto (near ip) (.inr rfl) (outside ip)
  | change p ip copy =>
    obtain ⟨⟨mine, -⟩, made⟩ := Option.ite_none_right_eq_some.mp taken
    cases made
    refine watched.same (local_setEntry s p ip _) ?_ ?_ ?_ (.inl ⟨rfl, rfl⟩) fun _ _ =>
      ⟨p, .inl ?_⟩
    · simp
    · simp
    · simp
    · exact (cached.holder ip p mine).resolve_right fun ⟨stage, putting, _⟩ =>
        outside ip stage putting
  | iupdate p ip =>
    obtain ⟨mine, made⟩ := Option.ite_none_right_eq_some.mp taken
    cases made
    have used := cached.used (cached.holder ip p mine).owns
    have sure := cached.sure ip p mine (Phase.sure_of_ne fun here => by cases free.symm.trans here)
    refine watched.keep (local_iupdate p used) ?_ ?_ ?_ ?_ (.inr ⟨?_, ?_⟩) id
    all_goals simp [used, sure]
  | iunlock p ip =>
    obtain ⟨-, made⟩ := Option.ite_none_right_eq_some.mp taken
    cases made
    split
    · exact watched.panic _
    · refine watched.keep (local_setEntry s p ip _) ?_ ?_ ?_ ?_ (.inl ⟨rfl, rfl⟩) id
      all_goals simp
  | iput p ip =>
    obtain ⟨-, made⟩ := Option.ite_none_right_eq_some.mp taken
    cases made
    refine watched.same (((Local.refl s p ip).setRefs _).goto (near ip) (.inr rfl)) rfl id id
      (.inl ⟨rfl, rfl⟩) fun _ _ => ?_
    exact ⟨p, .inr ⟨.acquire, goto_phase_self _ _ _, by simp⟩⟩
  | ialloc p dev type =>
    cases taken
    exact watched.outside free rfl
  | run p => cases taken

end

/-- The invariant holds in every run in which every `iput` is attentive. -/
theorem ran_watched {past : List (Event P)} (ran : RanWithin P Attentive past s) : Watched s := by
  refine (ran.invariant (fun past s => Ran P past s ∧ Watched s) ?_ ?_).2
  · intro s start
    refine ⟨.nil start, fun ip valid => ?_, fun key seen => ?_⟩
    · rw [(start.entries ip).2.1] at valid
      cases valid
    · rw [start.seen] at seen
      cases seen
  · intro past s t event ⟨before, watched⟩ attentive taken
    refine ⟨before.cons taken, ?_⟩
    have cached := Ran.cached before
    unfold State.step at taken
    obtain ⟨-, taken⟩ := Option.ite_none_left_eq_some.mp taken
    split at taken
    · exact watched.run cached attentive taken
    · obtain ⟨idle, taken⟩ := Option.ite_none_right_eq_some.mp taken
      exact watched.begin cached idle taken

/-- In every run of any processes in which an `iput` that reads a reference count other than one
leaves a reference that is not past its own reading: no entry that was valid when its last reference
went is for an inode without links; and an inode that has been valid in the cache since it was
allocated, to which there is no reference and which has no links on disk, has no type there either,
and has been truncated. -/
theorem unlinked_inode_freed {past : List (Event P)} (ran : RanWithin P Attentive past s) :
    (∀ ip, (s.icache ip).ref = 0 → (s.icache ip).valid = true → (s.icache ip).copy.nlink ≠ 0) ∧
    ∀ key, s.seen key = true → (∀ ip, (s.icache ip).key = key → (s.icache ip).ref = 0) →
      (s.disk key).nlink = 0 → (s.disk key).type = 0 ∧ (s.disk key).Truncated := by
  have watched := ran_watched ran
  refine ⟨fun ip unused valid unlinked => ?_, fun key seen unused => ?_⟩
  · obtain ⟨p, anchors⟩ := watched.anchored ip valid unlinked
    have used := (Ran.cached ran.history).used anchors.owns
    omega
  · refine watched.settled key seen fun ip reads => ?_
    have used := reads.1
    rw [unused ip reads.2.2] at used
    cases used

end

/-- A state in which those about to read the reference count find it to be one. -/
theorem attentive_of_last {s : State P} (last : ∀ p ip, s.phase p = .iput .ref ip →
    (s.icache ip).ref = 1) (event : Event P) : Attentive s event :=
  fun p ip _ now more => absurd (last p ip now) more

/-- A process takes the link of an inode that is in use twice; the other process puts the first
reference, and the `iput` of the second one frees the inode. -/
theorem unlinked_inode_freed_last : ∃ (past : List (Event (Fin 2))) (s : State (Fin 2)),
    RanWithin (Fin 2) Attentive past s ∧ s.seen (1, 1) = true ∧ (s.disk (1, 1)).nlink = 0 ∧
      (s.disk (1, 1)).type = 0 ∧ (s.disk (1, 1)).Truncated := by
  have runs : (replayWithin step
      (fun _ s _ => ∀ p ip, s.phase p = .iput .ref ip → (s.icache ip).ref = 1)
      [.iget 0 (1, 1), .iget 1 (1, 1), .ilock 0 entry0, .run 0, .run 0, .iput 1 entry0,
        .iunlock 0 entry0, .run 1, .run 1, .run 1, .run 1, .ilock 0 entry0, .run 0, .run 0,
        .change 0 entry0 { Dinode.zero with type := 2, size := 5 }, .iupdate 0 entry0,
        .iunlock 0 entry0, .iput 0 entry0, .run 0, .run 0, .run 0, .run 0, .run 0, .run 0, .run 0,
        .run 0, .run 0, .run 0] [] (small (Fin 2))).any (fun s =>
        s.seen (1, 1) = true ∧ (∀ ip, (s.icache ip).ref = 0) ∧ (s.disk (1, 1)).nlink = 0) =
      true := by
    decide +kernel
  obtain ⟨s, within, holds⟩ := Within.of_replay (small_initial (Fin 2)) runs
  obtain ⟨seen, unused, unlinked⟩ := of_decide_eq_true holds
  have attentive := within.imp fun past s event last => attentive_of_last last event
  exact ⟨_, s, attentive, seen, unlinked,
    (unlinked_inode_freed attentive).2 (1, 1) seen (fun ip _ => unused ip) unlinked⟩

/-- Two processes put the last references to an inode without links; both read a reference count of
two, and the inode stays allocated. -/
theorem concurrent_iput_leaks : ∃ (past : List (Event (Fin 2))) (s : State (Fin 2)),
    Ran (Fin 2) past s ∧ (s.icache entry0).ref = 0 ∧ (∀ p, s.phase p = .idle) ∧
      (s.icache entry0).valid = true ∧ (s.icache entry0).copy.nlink = 0 ∧
      (s.disk (s.icache entry0).key).nlink = 0 ∧ (s.disk (s.icache entry0).key).type ≠ 0 := by
  have runs : (replay step
      [.iget 0 (1, 1), .iget 1 (1, 1), .ilock 0 entry0, .run 0, .run 0,
        .change 0 entry0 { Dinode.zero with type := 2 }, .iupdate 0 entry0, .iunlock 0 entry0,
        .iput 0 entry0, .iput 1 entry0, .run 0, .run 0, .run 0, .run 0, .run 1, .run 1, .run 1,
        .run 1, .run 0, .run 1] (small (Fin 2))).any (fun s =>
        (s.icache entry0).ref = 0 ∧ (∀ p, s.phase p = .idle) ∧ (s.icache entry0).valid = true ∧
          (s.icache entry0).copy.nlink = 0 ∧ (s.disk (s.icache entry0).key).nlink = 0 ∧
          (s.disk (s.icache entry0).key).type ≠ 0) = true := by
    decide +kernel
  obtain ⟨s, ran, holds⟩ := History.of_replay (small_initial (Fin 2)) runs
  exact ⟨_, s, ran, of_decide_eq_true holds⟩

end Xv6.Icache.State
