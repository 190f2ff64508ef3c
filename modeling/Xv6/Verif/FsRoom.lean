import Xv6.Kernel.Vm
import Xv6.Verif.CacheRoom
import Xv6.Verif.LoadLog
import Xv6.Verif.Reservation

/-!
# File system calls and the room in the cache

The dirty buffers are those of the logged blocks that `commit` has yet to install. So `bget` finds
a buffer as long as the logged blocks and the other buffers in use are fewer than `NBUF`. Readers
are not admitted by `begin_op`, and 31 of them are enough to break this.
-/

namespace Xv6

open Lib Function

/-! ## Runs -/

namespace LoadState

variable {Proc : Type} [DecidableEq Proc] {region : LogRegion} {driver : Driver}
  {s t : LoadState Proc} {p : Proc}

/-- The block for which the step calls `bget`. -/
def asked (s : LoadState Proc) : LoadEvent Proc → Option UInt32
  | .get _ _ b => some b
  | .commit p =>
    match s.task p with
    | .committing (.get _ b :: _) => some b
    | _ => none
  | _ => none

/-- The dirty buffers are for logged blocks, and `commit` is about to write them. -/
def Pinned (s : LoadState Proc) : Prop :=
  ∀ i, (s.cache.buf i).dirty = true →
    (s.cache.buf i).Logged s.lh ∧
      ∀ p rest, s.task p = .committing rest → (s.cache.buf i).blockno ∈ Command.toInstall rest

variable {task : Task} {q : Proc} {rest : List Command} {b : UInt32}
  {event : CacheEvent (Proc × Hand)} {cache : CacheState (Proc × Hand)} {command : Command}
  {disksize : Nat}

/-- Who commits after a move. -/
theorem goto_committing (commits : (s.goto p task).task q = .committing rest) :
    (q = p ∧ task = .committing rest) ∨ (q ≠ p ∧ s.task q = .committing rest) := by
  have commits : update s.task p task q = .committing rest := commits
  by_cases here : q = p
  · rw [here, update_self] at commits
    exact .inl ⟨here, commits⟩
  · rw [update_of_ne here] at commits
    exact .inr ⟨here, commits⟩

/-- The process does not commit after the move. -/
theorem goto_before (out : ∀ rest, task ≠ .committing rest)
    (commits : (s.goto p task).task q = .committing rest) : s.task q = .committing rest := by
  rcases goto_committing commits with ⟨-, no⟩ | ⟨-, before⟩
  · exact absurd no (out rest)
  · exact before

omit [DecidableEq Proc] in
/-- The buffer of a block that a client holds. -/
theorem holds_session {c : Proc × Hand} (holds : s.Holds c b) :
    ∃ r saved, s.cache.session c = .holding r saved ∧ r.key = (rootDev, b) := by
  unfold Holds at holds
  cases session : s.cache.session c with
  | holding r saved =>
    rw [session] at holds
    exact ⟨r, saved, rfl, Option.some.inj holds⟩
  | idle | waiting | locked | releasing =>
    rw [session] at holds
    cases holds

variable [Fintype Proc]

/-! ### Pinned buffers -/

/-- The cache is in order, the log has the dirty buffers, and a buffer has always been found. -/
structure Loaded (s : LoadState Proc) : Prop where
  coherent : ∃ disk past, CacheState.Coherent disk past s.cache
  pinned : s.cache.panicked = none → s.Pinned
  calm : s.cache.panicked ≠ some "bget: no buffers"

omit [DecidableEq Proc] in
/-- The processes go on, with the cache as it is. -/
theorem Loaded.tasks (inv : s.Loaded) (cache : t.cache = s.cache) (lh : t.lh = s.lh)
    (tasks : ∀ q rest, t.task q = .committing rest →
      s.task q = .committing rest ∨ Command.toInstall rest = s.lh) : t.Loaded := by
  refine ⟨cache ▸ inv.coherent, fun runs i dirty => ?_, cache ▸ inv.calm⟩
  rw [cache] at runs dirty ⊢
  obtain ⟨logged, installs⟩ := inv.pinned runs i dirty
  refine ⟨by rwa [lh], fun q rest commits => ?_⟩
  rcases tasks q rest commits with before | all
  · exact installs q rest before
  · rw [all]
    exact logged.2

/-- A dirty buffer was dirty before, unless `log_write` has made it so. -/
theorem Loaded.dirty (inv : s.Loaded) (stepped : s.cache.step driver event = some cache)
    (runs : cache.panicked = none) (other : ∀ c, event ≠ .logWrite c) {i : Fin nBuf}
    (dirty : (cache.buf i).dirty = true) :
    (s.cache.buf i).dirty = true ∧ (cache.buf i).key = (s.cache.buf i).key ∧
      ∀ c, event = .bwrite c → (s.cache.session c).buf ≠ some i := by
  obtain ⟨disk, past, coherent⟩ := inv.coherent
  rcases CacheState.dirty_of_step coherent stepped runs dirty with
    ⟨before, kept⟩ | ⟨c, log, _⟩
  · exact ⟨before, coherent.pinned stepped i (.inr before), kept⟩
  · exact absurd log (other c)

/-- A step of the cache other than `log_write`, in which `bget` finds a buffer. -/
theorem Loaded.onCache (inv : s.Loaded) (taken : s.onCache (memide disksize) event = some t)
    (other : ∀ c, event ≠ .logWrite c)
    (found : ∀ c dev b, event = .get c dev b → s.cache.bget dev b ≠ some none) : t.Loaded := by
  obtain ⟨cache, stepped, rfl⟩ := Option.map_eq_some_iff.mp taken
  obtain ⟨disk, past, coherent⟩ := inv.coherent
  refine ⟨⟨disk, _, coherent.step stepped⟩, fun runs i dirty => ?_, fun panics => ?_⟩
  · obtain ⟨before, key, -⟩ := inv.dirty stepped runs other dirty
    obtain ⟨dev, blockno⟩ := Prod.mk.inj key
    have pinned := inv.pinned (CacheState.runs_of_step stepped) i before
    simp only [Buf.Logged] at *
    rwa [dev, blockno]
  · obtain ⟨c, dev, b, asks, none⟩ := CacheState.out_of_buffers coherent stepped panics
    exact found c dev b asks none

/-- A command of `commit` other than `log.lh.n = 0`. -/
theorem Loaded.commit_cache (inv : s.Loaded) (follows : s.Follows region)
    (commits : s.task p = .committing (command :: rest))
    (taken : s.onCache (memide disksize) event = some t) (other : ∀ c, event ≠ .logWrite c)
    (found : ∀ c dev b, event = .get c dev b → s.cache.bget dev b ≠ some none)
    (written : ∀ b, command.installs = some b → event = .bwrite (p, 1) ∧ s.Holds (p, 1) b) :
    (t.goto p (.committing rest)).Loaded := by
  have kept := inv.onCache taken other found
  obtain ⟨cache, stepped, rfl⟩ := Option.map_eq_some_iff.mp taken
  refine ⟨kept.coherent, fun runs i dirty => ?_, kept.calm⟩
  obtain ⟨before, key, unwritten⟩ := inv.dirty stepped runs other dirty
  obtain ⟨logged, -⟩ := kept.pinned runs i dirty
  refine ⟨logged, fun q rest' again => ?_⟩
  rcases goto_committing again with ⟨rfl, same⟩ | ⟨apart, too⟩
  · rw [← Task.committing.inj same]
    have member := (inv.pinned (CacheState.runs_of_step stepped) i before).2 q _ commits
    have blockno : (cache.buf i).blockno = (s.cache.buf i).blockno := congrArg Prod.snd key
    show (cache.buf i).blockno ∈ _
    rw [← blockno] at member
    cases installed : command.installs with
    | none =>
      rwa [Command.toInstall, List.filterMap_cons_none installed] at member
    | some b =>
      rw [Command.toInstall, List.filterMap_cons_some installed] at member
      refine (List.mem_cons.mp member).resolve_left fun here => ?_
      obtain ⟨writes, holds⟩ := written b installed
      obtain ⟨r, saved, session, asked⟩ := holds_session holds
      obtain ⟨disk, past, coherent⟩ := inv.coherent
      apply unwritten _ writes
      rw [session]
      apply congrArg some
      have matched := (coherent.matched (q, 1) r (by rw [session]; rfl)).1
      apply coherent.unique
      · have real : (s.cache.buf r.buf).dev = rootDev := by
          rw [asked] at matched
          exact congrArg Prod.fst matched
        rw [real]
        decide
      · rw [matched, asked, ← key]
        exact Prod.ext logged.1.symm here.symm
  · exact absurd (follows.alone too commits) apart

/-- A command of `commit`. -/
theorem Loaded.commit (inv : s.Loaded) (follows : s.Follows region)
    (commits : s.task p = .committing (command :: rest))
    (runs : s.cache.panicked = none) (ran : s.run (memide disksize) p command = some t)
    (found : ∀ h b, command = .get h b → s.cache.bget rootDev b ≠ some none) :
    (t.goto p (.committing rest)).Loaded := by
  cases command with
  | clear =>
    -- Every dirty buffer has been written, so none is left when the header is forgotten.
    obtain rfl := Option.some.inj ran
    refine ⟨inv.coherent, fun _ i dirty => ?_, inv.calm⟩
    have member := (inv.pinned runs i dirty).2 p _ commits
    rw [Command.toInstall, List.filterMap_cons_none rfl, ← Command.toInstall,
      follows.installed commits] at member
    cases member
  | bwrite h b =>
    obtain ⟨holds, taken⟩ := Option.ite_none_right_eq_some.mp ran
    apply inv.commit_cache follows commits taken (by simp) (by simp)
    intro b' installed
    obtain ⟨second, same⟩ := Option.ite_none_right_eq_some.mp installed
    obtain rfl : h = 1 := Fin.ext second
    rw [← Option.some.inj same]
    exact ⟨rfl, holds⟩
  | get h b =>
    refine inv.commit_cache follows commits ran (by simp) ?_ (by simp [Command.installs])
    rintro _ _ _ ⟨⟩
    exact found h b rfl
  | lock | read | copy | head | release | drop =>
    exact inv.commit_cache follows commits ran (by simp) (by simp) (by simp [Command.installs])

/-- `log_write` makes the buffer of a logged block dirty. -/
theorem Loaded.logWrite (inv : s.Loaded) (follows : s.Follows region) {h : Hand}
    {logged : List UInt32} (inOp : s.task p = .inOp logged) (holds : s.Holds (p, h) b)
    (taken : s.logWrite region (memide disksize) p h b logged = some t) : t.Loaded := by
  obtain ⟨disk, past, coherent⟩ := inv.coherent
  have stops (message : String) (other : message ≠ "bget: no buffers") :
      ({ s with cache := s.cache.panic message } : LoadState Proc).Loaded :=
    ⟨⟨disk, past, coherent.panic message⟩, by simp [CacheState.panic], fun same =>
      other (Option.some.inj same)⟩
  unfold LoadState.logWrite at taken
  split at taken
  · obtain rfl := Option.some.inj taken
    exact stops _ (by decide)
  split at taken
  · obtain rfl := Option.some.inj taken
    exact stops _ (by decide)
  obtain ⟨cache, stepped, rfl⟩ := Option.map_eq_some_iff.mp taken
  have runs : s.cache.panicked = none := CacheState.runs_of_step stepped
  have none := (follows.not_committing (p := p) (by rw [inOp]; trivial)).2
  refine ⟨⟨disk, _, coherent.step stepped⟩, fun runs' i dirty => ?_, fun panics => ?_⟩
  swap
  · obtain ⟨_, _, _, no, -⟩ := CacheState.out_of_buffers coherent stepped panics
    cases no
  have nobody (q : Proc) (rest : List Command)
      (commits : (s.goto p (.inOp (absorb b logged))).task q = .committing rest) : False :=
    none q rest (goto_before (by simp) commits)
  rcases CacheState.dirty_of_step coherent stepped runs' dirty with
    ⟨before, -⟩ | ⟨c, log, uses⟩
  · have key := coherent.pinned stepped i (.inr before)
    obtain ⟨⟨dev, member⟩, -⟩ := inv.pinned runs i before
    refine ⟨⟨(congrArg Prod.fst key).trans dev, ?_⟩, fun q rest commits =>
      (nobody q rest commits).elim⟩
    rw [show (cache.buf i).blockno = _ from congrArg Prod.snd key]
    exact LogState.mem_absorb.mpr (.inr member)
  · cases log
    obtain ⟨r, saved, session, asked⟩ := holds_session holds
    rw [show s.cache.session (p, h) = _ from session] at uses
    obtain rfl : r.buf = i := Option.some.inj uses
    have matched := coherent.matched (p, h) r (by rw [session]; rfl)
    have key := coherent.pinned stepped r.buf (.inl (coherent.used (by rw [session]; rfl)))
    rw [matched.1, asked] at key
    obtain ⟨dev, blockno⟩ := Prod.mk.inj key
    refine ⟨⟨dev, ?_⟩, fun q rest commits => (nobody q rest commits).elim⟩
    rw [show (cache.buf r.buf).blockno = b from blockno]
    exact LogState.mem_absorb.mpr (.inl rfl)

/-- The block that `bget` is called for is cached, or the logged blocks and the other buffers in use
leave a buffer for it. -/
def Roomy (s : LoadState Proc) (event : LoadEvent Proc) : Prop :=
  ∀ b ∈ s.asked event, s.cache.Cached rootDev b ∨ s.cache.inUse s.lh + s.lh.length < nBuf

instance (s : LoadState Proc) (event : LoadEvent Proc) : Decidable (s.Roomy event) :=
  match asks : s.asked event with
  | none => .isTrue fun b asked => absurd (asks.symm.trans asked) (by simp)
  | some b =>
    decidable_of_iff (s.cache.Cached rootDev b ∨ s.cache.inUse s.lh + s.lh.length < nBuf) <| by
      simp [Roomy, asks]

omit [DecidableEq Proc] in
/-- Where there is room, `bget` finds the block or a buffer. -/
theorem Loaded.finds (inv : s.Loaded) (runs : s.cache.panicked = none)
    {event : LoadEvent Proc} (room : s.Roomy event) (asked : s.asked event = some b) :
    s.cache.bget rootDev b ≠ some none := by
  obtain ⟨disk, past, coherent⟩ := inv.coherent
  exact CacheState.bget_finds coherent (fun i dirty => (inv.pinned runs i dirty).1) (room b asked)

/-- Every step keeps the cache and the log in order. -/
theorem Loaded.step (inv : s.Loaded) (follows : s.Follows region) {event : LoadEvent Proc}
    (room : s.Roomy event) (taken : LoadState.step region (memide disksize) s event = some t) :
    t.Loaded := by
  unfold LoadState.step at taken
  split at taken
  · contradiction
  rename_i running
  have runs : s.cache.panicked = none := by simpa using running
  cases event with
  | fileread p =>
    simp only at taken
    split at taken
    · rename_i idle
      obtain rfl := Option.some.inj taken
      exact inv.tasks rfl rfl fun q rest commits => .inl (goto_before (by simp) commits)
    · contradiction
  | fileDone p =>
    simp only at taken
    split at taken
    · rename_i reading
      obtain ⟨-, taken⟩ := Option.ite_none_right_eq_some.mp taken
      obtain rfl := Option.some.inj taken
      exact inv.tasks rfl rfl fun q rest commits => .inl (goto_before (by simp) commits)
    · contradiction
  | beginOp p =>
    simp only at taken
    split at taken
    · rename_i idle
      obtain ⟨-, taken⟩ := Option.ite_none_left_eq_some.mp taken
      obtain rfl := Option.some.inj taken
      exact inv.tasks rfl rfl fun q rest commits => .inl (goto_before (by simp) commits)
    · contradiction
  | get p h b =>
    obtain ⟨-, taken⟩ := Option.ite_none_right_eq_some.mp taken
    refine inv.onCache taken (by simp) ?_
    rintro _ _ _ ⟨⟩
    exact inv.finds runs room rfl
  | lock | read | store | release | drop =>
    obtain ⟨-, taken⟩ := Option.ite_none_right_eq_some.mp taken
    exact inv.onCache taken (by simp) (by simp)
  | logWrite p h b =>
    simp only at taken
    split at taken
    · rename_i logged inOp
      obtain ⟨⟨holds, -⟩, taken⟩ := Option.ite_none_right_eq_some.mp taken
      exact inv.logWrite follows inOp holds taken
    · contradiction
  | endOp p =>
    obtain ⟨⟨inOp, -⟩, taken⟩ := Option.ite_none_right_eq_some.mp taken
    obtain rfl := Option.some.inj taken
    have free := (follows.not_committing inOp).1
    unfold LoadState.endOp
    simp only [free, Bool.false_eq_true, if_false]
    split
    · refine inv.tasks rfl rfl fun q rest commits => ?_
      rcases goto_committing commits with ⟨-, same⟩ | ⟨-, before⟩
      · rw [← Task.committing.inj same]
        exact .inr Command.toInstall_commit
      · exact .inl before
    · exact inv.tasks rfl rfl fun q rest commits => .inl (goto_before (by simp) commits)
  | commit p =>
    simp only at taken
    split at taken
    · rename_i command rest commits
      obtain ⟨u, ran, rfl⟩ := Option.map_eq_some_iff.mp taken
      refine inv.commit follows commits runs ran ?_
      rintro h b rfl
      exact inv.finds runs room (by rw [asked, commits])
    · contradiction
  | finish p =>
    simp only at taken
    split at taken
    · rename_i ended
      obtain rfl := Option.some.inj taken
      exact inv.tasks rfl rfl fun q rest commits => .inl (goto_before (by simp) commits)
    · contradiction

/-- The file system after boot is in order. -/
theorem booted_loaded (disk : UInt32 × UInt32 → Block) : (booted Proc disk).Loaded := by
  have fresh : CacheState.Ran (memide 0) disk [] (.booted (Proc × Hand) disk) := .nil rfl
  refine ⟨⟨disk, [], CacheState.Coherent.ran fresh⟩, fun _ i dirty => ?_, ?_⟩
  · cases dirty
  · simp [booted, CacheState.booted]

/-- Runs in which every call of `bget` has room. -/
abbrev RanRoomy (region : LogRegion) (disksize : Nat) :
    List (LoadEvent Proc) → LoadState Proc → Prop :=
  Within (fun s => ∃ disk, s = booted Proc disk) (step region (memide disksize))
    fun _ s event => s.Roomy event

/-- **The buffer cache does not run out.** In every run of processes in `fileread` and in operations
admitted by `begin_op`, with their commits, in which every call of `bget` has room, each such call
finds the block or a buffer to recycle. -/
theorem cache_never_runs_out {disksize : Nat} {past : List (LoadEvent Proc)}
    (within : RanRoomy region disksize past s) :
    s.cache.panicked ≠ some "bget: no buffers" := by
  have kept : s.Follows region ∧ s.Loaded := by
    refine within.invariant (fun _ s => s.Follows region ∧ s.Loaded) ?_ ?_
    · rintro _ ⟨disk, rfl⟩
      exact ⟨booted_follows disk, booted_loaded disk⟩
    · rintro past s t event ⟨follows, inv⟩ room taken
      exact ⟨follows.step taken, inv.step follows room taken⟩
  exact kept.2.calm

/-- A process logs a block while another reads the same block and one more, which it still has while
the first one commits. -/
def sharedBlock {Proc : Type} (p q : Proc) (h h' : Hand) : List (LoadEvent Proc) :=
  [.beginOp p, .get p h 100, .lock p h, .read p h 100 Bytes.zero, .fileread q, .get q h 100,
    .store p h 100 (fun _ => 7), .logWrite p h 100, .release p h, .drop p h, .get q h' 101,
    .endOp p] ++ List.replicate 39 (.commit p) ++ [.finish p]

/-- That run has room for each call, and ends with two buffers in use. -/
theorem cache_never_runs_out_sharedBlock :
    ∃ (past : List (LoadEvent (Fin 2))) (s : LoadState (Fin 2)),
      RanRoomy mkfsRegion 2000 past s ∧ s.cache.inUse s.lh = 2 ∧
      s.cache.panicked ≠ some "bget: no buffers" := by
  have run : (replayWithin (step mkfsRegion (memide 2000)) (fun _ s event => s.Roomy event)
      (sharedBlock 0 1 0 1) [] (booted (Fin 2) fun _ => Bytes.zero)).any
        (fun s => decide (s.cache.inUse s.lh = 2)) = true := by decide +kernel
  obtain ⟨s, ran, used⟩ : ∃ s, RanRoomy mkfsRegion 2000 (sharedBlock 0 1 0 1).reverse s ∧ _ :=
    Within.of_replay ⟨_, rfl⟩ run
  exact ⟨_, s, ran, of_decide_eq_true used, cache_never_runs_out ran⟩

/-! ## Too many readers -/

/-- Each of the first processes calls `bread` for a block of its own, one more than there are
buffers. -/
def crowd : List (LoadEvent (Fin nProc)) :=
  ((List.finRange nProc).take (nBuf + 1)).flatMap fun p =>
    [.fileread p, .get p ⟨0, Nat.zero_lt_two⟩ (.ofNat p)]

/-- 31 processes call `fileread`, each for a block of its own: the last one finds no buffer. -/
theorem cache_runs_out : ∃ (past : List (LoadEvent (Fin nProc))) (s : LoadState (Fin nProc)),
    Ran mkfsRegion (memide 2000) past s ∧ s.cache.panicked = some "bget: no buffers" := by
  have run : (replay (step mkfsRegion (memide 2000)) crowd
      (booted (Fin nProc) fun _ => Bytes.zero)).any
        (fun s => decide (s.cache.panicked = some "bget: no buffers")) = true := by decide +kernel
  obtain ⟨s, ran, panicked⟩ : ∃ s, Ran mkfsRegion (memide 2000) crowd.reverse s ∧ _ :=
    History.of_replay ⟨_, rfl⟩ run
  exact ⟨_, s, ran, of_decide_eq_true panicked⟩

end LoadState

end Xv6
