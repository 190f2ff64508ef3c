import Xv6.Kernel.FsLoad
import Xv6.Verif.GroupCommit

/-!
# The log under file system calls

`begin_op`, `log_write`, `end_op` and `commit` as processes call them over the buffer cache, against
the same functions over a disk that is read and written at once. Every step of the first is matched
by steps of the second, which keep to the same header, the same counter, the same flag and the same
place in `commit`. So what is proved of the log alone holds under file system calls.
-/

namespace Xv6

open Lib Function

/-! ## What is left of a commit -/

namespace Command

/-- The command changes the disk or the log. -/
def changes : Command → Bool
  | .bwrite _ _ | .clear => true
  | _ => false

/-- The commands that change the disk or the log. -/
def writes (rest : List Command) : List Command := rest.filter changes

/-- The `bwrite` of the header. -/
def bwriteHead (region : LogRegion) : Command :=
  .bwrite ⟨0, Nat.zero_lt_two⟩ (UInt32.ofNat region.start)

/-- The changes that `commit` is still to make from a place. -/
def ahead (region : LogRegion) (lh : List UInt32) : CommitPc → List Command
  | .start => writes (commit region lh)
  | .writeLog tail =>
    writes (writeLog region tail (lh.drop tail)) ++
      bwriteHead region :: (writes (installTrans region 0 lh) ++ [.clear, bwriteHead region])
  | .writeHead => bwriteHead region :: (writes (installTrans region 0 lh) ++
      [.clear, bwriteHead region])
  | .installTrans tail =>
    writes (installTrans region tail (lh.drop tail)) ++ [.clear, bwriteHead region]
  | .clear => [.clear, bwriteHead region]
  | .erase => [bwriteHead region]
  | .done => []

variable (region : LogRegion) (lh : List UInt32) (tail : Nat) (b : UInt32)

/-- The loop of `write_log` writes one block of the log in each round. -/
theorem writes_writeLog :
    writes (writeLog region tail (b :: lh)) =
      .bwrite 0 (UInt32.ofNat (region.start + tail + 1)) ::
        writes (writeLog region (tail + 1) lh) := rfl

/-- The loop of `install_trans` writes one block home in each round. -/
theorem writes_installTrans :
    writes (installTrans region tail (b :: lh)) =
      .bwrite 1 b :: writes (installTrans region (tail + 1) lh) := rfl

/-- The changes of a commit that has blocks to write. -/
theorem writes_commit (some : 0 < lh.length) :
    writes (commit region lh) = ahead region lh (.writeLog 0) := by
  simp only [commit, if_pos some, writes, List.filter_append, ahead, List.drop_zero,
    List.append_assoc]
  rfl

variable {region lh tail b}

/-- A commit that has no changes to make has returned. -/
theorem done_of_ahead {pc : CommitPc} (started : pc ≠ .start) (none : ahead region lh pc = []) :
    pc = .done := by
  cases pc with
  | start => exact absurd rfl started
  | done => rfl
  | writeLog | writeHead | installTrans | clear | erase => simp [ahead] at none

/-! ### The blocks to install -/

/-- The block that a command installs: `bwrite` of the second buffer. -/
def installs : Command → Option UInt32
  | .bwrite h b => if h.val = 1 then some b else none
  | _ => none

/-- The blocks that are still to be installed. -/
def toInstall (rest : List Command) : List UInt32 := rest.filterMap installs

/-- Only changes install a block. -/
theorem toInstall_writes (rest : List Command) : toInstall (writes rest) = toInstall rest := by
  induction rest with
  | nil => rfl
  | cons command rest ih =>
    cases command with
    | bwrite h b =>
      show toInstall (.bwrite h b :: writes rest) = _
      simp only [toInstall, List.filterMap_cons] at ih ⊢
      rw [ih]
    | _ => exact ih

/-- `write_log` installs nothing. -/
theorem toInstall_writeLog : toInstall (writes (writeLog region tail lh)) = [] := by
  induction lh generalizing tail with
  | nil => rfl
  | cons b rest ih =>
    rw [writes_writeLog]
    exact ih

/-- `install_trans` installs the blocks of the header. -/
theorem toInstall_installTrans : toInstall (writes (installTrans region tail lh)) = lh := by
  induction lh generalizing tail with
  | nil => rfl
  | cons b rest ih =>
    rw [writes_installTrans]
    exact congrArg (b :: ·) ih

/-- `commit` installs all logged blocks. -/
theorem toInstall_commit : toInstall (commit region lh) = lh := by
  rcases Nat.eq_zero_or_pos lh.length with none | some
  · rw [List.eq_nil_of_length_eq_zero none]
    rfl
  · rw [← toInstall_writes, writes_commit region lh some]
    have writes : toInstall (writes (writeLog region 0 lh)) = [] := toInstall_writeLog
    have installs : toInstall (Command.writes (installTrans region 0 lh)) = lh :=
      toInstall_installTrans
    simp only [toInstall, ahead, List.drop_zero, List.filterMap_append, List.filterMap_cons] at *
    rw [writes, installs]
    simp [bwriteHead, Command.installs]

/-- `commit` forgets the logged blocks when nothing is left to install. -/
theorem toInstall_of_clear {pc : CommitPc} {rest : List Command} (started : pc ≠ .start)
    (clears : ahead region lh pc = .clear :: rest) : toInstall rest = [] := by
  cases pc with
  | start => exact absurd rfl started
  | writeLog tail =>
    cases left : lh.drop tail with
    | nil =>
      rw [ahead, left] at clears
      cases clears
    | cons b more =>
      rw [ahead, left, writes_writeLog] at clears
      cases clears
  | installTrans tail =>
    cases left : lh.drop tail with
    | nil =>
      rw [ahead, left] at clears
      cases clears
      rfl
    | cons b more =>
      rw [ahead, left, writes_installTrans] at clears
      cases clears
  | clear =>
    cases clears
    rfl
  | writeHead | erase | done => cases clears

/-- `log.lh` after a command. -/
def header (lh : List UInt32) : Command → List UInt32
  | .clear => []
  | _ => lh

end Command

/-! ## Runs of the log, call by call -/

namespace LogState

variable {Proc : Type} [DecidableEq Proc] {region : LogRegion} {l : LogState Proc}
  {past : List (LogEvent Proc)} {p : Proc}

section

variable (history : Ran region past l) (runs : l.panicked = none)

include history runs

/-- A process is admitted at once. -/
theorem ran_beginOp (idle : l.phase p = .idle) (free : ¬l.MustWait) :
    ∃ past', Ran region past' ({ l with outstanding := l.outstanding + 1 }.goto p .inOp) := by
  have called : step region l (.call p) = some (l.goto p .beginning) := by
    simp [step, runs, idle]
  have entered : step region (l.goto p .beginning) (.enter p) =
      some ({ l.goto p .beginning with outstanding := l.outstanding + 1 }.goto p .inOp) := by
    simp [step, runs, show ¬(l.goto p .beginning).MustWait from free]
  have ran := (history.cons called).cons entered
  rw [goto, goto, update_idem] at ran
  exact ⟨_, ran⟩

/-- `log_write` makes its checks and records the block. -/
theorem ran_logWrite (inside : l.phase p = .inOp) (fits : ¬l.TooBig region)
    (counted : ¬l.outstanding < 1) (b : UInt32) (data : Block) :
    ∃ past', Ran region past' ({ l with machine := { l.machine with
      cache := update l.machine.cache b.toNat data
      lh := absorb b l.machine.lh } }.goto p .inOp) := by
  have checked : step region l (.check p b data) =
      some (LogState.goto { l with machine.cache := update l.machine.cache b.toNat data } p
        (.logging b)) := by
    simp [step, runs, inside, logCheck, fits, counted]
  have recorded : step region (LogState.goto
      { l with machine.cache := update l.machine.cache b.toNat data } p (.logging b))
        (.logWrite p b) = some (logRecord (LogState.goto
      { l with machine.cache := update l.machine.cache b.toNat data } p (.logging b)) p b) := by
    simp [step, runs]
  have ran := (history.cons checked).cons recorded
  rw [logRecord, goto, goto, update_idem] at ran
  exact ⟨_, ran⟩

/-- A step of `commit`. -/
theorem ran_commit {pc pc' : CommitPc} {m : Machine} (commits : l.phase p = .committing pc)
    (stepped : commitStep region l.machine pc = some (m, pc')) :
    ∃ past', Ran region past' ({ l with machine := m }.goto p (.committing pc')) := by
  by_cases first : pc = .start
  · subst first
    have taken : step region l (.commitStart p l.machine.lh) =
        some ({ l with machine := m }.goto p (.committing pc')) := by
      simp [step, runs, commits, stepped]
    exact ⟨_, history.cons taken⟩
  · have taken : step region l (.commitStep p) =
        some ({ l with machine := m }.goto p (.committing pc')) := by
      simp [step, runs, commits, stepped]
    exact ⟨_, history.cons taken⟩

section

variable (inside : l.phase p = .inOp) (free : l.committing = false)

include inside free

/-- An operation ends while others run. -/
theorem ran_endMore (more : l.outstanding - 1 ≠ 0) :
    ∃ past', Ran region past'
      ({ l with outstanding := l.outstanding - 1 }.wakeup.goto p .idle) := by
  have ended : step region l (.endOp p) =
      some ({ l with outstanding := l.outstanding - 1 }.wakeup.goto p .idle) := by
    simp [step, runs, inside, LogState.endOp, free, more]
  exact ⟨_, history.cons ended⟩

/-- The last operation ends and starts to commit, unless nothing is logged. -/
theorem ran_endLast (last : l.outstanding - 1 = 0) :
    ∃ past' pc, Ran region past'
        ({ l with outstanding := l.outstanding - 1, committing := true }.goto p (.committing pc)) ∧
      pc ≠ .start ∧
      Command.writes (Command.commit region l.machine.lh) =
        Command.ahead region l.machine.lh pc := by
  have ended : step region l (.endOp p) =
      some ({ l with outstanding := l.outstanding - 1, committing := true }.goto p
        (.committing .start)) := by
    simp [step, runs, inside, LogState.endOp, free, last]
  rcases Nat.eq_zero_or_pos l.machine.lh.length with none | some
  · obtain ⟨_, begun⟩ := ran_commit (p := p) (history.cons ended) runs (update_self ..)
      (show commitStep region l.machine .start = some (l.machine, .done) by
        simp [LogState.commitStep, none])
    rw [goto, goto, update_idem] at begun
    refine ⟨_, _, begun, by simp, ?_⟩
    rw [List.eq_nil_of_length_eq_zero none]
    rfl
  · obtain ⟨_, begun⟩ := ran_commit (p := p) (history.cons ended) runs (update_self ..)
      (show commitStep region l.machine .start = .some (l.machine, .writeLog 0) by
        simp [LogState.commitStep, some])
    rw [goto, goto, update_idem] at begun
    exact ⟨_, _, begun, by simp, Command.writes_commit region _ some⟩

end

/-- Two steps of `commit`. -/
theorem ran_commit_twice {pc pc' pc'' : CommitPc} {m m' : Machine}
    (commits : l.phase p = .committing pc) (first : commitStep region l.machine pc = some (m, pc'))
    (second : commitStep region m pc' = some (m', pc'')) :
    ∃ past', Ran region past' ({ l with machine := m' }.goto p (.committing pc'')) := by
  obtain ⟨_, once⟩ := ran_commit history runs commits first
  obtain ⟨_, twice⟩ := ran_commit (p := p) once runs (update_self ..) second
  rw [goto, goto, update_idem] at twice
  exact ⟨_, twice⟩

/-- `commit` makes its next change. -/
theorem ran_change {pc : CommitPc} {command : Command} {rest : List Command}
    (commits : l.phase p = .committing pc) (started : pc ≠ .start)
    (left : Command.ahead region l.machine.lh pc = command :: rest) :
    ∃ past' m pc', Ran region past' ({ l with machine := m }.goto p (.committing pc')) ∧
      pc' ≠ .start ∧ Command.ahead region m.lh pc' = rest ∧
      m.lh = command.header l.machine.lh := by
  have lasts {i : Nat} (past : l.machine.lh.drop i = []) : l.machine.lh[i]? = none :=
    List.getElem?_eq_none (List.drop_eq_nil_iff.mp past)
  have goes {i : Nat} {b : UInt32} {more : List UInt32} (next : l.machine.lh.drop i = b :: more) :
      l.machine.lh[i]? = some b ∧ l.machine.lh.drop (i + 1) = more := by
    rw [← List.head?_drop, ← List.tail_drop, next]
    exact ⟨rfl, rfl⟩
  cases pc with
  | start => exact absurd rfl started
  | writeLog tail =>
    cases next : l.machine.lh.drop tail with
    | nil =>
      -- The loop is done, so the next change is the one of `write_head`.
      rw [Command.ahead, next] at left
      cases left
      obtain ⟨_, ran⟩ := ran_commit_twice history runs commits
        (by rw [commitStep, lasts next]) rfl
      exact ⟨_, _, _, ran, by simp, rfl, rfl⟩
    | cons b more =>
      rw [Command.ahead, next, Command.writes_writeLog] at left
      cases left
      obtain ⟨_, ran⟩ := ran_commit history runs commits (by rw [commitStep, (goes next).1])
      refine ⟨_, _, _, ran, by simp, ?_, rfl⟩
      show Command.writes (Command.writeLog region _ (l.machine.lh.drop (tail + 1))) ++ _ = _
      rw [(goes next).2]
      rfl
  | writeHead =>
    cases left
    obtain ⟨_, ran⟩ := ran_commit history runs commits rfl
    exact ⟨_, _, _, ran, by simp, rfl, rfl⟩
  | installTrans tail =>
    cases next : l.machine.lh.drop tail with
    | nil =>
      rw [Command.ahead, next] at left
      cases left
      obtain ⟨_, ran⟩ := ran_commit_twice history runs commits
        (by rw [commitStep, lasts next]) rfl
      exact ⟨_, _, _, ran, by simp, rfl, rfl⟩
    | cons b more =>
      rw [Command.ahead, next, Command.writes_installTrans] at left
      cases left
      obtain ⟨_, ran⟩ := ran_commit history runs commits (by rw [commitStep, (goes next).1])
      refine ⟨_, _, _, ran, by simp, ?_, rfl⟩
      show Command.writes (Command.installTrans region _ (l.machine.lh.drop (tail + 1))) ++ _ = _
      rw [(goes next).2]
      rfl
  | clear =>
    cases left
    obtain ⟨_, ran⟩ := ran_commit history runs commits rfl
    exact ⟨_, _, _, ran, by simp, rfl, rfl⟩
  | erase =>
    cases left
    obtain ⟨_, ran⟩ := ran_commit history runs commits rfl
    exact ⟨_, _, _, ran, by simp, rfl, rfl⟩
  | done => cases left

end

end LogState

/-! ## The log beside -/

/-- Where a process is in the log. -/
def Task.At (region : LogRegion) (lh : List UInt32) : Task → Phase → Prop
  | .idle, phase | .reading, phase => phase = .idle
  | .inOp _, phase => phase = .inOp
  | .committing rest, phase => ∃ pc, phase = .committing pc ∧ pc ≠ .start ∧
      Command.writes rest = Command.ahead region lh pc

/-- Only a commit depends on the header. -/
theorem Task.At.header {region : LogRegion} {lh lh' : List UInt32} {task : Task} {phase : Phase}
    (place : task.At region lh phase) (out : ∀ pc, phase ≠ .committing pc) :
    task.At region lh' phase := by
  cases task with
  | idle | reading | inOp => exact place
  | committing rest =>
    obtain ⟨pc, commits, -⟩ := place
    exact absurd commits (out pc)

namespace LoadState

variable {Proc : Type} [DecidableEq Proc] {region : LogRegion} {driver : Driver}
  {s t : LoadState Proc} {l : LogState Proc} {past : List (LogEvent Proc)} {p : Proc}
  {phase : Phase}

/-- The log alone is where the calls have brought it. -/
structure Beside (region : LogRegion) (s : LoadState Proc) (l : LogState Proc) : Prop where
  lh : l.machine.lh = s.lh
  outstanding : l.outstanding = s.outstanding
  committing : l.committing = s.committing
  tasks : ∀ p, (s.task p).At region s.lh (l.phase p)
  panics : ∀ message, l.panicked = some message → s.cache.panicked = some message

/-- The log of some run of the log alone is beside the calls. -/
def Follows (region : LogRegion) (s : LoadState Proc) : Prop :=
  ∃ past l, LogState.Ran region past l ∧ s.Beside region l

/-- What a command does to the log. -/
theorem run_eq {command : Command} (ran : s.run driver p command = some t) :
    ∃ cache, t = { s with cache := cache, lh := command.header s.lh } := by
  cases command with
  | clear => exact ⟨s.cache, (Option.some.inj ran).symm⟩
  | bwrite h b =>
    obtain ⟨-, taken⟩ := Option.ite_none_right_eq_some.mp ran
    obtain ⟨cache, -, same⟩ := Option.map_eq_some_iff.mp taken
    exact ⟨cache, same.symm⟩
  | get | lock | read | copy | head | release | drop =>
    obtain ⟨cache, -, same⟩ := Option.map_eq_some_iff.mp ran
    exact ⟨cache, same.symm⟩

namespace Beside

omit [DecidableEq Proc] in
/-- The log runs as long as the machine does. -/
theorem runs (beside : s.Beside region l) (runs : s.cache.panicked = none) : l.panicked = none := by
  cases stopped : l.panicked with
  | none => rfl
  | some message =>
    rw [beside.panics message stopped] at runs
    cases runs

/-- A process moves in both. -/
theorem goto (beside : s.Beside region l) (p : Proc) (task : Task)
    (place : task.At region s.lh phase) :
    (s.goto p task).Beside region (l.goto p phase) := by
  refine ⟨beside.lh, beside.outstanding, beside.committing, fun q => ?_, beside.panics⟩
  show (update s.task p task q).At region s.lh (update l.phase p phase q)
  by_cases here : q = p
  · rw [here, update_self, update_self]
    exact place
  · rw [update_of_ne here, update_of_ne here]
    exact beside.tasks q

/-- A process moves without the log. -/
theorem stay (beside : s.Beside region l) (task : Task)
    (place : task.At region s.lh (l.phase p)) :
    (s.goto p task).Beside region l := by
  have moved := beside.goto p task place
  rwa [LogState.goto, update_eq_self] at moved

omit [DecidableEq Proc] in
/-- The cache moves without the log. -/
theorem cache (beside : s.Beside region l) (runs : s.cache.panicked = none)
    (cache : CacheState (Proc × Hand)) :
    ({ s with cache := cache } : LoadState Proc).Beside region l := by
  refine ⟨beside.lh, beside.outstanding, beside.committing, beside.tasks, fun message stopped => ?_⟩
  rw [beside.runs runs] at stopped
  cases stopped

omit [DecidableEq Proc] in
/-- Nobody sleeps in `begin_op`. -/
theorem wakeup (beside : s.Beside region l) : l.wakeup = l := by
  have awake (p : Proc) : (l.phase p).wakeup = l.phase p := by
    have place := beside.tasks p
    cases task : s.task p with
    | idle | reading | inOp =>
      rw [task] at place
      rw [show l.phase p = _ from place]
      rfl
    | committing rest =>
      rw [task] at place
      obtain ⟨pc, commits, -⟩ := place
      rw [commits]
      rfl
  rw [LogState.wakeup, funext awake]

variable (beside : s.Beside region l) (history : LogState.Ran region past l)
  (runs : s.cache.panicked = none)

include beside history runs

/-- `begin_op` lets the process in. -/
theorem beginOp (idle : s.task p = .idle)
    (admits : ¬(s.committing = true ∨
      (s.lh.length : Int) + (s.outstanding + 1) * maxOpBlocks > logSize)) :
    ({ s with outstanding := s.outstanding + 1 }.goto p (.inOp [])).Follows region := by
  have outside : l.phase p = .idle := by
    have place := beside.tasks p
    rwa [idle] at place
  have free : ¬l.MustWait := by
    rw [← beside.committing, ← beside.lh, ← beside.outstanding] at admits
    exact admits
  obtain ⟨_, entered⟩ := LogState.ran_beginOp history (beside.runs runs) outside free
  have counted : ({ s with outstanding := s.outstanding + 1 } : LoadState Proc).Beside region
      { l with outstanding := l.outstanding + 1 } :=
    ⟨beside.lh, congrArg (· + 1) beside.outstanding, beside.committing, beside.tasks,
      beside.panics⟩
  exact ⟨_, _, entered, counted.goto p _ rfl⟩

variable [Fintype Proc]

/-- `log_write` records the block in both headers, or stops both. -/
theorem logWrite {h : Hand} {b : UInt32} {logged : List UInt32} (inOp : s.task p = .inOp logged)
    (taken : s.logWrite region driver p h b logged = some t) : t.Follows region := by
  have calm := beside.runs runs
  have inside : l.phase p = .inOp := by
    have place := beside.tasks p
    rwa [inOp] at place
  have fullness : l.TooBig region ↔
      (s.lh.length : Int) ≥ logSize ∨ (s.lh.length : Int) ≥ (region.size : Int) - 1 := by
    rw [← beside.lh]
    exact Iff.rfl
  unfold LoadState.logWrite at taken
  split at taken
  · rename_i full
    have full := fullness.mpr full
    obtain rfl := Option.some.inj taken
    have stopped : LogState.step region l (.check p b Bytes.zero) =
        some (l.panic "too big a transaction") := by
      simp [LogState.step, calm, inside, LogState.logCheck, full]
    exact ⟨_, _, history.cons stopped, beside.lh, beside.outstanding, beside.committing,
      beside.tasks, fun _ same => same⟩
  rename_i fits
  have fits := mt fullness.mp fits
  split at taken
  · rename_i none
    rw [← beside.outstanding] at none
    obtain rfl := Option.some.inj taken
    have stopped : LogState.step region l (.check p b Bytes.zero) =
        some (l.panic "log_write outside of trans") := by
      simp [LogState.step, calm, inside, LogState.logCheck, fits, none]
    exact ⟨_, _, history.cons stopped, beside.lh, beside.outstanding, beside.committing,
      beside.tasks, fun _ same => same⟩
  · rename_i counted
    rw [← beside.outstanding] at counted
    obtain ⟨cache, -, rfl⟩ := Option.map_eq_some_iff.mp taken
    obtain ⟨_, recorded⟩ := LogState.ran_logWrite history calm inside fits counted b
      (s.data driver (p, h))
    have quiet := (LogState.Handshake.ran history).no_committer (p := p) (by rw [inside]; trivial)
    have absorbed : ({ s with lh := absorb b s.lh } : LoadState Proc).Beside region
        { l with machine.lh := absorb b l.machine.lh } :=
      ⟨congrArg (absorb b) beside.lh, beside.outstanding, beside.committing,
        fun q => (beside.tasks q).header (quiet q), beside.panics⟩
    have moved := absorbed.goto p (.inOp (absorb b logged)) rfl
    have stored := moved.cache runs cache
    exact ⟨_, _, recorded, stored.lh, stored.outstanding, stored.committing, stored.tasks,
      stored.panics⟩

/-- The first critical section of `end_op`, and the start of `commit`. -/
theorem endOp (inOp : (s.task p).InOp) : (s.endOp region p).Follows region := by
  have calm := beside.runs runs
  have inside : l.phase p = .inOp := by
    have place := beside.tasks p
    cases task : s.task p with
    | inOp => rwa [task] at place
    | idle | reading | committing =>
      rw [task] at inOp
      exact inOp.elim
  have shake := LogState.Handshake.ran history
  have quiet := shake.no_committer (p := p) (by rw [inside]; trivial)
  have free : s.committing = false := by
    rw [← beside.committing]
    exact shake.not_committing (p := p) (by rw [inside]; trivial)
  have fewer : ({ s with outstanding := s.outstanding - 1 } : LoadState Proc).Beside region
      { l with outstanding := l.outstanding - 1 } :=
    ⟨beside.lh, congrArg (· - 1) beside.outstanding, beside.committing, beside.tasks,
      beside.panics⟩
  unfold LoadState.endOp
  simp only [free, Bool.false_eq_true, if_false]
  split
  · rename_i last
    obtain ⟨_, pc, begun, started, left⟩ :=
      LogState.ran_endLast history calm inside (by rw [beside.committing, free])
        (by rw [beside.outstanding, last])
    have raised : ({ s with outstanding := s.outstanding - 1, committing := true } :
        LoadState Proc).Beside region
          { l with outstanding := l.outstanding - 1, committing := true } :=
      ⟨beside.lh, fewer.outstanding, rfl, beside.tasks, beside.panics⟩
    rw [beside.lh] at left
    exact ⟨_, _, begun, raised.goto p _ ⟨pc, rfl, started, left⟩⟩
  · rename_i more
    obtain ⟨_, ended⟩ := LogState.ran_endMore history calm inside (by rw [beside.committing, free])
      (by rw [beside.outstanding]; exact more)
    rw [fewer.wakeup] at ended
    have moved := fewer.goto p .idle rfl
    rw [free] at moved
    exact ⟨_, _, ended, moved⟩

/-- A command of `commit`: a change of the disk or the log is made by both. -/
theorem commit {command : Command} {rest : List Command}
    (commits : s.task p = .committing (command :: rest)) (ran : s.run driver p command = some t) :
    (t.goto p (.committing rest)).Follows region := by
  have place := beside.tasks p
  rw [commits] at place
  obtain ⟨pc, stands, started, left⟩ := place
  obtain ⟨cache, rfl⟩ := run_eq ran
  cases changes : command.changes with
  | false =>
    have kept : command.header s.lh = s.lh := by cases command <;> first | rfl | cases changes
    rw [kept]
    refine ⟨_, _, history, (beside.cache runs cache).stay _ ⟨pc, stands, started, ?_⟩⟩
    rwa [Command.writes, List.filter_cons_of_neg (by simp [changes])] at left
  | true =>
    rw [Command.writes, List.filter_cons_of_pos changes, ← beside.lh] at left
    obtain ⟨_, m, pc', changed, started', left', lh⟩ :=
      LogState.ran_change history (beside.runs runs) stands started left.symm
    rw [beside.lh] at lh
    refine ⟨_, _, changed, lh, beside.outstanding, beside.committing, fun q => ?_,
      fun _ stopped => ?_⟩
    · show (update s.task p _ q).At region _ (update l.phase p _ q)
      by_cases here : q = p
      · rw [here, update_self, update_self]
        rw [lh] at left'
        exact ⟨pc', rfl, started', left'.symm⟩
      · rw [update_of_ne here, update_of_ne here]
        refine (beside.tasks q).header fun pc commits' => here ?_
        exact (LogState.Handshake.ran history).alone q p pc _ commits' stands
    · exact absurd (beside.runs runs) (by rw [show l.panicked = _ from stopped]; simp)

omit [Fintype Proc] in
/-- The second critical section of `end_op`. -/
theorem finish (commits : s.task p = .committing []) :
    ({ s with committing := false }.goto p .idle).Follows region := by
  have place := beside.tasks p
  rw [commits] at place
  obtain ⟨pc, stands, started, left⟩ := place
  obtain rfl := Command.done_of_ahead started left.symm
  have lowered : ({ s with committing := false } : LoadState Proc).Beside region
      { l with committing := false } :=
    ⟨beside.lh, beside.outstanding, rfl, beside.tasks, beside.panics⟩
  have finished : LogState.step region l (.finish p) =
      some ({ l with committing := false }.wakeup.goto p .idle) := by
    simp [LogState.step, beside.runs runs, stands]
  rw [lowered.wakeup] at finished
  exact ⟨_, _, history.cons finished, lowered.goto p .idle rfl⟩

end Beside

variable [Fintype Proc]

/-- Every step is matched by steps of the log alone. -/
theorem Follows.step (follows : s.Follows region) {event : LoadEvent Proc}
    (taken : LoadState.step region driver s event = some t) : t.Follows region := by
  obtain ⟨past, l, history, beside⟩ := follows
  unfold LoadState.step at taken
  split at taken
  · contradiction
  rename_i running
  have runs : s.cache.panicked = none := by simpa using running
  have onCache {event : CacheEvent (Proc × Hand)} (taken : s.onCache driver event = some t) :
      t.Follows region := by
    obtain ⟨cache, -, rfl⟩ := Option.map_eq_some_iff.mp taken
    exact ⟨past, l, history, beside.cache runs cache⟩
  cases event with
  | get | lock | read | store | release | drop =>
    exact onCache (Option.ite_none_right_eq_some.mp taken).2
  | fileread p =>
    simp only at taken
    split at taken
    · rename_i idle
      obtain rfl := Option.some.inj taken
      have place := beside.tasks p
      rw [idle] at place
      exact ⟨past, l, history, beside.stay .reading place⟩
    · contradiction
  | fileDone p =>
    simp only at taken
    split at taken
    · rename_i reading
      obtain ⟨-, same⟩ := Option.ite_none_right_eq_some.mp taken
      obtain rfl := Option.some.inj same
      have place := beside.tasks p
      rw [reading] at place
      exact ⟨past, l, history, beside.stay .idle place⟩
    · contradiction
  | beginOp p =>
    simp only at taken
    split at taken
    · rename_i idle
      obtain ⟨admits, same⟩ := Option.ite_none_left_eq_some.mp taken
      obtain rfl := Option.some.inj same
      exact beside.beginOp history runs idle admits
    · contradiction
  | logWrite p h b =>
    simp only at taken
    split at taken
    · rename_i logged inOp
      exact beside.logWrite history runs inOp (Option.ite_none_right_eq_some.mp taken).2
    · contradiction
  | endOp p =>
    obtain ⟨⟨inOp, -⟩, same⟩ := Option.ite_none_right_eq_some.mp taken
    obtain rfl := Option.some.inj same
    exact beside.endOp history runs inOp
  | commit p =>
    simp only at taken
    split at taken
    · rename_i command rest commits
      obtain ⟨u, ran, rfl⟩ := Option.map_eq_some_iff.mp taken
      exact beside.commit history runs commits ran
    · contradiction
  | finish p =>
    simp only at taken
    split at taken
    · rename_i commits
      obtain rfl := Option.some.inj taken
      exact beside.finish history runs commits
    · contradiction

omit [Fintype Proc] in
/-- After boot the log is empty. -/
theorem booted_follows (disk : UInt32 × UInt32 → Block) : (booted Proc disk).Follows region :=
  ⟨[], LogState.booted Proc, .nil LogState.booted_initial, rfl, rfl, rfl, fun _ => rfl,
    fun _ stopped => by cases stopped⟩

/-- Every run of file system calls has a run of the log alone beside it. -/
theorem follows_ran {past : List (LoadEvent Proc)} (ran : Ran region driver past s) :
    s.Follows region := by
  refine ran.invariant (fun _ s => s.Follows region) ?_ ?_
  · rintro _ ⟨disk, rfl⟩
    exact booted_follows disk
  · exact fun _ _ _ _ _ follows taken => follows.step taken

/-! ## What the log knows -/

namespace Follows

variable {rest rest' : List Command} {q : Proc}

/-- While a process is in an operation, the log is not committing and no process commits. -/
theorem not_committing (follows : s.Follows region) (inOp : (s.task p).InOp) :
    s.committing = false ∧ ∀ q rest, s.task q ≠ .committing rest := by
  obtain ⟨past, l, history, beside⟩ := follows
  have inside : (l.phase p).InOp := by
    have place := beside.tasks p
    cases task : s.task p with
    | inOp =>
      rw [task] at place
      rw [show l.phase p = _ from place]
      trivial
    | idle | reading | committing =>
      rw [task] at inOp
      exact inOp.elim
  have shake := LogState.Handshake.ran history
  refine ⟨by rw [← beside.committing]; exact shake.not_committing inside, fun q rest commits => ?_⟩
  have place := beside.tasks q
  rw [commits] at place
  obtain ⟨pc, stands, -⟩ := place
  exact shake.no_committer inside q pc stands

/-- One process commits at a time. -/
theorem alone (follows : s.Follows region) (first : s.task p = .committing rest)
    (second : s.task q = .committing rest') : p = q := by
  obtain ⟨past, l, history, beside⟩ := follows
  have here := beside.tasks p
  have there := beside.tasks q
  rw [first] at here
  rw [second] at there
  obtain ⟨pc, here, -⟩ := here
  obtain ⟨pc', there, -⟩ := there
  exact (LogState.Handshake.ran history).alone p q pc pc' here there

omit [Fintype Proc] in
/-- The header is cleared when nothing is left to install. -/
theorem installed (follows : s.Follows region)
    (commits : s.task p = .committing (.clear :: rest)) : Command.toInstall rest = [] := by
  obtain ⟨past, l, -, beside⟩ := follows
  have place := beside.tasks p
  rw [commits] at place
  obtain ⟨pc, -, started, left⟩ := place
  rw [← Command.toInstall_writes]
  exact Command.toInstall_of_clear started left.symm

end Follows

end LoadState

end Xv6
