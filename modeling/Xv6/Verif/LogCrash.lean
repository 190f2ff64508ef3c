import Xv6.Kernel.Log

/-!
# Crash atomicity of the redo log

A disk is related to the contents `want` that recovery has to produce in one of two ways. It is
`Clean` when its header is empty and every block outside the log already holds `want`, and
`Committed` when its header and log area hold the wanted contents of a transaction's blocks.
Every disk write of `commit` and of `recover_from_log` moves along these two relations, so a
crash after any prefix leaves a disk that recovery, itself crashing at will, turns into `want`.
-/

namespace Xv6

open Lib Function

/-! ## The header block -/

/-- The first word of a written header is the number of its blocks. -/
theorem word_putHeader (header : Block) (block : List UInt32) :
    (putHeader header block).word 0 = UInt32.ofNat block.length := by
  rw [putHeader, Bytes.word_setWords_before _ _ _ _ (by decide),
    Bytes.word_setWord_same _ _ _ (by decide)]

/-- A header written for a list of at most `LOGSIZE` blocks holds its length. -/
theorem headerCount_putHeader (header : Block) (block : List UInt32)
    (small : block.length ≤ logSize) : headerCount (putHeader header block) = block.length := by
  have bound : block.length ≤ 30 := small
  have length : (UInt32.ofNat block.length).toNat = block.length := by
    rw [UInt32.toNat_ofNat']
    omega
  rw [headerCount, word_putHeader, loopBound, length, if_pos (by omega)]

/-- A header written for a list of at most `LOGSIZE` blocks holds its block numbers. -/
theorem headerBlock_putHeader (header : Block) (block : List UInt32)
    (small : block.length ≤ logSize) (i : Nat) (inside : i < block.length) :
    headerBlock (putHeader header block) i = block[i] := by
  have bound : block.length ≤ 30 := small
  have place : 4 * (i + 1) = 4 + 4 * i := by omega
  rw [headerBlock, putHeader, place]
  exact Bytes.word_setWords_same _ _ _ (by simp only [bSize]; omega) i inside

/-! ## The writes each loop issues -/

/-- The home writes of `install_trans` from `tail` on, for given contents of the log blocks. -/
def homeWrites (region : LogRegion) (logged : Disk) (tail : Nat) (block : List UInt32) :
    List (Nat × Block) :=
  (block.zipIdx tail).map fun entry => (entry.1.toNat, logged (region.start + entry.2 + 1))

/-- The log writes of `write_log` from `tail` on, for given cache contents. -/
def logWrites (region : LogRegion) (cached : Disk) (tail : Nat) (block : List UInt32) :
    List (Nat × Block) :=
  (block.zipIdx tail).map fun entry => (region.start + entry.2 + 1, cached entry.1.toNat)

variable {logged cached disk : Disk} {write : Nat × Block} {b : UInt32} {i : Nat}

/-- Every home write copies some log block to its own home block. -/
theorem homeWrites_mem {region : LogRegion} {block : List UInt32}
    (member : write ∈ homeWrites region logged 0 block) :
    ∃ (i : Nat) (inside : i < block.length),
      write = (block[i].toNat, logged (region.start + i + 1)) := by
  obtain ⟨⟨b, i⟩, listed, rfl⟩ := List.mem_map.mp member
  obtain ⟨inside, rfl⟩ :=
    List.getElem?_eq_some_iff.mp (List.mk_mem_zipIdx_iff_getElem?.mp listed)
  exact ⟨i, inside, rfl⟩

/-- The home writes name every block of the list. -/
theorem homeWrites_named {region : LogRegion} {block : List UInt32} (member : b ∈ block) :
    ∃ write ∈ homeWrites region logged 0 block, write.1 = b.toNat := by
  obtain ⟨i, inside, rfl⟩ := List.mem_iff_getElem.mp member
  have listed : (block[i], i) ∈ block.zipIdx :=
    List.mk_mem_zipIdx_iff_getElem?.mpr (List.getElem?_eq_getElem inside)
  exact ⟨_, List.mem_map_of_mem listed, rfl⟩

/-- Log write `i` stores the cached contents of block `i`. -/
theorem logWrites_mem {region : LogRegion} {block : List UInt32}
    (member : write ∈ logWrites region cached 0 block) :
    ∃ (i : Nat) (inside : i < block.length),
      write = (region.start + i + 1, cached block[i].toNat) := by
  obtain ⟨⟨b, i⟩, listed, rfl⟩ := List.mem_map.mp member
  obtain ⟨inside, rfl⟩ :=
    List.getElem?_eq_some_iff.mp (List.mk_mem_zipIdx_iff_getElem?.mp listed)
  exact ⟨i, inside, rfl⟩

/-- The log writes cover one log block per entry of the list. -/
theorem logWrites_named {region : LogRegion} {block : List UInt32} (inside : i < block.length) :
    ∃ write ∈ logWrites region cached 0 block, write.1 = region.start + i + 1 := by
  have listed : (block[i], i) ∈ block.zipIdx :=
    List.mk_mem_zipIdx_iff_getElem?.mpr (List.getElem?_eq_getElem inside)
  exact ⟨_, List.mem_map_of_mem listed, rfl⟩

/-- Blocks of the list lie outside the log blocks numbered from `tail` on. -/
def Apart (region : LogRegion) (tail : Nat) (block : List UInt32) : Prop :=
  ∀ b ∈ block, ∀ i, tail ≤ i → i < tail + block.length → b.toNat ≠ region.start + i + 1

namespace Machine

section

variable (region : LogRegion) (tail : Nat) (block : List UInt32) (m : Machine)
  (apart : Apart region tail block)

include apart

/-- `install_trans` issues exactly its home writes. -/
theorem installTransFrom_trace :
    (installTransFrom region tail block m).trace =
      m.trace ++ homeWrites region m.cache tail block := by
  induction block generalizing tail m with
  | nil => simp [installTransFrom, homeWrites]
  | cons b rest ih =>
    have later : Apart region (tail + 1) rest := fun c member i low high =>
      apart c (List.mem_cons_of_mem _ member) i (by omega) (by simp only [List.length_cons]; omega)
    have same : homeWrites region
        (m.bwrite b.toNat (m.bread (region.start + tail + 1))).cache (tail + 1) rest =
        homeWrites region m.cache (tail + 1) rest := by
      refine List.map_congr_left fun entry member => ?_
      obtain ⟨low, high, _⟩ := List.mem_zipIdx member
      have clear := apart b List.mem_cons_self entry.2 (by omega)
        (by simp only [List.length_cons]; omega)
      simp [bwrite, update_of_ne clear.symm]
    rw [installTransFrom, ih _ _ later, same]
    simp [bwrite, bread, homeWrites]

/-- `write_log` issues exactly its log writes. -/
theorem writeLogFrom_trace :
    (writeLogFrom region tail block m).trace = m.trace ++ logWrites region m.cache tail block := by
  induction block generalizing tail m with
  | nil => simp [writeLogFrom, logWrites]
  | cons b rest ih =>
    have later : Apart region (tail + 1) rest := fun c member i low high =>
      apart c (List.mem_cons_of_mem _ member) i (by omega) (by simp only [List.length_cons]; omega)
    have same : logWrites region
        (m.bwrite (region.start + tail + 1) (m.bread b.toNat)).cache (tail + 1) rest =
        logWrites region m.cache (tail + 1) rest := by
      refine List.map_congr_left fun entry member => ?_
      have listed : entry.1 ∈ rest := List.fst_mem_of_mem_zipIdx member
      have clear := apart entry.1 (List.mem_cons_of_mem _ listed) tail (by omega)
        (by simp only [List.length_cons]; omega)
      simp [bwrite, update_of_ne clear]
    rw [writeLogFrom, ih _ _ later, same]
    simp [bwrite, bread, logWrites]

end

/-- The trace accounts for what disk and cache hold: it is what turned `disk` and `cache` into
the present contents. -/
structure Recorded (disk cache : Disk) (m : Machine) : Prop where
  disk : m.disk = applyWrites m.trace disk
  /-- The cached contents are the old ones with the trace applied. -/
  cache : m.cache = applyWrites m.trace cache

variable {disk cache : Disk} {m : Machine}

/-- A write keeps the trace accountable. -/
theorem bwrite_recorded (recorded : m.Recorded disk cache) (b : Nat) (data : Block) :
    (m.bwrite b data).Recorded disk cache := by
  constructor
  · simp [bwrite, applyWrites_append, recorded.disk]
  · simp [bwrite, applyWrites_append, recorded.cache]

/-- Forgetting the block list writes nothing. -/
theorem clearHead_recorded (recorded : m.Recorded disk cache) :
    m.clearHead.Recorded disk cache := ⟨recorded.disk, recorded.cache⟩

section

variable (region : LogRegion) (tail : Nat) (block : List UInt32)

/-- The install loop keeps the trace accountable. -/
theorem installTransFrom_recorded (recorded : m.Recorded disk cache) :
    (installTransFrom region tail block m).Recorded disk cache := by
  induction block generalizing tail m with
  | nil => exact recorded
  | cons b rest ih => exact ih (tail + 1) (bwrite_recorded recorded _ _)

/-- The log-writing loop keeps the trace accountable. -/
theorem writeLogFrom_recorded (recorded : m.Recorded disk cache) :
    (writeLogFrom region tail block m).Recorded disk cache := by
  induction block generalizing tail m with
  | nil => exact recorded
  | cons b rest ih => exact ih (tail + 1) (bwrite_recorded recorded _ _)

/-- The loops leave the in-memory header alone. -/
theorem writeLogFrom_lh (m : Machine) : (writeLogFrom region tail block m).lh = m.lh := by
  induction block generalizing tail m with
  | nil => rfl
  | cons b rest ih => exact ih (tail + 1) _

end

/-- A complete recovery leaves the disk that all of its writes leave. -/
theorem recoverFully_eq (region : LogRegion) (disk : Disk) :
    recoverFully region disk =
      recoverPartly region disk ((boot disk).recoverFromLog region).trace.length := by
  have start : ((boot disk).readHead region).Recorded disk disk := ⟨rfl, rfl⟩
  have done : ((boot disk).recoverFromLog region).Recorded disk disk :=
    bwrite_recorded (clearHead_recorded (installTransFrom_recorded region 0 _ start)) _ _
  rw [recoverPartly, crashAfter, List.take_length]
  exact done.disk

end Machine

/-! ## What a disk owes to recovery -/

/-- The log is empty and every block outside it already holds the wanted contents. -/
structure Clean (region : LogRegion) (want disk : Disk) : Prop where
  empty : headerCount (disk region.start) = 0
  home : ∀ b, ¬region.Holds b → disk b = want b

/-- The header names `block`, the log area holds the wanted contents of these blocks, and every
other block outside the log holds its own. -/
structure Committed (region : LogRegion) (want : Disk) (block : List UInt32) (disk : Disk) :
    Prop where
  count : headerCount (disk region.start) = block.length
  named : ∀ (i : Nat) (inside : i < block.length), headerBlock (disk region.start) i = block[i]
  logged : ∀ (i : Nat) (inside : i < block.length),
    disk (region.start + i + 1) = want block[i].toNat
  /-- Blocks that are not part of the transaction are in place. -/
  home : ∀ b, ¬region.Holds b → (∀ c ∈ block, c.toNat ≠ b) → disk b = want b

/-- A transaction the log has room for. -/
structure Transaction (region : LogRegion) (block : List UInt32) : Prop where
  small : block.length ≤ logSize
  room : block.length ≤ region.size - 1
  distinct : block.Nodup
  outside : ∀ b ∈ block, ¬region.Holds b.toNat

variable {region : LogRegion} {want : Disk} {block : List UInt32}

/-- A home block is none of the log's blocks, nor its header. -/
theorem Transaction.home_ne (txn : Transaction region block) (member : b ∈ block)
    (inside : i ≤ block.length) : b.toNat ≠ region.start + i := by
  intro same
  have room := txn.room
  have some : 0 < block.length := List.length_pos_of_mem member
  exact txn.outside b member ⟨by omega, by omega⟩

/-- Home blocks lie apart from the log blocks in use. -/
theorem Transaction.apart (txn : Transaction region block) : Apart region 0 block :=
  fun _ member i _ high => txn.home_ne member (i := i + 1) (by omega)

/-- A home write keeps a committed disk committed. -/
theorem Committed.install (committed : Committed region want block disk)
    (txn : Transaction region block) (member : b ∈ block) (data : Block) :
    Committed region want block (update disk b.toNat data) := by
  have header : update disk b.toNat data region.start = disk region.start :=
    update_of_ne (txn.home_ne member (i := 0) (by omega)).symm _ _
  refine ⟨by rw [header]; exact committed.count, ?_, ?_, ?_⟩
  · intro i inside
    rw [header]
    exact committed.named i inside
  · intro i inside
    have apart : region.start + i + 1 ≠ b.toNat :=
      (txn.home_ne member (i := i + 1) (by omega)).symm
    rw [update_of_ne apart]
    exact committed.logged i inside
  · intro c outside other
    rw [update_of_ne (other b member).symm]
    exact committed.home c outside other

/-- Erasing the header of a disk that holds the wanted contents leaves it clean. -/
theorem Clean.erase (home : ∀ b, ¬region.Holds b → disk b = want b) (header : Block) :
    Clean region want (update disk region.start (putHeader header [])) := by
  refine ⟨?_, fun b outside => ?_⟩
  · rw [update_self]
    exact headerCount_putHeader header [] (by decide)
  · have room := region.header
    have apart : b ≠ region.start := fun same => outside ⟨by omega, by omega⟩
    rw [update_of_ne apart]
    exact home b outside

/-- After all home writes every block outside the log holds the wanted contents. -/
theorem Committed.installed (committed : Committed region want block disk) (b : Nat)
    (outside : ¬region.Holds b) : applyWrites (homeWrites region disk 0 block) disk b = want b := by
  by_cases listed : ∃ c ∈ block, c.toNat = b
  · obtain ⟨c, member, rfl⟩ := listed
    refine applyWrites_written _ _ _ _ (fun write written same => ?_) (homeWrites_named member)
    obtain ⟨i, inside, rfl⟩ := homeWrites_mem written
    simp only at same
    rw [committed.logged i inside, same]
  · have apart : ∀ c ∈ block, c.toNat ≠ b := fun c member same => listed ⟨c, member, same⟩
    rw [applyWrites_apart _ _ _ fun write written same => ?_]
    · exact committed.home b outside apart
    · obtain ⟨i, inside, rfl⟩ := homeWrites_mem written
      exact apart _ (List.getElem_mem inside) same

/-- Installing a committed transaction and erasing the header, cut after any number of writes:
the disk stays committed until the last write, which leaves it clean. -/
theorem Committed.install_cut (committed : Committed region want block disk)
    (txn : Transaction region block) (header : Block) (count : Nat) :
    let after := applyWrites
      ((homeWrites region disk 0 block ++ [(region.start, putHeader header [])]).take count) disk
    if count ≤ block.length then Committed region want block after
    else Clean region want after := by
  intro after
  have length : (homeWrites region disk 0 block).length = block.length := by simp [homeWrites]
  split
  · rename_i early
    have cut : after = applyWrites ((homeWrites region disk 0 block).take count) disk := by
      simp only [after]
      rw [List.take_append_of_le_length (by omega)]
    rw [cut]
    refine applyWrites_take_keeps disk _ _ (fun store write written kept => ?_) committed count
    obtain ⟨i, inside, rfl⟩ := homeWrites_mem written
    exact kept.install txn (List.getElem_mem inside) _
  · have all : (homeWrites region disk 0 block ++ [(region.start, putHeader header [])]).length ≤
        count := by
      simp only [List.length_append, length, List.length_singleton]
      omega
    have whole : after = update (applyWrites (homeWrites region disk 0 block) disk)
        region.start (putHeader header []) := by
      simp only [after]
      rw [List.take_of_length_le all, applyWrites_append]
      rfl
    rw [whole]
    exact Clean.erase committed.installed header

/-! ## Recovery -/

/-- Recovery from a clean disk only rewrites the empty header. -/
theorem Clean.recoverPartly (clean : Clean region want disk) (count : Nat) :
    Clean region want (recoverPartly region disk count) := by
  have empty : (Machine.boot disk).readHead region = Machine.boot disk := by
    simp [Machine.readHead, Machine.bread, Machine.boot, clean.empty]
  have trace : ((Machine.boot disk).recoverFromLog region).trace =
      [(region.start, putHeader (disk region.start) [])] := by
    rw [Machine.recoverFromLog, empty]
    rfl
  rw [Xv6.recoverPartly, crashAfter, trace]
  cases count with
  | zero => exact clean
  | succ count =>
    rw [List.take_succ_cons, List.take_nil]
    exact Clean.erase clean.home _

/-- Recovery from a committed disk installs its transaction and erases the header. -/
theorem Committed.recover_trace (committed : Committed region want block disk)
    (txn : Transaction region block) :
    ∃ header, ((Machine.boot disk).recoverFromLog region).trace =
      homeWrites region disk 0 block ++ [(region.start, putHeader header [])] := by
  have read : ((Machine.boot disk).readHead region).lh = block := by
    refine List.ext_getElem (by simp [Machine.readHead, Machine.bread, Machine.boot,
      committed.count]) fun i _ inside => ?_
    simpa [Machine.readHead, Machine.bread, Machine.boot] using committed.named i inside
  have installed := Machine.installTransFrom_trace region 0 block
    ((Machine.boot disk).readHead region) txn.apart
  refine ⟨(((Machine.boot disk).readHead region).installTrans region).bread region.start, ?_⟩
  have issued : (((Machine.boot disk).readHead region).installTrans region).trace =
      homeWrites region disk 0 block := by
    rw [Machine.installTrans, read, installed]
    rfl
  rw [Machine.recoverFromLog, Machine.writeHead, Machine.bwrite]
  simp only [Machine.clearHead, Machine.bread, issued]

/-- Recovery from a committed disk, cut anywhere, leaves it committed or clean. -/
theorem Committed.recoverPartly (committed : Committed region want block disk)
    (txn : Transaction region block) (count : Nat) :
    if count ≤ block.length then
      Committed region want block (recoverPartly region disk count)
    else Clean region want (recoverPartly region disk count) := by
  obtain ⟨header, trace⟩ := committed.recover_trace txn
  rw [Xv6.recoverPartly, crashAfter, trace]
  exact committed.install_cut txn header count

/-- Any number of crashing recoveries keep a disk clean or committed. -/
theorem recoveries_keep (txn : Transaction region block) (crashes : List Nat)
    (start : Clean region want disk ∨ Committed region want block disk) :
    Clean region want (crashes.foldl (recoverPartly region) disk) ∨
      Committed region want block (crashes.foldl (recoverPartly region) disk) := by
  induction crashes generalizing disk with
  | nil => exact start
  | cons count crashes ih =>
    apply ih
    rcases start with clean | committed
    · exact Or.inl (clean.recoverPartly count)
    · have kept := committed.recoverPartly txn count
      split at kept
      · exact Or.inr kept
      · exact Or.inl kept

/-- A complete recovery makes the disk clean. -/
theorem recoverFully_clean (txn : Transaction region block)
    (start : Clean region want disk ∨ Committed region want block disk) :
    Clean region want (recoverFully region disk) := by
  rw [Machine.recoverFully_eq]
  rcases start with clean | committed
  · exact clean.recoverPartly _
  · obtain ⟨header, trace⟩ := committed.recover_trace txn
    have whole := committed.recoverPartly txn
      ((Machine.boot disk).recoverFromLog region).trace.length
    rwa [if_neg (by simp [trace, homeWrites])] at whole

/-! ## Commit -/

/-- The contents of every block once the transaction in the in-memory log is on disk. -/
def Machine.committedView (m : Machine) (b : Nat) : Block :=
  if b ∈ m.lh.map UInt32.toNat then m.cache b else m.disk b

/-- The writes of `commit` up to the header write, `old` being the header block before it. -/
def openingWrites (region : LogRegion) (cached : Disk) (block : List UInt32) (old : Block) :
    List (Nat × Block) :=
  logWrites region cached 0 block ++ [(region.start, putHeader old block)]

/-- The disk writes of a non-empty `commit`: the log blocks, the header, the home blocks and
the erased header. -/
theorem Machine.commit_trace (m : Machine) (fresh : m.trace = []) (some : 0 < m.lh.length)
    (txn : Transaction region m.lh) :
    ∃ old erased, (m.commit region).trace =
      openingWrites region m.cache m.lh old ++
        (homeWrites region (applyWrites (openingWrites region m.cache m.lh old) m.cache) 0 m.lh ++
          [(region.start, putHeader erased [])]) := by
  have recorded : m.Recorded m.disk m.cache := by
    constructor <;> rw [fresh, applyWrites_nil]
  have logged : (m.writeLog region).trace = logWrites region m.cache 0 m.lh := by
    rw [Machine.writeLog, Machine.writeLogFrom_trace region 0 m.lh m txn.apart, fresh]
    rfl
  have listed : (m.writeLog region).lh = m.lh := Machine.writeLogFrom_lh region 0 m.lh m
  have kept : ((m.writeLog region).writeHead region).Recorded m.disk m.cache :=
    bwrite_recorded (writeLogFrom_recorded region 0 m.lh recorded) _ _
  have headed : ((m.writeLog region).writeHead region).trace =
      openingWrites region m.cache m.lh ((m.writeLog region).bread region.start) := by
    rw [Machine.writeHead, Machine.bwrite, listed, logged, openingWrites]
  have stillListed : ((m.writeLog region).writeHead region).lh = m.lh := listed
  have installed : (((m.writeLog region).writeHead region).installTrans region).trace =
      ((m.writeLog region).writeHead region).trace ++
        homeWrites region ((m.writeLog region).writeHead region).cache 0 m.lh := by
    rw [Machine.installTrans, stillListed]
    exact Machine.installTransFrom_trace region 0 m.lh _ txn.apart
  refine ⟨(m.writeLog region).bread region.start,
    (((m.writeLog region).writeHead region).installTrans region).bread region.start, ?_⟩
  rw [Machine.commit, if_pos some, Machine.writeHead, Machine.bwrite]
  simp only [Machine.clearHead, Machine.bread]
  rw [installed, kept.cache, headed, List.append_assoc]
  rfl

/-- The log blocks after the log and the header are written, whatever was there before. -/
theorem openingWrites_logged (cached store : Disk) (old : Block) (i : Nat)
    (inside : i < block.length) :
    applyWrites (openingWrites region cached block old) store (region.start + i + 1) =
      cached block[i].toNat := by
  rw [openingWrites, applyWrites_append, applyWrites_cons, applyWrites_nil,
    update_of_ne (by simp only; omega)]
  refine applyWrites_written _ _ _ _ (fun write written same => ?_) (logWrites_named inside)
  obtain ⟨j, below, rfl⟩ := logWrites_mem written
  simp only at same
  have equal : j = i := by omega
  subst equal
  rfl

/-- The writes up to the header write all fall inside the log region. -/
theorem openingWrites_inside (txn : Transaction region block) {old : Block}
    (written : write ∈ openingWrites region cached block old) : region.Holds write.1 := by
  have room := region.header
  have fits := txn.room
  rcases List.mem_append.mp written with written | written
  · obtain ⟨i, inside, rfl⟩ := logWrites_mem written
    exact ⟨by simp only; omega, by simp only; omega⟩
  · obtain rfl := List.mem_singleton.mp written
    exact ⟨by simp only; omega, by simp only; omega⟩

/-- Once the log and the header are written, the disk is committed to the transaction. -/
theorem Machine.logged_committed (m : Machine) (txn : Transaction region m.lh) (old : Block) :
    Committed region m.committedView m.lh
      (applyWrites (openingWrites region m.cache m.lh old) m.disk) := by
  have header : applyWrites (openingWrites region m.cache m.lh old) m.disk region.start =
      putHeader old m.lh := by
    rw [openingWrites, applyWrites_append, applyWrites_cons, applyWrites_nil,
      update_self]
  refine ⟨?_, ?_, ?_, ?_⟩
  · rw [header]
    exact headerCount_putHeader old m.lh txn.small
  · intro i inside
    rw [header]
    exact headerBlock_putHeader old m.lh txn.small i inside
  · intro i inside
    rw [openingWrites_logged _ _ _ _ inside, committedView,
      if_pos (List.mem_map_of_mem (List.getElem_mem inside))]
  · intro b outside apart
    have unlisted : b ∉ m.lh.map UInt32.toNat := fun listed =>
      let ⟨c, member, same⟩ := List.mem_map.mp listed
      apart c member same
    rw [committedView, if_neg unlisted]
    exact applyWrites_apart _ _ _ fun write written same =>
      outside (same ▸ openingWrites_inside txn written)

/-- Before the header is written, no block outside the log has changed and the header is empty. -/
theorem Machine.unlogged_clean (m : Machine) (txn : Transaction region m.lh)
    (empty : headerCount (m.disk region.start) = 0) (count : Nat) :
    Clean region m.disk (applyWrites ((logWrites region m.cache 0 m.lh).take count) m.disk) := by
  refine applyWrites_take_keeps m.disk _ _ (fun store write written kept => ?_)
    ⟨empty, fun _ _ => rfl⟩ count
  obtain ⟨i, inside, rfl⟩ := logWrites_mem written
  have fits := txn.room
  refine ⟨?_, fun b outside => ?_⟩
  · rw [update_of_ne (by simp only; omega)]
    exact kept.empty
  · have apart : b ≠ region.start + i + 1 := fun same => outside ⟨by omega, by omega⟩
    rw [update_of_ne apart]
    exact kept.home b outside

section

variable (m : Machine) (fresh : m.trace = [])

include fresh

/-- Cut before the header write, `commit` has issued log writes only. -/
theorem Machine.commit_early (some : 0 < m.lh.length)
    (txn : Transaction region m.lh) (count : Nat) (early : count ≤ m.lh.length) :
    (m.commit region).trace.take count = (logWrites region m.cache 0 m.lh).take count := by
  obtain ⟨old, erased, trace⟩ := m.commit_trace fresh some txn
  have length : (logWrites region m.cache 0 m.lh).length = m.lh.length := by simp [logWrites]
  rw [trace, openingWrites, List.append_assoc, List.take_append_of_le_length (by omega)]

/-- Cut after the header write, `commit` leaves a disk that is committed to, or already holds,
the new contents. -/
theorem Machine.commit_late (some : 0 < m.lh.length)
    (txn : Transaction region m.lh) (count : Nat) (late : m.lh.length < count) :
    (∃ write ∈ (m.commit region).trace.take count, write.1 = region.start) ∧
      (Clean region m.committedView (crashAfter count m.disk (m.commit region)) ∨
        Committed region m.committedView m.lh (crashAfter count m.disk (m.commit region))) := by
  obtain ⟨old, erased, trace⟩ := m.commit_trace fresh some txn
  have length : (openingWrites region m.cache m.lh old).length = m.lh.length + 1 := by
    simp [openingWrites, logWrites]
  have copies : homeWrites region (applyWrites (openingWrites region m.cache m.lh old) m.cache)
        0 m.lh =
      homeWrites region (applyWrites (openingWrites region m.cache m.lh old) m.disk) 0 m.lh := by
    refine List.map_congr_left fun entry member => ?_
    obtain ⟨inside, _⟩ := List.getElem?_eq_some_iff.mp (List.mem_zipIdx_iff_getElem?.mp member)
    rw [openingWrites_logged _ _ _ _ inside, openingWrites_logged _ _ _ _ inside]
  have cut : (m.commit region).trace.take count = openingWrites region m.cache m.lh old ++
      (homeWrites region (applyWrites (openingWrites region m.cache m.lh old) m.disk) 0 m.lh ++
        [(region.start, putHeader erased [])]).take (count - (m.lh.length + 1)) := by
    rw [trace, copies, List.take_append, length, List.take_of_length_le (by omega)]
  have kept := (m.logged_committed txn old).install_cut txn erased
    (count - (m.lh.length + 1))
  refine ⟨⟨(region.start, putHeader old m.lh), by rw [cut]; simp [openingWrites], rfl⟩, ?_⟩
  rw [crashAfter, cut, applyWrites_append]
  split at kept
  · exact Or.inr kept
  · exact Or.inl kept

/-- A crash before the header write of `commit` leaves the old contents on a clean disk. -/
theorem Machine.commit_unwritten (empty : headerCount (m.disk region.start) = 0)
    (txn : Transaction region m.lh) (count : Nat)
    (unwritten : ¬∃ write ∈ (m.commit region).trace.take count, write.1 = region.start) :
    Clean region m.disk (crashAfter count m.disk (m.commit region)) := by
  by_cases some : 0 < m.lh.length
  · by_cases early : count ≤ m.lh.length
    · rw [crashAfter, m.commit_early fresh some txn count early]
      exact m.unlogged_clean txn empty count
    · exact absurd (m.commit_late fresh some txn count (by omega)).1 unwritten
  · rw [crashAfter, Machine.commit, if_neg some, fresh, List.take_nil]
    exact ⟨empty, fun _ _ => rfl⟩

/-- A crash after the header write of `commit` leaves a disk that is committed to, or already
holds, the new contents. -/
theorem Machine.commit_written (txn : Transaction region m.lh) (count : Nat)
    (written : ∃ write ∈ (m.commit region).trace.take count, write.1 = region.start) :
    Clean region m.committedView (crashAfter count m.disk (m.commit region)) ∨
      Committed region m.committedView m.lh (crashAfter count m.disk (m.commit region)) := by
  by_cases some : 0 < m.lh.length
  · by_cases early : count ≤ m.lh.length
    · obtain ⟨write, listed, same⟩ := written
      rw [m.commit_early fresh some txn count early] at listed
      obtain ⟨i, inside, rfl⟩ := logWrites_mem (List.mem_of_mem_take listed)
      simp only at same
      omega
    · exact (m.commit_late fresh some txn count (by omega)).2
  · rw [Machine.commit, if_neg some, fresh] at written
    simp at written

end

/-- Recovery to the end leaves a header with `n = 0`. -/
theorem recoverFully_header (region : LogRegion) (disk : Disk) :
    (recoverFully region disk region.start).word 0 = 0 := by
  have erased : ∃ header, recoverFully region disk region.start = putHeader header [] :=
    ⟨_, update_self _ _ _⟩
  obtain ⟨header, same⟩ := erased
  rw [same]
  exact word_putHeader header []

/-- Crash atomicity. Crash anywhere in `commit`, let any number of recoveries crash anywhere, and
recover once to the end: every block outside the log holds its new contents if the first header
write reached the disk and its old contents if it did not, and the header has `n = 0` again. When
the two differ, the new contents are found exactly if that header write reached the disk. -/
theorem commit_crash_atomic (region : LogRegion) (m : Machine) (fresh : m.trace = [])
    (empty : headerCount (m.disk region.start) = 0) (txn : Transaction region m.lh)
    (count : Nat) (crashes : List Nat) :
    let final := recoverFully region
      (crashes.foldl (recoverPartly region) (crashAfter count m.disk (m.commit region)))
    let headerWritten := ∃ write ∈ (m.commit region).trace.take count, write.1 = region.start
    let allOld := ∀ b, ¬region.Holds b → final b = m.disk b
    let allNew := ∀ b, ¬region.Holds b → final b = m.committedView b
    (headerWritten → allNew) ∧ (¬headerWritten → allOld) ∧
      ((∃ b, ¬region.Holds b ∧ m.committedView b ≠ m.disk b) → (allNew ↔ headerWritten)) ∧
      (final region.start).word 0 = 0 := by
  intro final headerWritten allOld allNew
  by_cases written : headerWritten
  · have start := m.commit_written fresh txn count written
    have done := recoverFully_clean txn (recoveries_keep txn crashes start)
    exact ⟨fun _ => done.home, fun unwritten => absurd written unwritten,
      fun _ => ⟨fun _ => written, fun _ => done.home⟩, recoverFully_header region _⟩
  · have start := m.commit_unwritten fresh empty txn count written
    have done := recoverFully_clean txn (recoveries_keep txn crashes (Or.inl start))
    refine ⟨fun now => absurd now written, fun _ => done.home, fun ⟨b, outside, differ⟩ => ?_,
      recoverFully_header region _⟩
    refine ⟨fun new => absurd ?_ differ, fun now => absurd now written⟩
    rw [← new b outside]
    exact done.home b outside

/-- A transaction of two blocks in a log of thirty, on a disk of zeros. -/
def twoBlocks : Machine where
  disk := fun _ => Bytes.zero
  cache := fun b => if b = 60 ∨ b = 61 then fun _ => 7 else Bytes.zero
  lh := [60, 61]
  trace := []

/-- The transaction crashed between its two home writes, and once more in recovery. -/
theorem commit_crash_atomic_twoBlocks :
    let region : LogRegion := ⟨2, 30, by decide, by decide⟩
    let final := recoverFully region
      ([1, 0].foldl (recoverPartly region)
        (crashAfter 4 twoBlocks.disk (twoBlocks.commit region)))
    final 60 = (fun _ => 7) ∧ final 61 = (fun _ => 7) ∧ (final region.start).word 0 = 0 := by
  intro region final
  have outside : ∀ b ∈ twoBlocks.lh, ¬region.Holds b.toNat := by
    intro b member
    simp only [twoBlocks, List.mem_cons, List.not_mem_nil, or_false] at member
    rcases member with rfl | rfl
    · decide
    · decide
  have txn : Transaction region twoBlocks.lh := ⟨by decide, by decide, by decide, outside⟩
  have atomic := commit_crash_atomic region twoBlocks rfl (by decide) txn 4 [1, 0]
  have written : ∃ write ∈ (twoBlocks.commit region).trace.take 4, write.1 = region.start :=
    (twoBlocks.commit_late rfl (by decide) txn 4 (by decide)).1
  exact ⟨atomic.1 written 60 (by decide), atomic.1 written 61 (by decide), atomic.2.2.2⟩

end Xv6
