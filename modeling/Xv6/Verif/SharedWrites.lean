import Xv6.Verif.FileCalls

/-!
# Several writes to one open file

Each round of a write takes the offset and moves it behind its piece with the inode locked. So the
pieces of several writes to one open file lie one after another in the order of their rounds,
whatever that order is.
-/

namespace Xv6

open Lib Function

variable {ι : Type} [DecidableEq ι] {s t : Sys} {f : Fin nFile} {inum : Nat} {file : File}
  {dev : Devsw} {data : ι → List UInt8} {past : List ι} {w w' : Writers ι} {p : ι}

/-! ## Pieces -/

/-- Before the first round nothing is written. -/
theorem region_nil : region data [] = [] := rfl

/-- A round adds a piece behind the others. -/
theorem region_cons :
    region data (p :: past) = region data past ++ piece (data p) (past.count p) := by
  rw [region, pieces, List.flatMap_append, List.flatMap_singleton]
  rfl

/-- The pieces together. -/
theorem length_region :
    (region data past).length = ((pieces data past).map fun x => x.2.length).sum :=
  List.length_flatMap

/-- The pieces of a write are its first ones, in order and each of them once. -/
theorem piecesOf_eq (data : ι → List UInt8) (past : List ι) (p : ι) :
    piecesOf data past p = (List.range (past.count p)).map (piece (data p)) := by
  induction past with
  | nil => rfl
  | cons q past ih =>
    rw [piecesOf, pieces, List.filter_append, List.map_append]
    rw [piecesOf] at ih
    rw [ih]
    by_cases here : q = p
    · subst here
      rw [List.count_cons_self, List.range_succ, List.map_append]
      simp
    · rw [List.count_cons_of_ne here]
      simp [here]

/-- The first pieces of data are its beginning. -/
theorem flatten_pieces (data : List UInt8) (k : Nat) :
    ((List.range k).map (piece data)).flatten = data.take (filewriteMax * k) := by
  induction k with
  | zero => rfl
  | succ k ih =>
    rw [List.range_succ, List.map_append, List.flatten_append, ih, Nat.mul_succ, List.take_add]
    simp [piece]

/-! ## Rounds -/

/-- What some rounds of the writes have written. -/
structure Writers.Wrote (data : ι → List UInt8) (f : Fin nFile) (inum : Nat) (file : File) (s : Sys)
    (done : List ι) (w : Writers ι) : Prop where
  /-- The file has the pieces from the first offset on, and the offset is behind them. -/
  advances : Sys.Advances f inum
    (file.withBytes (overwrite file.bytes (s.ftable f).off.toNat (region data done)))
    ((s.ftable f).off + UInt32.ofNat (region data done).length) s w.sys
  short : done ≠ [] → (s.ftable f).off.toNat + (region data done).length ≤ maxFile * bSize
  sized : ∀ x ∈ pieces data done, x.2 ≠ [] ∧ x.2.length ≤ filewriteMax
  written : ∀ q, w.written q = min (data q).length (filewriteMax * done.count q)

/-- The offset of the file is behind them. -/
theorem Writers.Wrote.offset (wrote : w.Wrote data f inum file s past) :
    (w.sys.ftable f).off.toNat = (s.ftable f).off.toNat + (region data past).length := by
  rw [wrote.advances.ftable, update_self]
  cases past with
  | nil => exact congrArg UInt32.toNat (UInt32.add_zero _)
  | cons p past => exact toNat_add_offset (wrote.short (List.cons_ne_nil p past))

/-- Before the first round. -/
theorem Writers.Wrote.nil (opened : s.Opened f inum file) (broken : ι → Bool) :
    Writers.Wrote data f inum file s [] ⟨s, fun _ => 0, broken⟩ where
  advances := by
    have stays := Sys.Advances.refl opened
    rw [← UInt32.add_zero (s.ftable f).off] at stays
    rw [region_nil, overwrite_nil]
    exact stays
  short := fun nonempty => absurd rfl nonempty
  sized := fun x member => absurd member List.not_mem_nil
  written := fun q => (Nat.min_eq_right (Nat.zero_le _)).symm

/-- A step is a round of a write that is not over. -/
theorem Writers.step_cases (taken : w.step dev f data p = some w') :
    w.written p < (data p).length ∧ ∃ r, filewriteRound dev f (data p) (w.written p) w.sys =
      .ok (r, w'.sys) ∧ w'.written = if r = true then update w.written p
        (w.written p + min ((data p).length - w.written p) filewriteMax) else w.written := by
  unfold Writers.step at taken
  split at taken
  · rename_i opened
    refine ⟨opened.2, ?_⟩
    split at taken
    · rename_i sys ends
      obtain rfl := Option.some.inj taken
      exact ⟨true, ends, rfl⟩
    · rename_i sys ends
      obtain rfl := Option.some.inj taken
      exact ⟨false, ends, rfl⟩
    · cases taken
  · cases taken

/-- A round writes the next piece of its write behind the pieces before. -/
theorem Writers.Wrote.step (wrote : w.Wrote data f inum file s past)
    (inside : (s.ftable f).off.toNat ≤ file.bytes.length) (fits : w.Fits f data p)
    (taken : w.step dev f data p = some w') : w'.Wrote data f inum file s (p :: past) := by
  obtain ⟨more, r, ends, written⟩ := Writers.step_cases taken
  obtain ⟨n1, amount⟩ : ∃ n1, n1 = min ((data p).length - w.written p) filewriteMax := ⟨_, rfl⟩
  unfold Writers.Fits at fits
  rw [← amount] at fits written
  have limit : filewriteMax = 1536 := rfl
  have place : w.written p = filewriteMax * past.count p := by
    have := wrote.written p
    omega
  have part : ((data p).drop (w.written p)).take filewriteMax = piece (data p) (past.count p) := by
    rw [place]
    rfl
  have length : (piece (data p) (past.count p)).length = n1 := by
    rw [← part, List.length_take, List.length_drop, amount, Nat.min_comm]
  have accepts : w.sys.Accepts f
      (file.withBytes (overwrite file.bytes (s.ftable f).off.toNat (region data past))) n1 := by
    refine ⟨?_, fits⟩
    rw [wrote.offset]
    exact (Nat.le_max_right ..).trans_eq (length_overwrite inside).symm
  have wp : Wp (fun _ => True) (filewriteRound dev f (data p) (w.written p)) _ w.sys :=
    filewriteRound_spec wrote.advances.opened more fun total => absurd trivial total
  rcases wp.ok ends with ⟨-, rfl, advances⟩ | ⟨refused, -⟩
  · rw [if_pos rfl] at written
    rw [← amount, part] at advances
    have bytes : overwrite (overwrite file.bytes (s.ftable f).off.toNat (region data past))
        (w.sys.ftable f).off.toNat (piece (data p) (past.count p)) =
        overwrite file.bytes (s.ftable f).off.toNat (region data (p :: past)) := by
      rw [wrote.offset, overwrite_append inside, region_cons]
    have total : (region data (p :: past)).length = (region data past).length + n1 := by
      rw [region_cons, List.length_append, length]
    have off : (w.sys.ftable f).off + UInt32.ofNat n1 =
        (s.ftable f).off + UInt32.ofNat (region data (p :: past)).length := by
      rw [wrote.advances.ftable, update_self, total, UInt32.add_assoc, ← UInt32.ofNat_add]
    constructor
    case advances =>
      refine wrote.advances.trans (off ▸ bytes ▸ advances) ?_
      show (overwrite _ _ _).length ≤ (overwrite _ _ _).length
      rw [length_overwrite inside, length_overwrite inside, total]
      omega
    case short =>
      intro _
      rw [total, ← Nat.add_assoc, ← wrote.offset]
      exact fits
    case sized =>
      intro x member
      rw [pieces, List.mem_append, List.mem_singleton] at member
      rcases member with before | rfl
      · exact wrote.sized x before
      · refine ⟨List.ne_nil_of_length_pos ?_, ?_⟩ <;> rw [length] <;> omega
    case written =>
      intro q
      rw [written]
      by_cases here : q = p
      · subst here
        rw [update_self, List.count_cons_self, Nat.mul_succ, ← place, amount]
        omega
      · rw [update_of_ne here, List.count_cons_of_ne (Ne.symm here)]
        exact wrote.written q
  · exact absurd (amount ▸ accepts) refused

/-- A round of a write to an open file whose offset is beyond the end is refused. -/
theorem Writers.Wrote.refused (wrote : w.Wrote data f inum file s [])
    (outside : ¬(s.ftable f).off.toNat ≤ file.bytes.length)
    (taken : w.step dev f data p = some w') : w'.Wrote data f inum file s [] := by
  obtain ⟨more, r, ends, written⟩ := Writers.step_cases taken
  have offset := wrote.offset
  have advances := wrote.advances
  rw [region_nil, List.length_nil, Nat.add_zero] at offset
  rw [region_nil, overwrite_nil] at advances
  have wp : Wp (fun _ => True) (filewriteRound dev f (data p) (w.written p)) _ w.sys :=
    filewriteRound_spec advances.opened more fun total => absurd trivial total
  rcases wp.ok ends with ⟨accepts, -⟩ | ⟨-, rfl, stays⟩
  · exact absurd (offset.ge.trans accepts.1) outside
  refine ⟨?_, wrote.short, wrote.sized, fun q => ?_⟩
  · rw [region_nil, overwrite_nil]
    have off : (w.sys.ftable f).off = (s.ftable f).off + UInt32.ofNat 0 := by
      rw [advances.ftable, update_self]
      rfl
    exact advances.trans (off ▸ stays) (Nat.le_refl _)
  · rw [written]
    exact wrote.written q

/-! ## Runs -/

/-- After any rounds of any writes to an open file, as long as the file does not become too long,
the file has the pieces of all of them one after another from the first offset on, and the offset is
behind them. -/
theorem writers_lose_nothing (opened : s.Opened f inum file)
    (run : Within (fun w : Writers ι => w = ⟨s, fun _ => 0, fun _ => false⟩)
    (Writers.step dev f data)
      (fun _ w p => w.Fits f data p) past w) :
    ∃ done file', done = s.rounds f file past ∧
      w.sys.walk.files = update s.walk.files inum (some file') ∧
      file' = file.withBytes (overwrite file.bytes (s.ftable f).off.toNat
        ((pieces data done).flatMap Prod.snd)) ∧
      (w.sys.ftable f).off.toNat =
        (s.ftable f).off.toNat + ((pieces data done).map fun x => x.2.length).sum ∧
      (file'.bytes.drop (s.ftable f).off.toNat).take
          ((w.sys.ftable f).off.toNat - (s.ftable f).off.toNat) =
        (pieces data done).flatMap Prod.snd ∧
      (∀ x ∈ pieces data done, x.2 ≠ [] ∧ x.2.length ≤ 1536) ∧
      ∀ p, piecesOf data done p = (List.range (done.count p)).map (piece (data p)) ∧
        (piecesOf data done p).flatten = (data p).take (w.written p) := by
  have wrote : w.Wrote data f inum file s (s.rounds f file past) := by
    refine run.invariant (fun past w => w.Wrote data f inum file s (s.rounds f file past))
      ?_ ?_
    · rintro _ rfl
      have start : s.rounds f file ([] : List ι) = [] := by
        unfold Sys.rounds
        split <;> rfl
      rw [start]
      exact .nil opened _
    · intro past w w' p before fits taken
      unfold Sys.rounds at before ⊢
      split at before
      · rename_i inside
        rw [if_pos inside]
        exact before.step inside fits taken
      · rename_i outside
        rw [if_neg outside]
        exact before.refused outside taken
  refine ⟨_, _, rfl, wrote.advances.files, rfl, ?_, ?_, wrote.sized, fun p => ?_⟩
  · rw [wrote.offset, length_region]
  · rw [wrote.offset, Nat.add_sub_cancel_left]
    unfold Sys.rounds
    split
    · exact drop_overwrite ‹_›
    · exact List.take_zero
  · refine ⟨piecesOf_eq _ _ p, ?_⟩
    rw [piecesOf_eq, flatten_pieces, wrote.written, Nat.min_comm,
      ← List.take_eq_take_min]

/-- What two processes write. -/
def twoWrites (p : Bool) : List UInt8 := bif p then [97] else [98]

/-- Whether a piece fits can be decided. -/
instance (w : Writers Bool) (p : Bool) : Decidable (w.Fits firstFile twoWrites p) :=
  inferInstanceAs (Decidable (_ ≤ _))

/-- Two processes write a byte each to an empty file. -/
theorem writers_lose_nothing_ab : ∃ w : Writers Bool,
    Within (fun w => w = ⟨openedFile 0 1 0, fun _ => 0, fun _ => false⟩)
      (Writers.step ⟨fun _ => none, fun _ => none⟩ firstFile twoWrites)
      (fun _ w p => w.Fits firstFile twoWrites p) [false, true] w ∧
    (w.sys.walk.files 2).map File.bytes = some [97, 98] ∧
    (w.sys.ftable firstFile).off.toNat = 2 := by
  have opened : (openedFile 0 1 0).Opened firstFile 2 ⟨tFile, 0, 0, 1, []⟩ := by decide +kernel
  have runs : (replayWithin (Writers.step ⟨fun _ => none, fun _ => none⟩ firstFile twoWrites)
      (fun _ w p => w.Fits firstFile twoWrites p) [true, false] []
      ⟨openedFile 0 1 0, fun _ => 0, fun _ => false⟩).any (fun _ => true) = true := by
    decide +kernel
  obtain ⟨w, run, -⟩ := @Within.of_replay _ _ (fun w => w = _) _ _ _ _ _ _ rfl runs
  obtain ⟨done, file', rounds, files, bytes, off, -⟩ := writers_lose_nothing opened run
  have both : done = [false, true] := rounds
  subst both
  refine ⟨w, run, ?_, off⟩
  rw [files, update_self, bytes]
  decide

end Xv6
