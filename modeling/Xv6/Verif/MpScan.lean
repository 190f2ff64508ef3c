import Xv6.Kernel.Mp

/-!
# The scan of the multiprocessor table

Every entry of a known type moves the loop of `mpinit` on, so the loop ends. At an entry of an
unknown type it stays where it is: the `break` that should end it only leaves the `switch`.
-/

namespace Xv6.Mp

variable {mem : Memory} {e n : Nat} {s t : Scan}

/-- The loop has come to an entry of a type it knows. -/
def Scan.Known (mem : Memory) (s : Scan) : Prop := Entry.ofByte (mem s.p) ≠ none

/-- An entry of a known type is passed, and only as many processors are counted as there is room
for. -/
theorem Scan.body_known (known : s.Known mem) :
    s.p < (s.body mem).p ∧ (s.body mem).ismp = s.ismp ∧
      (s.ncpu ≤ nCpu → (s.body mem).ncpu ≤ nCpu) := by
  unfold Scan.body
  cases type : Entry.ofByte (mem s.p) with
  | none => exact absurd type known
  | some entry =>
    cases entry with
    | mpproc =>
      by_cases room : s.ncpu < nCpu
      · rw [if_pos room]
        exact ⟨Nat.lt_add_of_pos_right (by decide), rfl, fun _ => room⟩
      · rw [if_neg room]
        exact ⟨Nat.lt_add_of_pos_right (by decide), rfl, id⟩
    | mpbus => exact ⟨Nat.lt_add_of_pos_right (by decide), rfl, id⟩
    | mpioapic => exact ⟨Nat.lt_add_of_pos_right (by decide), rfl, id⟩
    | mpiointr => exact ⟨Nat.lt_add_of_pos_right (by decide), rfl, id⟩
    | mplintr => exact ⟨Nat.lt_add_of_pos_right (by decide), rfl, id⟩

/-- An entry of an unknown type is not passed. -/
theorem Scan.body_unknown (unknown : ¬s.Known mem) : s.body mem = { s with ismp := false } := by
  unfold Scan.body
  rw [not_not.mp unknown]

instance : Decidable (s.Known mem) := inferInstanceAs (Decidable (_ ≠ _))

/-- Where the loop is after some iterations, or where it has ended before that. -/
def Scan.after (mem : Memory) (e : Nat) : Nat → Scan → Scan
  | 0, s => s
  | n + 1, s => if s.p < e then Scan.after mem e n (s.body mem) else s

/-- An iteration first. -/
theorem Scan.after_more (more : s.p < e) (k : Nat) :
    Scan.after mem e (k + 1) s = Scan.after mem e k (s.body mem) := by
  rw [Scan.after, if_pos more]

/-- The loop has ended. -/
theorem Scan.after_done (done : ¬s.p < e) (k : Nat) : Scan.after mem e k s = s := by
  cases k with
  | zero => rfl
  | succ k => rw [Scan.after, if_neg done]

/-- The loop ends if it knows every entry it comes to. -/
theorem Scan.loop_ends
    (known : ∀ k, (Scan.after mem e k s).p < e → (Scan.after mem e k s).Known mem)
    (room : s.ncpu ≤ nCpu) (enough : e - s.p ≤ n) :
    ∃ t, Scan.loop mem e n s = some t ∧ t.ismp = s.ismp ∧ t.ncpu ≤ nCpu := by
  induction n generalizing s with
  | zero =>
    have done : ¬s.p < e := by omega
    exact ⟨s, by rw [Scan.loop, if_neg done], rfl, room⟩
  | succ n ih =>
    rw [Scan.loop]
    by_cases more : s.p < e
    · have this : s.Known mem := known 0 more
      obtain ⟨moves, same, counts⟩ := Scan.body_known this
      have fewer : e - (s.body mem).p ≤ n := by omega
      obtain ⟨t, ends, ismp, ncpu⟩ := ih (fun k => Scan.after_more more k ▸ known (k + 1))
        (counts room) fewer
      exact ⟨t, by rw [if_pos more, ends], ismp.trans same, ncpu⟩
    · exact ⟨s, by rw [if_neg more], rfl, room⟩

/-- It does not end if it comes to an unknown entry. -/
theorem Scan.loop_stays (more : s.p < e) (unknown : ¬s.Known mem) : Scan.loop mem e n s = none := by
  induction n generalizing s with
  | zero => rw [Scan.loop, if_pos more]
  | succ n ih =>
    rw [Scan.loop, if_pos more]
    have same : (s.body mem).p = s.p := by rw [Scan.body_unknown unknown]
    apply ih
    · rw [same]
      exact more
    · unfold Scan.Known
      rw [same]
      exact unknown

/-- If it ends, it has known every entry it came to. -/
theorem Scan.loop_known (ends : Scan.loop mem e n s = some t) (k : Nat)
    (inside : (Scan.after mem e k s).p < e) : (Scan.after mem e k s).Known mem := by
  induction n generalizing s k with
  | zero =>
    rw [Scan.loop] at ends
    split at ends
    · cases ends
    · rename_i done
      rw [Scan.after_done done] at inside
      exact absurd inside done
  | succ n ih =>
    by_cases more : s.p < e
    · cases k with
      | zero =>
        by_contra unknown
        rw [Scan.loop_stays more unknown] at ends
        cases ends
      | succ k =>
        rw [Scan.loop, if_pos more] at ends
        rw [Scan.after_more more] at inside ⊢
        exact ih ends k inside
    · rw [Scan.after_done more] at inside
      exact absurd inside more

/-- The scan of a table ends exactly if the loop knows every entry it comes to. Then `mpinit`
returns and has counted at most `NCPU` processors, after no more iterations than there are bytes in
the table. Otherwise no number of iterations is enough. -/
theorem mpinit_returns {conf e : Nat} (accepted : mpconfig mem = some conf)
    (size : e = conf + confLength mem conf) :
    let known := ∀ k, (Scan.after mem e k (Scan.start mem conf)).p < e →
        (Scan.after mem e k (Scan.start mem conf)).Known mem
    (known ↔ ∃ s, mpinit mem (confLength mem conf) = some (.ok s) ∧ s.ncpu ≤ nCpu) ∧
      (¬known → ∀ iterations, mpinit mem iterations = none) := by
  intro known
  have spins (unknown : ¬known) (iterations : Nat) : mpinit mem iterations = none := by
    rw [mpinit, accepted]
    simp only [← size]
    cases ends : Scan.loop mem e iterations (Scan.start mem conf) with
    | none => rfl
    | some s => exact absurd (Scan.loop_known ends) unknown
  refine ⟨⟨fun known => ?_, fun ⟨s, returns, _⟩ => ?_⟩, spins⟩
  · have start : (Scan.start mem conf).p = conf + mpconfSize := rfl
    have enough : e - (Scan.start mem conf).p ≤ confLength mem conf := by omega
    obtain ⟨s, ends, ismp, ncpu⟩ := Scan.loop_ends known (Nat.zero_le _) enough
    refine ⟨s, ?_, ncpu⟩
    have suitable : s.ismp = true := ismp
    rw [mpinit, accepted]
    simp only [← size, ends, Option.map_some, suitable, Bool.true_eq_false, if_false]
  · by_contra unknown
    rw [spins unknown] at returns
    cases returns

/-- A floating pointer structure and a configuration table behind it, with one entry of some type,
where the extended BIOS data area is. -/
def oneEntry (type checksum : UInt8) : Memory := fun a =>
  if a = p2v 0x40E then 0xC0
  else if a = p2v 0x40F then 0x9F
  else if a < p2v 0x9FC00 then 0
  else
    ([95, 77, 80, 95, 0x10, 0xFC, 0x09, 0, 1, 1, 0x8e, 0, 0, 0, 0, 0] ++
      [80, 67, 77, 80, 45, 0, 1, checksum] ++ List.replicate 36 0 ++ [type]).getD
        (a - p2v 0x9FC00) 0

/-- One entry for a processor, which ends behind the table. -/
theorem mpinit_returns_oneProcessor : ∃ conf s, mpconfig (oneEntry 0 0xa2) = some conf ∧
    mpinit (oneEntry 0 0xa2) (confLength (oneEntry 0 0xa2) conf) = some (.ok s) ∧
    s.ncpu ≤ nCpu := by
  have accepted : mpconfig (oneEntry 0 0xa2) = some (p2v 0x9FC10) := by decide
  obtain ⟨s, returns, ncpu⟩ := (mpinit_returns accepted rfl).1.mp fun k inside => by
    cases k with
    | zero => decide
    | succ k =>
      rw [Scan.after_more (by decide), Scan.after_done (by decide)]
      decide
  exact ⟨_, s, accepted, returns, ncpu⟩

/-- `mpinit` never comes to an end: the table has one entry of an unknown type. -/
theorem mpinit_spins : ∃ conf, mpconfig (oneEntry 5 0x9d) = some conf ∧
    ∀ iterations, mpinit (oneEntry 5 0x9d) iterations = none := by
  have accepted : mpconfig (oneEntry 5 0x9d) = some (p2v 0x9FC10) := by decide
  refine ⟨_, accepted, fun iterations => ?_⟩
  have stays : Scan.loop (oneEntry 5 0x9d)
      (p2v 0x9FC10 + confLength (oneEntry 5 0x9d) (p2v 0x9FC10)) iterations
      (Scan.start (oneEntry 5 0x9d) (p2v 0x9FC10)) = none :=
    Scan.loop_stays (by decide) (by unfold Scan.Known; decide)
  rw [mpinit, accepted]
  simp only [stays, Option.map_none]

end Xv6.Mp
