import Xv6.Verif.FirstProcess

/-!
# Growing and shrinking a process

`growproc` adds the pages up to the new size or frees those above it. A size of 0 is what
`allocuvm` and `deallocuvm` return for a failure, so `growproc` works only while some memory
remains.
-/

namespace Xv6

open Lib Function

variable {layout : Layout} {s t u : Vm} {p : Fin nProc} {sz : Nat} {n : Int}

/-- A page is below a rounded size if its number is. -/
theorem below_pgRoundUp (k sz : Nat) : k * pgSize < pgRoundUp sz ↔ k < pageUp sz :=
  Nat.mul_lt_mul_right (show 0 < pgSize by decide)

/-- The pages of a process say that it has its size. -/
theorem Vm.Exact.present (pages : s.Exact p) {k : Nat} (user : k < userPages) :
    (s.page (s.proc p).pgdir k).isSome ↔ k < pageUp (s.proc p).sz :=
  (pages k user).trans (below_pgRoundUp k _)

/-- A process has its new size, with the pages that the size says. -/
theorem Resized.grew (pages : s.Exact p) (size : (sz : Int) = (s.proc p).sz + n)
    (words : t.mem = u.mem) (proc : t.proc p = { s.proc p with sz := sz })
    (resized : ∀ x, x < userPages → u.page (s.proc p).pgdir x =
      if x < pageUp sz then
        if x < pageUp (s.proc p).sz then s.page (s.proc p).pgdir x else some zeroPage
      else none) : Grew s p n t := by
  have page (x : Nat) (user : x < userPages) := (page_mem words x).trans (resized x user)
  constructor
  case size =>
    rw [proc]
    exact size
  case pages =>
    intro k user
    rw [proc, below_pgRoundUp, page k user]
    by_cases inside : k < pageUp sz
    · by_cases before : k < pageUp (s.proc p).sz
      · simp only [inside, before, if_true, (pages.present user).mpr before]
      · simp only [inside, before, if_true, if_false, Option.isSome_some]
    · simp only [inside, if_false, Option.isSome_none, Bool.false_eq_true]
  case kept =>
    intro k user before inside
    rw [proc] at inside ⊢
    rw [below_pgRoundUp] at before inside
    rw [page k user, if_pos inside, if_pos before]
  case zeroed =>
    intro k user before inside
    rw [proc] at inside ⊢
    rw [below_pgRoundUp] at before inside
    rw [page k user, if_pos inside, if_neg before]

/-- What `growproc` leaves of a process: a call that succeeds gives it the size and the pages asked
for, and one that fails leaves it as it was. -/
def Exactly (s : Vm) (p : Fin nProc) (n : Int) (r : Bool) (t : Vm) : Prop :=
  (r = true → Grew s p n t) ∧ (r = false → Intact s p t)

/-- It does so exactly if the call leaves the process some memory. -/
theorem Resized.exactly (pages : s.Exact p) (positive : 0 < (s.proc p).sz)
    (small : (s.proc p).sz < kernBase) {r : Bool} (resized : Resized s p n u r sz)
    (words : t.mem = u.mem) (proc : t.proc p = { s.proc p with sz := sz }) :
    Exactly s p n r t ↔ 0 < ((s.proc p).sz : Int) + n := by
  cases resized with
  | done size left resized =>
    refine iff_of_true ⟨fun _ => Resized.grew pages size words proc resized, nofun⟩ ?_
    rcases left with left | zero <;> omega
  | @kept r past same =>
    cases r with
    | true =>
      refine iff_of_false (fun exactly => ?_) (by simp at past; omega)
      have size := (exactly.1 rfl).size
      rw [proc] at size
      have past : ((s.proc p).sz : Int) + n < 0 := past
      dsimp only at size
      omega
    | false =>
      refine iff_of_true ⟨nofun, fun _ => ⟨proc, fun k user => ?_⟩⟩ ?_
      · rw [page_mem words, same k user]
      · rcases (past : 0 < n ∨ (s.proc p).sz = 0) with more | none <;> omega
  | emptied all _ gone =>
    refine iff_of_false (fun exactly => ?_) (by omega)
    have first : 0 < userPages := by decide
    have present : 0 < pageUp (s.proc p).sz := (below_pageUp small 0).mpr (by rwa [Nat.zero_mul])
    rw [← pages.present first, ← (exactly.2 rfl).page 0 first, page_mem words, gone 0 first]
      at present
    cases present

/-- What `growproc` does to a process with some memory whose address space and free list are in
order. A call that succeeds gives the process the size and the pages asked for, and a call that
fails leaves it as it was, exactly if the call leaves the process some memory. -/
theorem growproc_exact_atomic {free : List Nat} {p : Fin nProc}
    (books : Audited layout s ⟨some (s.proc p).pgdir, free, []⟩) (pages : s.Exact p)
    (positive : 0 < (s.proc p).sz) (small : (s.proc p).sz < kernBase) (n : Int32)
    (refusals : List Bool) :
    (∃ r t, growproc layout p n.toInt { s with refusals := refusals } = .ok (r, t) ∧
      (r = true → Grew s p n.toInt t) ∧ (r = false → Intact s p t)) ↔
    0 < ((s.proc p).sz : Int) + n.toInt := by
  have fresh (x : Nat) (user : x < userPages) (above : pageUp (s.proc p).sz ≤ x) :
      s.page (s.proc p).pgdir x = none :=
    Option.not_isSome_iff_eq_none.mp ((pages.present user).not.mpr (Nat.not_lt.mpr above))
  have ready : Audited layout { s with refusals := refusals } ⟨some (s.proc p).pgdir, free, []⟩ :=
    books.congr rfl rfl
  obtain ⟨r, t, ends, u, b', sz, moves, -, -, -, resized, t_eq⟩ :=
    Wp.ends (growproc_resizes ready rfl small fresh n)
  have resized : Resized s p n.toInt u r sz := by
    cases resized with
    | done size left pages => exact .done size left pages
    | kept past pages => exact .kept past pages
    | emptied all positive pages => exact .emptied all positive pages
  have proc : t.proc p = { s.proc p with sz := sz } := by simp [t_eq, moves.proc]
  rw [← resized.exactly pages positive small (t := t) (by rw [t_eq]) proc]
  constructor
  · rintro ⟨r', t', ends', exactly⟩
    rw [ends] at ends'
    cases ends'
    exact exactly
  · exact fun exactly => ⟨r, t, ends, exactly⟩

/-- The first process grows by a page or stays as it is, and so it does with a refusal. -/
theorem growproc_exact_atomic_init : ∃ past s p, Vm.RanShort smallKernel past s ∧
    (s.proc p).state = .alive ∧ ∀ refusals, ∃ r t,
      growproc smallKernel p (4096 : Int32).toInt { s with refusals := refusals } = .ok (r, t) ∧
      (r = true → Grew s p (4096 : Int32).toInt t) ∧ (r = false → Intact s p t) := by
  obtain ⟨s, p, free, run, first⟩ := firstProcess_runs
  have live : s.Live p := .inl first.alive
  refine ⟨_, s, p, run, first.alive, fun refusals =>
    (growproc_exact_atomic (first.balanced.books live) first.pages (by rw [first.size]; decide)
      (first.balanced.housed p live).small 4096 refusals).mpr ?_⟩
  rw [first.size]
  decide

/-- The first process gives back all its memory: the call fails, with the memory gone. It gives back
one byte more than it has: the call succeeds, with the size unchanged. -/
theorem growproc_empties : ∃ past s p, Vm.RanShort smallKernel past s ∧
    (s.proc p).state = .alive ∧ s.Exact p ∧ 0 < (s.proc p).sz ∧ (s.proc p).sz < kernBase ∧
    (∃ t, growproc smallKernel p (-4096 : Int32).toInt s = .ok (false, t) ∧ ¬Intact s p t) ∧
    ∃ t, growproc smallKernel p (-4097 : Int32).toInt s = .ok (true, t) ∧
      ¬Grew s p (-4097 : Int32).toInt t := by
  obtain ⟨s, p, free, run, first⟩ := firstProcess_runs
  have live : s.Live p := .inl first.alive
  have housed := first.balanced.housed p live
  have positive : 0 < (s.proc p).sz := by rw [first.size]; decide
  -- Neither call leaves the process what it should.
  have calls (n : Int32) (all : ((s.proc p).sz : Int) + n.toInt ≤ 0) :
      ∃ r t, growproc smallKernel p n.toInt s = .ok (r, t) ∧ ¬Exactly s p n.toInt r t ∧
        (r = true ↔ ((s.proc p).sz : Int) + n.toInt < 0) := by
    obtain ⟨r, t, ends, u, b', sz, moves, -, -, -, resized, t_eq⟩ :=
      Wp.ends (growproc_resizes (first.balanced.books live) rfl housed.small
        (housed.fresh first.alive) n)
    refine ⟨r, t, ends, ?_, ?_⟩
    · rw [resized.exactly first.pages positive housed.small (by rw [t_eq])
        (by simp [t_eq, moves.proc])]
      omega
    · cases resized with
      | done => omega
      | kept past => cases r <;> simp at past <;> simp <;> omega
      | emptied => simp; omega
  obtain ⟨r, t, ends, differs, failed⟩ := calls (-4096) (by rw [first.size]; decide)
  obtain ⟨r', t', ends', differs', succeeded⟩ := calls (-4097) (by rw [first.size]; decide)
  rw [first.size] at failed succeeded
  obtain rfl : r = false := by simpa using failed.not.mpr (by decide)
  obtain rfl : r' = true := succeeded.mpr (by decide)
  exact ⟨_, s, p, run, first.alive, first.pages, positive, housed.small,
    ⟨t, ends, fun intact => differs ⟨nofun, fun _ => intact⟩⟩,
    t', ends', fun grew => differs' ⟨fun _ => grew, nofun⟩⟩

end Xv6
