import Mathlib.Algebra.BigOperators.Group.Finset.Piecewise
import Mathlib.Algebra.Order.BigOperators.Group.Finset
import Mathlib.Tactic.Common

/-!
# Sums over a finite family when one member changes

A step of one process changes one term of a sum over all processes. These rules say what that
does to the sum, and what a bound on the sum says about one term.
-/

namespace Lib

open Function

variable {ι : Type} [Fintype ι]

/-- When no other term grows, the sum grows by at most what one term does. -/
theorem sum_change_le [DecidableEq ι] (before after : ι → Nat) (i : ι)
    (less : ∀ j, j ≠ i → after j ≤ before j) :
    (∑ j, after j) + before i ≤ (∑ j, before j) + after i := by
  have rest : ∑ j ∈ Finset.univ.erase i, after j ≤ ∑ j ∈ Finset.univ.erase i, before j :=
    Finset.sum_le_sum fun j member => less j (Finset.ne_of_mem_erase member)
  have old := Finset.add_sum_erase Finset.univ before (Finset.mem_univ i)
  have new := Finset.add_sum_erase Finset.univ after (Finset.mem_univ i)
  omega

/-- Changing one term changes the sum by the same amount. -/
theorem sum_change [DecidableEq ι] (before after : ι → Nat) (i : ι)
    (same : ∀ j, j ≠ i → after j = before j) :
    (∑ j, after j) + before i = (∑ j, before j) + after i :=
  le_antisymm (sum_change_le before after i fun j apart => (same j apart).le)
    (sum_change_le after before i fun j apart => (same j apart).ge)

/-- One of the terms. -/
theorem le_sum (terms : ι → Nat) (i : ι) : terms i ≤ ∑ j, terms j :=
  Finset.single_le_sum (fun _ _ => Nat.zero_le _) (Finset.mem_univ i)

/-- How many members of a family satisfy a predicate. -/
def tally {α : Type} (holds : α → Prop) [DecidablePred holds] (family : ι → α) : Nat :=
  ∑ i, if holds (family i) then 1 else 0

section Tally

variable {α : Type} (holds : α → Prop) [DecidablePred holds]

/-- The tally is the number of members that satisfy the predicate. -/
theorem tally_eq_card (family : ι → α) :
    tally holds family = (Finset.univ.filter fun i => holds (family i)).card := by
  rw [tally, Finset.card_filter]

/-- Changing one member changes the tally by that member. -/
theorem tally_update [DecidableEq ι] (family : ι → α) (i : ι) (value : α) :
    tally holds (update family i value) + (if holds (family i) then 1 else 0) =
      tally holds family + (if holds value then 1 else 0) := by
  have change := sum_change (fun j => if holds (family j) then 1 else 0)
    (fun j => if holds (update family i value j) then 1 else 0) i
    (fun j apart => by rw [update_of_ne apart])
  rwa [update_self] at change

/-- Families whose members agree on the predicate have one tally. -/
theorem tally_congr {first second : ι → α} (same : ∀ i, holds (first i) ↔ holds (second i)) :
    tally holds first = tally holds second :=
  Finset.sum_congr rfl fun i _ => if_congr (same i) rfl rfl

/-- A member that satisfies the predicate is counted. -/
theorem tally_pos {family : ι → α} {i : ι} (member : holds (family i)) :
    0 < tally holds family := by
  have counted := le_sum (fun j => if holds (family j) then 1 else 0) i
  rw [if_pos member] at counted
  exact counted

/-- A tally of zero means that no member satisfies the predicate. -/
theorem tally_eq_zero {family : ι → α} (none : tally holds family = 0) (i : ι) :
    ¬holds (family i) := fun member => by
  have counted := tally_pos holds member
  omega

end Tally

end Lib
