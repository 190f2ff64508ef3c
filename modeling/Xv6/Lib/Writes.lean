import Mathlib.Tactic.Common

/-!
# Sequences of atomic writes to an indexed store

A store holds one value at each address. A sequence of writes is applied in order, each write
atomic, so a crash leaves the store at some prefix of the sequence. The rules below are what a
recovery argument uses: what a whole sequence leaves at one address, and how a property kept by
every single write holds after every prefix.
-/

namespace Lib

open Function

/-- Apply writes to a store in issue order. -/
def applyWrites {α : Type} (writes : List (Nat × α)) (store : Nat → α) : Nat → α :=
  writes.foldl (fun store write => update store write.1 write.2) store

section Writes

variable {α : Type} (store : Nat → α)

/-- No write. -/
@[simp] theorem applyWrites_nil : applyWrites [] store = store := rfl

/-- The first write comes first. -/
@[simp] theorem applyWrites_cons (write : Nat × α) (writes : List (Nat × α)) :
    applyWrites (write :: writes) store =
      applyWrites writes (update store write.1 write.2) := rfl

/-- Two sequences issued one after the other are one sequence. -/
theorem applyWrites_append (first second : List (Nat × α)) :
    applyWrites (first ++ second) store = applyWrites second (applyWrites first store) := by
  simp [applyWrites]

/-- An address no write names keeps its value. -/
theorem applyWrites_apart (writes : List (Nat × α)) (address : Nat)
    (apart : ∀ write ∈ writes, write.1 ≠ address) :
    applyWrites writes store address = store address := by
  induction writes generalizing store with
  | nil => rfl
  | cons write writes ih =>
    rw [applyWrites_cons, ih _ fun later member => apart later (List.mem_cons_of_mem _ member)]
    exact update_of_ne (apart write List.mem_cons_self).symm _ _

/-- When every write to an address carries one value, a sequence that names the address leaves
that value there. -/
theorem applyWrites_written (writes : List (Nat × α)) (address : Nat) (value : α)
    (agree : ∀ write ∈ writes, write.1 = address → write.2 = value)
    (named : ∃ write ∈ writes, write.1 = address) : applyWrites writes store address = value := by
  induction writes generalizing store with
  | nil => simp at named
  | cons write writes ih =>
    have later : ∀ other ∈ writes, other.1 = address → other.2 = value :=
      fun other member => agree other (List.mem_cons_of_mem _ member)
    rw [applyWrites_cons]
    by_cases again : ∃ other ∈ writes, other.1 = address
    · exact ih _ later again
    have apart : ∀ other ∈ writes, other.1 ≠ address :=
      fun other member same => again ⟨other, member, same⟩
    rw [applyWrites_apart _ writes address apart]
    obtain ⟨found, member, same⟩ := named
    rcases List.mem_cons.mp member with rfl | member
    · subst same
      rw [update_self]
      exact agree found List.mem_cons_self rfl
    · exact absurd same (apart found member)

/-- A property that every write of the sequence keeps holds after every prefix of it. -/
theorem applyWrites_take_keeps (kept : (Nat → α) → Prop) (writes : List (Nat × α))
    (keeps : ∀ store, ∀ write ∈ writes, kept store → kept (update store write.1 write.2))
    (start : kept store) (count : Nat) : kept (applyWrites (writes.take count) store) := by
  induction writes generalizing store count with
  | nil => simpa using start
  | cons write writes ih =>
    cases count with
    | zero => simpa using start
    | succ count =>
      rw [List.take_succ_cons, applyWrites_cons]
      exact ih _ (fun store other member => keeps store other (List.mem_cons_of_mem _ member))
        (keeps store write List.mem_cons_self start) count

end Writes

end Lib
