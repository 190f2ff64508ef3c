import Mathlib.Data.List.Nodup
import Mathlib.Logic.Function.Basic
import Mathlib.Tactic.Common

/-!
# Singly linked lists

The nodes are the values of a type and each has one pointer field; a variable points to the first
node. A slot is that variable or the field of a node. The list is read off the pointers, and the
walk over slots to the one that holds the null pointer finds where to append.
-/

namespace Lib

open Function

variable {α : Type}

/-- The pointers lead from the start through the nodes, in this order, to null. -/
def Chain (next : α → Option α) : Option α → List α → Prop
  | start, [] => start = none
  | start, a :: rest => start = some a ∧ Chain next (next a) rest

/-- What is in a slot: in the variable, or in the field of a node. -/
def slotValue (head : Option α) (next : α → Option α) : Option α → Option α
  | none => head
  | some a => next a

/-- `for(pp = slot; *pp; pp = &(*pp)->next)`: the slot where the walk ends, if it ends within the
bound. -/
def lastSlot (head : Option α) (next : α → Option α) : Nat → Option α → Option (Option α)
  | 0, _ => none
  | bound + 1, slot =>
    match slotValue head next slot with
    | none => some slot
    | some a => lastSlot head next bound (some a)

/-- `*pp = value`. -/
def storeSlot [DecidableEq α] (head : Option α) (next : α → Option α) (slot value : Option α) :
    Option α × (α → Option α) :=
  match slot with
  | none => (value, next)
  | some a => (head, update next a value)

namespace Chain

variable {head : Option α} {next next' : α → Option α} {order : List α} {a b : α}

/-- Only the fields of the nodes matter. -/
theorem congr (chain : Chain next head order) (same : ∀ a ∈ order, next' a = next a) :
    Chain next' head order := by
  induction order generalizing head with
  | nil => exact chain
  | cons a rest ih =>
    refine ⟨chain.1, ?_⟩
    rw [same a List.mem_cons_self]
    exact ih chain.2 fun c member => same c (List.mem_cons_of_mem a member)

variable {before after : List α} {bound : Nat}

/-- The walk goes on to the last element. -/
theorem lastSlot_next (chain : Chain next (next a) order) (enough : order.length < bound)
    (h : Option α) : lastSlot h next bound (some a) = some (some (order.getLastD a)) := by
  induction order generalizing a bound with
  | nil =>
    cases bound with
    | zero => exact absurd enough (Nat.not_lt_zero _)
    | succ bound => rw [lastSlot, slotValue, show next a = none from chain]; rfl
  | cons c rest ih =>
    cases bound with
    | zero => exact absurd enough (Nat.not_lt_zero _)
    | succ bound =>
      rw [lastSlot, slotValue, chain.1, List.getLastD_cons]
      exact ih chain.2 (Nat.lt_of_succ_lt_succ enough)

/-- The walk ends at the field of the last node, or at the variable if there is none. -/
theorem lastSlot_eq (chain : Chain next head order) (enough : order.length < bound) :
    lastSlot head next bound none = some order.getLast? := by
  cases bound with
  | zero => exact absurd enough (Nat.not_lt_zero _)
  | succ bound =>
    cases order with
    | nil => rw [lastSlot, slotValue, show head = none from chain]; rfl
    | cons a rest =>
      rw [lastSlot, slotValue, chain.1]
      have walked := chain.2.lastSlot_next (Nat.lt_of_succ_lt_succ enough) (some a)
      rw [List.getLast?_cons, ← List.getLastD_eq_getLast?]
      exact walked

variable [DecidableEq α]

/-- A node is appended in the field of the last one. -/
theorem append_next (chain : Chain next (next a) order) (once : (a :: order).Nodup)
    (fresh : b ∉ a :: order) (ends : next b = none) :
    Chain (update next (order.getLastD a) (some b))
      (update next (order.getLastD a) (some b) a) (order ++ [b]) := by
  induction order generalizing a with
  | nil =>
    have apart : b ≠ a := fun same => fresh (same ▸ List.mem_cons_self)
    simp only [List.getLastD_nil, update_self, List.nil_append]
    refine ⟨rfl, ?_⟩
    rw [update_of_ne apart]
    exact ends
  | cons c rest ih =>
    rw [List.getLastD_cons]
    have apart : a ≠ rest.getLastD c := by
      intro same
      have last : rest.getLastD c ∈ c :: rest := by
        rw [← List.getLast_eq_getLastD (List.cons_ne_nil c rest)]
        exact List.getLast_mem _
      exact (List.nodup_cons.mp once).1 (same ▸ last)
    rw [update_of_ne apart, chain.1]
    exact ⟨rfl, ih chain.2 (List.nodup_cons.mp once).2 fun member =>
      fresh (List.mem_cons_of_mem a member)⟩

/-- A node is appended in the slot where the walk ends. -/
theorem append (chain : Chain next head order) (once : order.Nodup) (fresh : b ∉ order)
    (ends : next b = none) :
    Chain (storeSlot head next order.getLast? (some b)).2
      (storeSlot head next order.getLast? (some b)).1 (order ++ [b]) := by
  cases order with
  | nil => exact ⟨rfl, ends⟩
  | cons a rest =>
    rw [List.getLast?_cons, ← List.getLastD_eq_getLast?]
    exact ⟨chain.1, chain.2.append_next once fresh ends⟩

end Chain

end Lib
