import Mathlib.Data.List.Nodup
import Mathlib.Data.Option.Basic
import Mathlib.Tactic.Common

/-!
# Doubly linked rings through a list head

The nodes of the ring are the values of a type, linked by two pointer fields; `none` is the list
head, which carries no value. A ring is read as the list of its nodes from the head on. The two
pieces of pointer surgery, taking a node out and putting one behind the head, are the four or six
assignments one writes for them, and act on that list as removal and `cons`.
-/

namespace Lib

open Function

/-- The pointer fields of the nodes and of the list head. -/
structure Links (α : Type) where
  /-- The node after a node. -/
  next : Option α → Option α
  /-- The node before a node. -/
  prev : Option α → Option α

namespace Links

variable {α : Type}

section Surgery

variable [DecidableEq α]

/-- `b->next->prev = b->prev; b->prev->next = b->next`. -/
def unlink (l : Links α) (b : α) : Links α :=
  let l := { l with prev := update l.prev (l.next (some b)) (l.prev (some b)) }
  { l with next := update l.next (l.prev (some b)) (l.next (some b)) }

/-- `b->next = head.next; b->prev = &head; head.next->prev = b; head.next = b`. -/
def pushFront (l : Links α) (b : α) : Links α :=
  let l := { l with next := update l.next (some b) (l.next none) }
  let l := { l with prev := update l.prev (some b) none }
  let l := { l with prev := update l.prev (l.next none) (some b) }
  { l with next := update l.next none (some b) }

end Surgery

/-- Follow one pointer field from a node until a wanted node or the head; no result when the walk
is longer than the bound. -/
def scan (follow : Option α → Option α) (wanted : α → Bool) : Nat → Option α → Option (Option α)
  | 0, _ => none
  | _ + 1, none => some none
  | bound + 1, some b =>
    if wanted b then some (some b) else scan follow wanted bound (follow (some b))

/-- Each node of the list leads to the one after it, and back. -/
def Linked (l : Links α) : List (Option α) → Prop
  | x :: y :: rest => l.next x = y ∧ l.prev y = x ∧ Linked l (y :: rest)
  | _ => True

/-- The head, the nodes in an order, and the head again. -/
def around (order : List α) : List (Option α) := none :: (order.map some ++ [none])

/-- The nodes form one ring through the head, in this order. -/
structure Ring (l : Links α) (order : List α) : Prop where
  /-- No node occurs twice. -/
  nodup : order.Nodup
  /-- The pointers lead from the head through the nodes back to the head. -/
  linked : l.Linked (around order)

variable {l l' : Links α} {x y z : Option α} {b : α} {before after : List (Option α)}
  {order : List α}

/-- A linked list is linked up to a node and from it. -/
theorem linked_append :
    l.Linked (before ++ x :: after) ↔ l.Linked (before ++ [x]) ∧ l.Linked (x :: after) := by
  induction before with
  | nil => simp [Linked]
  | cons first rest ih =>
    cases rest with
    | nil => simp [Linked, and_assoc]
    | cons second rest =>
      simp only [List.cons_append, Linked] at ih ⊢
      rw [ih, and_assoc, and_assoc]

/-- A linked list reads `next` of its nodes but the last, and `prev` of its nodes but the first. -/
theorem Linked.congr {nodes : List (Option α)} (linked : l.Linked nodes)
    (next : ∀ x ∈ nodes.dropLast, l'.next x = l.next x)
    (prev : ∀ x ∈ nodes.tail, l'.prev x = l.prev x) : l'.Linked nodes := by
  induction nodes with
  | nil => trivial
  | cons first rest ih =>
    cases rest with
    | nil => trivial
    | cons second rest =>
      refine ⟨?_, ?_, ih linked.2.2 ?_ ?_⟩
      · rw [next first (.head _)]
        exact linked.1
      · rw [prev second (.head _)]
        exact linked.2.1
      · exact fun x member => next x (.tail _ member)
      · exact fun x member => prev x (.tail _ member)

/-- The nodes that are followed by another one occur once. -/
theorem Ring.sources (ring : l.Ring order) : (around order).dropLast.Nodup := by
  have once := ring.nodup.map (Option.some_injective α)
  rw [around, ← List.cons_append, List.dropLast_concat]
  exact List.nodup_cons.mpr ⟨by simp, once⟩

/-- The nodes that follow another one occur once. -/
theorem Ring.targets (ring : l.Ring order) : (around order).tail.Nodup := by
  have once := ring.nodup.map (Option.some_injective α)
  exact List.nodup_append.mpr ⟨once, List.nodup_singleton _, by simp⟩

section Surgery

variable [DecidableEq α]

/-- Taking `b` out from between `x` and `z`. -/
theorem Linked.unlink (linked : l.Linked (before ++ x :: some b :: z :: after))
    (sources : (before ++ x :: some b :: z :: after).dropLast.Nodup)
    (targets : (before ++ x :: some b :: z :: after).tail.Nodup) :
    (l.unlink b).Linked (before ++ x :: z :: after) := by
  obtain ⟨front, -, prev_b, next_b, -, back⟩ := linked_append.mp linked
  have sources : (before ++ x :: some b :: (z :: after).dropLast).Nodup := by
    simpa [List.dropLast_append] using sources
  have targets : ((before ++ [x]).tail ++ some b :: z :: after).Nodup := by
    cases before with
    | nil => simpa using targets
    | cons first rest => simpa using targets
  have apart : z ≠ some b := by
    rintro rfl
    simp [List.nodup_append] at targets
  have surgery : l.unlink b =
      { next := update l.next x z, prev := update l.prev z x } := by
    simp [Links.unlink, next_b, prev_b, update_of_ne apart.symm]
  rw [surgery]
  apply linked_append.mpr
  constructor
  · apply front.congr
    · intro node member
      rw [List.dropLast_concat] at member
      have other : node ≠ x := by
        rintro rfl
        exact (List.nodup_append.mp sources).2.2 node member node (.head _) rfl
      exact update_of_ne other _ _
    · intro node member
      have other : node ≠ z := by
        rintro rfl
        exact (List.nodup_append.mp targets).2.2 node member node (.tail _ (.head _)) rfl
      exact update_of_ne other _ _
  · refine ⟨update_self .., update_self .., ?_⟩
    apply back.congr
    · intro node member
      have other : node ≠ x := by
        rintro rfl
        exact (List.nodup_cons.mp (List.nodup_append.mp sources).2.1).1 (.tail _ member)
      exact update_of_ne other _ _
    · intro node member
      have other : node ≠ z := by
        rintro rfl
        have tail := (List.nodup_cons.mp (List.nodup_append.mp targets).2.1).2
        exact (List.nodup_cons.mp tail).1 member
      exact update_of_ne other _ _

/-- An element is taken out of the ring. -/
theorem Ring.unlink (ring : l.Ring order) (member : b ∈ order) :
    (l.unlink b).Ring (order.erase b) := by
  obtain ⟨first, last, rfl, fresh⟩ := List.eq_append_cons_of_mem member
  rw [List.erase_append_right _ fresh, List.erase_cons_head]
  obtain ⟨before, x, front⟩ : ∃ before x, none :: first.map some = before ++ [x] :=
    ⟨_, _, (List.dropLast_append_getLast (List.cons_ne_nil _ _)).symm⟩
  obtain ⟨z, after, back⟩ : ∃ z after, last.map some ++ [none] = z :: after := by
    cases last with
    | nil => exact ⟨_, _, rfl⟩
    | cons next rest => exact ⟨_, _, rfl⟩
  have whole : around (first ++ b :: last) = before ++ x :: some b :: z :: after := by
    have shape : around (first ++ b :: last) =
        (none :: first.map some) ++ some b :: (last.map some ++ [none]) := by
      simp [around]
    rw [shape, front, back, List.append_assoc]
    rfl
  have joined : around (first ++ last) = before ++ x :: z :: after := by
    have shape : around (first ++ last) =
        (none :: first.map some) ++ (last.map some ++ [none]) := by
      simp [around]
    rw [shape, front, back, List.append_assoc]
    rfl
  constructor
  · exact ring.nodup.sublist (by simp)
  rw [joined]
  apply Linked.unlink
  · rw [← whole]
    exact ring.linked
  · rw [← whole]
    exact ring.sources
  · rw [← whole]
    exact ring.targets

/-- An element is put in front. -/
theorem Ring.pushFront (ring : l.Ring order) (fresh : b ∉ order) :
    (l.pushFront b).Ring (b :: order) := by
  have linked := ring.linked
  have sources := ring.sources
  have targets := ring.targets
  have apart : some b ∉ around order := by simp [around, fresh]
  have shape : around (b :: order) = none :: some b :: (around order).tail := rfl
  obtain ⟨z, after, whole⟩ : ∃ z after, around order = none :: z :: after := by
    cases order with
    | nil => exact ⟨_, _, rfl⟩
    | cons next rest => exact ⟨_, _, rfl⟩
  rw [whole] at linked sources targets apart shape
  obtain ⟨next_head, -, back⟩ := linked
  have other : some b ≠ z := fun same => apart (same ▸ .tail _ (.head _))
  have surgery : l.pushFront b =
      { next := update (update l.next (some b) z) none (some b)
        prev := update (update l.prev (some b) none) z (some b) } := by
    simp [Links.pushFront, next_head]
  constructor
  · exact List.nodup_cons.mpr ⟨fresh, ring.nodup⟩
  rw [shape, surgery]
  refine ⟨by simp, by simp [update_of_ne other], by simp, by simp, ?_⟩
  apply back.congr
  · intro node member
    have inside : node ≠ none := by
      rintro rfl
      exact (List.nodup_cons.mp sources).1 member
    have old : node ≠ some b := by
      rintro rfl
      exact apart (.tail _ ((List.dropLast_sublist _).subset member))
    simp [update_of_ne inside, update_of_ne old]
  · intro node member
    have inside : node ≠ z := by
      rintro rfl
      exact (List.nodup_cons.mp targets).1 member
    have old : node ≠ some b := by
      rintro rfl
      exact apart (.tail _ (.tail _ member))
    simp [update_of_ne inside, update_of_ne old]

end Surgery

/-! ## Walking the ring -/

variable {wanted : α → Bool} {bound : Nat}

/-- Walking forward from a node finds the first wanted node behind it. -/
theorem scan_next (linked : l.Linked (x :: (order.map some ++ [none])))
    (long : order.length < bound) :
    scan l.next wanted bound (l.next x) = some (order.find? wanted) := by
  induction order generalizing x bound with
  | nil =>
    obtain ⟨bound, rfl⟩ := Nat.exists_eq_add_one_of_ne_zero (Nat.ne_zero_of_lt long)
    rw [linked.1]
    rfl
  | cons b rest ih =>
    obtain ⟨bound, rfl⟩ := Nat.exists_eq_add_one_of_ne_zero (Nat.ne_zero_of_lt long)
    rw [linked.1]
    unfold scan
    cases hit : wanted b with
    | true => simp [hit]
    | false =>
      simp only [Bool.false_eq_true, ↓reduceIte, List.find?_cons, hit]
      exact ih linked.2.2 (Nat.lt_of_succ_lt_succ long)

/-- Walking backward from a node finds the last wanted node before it. -/
theorem scan_prev (linked : l.Linked (none :: (order.reverse.map some ++ [x])))
    (long : order.length < bound) :
    scan l.prev wanted bound (l.prev x) = some (order.find? wanted) := by
  induction order generalizing x bound with
  | nil =>
    obtain ⟨bound, rfl⟩ := Nat.exists_eq_add_one_of_ne_zero (Nat.ne_zero_of_lt long)
    rw [linked.2.1]
    rfl
  | cons b rest ih =>
    obtain ⟨bound, rfl⟩ := Nat.exists_eq_add_one_of_ne_zero (Nat.ne_zero_of_lt long)
    have split : none :: ((b :: rest).reverse.map some ++ [x]) =
        (none :: rest.reverse.map some) ++ some b :: [x] := by
      simp
    rw [split] at linked
    obtain ⟨front, -, prev_x, -⟩ := linked_append.mp linked
    rw [prev_x]
    unfold scan
    cases hit : wanted b with
    | true => simp [hit]
    | false =>
      simp only [Bool.false_eq_true, ↓reduceIte, List.find?_cons, hit]
      exact ih front (Nat.lt_of_succ_lt_succ long)

/-- A scan forwards finds the first element that is wanted. -/
theorem Ring.scan_next (ring : l.Ring order) (wanted : α → Bool) (long : order.length < bound) :
    scan l.next wanted bound (l.next none) = some (order.find? wanted) :=
  Links.scan_next ring.linked long

/-- A scan backwards finds the last one. -/
theorem Ring.scan_prev (ring : l.Ring order) (wanted : α → Bool) (long : order.length < bound) :
    scan l.prev wanted bound (l.prev none) = some (order.reverse.find? wanted) := by
  apply Links.scan_prev
  · rw [List.reverse_reverse]
    exact ring.linked
  · rwa [List.length_reverse]

end Links

end Lib
