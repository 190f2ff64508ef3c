import Mathlib.Tactic.Common

/-!
# A map of marks and the references that account for it

An allocator marks the items in use. Some items are reserved; every other marked item is there for
one reference. The rules add a reference to an unmarked item together with its mark, and remove a
reference together with the mark. An item may also be marked for nothing: then the marks only cover
the items in use.
-/

namespace Lib

variable {ρ β : Type}

/-- The marked items are the reserved ones and those of the references, which are all different. -/
structure Ledger (marked reserved : β → Prop) (refs : ρ → β → Prop) : Prop where
  marked_iff : ∀ b, marked b ↔ reserved b ∨ ∃ r, refs r b
  /-- No reference to a reserved item. -/
  apart : ∀ r b, refs r b → ¬reserved b
  /-- No two references to an item. -/
  once : ∀ r r' b, refs r b → refs r' b → r = r'

namespace Ledger

variable {marked marked' reserved : β → Prop} {refs refs' : ρ → β → Prop}

variable (ledger : Ledger marked reserved refs)

include ledger

/-- What is referred to is marked. -/
theorem marked_of_refs {r : ρ} {b : β} (refers : refs r b) : marked b :=
  (ledger.marked_iff b).mpr (.inr ⟨r, refers⟩)

/-- The same marks and references. -/
theorem congr (marks : ∀ b, marked' b ↔ marked b)
    (same : ∀ r b, refs' r b ↔ refs r b) : Ledger marked' reserved refs' := by
  have marks_eq : marked' = marked := funext fun b => propext (marks b)
  have refs_eq : refs' = refs := funext fun r => funext fun b => propext (same r b)
  rw [marks_eq, refs_eq]
  exact ledger

/-- A new reference to an unmarked item, which is marked for it. -/
theorem add {r : ρ} {b : β} (unmarked : ¬marked b) (marks : ∀ c, marked' c ↔ marked c ∨ c = b)
    (adds : ∀ r' c, refs' r' c ↔ refs r' c ∨ r' = r ∧ c = b) : Ledger marked' reserved refs' := by
  have fresh (r' : ρ) : ¬refs r' b := fun refers => unmarked (ledger.marked_of_refs refers)
  constructor
  case marked_iff =>
    intro c
    rw [marks, ledger.marked_iff]
    constructor
    · rintro ((set | ⟨r', refers⟩) | here)
      · exact .inl set
      · exact .inr ⟨r', (adds r' c).mpr (.inl refers)⟩
      · exact .inr ⟨r, (adds r c).mpr (.inr ⟨rfl, here⟩)⟩
    · rintro (set | ⟨r', refers⟩)
      · exact .inl (.inl set)
      · rcases (adds r' c).mp refers with old | ⟨-, here⟩
        · exact .inl (.inr ⟨r', old⟩)
        · exact .inr here
  case apart =>
    intro r' c refers set
    rcases (adds r' c).mp refers with old | ⟨-, rfl⟩
    · exact ledger.apart r' c old set
    · exact unmarked ((ledger.marked_iff c).mpr (.inl set))
  case once =>
    intro r₁ r₂ c refers₁ refers₂
    rcases (adds r₁ c).mp refers₁ with old₁ | ⟨rfl, rfl⟩
    · rcases (adds r₂ c).mp refers₂ with old₂ | ⟨-, rfl⟩
      · exact ledger.once r₁ r₂ c old₁ old₂
      · exact absurd old₁ (fresh r₁)
    · rcases (adds r₂ c).mp refers₂ with old₂ | ⟨rfl, -⟩
      · exact absurd old₂ (fresh r₂)
      · rfl

/-- A reference is removed with the mark of its item. -/
theorem remove {r : ρ} {b : β} (refers : refs r b)
    (only : ∀ c, refs r c → c = b) (marks : ∀ c, marked' c ↔ marked c ∧ c ≠ b)
    (removes : ∀ r' c, refs' r' c ↔ refs r' c ∧ r' ≠ r) : Ledger marked' reserved refs' := by
  constructor
  case marked_iff =>
    intro c
    rw [marks, ledger.marked_iff]
    constructor
    · rintro ⟨set | ⟨r', old⟩, elsewhere⟩
      · exact .inl set
      · refine .inr ⟨r', (removes r' c).mpr ⟨old, ?_⟩⟩
        rintro rfl
        exact elsewhere (only c old)
    · rintro (set | ⟨r', kept⟩)
      · refine ⟨.inl set, ?_⟩
        rintro rfl
        exact ledger.apart r c refers set
      · obtain ⟨old, other⟩ := (removes r' c).mp kept
        refine ⟨.inr ⟨r', old⟩, ?_⟩
        rintro rfl
        exact other (ledger.once r' r c old refers)
  case apart => exact fun r' c kept => ledger.apart r' c ((removes r' c).mp kept).1
  case once =>
    exact fun r₁ r₂ c kept₁ kept₂ =>
      ledger.once r₁ r₂ c ((removes r₁ c).mp kept₁).1 ((removes r₂ c).mp kept₂).1

end Ledger

/-- The reserved items and those of the references are marked, and the references are all
different. -/
structure Cover (marked reserved : β → Prop) (refs : ρ → β → Prop) : Prop where
  /-- The reserved items are marked. -/
  marked_reserved : ∀ b, reserved b → marked b
  /-- So are the items of the references. -/
  marked_refs : ∀ r b, refs r b → marked b
  /-- No reference to a reserved item. -/
  apart : ∀ r b, refs r b → ¬reserved b
  /-- No two references to an item. -/
  once : ∀ r r' b, refs r b → refs r' b → r = r'

namespace Cover

variable {marked marked' reserved : β → Prop} {refs refs' : ρ → β → Prop}

/-- A cover is the ledger of what is in use. -/
theorem ledger (cover : Cover marked reserved refs) :
    Ledger (fun b => reserved b ∨ ∃ r, refs r b) reserved refs :=
  ⟨fun _ => Iff.rfl, cover.apart, cover.once⟩

/-- What is in use is marked. -/
theorem used (cover : Cover marked reserved refs) {b : β} (used : reserved b ∨ ∃ r, refs r b) :
    marked b := by
  rcases used with set | ⟨r, refers⟩
  · exact cover.marked_reserved b set
  · exact cover.marked_refs r b refers

/-- Marks that are accounted for cover the items in use. -/
theorem of_ledger (ledger : Ledger marked reserved refs) : Cover marked reserved refs :=
  ⟨fun b set => (ledger.marked_iff b).mpr (.inl set), fun _ _ => ledger.marked_of_refs,
    ledger.apart, ledger.once⟩

/-- The same marks and fewer references. -/
theorem sub (cover : Cover marked reserved refs) (marks : ∀ b, marked' b ↔ marked b)
    (fewer : ∀ r b, refs' r b → refs r b) : Cover marked' reserved refs' :=
  ⟨fun b set => (marks b).mpr (cover.marked_reserved b set),
    fun r b refers => (marks b).mpr (cover.marked_refs r b (fewer r b refers)),
    fun r b refers => cover.apart r b (fewer r b refers),
    fun r r' b refers refers' => cover.once r r' b (fewer r b refers) (fewer r' b refers')⟩

/-- A new reference to an unmarked item, which is marked for it. -/
theorem add (cover : Cover marked reserved refs) {r : ρ} {b : β} (unmarked : ¬marked b)
    (marks : ∀ c, marked' c ↔ marked c ∨ c = b)
    (adds : ∀ r' c, refs' r' c ↔ refs r' c ∨ r' = r ∧ c = b) : Cover marked' reserved refs' := by
  have unused : ¬(reserved b ∨ ∃ r', refs r' b) := fun inUse => unmarked (cover.used inUse)
  obtain ⟨inUse, apart, once⟩ := cover.ledger.add unused (fun _ => Iff.rfl) adds
  refine ⟨fun c set => (marks c).mpr (.inl (cover.marked_reserved c set)),
    fun r' c refers => ?_, apart, once⟩
  rcases (adds r' c).mp refers with old | ⟨-, here⟩
  · exact (marks c).mpr (.inl (cover.marked_refs r' c old))
  · exact (marks c).mpr (.inr here)

end Cover

end Lib
