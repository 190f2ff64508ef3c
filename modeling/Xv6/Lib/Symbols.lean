import Mathlib.Computability.Language

/-!
# Languages of single symbols

What a product does with the first symbol of a word when its first factor takes one symbol, or any
number of symbols, of a set.
-/

namespace Lib

open scoped Computability

variable {α : Type*} {S : Set α} {l : Language α} {t : α} {w : List α}

/-- The words of one symbol of a set. -/
def symbols (S : Set α) : Language α := { w | ∃ t ∈ S, w = [t] }

/-- Words over some symbols. -/
theorem mem_symbols_kstar : w ∈ (symbols S)∗ ↔ ∀ t ∈ w, t ∈ S := by
  rw [Language.mem_kstar]
  constructor
  · rintro ⟨words, rfl, each⟩ t inside
    obtain ⟨word, present, inside⟩ := List.mem_flatten.mp inside
    obtain ⟨u, taken, rfl⟩ := each word present
    rw [List.mem_singleton.mp inside]
    exact taken
  · intro each
    refine ⟨w.map fun t => [t], ?_, ?_⟩
    · rw [← List.flatMap_def, List.flatMap_singleton']
    · intro word present
      obtain ⟨t, inside, rfl⟩ := List.mem_map.mp present
      exact ⟨t, each t inside, rfl⟩

/-- A word that begins with a symbol is not empty. -/
theorem nil_notMem_symbols_mul : [] ∉ symbols S * l := by
  rintro ⟨_, ⟨t, _, rfl⟩, rest, _, joined⟩
  exact List.cons_ne_nil t rest joined

/-- It begins with one of them. -/
theorem cons_mem_symbols_mul : t :: w ∈ symbols S * l ↔ t ∈ S ∧ w ∈ l := by
  constructor
  · rintro ⟨_, ⟨u, taken, rfl⟩, rest, inside, joined⟩
    obtain ⟨rfl, rfl⟩ := List.cons.inj joined
    exact ⟨taken, inside⟩
  · rintro ⟨taken, inside⟩
    have first : [t] ∈ symbols S := ⟨t, taken, rfl⟩
    exact Language.append_mem_mul first inside

/-- Any number of symbols, then a word of the language: no symbol, or one more. -/
theorem symbols_kstar_mul : (symbols S)∗ * l = l + symbols S * ((symbols S)∗ * l) := by
  conv_lhs => rw [← Language.one_add_self_mul_kstar_eq_kstar]
  rw [add_mul, one_mul, mul_assoc]

/-- No symbol need stand before a word. -/
theorem nil_mem_symbols_kstar_mul : [] ∈ (symbols S)∗ * l ↔ [] ∈ l := by
  rw [symbols_kstar_mul, Language.mem_add]
  exact or_iff_left nil_notMem_symbols_mul

/-- Otherwise one does, and then others may. -/
theorem cons_mem_symbols_kstar_mul :
    t :: w ∈ (symbols S)∗ * l ↔ t :: w ∈ l ∨ t ∈ S ∧ w ∈ (symbols S)∗ * l := by
  conv_lhs => rw [symbols_kstar_mul, Language.mem_add, cons_mem_symbols_mul]

end Lib
