import Mathlib.Tactic.Common

/-!
# Labelled transition systems and their histories

A system moves by a partial step function: a label that is not enabled gives no next state. A
history is the list of labels taken since an initial state, latest first, so that a statement
about the past of a state is a recursion on the list. An invariant may speak about the history
together with the state it leads to. A history within a contract is one whose steps each meet a
condition on the past, the state and the label.
-/

namespace Lib

/-- A state with the labels that led to it from an initial state, latest first. -/
inductive History {σ ε : Type} (init : σ → Prop) (step : σ → ε → Option σ) :
    List ε → σ → Prop where
  /-- The empty history of an initial state. -/
  | nil {s : σ} (start : init s) : History init step [] s
  | cons {past : List ε} {s t : σ} {label : ε} (before : History init step past s)
      (taken : step s label = some t) : History init step (label :: past) t

/-- Take labels in order, oldest first. -/
def replay {σ ε : Type} (step : σ → ε → Option σ) : List ε → σ → Option σ
  | [], s => some s
  | label :: rest, s => (step s label).bind (replay step rest)

namespace History

variable {σ ε : Type} {init : σ → Prop} {step : σ → ε → Option σ}

variable {past recent labels : List ε} {s t : σ}

/-- What holds at the start and is kept by every step holds after every history. -/
theorem invariant (holds : List ε → σ → Prop) (start : ∀ s, init s → holds [] s)
    (keep : ∀ past s t label, History init step past s → holds past s →
      step s label = some t → holds (label :: past) t) (history : History init step past s) :
    holds past s := by
  induction history with
  | nil first => exact start _ first
  | cons before taken ih => exact keep _ _ _ _ before ih taken

/-- Every earlier part of a history is a history. -/
theorem suffix (history : History init step (recent ++ past) t) :
    ∃ s, History init step past s := by
  induction recent generalizing t with
  | nil => exact ⟨t, history⟩
  | cons label recent ih =>
    cases history with
    | cons before _ => exact ih before

/-- What holds after an earlier part and is kept by each later step holds at the end. -/
theorem since (history : History init step (recent ++ past) t) (holds : σ → Prop)
    (start : ∀ s, History init step past s → holds s)
    (keep : ∀ label ∈ recent, ∀ earlier s t, History init step (earlier ++ past) s → holds s →
      step s label = some t → holds t) : holds t := by
  induction recent generalizing t with
  | nil => exact start t history
  | cons label recent ih =>
    cases history with
    | @cons _ s _ _ before taken =>
      have held : holds s := ih before fun later member => keep later (.tail _ member)
      exact keep label (.head _) recent s t before held taken

/-- Labels replayed from the state of a history extend it. -/
theorem replay (history : History init step past s) (replayed : Lib.replay step labels s = some t) :
    History init step (labels.reverse ++ past) t := by
  induction labels generalizing past s with
  | nil =>
    obtain rfl := Option.some.inj replayed
    exact history
  | cons label labels ih =>
    obtain ⟨middle, taken, rest⟩ := Option.bind_eq_some_iff.mp replayed
    rw [List.reverse_cons, List.append_assoc]
    exact ih (history.cons taken) rest

/-- A replay from an initial state that ends well is a history. -/
theorem of_replay {holds : σ → Bool} (start : init s)
    (run : (Lib.replay step labels s).any holds = true) :
    ∃ t, History init step labels.reverse t ∧ holds t = true := by
  obtain ⟨t, replayed, held⟩ := (Option.any_eq_true _ _).mp run
  refine ⟨t, ?_, held⟩
  have fresh : History init step [] s := .nil start
  have history := fresh.replay replayed
  rwa [List.append_nil] at history

end History

/-- A history whose every step meets a condition. -/
inductive Within {σ ε : Type} (init : σ → Prop) (step : σ → ε → Option σ)
    (meets : List ε → σ → ε → Prop) : List ε → σ → Prop where
  /-- The empty history of an initial state. -/
  | nil {s : σ} (start : init s) : Within init step meets [] s
  /-- One more step that meets the condition. -/
  | cons {past : List ε} {s t : σ} {label : ε} (before : Within init step meets past s)
      (met : meets past s label) (taken : step s label = some t) :
      Within init step meets (label :: past) t

/-- Take labels in order, as long as each meets a condition. -/
def replayWithin {σ ε : Type} (step : σ → ε → Option σ) (meets : List ε → σ → ε → Prop)
    [∀ past s label, Decidable (meets past s label)] : List ε → List ε → σ → Option σ
  | [], _, s => some s
  | label :: rest, past, s =>
    if meets past s label then (step s label).bind (replayWithin step meets rest (label :: past))
    else none

namespace Within

variable {σ ε : Type} {init : σ → Prop} {step : σ → ε → Option σ} {meets : List ε → σ → ε → Prop}

variable {past labels : List ε} {s : σ}

/-- What holds at the start and is kept by every step that meets the condition holds after every
history within it. -/
theorem invariant (holds : List ε → σ → Prop) (start : ∀ s, init s → holds [] s)
    (keep : ∀ past s t label, holds past s → meets past s label → step s label = some t →
      holds (label :: past) t) (within : Within init step meets past s) : holds past s := by
  induction within with
  | nil first => exact start _ first
  | cons before met taken ih => exact keep _ _ _ _ ih met taken

/-- A run with conditions is a run. -/
theorem history (within : Within init step meets past s) : History init step past s := by
  induction within with
  | nil first => exact .nil first
  | cons before met taken ih => exact .cons ih taken

/-- A history within a condition is one within a weaker condition. -/
theorem imp {meets' : List ε → σ → ε → Prop}
    (weaker : ∀ past s label, meets past s label → meets' past s label)
    (within : Within init step meets past s) : Within init step meets' past s := by
  induction within with
  | nil first => exact .nil first
  | cons before met taken ih => exact .cons ih (weaker _ _ _ met) taken

/-- Every history is one within a condition that always holds. -/
theorem of_history (always : ∀ past s label, meets past s label)
    (history : History init step past s) : Within init step meets past s := by
  induction history with
  | nil first => exact .nil first
  | cons before taken ih => exact .cons ih (always _ _ _) taken

/-- Labels replayed within the condition extend a history. -/
theorem replay [∀ past s label, Decidable (meets past s label)] {t : σ}
    (within : Within init step meets past s)
    (replayed : replayWithin step meets labels past s = some t) :
    Within init step meets (labels.reverse ++ past) t := by
  induction labels generalizing past s with
  | nil =>
    obtain rfl := Option.some.inj replayed
    exact within
  | cons label labels ih =>
    unfold replayWithin at replayed
    split at replayed
    · rename_i met
      obtain ⟨middle, taken, rest⟩ := Option.bind_eq_some_iff.mp replayed
      rw [List.reverse_cons, List.append_assoc]
      exact ih (within.cons met taken) rest
    · cases replayed

/-- A replay within the condition from an initial state that ends well is a history within it. -/
theorem of_replay [∀ past s label, Decidable (meets past s label)] {holds : σ → Bool}
    (start : init s) (run : (replayWithin step meets labels [] s).any holds = true) :
    ∃ t, Within init step meets labels.reverse t ∧ holds t = true := by
  obtain ⟨t, replayed, held⟩ := (Option.any_eq_true _ _).mp run
  refine ⟨t, ?_, held⟩
  have fresh : Within init step meets [] s := .nil start
  have within := fresh.replay replayed
  rwa [List.append_nil] at within

end Within

end Lib
