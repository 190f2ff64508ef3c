import Mathlib.Tactic.Common

/-!
# Postconditions of programs that may stop

A program takes a state to a result and a new state, or stops with a message. `Wp stops prog post s`
says that from `s` the program ends in a state with `post`, or stops with a message that `stops`
allows. The rules take a program apart from the front: what a call ensures becomes a hypothesis
about the state the rest starts from.
-/

namespace Lib

/-- A program over a state, which may stop with a message. -/
abbrev Prog (σ α : Type) : Type := StateT σ (Except String) α

variable {σ α β : Type} {stops : String → Prop} {s : σ}

/-- From `s` the program ends with `post`, or stops with an allowed message. -/
@[irreducible]
def Wp (stops : String → Prop) (prog : Prog σ α) (post : α → σ → Prop) (s : σ) : Prop :=
  match prog s with
  | .ok (a, t) => post a t
  | .error message => stops message

namespace Wp

variable {prog : Prog σ α} {rest : α → Prog σ β} {post : β → σ → Prop}

variable {a : α} {t : σ} {message : String}

/-- A program that ends ends with its postcondition. -/
theorem ok {post : α → σ → Prop} (wp : Wp stops prog post s) (ends : prog s = .ok (a, t)) :
    post a t := by
  rw [Wp, ends] at wp
  exact wp

/-- A program that ends with the postcondition. -/
theorem of_ok {post : α → σ → Prop} (ends : prog s = .ok (a, t)) (done : post a t) :
    Wp stops prog post s := by
  rw [Wp, ends]
  exact done

/-- A program that stops does so with an allowed message. -/
theorem error {post : α → σ → Prop} (wp : Wp stops prog post s)
    (stopped : prog s = .error message) : stops message := by
  rw [Wp, stopped] at wp
  exact wp

/-- A program that may not stop ends. -/
theorem ends {post : α → σ → Prop} (wp : Wp (fun _ => False) prog post s) :
    ∃ a t, prog s = .ok (a, t) ∧ post a t := by
  unfold Wp at wp
  split at wp
  · rename_i a t ends
    exact ⟨a, t, ends, wp⟩
  · exact wp.elim

/-- What evaluation finds out about a program that ends. -/
theorem exists_ok {holds : α × σ → Bool} (run : (prog s).toOption.any holds = true) :
    ∃ a t, prog s = .ok (a, t) ∧ holds (a, t) = true := by
  cases ends : prog s with
  | ok result =>
    rw [ends] at run
    exact ⟨_, _, rfl, run⟩
  | error => simp [ends, Except.toOption] at run

/-- What evaluation finds out about a program that stops. -/
theorem eq_error (run : (match prog s with
    | .ok _ => none
    | .error message => some message) = some message) : prog s = .error message := by
  split at run
  · cases run
  · rw [← Option.some.inj run]
    assumption

/-- A program that cannot end stops with the only message that is allowed. -/
theorem stopped {message : String} (wp : Wp (· = message) prog (fun _ _ => False) s) :
    prog s = .error message := by
  unfold Wp at wp
  split at wp
  · exact wp.elim
  · rename_i ends
    exact wp ▸ ends

/-- Nothing is said. -/
theorem trivial : Wp (fun _ => True) prog (fun _ _ => True) s := by
  unfold Wp
  split <;> exact True.intro

/-- A weaker result. -/
theorem mono {post post' : α → σ → Prop} (wp : Wp stops prog post s)
    (weaker : ∀ a t, post a t → post' a t) : Wp stops prog post' s := by
  unfold Wp at wp ⊢
  split
  · rename_i a t ends
    rw [ends] at wp
    exact weaker a t wp
  · rename_i message ends
    rw [ends] at wp
    exact wp

/-- One program after another. -/
theorem bind {mid : α → σ → Prop} (wp : Wp stops prog mid s)
    (after : ∀ a t, mid a t → Wp stops (rest a) post t) : Wp stops (prog >>= rest) post s := by
  have unfolded : (prog >>= rest) s = (prog s >>= fun (a, t) => rest a t) := rfl
  unfold Wp at wp
  rw [Wp, unfolded]
  cases ends : prog s with
  | ok result =>
    obtain ⟨a, t⟩ := result
    rw [ends] at wp
    have later := after a t wp
    rw [Wp] at later
    exact later
  | error message =>
    rw [ends] at wp
    exact wp

/-- A value is returned. -/
theorem pure {post : α → σ → Prop} (done : post a s) :
    Wp stops (Pure.pure a : Prog σ α) post s := by
  rw [Wp]
  exact done

/-- The state is read. -/
theorem get {rest : σ → Prog σ β} (after : Wp stops (rest s) post s) :
    Wp stops (MonadState.get >>= rest) post s := by
  rw [Wp] at after ⊢
  exact after

/-- The state is set. -/
theorem set {rest : PUnit → Prog σ β} (after : Wp stops (rest ⟨⟩) post t) :
    Wp stops (MonadStateOf.set t >>= rest) post s := by
  rw [Wp] at after ⊢
  exact after

/-- The state is changed. -/
theorem modify {change : σ → σ} :
    Wp stops (MonadStateOf.modifyGet fun s => (⟨⟩, change s) : Prog σ PUnit)
      (fun _ t => t = change s) s := by
  rw [Wp]
  rfl

/-- The state is changed, and a value returned. -/
theorem modifyGet {change : σ → α × σ} :
    Wp stops (MonadStateOf.modifyGet change : Prog σ α)
      (fun a t => a = (change s).1 ∧ t = (change s).2) s := by
  rw [Wp]
  exact ⟨rfl, rfl⟩

/-- A program stops with a message that is allowed. -/
theorem throw {post : α → σ → Prop} (allowed : stops message) :
    Wp stops (MonadExcept.throw message : Prog σ α) post s := by
  rw [Wp]
  exact allowed

/-- What follows it is not run. -/
theorem throw_bind (allowed : stops message) :
    Wp stops ((MonadExcept.throw message : Prog σ α) >>= rest) post s := by
  rw [Wp]
  exact allowed

/-- Both branches are right. -/
theorem ite {condition : Prop} [Decidable condition] {first second : Prog σ β}
    (yes : condition → Wp stops first post s) (no : ¬condition → Wp stops second post s) :
    Wp stops (if condition then first else second) post s := by
  split
  · exact yes ‹_›
  · exact no ‹_›

end Wp

end Lib
