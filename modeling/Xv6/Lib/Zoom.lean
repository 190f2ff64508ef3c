import Xv6.Lib.Wp

/-!
# Programs on a part of the state

A layer of a system has a state of its own, and the layer above adds fields to it. `zoom` runs a
program of the lower layer on its part of the state; the other fields stay as they are.
-/

namespace Lib

variable {σ τ α : Type}

/-- Run a program on a part of the state. -/
def zoom (get : σ → τ) (set : σ → τ → σ) (prog : Prog τ α) : Prog σ α := fun s =>
  match prog (get s) with
  | .ok (a, t) => .ok (a, set s t)
  | .error message => .error message

/-- What the program ensures holds of its part. -/
theorem Wp.zoom {stops : String → Prop} {get : σ → τ} {set : σ → τ → σ} {prog : Prog τ α}
    {post : α → τ → Prop} {s : σ} (wp : Wp stops prog post (get s)) :
    Wp stops (zoom get set prog) (fun a t => ∃ part, post a part ∧ t = set s part) s := by
  unfold Wp at wp ⊢
  unfold Lib.zoom
  cases ends : prog (get s) with
  | ok result =>
    rw [ends] at wp
    exact ⟨result.2, wp, rfl⟩
  | error message =>
    rw [ends] at wp
    exact wp

end Lib
