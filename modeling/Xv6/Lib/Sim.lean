import Xv6.Lib.Wp

/-!
# Programs that run alike

Two programs run alike when they take related states to related states with one result, or stop with
one message. The rules take both programs apart from the front. What one of them ensures, the other
ensures up to the relation: so a program that does not look at a part of the state ensures the same
whatever that part is.
-/

namespace Lib

variable {σ τ α β : Type} {rel : σ → τ → Prop}

/-- Two outcomes with one result, or with one message. -/
inductive Alike (rel : σ → τ → Prop) : Except String (α × σ) → Except String (α × τ) → Prop where
  | ends {a : α} {s : σ} {t : τ} (related : rel s t) : Alike rel (.ok (a, s)) (.ok (a, t))
  | stops {message : String} : Alike rel (.error message) (.error message)

/-- From related states the programs have the same outcome. -/
def Sim (rel : σ → τ → Prop) (prog : Prog σ α) (prog' : Prog τ α) : Prop :=
  ∀ s t, rel s t → Alike rel (prog s) (prog' t)

namespace Sim

/-- Both return a value. -/
theorem pure {a : α} : Sim rel (Pure.pure a) (Pure.pure a) :=
  fun _ _ related => .ends related

/-- One program after another. -/
theorem bind {prog : Prog σ α} {prog' : Prog τ α} {rest : α → Prog σ β} {rest' : α → Prog τ β}
    (first : Sim rel prog prog') (after : ∀ a, Sim rel (rest a) (rest' a)) :
    Sim rel (prog >>= rest) (prog' >>= rest') := by
  intro s t related
  have same := first s t related
  have unfolded : (prog >>= rest) s = (prog s >>= fun (a, s) => rest a s) := rfl
  have unfolded' : (prog' >>= rest') t = (prog' t >>= fun (a, t) => rest' a t) := rfl
  rw [unfolded, unfolded']
  generalize prog s = outcome, prog' t = outcome' at same
  cases same with
  | ends related' => exact after _ _ _ related'
  | stops => exact .stops

/-- Both read their states. -/
theorem get {rest : σ → Prog σ β} {rest' : τ → Prog τ β}
    (after : ∀ s t, rel s t → Sim rel (rest s) (rest' t)) :
    Sim rel (MonadState.get >>= rest) (MonadState.get >>= rest') :=
  fun s t related => after s t related s t related

/-- Both change their states. -/
theorem modify {change : σ → σ} {change' : τ → τ}
    (kept : ∀ s t, rel s t → rel (change s) (change' t)) :
    Sim rel (MonadStateOf.modifyGet fun s => (⟨⟩, change s) : Prog σ PUnit)
      (MonadStateOf.modifyGet fun t => (⟨⟩, change' t)) :=
  fun s t related => .ends (kept s t related)

/-- Both stop. -/
theorem throw {message : String} :
    Sim rel (MonadExcept.throw message : Prog σ α) (MonadExcept.throw message) :=
  fun _ _ _ => .stops

/-- A choice that does not depend on the state. -/
theorem ite {c : Prop} [Decidable c] {yes no : Prog σ α} {yes' no' : Prog τ α}
    (holds : c → Sim rel yes yes') (fails : ¬c → Sim rel no no') :
    Sim rel (if c then yes else no) (if c then yes' else no') := by
  split
  · exact holds ‹c›
  · exact fails ‹¬c›

end Sim

/-- What a program ensures, a program that runs alike ensures of a related state. -/
theorem Wp.sim {stops : String → Prop} {prog : Prog σ α} {prog' : Prog τ α}
    {post : α → σ → Prop} {s : σ} {t : τ} (wp : Wp stops prog post s) (alike : Sim rel prog prog')
    (related : rel s t) : Wp stops prog' (fun a t' => ∃ s', post a s' ∧ rel s' t') t := by
  have same := alike s t related
  unfold Wp at wp ⊢
  generalize prog s = outcome, prog' t = outcome' at same wp
  cases same with
  | ends related' => exact ⟨_, wp, related'⟩
  | stops => exact wp

end Lib
