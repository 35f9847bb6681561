import Ice.Lib.Transition

namespace Transition

variable {σ τ α β : Type*} {step : σ → α → Option σ} {spec : τ → β → Option τ}
  {shows : σ → α → List β} {rel : σ → τ → Prop} {s t : σ} {u v : τ}

theorem exec_append {first second : List β} :
    exec spec u (first ++ second) = (exec spec u first).bind fun w => exec spec w second := by
  induction first generalizing u with
  | nil => rfl
  | cons b first ih =>
      simp only [List.cons_append, exec, Option.bind_assoc]
      exact congrArg _ (funext fun w => ih)

def trace (step : σ → α → Option σ) (shows : σ → α → List β) : σ → List α → List β
  | _, [] => []
  | s, a :: actions => shows s a ++
      match step s a with
      | some t => trace step shows t actions
      | none => []

def Simulates (step : σ → α → Option σ) (spec : τ → β → Option τ) (shows : σ → α → List β)
    (rel : σ → τ → Prop) : Prop :=
  ∀ s u a t, rel s u → step s a = some t → ∃ v, exec spec u (shows s a) = some v ∧ rel t v

theorem Simulates.run {actions : List α} (simulates : Simulates step spec shows rel)
    (related : rel s u) (run : exec step s actions = some t) :
    ∃ v, exec spec u (trace step shows s actions) = some v ∧ rel t v := by
  induction actions generalizing s u with
  | nil =>
      cases run
      exact ⟨u, rfl, related⟩
  | cons a actions ih =>
      obtain ⟨r, action, rest⟩ := exec_cons.mp run
      obtain ⟨w, first, next⟩ := simulates s u a r related action
      obtain ⟨v, second, last⟩ := ih next rest
      refine ⟨v, ?_, last⟩
      rw [trace, action, exec_append, first]
      exact second

theorem Reaches.matched
    (follows : ∀ s u a t, rel s u → step s a = some t → ∃ v, Reachable spec u v ∧ rel t v)
    (related : rel s u) (reached : Reachable step s t) : ∃ v, Reachable spec u v ∧ rel t v := by
  induction reached with
  | refl => exact ⟨u, .refl, related⟩
  | tail _ _ action ih =>
      obtain ⟨w, before, middle⟩ := ih
      obtain ⟨v, after, last⟩ := follows _ w _ _ middle action
      exact ⟨v, before.trans after, last⟩

theorem Simulates.reaches (simulates : Simulates step spec shows rel) (related : rel s u)
    (reached : Reachable step s t) : ∃ v, Reachable spec u v ∧ rel t v := by
  refine Reaches.matched (fun s u a t related action => ?_) related reached
  obtain ⟨v, taken, last⟩ := simulates s u a t related action
  exact ⟨v, exec_reachable taken, last⟩

end Transition
