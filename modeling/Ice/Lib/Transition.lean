import Mathlib.Logic.Relation
import Mathlib.Data.List.Basic

/-!
# Runs of a partial step function

A transition system is a function `step : σ → α → Option σ`: in state `s` the action `a` is either
not enabled or leads to one state. Everything here is about arbitrary states and actions.
-/

namespace Transition

variable {σ α : Type*}

def provided (p : Prop) [Decidable p] (next : σ) : Option σ := if p then some next else none

@[simp] theorem provided_eq_some {p : Prop} [Decidable p] {next t : σ} :
    provided p next = some t ↔ p ∧ next = t := by
  unfold provided
  split <;> simp_all

@[simp] theorem provided_eq_none {p : Prop} [Decidable p] {next : σ} :
    provided p next = none ↔ ¬ p := by
  unfold provided
  split <;> simp_all

theorem provided_map {p : Prop} [Decidable p] {next : σ} {f : σ → α} :
    (provided p next).map f = provided p (f next) := by
  unfold provided
  split <;> rfl

/-- The states that `step` reaches from `s` by actions that meet `guard` where they are taken. -/
inductive Reaches (step : σ → α → Option σ) (guard : σ → α → Prop) (s : σ) : σ → Prop where
  | refl : Reaches step guard s s
  | tail {t u : σ} {a : α} : Reaches step guard s t → guard t a → step t a = some u →
      Reaches step guard s u

abbrev Reachable (step : σ → α → Option σ) (s t : σ) : Prop := Reaches step (fun _ _ => True) s t

section Reaching
variable {step : σ → α → Option σ} {guard weaker : σ → α → Prop} {inv : σ → Prop} {s t u : σ}

theorem Reaches.mono (implies : ∀ s a, guard s a → weaker s a) (reached : Reaches step guard s t) :
    Reaches step weaker s t := by
  induction reached with
  | refl => exact .refl
  | tail _ met action ih => exact .tail ih (implies _ _ met) action

theorem Reaches.reachable (reached : Reaches step guard s t) : Reachable step s t :=
  reached.mono fun _ _ _ => trivial

theorem Reaches.trans (first : Reaches step guard s t) (second : Reaches step guard t u) :
    Reaches step guard s u := by
  induction second with
  | refl => exact first
  | tail _ met action ih => exact .tail ih met action

theorem Reaches.single {a : α} (met : guard s a) (action : step s a = some t) :
    Reaches step guard s t :=
  .tail .refl met action

theorem Reaches.invariant (reached : Reaches step guard s t) (start : inv s)
    (kept : ∀ s a t, inv s → guard s a → step s a = some t → inv t) : inv t := by
  induction reached with
  | refl => exact start
  | tail _ met action ih => exact kept _ _ _ ih met action

end Reaching

/-! ## Runs as lists of actions -/

def exec (step : σ → α → Option σ) : σ → List α → Option σ
  | s, [] => some s
  | s, a :: actions => (step s a).bind fun t => exec step t actions

def Always (step : σ → α → Option σ) (holds : σ → Prop) : σ → List α → Prop
  | s, [] => holds s
  | s, a :: actions => holds s ∧ ∀ t, step s a = some t → Always step holds t actions

/-- `guard` at every action of the run, in the state where the action is taken. -/
def AlwaysMeets (step : σ → α → Option σ) (guard : σ → α → Prop) : σ → List α → Prop
  | _, [] => True
  | s, a :: actions => guard s a ∧ ∀ t, step s a = some t → AlwaysMeets step guard t actions

instance decidableAlwaysMeets (step : σ → α → Option σ) (guard : σ → α → Prop)
    [∀ s a, Decidable (guard s a)] :
    ∀ (s : σ) (actions : List α), Decidable (AlwaysMeets step guard s actions)
  | _, [] => .isTrue trivial
  | s, a :: actions =>
      match action : step s a with
      | none => decidable_of_iff (guard s a)
          ⟨fun met => ⟨met, fun _ taken => nomatch action.symm.trans taken⟩, And.left⟩
      | some t =>
          have := decidableAlwaysMeets step guard t actions
          decidable_of_iff (guard s a ∧ AlwaysMeets step guard t actions)
            ⟨fun ⟨met, rest⟩ => ⟨met, fun _ taken =>
              Option.some.inj (action.symm.trans taken) ▸ rest⟩,
            fun ⟨met, rest⟩ => ⟨met, rest t action⟩⟩

section Running
variable {step : σ → α → Option σ} {guard : σ → α → Prop} {holds : σ → Prop} {s t : σ}
  {a : α} {actions : List α}

@[simp] theorem exec_nil : exec step s [] = some s := rfl

theorem exec_cons : exec step s (a :: actions) = some t ↔
    ∃ u, step s a = some u ∧ exec step u actions = some t := by
  simp [exec, Option.bind_eq_some_iff]

theorem AlwaysMeets.reaches (meets : AlwaysMeets step guard s actions)
    (run : exec step s actions = some t) : Reaches step guard s t := by
  induction actions generalizing s with
  | nil => cases run; exact .refl
  | cons a actions ih =>
      obtain ⟨u, action, rest⟩ := exec_cons.mp run
      exact (Reaches.single meets.1 action).trans (ih (meets.2 u action) rest)

theorem AlwaysMeets.at {before after : List α}
    (meets : AlwaysMeets step guard s (before ++ a :: after))
    (run : exec step s before = some t) : guard t a := by
  induction before generalizing s with
  | nil => cases run; exact meets.1
  | cons b before ih =>
      obtain ⟨u, action, rest⟩ := exec_cons.mp run
      exact ih (meets.2 u action) rest

theorem alwaysMeets_of_forall (met : ∀ a ∈ actions, ∀ s, guard s a) :
    AlwaysMeets step guard s actions := by
  induction actions generalizing s with
  | nil => trivial
  | cons a actions ih =>
      exact ⟨met a (by simp) s, fun t _ => ih fun b member => met b (by simp [member])⟩

theorem exec_reaches (run : exec step s actions = some t)
    (met : ∀ a ∈ actions, ∀ s, guard s a) : Reaches step guard s t :=
  (alwaysMeets_of_forall met).reaches run

theorem exec_reachable (run : exec step s actions = some t) : Reachable step s t :=
  exec_reaches run fun _ _ _ => trivial

theorem alwaysMeets_iff_forall {allowed : α → Prop} (run : exec step s actions = some t) :
    AlwaysMeets step (fun _ a => allowed a) s actions ↔ ∀ a ∈ actions, allowed a := by
  refine ⟨fun meets => ?_, fun met => alwaysMeets_of_forall fun a member _ => met a member⟩
  induction actions generalizing s with
  | nil => simp
  | cons a actions ih =>
      obtain ⟨u, action, rest⟩ := exec_cons.mp run
      intro b member
      rcases List.mem_cons.mp member with rfl | member
      · exact meets.1
      · exact ih rest (meets.2 u action) b member

theorem Always.first (always : Always step holds s actions) : holds s := by
  cases actions with
  | nil => exact always
  | cons a actions => exact always.1

theorem Always.last (always : Always step holds s actions) (run : exec step s actions = some t) :
    holds t := by
  induction actions generalizing s with
  | nil => cases run; exact always
  | cons a actions ih =>
      obtain ⟨u, action, rest⟩ := exec_cons.mp run
      exact ih (always.2 u action) rest

/-- Where each single step keeps `holds` exactly when it meets the guard, a run keeps `holds`
throughout exactly when all its steps meet the guard. The invariant may be lost with `holds`. -/
theorem always_iff_alwaysMeets_while {allowed : α → Prop} (inv : σ → Prop)
    (run : exec step s actions = some t) (each : ∀ a ∈ actions, allowed a) (start : inv s)
    (first : holds s)
    (kept : ∀ s a t, allowed a → inv s → holds s → step s a = some t → holds t → inv t)
    (stepwise : ∀ s a t, allowed a → inv s → holds s → step s a = some t →
      (holds t ↔ guard s a)) :
    Always step holds s actions ↔ AlwaysMeets step guard s actions := by
  induction actions generalizing s with
  | nil => simpa [Always, AlwaysMeets] using first
  | cons a actions ih =>
      obtain ⟨u, action, rest⟩ := exec_cons.mp run
      have only : ∀ v, step s a = some v → v = u := fun v h => Option.some.inj (h.symm.trans action)
      obtain ⟨here, later⟩ := List.forall_mem_cons.mp each
      constructor
      · intro always
        have next := always.2 u action
        refine ⟨(stepwise s a u here start first action).mp next.first, fun v h => ?_⟩
        rw [only v h]
        exact (ih rest later (kept s a u here start first action next.first) next.first).mp next
      · intro meets
        refine ⟨first, fun v h => ?_⟩
        rw [only v h]
        have next := (stepwise s a u here start first action).mpr meets.1
        exact (ih rest later (kept s a u here start first action next) next).mpr (meets.2 u action)

theorem always_iff_alwaysMeets_of {allowed : α → Prop} (inv : σ → Prop)
    (run : exec step s actions = some t) (each : ∀ a ∈ actions, allowed a) (start : inv s)
    (first : holds s) (kept : ∀ s a t, allowed a → inv s → step s a = some t → inv t)
    (stepwise : ∀ s a t, allowed a → inv s → holds s → step s a = some t →
      (holds t ↔ guard s a)) :
    Always step holds s actions ↔ AlwaysMeets step guard s actions :=
  always_iff_alwaysMeets_while inv run each start first
    (fun s a t allowed inv _ action _ => kept s a t allowed inv action) stepwise

theorem always_iff_alwaysMeets (inv : σ → Prop) (run : exec step s actions = some t)
    (start : inv s) (first : holds s) (kept : ∀ s a t, inv s → step s a = some t → inv t)
    (stepwise : ∀ s a t, inv s → holds s → step s a = some t → (holds t ↔ guard s a)) :
    Always step holds s actions ↔ AlwaysMeets step guard s actions :=
  always_iff_alwaysMeets_of inv run (fun _ _ => trivial) start first
    (fun s a t _ => kept s a t) fun s a t _ => stepwise s a t

end Running

end Transition
