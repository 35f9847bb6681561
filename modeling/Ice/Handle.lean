import Mathlib.Data.Fintype.Basic
import Mathlib.Data.List.Count
import Mathlib.Data.List.Induction
import Ice.Lib.Place
import Ice.Lib.Transition

namespace Ice
open Transition Place

variable {H α : Type}

namespace Handles

inductive Event (α : Type) where
  | acquired (value : α)
  | released (value : α)
  | closed (value : α)
  deriving DecidableEq, Repr

inductive Action (H α : Type) where
  | default (h : H)
  | construct (h : H) (value : α)
  | moveConstruct (h other : H)
  | moveAssign (temporary h other : H)
  | swap (h other : H)
  | release (h : H)
  | reset (h : H)
  | resetTo (h : H) (value : α)
  | destroy (h : H)
  deriving DecidableEq, Repr

end Handles

/-- The handles that live, with their `value_`, and what has happened to values so far. -/
structure Handles (H α : Type) where
  value : H → Option α := fun _ => none
  history : List (Handles.Event α) := []

namespace Handles

variable [DecidableEq H] [DecidableEq α] {invalid v : α} {s t : Handles H α} {h other : H}

def note (s : Handles H α) (event : Event α) : Handles H α :=
  { s with history := s.history ++ [event] }

def setValue (s : Handles H α) (h : H) (value : Option α) : Handles H α :=
  { s with value := Function.update s.value h value }

section Functions
variable (invalid : α) (s : Handles H α)

def reset (h : H) (value : α) : Handles H α :=
  match s.value h with
  | some old => (if old ≠ invalid then s.note (.closed old) else s).setValue h (some value)
  | none => s.setValue h (some value)

def destroy (h : H) : Handles H α := (reset invalid s h invalid).setValue h none

def swap (h other : H) : Handles H α :=
  (s.setValue other (s.value h)).setValue h (s.value other)

def release (h : H) : Option α × Handles H α := (s.value h, s.setValue h (some invalid))

def moveConstruct (h other : H) : Handles H α :=
  (release invalid s other).2.setValue h (release invalid s other).1

def moveAssign (temporary h other : H) : Handles H α :=
  destroy invalid ((moveConstruct invalid s temporary other).swap temporary h) temporary

def Lives (h : H) : Prop := s.value h ≠ none

instance (h : H) : Decidable (s.Lives h) := inferInstanceAs (Decidable (s.value h ≠ none))

def step : Action H α → Option (Handles H α)
  | .default h => provided (¬ s.Lives h) (s.setValue h (some invalid))
  | .construct h value =>
      provided (¬ s.Lives h) ((s.setValue h (some value)).note (.acquired value))
  | .moveConstruct h other =>
      provided (¬ s.Lives h ∧ s.Lives other) (moveConstruct invalid s h other)
  | .moveAssign temporary h other =>
      provided (¬ s.Lives temporary ∧ s.Lives h ∧ s.Lives other)
        (moveAssign invalid s temporary h other)
  | .swap h other => provided (s.Lives h ∧ s.Lives other) (s.swap h other)
  | .release h =>
      match release invalid s h with
      | (some value, after) => some (after.note (.released value))
      | (none, _) => none
  | .reset h => provided (s.Lives h) (reset invalid s h invalid)
  | .resetTo h value =>
      provided (s.Lives h) ((reset invalid s h value).note (.acquired value))
  | .destroy h => provided (s.Lives h) (destroy invalid s h)

def Fresh : Action H α → Prop
  | .construct _ value | .resetTo _ value => value ≠ invalid → ∀ h, s.value h ≠ some value
  | _ => True

instance [Fintype H] (action : Action H α) : Decidable (Fresh invalid s action) := by
  cases action <;> unfold Fresh <;> infer_instance

end Functions

def copies (s : Handles H α) (v : α) (h : H) : Nat := if s.value h = some v then 1 else 0

/-- What an event does to whether an acquisition of `v` is outstanding: `v` is not acquired again
while one is, and not released or closed while none is. -/
def settle (v : α) (owed : Bool) : Event α → Option Bool
  | .acquired value => if value = v then (if owed then none else some true) else some owed
  | .released value | .closed value =>
      if value = v then (if owed then some false else none) else some owed

def outstanding (v : α) (history : List (Event α)) : Option Bool :=
  history.foldlM (settle v) false

def Settled (s : Handles H α) (v : α) : Prop :=
  (Once (s.copies v) ∧ outstanding v s.history = some true) ∨
    (Nowhere (s.copies v) ∧ outstanding v s.history = some false)

def Accounted (invalid : α) (s : Handles H α) : Prop :=
  (∀ v, v ≠ invalid → s.Settled v) ∧ .closed invalid ∉ s.history

def Idle (invalid : α) (s : Handles H α) (h : H) : Prop := ∀ v, s.value h = some v → v = invalid

omit [DecidableEq H] in
theorem once_copies_iff : Once (s.copies v) ↔ ∃! h, s.value h = some v := by
  constructor
  · rintro ⟨h, here⟩
    refine ⟨h, by simpa [copies] using here.here, fun other owns => ?_⟩
    exact here.unique (by simp [copies, owns])
  · rintro ⟨h, owns, only⟩
    refine ⟨h, by simp [copies, owns], fun other apart => ?_⟩
    exact if_neg fun owned => apart (only other owned)

omit [DecidableEq H] in
theorem nowhere_copies_iff : Nowhere (s.copies v) ↔ ∀ h, s.value h ≠ some v := by
  simp [Nowhere, copies]

@[simp] theorem outstanding_concat (history : List (Event α)) (event : Event α) :
    outstanding v (history ++ [event]) =
      (outstanding v history).bind fun owed => settle v owed event := by
  simp [outstanding]

theorem copies_setValue_self (value : Option α) :
    (s.setValue h value).copies v h = if value = some v then 1 else 0 := by
  simp [copies, setValue]

theorem copies_setValue_other (value : Option α) (apart : other ≠ h) :
    (s.setValue h value).copies v other = s.copies v other := by
  simp [copies, setValue, apart]

omit [DecidableEq H] in
theorem Idle.copies_eq_zero (idle : Idle invalid s h) (valid : v ≠ invalid) :
    s.copies v h = 0 :=
  if_neg fun owns => valid (idle v owns)

omit [DecidableEq H] in
theorem Settled.nowhere_iff (settled : s.Settled v) :
    Nowhere (s.copies v) ↔ outstanding v s.history = some false := by
  rcases settled with ⟨once, owed⟩ | ⟨nowhere, quiet⟩
  · simp [once.not_nowhere, owed]
  · simp [nowhere, quiet]

omit [DecidableEq H] in
theorem Settled.keep (settled : s.Settled v) (same : t.copies v = s.copies v)
    (quiet : outstanding v t.history = outstanding v s.history) : t.Settled v := by
  unfold Settled
  rw [same, quiet]
  exact settled

theorem Accounted.blank (accounted : Accounted invalid s) (idle : Idle invalid s h)
    {value : Option α} (nothing : ∀ v, value = some v → v = invalid) :
    Accounted invalid (s.setValue h value) := by
  constructor
  · intro v valid
    have same : (s.setValue h value).copies v = s.copies v := by
      funext other
      by_cases here : other = h
      · rw [here, copies_setValue_self, idle.copies_eq_zero valid]
        exact if_neg fun owns => valid (nothing v owns)
      · exact copies_setValue_other value here
    exact (accounted.1 v valid).keep same rfl
  · exact accounted.2

theorem Accounted.acquire (accounted : Accounted invalid s) (idle : Idle invalid s h)
    (fresh : v ≠ invalid → ∀ h, s.value h ≠ some v) :
    Accounted invalid ((s.setValue h (some v)).note (.acquired v)) := by
  constructor
  · intro w valid
    by_cases same : v = w
    · subst same
      have nowhere := nowhere_copies_iff.mpr (fresh valid)
      have quiet := (accounted.1 v valid).nowhere_iff.mp nowhere
      left
      constructor
      · exact ⟨h, nowhere.appear (by simp [note, copies, setValue])
          fun other apart => copies_setValue_other (some v) apart⟩
      · simp [note, setValue, quiet, settle]
    · apply (accounted.1 w valid).keep
      · funext other
        by_cases here : other = h
        · rw [here, idle.copies_eq_zero valid]
          simp [note, copies, setValue, same]
        · exact copies_setValue_other (some v) here
      · simp [note, setValue, settle, same]
  · simpa [note, setValue] using accounted.2

theorem Accounted.lose (accounted : Accounted invalid s) (owns : s.value h = some v)
    {event : Event α} (settles : event = .released v ∨ event = .closed v)
    (closes : event ≠ .closed invalid) {value : Option α}
    (nothing : ∀ v, value = some v → v = invalid) :
    Accounted invalid ((s.note event).setValue h value) := by
  constructor
  · intro w valid
    have gone : ((s.note event).setValue h value).copies w h = 0 := by
      rw [copies_setValue_self]
      exact if_neg fun owns => valid (nothing w owns)
    have rest : ∀ other, other ≠ h →
        ((s.note event).setValue h value).copies w other = s.copies w other :=
      fun other apart => copies_setValue_other value apart
    by_cases same : v = w
    · subst same
      have here : s.copies v h = 1 := if_pos owns
      right
      rcases accounted.1 v valid with ⟨once, owed⟩ | ⟨nowhere, _⟩
      · constructor
        · exact AtMostOnce.disappear (.inl once) (by rw [here, gone]) rest
        · rcases settles with rfl | rfl <;> simp [note, setValue, owed, settle]
      · rw [nowhere h] at here
        cases here
    · apply (accounted.1 w valid).keep
      · funext other
        by_cases place : other = h
        · have none : s.copies w h = 0 := if_neg (by simp [owns, same])
          rw [place, none, gone]
        · exact rest other place
      · rcases settles with rfl | rfl <;> simp [note, setValue, settle, same]
  · simp only [note, setValue, List.mem_append, List.mem_singleton]
    rintro (old | new)
    · exact accounted.2 old
    · exact closes new.symm

theorem Accounted.swap (accounted : Accounted invalid s) : Accounted invalid (s.swap h other) := by
  by_cases same : h = other
  · subst same
    have unchanged : s.swap h h = s := by simp [Handles.swap, setValue]
    rw [unchanged]
    exact accounted
  · have first : ∀ w, (s.swap h other).copies w h = s.copies w other := by
      simp [copies, Handles.swap, setValue]
    have second : ∀ w, (s.swap h other).copies w other = s.copies w h := by
      simp [copies, Handles.swap, setValue, Ne.symm same]
    have rest : ∀ w r, r ≠ h → r ≠ other → (s.swap h other).copies w r = s.copies w r := by
      intro w r left right
      simp [copies, Handles.swap, setValue, left, right]
    refine ⟨fun w valid => ?_, accounted.2⟩
    have sum : (s.swap h other).copies w h + (s.swap h other).copies w other =
        s.copies w h + s.copies w other := by
      rw [first, second, Nat.add_comm]
    exact (accounted.1 w valid).imp
      (And.imp_left (Once.move same sum (rest w))) (And.imp_left (Nowhere.move sum (rest w)))

omit [DecidableEq α] in
theorem idle_setValue {value : Option α} (nothing : ∀ v, value = some v → v = invalid) :
    Idle invalid (s.setValue h value) h := by
  intro v owns
  apply nothing v
  simpa [setValue] using owns

theorem reset_idle : Idle invalid (reset invalid s h invalid) h := by
  unfold reset
  split <;> exact idle_setValue (by simp)

theorem Accounted.reset (accounted : Accounted invalid s) :
    Accounted invalid (reset invalid s h invalid) := by
  unfold Handles.reset
  split
  next old owns =>
    split
    · apply accounted.lose owns (.inr rfl)
      all_goals simp_all
    · exact accounted.blank (by simp_all [Idle]) (by simp)
  next dead => exact accounted.blank (by simp [Idle, dead]) (by simp)

theorem Accounted.destroy (accounted : Accounted invalid s) :
    Accounted invalid (destroy invalid s h) :=
  accounted.reset.blank reset_idle (by simp)

omit [DecidableEq α] in
theorem moveConstruct_eq (apart : h ≠ other) :
    moveConstruct invalid s h other = (s.setValue h (some invalid)).swap h other := by
  simp only [moveConstruct, release, Handles.swap, setValue, Function.update_self,
    Function.update_of_ne (Ne.symm apart)]
  rw [Function.update_comm apart, Function.update_idem]

theorem Accounted.moveConstruct (accounted : Accounted invalid s) (dead : ¬ s.Lives h)
    (lives : s.Lives other) : Accounted invalid (moveConstruct invalid s h other) := by
  have none : s.value h = none := not_not.mp dead
  have apart : h ≠ other := fun same => dead (same ▸ lives)
  rw [moveConstruct_eq apart]
  exact (accounted.blank (by simp [Idle, none]) (by simp)).swap

theorem Accounted.moveAssign (accounted : Accounted invalid s) {temporary : H}
    (dead : ¬ s.Lives temporary) (lives : s.Lives other) :
    Accounted invalid (moveAssign invalid s temporary h other) :=
  (accounted.moveConstruct dead lives).swap.destroy

theorem reset_setValue (value : α) :
    reset invalid s h value = (reset invalid s h invalid).setValue h (some value) := by
  unfold reset
  split <;> simp [setValue]

theorem reset_value (value : α) (other : H) :
    (reset invalid s h value).value other = if other = h then some value else s.value other := by
  unfold reset
  split
  · split <;> simp [setValue, note, Function.update_apply]
  · simp [setValue, Function.update_apply]

theorem Accounted.step (accounted : Accounted invalid s) {action : Action H α}
    (fresh : Fresh invalid s action) (taken : step invalid s action = some t) :
    Accounted invalid t := by
  cases action with
  | default h =>
      obtain ⟨dead, rfl⟩ := provided_eq_some.mp taken
      have none : s.value h = none := not_not.mp dead
      exact accounted.blank (by simp [Idle, none]) (by simp)
  | construct h value =>
      obtain ⟨dead, rfl⟩ := provided_eq_some.mp taken
      have none : s.value h = none := not_not.mp dead
      exact accounted.acquire (by simp [Idle, none]) fresh
  | moveConstruct h other =>
      obtain ⟨⟨dead, lives⟩, rfl⟩ := provided_eq_some.mp taken
      exact accounted.moveConstruct dead lives
  | moveAssign temporary h other =>
      obtain ⟨⟨dead, _, lives⟩, rfl⟩ := provided_eq_some.mp taken
      exact accounted.moveAssign dead lives
  | swap h other =>
      obtain ⟨_, rfl⟩ := provided_eq_some.mp taken
      exact accounted.swap
  | release h =>
      cases owned : s.value h with
      | none => simp [Handles.step, Handles.release, owned] at taken
      | some value =>
          simp only [Handles.step, Handles.release, owned, Option.some.injEq] at taken
          subst taken
          exact accounted.lose owned (.inl rfl) (by simp) (by simp)
  | reset h =>
      obtain ⟨_, rfl⟩ := provided_eq_some.mp taken
      exact accounted.reset
  | resetTo h value =>
      obtain ⟨_, rfl⟩ := provided_eq_some.mp taken
      rw [reset_setValue]
      apply accounted.reset.acquire reset_idle
      intro valid other
      rw [reset_value]
      split
      · simpa using Ne.symm valid
      · exact fresh valid other
  | destroy h =>
      obtain ⟨_, rfl⟩ := provided_eq_some.mp taken
      exact accounted.destroy

omit [DecidableEq H] in
theorem start_accounted : Accounted invalid ({} : Handles H α) :=
  ⟨fun _ _ => .inr ⟨fun _ => rfl, rfl⟩, by simp⟩

theorem settle_count {event : Event α} {owed next : Bool} (settled : settle v owed event = some next) :
    [event].count (.acquired v) + owed.toNat =
      [event].count (.released v) + [event].count (.closed v) + next.toNat := by
  cases event with
  | acquired value | released value | closed value =>
      by_cases same : value = v
      · subst same
        cases owed <;> simp_all [settle]
      · simp only [settle, same, ↓reduceIte, Option.some.injEq] at settled
        simp [same, settled]

theorem count_acquired {history : List (Event α)} {owed : Bool}
    (account : outstanding v history = some owed) :
    history.count (.acquired v) =
      history.count (.released v) + history.count (.closed v) + owed.toNat := by
  induction history using List.reverseRecOn generalizing owed with
  | nil =>
      cases account
      rfl
  | append_singleton history event ih =>
      rw [outstanding_concat, Option.bind_eq_some_iff] at account
      obtain ⟨before, earlier, now⟩ := account
      have balance := ih earlier
      have change := settle_count now
      simp only [List.count_append]
      omega

/-- A valid value has one owner exactly while an acquisition of it is outstanding, the invalid value
is never closed, and when no handle is left each acquisition has had its one release or close. -/
theorem handles_settle_once (reached : Reaches (step invalid) (Fresh invalid) {} s) :
    (∀ v, v ≠ invalid →
      (∃! h, s.value h = some v) ∧ outstanding v s.history = some true ∨
        (∀ h, s.value h ≠ some v) ∧ outstanding v s.history = some false) ∧
    .closed invalid ∉ s.history ∧
    ((∀ h, ¬ s.Lives h) → ∀ v, v ≠ invalid →
      outstanding v s.history = some false ∧
        s.history.count (.acquired v) =
          s.history.count (.released v) + s.history.count (.closed v)) := by
  have accounted : Accounted invalid s :=
    reached.invariant start_accounted fun _ _ _ kept fresh taken => kept.step fresh taken
  refine ⟨fun v valid => ?_, accounted.2, fun dead v valid => ?_⟩
  · exact (accounted.1 v valid).imp
      (And.imp_left once_copies_iff.mp) (And.imp_left nowhere_copies_iff.mp)
  · have nowhere : Nowhere (s.copies v) := nowhere_copies_iff.mpr fun h owns => by
      simpa [owns] using not_not.mp (dead h)
    have quiet := (accounted.1 v valid).nowhere_iff.mp nowhere
    exact ⟨quiet, count_acquired quiet⟩

theorem handles_settle_twice :
    ∃ s : Handles (Fin 3) Int, s.history.count (.acquired 5) = 2 ∧
      s.history.count (.acquired 5) =
        s.history.count (.released 5) + s.history.count (.closed 5) := by
  let actions : List (Action (Fin 3) Int) :=
    [.construct 0 5, .default 1, .moveAssign 2 1 0, .resetTo 1 6, .construct 2 5, .release 1,
      .swap 1 2, .destroy 0, .destroy 2, .destroy 1]
  obtain ⟨s, run⟩ : ∃ s, exec (step (-1)) {} actions = some s := ⟨_, rfl⟩
  have fresh : AlwaysMeets (step (-1)) (Fresh (-1)) {} actions := by decide
  have settled := handles_settle_once (fresh.reaches run)
  have dead : ∀ h, ¬ s.Lives h := by
    cases run
    decide
  refine ⟨s, ?_, (settled.2.2 dead 5 (by decide)).2⟩
  cases run
  decide

end Handles

end Ice
