import Ice.Lib.Transition

namespace Handover
open Transition

variable {α : Type*}

inductive Event (α : Type*) where
  | ask
  | give (a : α)
  | take
  deriving DecidableEq, Repr

inductive Stage (α : Type*) where
  | idle
  | asked
  | given (a : α)
  deriving DecidableEq, Repr

def Stage.left : Stage α → List α
  | given a => [a]
  | _ => []

def step : Stage α → Event α → Option (Stage α)
  | .idle, .ask => some .asked
  | .asked, .give a => some (.given a)
  | .given _, .take => some .idle
  | _, _ => none

def gives : List (Event α) → List α
  | [] => []
  | .give a :: events => a :: gives events
  | _ :: events => gives events

def takes : Stage α → List (Event α) → List α
  | _, [] => []
  | stage, .take :: events => stage.left ++ takes .idle events
  | _, .ask :: events => takes .asked events
  | _, .give a :: events => takes (.given a) events

variable {stage after : Stage α} {events : List (Event α)}

theorem gives_append (events later : List (Event α)) :
    gives (events ++ later) = gives events ++ gives later := by
  induction events with
  | nil => rfl
  | cons event events ih => cases event <;> simp [gives, ih]

theorem run_eq (run : exec step stage events = some after) :
    stage.left ++ gives events = takes stage events ++ after.left := by
  induction events generalizing stage with
  | nil =>
      cases run
      simp [gives, takes]
  | cons event events ih =>
      obtain ⟨next, taken, later⟩ := exec_cons.mp run
      have rest := ih later
      cases stage <;> cases event <;> cases taken <;>
        simpa [Stage.left, gives, takes] using rest

end Handover
