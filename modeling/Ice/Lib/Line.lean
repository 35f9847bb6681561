import Ice.Lib.Transition

namespace Line
open Transition

variable {α : Type*}

inductive Event (α : Type*) where
  | ask (a : α)
  | leave
  deriving DecidableEq, Repr

def step (line : List α) : Event α → Option (List α)
  | .ask a => some (line ++ [a])
  | .leave =>
      match line with
      | _ :: rest => some rest
      | [] => none

def asked : List (Event α) → List α
  | [] => []
  | .ask a :: events => a :: asked events
  | .leave :: events => asked events

def leaves : List (Event α) → Nat
  | [] => 0
  | .ask _ :: events => leaves events
  | .leave :: events => leaves events + 1

def holders : List α → List (Event α) → List α
  | line, [] => line.take 1
  | line, .ask a :: events => holders (line ++ [a]) events
  | line, .leave :: events => line.take 1 ++ holders line.tail events

variable {line rest : List α} {events : List (Event α)}

theorem asked_append (events later : List (Event α)) :
    asked (events ++ later) = asked events ++ asked later := by
  induction events with
  | nil => rfl
  | cons event events ih => cases event <;> simp [asked, ih]

/-- Those who have not left are still there, in the order in which they have asked. -/
theorem run_eq (run : exec step line events = some rest) :
    rest = (line ++ asked events).drop (leaves events) := by
  induction events generalizing line with
  | nil =>
      cases run
      simp [asked, leaves]
  | cons event events ih =>
      obtain ⟨next, taken, later⟩ := exec_cons.mp run
      cases event with
      | ask a =>
          cases taken
          simpa [asked, leaves] using ih later
      | leave =>
          cases line with
          | nil => cases taken
          | cons a line =>
              cases taken
              simpa [asked, leaves] using ih later

theorem holders_eq (run : exec step line events = some rest) :
    holders line events = (line ++ asked events).take (leaves events + 1) := by
  induction events generalizing line with
  | nil => simp [holders, asked, leaves]
  | cons event events ih =>
      obtain ⟨next, taken, later⟩ := exec_cons.mp run
      cases event with
      | ask a =>
          cases taken
          simpa [holders, asked, leaves] using ih later
      | leave =>
          cases line with
          | nil => cases taken
          | cons a line =>
              cases taken
              simpa [holders, asked, leaves] using ih later

end Line
