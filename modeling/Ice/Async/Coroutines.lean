import Ice.Lib.Transition
import Mathlib.Logic.Function.Basic

/-!
# Asynchronous coroutines that await each other

The coroutines of `async` in `async.h`, each on any thread. A coroutine that awaits another one resumes
it and then sets itself as its continuation, unless it has completed by then.
-/

namespace Ice.Async
open Transition

namespace Coroutines

/-- Where a coroutine is: in its own code, or at the instruction that is executed next. `starting` to
`resumed` are those of an awaitable of another coroutine: the call of `resume`, what follows it in
`await_suspend`, the two halves of `try_set_continuation`, the suspension and `await_resume`.
`completing` and `continuing` are those of `final_awaitable`. -/
inductive Pc (K : Type) where
  | created
  | running
  | starting (task : K)
  | linking (task : K)
  | exchanging (task : K)
  | awaiting (task : K)
  | resumed (task : K)
  | completing
  | continuing
  | done
  | failed
  deriving DecidableEq, Repr

/-- The promise of a coroutine and its frame. `nested` says that the coroutine has not come back to the
`await_suspend` that has resumed it. `awaiter` is the one that has awaited it, and `rank` grows with each
coroutine that is started. -/
structure Promise (K R : Type) where
  pc : Pc K
  state : Bool := false
  continuation : Option K := none
  result : Option R := none
  nested : Bool := false
  awaiter : Option K := none
  rank : Nat := 0
  deriving DecidableEq, Repr

end Coroutines

structure Coroutines (K R : Type) where
  promise : K → Coroutines.Promise K R
  clock : Nat := 0
  awaited : List (K × K) := []
  received : List ((K × K) × R) := []

namespace Coroutines

variable {K R : Type}

inductive Action (K R : Type) where
  | await (k task : K)
  | complete (k : K) (result : R)
  | park (k : K)
  | advance (k : K)
  deriving DecidableEq, Repr

def start (root : K → Bool) : Coroutines K R where
  promise k := { pc := if root k then .running else .created }

variable [DecidableEq K]

def set (s : Coroutines K R) (k : K) (p : Promise K R) : Coroutines K R :=
  { s with promise := Function.update s.promise k p }

def await (s : Coroutines K R) (k task : K) : Coroutines K R :=
  -- `await_ready`, for a coroutine that is created or that `k` has awaited before.
  let asked := { s with awaited := s.awaited ++ [(k, task)], clock := s.clock + 1 }
  if (s.promise task).pc = .done then asked.set k { s.promise k with pc := .resumed task }
  else
    (asked.set task { s.promise task with awaiter := some k, rank := s.clock + 1 }).set k
      { s.promise k with pc := .starting task }

def advance (s : Coroutines K R) (k : K) : Pc K → Option (Coroutines K R)
  | .starting task =>
      if (s.promise task).pc = .created then
        some <| (s.set task { s.promise task with pc := .running, nested := true }).set k
          { s.promise k with pc := .linking task }
      else some (s.set k { s.promise k with pc := .failed })
  | .linking task =>
      if (s.promise task).nested then none
      else
        some <| (s.set task { s.promise task with continuation := some k }).set k
          { s.promise k with pc := .exchanging task }
  | .exchanging task =>
      let exchanged := s.set task { s.promise task with state := true }
      if (s.promise task).state then
        some (exchanged.set k { s.promise k with pc := .resumed task })
      else some (exchanged.set k { s.promise k with pc := .awaiting task, nested := false })
  | .resumed task =>
      match (s.promise task).result with
      | some r => some <|
          { s with received := s.received ++ [((k, task), r)] }.set k
            { s.promise k with pc := .running }
      | none => some (s.set k { s.promise k with pc := .failed })
  | .completing =>
      if (s.promise k).state then
        some (s.set k { s.promise k with pc := .continuing, state := true })
      else some (s.set k { s.promise k with pc := .done, state := true, nested := false })
  | .continuing =>
      match (s.promise k).continuation with
      | some awaiter =>
          if (s.promise awaiter).pc = .awaiting k then
            some <| (s.set awaiter { s.promise awaiter with pc := .resumed k }).set k
              { s.promise k with pc := .done }
          else some (s.set k { s.promise k with pc := .failed })
      | none => some (s.set k { s.promise k with pc := .failed })
  | .created | .running | .awaiting _ | .done | .failed => none

def step (s : Coroutines K R) : Action K R → Option (Coroutines K R)
  | .await k task =>
      provided ((s.promise k).pc = .running ∧
        ((s.promise task).pc = .created ∧ (s.promise task).awaiter = none ∨
          (s.promise task).pc = .done ∧ (s.promise task).awaiter = some k)) (s.await k task)
  | .complete k result =>
      provided ((s.promise k).pc = .running)
        (s.set k { s.promise k with pc := .completing, result := some result })
  | .park k =>
      provided ((s.promise k).pc = .running) (s.set k { s.promise k with nested := false })
  | .advance k => s.advance k (s.promise k).pc

end Coroutines

end Ice.Async
