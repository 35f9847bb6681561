import Ice.Lib.Transition

/-!
# The asynchronous generator

`async_generator` of `async.h`: the coroutine that yields the values and the one that iterates over
them, each on any thread. A coroutine that is suspended outside of the generator takes no steps until
it goes on.
-/

namespace Ice.Async
open Transition

namespace Generator

inductive State where
  | valueNotReadyConsumerActive
  | valueNotReadyConsumerSuspended
  | valueReadyProducerActive
  | valueReadyProducerSuspended
  | cancelled
  deriving DecidableEq, Repr

/-- Two places resume the other coroutine: what creates the operation, `internal_yield_value` and the
constructor of the advance operation, and the operation's `await_suspend`. -/
inductive Site where
  | create
  | suspend
  deriving DecidableEq, Repr

/-- Where the producer is: suspended by the generator, in its own code, or at the instruction of the
generator that is executed next, with its locals. `swappingNotReady` and `swappingReady` are the
`compare_exchange_strong` of `await_suspend`, by the state that they expect. -/
inductive Producer where
  | suspended
  | running
  | yielding
  | storing (site : Site)
  | resuming (site : Site)
  | loading (site : Site)
  | operating (initialState : State)
  | swappingNotReady
  | swappingReady
  | destroying
  | destroyed
  | failed
  deriving DecidableEq, Repr

inductive Cursor where
  | start
  | value
  | finished
  deriving DecidableEq, Repr

inductive Consumer where
  | active (cursor : Cursor)
  | creating
  | storing (site : Site)
  | resuming (site : Site)
  | loading (site : Site)
  | operating (initialState : State)
  | swappingNotReady
  | swappingReady
  | suspended
  | resumed
  | destroying
  | gone
  | failed
  deriving DecidableEq, Repr

end Generator

/-- A coroutine that resumes the other one goes on when that one is suspended: `producerReturns` and
`consumerReturns` are set until then. `given` is what `m_currentValue` has been set to, with `none` for
the null pointer, and `taken` what `await_resume` has found in it. -/
structure Generator (V E : Type) where
  state : Generator.State := .valueReadyProducerSuspended
  currentValue : Option V
  exception : Option E := none
  consumerCoroutine : Bool := false
  producer : Generator.Producer := .suspended
  consumer : Generator.Consumer := .active .start
  final : Bool := false
  producerReturns : Bool := false
  consumerReturns : Bool := false
  destroyed : Nat := 0
  given : List (Option V) := []
  taken : List (Option V) := []
  thrown : Option E := none
  rethrown : Option E := none
  deriving DecidableEq, Repr

namespace Generator

variable {V E : Type}

inductive Action (V E : Type) where
  | yieldValue (v : V)
  | finish (exception : Option E)
  | parkProducer
  | advance
  | await
  | destroy
  | parkConsumer
  | producer
  | consumer
  deriving DecidableEq, Repr

/-! ## The producer -/

def yieldValue (s : Generator V E) (v : V) : Generator V E :=
  { s with currentValue := some v, given := s.given ++ [some v], producer := .yielding }

def unhandledException (s : Generator V E) (e : E) : Generator V E :=
  let thrown := { s with thrown := some e }
  if s.state = .cancelled then thrown else { thrown with exception := some e }

def finalSuspend (s : Generator V E) : Generator V E :=
  { s with currentValue := none, given := s.given ++ [none], final := true, producer := .yielding }

def goOn (s : Generator V E) : Generator V E :=
  if s.final then
    { s with producer := .destroyed, destroyed := s.destroyed + 1, producerReturns := false }
  else { s with producer := .running }

def suspendProducer (s : Generator V E) : Generator V E :=
  { s with state := .valueReadyProducerSuspended, producer := .suspended, producerReturns := false }

def settle : State → Producer
  | .valueReadyProducerActive => .swappingReady
  | .cancelled => .destroying
  | _ => .failed

def producerStep (s : Generator V E) : Option (Generator V E) :=
  match s.producer with
  | .yielding =>
      match s.state with
      | .valueReadyProducerActive | .valueReadyProducerSuspended => some { s with producer := .failed }
      | .valueNotReadyConsumerSuspended => some { s with producer := .storing .create }
      | currentState => some { s with producer := .operating currentState }
  | .storing site =>
      some { s with state := .valueReadyProducerActive, producer := .resuming site }
  | .resuming site =>
      if s.consumerCoroutine = true ∧ s.consumer = .suspended then
        some { s with consumer := .resumed, consumerReturns := true, producer := .loading site }
      else some { s with producer := .failed }
  | .loading site =>
      if s.consumerReturns then none
      else
        match site with
        | .create => some { s with producer := .operating s.state }
        | .suspend =>
            if s.state = .valueNotReadyConsumerSuspended then some s.goOn
            else some { s with producer := settle s.state }
  | .operating initialState =>
      match initialState with
      | .valueNotReadyConsumerSuspended => some s.goOn
      | .valueNotReadyConsumerActive => some { s with producer := .swappingNotReady }
      | currentState => some { s with producer := settle currentState }
  | .swappingNotReady =>
      match s.state with
      | .valueNotReadyConsumerActive => some s.suspendProducer
      | .valueNotReadyConsumerSuspended => some { s with producer := .storing .suspend }
      | currentState => some { s with producer := settle currentState }
  | .swappingReady =>
      match s.state with
      | .valueReadyProducerActive => some s.suspendProducer
      | .valueNotReadyConsumerSuspended => some s.goOn
      | .cancelled => some { s with producer := .destroying }
      | _ => some { s with producer := .failed }
  | .destroying =>
      some { s with
        producer := .destroyed, destroyed := s.destroyed + 1, producerReturns := false }
  | .suspended | .running | .destroyed | .failed => none

/-! ## The consumer -/

def suspendConsumer (s : Generator V E) : Generator V E :=
  { s with
    state := .valueNotReadyConsumerSuspended, consumer := .suspended, consumerReturns := false }

def awaitOperation (s : Generator V E) (initialState : State) : Generator V E :=
  let suspending := { s with consumerCoroutine := true }
  match initialState with
  | .valueReadyProducerSuspended => { s with consumer := .resumed }
  | .valueReadyProducerActive => { suspending with consumer := .swappingReady }
  | .valueNotReadyConsumerActive => { suspending with consumer := .swappingNotReady }
  | _ => { suspending with consumer := .failed }

def awaitResume (s : Generator V E) : Generator V E :=
  let resumed := { s with taken := s.taken ++ [s.currentValue] }
  match s.currentValue with
  | some _ => { resumed with consumer := .active .value }
  | none => { resumed with
      consumer := .active .finished, rethrown := s.exception, exception := none }

def requestCancellation (s : Generator V E) : Generator V E :=
  let cancelled := { s with state := .cancelled }
  match s.state with
  | .valueReadyProducerSuspended => { cancelled with consumer := .destroying }
  | .valueNotReadyConsumerSuspended | .cancelled => { cancelled with consumer := .failed }
  | _ => { cancelled with consumer := .gone }

def consumerStep (s : Generator V E) : Option (Generator V E) :=
  match s.consumer with
  | .creating =>
      if s.state = .valueReadyProducerSuspended then some { s with consumer := .storing .create }
      else some { s with consumer := .operating s.state }
  | .storing site =>
      some { s with state := .valueNotReadyConsumerActive, consumer := .resuming site }
  | .resuming site =>
      if s.producer = .suspended ∧ s.final = false then
        some { s with producer := .running, producerReturns := true, consumer := .loading site }
      else some { s with consumer := .failed }
  | .loading site =>
      if s.producerReturns then none
      else
        match site, s.state with
        | .create, initialState => some { s with consumer := .operating initialState }
        | .suspend, .valueReadyProducerSuspended => some { s with consumer := .resumed }
        | .suspend, .valueNotReadyConsumerActive => some { s with consumer := .swappingNotReady }
        | .suspend, _ => some { s with consumer := .failed }
  | .swappingReady =>
      match s.state with
      | .valueReadyProducerActive => some s.suspendConsumer
      | .valueReadyProducerSuspended => some { s with consumer := .storing .suspend }
      | _ => some { s with consumer := .failed }
  | .swappingNotReady =>
      match s.state with
      | .valueNotReadyConsumerActive => some s.suspendConsumer
      | _ => some { s with consumer := .resumed }
  | .resumed => some s.awaitResume
  | .destroying =>
      if s.producer = .suspended then
        some { s with producer := .destroyed, destroyed := s.destroyed + 1, consumer := .gone }
      else some { s with consumer := .failed }
  | .active _ | .operating _ | .suspended | .gone | .failed => none

def step (s : Generator V E) : Action V E → Option (Generator V E)
  | .yieldValue v => provided (s.producer = .running) (s.yieldValue v)
  | .finish exception =>
      provided (s.producer = .running) <|
        match exception with
        | none => s.finalSuspend
        | some e => (s.unhandledException e).finalSuspend
  | .parkProducer => provided (s.producer = .running) { s with producerReturns := false }
  | .advance =>
      provided (s.consumer = .active .start ∨ s.consumer = .active .value)
        { s with consumer := .creating }
  | .await =>
      match s.consumer with
      | .operating initialState => some (s.awaitOperation initialState)
      | _ => none
  | .destroy =>
      match s.consumer with
      | .active _ | .operating _ => some s.requestCancellation
      | _ => none
  | .parkConsumer =>
      match s.consumer with
      | .active _ | .operating _ | .gone => some { s with consumerReturns := false }
      | _ => none
  | .producer => s.producerStep
  | .consumer => s.consumerStep

end Generator

end Ice.Async
