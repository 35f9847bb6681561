import Ice.Lib.Transition
import Mathlib.Logic.Function.Basic

/-!
# The mutex of coroutines

`async_mutex` of `async.h` with any number of threads in `try_lock`, `unlock` and `await_suspend` of
its lock operations. An operation is named by its address; the coroutine that awaits it goes on when
it holds the mutex.
-/

namespace Ice.Async
open Transition

/-- `m_state`: one, or the operation that has joined last. The null pointer is `locked_no_waiters`. -/
inductive Word (O : Type) where
  | notLocked
  | locked (waiter : Option O)
  deriving DecidableEq, Repr

def Word.lockedNoWaiters {O : Type} : Word O := .locked none

/-- Who holds the mutex: the coroutine that awaits an operation, or a caller of `try_lock`. -/
abbrev Client (O : Type) := Option O

/-- Where a thread is in the code of the mutex: at the top of the loop of `await_suspend` with its
`oldState`, or past the store to `m_next`; from `releasing` on in `unlock`, at the instruction that is
executed next, with its locals. The call of `resume()` with which `unlock` ends counts as `outside`:
nothing of the mutex is used after it. -/
inductive Pc (O : Type) where
  | outside
  | joining (op : O) (oldState : Word O)
  | linked (op : O) (oldState : Option O)
  | unlocking (client : Client O)
  | releasing (client : Client O)
  | exchanging (client : Client O)
  | reversing (client : Client O) (next : O) (waitersHead : Option O)
  | relinking (client : Client O) (next : O) (temp waitersHead : Option O)
  | popping (client : Client O) (waitersHead : O)
  | resuming (client : Client O) (waitersHead : O)
  | aborted
  deriving DecidableEq, Repr

/-- `live` are the operations from their construction until the coroutine goes on. `asked` are all who
have changed `m_state` to get the mutex, `granted` those who have got it, `owners` those who have not
called `unlock` since. -/
structure Mutex (T O : Type) where
  word : Word O := .notLocked
  waiters : Option O := none
  next : O → Option O
  pc : T → Pc O := fun _ => .outside
  live : O → Bool := fun _ => false
  owners : List (Client O) := []
  asked : List (Client O) := []
  granted : List (Client O) := []

namespace Mutex

variable {T O : Type}

inductive Action (T O : Type) where
  | construct (op : O) (next : Option O)
  | tryLock (t : T)
  | lockAsync (t : T) (op : O)
  | unlock (t : T) (client : Client O)
  -- A weak `compare_exchange` may fail for no reason.
  | advance (t : T) (spurious : Bool)
  deriving DecidableEq, Repr

section
variable [DecidableEq T] (s : Mutex T O) (t u : T) (pc : Pc O) (other : O)

def setPc : Mutex T O := { s with pc := Function.update s.pc t pc }

@[grind =] theorem setPc_pc : (s.setPc t pc).pc u = if u = t then pc else s.pc u :=
  Function.update_apply ..

@[grind =] theorem setPc_live : (s.setPc t pc).live other = s.live other := rfl
@[grind =] theorem setPc_next : (s.setPc t pc).next other = s.next other := rfl

end

section
variable [DecidableEq O] (s : Mutex T O) (u : T) (op other : O) (next : Option O) (live : Bool)

def setNext : Mutex T O := { s with next := Function.update s.next op next }

@[grind =] theorem setNext_next :
    (s.setNext op next).next other = if other = op then next else s.next other :=
  Function.update_apply ..

@[grind =] theorem setNext_pc : (s.setNext op next).pc u = s.pc u := rfl
@[grind =] theorem setNext_live : (s.setNext op next).live other = s.live other := rfl

def setLive : Mutex T O := { s with live := Function.update s.live op live }

@[grind =] theorem setLive_live :
    (s.setLive op live).live other = if other = op then live else s.live other :=
  Function.update_apply ..

@[grind =] theorem setLive_pc : (s.setLive op live).pc u = s.pc u := rfl
@[grind =] theorem setLive_next : (s.setLive op live).next other = s.next other := rfl

end

def ask (s : Mutex T O) (client : Client O) : Mutex T O := { s with asked := s.asked ++ [client] }

def grant (s : Mutex T O) (client : Client O) : Mutex T O :=
  { s with granted := s.granted ++ [client], owners := s.owners ++ [client] }

variable [DecidableEq T] [DecidableEq O]

def tryLock (s : Mutex T O) : Mutex T O :=
  match s.word with
  | .notLocked => ({ s with word := .lockedNoWaiters }.ask none).grant none
  | .locked _ => s

def acquire (s : Mutex T O) (t : T) (op : O) (spurious : Bool) : Mutex T O :=
  if s.word = .notLocked ∧ spurious = false then
    ((({ s with word := .lockedNoWaiters }.ask (some op)).grant (some op)).setLive op false).setPc t
      .outside
  else s.setPc t (.joining op s.word)

def push (s : Mutex T O) (t : T) (op : O) (oldState : Option O) (spurious : Bool) : Mutex T O :=
  if s.word = .locked oldState ∧ spurious = false then
    ({ s with word := .locked (some op) }.ask (some op)).setPc t .outside
  else s.setPc t (.joining op s.word)

def advance (s : Mutex T O) (t : T) (spurious : Bool) : Pc O → Mutex T O
  | .outside | .aborted => s
  | .joining op .notLocked => s.acquire t op spurious
  | .joining op (.locked waiter) => (s.setNext op waiter).setPc t (.linked op waiter)
  | .linked op oldState => s.push t op oldState spurious
  | .unlocking client =>
      match s.waiters with
      | none => s.setPc t (.releasing client)
      | some waitersHead => s.setPc t (.popping client waitersHead)
  | .releasing client =>
      if s.word = .lockedNoWaiters then { s with word := .notLocked }.setPc t .outside
      else s.setPc t (.exchanging client)
  | .exchanging client =>
      let exchanged := { s with word := .lockedNoWaiters }
      match s.word with
      | .locked (some op) => exchanged.setPc t (.reversing client op none)
      | _ => exchanged.setPc t .aborted
  | .reversing client op waitersHead =>
      s.setPc t (.relinking client op (s.next op) waitersHead)
  | .relinking client op temp waitersHead =>
      let relinked := s.setNext op waitersHead
      match temp with
      | some following => relinked.setPc t (.reversing client following (some op))
      | none => relinked.setPc t (.popping client op)
  | .popping client op => { s with waiters := s.next op }.setPc t (.resuming client op)
  | .resuming _ op => ((s.grant (some op)).setLive op false).setPc t .outside

def step (s : Mutex T O) : Action T O → Option (Mutex T O)
  | .construct op next => provided (s.live op = false) (s.setNext op next)
  | .tryLock t => provided (s.pc t = .outside) s.tryLock
  | .lockAsync t op =>
      provided (s.pc t = .outside ∧ s.live op = false)
        ((s.setLive op true).setPc t (.joining op s.word))
  | .unlock t client =>
      provided (s.pc t = .outside ∧ client ∈ s.owners) <|
        ({ s with owners := s.owners.erase client } : Mutex T O).setPc t
          (if s.word = Word.notLocked then .aborted else .unlocking client)
  | .advance t spurious =>
      provided (s.pc t ≠ .outside ∧ s.pc t ≠ .aborted) (s.advance t spurious (s.pc t))

end Mutex

end Ice.Async
