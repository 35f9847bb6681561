import Mathlib.Logic.Function.Basic
import Ice.Lib.Transition
import Ice.Event.Operation

/-!
# Events in threads

`event::await_suspend` and `event::await_resume` of any number of event objects, in any number of
threads that run coroutines and wait for the kernel, as far as Linux and FreeBSD have the same code.
-/

namespace Ice.Event
open Net

variable {O T W : Type}

inductive Filter where
  | read
  | write
  deriving DecidableEq, Repr

structure Base (W : Type) where
  nativeContext : Option Fd := none
  nativeId : Option Fd := none
  awaiter : Option W := none
  context : Fd
  socket : Fd

structure Object (W : Type) (c : EventClass) extends Base W where
  members : c.Members

/-- Where a thread is with an event. A `site` is the wait for which `await_suspend` calls `suspend`,
or `none` in `await_resume`. At `add` the thread is before `EPOLL_CTL_ADD` or `EV_ADD`, at `refuse`
about to set `ec_`; at `refused` `suspend` returns false and at `added` true; at `wake` it calls
`awaiter_.resume()`. From `remove` to `clear` it is in `remove`, on Linux only. -/
inductive Pc (O W : Type) where
  | free
  | polling
  | awaitReady (w : W) (o : O)
  | awaitSuspend (w : W) (o : O)
  | suspend (site : Option W) (o : O)
  | add (site : Option W) (o : O) (filter : Filter)
  | refuse (site : Option W) (o : O) (ec : ErrorCode)
  | refused (site : Option W) (o : O)
  | added
  | remove (o : O)
  | del (o : O) (context id : Fd)
  | clear (o : O)
  | resume (o : O)
  | wake (o : O)
  deriving DecidableEq, Repr

def Pc.object : Pc O W → Option O
  | .free | .polling | .added => none
  | .awaitReady _ o | .awaitSuspend _ o | .suspend _ o | .add _ o _ | .refuse _ o _ | .refused _ o
  | .remove o | .del o _ _ | .clear o | .resume o | .wake o => some o

/-- Objects `O`, threads `T` and waits `W`, each wait one `co_await` of an object, with what the
kernel has registered. `users` are the waits on an object that have not continued, `continued`
counts how often a wait has. `dictated` is what the members would be if no registration ever failed
with `EEXIST`. -/
structure State (cls : O → EventClass) (T W K : Type) where
  object : (o : O) → Object W (cls o)
  dictated : (o : O) → (cls o).Members
  kernel : K
  pc : T → Pc O W := fun _ => .free
  batch : T → List O := fun _ => []
  bufferSize : T → Nat := fun _ => 0
  users : O → List W := fun _ => []
  begun : W → Bool := fun _ => false
  continued : W → Nat := fun _ => 0

namespace State

variable {cls : O → EventClass} {K : Type} [DecidableEq O] [DecidableEq T] [DecidableEq W]

def goto (s : State cls T W K) (t : T) (pc : Pc O W) : State cls T W K :=
  { s with pc := Function.update s.pc t pc }

def setObject (s : State cls T W K) (o : O) (object : Object W (cls o)) : State cls T W K :=
  { s with object := Function.update s.object o object }

def construct (s : State cls T W K) (o : O) (object : Object W (cls o)) : State cls T W K :=
  { s.setObject o object with dictated := Function.update s.dictated o object.members }

def setMembers (s : State cls T W K) (o : O) (members dictated : (cls o).Members) :
    State cls T W K :=
  { s.setObject o { s.object o with members } with
    dictated := Function.update s.dictated o dictated }

def start (s : State cls T W K) (t : T) (w : W) (o : O) : State cls T W K :=
  { s with
    users := Function.update s.users o (s.users o ++ [w])
    begun := Function.update s.begun w true }.goto t (.awaitReady w o)

def proceed (s : State cls T W K) (t : T) (w : W) (o : O) : State cls T W K :=
  { s with
    users := Function.update s.users o ((s.users o).erase w)
    continued := Function.update s.continued w (s.continued w + 1) }.goto t .free

def ready (s : State cls T W K) (t : T) (w : W) (o : O) (report : (cls o).Ready) :
    State cls T W K :=
  let attempt := (cls o).awaitReady (s.object o).members report
  let after := s.setMembers o attempt.1 ((cls o).awaitReady (s.dictated o) report).1
  match attempt.2 with
  | none => after
  | some true => after.proceed t w o
  | some false => after.goto t (.awaitSuspend w o)

/-- `ec_ = errno`, which is dictated to the event unless it is `EEXIST`. -/
def refuse (s : State cls T W K) (t : T) (site : Option W) (o : O) (ec : ErrorCode) :
    State cls T W K :=
  (s.setMembers o ((cls o).record (s.object o).members ec)
    (if ec = .native Errno.eexist then s.dictated o else (cls o).record (s.dictated o) ec)).goto t
      (.refused site o)

def resume (s : State cls T W K) (t : T) (o : O) (report : (cls o).Resume) : State cls T W K :=
  let attempt := (cls o).resume (s.object o).members report
  let after := s.setMembers o attempt.1 ((cls o).resume (s.dictated o) report).1
  match attempt.2 with
  | none => after
  | some true => after.goto t (.wake o)
  | some false => after.goto t (.suspend none o)

def code (s : State cls T W K) (t : T) : Option (State cls T W K) :=
  match s.pc t with
  | .awaitSuspend w o =>
      some ((s.setObject o { s.object o with awaiter := some w }).goto t (.suspend (some w) o))
  | .refuse site o ec => some (s.refuse t site o ec)
  | .refused (some w) o => some (s.proceed t w o)
  | .refused none o => some (s.goto t (.wake o))
  | .added => some (s.goto t .free)
  | .wake o => (s.object o).awaiter.map fun w => s.proceed t w o
  | _ => none

end State

end Ice.Event
