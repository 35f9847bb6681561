import Ice.Lib.Transition
import Ice.Event.Threads

namespace Ice.Event
open Transition Net

variable {O T W : Type}

abbrev Key := Fd × Fd

/-- A one-shot registration; it stays, disarmed, after it has been reported. -/
structure Registration (O : Type) where
  target : O
  armed : Bool
  deriving DecidableEq, Repr

abbrev Epoll (cls : O → EventClass) (T W : Type) := State cls T W (Key → Option (Registration O))

inductive Action (cls : O → EventClass) (T W : Type) where
  | operation (t : T) (w : W) (o : O) (context socket : Fd) (members : (cls o).Members)
  | await (t : T) (w : W) (o : O)
  | call (t : T) (o : O) (argument : (cls o).Call)
  | ready (t : T) (w : W) (o : O) (report : (cls o).Ready)
  | add (t : T) (result : Except Errno Unit)
  | resume (t : T) (o : O) (report : (cls o).Resume)
  | poll (t : T) (bufferSize : Nat)
  | deliver (t : T) (key : Key)
  | polled (t : T)
  | dispatch (t : T)
  -- The next stretch of code that asks nothing of the kernel, or `EPOLL_CTL_DEL`.
  | go (t : T)

def Action.thread {cls : O → EventClass} : Action cls T W → T
  | .operation t .. | .await t .. | .call t .. | .ready t .. | .add t _ | .resume t .. | .poll t _
  | .deliver t _ | .polled t | .dispatch t | .go t => t

namespace State

variable {cls : O → EventClass}

def create (object : (o : O) → Object W (cls o)) : Epoll cls T W :=
  { object, dictated := fun o => (object o).members, kernel := fun _ => none }

def key (s : Epoll cls T W) (o : O) : Key := ((s.object o).context, (s.object o).socket)

variable [DecidableEq O] [DecidableEq T] [DecidableEq W]

def note (s : Epoll cls T W) (o : O) : Epoll cls T W :=
  s.setObject o { s.object o with
    nativeContext := some (s.object o).context
    nativeId := some (s.object o).socket }

def suspend (s : Epoll cls T W) (t : T) (site : Option W) (o : O) : Epoll cls T W :=
  match (cls o).suspend (s.object o).members with
  | .fail ec => s.goto t (.refuse site o ec)
  | .queueRecv => (s.note o).goto t (.add site o .read)
  | .queueSend => (s.note o).goto t (.add site o .write)

/-- `EPOLL_CTL_ADD`, which fails with `EEXIST` exactly when the descriptor is registered. -/
def add (s : Epoll cls T W) (t : T) (site : Option W) (o : O) :
    Except Errno Unit → Option (Epoll cls T W)
  | .ok () =>
      provided (s.kernel (s.key o) = none)
        ({ s with kernel := Function.update s.kernel (s.key o) (some ⟨o, true⟩) }.goto t .added)
  | .error errno =>
      provided (s.kernel (s.key o) = none ↔ errno ≠ Errno.eexist)
        (s.goto t (.refuse site o (.native errno)))

def remove (s : Epoll cls T W) (t : T) (o : O) : Epoll cls T W :=
  match (s.object o).nativeContext, (s.object o).nativeId with
  | some context, some id => s.goto t (.del o context id)
  | _, _ => s.goto t (.resume o)

def go (s : Epoll cls T W) (t : T) : Option (Epoll cls T W) :=
  match s.pc t with
  | .suspend site o => some (s.suspend t site o)
  | .remove o => some (s.remove t o)
  | .del o context id =>
      -- The kernel removes what is registered there, whichever event has registered it.
      some ({ s with kernel := Function.update s.kernel (context, id) none }.goto t (.clear o))
  | .clear o =>
      some ((s.setObject o { s.object o with nativeContext := none, nativeId := none }).goto t
        (.resume o))
  | _ => s.code t

def step (s : Epoll cls T W) : Action cls T W → Option (Epoll cls T W)
  | .operation t w o context socket members =>
      provided (s.pc t = .free ∧ (cls o).shared = false ∧ s.users o = [] ∧ s.begun w = false ∧
          (cls o).ec members = .ok)
        ((s.construct o { context, socket, members }).start t w o)
  | .await t w o =>
      provided (s.pc t = .free ∧ (cls o).shared = true ∧ s.begun w = false)
        ({ s with
          dictated := Function.update s.dictated o ((cls o).record (s.object o).members .ok) }.start
            t w o)
  | .call t o argument =>
      provided (s.pc t = .free)
        (s.setMembers o ((cls o).call (s.object o).members argument)
          ((cls o).call (s.dictated o) argument))
  | .ready t w o report => provided (s.pc t = .awaitReady w o) (s.ready t w o report)
  | .add t result =>
      match s.pc t with
      | .add site o _ => s.add t site o result
      | _ => none
  | .resume t o report => provided (s.pc t = .resume o) (s.resume t o report)
  | .poll t bufferSize =>
      provided (s.pc t = .free ∧ s.batch t = [])
        ({ s with bufferSize := Function.update s.bufferSize t bufferSize }.goto t .polling)
  | .deliver t key =>
      match s.kernel key with
      | some ⟨o, true⟩ =>
          provided (s.pc t = .polling ∧ (s.batch t).length < s.bufferSize t)
            { s with
              kernel := Function.update s.kernel key (some ⟨o, false⟩)
              batch := Function.update s.batch t (s.batch t ++ [o]) }
      | _ => none
  | .polled t => provided (s.pc t = .polling) (s.goto t .free)
  | .dispatch t =>
      match s.batch t with
      | o :: rest =>
          provided (s.pc t = .free)
            ({ s with batch := Function.update s.batch t rest }.goto t (.remove o))
      | [] => none
  | .go t => s.go t

end State

end Ice.Event
