import Ice.Event.Threads

namespace Ice.Event.Filters
open Transition Net

variable {O T W : Type}

structure Key where
  context : Fd
  id : Fd
  filter : Filter
  deriving DecidableEq, Repr

/-- With the object that is the `udata` of each event in the kqueue. -/
abbrev Kqueue (cls : O → EventClass) (T W : Type) := State cls T W (Key → Option O)

inductive Action (cls : O → EventClass) (T W : Type) where
  | await (t : T) (w : W) (o : O) (object : Object W (cls o))
  | ready (t : T) (w : W) (o : O) (report : (cls o).Ready)
  | add (t : T) (result : Except Errno Unit)
  | resume (t : T) (o : O) (report : (cls o).Resume)
  | poll (t : T) (bufferSize : Nat)
  | deliver (t : T) (key : Key)
  | polled (t : T)
  | dispatch (t : T)
  | close (fd : Fd)
  -- The next stretch of code that asks nothing of the kernel.
  | go (t : T)

namespace Kqueue

variable {cls : O → EventClass}

def create (object : (o : O) → Object W (cls o)) : Kqueue cls T W :=
  { object, dictated := fun o => (object o).members, kernel := fun _ => none }

def key (s : Kqueue cls T W) (o : O) (filter : Filter) : Key :=
  ⟨(s.object o).context, (s.object o).socket, filter⟩

def drop (s : Kqueue cls T W) (gone : Key → Bool) : Kqueue cls T W :=
  { s with kernel := fun key => if gone key then none else s.kernel key }

variable [DecidableEq T]

def suspend (s : Kqueue cls T W) (t : T) (site : Option W) (o : O) : Kqueue cls T W :=
  match (cls o).suspend (s.object o).members with
  | .fail ec => s.goto t (.refuse site o ec)
  | .queueRecv => s.goto t (.add site o .read)
  | .queueSend => s.goto t (.add site o .write)

def add (s : Kqueue cls T W) (t : T) (site : Option W) (o : O) (filter : Filter) :
    Except Errno Unit → Kqueue cls T W
  -- `EV_ADD` of an event that the kqueue has already changes its `udata`.
  | .ok () =>
      { s with kernel := Function.update s.kernel (s.key o filter) (some o) }.goto t .added
  | .error errno => s.goto t (.refuse site o (.native errno))

def deliver (s : Kqueue cls T W) (t : T) (key : Key) (o : O) : Kqueue cls T W :=
  -- `EV_ONESHOT` deletes the event when `kevent` reports it.
  { s with
    kernel := Function.update s.kernel key none
    batch := Function.update s.batch t (s.batch t ++ [o]) }

variable [DecidableEq O] [DecidableEq W]

def go (s : Kqueue cls T W) (t : T) : Option (Kqueue cls T W) :=
  match s.pc t with
  | .suspend site o => some (s.suspend t site o)
  | _ => s.code t

def step (s : Kqueue cls T W) : Action cls T W → Option (Kqueue cls T W)
  | .await t w o object =>
      provided (s.pc t = .free ∧ s.users o = [] ∧ s.begun w = false)
        ((s.construct o object).start t w o)
  | .ready t w o report => provided (s.pc t = .awaitReady w o) (s.ready t w o report)
  | .add t result =>
      match s.pc t with
      | .add site o filter => some (s.add t site o filter result)
      | _ => none
  | .resume t o report => provided (s.pc t = .resume o) (s.resume t o report)
  | .poll t bufferSize =>
      provided (s.pc t = .free ∧ s.batch t = [])
        ({ s with bufferSize := Function.update s.bufferSize t bufferSize }.goto t .polling)
  | .deliver t key =>
      match s.kernel key with
      | some o =>
          provided (s.pc t = .polling ∧ (s.batch t).length < s.bufferSize t) (s.deliver t key o)
      | none => none
  | .polled t => provided (s.pc t = .polling) (s.goto t .free)
  | .dispatch t =>
      match s.batch t with
      | o :: rest =>
          provided (s.pc t = .free)
            ({ s with batch := Function.update s.batch t rest }.goto t (.resume o))
      | [] => none
  | .close fd => some (s.drop fun key => key.id = fd)
  | .go t => s.go t

end Kqueue

def suspends : Filter → Suspend
  | .read => .queueRecv
  | .write => .queueSend

def eventClass : Filter → EventClass
  | .read =>
      { Operation.tcpRecvClass with
        awaitReady := Tcp.Recv.awaitReady .freebsd
        resume := Tcp.Recv.resume .freebsd }
  | .write =>
      Operation.sendingClass Tcp.Send.suspend (Tcp.Send.awaitReady .freebsd)
        (Tcp.Send.resume .freebsd)

theorem eventClass_suspend (filter : Filter) (members : (eventClass filter).Members) :
    (eventClass filter).suspend members = suspends filter := by
  cases filter <;> rfl

end Ice.Event.Filters
