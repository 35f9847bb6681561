import Ice.Async.Mutex
import Ice.Http.Handler

namespace Ice.Http
open Transition Net Async

inductive Responder where
  | absent
  | locking
  | sending (op : Sending)
  | sent
  | finished
  deriving DecidableEq, Repr

namespace Connection

/-- Where `handle` is. At `calling` it is about to call `respond`, which is at work on a thread at
`responding`; at `locking` it is about to lock the mutex, for which it waits at `acquiring`. -/
inductive Place (T : Type) where
  | receiving
  | scanning (rest : List Byte)
  | calling (rest : List Byte)
  | responding (t : T) (rest : List Byte)
  | locking
  | acquiring
  | finished
  deriving DecidableEq, Repr

def Place.next {T : Type} : List Byte → Place T
  | [] => .receiving
  | rest => .scanning rest

end Connection

structure Connection (T : Type) where
  received : List Byte := []
  handle : Connection.Place T := .receiving
  newline : Bool := false
  started : Nat := 0
  responder : Nat → Responder := fun _ => .absent
  wire : List Byte := []
  mutex : Mutex T Client

namespace Connection

variable {T : Type}

inductive Action (T : Type) where
  | recv (chunk : List Byte)
  | scan
  | respond (t : T) (next : Option Client)
  | responded
  | lock (t : T) (next : Option Client)
  | write (i rc : Nat)
  | block (i : Nat) (errno : Errno)
  | unlock (t : T) (i : Nat)
  | advance (t : T) (spurious : Bool)
  deriving DecidableEq, Repr

def setResponder (c : Connection T) (i : Nat) (responder : Responder) : Connection T :=
  { c with responder := Function.update c.responder i responder }

def grant (os : Os) (response : List Byte) (c : Connection T) : Option Client → Connection T
  -- What a coroutine does when it has got the mutex: a responder starts its `send`, `handle` comes
  -- to its end.
  | some (.responder i) => c.setResponder i (.sending (.make os response.length))
  | some .handle => { c with handle := .finished }
  | none => c

/-- The mutex after an instruction, which may have resumed a coroutine. -/
def settle (os : Os) (response : List Byte) (c : Connection T) (mutex : Mutex T Client) :
    Connection T :=
  (mutex.granted.drop c.mutex.granted.length).foldl (grant os response) { c with mutex }

variable [DecidableEq T]

def enter (mutex : Mutex T Client) (t : T) (client : Client) (next : Option Client) :
    Option (Mutex T Client) :=
  (mutex.step (.construct client next)).bind fun mutex => mutex.step (.lockAsync t client)

def send (c : Connection T) (i : Nat) (attempt : Sending × Option Bool) : Connection T :=
  c.setResponder i (if attempt.2 = some true then .sent else .sending attempt.1)

def step (os : Os) (response : List Byte) (c : Connection T) : Action T → Option (Connection T)
  | .recv chunk =>
      provided (c.handle = .receiving ∧ chunk.length ≤ 1024) <|
        let size := (Tcp.Recv.awaitReady os (.make os 1024) (.ok chunk.length)).1.buffer.size
        if size = 0 then { c with handle := .locking }
        else { c with received := c.received ++ chunk, handle := .scanning (chunk.take size) }
  | .scan =>
      match c.handle with
      | .scanning (x :: rest) =>
          some <|
            if (scanByte c.newline x).2 then { c with handle := .calling rest }
            else { c with newline := (scanByte c.newline x).1, handle := .next rest }
      | _ => none
  | .respond t next =>
      match c.handle with
      | .calling rest =>
          (enter c.mutex t (.responder c.started) next).map fun mutex =>
            { c.setResponder c.started .locking with
              started := c.started + 1, handle := .responding t rest, mutex }
      | _ => none
  | .responded =>
      match c.handle with
      | .responding t rest =>
          provided (c.mutex.pc t = .outside) { c with newline := false, handle := .next rest }
      | _ => none
  | .lock t next =>
      match c.handle with
      | .locking =>
          (enter c.mutex t .handle next).map fun mutex => { c with handle := .acquiring, mutex }
      | _ => none
  | .write i rc =>
      match c.responder i with
      | .sending op =>
          provided (0 < rc ∧ rc ≤ op.buffer.size) <|
            { c with wire := c.wire ++ (op.buffer.view response).take rc }.send i
              (Tcp.Send.awaitReady os op (.ok rc))
      | _ => none
  | .block i errno =>
      match c.responder i with
      | .sending op =>
          provided (Errno.fatal os errno = false) <|
            c.send i (Tcp.Send.awaitReady os op (.error errno))
      | _ => none
  | .unlock t i =>
      match c.responder i with
      | .sent =>
          (c.mutex.step (.unlock t (some (.responder i)))).map fun mutex =>
            { c.setResponder i .finished with mutex }
      | _ => none
  | .advance t spurious => (c.mutex.step (.advance t spurious)).map (c.settle os response)

end Connection

end Ice.Http
