import Ice.Net.Tcp.Operations

namespace Ice.Net.Ssh

inductive Operation where
  | none
  | recv
  | send
  deriving DecidableEq, Repr

structure Transport where
  operation : Operation := .none
  ec : ErrorCode := .ok
  deriving DecidableEq, Repr

inductive Callback where
  | onRecv (result : Except Errno Nat)
  | onSend (result : Except Errno Nat)
  deriving Repr

namespace Transport

def awaitReady (op : Transport) (_ : Unit) : Transport × Option Bool := (op, some false)

def suspend (op : Transport) : Suspend :=
  match op.operation with
  | .recv => .queueRecv
  | .send => .queueSend
  | .none => .fail (.errc Errno.einval)

def resume (op : Transport) (_ : Unit) : Transport × Option Bool := (op, some true)

/-- A callback whose call failed asks for a wait; an interrupted call is made again. -/
def onError (op : Transport) (waits : Operation) : Except Errno Nat → Transport × Option Int
  | .ok rc => (op, some rc)
  | .error errno =>
      if errno = Errno.eintr then (op, none)
      else ({ op with operation := waits },
        some (if 0 < errno.toInt then -errno.toInt else errno.toInt))

def onRecv (op : Transport) : Except Errno Nat → Transport × Option Int := op.onError .recv

def onSend (op : Transport) : Except Errno Nat → Transport × Option Int := op.onError .send

def callback (op : Transport) : Callback → Transport × Option Int
  | .onRecv result => op.onRecv result
  | .onSend result => op.onSend result

end Transport

end Ice.Net.Ssh
