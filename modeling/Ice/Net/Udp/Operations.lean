import Ice.Net.Tcp.Operations

namespace Ice.Net.Udp

structure Recv where
  endpoint : Endpoint
  buffer : Buffer
  size : Nat := 0
  ec : ErrorCode := .ok
  deriving DecidableEq

namespace Recv

def awaitReady (os : Os) (op : Recv) : Except Errno (Nat × Endpoint) → Recv × Option Bool
  | .ok (rc, sender) => ({ op with endpoint := sender, size := addSize 64 op.size rc }, some true)
  | .error errno =>
      let op := { op with endpoint.size := Endpoint.capacity }
      if errno = .econnreset os then ({ op with size := 0 }, some true)
      else if Errno.fatal os errno then ({ op with ec := .native errno }, some true)
      else (op, some false)

def suspend (_ : Recv) : Suspend := .queueRecv

def resume (os : Os) : Recv → Except Errno (Nat × Endpoint) → Recv × Option Bool := awaitReady os

end Recv

/-- The members of `udp::send` and `udp::send_some`, with the endpoint they refer to. -/
structure Datagram where
  endpoint : Endpoint
  sending : Sending
  deriving DecidableEq

def Datagram.awaitReady (os : Os) (finished : Sending → Bool) (op : Datagram)
    (result : Except Errno Nat) : Datagram × Option Bool :=
  let attempt := op.sending.awaitReady os finished result
  ({ op with sending := attempt.1 }, attempt.2)

namespace Send

def awaitReady (os : Os) : Datagram → Except Errno Nat → Datagram × Option Bool :=
  Datagram.awaitReady os fun op => op.buffer.size == 0

def suspend (_ : Datagram) : Suspend := .queueSend

def resume (os : Os) : Datagram → Except Errno Nat → Datagram × Option Bool := awaitReady os

end Send

namespace SendSome

def awaitReady (os : Os) : Datagram → Except Errno Nat → Datagram × Option Bool :=
  Datagram.awaitReady os fun _ => true

def suspend (_ : Datagram) : Suspend := .queueSend

def resume (os : Os) : Datagram → Except Errno Nat → Datagram × Option Bool := awaitReady os

end SendSome

end Ice.Net.Udp
