import Ice.Net.Tcp.Operations
import Ice.Net.Udp.Operations
import Ice.Net.Ssh.Transport

namespace Ice.Event
open Net

/-- A class derived from `event`. `awaitReady` and `resume` answer `none` when they make their call
again. An object of a shared class outlives its waits; the others are temporaries of one
`co_await`. -/
structure EventClass where
  Members : Type
  Ready : Type
  Resume : Type
  Call : Type
  shared : Bool
  awaitReady : Members → Ready → Members × Option Bool
  suspend : Members → Suspend
  resume : Members → Resume → Members × Option Bool
  call : Members → Call → Members
  ec : Members → ErrorCode
  record : Members → ErrorCode → Members

inductive Operation where
  | tcpAccept
  | tcpConnect
  | tcpRecv
  | tcpSend
  | tcpSendSome
  | udpRecv
  | udpSend
  | udpSendSome
  | sshTransport
  deriving DecidableEq, Repr

namespace Operation

def tcpAcceptClass : EventClass where
  Members := Tcp.Accept
  Ready := Except Errno (Fd × Endpoint)
  Resume := Except Errno (Fd × Endpoint)
  Call := Empty
  shared := false
  awaitReady := Tcp.Accept.awaitReady .linux
  suspend := Tcp.Accept.suspend
  resume := Tcp.Accept.resume .linux
  call op _ := op
  ec := Tcp.Accept.ec
  record op ec := { op with ec }

def tcpConnectClass : EventClass where
  Members := Tcp.Connect
  Ready := Except Errno Unit
  Resume := Except Errno Errno
  Call := Empty
  shared := false
  awaitReady := Tcp.Connect.awaitReady .linux
  suspend := Tcp.Connect.suspend
  resume := Tcp.Connect.resume
  call op _ := op
  ec := Tcp.Connect.ec
  record op ec := { op with ec }

def tcpRecvClass : EventClass where
  Members := Tcp.Recv
  Ready := Except Errno Nat
  Resume := Except Errno Nat
  Call := Empty
  shared := false
  awaitReady := Tcp.Recv.awaitReady .linux
  suspend := Tcp.Recv.suspend
  resume := Tcp.Recv.resume .linux
  call op _ := op
  ec := Tcp.Recv.ec
  record op ec := { op with ec }

def sendingClass (suspend : Sending → Suspend)
    (awaitReady resume : Sending → Except Errno Nat → Sending × Option Bool) : EventClass where
  Members := Sending
  Ready := Except Errno Nat
  Resume := Except Errno Nat
  Call := Empty
  shared := false
  awaitReady := awaitReady
  suspend := suspend
  resume := resume
  call op _ := op
  ec := Sending.ec
  record op ec := { op with ec }

def tcpSendClass : EventClass :=
  sendingClass Tcp.Send.suspend (Tcp.Send.awaitReady .linux) (Tcp.Send.resume .linux)

def tcpSendSomeClass : EventClass :=
  sendingClass Tcp.SendSome.suspend (Tcp.SendSome.awaitReady .linux) (Tcp.SendSome.resume .linux)

def udpRecvClass : EventClass where
  Members := Udp.Recv
  Ready := Except Errno (Nat × Endpoint)
  Resume := Except Errno (Nat × Endpoint)
  Call := Empty
  shared := false
  awaitReady := Udp.Recv.awaitReady .linux
  suspend := Udp.Recv.suspend
  resume := Udp.Recv.resume .linux
  call op _ := op
  ec := Udp.Recv.ec
  record op ec := { op with ec }

def datagramClass (suspend : Udp.Datagram → Suspend)
    (awaitReady resume : Udp.Datagram → Except Errno Nat → Udp.Datagram × Option Bool) :
    EventClass where
  Members := Udp.Datagram
  Ready := Except Errno Nat
  Resume := Except Errno Nat
  Call := Empty
  shared := false
  awaitReady := awaitReady
  suspend := suspend
  resume := resume
  call op _ := op
  ec op := op.sending.ec
  record op ec := { op with sending.ec := ec }

def udpSendClass : EventClass :=
  datagramClass Udp.Send.suspend (Udp.Send.awaitReady .linux) (Udp.Send.resume .linux)

def udpSendSomeClass : EventClass :=
  datagramClass Udp.SendSome.suspend (Udp.SendSome.awaitReady .linux) (Udp.SendSome.resume .linux)

def sshTransportClass : EventClass where
  Members := Ssh.Transport
  Ready := Unit
  Resume := Unit
  Call := Ssh.Callback
  shared := true
  awaitReady := Ssh.Transport.awaitReady
  suspend := Ssh.Transport.suspend
  resume := Ssh.Transport.resume
  call op callback := (op.callback callback).1
  ec := Ssh.Transport.ec
  record op ec := { op with ec }

def eventClass : Operation → EventClass
  | tcpAccept => tcpAcceptClass
  | tcpConnect => tcpConnectClass
  | tcpRecv => tcpRecvClass
  | tcpSend => tcpSendClass
  | tcpSendSome => tcpSendSomeClass
  | udpRecv => udpRecvClass
  | udpSend => udpSendClass
  | udpSendSome => udpSendSomeClass
  | sshTransport => sshTransportClass

end Operation

end Ice.Event
