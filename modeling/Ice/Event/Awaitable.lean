import Ice.Event.Operation
import Ice.Net.Tcp.WindowsOperations
import Ice.Net.Udp.WindowsOperations

namespace Ice.Event
open Net

/-- A function is given what the system reports of its call, and answers `none` where it makes the
call again. `polls` says that `await_ready` makes a call; without one it answers false. `leaves`
says that `suspend` answers false before its call. A failure is the code of a call that failed. -/
structure Awaitable where
  Members : Type
  Ready : Type
  Call : Type
  Resume : Type
  polls : Bool
  leaves : Members → Bool
  awaitReady : Members → Ready → Members × Option Bool
  suspend : Members → Call → Members × Option Bool
  resume : Members → Resume → Members × Option Bool
  ec : Members → ErrorCode
  readyFailure : Ready → Option Errno
  callFailure : Call → Option Errno
  resumeFailure : Resume → Option Errno

namespace Awaitable

inductive Report (c : Awaitable) where
  | ready (report : c.Ready)
  | call (report : c.Call)
  | resume (report : c.Resume)

variable (c : Awaitable)

def run (members : c.Members) : c.Report → c.Members × Option Bool
  | .ready report => c.awaitReady members report
  | .call report => c.suspend members report
  | .resume report => c.resume members report

def failure : c.Report → Option Errno
  | .ready report => c.readyFailure report
  | .call report => c.callFailure report
  | .resume report => c.resumeFailure report

def thrown (members : c.Members) : Option ErrorCode :=
  if (c.ec members).isError then some (c.ec members) else none

end Awaitable

inductive SocketOperation where
  | tcpAccept
  | tcpConnect
  | tcpRecv
  | tcpSend
  | tcpSendSome
  | udpRecv
  | udpSend
  | udpSendSome
  deriving DecidableEq, Repr

namespace SocketOperation

def failed {R : Type} : Except Errno R → Option Errno
  | .ok _ => none
  | .error errno => some errno

/-- The POSIX branches. The call of `suspend` is the registration in `queue_recv` or `queue_send`. -/
def posix (c : EventClass) (readyFailure : c.Ready → Option Errno)
    (resumeFailure : c.Resume → Option Errno) : Awaitable where
  Members := c.Members
  Ready := c.Ready
  Call := Except Errno Unit
  Resume := c.Resume
  polls := true
  leaves _ := false
  awaitReady := c.awaitReady
  suspend op
    | .ok () => (op, some true)
    | .error errno => (c.record op (.native errno), some false)
  resume := c.resume
  ec := c.ec
  readyFailure := readyFailure
  callFailure := failed
  resumeFailure := resumeFailure

def connectFailed : Except Errno Errno → Option Errno
  -- `getsockopt` fails itself or reports that the connection did.
  | .ok code => if code ≠ 0 then some code else none
  | .error errno => some errno

def posixAwaitable (os : Os) : SocketOperation → Awaitable
  | tcpAccept =>
      posix { Operation.tcpAcceptClass with
        awaitReady := Tcp.Accept.awaitReady os
        resume := Tcp.Accept.resume os } failed failed
  | tcpConnect =>
      posix { Operation.tcpConnectClass with awaitReady := Tcp.Connect.awaitReady os }
        failed connectFailed
  | tcpRecv =>
      posix { Operation.tcpRecvClass with
        awaitReady := Tcp.Recv.awaitReady os
        resume := Tcp.Recv.resume os } failed failed
  | tcpSend =>
      posix { Operation.tcpSendClass with
        awaitReady := Tcp.Send.awaitReady os
        resume := Tcp.Send.resume os } failed failed
  | tcpSendSome =>
      posix { Operation.tcpSendSomeClass with
        awaitReady := Tcp.SendSome.awaitReady os
        resume := Tcp.SendSome.resume os } failed failed
  | udpRecv =>
      posix { Operation.udpRecvClass with
        awaitReady := Udp.Recv.awaitReady os
        resume := Udp.Recv.resume os } failed failed
  | udpSend =>
      posix { Operation.udpSendClass with
        awaitReady := Udp.Send.awaitReady os
        resume := Udp.Send.resume os } failed failed
  | udpSendSome =>
      posix { Operation.udpSendSomeClass with
        awaitReady := Udp.SendSome.awaitReady os
        resume := Udp.SendSome.resume os } failed failed

def windows {Members Call Resume : Type} (leaves : Members → Bool)
    (suspend : Members → Call → Members × Option Bool)
    (resume : Members → Resume → Members × Option Bool) (ec : Members → ErrorCode)
    (callFailure : Call → Option Errno) (resumeFailure : Resume → Option Errno) : Awaitable where
  Members := Members
  Ready := Unit
  Call := Call
  Resume := Resume
  polls := false
  leaves := leaves
  awaitReady op _ := (op, some false)
  suspend := suspend
  resume := resume
  ec := ec
  readyFailure _ := none
  callFailure := callFailure
  resumeFailure := resumeFailure

def connectExFailed : Except Errno (Except Errno Unit) → Option Errno
  | .error ec => some ec
  | .ok result => failed result

def windowsAwaitable : SocketOperation → Awaitable
  | tcpAccept =>
      windows (fun _ => false) Tcp.Windows.Accept.issue Tcp.Windows.Accept.resume
        Tcp.Windows.Accept.ec failed failed
  | tcpConnect =>
      windows (fun _ => false) Tcp.Windows.Connect.issue Tcp.Windows.Connect.resume
        Tcp.Connect.ec connectExFailed failed
  | tcpRecv =>
      windows (fun _ => false) Tcp.Windows.Recv.issue Tcp.Windows.Recv.resume
        Tcp.Windows.Recv.ec failed failed
  | tcpSend =>
      windows Tcp.Windows.Send.exhausted Tcp.Windows.Send.issue
        (fun op result => ((op.resume result).1, some (op.resume result).2))
        Tcp.Windows.Send.ec failed failed
  | tcpSendSome =>
      windows (fun _ => false) Tcp.Windows.SendSome.issue Tcp.Windows.SendSome.resume
        Tcp.Windows.Send.ec failed failed
  | udpRecv =>
      windows (fun _ => false) Udp.Windows.Recv.issue Udp.Windows.Recv.resume
        Udp.Windows.Recv.ec failed failed
  | udpSend =>
      windows (fun op => op.sending.exhausted) Udp.Windows.Send.issue Udp.Windows.Send.resume
        (fun op => op.sending.ec) failed failed
  | udpSendSome =>
      windows (fun _ => false) Udp.Windows.SendSome.issue Udp.Windows.SendSome.resume
        (fun op => op.sending.ec) failed failed

def awaitable : Os → SocketOperation → Awaitable
  | .win32 => windowsAwaitable
  | os => posixAwaitable os

end SocketOperation

end Ice.Event
