import Ice.Net.Tcp.WindowsOperations
import Ice.Net.Udp.Operations

namespace Ice.Net.Udp.Windows
open Tcp.Windows (ioPending)

structure Recv where
  endpoint : Endpoint
  buffer : Buffer
  size : Nat := 0
  bytes : Nat := 0
  ec : ErrorCode := .ok
  deriving DecidableEq

namespace Recv

def issue (op : Recv) : Except Errno (Nat × Endpoint) → Recv × Option Bool
  | .error rc =>
      if rc ≠ ioPending then ({ op with ec := .native rc }, some false)
      else (op, some true)
  | .ok (bytes, sender) =>
      ({ op with endpoint := sender, bytes := bytes, size := addSize 64 op.size bytes }, some false)

/-- `recv::resume`; after an error the sum takes what `bytes_` was before. -/
def resume (op : Recv) : Except Errno (Nat × Endpoint) → Recv × Option Bool
  | .error rc => ({ op with ec := .native rc, size := addSize 64 op.size op.bytes }, some true)
  | .ok (bytes, sender) =>
      ({ op with endpoint := sender, bytes := bytes, size := addSize 64 op.size bytes }, some true)

end Recv

structure Datagram where
  endpoint : Endpoint
  sending : Tcp.Windows.Send
  deriving DecidableEq

namespace Send

def issue (op : Datagram) (result : Except Errno Nat) : Datagram × Option Bool :=
  let attempt := op.sending.issue result
  ({ op with sending := attempt.1 }, attempt.2)

def resume (op : Datagram) (result : Except Errno Nat) : Datagram × Option Bool :=
  let attempt := op.sending.resume result
  ({ op with sending := attempt.1 }, some attempt.2)

end Send

namespace SendSome

def issue (op : Datagram) (result : Except Errno Nat) : Datagram × Option Bool :=
  let attempt := Tcp.Windows.SendSome.issue op.sending result
  ({ op with sending := attempt.1 }, attempt.2)

def resume (op : Datagram) (result : Except Errno Nat) : Datagram × Option Bool :=
  let attempt := Tcp.Windows.SendSome.resume op.sending result
  ({ op with sending := attempt.1 }, attempt.2)

end SendSome

end Ice.Net.Udp.Windows
