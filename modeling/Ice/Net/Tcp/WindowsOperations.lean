import Ice.Net.Tcp.Operations
import Ice.Net.Tcp.WindowsSend

namespace Ice.Net.Tcp.Windows

def wsaeconnreset : Errno := 10054

def Send.exhausted (op : Send) : Bool := op.buffer.size == 0

namespace SendSome

def issue (op : Send) : Except Errno Nat → Send × Option Bool
  | .error rc =>
      if rc ≠ ioPending then ({ op with ec := .native rc }, some false)
      else (op, some true)
  | .ok bytes =>
      ({ op with
        bytes := bytes
        buffer := { data := op.buffer.data + bytes, size := subSize 32 op.buffer.size bytes }
        size := addSize 64 op.size bytes }, some false)

def resume (op : Send) : Except Errno Nat → Send × Option Bool
  | .error rc => ({ op with ec := .native rc }, some true)
  | .ok bytes =>
      ({ op with
        bytes := bytes
        buffer := { op.buffer with data := op.buffer.data + bytes - bytes }
        size := addSize 64 op.size bytes }, some true)

end SendSome

structure Recv where
  buffer : Buffer
  bytes : Nat := 0
  ec : ErrorCode := .ok
  deriving DecidableEq, Repr

namespace Recv

def issue (op : Recv) : Except Errno Nat → Recv × Option Bool
  | .error rc =>
      if rc ≠ ioPending then ({ op with ec := .native rc }, some false)
      else (op, some true)
  | .ok bytes => ({ op with bytes := bytes, buffer.size := bytes }, some false)

def resume (op : Recv) : Except Errno Nat → Recv × Option Bool
  -- `recv::resume`; after an error the size is taken from what `bytes_` was before.
  | .error rc => ({ op with ec := .native rc, buffer.size := op.bytes }, some true)
  | .ok bytes => ({ op with bytes := bytes, buffer.size := bytes }, some true)

def awaitResume (op : Recv) : Except ErrorCode Nat :=
  if op.ec.isError then .error op.ec else .ok op.buffer.size

end Recv

/-- `remote` is the half of `buffer_` from `buffer_size` on, where `AcceptEx` puts the address of
the peer. -/
structure Accept where
  client : Socket
  remote : Vector (BitVec 8) 128
  ec : ErrorCode := .ok
  deriving DecidableEq

namespace Accept

def ssFamily (storage : Vector (BitVec 8) 128) : Int := (storage[1]! ++ storage[0]!).toNat

def issue (op : Accept) : Except Errno (Vector (BitVec 8) 128) → Accept × Option Bool
  -- `accept::suspend`: a call that succeeds at once ends the loop.
  | .ok remote => ({ op with remote }, some false)
  | .error rc =>
      if rc = ioPending then (op, some true)
      else if rc ≠ wsaeconnreset then ({ op with ec := .native rc }, some false)
      else (op, none)

def resume (op : Accept) : Except Errno (Vector (BitVec 8) 128) → Accept × Option Bool
  | .ok remote =>
      let op := { op with remote }
      let named (size : BitVec 32) : Accept :=
        { op with client.endpoint :=
          { storage := Vector.ofFn fun i =>
              if i.val < size.toNat then op.remote.get i else op.client.endpoint.storage.get i
            size } }
      if ssFamily op.remote = afInet then (named Endpoint.sockaddrInSize, some true)
      else if ssFamily op.remote = afInet6 .win32 then (named Endpoint.sockaddrIn6Size, some true)
      else (op, some true)
  | .error rc =>
      if rc ≠ wsaeconnreset then ({ op with ec := .native rc }, some true) else (op, some false)

def awaitResume (op : Accept) : Except ErrorCode Socket :=
  if op.ec.isError then .error op.ec else .ok op.client.moveConstruct.1

end Accept

namespace Connect

/-- The constructor: a `bind` that failed is recorded, and the operation is made all the same. -/
def make (socket : Socket) (endpoint : Endpoint) : Except Errno Unit → Tcp.Connect × Socket
  | .ok () => Tcp.Connect.make socket endpoint
  | .error rc => ({ (Tcp.Connect.make socket endpoint).1 with ec := .native rc },
      (Tcp.Connect.make socket endpoint).2)

/-- `connect::suspend`. The outer report is the `ec` of the one `connect_ex`, which looks up the
function; the inner one is what the function reports. -/
def issue (op : Tcp.Connect) : Except Errno (Except Errno Unit) → Tcp.Connect × Option Bool
  | .error ec => ({ op with ec := .native ec }, some false)
  | .ok (.ok ()) => (op, some false)
  | .ok (.error rc) =>
      if rc ≠ ioPending then ({ op with ec := .native rc }, some false)
      else (op, some true)

def resume (op : Tcp.Connect) : Except Errno Unit → Tcp.Connect × Option Bool
  | .ok () => (op, some true)
  | .error rc => ({ op with ec := .native rc }, some true)

end Connect

end Ice.Net.Tcp.Windows
