import Ice.Net.Buffer
import Ice.Net.Socket

/-!
# TCP operations on Linux and FreeBSD

The POSIX branches of `await_ready`, `suspend` and `resume` in `tcp/socket.cpp`. A function that
makes a system call is given what the call reports, and answers `none` where the source goes round
a loop to make the call again.
-/

namespace Ice.Net

inductive Suspend where
  | queueRecv
  | queueSend
  | fail (ec : ErrorCode)
  deriving DecidableEq, Repr

def Errno.fatal (os : Os) (errno : Errno) : Bool :=
  errno ≠ .eagain os ∧ errno ≠ .eintr

structure Sending where
  buffer : Buffer
  size : Nat := 0
  ec : ErrorCode := .ok
  deriving DecidableEq, Repr

namespace Sending

def make (os : Os) (size : Nat) : Sending := { buffer := .make os size }

def book (op : Sending) (rc : Nat) : Sending :=
  { op with
    buffer := { data := op.buffer.data + rc, size := subSize 64 op.buffer.size rc }
    size := addSize 64 op.size rc }

def awaitReady (os : Os) (finished : Sending → Bool) (op : Sending) :
    Except Errno Nat → Sending × Option Bool
  -- The body of `await_ready`; `finished` is what it returns after a call that took bytes.
  | .ok 0 => (op, some true)
  | .ok (rc + 1) => (op.book (rc + 1), some (finished (op.book (rc + 1))))
  | .error errno =>
      if Errno.fatal os errno then ({ op with ec := .native errno }, some true)
      else (op, some false)

def awaitResume (op : Sending) : Except ErrorCode Nat :=
  if op.ec.isError then .error op.ec else .ok op.size

theorem make_eq {os : Os} {size : Nat} (fits : size < 2 ^ 32) :
    make os size = { buffer := { size := size } } := by
  have wide : size < 2 ^ sizeBits os :=
    Nat.lt_of_lt_of_le fits (Nat.pow_le_pow_right (by decide) (by cases os <;> decide))
  rw [make, Buffer.make, Nat.mod_eq_of_lt wide]

theorem awaitReady_written {os : Os} {finished : Sending → Bool} {op : Sending} {rc : Nat}
    (positive : 0 < rc) :
    awaitReady os finished op (.ok rc) = (op.book rc, some (finished (op.book rc))) := by
  cases rc with
  | zero => omega
  | succ rc => rfl

theorem awaitReady_blocked {os : Os} {finished : Sending → Bool} {op : Sending} {errno : Errno}
    (transient : Errno.fatal os errno = false) :
    awaitReady os finished op (.error errno) = (op, some false) := by
  simp [awaitReady, transient]

theorem book_eq {op : Sending} {rc : Nat} (within : rc ≤ op.buffer.size)
    (fits : op.size + op.buffer.size < 2 ^ 64) :
    op.book rc =
      { op with
        buffer := { data := op.buffer.data + rc, size := op.buffer.size - rc }
        size := op.size + rc } := by
  rw [book, subSize_of_le within (by omega), addSize_of_lt (by omega)]

end Sending

namespace Tcp

namespace Send

def awaitReady (os : Os) : Sending → Except Errno Nat → Sending × Option Bool :=
  Sending.awaitReady os fun op => op.buffer.size == 0

def suspend (_ : Sending) : Suspend := .queueSend

def resume (os : Os) : Sending → Except Errno Nat → Sending × Option Bool := awaitReady os

end Send

namespace SendSome

def awaitReady (os : Os) : Sending → Except Errno Nat → Sending × Option Bool :=
  Sending.awaitReady os fun _ => true

def suspend (_ : Sending) : Suspend := .queueSend

def resume (os : Os) : Sending → Except Errno Nat → Sending × Option Bool := awaitReady os

end SendSome

structure Recv where
  buffer : Buffer
  ec : ErrorCode := .ok
  deriving DecidableEq, Repr

namespace Recv

def make (os : Os) (size : Nat) : Recv := { buffer := .make os size }

/-- `recv::await_ready`; a connection that was reset reads as its end. -/
def awaitReady (os : Os) (op : Recv) : Except Errno Nat → Recv × Option Bool
  | .ok rc => ({ op with buffer := { op.buffer with size := rc } }, some true)
  | .error errno =>
      if errno = .econnreset os then ({ op with buffer := { op.buffer with size := 0 } }, some true)
      else if Errno.fatal os errno then ({ op with ec := .native errno }, some true)
      else (op, some false)

def suspend (_ : Recv) : Suspend := .queueRecv

def resume (os : Os) : Recv → Except Errno Nat → Recv × Option Bool := awaitReady os

def awaitResume (op : Recv) : Except ErrorCode Nat :=
  if op.ec.isError then .error op.ec else .ok op.buffer.size

end Recv

namespace Accept

def awaitReady (os : Os) (op : Accept) : Except Errno (Fd × Endpoint) → Accept × Option Bool
  | .ok (fd, peer) =>
      ({ op with client := { op.client with endpoint := peer, handle := some fd } }, some true)
  | .error errno =>
      let offered := { op.client.endpoint with size := Endpoint.capacity }
      let op := { op with client := { op.client with endpoint := offered, handle := none } }
      if Errno.fatal os errno then ({ op with ec := .native errno }, some true)
      else (op, some false)

def suspend (_ : Accept) : Suspend := .queueRecv

def resume (os : Os) : Accept → Except Errno (Fd × Endpoint) → Accept × Option Bool := awaitReady os

end Accept

namespace Connect

/-- `connect::await_ready`: an interrupted call is made again on Linux. A call that failed for good
is recorded, but the answer is false as for one in progress. -/
def awaitReady (os : Os) (op : Connect) : Except Errno Unit → Connect × Option Bool
  | .ok () => (op, some true)
  | .error errno =>
      if errno = .einprogress os then (op, some false)
      else if errno = .eintr then (op, if os = .linux then none else some false)
      else ({ op with ec := .native errno }, some false)

def suspend (_ : Connect) : Suspend := .queueSend

def resume (op : Connect) : Except Errno Errno → Connect × Option Bool
  | .ok code => (if code ≠ 0 then { op with ec := .native code } else op, some true)
  | .error errno => ({ op with ec := .native errno }, some true)

def awaitResume (op : Connect) : Except ErrorCode Unit :=
  if op.ec.isError then .error op.ec else .ok ()

end Connect

end Tcp

end Ice.Net
