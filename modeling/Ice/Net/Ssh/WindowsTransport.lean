import Mathlib.Data.Option.Basic
import Ice.Net.Ssh.Transport
import Ice.Lib.Transition

/-!
# The transport of an ssh session over overlapped I/O

The `ICE_OS_WIN32` branches of `ssh/transport.cpp`. One buffer, one count and one flag serve both
directions: a callback of libssh2 that finds no completion asks for a request and answers `EAGAIN`,
and the next one is meant to find its completion.
-/

namespace Ice.Net.Ssh.Windows
open Transition

/-- `storage` is the memory from `storage_` on, of which `capacity` bytes belong to it. -/
structure Transport where
  operation : Operation := .none
  storage : Nat → BitVec 8
  bufferSize : Nat := 4096
  ready : Bool := false
  bytes : Nat := 0
  ec : ErrorCode := .ok

namespace Transport

def capacity : Nat := 4096

def read (storage : Nat → BitVec 8) (start n : Nat) : List (BitVec 8) :=
  (List.range' start n).map storage

def write (storage : Nat → BitVec 8) (start : Nat) (data : List (BitVec 8)) : Nat → BitVec 8 :=
  fun i => if start ≤ i then data[i - start]?.getD (storage i) else storage i

/-- What a call of `WSARecv` or `WSASend` reports: an error with what it leaves in `bytes_`, or the
number of bytes; a `WSARecv` that succeeds at once has put them into the buffer. -/
inductive Report where
  | pending
  | failed (rc : Errno) (bytes : Nat)
  | received (data : List (BitVec 8))
  | sent (bytes : Nat)
  deriving DecidableEq, Repr

structure Result where
  bytes : Nat
  error : Option Errno := none
  deriving DecidableEq, Repr

def note (op : Transport) : Report → Transport
  | .pending => op
  | .failed _ bytes => { op with bytes }
  | .received data => { op with storage := write op.storage 0 data, bytes := data.length }
  | .sent bytes => { op with bytes }

def suspend (op : Transport) (report : Report) : Transport × Bool :=
  match op.operation with
  | .none => ({ op with ec := .errc Errno.einval }, false)
  | _ =>
      match report with
      | .pending => (op, true)
      | .failed rc _ => ({ op.note report with ec := .native rc, ready := true }, false)
      | _ => ({ op.note report with ready := true }, false)

def resume (op : Transport) (result : Result) : Transport × Bool :=
  let op := { op with bytes := result.bytes }
  match result.error with
  | some rc => ({ op with ec := .native rc, ready := true }, true)
  | none => ({ op with ready := true }, true)

def onRecv (op : Transport) (size : Nat) : Transport × Option (List (BitVec 8)) :=
  if op.ready then ({ op with ready := false }, some (read op.storage 0 op.bytes))
  else ({ op with operation := .recv, bufferSize := min size capacity }, none)

def onSend (op : Transport) (data : List (BitVec 8)) : Transport × Option Nat :=
  -- The comparison of the data with the buffer is an assertion only.
  if op.ready then ({ op with ready := false }, some op.bytes)
  else
    let bufferSize := min data.length capacity
    ({ op with
      operation := .send
      bufferSize
      storage := write op.storage 0 (data.take bufferSize) }, none)

end Transport

/-- A request as it was made, with the bytes that the kernel has moved for it so far. -/
structure Request where
  operation : Operation
  size : Nat
  moved : List (BitVec 8) := []
  deriving DecidableEq, Repr

/-- The transport with both streams. `returned` and `reported` are what the callbacks have handed
over and accounted for, with `none` for each byte outside of the caller's memory; `heldRecv` and
`heldSent` are the bytes of the last completion while no callback has found it. -/
structure Session where
  transport : Transport
  pending : Option Request := none
  delivered : List (BitVec 8) := []
  returned : List (Option (BitVec 8)) := []
  sent : List (BitVec 8) := []
  reported : List (Option (BitVec 8)) := []
  heldRecv : List (BitVec 8) := []
  heldSent : List (BitVec 8) := []

/-- While a request is pending the kernel writes what arrives into the buffer, or reads from there
what it sends, at times of its own. -/
inductive Action where
  | onRecv (size : Nat)
  | onSend (data : List (BitVec 8))
  | suspend (report : Transport.Report)
  | deliver (data : List (BitVec 8))
  | transmit (n : Nat)
  | resume (result : Transport.Result)
  deriving DecidableEq, Repr

namespace Request

def make (op : Transport) : Request := { operation := op.operation, size := op.bufferSize }

def Reports (request : Request) : Transport.Report → Prop
  | .pending => True
  | .failed _ bytes => request.operation ≠ .none ∧ bytes ≤ request.size
  | .received data => request.operation = .recv ∧ data.length ≤ request.size
  | .sent bytes => request.operation = .send ∧ bytes ≤ request.size

instance (request : Request) (report : Transport.Report) : Decidable (request.Reports report) := by
  cases report <;> unfold Reports <;> infer_instance

def Results (request : Request) (result : Transport.Result) : Prop :=
  match result.error with
  | none => result.bytes = request.moved.length
  | some _ => result.bytes ≤ request.size

instance (request : Request) (result : Transport.Result) : Decidable (request.Results result) := by
  unfold Results
  split <;> infer_instance

end Request

namespace Session

def place (data : List (BitVec 8)) (size : Nat) : List (Option (BitVec 8)) :=
  (data.take size).map some ++ List.replicate (data.length - size) none

def first (data : List (BitVec 8)) (n : Nat) : List (Option (BitVec 8)) :=
  (List.range n).map fun i => data[i]?

def complete (s : Session) : Operation → List (BitVec 8) → Session
  | .recv, data => { s with delivered := s.delivered ++ data, heldRecv := data, heldSent := [] }
  | .send, data => { s with sent := s.sent ++ data, heldRecv := [], heldSent := data }
  | .none, _ => s

def fail (s : Session) : Session := { s with heldRecv := [], heldSent := [] }

def report (s : Session) : Transport.Report → Session
  | .pending => s
  | .failed _ _ => s.fail
  | .received data => s.complete .recv data
  | .sent bytes => s.complete .send (Transport.read s.transport.storage 0 bytes)

def consume (s : Session) (op : Transport) : Session :=
  { s with transport := op, heldRecv := [], heldSent := [] }

def setStorage (s : Session) (storage : Nat → BitVec 8) : Session :=
  { s with transport := { s.transport with storage } }

def step (s : Session) : Action → Option Session
  | .onRecv size =>
      match s.transport.onRecv size with
      | (op, some data) => some { s.consume op with returned := s.returned ++ place data size }
      | (op, none) => some { s with transport := op }
  | .onSend data =>
      match s.transport.onSend data with
      | (op, some n) => some { s.consume op with reported := s.reported ++ first data n }
      | (op, none) => some { s with transport := op }
  -- There is one request at a time: all of them use the `OVERLAPPED` of the transport.
  | .suspend report =>
      let request := Request.make s.transport
      provided (s.pending = none ∧ request.Reports report)
        { s.report report with
          transport := (s.transport.suspend report).1
          pending := if (s.transport.suspend report).2 then some request else none }
  | .deliver data =>
      match s.pending with
      | some request =>
          provided (request.operation = .recv ∧ request.moved.length + data.length ≤ request.size)
            { s.setStorage (Transport.write s.transport.storage request.moved.length data) with
              pending := some { request with moved := request.moved ++ data } }
      | none => none
  | .transmit n =>
      match s.pending with
      | some request =>
          let data := Transport.read s.transport.storage request.moved.length n
          provided (request.operation = .send ∧ request.moved.length + n ≤ request.size)
            { s with pending := some { request with moved := request.moved ++ data } }
      | none => none
  | .resume result =>
      match s.pending with
      | some request =>
          let ended :=
            match result.error with
            | none => s.complete request.operation request.moved
            | some _ => s.fail
          provided (request.Results result)
            { ended with transport := (s.transport.resume result).1, pending := none }
      | none => none

structure Streams (s : Session) : Prop where
  received : s.returned ++ s.heldRecv.map some = s.delivered.map some
  sent : s.reported ++ s.heldSent.map some = s.sent.map some

/-- A completion is found by a callback of its own direction, one that has room for all its bytes
while they are still in the buffer, or comes with the data that was sent, and before there is
another; one that has transferred nothing may be found by any. -/
def Pairs (s : Session) : Action → Prop
  | .onRecv size => s.transport.ready → s.transport.bytes = 0 ∨
      s.heldRecv ≠ [] ∧ s.transport.bytes ≤ size ∧
        Transport.read s.transport.storage 0 s.heldRecv.length = s.heldRecv
  | .onSend data =>
      s.transport.ready → s.transport.bytes = 0 ∨ s.heldSent ≠ [] ∧ s.heldSent <+: data
  | .suspend report =>
      s.transport.operation = .none ∨ report = .pending ∨ s.heldRecv = [] ∧ s.heldSent = []
  | .resume _ => s.heldRecv = [] ∧ s.heldSent = []
  | .deliver _ | .transmit _ => True

instance (s : Session) (a : Action) : Decidable (s.Pairs a) := by
  cases a <;> unfold Pairs <;> infer_instance

structure Held (s : Session) : Prop where
  idle : s.transport.ready = false → s.heldRecv = [] ∧ s.heldSent = []
  recv : s.heldRecv ≠ [] → s.heldSent = [] ∧ s.heldRecv.length = s.transport.bytes
  sent : s.heldSent ≠ [] → s.heldRecv = [] ∧ s.heldSent.length = s.transport.bytes
  operation : ∀ request, s.pending = some request → request.operation ≠ .none

variable {s t : Session}

theorem first_eq_iff {data other : List (BitVec 8)} {n : Nat} :
    first data n = other.map some ↔ other <+: data ∧ other.length = n := by
  constructor
  · intro same
    have count : other.length = n := by simpa [first] using (congrArg List.length same).symm
    refine ⟨?_, count⟩
    rw [List.prefix_iff_getElem?]
    intro i within
    have entry := congrArg (fun list => list[i]?) same
    simpa [first, within, count ▸ within] using entry
  · rintro ⟨⟨rest, rfl⟩, rfl⟩
    apply List.ext_getElem
    · simp [first]
    · intro i _ within
      have inside : i < other.length := by simpa using within
      simp [first, List.getElem?_append_left inside, inside]

theorem Streams.consume_iff (streams : Streams s) {returned reported : List (Option (BitVec 8))}
    (here : t.returned = s.returned ++ returned) (there : t.reported = s.reported ++ reported)
    (received : t.delivered = s.delivered) (sent : t.sent = s.sent)
    (found : t.heldRecv = [] ∧ t.heldSent = []) :
    Streams t ↔ returned = s.heldRecv.map some ∧ reported = s.heldSent.map some := by
  constructor
  · intro kept
    have first := kept.received
    have second := kept.sent
    rw [here, found.1, received, ← streams.received] at first
    rw [there, found.2, sent, ← streams.sent] at second
    exact ⟨by simpa using first, by simpa using second⟩
  · rintro ⟨rfl, rfl⟩
    constructor
    · rw [here, found.1, received, ← streams.received]
      simp
    · rw [there, found.2, sent, ← streams.sent]
      simp

theorem Held.nothing (held : Held s) (none : s.transport.bytes = 0) :
    s.heldRecv = [] ∧ s.heldSent = [] := by
  constructor
  · by_contra some
    have count := (held.recv some).2
    rw [none] at count
    exact some (List.length_eq_zero_iff.mp count)
  · by_contra some
    have count := (held.sent some).2
    rw [none] at count
    exact some (List.length_eq_zero_iff.mp count)

theorem Held.found (held : Held s) {op : Transport} {returned reported : List (Option (BitVec 8))} :
    Held { s.consume op with returned := returned, reported := reported } where
  idle _ := ⟨rfl, rfl⟩
  recv some := absurd rfl some
  sent some := absurd rfl some
  operation := held.operation

theorem Held.keep (held : Held s) {op : Transport} {pending : Option Request}
    (ready : op.ready = s.transport.ready) (bytes : op.bytes = s.transport.bytes)
    (posted : ∀ request, pending = some request → request.operation ≠ .none) :
    Held { s with transport := op, pending := pending } where
  idle quiet := held.idle (ready ▸ quiet)
  recv := by simpa [bytes] using held.recv
  sent := by simpa [bytes] using held.sent
  operation := posted

def start (storage : Nat → BitVec 8) : Session := { transport := { storage } }

theorem Streams.reports {data : List (BitVec 8)} (streams : Streams s) (kept : Streams t)
    (action : step s (.onSend data) = some t) (ready : s.transport.ready = true) :
    s.heldSent <+: data ∧ s.heldSent.length = s.transport.bytes := by
  simp only [step, Transport.onSend, ready, ↓reduceIte, Option.some.injEq] at action
  subst action
  have found : ([] : List (Option (BitVec 8))) = s.heldRecv.map some ∧
      first data s.transport.bytes = s.heldSent.map some := by
    apply Iff.mp (streams.consume_iff _ _ _ _ _) kept
    · exact (List.append_nil _).symm
    · rfl
    · rfl
    · rfl
    · exact ⟨rfl, rfl⟩
  exact first_eq_iff.mp found.2

end Session

end Ice.Net.Ssh.Windows
