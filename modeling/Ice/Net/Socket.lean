import Ice.Net.Endpoint
import Mathlib.Data.List.Induction

namespace Ice.Net

abbrev Fd := Nat

structure Socket where
  context : Fd
  endpoint : Endpoint
  handle : Option Fd := none
  family : Int := 0
  deriving DecidableEq

namespace Socket

/-- The defaulted move constructor: the new socket, and what is left of the other. The endpoint has
no move constructor and is copied. -/
def moveConstruct (other : Socket) : Socket × Socket :=
  ({ other with endpoint := other.endpoint.copy }, { other with handle := none })

def moveAssign (target other : Socket) : Socket × Socket :=
  ({ other with endpoint := target.endpoint.assign other.endpoint }, { other with handle := none })

def bind (s : Socket) (endpoint : Endpoint) : Except Errno Unit → Except ErrorCode Socket
  | .ok () => .ok { s with endpoint := s.endpoint.assign endpoint }
  | .error rc => .error (.native rc)

end Socket

namespace Tcp

structure Connect where
  context : Fd
  socket : Option Fd
  endpoint : Endpoint
  ec : ErrorCode := .ok
  deriving DecidableEq

def Connect.make (socket : Socket) (endpoint : Endpoint) : Connect × Socket :=
  ({ context := socket.context, socket := socket.handle, endpoint := endpoint.copy },
    { socket with endpoint := socket.endpoint.assign endpoint })

def Connect.name (op : Connect) : Vector (BitVec 8) 128 × BitVec 32 :=
  (op.endpoint.storage, op.endpoint.size)

structure Accept where
  context : Fd
  socket : Option Fd
  client : Socket
  ec : ErrorCode := .ok
  deriving DecidableEq

def Accept.awaitResume (op : Accept) : Except ErrorCode Socket :=
  if op.ec.isError then .error op.ec else .ok op.client.moveConstruct.1

end Tcp

/-- The copies of an endpoint that the library makes. Each names the objects taking part besides
the endpoint itself, in the state they are in before the copy. -/
inductive Copy where
  | construct
  | assign (target : Endpoint)
  | moveConstruct (other : Socket)
  | moveAssign (target other : Socket)
  | bind (socket : Socket)
  | connectOperation (socket : Socket)
  | connectSocket (socket : Socket)
  | acceptResult (client : Socket)

namespace Copy

def apply : Copy → Endpoint → Endpoint
  | construct, e => e.copy
  | assign target, e => target.assign e
  | moveConstruct other, e => ({ other with endpoint := e }).moveConstruct.1.endpoint
  | moveAssign target other, e => (target.moveAssign { other with endpoint := e }).1.endpoint
  | bind socket, e =>
      match socket.bind e (.ok ()) with
      | .ok bound => bound.endpoint
      | .error _ => socket.endpoint
  | connectOperation socket, e => (Tcp.Connect.make socket e).1.endpoint
  | connectSocket socket, e => (Tcp.Connect.make socket e).2.endpoint
  | acceptResult client, e => ({ client with endpoint := e }).moveConstruct.1.endpoint

def lengthBefore : Copy → BitVec 32
  | assign target => target.size
  | moveAssign target _ => target.endpoint.size
  | bind socket | connectSocket socket => socket.endpoint.size
  | construct | moveConstruct _ | connectOperation _ | acceptResult _ => 0

theorem apply_eq (c : Copy) (e : Endpoint) :
    c.apply e = { storage := e.storage, size := c.lengthBefore } := by
  cases c <;> rfl

end Copy

def Endpoint.through (e : Endpoint) (chain : List Copy) : Endpoint :=
  chain.foldl (fun e c => c.apply e) e

@[simp] theorem through_storage (e : Endpoint) (chain : List Copy) :
    (e.through chain).storage = e.storage := by
  induction chain generalizing e with
  | nil => rfl
  | cons c chain ih =>
      rw [show e.through (c :: chain) = (c.apply e).through chain from rfl, ih, Copy.apply_eq]

theorem through_size (e : Endpoint) (chain : List Copy) :
    (e.through chain).size = (chain.getLast?.map Copy.lengthBefore).getD e.size := by
  induction chain using List.reverseRecOn with
  | nil => rfl
  | append_singleton chain c _ =>
      simp [Endpoint.through, List.foldl_append, Copy.apply_eq]

def SameIdentity (os : Os) (inet : Inet) (e f : Endpoint) : Prop :=
  e.size = f.size ∧ e.family os = f.family os ∧ e.port = f.port ∧ e.host inet = f.host inet

theorem sameIdentity_iff {os : Os} {inet : Inet} {e f : Endpoint} (same : e.storage = f.storage) :
    SameIdentity os inet e f ↔ e.size = f.size := by
  refine ⟨And.left, fun size => ?_⟩
  have equal : e = f := by
    cases e
    cases f
    simp_all
  rw [equal]
  exact ⟨rfl, rfl, rfl, rfl⟩

/-- An endpoint keeps its identity exactly where the last object it was copied to already had its
length. So `connect` passes the length the caller gave, and an accepted socket has the length the
kernel reported, only when that is zero. -/
theorem endpoint_identity_iff (os : Os) (inet : Inet) (e : Endpoint) :
    (∀ chain : List Copy, SameIdentity os inet (e.through chain) e ↔
      ∀ c ∈ chain.getLast?, c.lengthBefore = e.size) ∧
    (∀ socket : Socket, (Tcp.Connect.make socket e).1.name = (e.storage, e.size) ↔ e.size = 0) ∧
    (∀ (op : Tcp.Accept) (client : Socket), op.client.endpoint = e →
      op.awaitResume = .ok client →
        (SameIdentity os inet client.endpoint e ↔ e.size = 0)) := by
  refine ⟨fun chain => ?_, fun socket => ?_, fun op client reported returned => ?_⟩
  · rw [sameIdentity_iff (by simp), through_size]
    cases chain.getLast? <;> simp
  · simp only [Tcp.Connect.name, Tcp.Connect.make, Endpoint.copy, Prod.mk.injEq, true_and]
    exact ⟨Eq.symm, Eq.symm⟩
  · simp only [Tcp.Accept.awaitResume] at returned
    split at returned
    · cases returned
    · cases returned
      rw [sameIdentity_iff (by simp [Socket.moveConstruct, Endpoint.copy, reported])]
      exact ⟨Eq.symm, Eq.symm⟩

def loopback : Endpoint :=
  { storage := ⟨#[2, 0, 31, 144, 127, 0, 0, 1] ++ Array.replicate 120 0, by simp⟩, size := 16 }

theorem endpoint_identity_kept :
    SameIdentity .linux ⟨fun _ => none, fun _ => none⟩ (loopback.through [.assign loopback])
      loopback :=
  ((endpoint_identity_iff .linux ⟨fun _ => none, fun _ => none⟩ loopback).1
    [.assign loopback]).mpr fun c last => by cases last; rfl

theorem endpoint_identity_lost :
    ¬ ∀ (os : Os) (inet : Inet) (e : Endpoint) (chain : List Copy),
      SameIdentity os inet (e.through chain) e := by
  intro kept
  have same := kept .linux ⟨fun _ => none, fun _ => none⟩ loopback [.construct]
  exact absurd same.1 (by decide)

end Ice.Net
