import Mathlib.Logic.Function.Basic
import Ice.Event.Awaitable
import Ice.Net.Ssh.WindowsTransport

/-!
# Events over overlapped I/O

`event::await_suspend` and `event::await_resume` of any number of event objects on a completion
port, in any number of threads. The sockets skip the port where a call succeeds at once, so that
only a call that reports `ERROR_IO_PENDING` puts a packet there, when its request has completed. A
thread takes one step for each call, and one for what it does with the report of the call.
-/

namespace Ice.Event.Windows
open Transition Net SocketOperation

/-- A class derived from `event`. `leaves` says that `suspend` answers false before it makes a call,
after it has done `leave`; otherwise it is given what the call reports, and answers `none` where
it goes round its loop. -/
structure OverlappedClass where
  Members : Type
  Call : Type
  Completion : Type
  Argument : Type
  shared : Bool
  leaves : Members → Bool
  leave : Members → Members
  suspend : Members → Call → Members × Option Bool
  resume : Members → Completion → Members × Option Bool
  call : Members → Argument → Members
  pends : Call → Bool

def pends {R : Type} : Except Errno R → Bool
  | .ok _ => false
  | .error rc => rc = Tcp.Windows.ioPending

def connectPends : Except Errno (Except Errno Unit) → Bool
  | .ok result => pends result
  | .error _ => false

def socketClass (op : SocketOperation) (pends : (windowsAwaitable op).Call → Bool) :
    OverlappedClass where
  Members := (windowsAwaitable op).Members
  Call := (windowsAwaitable op).Call
  Completion := (windowsAwaitable op).Resume
  Argument := Empty
  shared := false
  leaves := (windowsAwaitable op).leaves
  leave members := members
  suspend := (windowsAwaitable op).suspend
  resume := (windowsAwaitable op).resume
  call members _ := members
  pends := pends

inductive Callback where
  | onRecv (size : Nat)
  | onSend (data : List (BitVec 8))

def Transport.issue (op : Ssh.Windows.Transport) :
    Ssh.Windows.Transport.Report → Ssh.Windows.Transport × Option Bool
  | .pending => (op, some true)
  | .failed rc bytes =>
      ({ op.note (.failed rc bytes) with ec := .native rc, ready := true }, some false)
  | report => ({ op.note report with ready := true }, some false)

def transportClass : OverlappedClass where
  Members := Ssh.Windows.Transport
  Call := Ssh.Windows.Transport.Report
  Completion := Ssh.Windows.Transport.Result
  Argument := Callback
  shared := true
  leaves op := op.operation = .none
  leave op := { op with ec := .errc Errno.einval }
  suspend := Transport.issue
  resume op result := ((op.resume result).1, some (op.resume result).2)
  call op
    | .onRecv size => (op.onRecv size).1
    | .onSend data => (op.onSend data).1
  pends report := report = .pending

theorem transport_suspend (op : Ssh.Windows.Transport) (report : Ssh.Windows.Transport.Report) :
    ((op.suspend report).1, some (op.suspend report).2) =
      if transportClass.leaves op then (transportClass.leave op, some false)
      else transportClass.suspend op report := by
  obtain ⟨operation, _⟩ := op
  cases operation <;> cases report <;> rfl

def overlappedClass : Operation → OverlappedClass
  | .tcpAccept => socketClass .tcpAccept pends
  | .tcpConnect => socketClass .tcpConnect connectPends
  | .tcpRecv => socketClass .tcpRecv pends
  | .tcpSend => socketClass .tcpSend pends
  | .tcpSendSome => socketClass .tcpSendSome pends
  | .udpRecv => socketClass .udpRecv pends
  | .udpSend => socketClass .udpSend pends
  | .udpSendSome => socketClass .udpSendSome pends
  | .sshTransport => transportClass

/-- `suspend` answers true exactly if its last call has left a request behind, and then does not
look at the members any more. -/
structure Pairs (c : OverlappedClass) : Prop where
  pending : ∀ members report, c.pends report = true →
    c.suspend members report = (members, some true)
  settled : ∀ members report, c.pends report = false →
    (c.suspend members report).2 ≠ some true

theorem pends_true {R : Type} {report : Except Errno R} (waits : pends report = true) :
    report = .error Tcp.Windows.ioPending := by
  cases report with
  | ok result => cases waits
  | error rc => simpa [pends] using waits

theorem pends_false {rc : Errno} (returns : pends (.error rc : Except Errno Unit) = false) :
    rc ≠ Tcp.Windows.ioPending := by
  simpa [pends] using returns

section Calls
variable {M R : Type} {suspend : M → Except Errno R → M × Option Bool}

theorem call_pending (pending : ∀ op, suspend op (.error Tcp.Windows.ioPending) = (op, some true))
    (op : M) (report : Except Errno R) (waits : pends report = true) :
    suspend op report = (op, some true) := by
  rw [pends_true waits]
  exact pending op

theorem call_settled
    (fails : ∀ op rc, rc ≠ Tcp.Windows.ioPending → (suspend op (.error rc)).2 ≠ some true)
    (succeeds : ∀ op result, (suspend op (.ok result)).2 ≠ some true)
    (op : M) (report : Except Errno R) (returns : pends report = false) :
    (suspend op report).2 ≠ some true := by
  cases report with
  | ok result => exact succeeds op result
  | error rc => exact fails op rc (pends_false returns)

end Calls

theorem accept_pairs : Pairs (socketClass .tcpAccept pends) where
  pending := call_pending fun _ => rfl
  settled := by
    apply call_settled
    · intro op rc other
      simp only [socketClass, windowsAwaitable, windows, Tcp.Windows.Accept.issue, if_neg other]
      split <;> simp
    · exact fun op remote same => by cases same

theorem connect_pairs : Pairs (socketClass .tcpConnect connectPends) where
  pending op report waits := by
    cases report with
    | error ec => cases waits
    | ok result =>
        rw [pends_true waits]
        rfl
  settled op report returns := by
    cases report with
    | error ec => exact fun same => by cases same
    | ok result =>
        cases result with
        | ok => exact fun same => by cases same
        | error rc =>
            show (Tcp.Windows.Connect.issue op (.ok (.error rc))).2 ≠ some true
            simp [Tcp.Windows.Connect.issue, pends_false returns]

theorem recv_pairs : Pairs (socketClass .tcpRecv pends) where
  pending := call_pending fun _ => rfl
  settled := by
    apply call_settled
    · intro op rc other
      simp [socketClass, windowsAwaitable, windows, Tcp.Windows.Recv.issue, other]
    · exact fun op bytes same => by cases same

theorem sendIssue_fails (op : Tcp.Windows.Send) (rc : Errno) (other : rc ≠ Tcp.Windows.ioPending) :
    (op.issue (.error rc)).2 ≠ some true := by
  simp [Tcp.Windows.Send.issue, other]

theorem sendIssue_succeeds (op : Tcp.Windows.Send) (bytes : Nat) :
    (op.issue (.ok bytes)).2 ≠ some true := by
  simp only [Tcp.Windows.Send.issue]
  split <;> simp

theorem sendSomeIssue_fails (op : Tcp.Windows.Send) (rc : Errno)
    (other : rc ≠ Tcp.Windows.ioPending) :
    (Tcp.Windows.SendSome.issue op (.error rc)).2 ≠ some true := by
  simp [Tcp.Windows.SendSome.issue, other]

theorem sendSomeIssue_succeeds (op : Tcp.Windows.Send) (bytes : Nat) :
    (Tcp.Windows.SendSome.issue op (.ok bytes)).2 ≠ some true := by
  simp [Tcp.Windows.SendSome.issue]

theorem send_pairs : Pairs (socketClass .tcpSend pends) where
  pending := call_pending fun _ => rfl
  settled := call_settled sendIssue_fails sendIssue_succeeds

theorem sendSome_pairs : Pairs (socketClass .tcpSendSome pends) where
  pending := call_pending fun _ => rfl
  settled := call_settled sendSomeIssue_fails sendSomeIssue_succeeds

theorem udpRecv_pairs : Pairs (socketClass .udpRecv pends) where
  pending := call_pending fun _ => rfl
  settled := by
    apply call_settled
    · intro op rc other
      simp [socketClass, windowsAwaitable, windows, Udp.Windows.Recv.issue, other]
    · exact fun op datagram same => by cases same

theorem udpSend_pairs : Pairs (socketClass .udpSend pends) where
  pending := call_pending fun _ => rfl
  settled :=
    call_settled (fun op => sendIssue_fails op.sending) fun op => sendIssue_succeeds op.sending

theorem udpSendSome_pairs : Pairs (socketClass .udpSendSome pends) where
  pending := call_pending fun _ => rfl
  settled :=
    call_settled (fun op => sendSomeIssue_fails op.sending) fun op =>
      sendSomeIssue_succeeds op.sending

theorem transport_pairs : Pairs transportClass where
  pending op report waits := by
    obtain rfl : report = .pending := by simpa [transportClass] using waits
    rfl
  settled op report returns := by
    have other : report ≠ .pending := by simpa [transportClass] using returns
    cases report with
    | pending => exact absurd rfl other
    | failed rc bytes => exact fun same => by cases same
    | received data => exact fun same => by cases same
    | sent bytes => exact fun same => by cases same

theorem overlapped_pairs (op : Operation) : Pairs (overlappedClass op) := by
  cases op with
  | tcpAccept => exact accept_pairs
  | tcpConnect => exact connect_pairs
  | tcpRecv => exact recv_pairs
  | tcpSend => exact send_pairs
  | tcpSendSome => exact sendSome_pairs
  | udpRecv => exact udpRecv_pairs
  | udpSend => exact udpSend_pairs
  | udpSendSome => exact udpSendSome_pairs
  | sshTransport => exact transport_pairs

/-! ## Threads and the completion port -/

variable {O T W : Type}

structure Object (W : Type) (c : OverlappedClass) where
  members : c.Members
  awaiter : Option W := none

/-- Where a thread is with an event. A `site` is the wait for which `await_suspend` calls `suspend`,
or `none` in `await_resume`. At `called` its call has returned to `suspend`, at `refused` `suspend`
returns false, and at `wake` the thread calls `awaiter_.resume()`. -/
inductive Pc (cls : O → OverlappedClass) (W : Type) where
  | free
  | polling (bufferSize : Nat)
  | awaitSuspend (w : W) (o : O)
  | suspend (site : Option W) (o : O)
  | call (site : Option W) (o : O)
  | called (site : Option W) (o : O) (report : (cls o).Call)
  | refused (site : Option W) (o : O)
  | resume (o : O)
  | wake (o : O)

/-- Objects `O`, threads `T` and waits `W`, each wait one `co_await` of an object. `outstanding` are
the requests of an event that the kernel has, and `queued` its packets in the port. `wait` is the
wait on an object that has not continued; `continued` counts how often a wait has. -/
structure State (cls : O → OverlappedClass) (T W : Type) where
  object : (o : O) → Object W (cls o)
  pc : T → Pc cls W := fun _ => .free
  outstanding : O → Nat := fun _ => 0
  queued : O → Nat := fun _ => 0
  batch : T → List O := fun _ => []
  wait : O → Option W := fun _ => none
  begun : W → Bool := fun _ => false
  continued : W → Nat := fun _ => 0

inductive Action (cls : O → OverlappedClass) (T W : Type) where
  | operation (t : T) (w : W) (o : O) (members : (cls o).Members)
  | await (t : T) (w : W) (o : O)
  | argument (t : T) (o : O) (argument : (cls o).Argument)
  | call (t : T) (o : O) (report : (cls o).Call)
  | complete (o : O)
  | resume (t : T) (o : O) (report : (cls o).Completion)
  | poll (t : T) (bufferSize : Nat)
  | dequeue (t : T) (o : O)
  | polled (t : T)
  | dispatch (t : T)
  -- The next stretch of code that asks nothing of the kernel.
  | go (t : T)

def Action.thread {cls : O → OverlappedClass} : Action cls T W → Option T
  | .complete _ => none
  | .operation t .. | .await t .. | .argument t .. | .call t .. | .resume t .. | .poll t _
  | .dequeue t _ | .polled t | .dispatch t | .go t => some t

namespace State

variable {cls : O → OverlappedClass}

def create (object : (o : O) → Object W (cls o)) : State cls T W := { object }

variable [DecidableEq O] [DecidableEq T] [DecidableEq W]

def goto (s : State cls T W) (t : T) (pc : Pc cls W) : State cls T W :=
  { s with pc := Function.update s.pc t pc }

def setObject (s : State cls T W) (o : O) (object : Object W (cls o)) : State cls T W :=
  { s with object := Function.update s.object o object }

def setMembers (s : State cls T W) (o : O) (members : (cls o).Members) : State cls T W :=
  s.setObject o { s.object o with members }

def start (s : State cls T W) (t : T) (w : W) (o : O) : State cls T W :=
  { s with
    wait := Function.update s.wait o (some w)
    begun := Function.update s.begun w true }.goto t (.awaitSuspend w o)

def proceed (s : State cls T W) (t : T) (w : W) (o : O) : State cls T W :=
  { s with
    wait := Function.update s.wait o none
    continued := Function.update s.continued w (s.continued w + 1) }.goto t .free

def call (s : State cls T W) (t : T) (site : Option W) (o : O) (report : (cls o).Call) :
    State cls T W :=
  -- A request that is pending may complete before the thread goes on.
  { s with
    outstanding :=
      if (cls o).pends report then Function.update s.outstanding o (s.outstanding o + 1)
      else s.outstanding }.goto t (.called site o report)

def suspend (s : State cls T W) (t : T) (site : Option W) (o : O) : State cls T W :=
  if (cls o).leaves (s.object o).members then
    (s.setMembers o ((cls o).leave (s.object o).members)).goto t (.refused site o)
  else s.goto t (.call site o)

def returned (s : State cls T W) (t : T) (site : Option W) (o : O) (report : (cls o).Call) :
    State cls T W :=
  let attempt := (cls o).suspend (s.object o).members report
  let after := s.setMembers o attempt.1
  match attempt.2 with
  | none => after.goto t (.suspend site o)
  | some true => after.goto t .free
  | some false => after.goto t (.refused site o)

def resume (s : State cls T W) (t : T) (o : O) (report : (cls o).Completion) : State cls T W :=
  let attempt := (cls o).resume (s.object o).members report
  let after := s.setMembers o attempt.1
  match attempt.2 with
  | none => after
  | some true => after.goto t (.wake o)
  | some false => after.goto t (.suspend none o)

def go (s : State cls T W) (t : T) : Option (State cls T W) :=
  match s.pc t with
  | .awaitSuspend w o =>
      some ((s.setObject o { s.object o with awaiter := some w }).goto t (.suspend (some w) o))
  | .suspend site o => some (s.suspend t site o)
  | .called site o report => some (s.returned t site o report)
  | .refused (some w) o => some (s.proceed t w o)
  | .refused none o => some (s.goto t (.wake o))
  | .wake o => (s.object o).awaiter.map fun w => s.proceed t w o
  | _ => none

def step (s : State cls T W) : Action cls T W → Option (State cls T W)
  | .operation t w o members =>
      match s.pc t with
      | .free =>
          provided ((cls o).shared = false ∧ (s.wait o).isNone ∧ s.begun w = false)
            ((s.setObject o { members }).start t w o)
      | _ => none
  | .await t w o =>
      match s.pc t with
      | .free =>
          provided ((cls o).shared = true ∧ (s.wait o).isNone ∧ s.begun w = false)
            (s.start t w o)
      | _ => none
  | .argument t o argument =>
      match s.pc t with
      | .free => some (s.setMembers o ((cls o).call (s.object o).members argument))
      | _ => none
  | .call t o report =>
      match s.pc t with
      | .call site o' => provided (o' = o) (s.call t site o report)
      | _ => none
  | .complete o =>
      match s.outstanding o with
      | n + 1 =>
          some { s with
            outstanding := Function.update s.outstanding o n
            queued := Function.update s.queued o (s.queued o + 1) }
      | 0 => none
  | .resume t o report =>
      match s.pc t with
      | .resume o' => provided (o' = o) (s.resume t o report)
      | _ => none
  | .poll t bufferSize =>
      match s.pc t, s.batch t with
      | .free, [] => some (s.goto t (.polling bufferSize))
      | _, _ => none
  | .dequeue t o =>
      match s.pc t, s.queued o with
      | .polling bufferSize, n + 1 =>
          provided ((s.batch t).length < bufferSize)
            { s with
              queued := Function.update s.queued o n
              batch := Function.update s.batch t (s.batch t ++ [o]) }
      | _, _ => none
  | .polled t =>
      match s.pc t with
      | .polling _ => some (s.goto t .free)
      | _ => none
  | .dispatch t =>
      match s.pc t, s.batch t with
      | .free, o :: rest =>
          some ({ s with batch := Function.update s.batch t rest }.goto t (.resume o))
      | _, _ => none
  | .go t => s.go t

end State

end Ice.Event.Windows
