import Ice.Lib.Transition
import Ice.Event.Awaitable

namespace Ice.Event
open Transition Net SocketOperation

/-- The call that is made next: that of `await_ready`, of `suspend`, or, once the operation is woken,
of `resume`. A completed operation makes none. -/
inductive Stage where
  | ready
  | suspending
  | waiting
  | completed
  deriving DecidableEq, Repr

structure Life (c : Awaitable) (S : Type) where
  members : c.Members
  stage : Stage
  seen : S

namespace Life

variable {c : Awaitable} {S : Type}

def enter (c : Awaitable) (members : c.Members) : Stage :=
  if c.leaves members then .completed else .suspending

def start (members : c.Members) (seen : S) : Life c S :=
  { members, stage := if c.polls then .ready else enter c members, seen }

/-- Where an answer leads. `event::await_resume` calls `suspend` when `resume` answers false. -/
def proceed (answer : c.Members × Option Bool) : c.Report → Stage
  | .ready _ =>
      match answer.2 with
      | none => .ready
      | some true => .completed
      | some false => enter c answer.1
  | .call _ =>
      match answer.2 with
      | none => enter c answer.1
      | some true => .waiting
      | some false => .completed
  | .resume _ =>
      match answer.2 with
      | none => .waiting
      | some true => .completed
      | some false => enter c answer.1

def expects : c.Report → Stage
  | .ready _ => .ready
  | .call _ => .suspending
  | .resume _ => .waiting

def step (note : S → c.Members → c.Report → S) (s : Life c S) (report : c.Report) :
    Option (Life c S) :=
  provided (s.stage = expects report ∧ c.failure report ≠ some 0)
    { members := (c.run s.members report).1
      stage := proceed (c.run s.members report) report
      seen := note s.seen s.members report }

theorem step_completed {note : S → c.Members → c.Report → S} {s : Life c S}
    (done : s.stage = .completed) (report : c.Report) : step note s report = none := by
  unfold step
  rw [provided_eq_none, done]
  cases report <;> simp [expects]

section Answers
variable {members : c.Members} {answer : Bool} (stays : ∀ members, c.leaves members = false)
include stays

theorem proceed_ready {report : c.Ready}
    (answers : (c.awaitReady members report).2 = some answer) :
    proceed (c.run members (.ready report)) (.ready report) =
      if answer then .completed else .suspending := by
  simp only [proceed, Awaitable.run, answers]
  cases answer <;> simp [enter, stays]

theorem proceed_resume {report : c.Resume} (answers : (c.resume members report).2 = some answer) :
    proceed (c.run members (.resume report)) (.resume report) =
      if answer then .completed else .suspending := by
  simp only [proceed, Awaitable.run, answers]
  cases answer <;> simp [enter, stays]

end Answers

def noteFailure (seen : Option Errno) (members : c.Members) (report : c.Report) : Option Errno :=
  if c.ec (c.run members report).1 = c.ec members then seen else c.failure report

def Ended (s : Life c (Option Errno)) : Prop :=
  match s.seen with
  | some errno => s.stage = .completed ∧ c.thrown s.members = some (.native errno)
  | none => c.thrown s.members = none

/-- What the functions of an operation without a recorded error do with a report: they record no
code, or that of the call that failed, and then they end the operation exactly if `good` holds. -/
def Settles (c : Awaitable) (good : c.Report → Prop) : Prop :=
  ∀ members report, c.ec members = .ok →
    c.ec (c.run members report).1 = .ok ∧ good report ∨
    ∃ errno, c.failure report = some errno ∧ c.ec (c.run members report).1 = .native errno ∧
      (proceed (c.run members report) report = .completed ↔ good report)

variable {s t : Life c (Option Errno)} {good : c.Report → Prop}

theorem thrown_eq_none {members : c.Members} : c.thrown members = none ↔ c.ec members = .ok := by
  unfold Awaitable.thrown ErrorCode.isError
  constructor
  · intro nothing
    have zero : (c.ec members).combined = 0 := by simpa using nothing
    exact congrArg ErrorCode.mk zero
  · intro clean
    simp [clean, ErrorCode.ok]

theorem thrown_native {members : c.Members} {errno : Errno} (recorded : c.ec members = .native errno)
    (nonzero : errno ≠ 0) : c.thrown members = some (.native errno) := by
  simpa [Awaitable.thrown, recorded] using nonzero

theorem Ended.clean {report : c.Report} (ended : Ended s)
    (action : step noteFailure s report = some t) : s.seen = none ∧ c.ec s.members = .ok := by
  unfold Ended at ended
  cases seen : s.seen with
  | none =>
      simp only [seen] at ended
      exact ⟨rfl, thrown_eq_none.mp ended⟩
  | some errno =>
      simp only [seen] at ended
      rw [step_completed ended.1] at action
      cases action

theorem ended_step {report : c.Report} (settles : Settles c good) (ended : Ended s)
    (action : step noteFailure s report = some t) : Ended t ↔ good report := by
  obtain ⟨quiet, clean⟩ := ended.clean action
  obtain ⟨⟨_, nonzero⟩, rfl⟩ := provided_eq_some.mp action
  rcases settles s.members report clean with ⟨still, met⟩ | ⟨errno, fails, code, ends⟩
  · apply iff_of_true _ met
    simp [Ended, noteFailure, still, clean, quiet, thrown_eq_none]
  · have positive : errno ≠ 0 := fun zero => nonzero (zero ▸ fails)
    have thrown := thrown_native code positive
    have other : c.ec (c.run s.members report).1 ≠ c.ec s.members := by
      rw [clean]
      exact fun same => by simp [thrown_eq_none.mpr same] at thrown
    rw [← ends]
    simp [Ended, noteFailure, other, fails, thrown]

def Stops {M R : Type} (f : M → R → M × Option Bool) (ec : M → ErrorCode)
    (failure : R → Option Errno) (answer : Bool) : Prop :=
  ∀ members report, ec members = .ok → ec (f members report).1 = .ok ∨
    ∃ errno, failure report = some errno ∧ ec (f members report).1 = .native errno ∧
      (f members report).2 = some answer

theorem Stops.of_keeps {M R : Type} {f : M → Except Errno R → M × Option Bool} {ec : M → ErrorCode}
    {answer : Bool} (kept : ∀ op result, ec (f op (.ok result)).1 = ec op)
    (rejects : ∀ op errno, ec (f op (.error errno)).1 = ec op ∨
      ec (f op (.error errno)).1 = .native errno ∧ (f op (.error errno)).2 = some answer) :
    Stops f ec failed answer := by
  intro op report clean
  cases report with
  | ok result => exact .inl ((kept op result).trans clean)
  | error errno =>
      rcases rejects op errno with same | recorded
      · exact .inl (same.trans clean)
      · exact .inr ⟨errno, rfl, recorded⟩

theorem settles_posix {e : EventClass} {readyFailure : e.Ready → Option Errno}
    {resumeFailure : e.Resume → Option Errno} (awaits : Stops e.awaitReady e.ec readyFailure true)
    (records : ∀ members ec, e.ec (e.record members ec) = ec)
    (resumes : Stops e.resume e.ec resumeFailure true) :
    Settles (posix e readyFailure resumeFailure) fun _ => True := by
  intro members report clean
  cases report with
  | ready report =>
      rcases awaits members report clean with still | ⟨errno, fails, code, answer⟩
      · exact .inl ⟨still, trivial⟩
      · exact .inr ⟨errno, fails, code, by simp [proceed, Awaitable.run, posix, answer]⟩
  | call report =>
      cases report with
      | ok => exact .inl ⟨clean, trivial⟩
      | error errno => exact .inr ⟨errno, rfl, records members _, by simp [proceed, Awaitable.run, posix]⟩
  | resume report =>
      rcases resumes members report clean with still | ⟨errno, fails, code, answer⟩
      · exact .inl ⟨still, trivial⟩
      · exact .inr ⟨errno, fails, code, by simp [proceed, Awaitable.run, posix, answer]⟩

theorem settles_windows {M C R : Type} {leaves : M → Bool} {suspend : M → C → M × Option Bool}
    {resume : M → R → M × Option Bool} {ec : M → ErrorCode} {callFailure : C → Option Errno}
    {resumeFailure : R → Option Errno} (calls : Stops suspend ec callFailure false)
    (resumes : Stops resume ec resumeFailure true) :
    Settles (windows leaves suspend resume ec callFailure resumeFailure) fun _ => True := by
  intro members report clean
  cases report with
  | ready report => exact .inl ⟨clean, trivial⟩
  | call report =>
      rcases calls members report clean with still | ⟨errno, fails, code, answer⟩
      · exact .inl ⟨still, trivial⟩
      · exact .inr ⟨errno, fails, code, by simp [proceed, Awaitable.run, windows, answer]⟩
  | resume report =>
      rcases resumes members report clean with still | ⟨errno, fails, code, answer⟩
      · exact .inl ⟨still, trivial⟩
      · exact .inr ⟨errno, fails, code, by simp [proceed, Awaitable.run, windows, answer]⟩

theorem book_ec (op : Sending) (rc : Nat) : (op.book rc).ec = op.ec := by
  rw [Sending.book]

theorem sending_stops (os : Os) (finished : Sending → Bool) :
    Stops (Sending.awaitReady os finished) Sending.ec failed true := by
  apply Stops.of_keeps
  · intro op rc
    cases rc with
    | zero => rfl
    | succ rc => exact book_ec op (rc + 1)
  · intro op errno
    simp only [Sending.awaitReady]
    split
    · exact .inr ⟨rfl, rfl⟩
    · exact .inl rfl

theorem datagram_stops (os : Os) (finished : Sending → Bool) :
    Stops (Udp.Datagram.awaitReady os finished) (fun op => op.sending.ec) failed true :=
  fun op report clean => sending_stops os finished op.sending report clean

theorem tcpRecv_stops (os : Os) : Stops (Tcp.Recv.awaitReady os) Tcp.Recv.ec failed true := by
  apply Stops.of_keeps
  · exact fun op rc => rfl
  · intro op errno
    simp only [Tcp.Recv.awaitReady]
    split
    · exact .inl rfl
    · split
      · exact .inr ⟨rfl, rfl⟩
      · exact .inl rfl

theorem udpRecv_stops (os : Os) : Stops (Udp.Recv.awaitReady os) Udp.Recv.ec failed true := by
  apply Stops.of_keeps
  · exact fun op datagram => rfl
  · intro op errno
    simp only [Udp.Recv.awaitReady]
    split
    · exact .inl rfl
    · split
      · exact .inr ⟨rfl, rfl⟩
      · exact .inl rfl

theorem accept_stops (os : Os) : Stops (Tcp.Accept.awaitReady os) Tcp.Accept.ec failed true := by
  apply Stops.of_keeps
  · exact fun op accepted => rfl
  · intro op errno
    simp only [Tcp.Accept.awaitReady]
    split
    · exact .inr ⟨rfl, rfl⟩
    · exact .inl rfl

theorem connect_stops : Stops Tcp.Connect.resume Tcp.Connect.ec connectFailed true := by
  intro op report clean
  cases report with
  | ok code =>
      by_cases refused : code = 0
      · left
        simpa [Tcp.Connect.resume, refused] using clean
      · right
        exact ⟨code, if_pos refused, by rw [Tcp.Connect.resume, if_pos refused], rfl⟩
  | error errno => exact .inr ⟨errno, rfl, rfl, rfl⟩

theorem call_stops {M R : Type} {ec : M → ErrorCode} {suspend : M → Except Errno R → M × Option Bool}
    (kept : ∀ op result, ec (suspend op (.ok result)).1 = ec op)
    (pending : ∀ op, suspend op (.error Tcp.Windows.ioPending) = (op, some true))
    (fails : ∀ op errno, errno ≠ Tcp.Windows.ioPending →
      ec (suspend op (.error errno)).1 = .native errno ∧
        (suspend op (.error errno)).2 = some false) :
    Stops suspend ec failed false := by
  apply Stops.of_keeps kept
  intro op errno
  by_cases waits : errno = Tcp.Windows.ioPending
  · left
    rw [waits, pending]
  · exact .inr (fails op errno waits)

theorem completion_stops {M R : Type} {ec : M → ErrorCode}
    {resume : M → Except Errno R → M × Option Bool}
    (kept : ∀ op result, ec (resume op (.ok result)).1 = ec op)
    (fails : ∀ op errno, ec (resume op (.error errno)).1 = .native errno ∧
      (resume op (.error errno)).2 = some true) :
    Stops resume ec failed true :=
  Stops.of_keeps kept fun op errno => .inr (fails op errno)

theorem windowsSend_call : Stops Tcp.Windows.Send.issue Tcp.Windows.Send.ec failed false := by
  apply call_stops
  · intro op bytes
    cases op
    rfl
  · exact fun op => rfl
  · intro op errno fatal
    simp [Tcp.Windows.Send.issue, fatal]

theorem windowsSend_completion :
    Stops (fun op result => ((Tcp.Windows.Send.resume op result).1,
      some (Tcp.Windows.Send.resume op result).2)) Tcp.Windows.Send.ec failed true := by
  apply completion_stops
  · intro op bytes
    cases op
    rfl
  · exact fun op errno => ⟨rfl, rfl⟩

theorem windowsSendSome_call :
    Stops Tcp.Windows.SendSome.issue Tcp.Windows.Send.ec failed false := by
  apply call_stops
  · intro op bytes
    cases op
    rfl
  · exact fun op => rfl
  · intro op errno fatal
    simp [Tcp.Windows.SendSome.issue, fatal]

theorem windowsSendSome_completion :
    Stops Tcp.Windows.SendSome.resume Tcp.Windows.Send.ec failed true := by
  apply completion_stops
  · intro op bytes
    cases op
    rfl
  · exact fun op errno => ⟨rfl, rfl⟩

theorem windowsTcpRecv_call : Stops Tcp.Windows.Recv.issue Tcp.Windows.Recv.ec failed false := by
  apply call_stops
  · exact fun op bytes => rfl
  · exact fun op => rfl
  · intro op errno fatal
    simp [Tcp.Windows.Recv.issue, fatal]

theorem windowsUdpRecv_call : Stops Udp.Windows.Recv.issue Udp.Windows.Recv.ec failed false := by
  apply call_stops
  · intro op datagram
    cases op
    rfl
  · exact fun op => rfl
  · intro op errno fatal
    simp [Udp.Windows.Recv.issue, fatal]

theorem windowsUdpRecv_completion :
    Stops Udp.Windows.Recv.resume Udp.Windows.Recv.ec failed true := by
  apply completion_stops
  · intro op datagram
    cases op
    rfl
  · intro op errno
    cases op
    exact ⟨rfl, rfl⟩

theorem windowsAccept_call : Stops Tcp.Windows.Accept.issue Tcp.Windows.Accept.ec failed false := by
  apply Stops.of_keeps
  · exact fun op remote => rfl
  · intro op errno
    simp only [Tcp.Windows.Accept.issue]
    split
    · exact .inl rfl
    · split
      · exact .inr ⟨rfl, rfl⟩
      · exact .inl rfl

theorem windowsAccept_completion :
    Stops Tcp.Windows.Accept.resume Tcp.Windows.Accept.ec failed true := by
  apply Stops.of_keeps
  · intro op remote
    simp only [Tcp.Windows.Accept.resume]
    split
    · rfl
    · split <;> rfl
  · intro op errno
    simp only [Tcp.Windows.Accept.resume]
    split
    · exact .inr ⟨rfl, rfl⟩
    · exact .inl rfl

theorem windowsConnect_call :
    Stops Tcp.Windows.Connect.issue Tcp.Connect.ec connectExFailed false := by
  intro op report clean
  cases report with
  | error ec => exact .inr ⟨ec, rfl, rfl, rfl⟩
  | ok result =>
      cases result with
      | ok => exact .inl clean
      | error errno =>
          by_cases waits : errno = Tcp.Windows.ioPending
          · left
            simpa [Tcp.Windows.Connect.issue, waits] using clean
          · right
            exact ⟨errno, rfl, by simp [Tcp.Windows.Connect.issue, waits],
              by simp [Tcp.Windows.Connect.issue, waits]⟩

theorem settles_windowsAwaitable (op : SocketOperation) :
    Settles (windowsAwaitable op) fun _ => True := by
  cases op with
  | tcpAccept => exact settles_windows windowsAccept_call windowsAccept_completion
  | tcpConnect =>
      exact settles_windows windowsConnect_call
        (completion_stops (fun _ _ => rfl) fun _ _ => ⟨rfl, rfl⟩)
  | tcpRecv =>
      exact settles_windows windowsTcpRecv_call
        (completion_stops (fun _ _ => rfl) fun _ _ => ⟨rfl, rfl⟩)
  | tcpSend => exact settles_windows windowsSend_call windowsSend_completion
  | tcpSendSome => exact settles_windows windowsSendSome_call windowsSendSome_completion
  | udpRecv => exact settles_windows windowsUdpRecv_call windowsUdpRecv_completion
  | udpSend =>
      exact settles_windows (fun op report clean => windowsSend_call op.sending report clean)
        fun op report clean => windowsSend_completion op.sending report clean
  | udpSendSome =>
      exact settles_windows (fun op report clean => windowsSendSome_call op.sending report clean)
        fun op report clean => windowsSendSome_completion op.sending report clean

def connects (os : Os) : Except Errno Unit → Prop
  | .ok () => True
  | .error errno => errno = .einprogress os ∨ errno = .eintr

def PosixConnects (os : Os) : (op : SocketOperation) → (posixAwaitable os op).Report → Prop
  | .tcpConnect, .ready report => connects os report
  | _, _ => True

def Connects : (os : Os) → (op : SocketOperation) → (awaitable os op).Report → Prop
  | .win32 => fun _ _ => True
  | .linux => PosixConnects .linux
  | .freebsd => PosixConnects .freebsd

theorem connect_kept {os : Os} {op : Tcp.Connect} {report : Except Errno Unit}
    (met : connects os report) : (Tcp.Connect.awaitReady os op report).1 = op := by
  cases report with
  | ok => rfl
  | error errno =>
      simp only [Tcp.Connect.awaitReady]
      split
      · rfl
      next other =>
        rw [if_pos (met.resolve_left other)]

theorem connect_recorded {os : Os} {op : Tcp.Connect} {errno : Errno}
    (unmet : ¬ connects os (.error errno)) :
    Tcp.Connect.awaitReady os op (.error errno) = ({ op with ec := .native errno }, some false) := by
  obtain ⟨progress, interrupted⟩ := not_or.mp unmet
  simp only [Tcp.Connect.awaitReady]
  rw [if_neg progress, if_neg interrupted]

theorem settles_posixConnect (os : Os) :
    Settles (posixAwaitable os .tcpConnect) (PosixConnects os .tcpConnect) := by
  intro op report clean
  cases report with
  | ready report =>
      by_cases met : connects os report
      · exact .inl ⟨(congrArg Tcp.Connect.ec (connect_kept met)).trans clean, met⟩
      · cases report with
        | ok => exact absurd trivial met
        | error errno =>
            have answer : Tcp.Connect.awaitReady os op (.error errno) = _ := connect_recorded met
            right
            refine ⟨errno, rfl, congrArg (fun answer => answer.1.ec) answer, iff_of_false ?_ met⟩
            show proceed (c := posixAwaitable os .tcpConnect)
              (Tcp.Connect.awaitReady os op (.error errno)) (.ready (.error errno)) ≠ .completed
            rw [answer]
            simp [proceed, enter, posixAwaitable, posix]
  | call report =>
      cases report with
      | ok => exact .inl ⟨clean, trivial⟩
      | error errno => exact .inr ⟨errno, rfl, rfl, iff_of_true rfl trivial⟩
  | resume report =>
      rcases connect_stops op report clean with still | ⟨errno, fails, code, answer⟩
      · exact .inl ⟨still, trivial⟩
      · right
        refine ⟨errno, fails, code, iff_of_true ?_ trivial⟩
        show proceed (c := posixAwaitable os .tcpConnect) (Tcp.Connect.resume op report)
          (.resume report) = .completed
        simp [proceed, answer]

theorem settles_posixAwaitable (os : Os) (op : SocketOperation) :
    Settles (posixAwaitable os op) (PosixConnects os op) := by
  cases op with
  | tcpConnect => exact settles_posixConnect os
  | tcpAccept => exact settles_posix (accept_stops os) (fun _ _ => rfl) (accept_stops os)
  | tcpRecv => exact settles_posix (tcpRecv_stops os) (fun _ _ => rfl) (tcpRecv_stops os)
  | tcpSend =>
      have stops := sending_stops os fun op => op.buffer.size == 0
      exact settles_posix stops (fun _ _ => rfl) stops
  | tcpSendSome =>
      have stops := sending_stops os fun _ => true
      exact settles_posix stops (fun _ _ => rfl) stops
  | udpRecv => exact settles_posix (udpRecv_stops os) (fun _ _ => rfl) (udpRecv_stops os)
  | udpSend =>
      have stops := datagram_stops os fun op => op.buffer.size == 0
      exact settles_posix stops (fun _ _ => rfl) stops
  | udpSendSome =>
      have stops := datagram_stops os fun _ => true
      exact settles_posix stops (fun _ _ => rfl) stops

theorem settles_awaitable (os : Os) (op : SocketOperation) :
    Settles (awaitable os op) (Connects os op) := by
  cases os with
  | win32 => exact settles_windowsAwaitable op
  | linux => exact settles_posixAwaitable .linux op
  | freebsd => exact settles_posixAwaitable .freebsd op

def Made : (os : Os) → (op : SocketOperation) → (awaitable os op).Members → Option Errno → Prop
  | .win32, .tcpConnect, members, recorded =>
      ∃ socket endpoint report, report ≠ .error 0 ∧ recorded = failed report ∧
        members = (Tcp.Windows.Connect.make socket endpoint report).1
  | os, op, members, recorded => (awaitable os op).ec members = .ok ∧ recorded = none

variable {os : Os} {op : SocketOperation} {members : (awaitable os op).Members}
  {recorded : Option Errno}

theorem Made.clean (made : Made os op members none) : (awaitable os op).ec members = .ok := by
  unfold Made at made
  split at made
  · obtain ⟨socket, endpoint, report, _, fails, rfl⟩ := made
    cases report with
    | ok => rfl
    | error errno => cases fails
  · exact made.1

theorem Made.unended {errno : Errno} (made : Made os op members (some errno)) :
    ¬ Ended (start members (some errno) : Life (awaitable os op) (Option Errno)) := by
  unfold Made at made
  split at made
  · intro ended
    cases ended.1
  · cases made.2

/-- Once a call has failed with a code that the operation records, it makes no other call, is not
suspended and throws that code, and without one it throws nothing: in every run of all operations
exactly if no `connect` goes on after its first call, or its `bind`, has failed. -/
theorem error_ends_operation_iff (os : Os) (op : SocketOperation)
    (members : (awaitable os op).Members) (recorded : Option Errno)
    (made : Made os op members recorded) (reports : List (awaitable os op).Report)
    (s : Life (awaitable os op) (Option Errno))
    (run : exec (step noteFailure) (start members recorded) reports = some s) :
    Always (step noteFailure) Ended (start members recorded) reports ↔
      recorded = none ∧ ∀ report ∈ reports, Connects os op report := by
  cases recorded with
  | some errno =>
      apply iff_of_false
      · exact fun always => made.unended always.first
      · simp
  | none =>
      have first : Ended (start members none : Life (awaitable os op) (Option Errno)) :=
        thrown_eq_none.mpr made.clean
      have stepwise := always_iff_alwaysMeets (fun _ => True) run trivial first
        (fun _ _ _ _ _ => trivial)
        fun s report t _ ended action => ended_step (settles_awaitable os op) ended action
      rw [stepwise, alwaysMeets_iff_forall run]
      simp

def connecting : Tcp.Connect :=
  { context := 3, socket := some 5, endpoint := { storage := .replicate 128 0 } }

theorem error_ends_connect :
    ∃ s, exec (step noteFailure)
        (start connecting none : Life (awaitable .linux .tcpConnect) (Option Errno))
        [.ready (Except.error 115), .call (Except.ok ()), .resume (Except.ok 111)] = some s ∧
      Ended s := by
  let reports : List (awaitable .linux .tcpConnect).Report :=
    [.ready (Except.error 115), .call (Except.ok ()), .resume (Except.ok 111)]
  obtain ⟨s, run⟩ : ∃ s, exec (step noteFailure)
      (start connecting none : Life (awaitable .linux .tcpConnect) (Option Errno)) reports =
        some s := ⟨_, rfl⟩
  have connects : ∀ report ∈ reports, Connects .linux .tcpConnect report :=
    List.forall_mem_cons.mpr ⟨.inl rfl, List.forall_mem_cons.mpr ⟨trivial,
      List.forall_mem_cons.mpr ⟨trivial, by simp⟩⟩⟩
  have always := (error_ends_operation_iff .linux .tcpConnect connecting none ⟨rfl, rfl⟩ reports s
    run).mpr ⟨rfl, connects⟩
  exact ⟨s, run, always.last run⟩

theorem connect_error_lost :
    ¬ ∀ (os : Os) (op : SocketOperation) (members : (awaitable os op).Members)
      (recorded : Option Errno), Made os op members recorded →
        ∀ s : Life (awaitable os op) (Option Errno),
          Reachable (step noteFailure) (start members recorded) s → Ended s := by
  intro ends
  let unreachable : List (awaitable .linux .tcpConnect).Report := [.ready (Except.error 101)]
  obtain ⟨s, run⟩ : ∃ s, exec (step noteFailure)
      (start connecting none : Life (awaitable .linux .tcpConnect) (Option Errno)) unreachable =
        some s := ⟨_, rfl⟩
  have ended := ends .linux .tcpConnect connecting none ⟨rfl, rfl⟩ s (exec_reachable run)
  cases run
  cases ended.1

end Life

end Ice.Event
