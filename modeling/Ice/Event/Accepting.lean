import Ice.Event.Lifecycle

namespace Ice.Event.Accepting
open Transition Net SocketOperation Life

abbrev AcceptLife := Life (windowsAwaitable .tcpAccept) Unit

def quiet {c : Awaitable} (_ : Unit) (_ : c.Members) (_ : c.Report) : Unit := ()

abbrev run : AcceptLife → (windowsAwaitable .tcpAccept).Report → Option AcceptLife :=
  Life.step quiet

def peerSize (remote : Vector (BitVec 8) 128) : Option (BitVec 32) :=
  if Tcp.Windows.Accept.ssFamily remote = afInet then some Endpoint.sockaddrInSize
  else if Tcp.Windows.Accept.ssFamily remote = afInet6 .win32 then some Endpoint.sockaddrIn6Size
  else none

structure Named (op : Tcp.Windows.Accept) : Prop where
  size : peerSize op.remote = some op.client.endpoint.size
  storage : ∀ i : Fin 128, i.val < op.client.endpoint.size.toNat →
    op.client.endpoint.storage.get i = op.remote.get i

def peers : Except Errno (Vector (BitVec 8) 128) → Prop
  | .ok remote => peerSize remote ≠ none
  | .error _ => True

def Peers : (windowsAwaitable .tcpAccept).Report → Prop
  | .ready _ => True
  | .call report => peers report
  | .resume report => peers report

def NamesClient (s : AcceptLife) : Prop :=
  s.stage = .completed → (s.members : Tcp.Windows.Accept).ec.isError = false → Named s.members

def Overlapped : (windowsAwaitable .tcpAccept).Report → Prop
  | .call (.ok _) => False
  | _ => True

def Unnamed (s : AcceptLife) : Prop :=
  s.stage ≠ .completed → (s.members : Tcp.Windows.Accept).ec = .ok ∧
    (s.members : Tcp.Windows.Accept).client.endpoint.size = 0

theorem peerSize_ne_zero (remote : Vector (BitVec 8) 128) : peerSize remote ≠ some 0 := by
  unfold peerSize
  split
  · decide
  · split <;> decide

theorem resume_accepted {op : Tcp.Windows.Accept} {remote : Vector (BitVec 8) 128}
    {size : BitVec 32} (peer : peerSize remote = some size) :
    op.resume (.ok remote) =
      ({ op with
        remote := remote
        client.endpoint :=
          { storage := Vector.ofFn fun i =>
              if i.val < size.toNat then remote.get i else op.client.endpoint.storage.get i
            size } }, some true) := by
  unfold peerSize at peer
  unfold Tcp.Windows.Accept.resume
  dsimp only
  split at peer
  next inet =>
    cases peer
    rw [if_pos inet]
  next inet =>
    split at peer
    next inet6 =>
      cases peer
      rw [if_neg inet, if_pos inet6]
    · cases peer

theorem resume_named (op : Tcp.Windows.Accept) {remote : Vector (BitVec 8) 128}
    {size : BitVec 32} (peer : peerSize remote = some size) : Named (op.resume (.ok remote)).1 := by
  rw [resume_accepted peer]
  constructor
  · exact peer
  · intro i within
    show (Vector.ofFn fun i => if i.val < size.toNat then remote.get i
      else op.client.endpoint.storage.get i)[i] = remote.get i
    rw [Fin.getElem_fin, Vector.getElem_ofFn]
    exact if_pos within

structure Made (op : Tcp.Windows.Accept) : Prop where
  ec : op.ec = .ok
  size : op.client.endpoint.size = 0

theorem issue_rejected (op : Tcp.Windows.Accept) (rc : Errno) :
    op.issue (.error rc) = (op, none) ∨ op.issue (.error rc) = (op, some true) ∨
      op.issue (.error rc) = ({ op with ec := .native rc }, some false) := by
  simp only [Tcp.Windows.Accept.issue]
  split
  · exact .inr (.inl rfl)
  · split
    · exact .inr (.inr rfl)
    · exact .inl rfl

theorem resume_rejected (op : Tcp.Windows.Accept) (rc : Errno) :
    op.resume (.error rc) = (op, some false) ∨
      op.resume (.error rc) = ({ op with ec := .native rc }, some true) := by
  simp only [Tcp.Windows.Accept.resume]
  split
  · exact .inr rfl
  · exact .inl rfl

inductive Attempted (op : Tcp.Windows.Accept) (report : (windowsAwaitable .tcpAccept).Report)
    (after : Tcp.Windows.Accept) (stage : Stage) : Prop where
  | again (kept : after = op) (going : stage ≠ .completed) (overlapped : Overlapped report)
  | failed (error : after.ec.isError = true) (done : stage = .completed)
      (overlapped : Overlapped report)
  | immediate (ec : after.ec = op.ec) (client : after.client = op.client)
      (done : stage = .completed) (at_once : ¬ Overlapped report)
  | completed (ec : after.ec = op.ec) (named : Named after) (done : stage = .completed)
      (overlapped : Overlapped report)

theorem attempted {op : Tcp.Windows.Accept} {report : (windowsAwaitable .tcpAccept).Report}
    (peer : Peers report) (nonzero : (windowsAwaitable .tcpAccept).failure report ≠ some 0) :
    Attempted op report ((windowsAwaitable .tcpAccept).run op report).1
      (proceed ((windowsAwaitable .tcpAccept).run op report) report) := by
  cases report with
  | ready report => exact .again rfl (fun done => by cases done) trivial
  | call report =>
      cases report with
      | ok remote => exact .immediate rfl rfl rfl fun overlapped => overlapped
      | error rc =>
          have positive : rc ≠ 0 := fun zero => nonzero (congrArg some zero)
          show Attempted op _ (op.issue (.error rc)).1
            (proceed (c := windowsAwaitable .tcpAccept) (op.issue (.error rc)) (.call (.error rc)))
          rcases issue_rejected op rc with answer | answer | answer <;> rw [answer]
          · exact .again rfl (fun done => by cases done) trivial
          · exact .again rfl (fun done => by cases done) trivial
          · exact .failed (by simpa using positive) rfl trivial
  | resume report =>
      cases report with
      | ok remote =>
          obtain ⟨size, known⟩ := Option.ne_none_iff_exists'.mp peer
          show Attempted op _ (op.resume (.ok remote)).1
            (proceed (c := windowsAwaitable .tcpAccept) (op.resume (.ok remote))
              (.resume (.ok remote)))
          have named := resume_named op known
          rw [resume_accepted known] at named ⊢
          exact .completed rfl named rfl trivial
      | error rc =>
          have positive : rc ≠ 0 := fun zero => nonzero (congrArg some zero)
          show Attempted op _ (op.resume (.error rc)).1
            (proceed (c := windowsAwaitable .tcpAccept) (op.resume (.error rc))
              (.resume (.error rc)))
          rcases resume_rejected op rc with answer | answer <;> rw [answer]
          · exact .again rfl (fun done => by cases done) trivial
          · exact .failed (by simpa using positive) rfl trivial

theorem run_attempted {s t : AcceptLife} {report : (windowsAwaitable .tcpAccept).Report}
    (peer : Peers report) (action : run s report = some t) :
    s.stage ≠ .completed ∧ Attempted s.members report t.members t.stage := by
  obtain ⟨⟨place, nonzero⟩, rfl⟩ := provided_eq_some.mp action
  refine ⟨?_, attempted peer nonzero⟩
  rw [place]
  cases report <;> simp [expects]

theorem unnamed_step {s t : AcceptLife} {report : (windowsAwaitable .tcpAccept).Report}
    (peer : Peers report) (unnamed : Unnamed s) (action : run s report = some t) : Unnamed t := by
  obtain ⟨working, attempt⟩ := run_attempted peer action
  intro going
  cases attempt with
  | again kept _ _ =>
      rw [kept]
      exact unnamed working
  | failed _ done _ => exact absurd done going
  | immediate _ _ done _ => exact absurd done going
  | completed _ _ done _ => exact absurd done going

theorem namesClient_step {s t : AcceptLife} {report : (windowsAwaitable .tcpAccept).Report}
    (peer : Peers report) (unnamed : Unnamed s) (action : run s report = some t) :
    NamesClient t ↔ Overlapped report := by
  obtain ⟨working, attempt⟩ := run_attempted peer action
  obtain ⟨clean, unsized⟩ := unnamed working
  cases attempt with
  | again _ going overlapped => exact iff_of_true (fun done => absurd done going) overlapped
  | failed error _ overlapped =>
      exact iff_of_true (fun _ clean => by simp [error] at clean) overlapped
  | completed _ named _ overlapped => exact iff_of_true (fun _ _ => named) overlapped
  | immediate ec client done at_once =>
      apply iff_of_false _ at_once
      intro names
      have named := names done (by rw [ec, clean]; rfl)
      have size := named.size
      rw [client, unsized] at size
      exact peerSize_ne_zero _ size

/-- Over whatever sequence of resets, the client of an accept that completes without an error has
the address of its peer exactly if no `AcceptEx` succeeds at once. -/
theorem accept_names_client_iff (op : Tcp.Windows.Accept) (made : Made op)
    (reports : List (windowsAwaitable .tcpAccept).Report)
    (peer : ∀ report ∈ reports, Peers report) (s : AcceptLife)
    (ran : exec run (start op ()) reports = some s) :
    Always run NamesClient (start op ()) reports ↔ ∀ report ∈ reports, Overlapped report := by
  have begun : (start op () : AcceptLife).stage = .suspending := rfl
  have stepwise := always_iff_alwaysMeets_of Unnamed ran peer (fun _ => ⟨made.ec, made.size⟩)
    (fun done => by cases begun.symm.trans done)
    (fun s report t peer => unnamed_step peer)
    fun s report t peer unnamed _ action => namesClient_step peer unnamed action
  rw [stepwise, alwaysMeets_iff_forall ran]

def peer : Vector (BitVec 8) 128 :=
  ⟨⟨[2, 0, 31, 144, 10, 0, 0, 1] ++ List.replicate 120 0⟩, by simp⟩

def accepting : Tcp.Windows.Accept :=
  { client := { context := 3, endpoint := { storage := .replicate 128 0 }, handle := some 9 }
    remote := .replicate 128 0 }

theorem accept_names_client_overlapped :
    ∃ s : AcceptLife, (s.members : Tcp.Windows.Accept).client.endpoint.size = 16 ∧
      Named s.members := by
  let reports : List (windowsAwaitable .tcpAccept).Report :=
    [.call (Except.error 10054), .call (Except.error 997), .resume (Except.ok peer)]
  have last : (exec run (start accepting ()) reports).map
      (fun s => (s.stage, (s.members : Tcp.Windows.Accept).ec,
        (s.members : Tcp.Windows.Accept).client.endpoint.size)) =
      some (.completed, .ok, 16) := by decide
  obtain ⟨s, ran, same⟩ := Option.map_eq_some_iff.mp last
  simp only [Prod.mk.injEq] at same
  obtain ⟨done, clean, size⟩ := same
  have peers : ∀ report ∈ reports, Peers report :=
    List.forall_mem_cons.mpr ⟨trivial, List.forall_mem_cons.mpr ⟨trivial,
      List.forall_mem_cons.mpr ⟨(by decide : peerSize peer ≠ none), by simp⟩⟩⟩
  have overlapped : ∀ report ∈ reports, Overlapped report :=
    List.forall_mem_cons.mpr ⟨trivial, List.forall_mem_cons.mpr ⟨trivial,
      List.forall_mem_cons.mpr ⟨trivial, by simp⟩⟩⟩
  have always := (accept_names_client_iff accepting ⟨rfl, rfl⟩ reports peers s ran).mpr overlapped
  exact ⟨s, size, always.last ran done (by rw [clean]; rfl)⟩

theorem accept_names_no_client :
    ¬ ∀ op : Tcp.Windows.Accept, Made op → ∀ reports : List (windowsAwaitable .tcpAccept).Report,
      (∀ report ∈ reports, Peers report) → ∀ s, exec run (start op ()) reports = some s →
        NamesClient s := by
  intro names
  let reports : List (windowsAwaitable .tcpAccept).Report := [.call (Except.ok peer)]
  obtain ⟨s, ran⟩ : ∃ s, exec run (start accepting ()) reports = some s := ⟨_, rfl⟩
  have peers : ∀ report ∈ reports, Peers report :=
    List.forall_mem_cons.mpr ⟨(by decide : peerSize peer ≠ none), by simp⟩
  have named := names accepting ⟨rfl, rfl⟩ reports peers s ran
  cases ran
  exact absurd (named rfl rfl).size (by decide)

def econnaborted : Os → Errno
  | .freebsd => 53
  | _ => 103

/-- `accept` on one backend. `connection` is the handle of the client, if the attempt yields one.
What an attempt can report is a connection, a wait, an interruption or, where it is `aborted`,
that a connection was given up before it was accepted. -/
structure Acceptor where
  operation : Awaitable
  awaitResume : operation.Members → Except ErrorCode Socket
  connection : operation.Members → operation.Report → Option (Option Fd)
  possible : operation.Report → Prop
  aborted : operation.Report → Prop

namespace Acceptor

def reports (os : Os) : Except Errno (Fd × Endpoint) → Prop
  | .ok _ => True
  | .error errno => errno = .eagain os ∨ errno = .eintr ∨ errno = econnaborted os

def posix (os : Os) : Acceptor where
  operation := posixAwaitable os .tcpAccept
  awaitResume := Tcp.Accept.awaitResume
  connection
    | _, .ready (.ok (fd, _)) => some (some fd)
    | _, .resume (.ok (fd, _)) => some (some fd)
    | _, _ => none
  possible
    | .ready report => reports os report
    | .call report => report = .ok ()
    | .resume report => reports os report
  aborted
    | .ready report => report = .error (econnaborted os)
    | .call _ => False
    | .resume report => report = .error (econnaborted os)

def windows : Acceptor where
  operation := windowsAwaitable .tcpAccept
  awaitResume := Tcp.Windows.Accept.awaitResume
  connection
    | members, .call (.ok _) => some (members : Tcp.Windows.Accept).client.handle
    | members, .resume (.ok _) => some (members : Tcp.Windows.Accept).client.handle
    | _, _ => none
  possible
    | .ready _ => True
    | .call (.error errno) => errno = Tcp.Windows.ioPending ∨ errno = Tcp.Windows.wsaeconnreset
    | .resume (.error errno) => errno = Tcp.Windows.wsaeconnreset
    | _ => True
  aborted _ := False

end Acceptor

def acceptor : Os → Acceptor
  | .win32 => .windows
  | .linux => .posix .linux
  | .freebsd => .posix .freebsd

/-- The coroutine `server`: at the head of its loop, in a `co_await` of `accept`, or past the loop,
where it stops the context. -/
inductive Place (a : Acceptor) where
  | listening
  | accepting (life : Life a.operation Unit)
  | stopped

structure Server (a : Acceptor) where
  place : Place a := .listening
  yielded : List (Option Fd) := []
  handled : List (Option Fd) := []

inductive Action (a : Acceptor) where
  | accept (members : a.operation.Members)
  | report (report : a.operation.Report)

namespace Server

variable {a : Acceptor}

def finish (s : Server a) (members : a.operation.Members) : Server a :=
  match a.awaitResume members with
  | .ok client => { s with place := .listening, handled := s.handled ++ [client.handle] }
  | .error _ => { s with place := .stopped }

def advance (s : Server a) (life : Life a.operation Unit) : Server a :=
  if life.stage = .completed then s.finish life.members else { s with place := .accepting life }

def yields (s : Server a) (connection : Option (Option Fd)) : Server a :=
  { s with yielded := s.yielded ++ connection.toList }

def step (s : Server a) : Action a → Option (Server a)
  | .accept members =>
      match s.place with
      | .listening =>
          provided (a.operation.ec members = .ok) { s with place := .accepting (start members ()) }
      | _ => none
  | .report report =>
      match s.place with
      | .accepting life =>
          (Life.step quiet life report).map
            (s.yields (a.connection life.members report)).advance
      | _ => none

structure Serves (s : Server a) : Prop where
  going : s.place ≠ .stopped
  returned : s.handled = s.yielded

def Awaits (s : Server a) : Prop :=
  ∀ life, s.place = .accepting life → life.stage ≠ .completed ∧ a.operation.ec life.members = .ok

inductive Outcome (a : Acceptor) (report : a.operation.Report) (connection : Option (Option Fd))
    (members : a.operation.Members) (stage : Stage) : Prop where
  | retried (clean : a.operation.ec members = .ok) (going : stage ≠ .completed)
      (none : connection = none) (unaborted : ¬ a.aborted report)
  | returned (client : Socket) (returns : a.awaitResume members = .ok client)
      (done : stage = .completed) (yields : connection = some client.handle)
      (unaborted : ¬ a.aborted report)
  | thrown (ec : ErrorCode) (throws : a.awaitResume members = .error ec)
      (done : stage = .completed) (none : connection = none) (aborted : a.aborted report)

structure Accepts (a : Acceptor) : Prop where
  begins : ∀ members, (start members () : Life a.operation Unit).stage ≠ .completed
  attempts : ∀ members report, a.operation.ec members = .ok → a.possible report →
    Outcome a report (a.connection members report) (a.operation.run members report).1
      (proceed (a.operation.run members report) report)

theorem awaitReady_waits {os : Os} (op : Tcp.Accept) {errno : Errno}
    (transient : Errno.fatal os errno = false) :
    ∃ after, Tcp.Accept.awaitReady os op (.error errno) = (after, some false) ∧
      after.ec = op.ec := by
  simp only [Tcp.Accept.awaitReady, transient]
  exact ⟨_, rfl, rfl⟩

theorem awaitReady_throws {os : Os} (op : Tcp.Accept) {errno : Errno}
    (fatal : Errno.fatal os errno = true) (nonzero : errno ≠ 0) :
    ∃ after, Tcp.Accept.awaitReady os op (.error errno) = (after, some true) ∧
      after.awaitResume = .error (.native errno) := by
  simp only [Tcp.Accept.awaitReady, fatal]
  exact ⟨_, rfl, by simpa [Tcp.Accept.awaitResume] using nonzero⟩

theorem aborted_fatal (os : Os) : Errno.fatal os (econnaborted os) = true := by
  cases os <;> decide

theorem transient_not_fatal {os : Os} {errno : Errno}
    (transient : errno = .eagain os ∨ errno = .eintr) : Errno.fatal os errno = false := by
  unfold Errno.fatal
  rcases transient with rfl | rfl <;> simp

theorem posix_outcome {os : Os} {op : Tcp.Accept} {attempt : Except Errno (Fd × Endpoint)}
    {report : (Acceptor.posix os).operation.Report} {stage : Stage}
    (clean : op.ec = .ok) (possible : Acceptor.reports os attempt)
    (connection : (Acceptor.posix os).connection op report =
      match attempt with
      | .ok (fd, _) => some (some fd)
      | .error _ => none)
    (aborted : (Acceptor.posix os).aborted report ↔ attempt = .error (econnaborted os))
    (proceeds : ∀ answer, (Tcp.Accept.awaitReady os op attempt).2 = some answer →
      stage = if answer then .completed else .suspending) :
    Outcome (.posix os) report ((Acceptor.posix os).connection op report)
      (Tcp.Accept.awaitReady os op attempt).1 stage := by
  rw [connection]
  cases attempt with
  | ok accepted =>
      have returns : ∃ client,
          Tcp.Accept.awaitResume (Tcp.Accept.awaitReady os op (.ok accepted)).1 = .ok client ∧
            client.handle = some accepted.1 := by
        simp only [Tcp.Accept.awaitReady, Tcp.Accept.awaitResume, clean]
        exact ⟨_, rfl, rfl⟩
      obtain ⟨client, returns, handle⟩ := returns
      apply Outcome.returned client returns (proceeds true rfl)
      · rw [handle]
      · rw [aborted]
        simp
  | error errno =>
      by_cases dead : errno = econnaborted os
      · subst dead
        have nonzero : econnaborted os ≠ 0 := by cases os <;> decide
        obtain ⟨after, answer, throws⟩ := awaitReady_throws op (aborted_fatal os) nonzero
        rw [answer] at proceeds ⊢
        exact .thrown _ throws (proceeds true rfl) rfl (aborted.mpr rfl)
      · have transient := transient_not_fatal (possible.imp_right (Or.resolve_right · dead))
        obtain ⟨after, answer, same⟩ := awaitReady_waits op transient
        rw [answer] at proceeds ⊢
        apply Outcome.retried (same.trans clean)
        · simp [proceeds false rfl]
        · rfl
        · rw [aborted]
          simpa using dead

theorem posix_accepts (os : Os) : Accepts (.posix os) where
  begins members := by simp [start, Acceptor.posix, posixAwaitable, SocketOperation.posix]
  attempts op report clean possible := by
    cases report with
    | ready attempt =>
        exact posix_outcome clean possible (by cases attempt <;> rfl) Iff.rfl
          fun answer => proceed_ready (c := posixAwaitable os .tcpAccept) fun _ => rfl
    | call attempt =>
        cases possible
        exact .retried clean (fun done => by cases done) rfl fun aborted => aborted
    | resume attempt =>
        exact posix_outcome clean possible (by cases attempt <;> rfl) Iff.rfl
          fun answer => proceed_resume (c := posixAwaitable os .tcpAccept) fun _ => rfl

theorem windows_returns {op : Tcp.Windows.Accept} (clean : op.ec = .ok) :
    op.awaitResume = .ok op.client.moveConstruct.1 := by
  simp [Tcp.Windows.Accept.awaitResume, clean]

theorem resume_clean (op : Tcp.Windows.Accept) (remote : Vector (BitVec 8) 128) :
    (op.resume (.ok remote)).2 = some true ∧ (op.resume (.ok remote)).1.ec = op.ec ∧
      (op.resume (.ok remote)).1.client.handle = op.client.handle := by
  simp only [Tcp.Windows.Accept.resume]
  split
  · exact ⟨rfl, rfl, rfl⟩
  · split <;> exact ⟨rfl, rfl, rfl⟩

theorem windows_accepts : Accepts .windows where
  begins members := fun done => by cases done
  attempts op report clean possible := by
    cases report with
    | ready attempt => exact .retried clean (fun done => by cases done) rfl fun aborted => aborted
    | call attempt =>
        cases attempt with
        | ok remote =>
            exact .returned _ (windows_returns clean) rfl rfl fun aborted => aborted
        | error errno =>
            rcases possible with rfl | rfl <;>
              exact .retried clean (fun done => by cases done) rfl fun aborted => aborted
    | resume attempt =>
        cases attempt with
        | ok remote =>
            obtain ⟨answer, kept, handle⟩ := resume_clean op remote
            have done : proceed ((windowsAwaitable .tcpAccept).run op (.resume (.ok remote)))
                (.resume (.ok remote)) = .completed :=
              proceed_resume (c := windowsAwaitable .tcpAccept) (fun _ => rfl) answer
            exact .returned _ (windows_returns (kept.trans clean)) done
              (congrArg some handle.symm) fun aborted => aborted
        | error errno =>
            cases possible
            exact .retried clean (fun done => by cases done) rfl fun aborted => aborted

theorem acceptor_accepts (os : Os) : Accepts (acceptor os) := by
  cases os with
  | win32 => exact windows_accepts
  | linux => exact posix_accepts .linux
  | freebsd => exact posix_accepts .freebsd

def Possible : Action a → Prop
  | .accept _ => True
  | .report report => a.possible report

def Unaborted : Action a → Prop
  | .accept _ => True
  | .report report => ¬ a.aborted report

theorem step_accept {s t : Server a} {members : a.operation.Members}
    (action : step s (.accept members) = some t) :
    a.operation.ec members = .ok ∧ s.place = .listening ∧
      t = { s with place := .accepting (start members ()) } := by
  simp only [step] at action
  split at action
  next place =>
    obtain ⟨clean, rfl⟩ := provided_eq_some.mp action
    exact ⟨clean, place, rfl⟩
  · cases action

theorem step_report {s t : Server a} {report : a.operation.Report}
    (action : step s (.report report) = some t) :
    ∃ life, s.place = .accepting life ∧ ∃ next, Life.step quiet life report = some next ∧
      t = (s.yields (a.connection life.members report)).advance next := by
  simp only [step] at action
  split at action
  next life place =>
    obtain ⟨next, moved, rfl⟩ := Option.map_eq_some_iff.mp action
    exact ⟨life, place, next, moved, rfl⟩
  · cases action

theorem report_outcome {s t : Server a} {report : a.operation.Report} (accepts : Accepts a)
    (awaits : Awaits s) (possible : a.possible report)
    (action : step s (.report report) = some t) :
    ∃ connection next, Outcome a report connection next.members next.stage ∧
      t = (s.yields connection).advance next := by
  obtain ⟨life, place, next, moved, rfl⟩ := step_report action
  obtain ⟨_, rfl⟩ := provided_eq_some.mp moved
  exact ⟨_, _, accepts.attempts life.members report (awaits life place).2 possible, rfl⟩

theorem awaits_step {s t : Server a} {action : Action a} (accepts : Accepts a)
    (possible : Possible action) (awaits : Awaits s) (taken : step s action = some t) :
    Awaits t := by
  cases action with
  | accept members =>
      obtain ⟨clean, _, rfl⟩ := step_accept taken
      intro life place
      cases place
      exact ⟨accepts.begins members, clean⟩
  | report report =>
      obtain ⟨connection, next, outcome, rfl⟩ := report_outcome accepts awaits possible taken
      intro life place
      cases outcome with
      | retried clean going _ _ =>
          rw [advance, if_neg going] at place
          cases place
          exact ⟨going, clean⟩
      | returned client returns done _ _ =>
          simp [advance, done, finish, returns] at place
      | thrown ec throws done _ _ =>
          simp [advance, done, finish, throws] at place

theorem serves_step {s t : Server a} {action : Action a} (accepts : Accepts a)
    (possible : Possible action) (awaits : Awaits s) (serves : Serves s)
    (taken : step s action = some t) : Serves t ↔ Unaborted action := by
  cases action with
  | accept members =>
      obtain ⟨_, _, rfl⟩ := step_accept taken
      exact iff_of_true ⟨by simp, serves.returned⟩ trivial
  | report report =>
      obtain ⟨connection, next, outcome, rfl⟩ := report_outcome accepts awaits possible taken
      cases outcome with
      | retried _ going none unaborted =>
          rw [advance, if_neg going, none]
          exact iff_of_true ⟨by simp, by simpa [yields] using serves.returned⟩ unaborted
      | returned client returns done yields unaborted =>
          rw [advance, if_pos done, finish, returns, yields]
          exact iff_of_true ⟨by simp, by simp [Server.yields, serves.returned]⟩ unaborted
      | thrown ec throws done none aborted =>
          rw [advance, if_pos done, finish, throws]
          exact iff_of_false (fun serves => serves.going rfl) (not_not_intro aborted)

/-- Whatever sequence of waits, interruptions and aborted connections comes before each connection:
the server goes on and is returned each one, exactly if no `accept4` reports an aborted one. -/
theorem server_serves_iff (os : Os) (actions : List (Action (acceptor os)))
    (s : Server (acceptor os)) (ran : exec step {} actions = some s)
    (possible : ∀ action ∈ actions, Possible action) :
    Always step Serves {} actions ↔ ∀ action ∈ actions, Unaborted action := by
  have accepts := acceptor_accepts os
  have stepwise := always_iff_alwaysMeets_of Awaits ran possible
    (fun life place => by cases place) ⟨by simp, rfl⟩
    (fun s action t possible => awaits_step accepts possible)
    fun s action t possible => serves_step accepts possible
  rw [stepwise, alwaysMeets_iff_forall ran]

def accept : Tcp.Accept :=
  { context := 3, socket := some 4
    client := { context := 3, endpoint := { storage := .replicate 128 0 } } }

theorem server_serves_after_wait :
    ∃ s : Server (acceptor .linux), Serves s ∧ s.handled = [some 7] := by
  let actions : List (Action (acceptor .linux)) :=
    [.accept accept, .report (.ready (Except.error 11)), .report (.call (Except.ok ())),
      .report (.resume (Except.error 4)), .report (.call (Except.ok ())),
      .report (.resume (Except.ok (7, { storage := peer, size := 16 })))]
  have last : (exec step {} actions).map Server.handled = some [some 7] := by decide
  obtain ⟨s, ran, handled⟩ := Option.map_eq_some_iff.mp last
  have possible : ∀ action ∈ actions, Possible action :=
    List.forall_mem_cons.mpr ⟨trivial, List.forall_mem_cons.mpr ⟨.inl rfl,
      List.forall_mem_cons.mpr ⟨rfl, List.forall_mem_cons.mpr ⟨.inr (.inl rfl),
        List.forall_mem_cons.mpr ⟨rfl, List.forall_mem_cons.mpr ⟨trivial, by simp⟩⟩⟩⟩⟩⟩
  have unaborted : ∀ action ∈ actions, Unaborted action :=
    List.forall_mem_cons.mpr ⟨trivial, List.forall_mem_cons.mpr ⟨(fun same => by cases same),
      List.forall_mem_cons.mpr ⟨fun aborted => aborted,
        List.forall_mem_cons.mpr ⟨(fun same => by cases same),
          List.forall_mem_cons.mpr ⟨fun aborted => aborted,
            List.forall_mem_cons.mpr ⟨(fun same => by cases same), by simp⟩⟩⟩⟩⟩⟩
  have always := (server_serves_iff .linux actions s ran possible).mpr unaborted
  exact ⟨s, always.last ran, handled⟩

theorem server_stops_on_aborted :
    ¬ ∀ (os : Os) (actions : List (Action (acceptor os))) (s : Server (acceptor os)),
      exec step {} actions = some s → (∀ action ∈ actions, Possible action) → Serves s := by
  intro serves
  let actions : List (Action (acceptor .linux)) :=
    [.accept accept, .report (.ready (Except.error 103))]
  obtain ⟨s, ran⟩ : ∃ s, exec step {} actions = some s := ⟨_, rfl⟩
  have possible : ∀ action ∈ actions, Possible action :=
    List.forall_mem_cons.mpr ⟨trivial, List.forall_mem_cons.mpr ⟨.inr (.inr rfl), by simp⟩⟩
  have going := (serves .linux actions s ran possible).going
  cases ran
  exact going rfl

end Server

end Ice.Event.Accepting
