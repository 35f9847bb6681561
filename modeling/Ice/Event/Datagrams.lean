import Ice.Event.Lifecycle

namespace Ice.Event.Datagrams
open Transition Net SocketOperation Life

/-- `udp::send` on one backend. `view` are the members that both have. A call that has sent a
datagram reports its length; `overlapped` is such a report of a call that was pending. -/
structure Sender where
  operation : Awaitable
  make : Endpoint → Nat → operation.Members
  view : operation.Members → Udp.Datagram
  sent : operation.Report → Option Nat
  overlapped : operation.Report → Bool
  awaitResume : operation.Members → Except ErrorCode Nat

namespace Sender

def posix (os : Os) : Sender where
  operation := posixAwaitable os .udpSend
  make endpoint size := ({ endpoint, sending := .make os size } : Udp.Datagram)
  view op := op
  sent
    | .ready (.ok rc) => some rc
    | .resume (.ok rc) => some rc
    | _ => none
  overlapped _ := false
  awaitResume op := (op : Udp.Datagram).sending.awaitResume

def windows : Sender where
  operation := windowsAwaitable .udpSend
  make endpoint size :=
    ({ endpoint, sending := { buffer := .make .win32 size } } : Udp.Windows.Datagram)
  view op :=
    { endpoint := (op : Udp.Windows.Datagram).endpoint
      sending :=
        { buffer := (op : Udp.Windows.Datagram).sending.buffer
          size := (op : Udp.Windows.Datagram).sending.size
          ec := (op : Udp.Windows.Datagram).sending.ec } }
  sent
    | .call (.ok bytes) => some bytes
    | .resume (.ok bytes) => some bytes
    | _ => none
  overlapped
    | .resume (.ok _) => true
    | _ => false
  awaitResume op := (op : Udp.Windows.Datagram).sending.awaitResume

end Sender

def sender : Os → Sender
  | .win32 => .windows
  | .linux => .posix .linux
  | .freebsd => .posix .freebsd

variable {β : Type}

def note (a : Sender) (payload : List β) (seen : List (List β × Endpoint))
    (members : a.operation.Members) (report : a.operation.Report) : List (List β × Endpoint) :=
  let op := a.view members
  seen ++ (a.sent report).toList.map fun _ => (op.sending.buffer.view payload, op.endpoint)

abbrev SendLife (a : Sender) (β : Type) := Life a.operation (List (List β × Endpoint))

def send (a : Sender) (payload : List β) (endpoint : Endpoint) : SendLife a β :=
  start (a.make endpoint payload.length) []

def Whole {a : Sender} (s : SendLife a β) (report : a.operation.Report) : Prop :=
  ∀ bytes ∈ a.sent report, bytes = (a.view s.members).sending.buffer.size

instance {a : Sender} (s : SendLife a β) (report : a.operation.Report) :
    Decidable (Whole s report) :=
  inferInstanceAs (Decidable (∀ bytes ∈ a.sent report, _))

inductive Outcome (a : Sender) (report : a.operation.Report) (op after : Udp.Datagram)
    (stage : Stage) : Prop where
  | waited (same : after = op) (going : stage ≠ .completed) (nothing : a.sent report = none)
      (immediate : a.overlapped report = false)
  | failed (error : after.sending.ec.isError = true) (done : stage = .completed)
  | ended (size : after.sending.size = addSize 64 op.sending.size op.sending.buffer.size)
      (done : stage = .completed) (sent : ∃ bytes, a.sent report = some bytes)
      (immediate : a.overlapped report = false)
  | repeated (same : after = { op with
        sending.size := addSize 64 op.sending.size op.sending.buffer.size })
      (going : stage ≠ .completed) (sent : ∃ bytes, a.sent report = some bytes)
      (overlapped : a.overlapped report = true)

theorem sendto_outcome {os : Os} {op : Udp.Datagram} {attempt : Except Errno Nat}
    {report : (Sender.posix os).operation.Report} {stage : Stage}
    (fits : op.sending.buffer.size < 2 ^ 64) (bounded : op.sending.size < 2 ^ 64)
    (nonzero : attempt ≠ .error 0)
    (whole : ∀ bytes, attempt = .ok bytes → bytes = op.sending.buffer.size)
    (sent : (Sender.posix os).sent report = attempt.toOption)
    (proceeds : ∀ answer, (Udp.Send.awaitReady os op attempt).2 = some answer →
      stage = if answer then .completed else .suspending) :
    Outcome (.posix os) report op (Udp.Send.awaitReady os op attempt).1 stage := by
  cases attempt with
  | ok bytes =>
      have all := whole bytes rfl
      cases bytes with
      | zero =>
          have same : addSize 64 op.sending.size op.sending.buffer.size = op.sending.size := by
            rw [← all]
            exact addSize_of_lt bounded
          exact .ended same.symm (proceeds true rfl) ⟨_, sent⟩ rfl
      | succ bytes =>
          have answer : Udp.Send.awaitReady os op (.ok (bytes + 1)) =
              ({ op with sending := op.sending.book (bytes + 1) },
                some ((op.sending.book (bytes + 1)).buffer.size == 0)) := rfl
          have nothing : (op.sending.book (bytes + 1)).buffer.size = 0 := by
            rw [all]
            exact (subSize_of_le (le_refl _) fits).trans (Nat.sub_self _)
          rw [answer, nothing] at proceeds
          refine .ended ?_ (proceeds true rfl) ⟨_, sent⟩ rfl
          rw [answer, all]
          rfl
  | error errno =>
      have positive : errno ≠ 0 := fun zero => nonzero (congrArg _ zero)
      by_cases fatal : Errno.fatal os errno
      · have answer : Udp.Send.awaitReady os op (.error errno) =
            ({ op with sending.ec := .native errno }, some true) := by
          simp [Udp.Send.awaitReady, Udp.Datagram.awaitReady, Sending.awaitReady, fatal]
        rw [answer] at proceeds ⊢
        exact .failed (by simpa using positive) (proceeds true rfl)
      · have answer : Udp.Send.awaitReady os op (.error errno) = (op, some false) := by
          simp [Udp.Send.awaitReady, Udp.Datagram.awaitReady, Sending.awaitReady, fatal]
        rw [answer] at proceeds ⊢
        have going := proceeds false rfl
        exact .waited rfl (by simp [going]) sent rfl

structure Working (a : Sender) (op : Udp.Datagram) : Prop where
  fits : op.sending.buffer.size < 2 ^ 64
  bounded : op.sending.size < 2 ^ 64
  left : a.operation.polls = false → 0 < op.sending.buffer.size ∧ op.sending.buffer.size < 2 ^ 32

def Attempts (a : Sender) : Prop :=
  ∀ members report, Working a (a.view members) → a.operation.failure report ≠ some 0 →
    (∀ bytes ∈ a.sent report, bytes = (a.view members).sending.buffer.size) →
    Outcome a report (a.view members) (a.view (a.operation.run members report).1)
      (proceed (a.operation.run members report) report)

theorem posix_attempts (os : Os) : Attempts (.posix os) := by
  intro members report working nonzero whole
  cases report with
  | ready report =>
      apply sendto_outcome working.fits working.bounded (fun zero => nonzero (by rw [zero]; rfl))
      · intro bytes same
        exact whole bytes (by rw [same]; rfl)
      · cases report <;> rfl
      · intro answer answers
        exact proceed_ready (c := posixAwaitable os .udpSend) (fun _ => rfl) answers
  | resume report =>
      apply sendto_outcome working.fits working.bounded (fun zero => nonzero (by rw [zero]; rfl))
      · intro bytes same
        exact whole bytes (by rw [same]; rfl)
      · cases report <;> rfl
      · intro answer answers
        exact proceed_resume (c := posixAwaitable os .udpSend) (fun _ => rfl) answers
  | call report =>
      cases report with
      | ok => exact .waited rfl (fun done => by cases done) rfl rfl
      | error errno =>
          have positive : errno ≠ 0 := fun zero => nonzero (congrArg some zero)
          refine .failed ?_ rfl
          show (ErrorCode.native errno).isError = true
          simpa using positive

theorem proceed_call {c : Awaitable} {members : c.Members} {report : c.Call} {answer : Bool}
    (answers : (c.suspend members report).2 = some answer) :
    proceed (c.run members (.call report)) (.call report) =
      if answer then .waiting else .completed := by
  simp only [proceed, Awaitable.run, answers]
  cases answer <;> rfl

theorem proceed_resume_again {c : Awaitable} {members : c.Members} {report : c.Resume}
    (answers : (c.resume members report).2 = some false) :
    proceed (c.run members (.resume report)) (.resume report) =
      enter c (c.resume members report).1 := by
  simp only [proceed, Awaitable.run, answers]

theorem enter_going {op : Udp.Windows.Datagram} (positive : 0 < op.sending.buffer.size) :
    enter (windowsAwaitable .udpSend) op ≠ .completed := by
  have some : op.sending.exhausted = false := by
    simpa [Tcp.Windows.Send.exhausted, Nat.pos_iff_ne_zero] using positive
  show (if op.sending.exhausted then Stage.completed else .suspending) ≠ .completed
  simp [some]

theorem issue_whole {op : Udp.Windows.Datagram} (fits : op.sending.buffer.size < 2 ^ 32) :
    (Udp.Windows.Send.issue op (.ok op.sending.buffer.size)).2 = some false :=
  if_pos (.inr ((subSize_of_le (le_refl _) fits).trans (Nat.sub_self _)))

theorem resume_whole {op : Udp.Windows.Datagram} (positive : 0 < op.sending.buffer.size) :
    Udp.Windows.Send.resume op (.ok op.sending.buffer.size) =
      ({ op with sending := { op.sending with
          bytes := op.sending.buffer.size
          size := addSize 64 op.sending.size op.sending.buffer.size } }, some false) := by
  simp [Udp.Windows.Send.resume, Tcp.Windows.Send.resume, positive]

theorem windows_attempts : Attempts .windows := by
  intro members report working nonzero whole
  obtain ⟨positive, fits⟩ := working.left rfl
  cases report with
  | ready report => exact .waited rfl (enter_going positive) rfl rfl
  | call report =>
      cases report with
      | ok bytes =>
          cases whole bytes rfl
          have done := proceed_call (c := windowsAwaitable .udpSend) (issue_whole fits)
          exact .ended rfl done ⟨_, rfl⟩ rfl
      | error rc =>
          have nonnull : rc ≠ 0 := fun zero => nonzero (congrArg some zero)
          by_cases pending : rc = Tcp.Windows.ioPending
          · subst pending
            exact .waited rfl (fun done => by cases done) rfl rfl
          · have answer : Tcp.Windows.Send.issue (members : Udp.Windows.Datagram).sending (.error rc) =
                ({ (members : Udp.Windows.Datagram).sending with ec := .native rc }, some false) :=
              if_pos pending
            have failed : ((windowsAwaitable .udpSend).suspend members (.error rc)).2 = some false :=
              congrArg Prod.snd answer
            have done := proceed_call failed
            refine .failed ?_ done
            show (Tcp.Windows.Send.issue _ _).1.ec.isError = true
            rw [answer]
            simpa using nonnull
  | resume report =>
      cases report with
      | ok bytes =>
          cases whole bytes rfl
          have answer : Udp.Windows.Send.resume members _ = _ := resume_whole positive
          have again := proceed_resume_again (c := windowsAwaitable .udpSend) (congrArg Prod.snd answer)
          refine .repeated (congrArg (fun answer => Sender.windows.view answer.1) answer) ?_ ⟨_, rfl⟩ rfl
          intro done
          refine enter_going ?_ (again.symm.trans done)
          exact positive
      | error rc =>
          have nonnull : rc ≠ 0 := fun zero => nonzero (congrArg some zero)
          refine .failed ?_ rfl
          show (ErrorCode.native rc).isError = true
          simpa using nonnull

structure Sends (a : Sender) (bits : Nat) : Prop where
  attempts : Attempts a
  narrow : bits ≤ 64
  leaves : a.operation.polls = false → bits = 32
  make : ∀ endpoint size, a.view (a.make endpoint size) =
    { endpoint, sending := { buffer := { size := size % 2 ^ bits } } }
  ec : ∀ members, a.operation.ec members = (a.view members).sending.ec
  awaitResume : ∀ members, a.awaitResume members = (a.view members).sending.awaitResume

theorem sender_sends (os : Os) : Sends (sender os) (sizeBits os) := by
  cases os with
  | win32 => exact ⟨windows_attempts, by decide, fun _ => rfl, fun _ _ => rfl, fun _ => rfl,
      fun _ => rfl⟩
  | linux => exact ⟨posix_attempts .linux, by decide, (fun polls => nomatch polls), fun _ _ => rfl,
      fun _ => rfl, fun _ => rfl⟩
  | freebsd => exact ⟨posix_attempts .freebsd, by decide, (fun polls => nomatch polls), fun _ _ => rfl,
      fun _ => rfl, fun _ => rfl⟩

/-- `k` datagrams have been reported by overlapped completions, and one more has ended the
operation, if it has ended. -/
structure Progress (a : Sender) (payload : List β) (endpoint : Endpoint) (size k : Nat)
    (s : SendLife a β) : Prop where
  going : s.stage ≠ .completed →
    a.view s.members = { endpoint, sending := { buffer := { size }, size := k * size % 2 ^ 64 } } ∧
      s.seen = List.replicate k (payload.take size, endpoint)
  ended : s.stage = .completed → (a.view s.members).sending.ec.isError = true ∨
    (a.view s.members).sending.size = (k + 1) * size % 2 ^ 64 ∧
      s.seen = List.replicate (k + 1) (payload.take size, endpoint)

variable {a : Sender} {payload : List β} {endpoint : Endpoint} {size k : Nat} {s t : SendLife a β}

theorem addSize_mul : addSize 64 (k * size % 2 ^ 64) size = (k + 1) * size % 2 ^ 64 := by
  rw [addSize, Nat.mod_add_mod, Nat.succ_mul]

theorem Progress.step {bits : Nat} {report : a.operation.Report} (sends : Sends a bits)
    (fits : size < 2 ^ bits) (left : a.operation.polls = false → 0 < size)
    (progress : Progress a payload endpoint size k s) (whole : Whole s report)
    (action : Life.step (note a payload) s report = some t) :
    Progress a payload endpoint size (k + if a.overlapped report then 1 else 0) t := by
  obtain ⟨⟨place, nonzero⟩, rfl⟩ := provided_eq_some.mp action
  have working : s.stage ≠ .completed := by
    rw [place]
    cases report <;> simp [expects]
  obtain ⟨view, seen⟩ := progress.going working
  have wide : size < 2 ^ 64 := Nat.lt_of_lt_of_le fits (Nat.pow_le_pow_right (by decide) sends.narrow)
  have fresh : Working a (a.view s.members) := by
    rw [view]
    refine ⟨wide, Nat.mod_lt _ (by decide), fun polls => ⟨left polls, ?_⟩⟩
    rwa [← sends.leaves polls]
  have noted (sent : ∃ bytes, a.sent report = some bytes) :
      note a payload s.seen s.members report =
        List.replicate (k + 1) (payload.take size, endpoint) := by
    obtain ⟨bytes, sent⟩ := sent
    simp [note, sent, seen, view, Buffer.view, List.replicate_succ']
  cases sends.attempts s.members report fresh nonzero whole with
  | waited same going nothing immediate =>
      rw [immediate]
      refine ⟨fun _ => ⟨same.trans view, ?_⟩, fun done => absurd done going⟩
      simp [note, nothing, seen]
  | failed error done => exact ⟨fun going => absurd done going, fun _ => .inl error⟩
  | ended total done sent immediate =>
      rw [immediate]
      refine ⟨fun going => absurd done going, fun _ => .inr ⟨?_, noted sent⟩⟩
      rw [total, view]
      exact addSize_mul
  | repeated same going sent overlapped =>
      rw [overlapped]
      refine ⟨fun _ => ⟨?_, noted sent⟩, fun done => absurd done going⟩
      rw [same, view]
      simp only [addSize_mul, if_true]

theorem Progress.run {bits : Nat} {reports : List a.operation.Report} (sends : Sends a bits)
    (fits : size < 2 ^ bits) (left : a.operation.polls = false → 0 < size)
    (progress : Progress a payload endpoint size k s)
    (whole : AlwaysMeets (Life.step (note a payload)) Whole s reports)
    (ran : exec (Life.step (note a payload)) s reports = some t) :
    Progress a payload endpoint size (k + reports.countP a.overlapped) t := by
  induction reports generalizing s k with
  | nil =>
      cases ran
      exact progress
  | cons report reports ih =>
      obtain ⟨u, action, rest⟩ := exec_cons.mp ran
      have next := ih (progress.step sends fits left whole.1 action) (whole.2 u action) rest
      rw [List.countP_cons, Nat.add_comm (reports.countP _), ← Nat.add_assoc]
      exact next

theorem send_progress (os : Os) (left : os = .win32 → 0 < payload.length % 2 ^ 32) :
    Progress (sender os) payload endpoint (payload.length % 2 ^ sizeBits os) 0
      (send (sender os) payload endpoint) := by
  have made := (sender_sends os).make endpoint payload.length
  -- An operation that does not poll leaves at once when there is nothing to send.
  have going : (send (sender os) payload endpoint).stage ≠ .completed := by
    cases os with
    | win32 => exact enter_going (left rfl)
    | linux => exact fun done => by cases done
    | freebsd => exact fun done => by cases done
  refine ⟨fun _ => ⟨?_, rfl⟩, fun done => absurd done going⟩
  rw [Nat.zero_mul]
  exact made

theorem replicate_eq_singleton_iff {γ : Type} {c d : γ} :
    List.replicate (k + 1) c = [d] ↔ k = 0 ∧ c = d := by
  rw [List.replicate_succ, List.cons.injEq, and_comm]
  cases k <;> simp

theorem win32_of_polls {os : Os} (polls : (sender os).operation.polls = false) : os = .win32 := by
  cases os with
  | win32 => rfl
  | linux => cases polls
  | freebsd => cases polls

theorem overlapped_of_posix {os : Os} (posix : os ≠ .win32)
    (report : (sender os).operation.Report) : (sender os).overlapped report = false := by
  cases os with
  | win32 => exact absurd rfl posix
  | linux => rfl
  | freebsd => rfl

theorem sizeBits_of_posix {os : Os} (posix : os ≠ .win32) : sizeBits os = 64 := by
  cases os with
  | win32 => exact absurd rfl posix
  | linux => rfl
  | freebsd => rfl

theorem Progress.sent_once_iff {os : Os}
    (sends : Sends a (sizeBits os)) (fits : payload.length < 2 ^ 64)
    (progress : Progress a payload endpoint (payload.length % 2 ^ sizeBits os) k s)
    (done : s.stage = .completed) (clean : a.operation.ec s.members = .ok) :
    s.seen = [(payload, endpoint)] ∧ a.awaitResume s.members = .ok payload.length ↔
      k = 0 ∧ payload.length < 2 ^ sizeBits os := by
  rw [sends.ec] at clean
  have intact : ¬ (a.view s.members).sending.ec.isError = true := by simp [clean]
  obtain ⟨total, seen⟩ := (progress.ended done).resolve_left intact
  have returned : a.awaitResume s.members = .ok (a.view s.members).sending.size := by
    rw [sends.awaitResume, Sending.awaitResume, if_neg intact]
  rw [seen, returned, total, replicate_eq_singleton_iff, Prod.mk.injEq]
  constructor
  · rintro ⟨⟨none, whole, _⟩, _⟩
    have below := Nat.mod_lt payload.length (Nat.two_pow_pos (sizeBits os))
    have length := congrArg List.length whole
    rw [List.length_take] at length
    exact ⟨none, by omega⟩
  · rintro ⟨rfl, within⟩
    rw [Nat.mod_eq_of_lt within, Nat.zero_add, Nat.one_mul, Nat.mod_eq_of_lt fits]
    exact ⟨⟨rfl, List.take_length, rfl⟩, rfl⟩

/-- For each payload, whatever waits come before: an operation that completes without an error has
sent the payload to the endpoint once and returns its length exactly if, on Windows, the payload
is neither empty nor longer than a buffer can be, and no pending call reported a datagram. -/
theorem send_sends_once_iff (os : Os) (payload : List β) (fits : payload.length < 2 ^ 64)
    (endpoint : Endpoint) (reports : List (sender os).operation.Report)
    (whole : AlwaysMeets (Life.step (note (sender os) payload)) Whole
      (send (sender os) payload endpoint) reports)
    (s : SendLife (sender os) β)
    (ran : exec (Life.step (note (sender os) payload)) (send (sender os) payload endpoint) reports =
      some s)
    (done : s.stage = .completed) (clean : (sender os).operation.ec s.members = .ok) :
    s.seen = [(payload, endpoint)] ∧ (sender os).awaitResume s.members = .ok payload.length ↔
      (os = .win32 → 0 < payload.length ∧ payload.length < 2 ^ 32 ∧
        ∀ report ∈ reports, (sender os).overlapped report = false) := by
  have sends := sender_sends os
  have reported : (os = .win32 → ∀ report ∈ reports, (sender os).overlapped report = false) ↔
      reports.countP (sender os).overlapped = 0 := by
    rw [List.countP_eq_zero]
    simp only [Bool.not_eq_true]
    by_cases posix : os = .win32
    · simp [posix]
    · simp [posix, overlapped_of_posix posix]
  by_cases left : os = .win32 → 0 < payload.length % 2 ^ 32
  · have polls : (sender os).operation.polls = false → 0 < payload.length % 2 ^ sizeBits os := by
      intro polls
      obtain rfl := win32_of_polls polls
      exact left rfl
    have start : Progress (sender os) payload endpoint _ 0 _ := send_progress os left
    have progress := start.run sends (Nat.mod_lt _ (Nat.two_pow_pos _)) polls whole ran
    rw [progress.sent_once_iff sends fits done clean, Nat.zero_add, ← reported]
    by_cases posix : os = .win32
    · subst posix
      have some : 0 < payload.length := Nat.lt_of_lt_of_le (left rfl) (Nat.mod_le _ _)
      simp only [true_implies, some, true_and, sizeBits]
      exact and_comm
    · have wide : sizeBits os = 64 := sizeBits_of_posix posix
      simp only [posix, false_implies, true_and, wide, fits]
  · -- Nothing is handed to the kernel: `suspend` leaves its loop before the first call.
    obtain ⟨rfl, empty⟩ := Classical.not_imp.mp left
    have left : (send (sender .win32) payload endpoint).stage = .completed := by
      have none : payload.length % 2 ^ 32 = 0 := by omega
      show (if payload.length % 2 ^ 32 == 0 then Stage.completed else .suspending) = .completed
      rw [none]
      rfl
    have nothing : s = send (sender .win32) payload endpoint := by
      cases reports with
      | nil => exact (Option.some.inj ran).symm
      | cons report reports =>
          obtain ⟨u, action, _⟩ := exec_cons.mp ran
          rw [step_completed left] at action
          cases action
    subst nothing
    constructor
    · rintro ⟨sent, _⟩
      cases sent
    · intro within
      obtain ⟨some, fits, _⟩ := within rfl
      rw [Nat.mod_eq_of_lt fits] at empty
      exact absurd some empty

def somewhere : Endpoint := { storage := .replicate 128 0, size := 16 }

theorem send_sends_once_blocked :
    ∃ s : SendLife (sender .linux) Nat, s.seen = [([1, 2], somewhere)] ∧
      (sender .linux).awaitResume s.members = .ok 2 := by
  let reports : List (sender .linux).operation.Report :=
    [.ready (Except.error 11), .call (Except.ok ()), .resume (Except.error 4), .call (Except.ok ()),
      .resume (Except.ok 2)]
  obtain ⟨s, ran⟩ : ∃ s, exec (Life.step (note (sender .linux) [1, 2]))
      (send (sender .linux) [1, 2] somewhere) reports = some s := ⟨_, rfl⟩
  have whole : AlwaysMeets (Life.step (note (sender .linux) [1, 2])) Whole
      (send (sender .linux) [1, 2] somewhere) reports := by decide
  have iff := send_sends_once_iff .linux [1, 2] (by decide) somewhere reports whole s ran
  cases ran
  exact ⟨_, (iff rfl rfl).mpr fun same => nomatch same⟩

theorem send_sends_twice :
    ¬ ∀ (os : Os) (payload : List Nat) (endpoint : Endpoint)
      (reports : List (sender os).operation.Report),
      AlwaysMeets (Life.step (note (sender os) payload)) Whole
        (send (sender os) payload endpoint) reports →
      ∀ s, exec (Life.step (note (sender os) payload)) (send (sender os) payload endpoint) reports =
          some s →
        s.stage = .completed → (sender os).operation.ec s.members = .ok →
        s.seen = [(payload, endpoint)] := by
  intro sends
  let reports : List (sender .win32).operation.Report :=
    [.call (Except.error 997), .resume (Except.ok 2), .call (Except.ok 2)]
  obtain ⟨s, ran⟩ : ∃ s, exec (Life.step (note (sender .win32) [1, 2]))
      (send (sender .win32) [1, 2] somewhere) reports = some s := ⟨_, rfl⟩
  have whole : AlwaysMeets (Life.step (note (sender .win32) [1, 2])) Whole
      (send (sender .win32) [1, 2] somewhere) reports := by decide
  have once := sends .win32 [1, 2] somewhere reports whole s ran
  cases ran
  have length := congrArg List.length (once rfl rfl)
  exact absurd length (by decide)

end Ice.Event.Datagrams
