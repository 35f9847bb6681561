import Ice.Event.Datagrams

namespace Ice.Event.Receiving
open Transition Net SocketOperation Life

def clear (e : Endpoint) : Endpoint := { e with size := 0 }

/-- `udp::recv` on one backend. `offered` is the endpoint as the kernel is given it, with the length
in its size; `calls` says that the report is of a call that hands it over. -/
structure Receiver where
  operation : Awaitable
  make : Endpoint → Nat → operation.Members
  endpoint : operation.Members → Endpoint
  offered : operation.Members → Endpoint
  calls : operation.Report → Bool
  delivered : operation.Report → Option Endpoint

namespace Receiver

def posix (os : Os) : Receiver where
  -- `await_ready` stores the capacity before its call.
  operation := posixAwaitable os .udpRecv
  make endpoint size := ({ endpoint, buffer := .make os size } : Udp.Recv)
  endpoint op := (op : Udp.Recv).endpoint
  offered op := { (op : Udp.Recv).endpoint with size := Endpoint.capacity }
  calls
    | .ready _ => true
    | .call _ => false
    | .resume _ => true
  delivered
    | .ready (.ok (_, endpoint)) => some endpoint
    | .resume (.ok (_, endpoint)) => some endpoint
    | _ => none

def windows : Receiver where
  operation := windowsAwaitable .udpRecv
  make endpoint size := ({ endpoint, buffer := .make .win32 size } : Udp.Windows.Recv)
  endpoint op := (op : Udp.Windows.Recv).endpoint
  offered op := (op : Udp.Windows.Recv).endpoint
  calls
    | .ready _ => false
    | .call _ => true
    | .resume _ => false
  delivered
    | .call (.ok (_, endpoint)) => some endpoint
    | .resume (.ok (_, endpoint)) => some endpoint
    | _ => none

end Receiver

def receiver : Os → Receiver
  | .win32 => .windows
  | .linux => .posix .linux
  | .freebsd => .posix .freebsd

def overlay {n : Nat} (storage address : Vector (BitVec 8) n) (bytes : Nat) : Vector (BitVec 8) n :=
  Vector.ofFn fun i => if i.val < bytes then address.get i else storage.get i

def written (offered sender : Endpoint) (bytes size : BitVec 32) : Endpoint where
  storage := overlay offered.storage sender.storage bytes.toNat
  size := size

/-- What the kernel may leave in an endpoint. A longer address than it was given room for it may cut,
and report the length it was given or that of the address. -/
def deliveries (offered sender : Endpoint) : List Endpoint :=
  if sender.size ≤ offered.size then [written offered sender sender.size sender.size]
  else [written offered sender offered.size offered.size,
    written offered sender offered.size sender.size]

def Possible (a : Receiver) (members : a.operation.Members) (sender : Endpoint)
    (report : a.operation.Report) : Prop :=
  (sender.size = Endpoint.sockaddrInSize ∨ sender.size = Endpoint.sockaddrIn6Size) ∧
    ∀ endpoint ∈ a.delivered report, endpoint ∈ deliveries (a.offered members) sender

instance (a : Receiver) (members : a.operation.Members) (sender : Endpoint)
    (report : a.operation.Report) : Decidable (Possible a members sender report) :=
  inferInstanceAs (Decidable (_ ∧ ∀ endpoint ∈ a.delivered report,
    endpoint ∈ deliveries (a.offered members) sender))

/-- An endpoint that is shared by operations one after another. `given` are the lengths that the
kernel was given, `received` the sender of each datagram with what its `recv` left. -/
structure Shared (a : Receiver) where
  endpoint : Endpoint
  life : Option (Life a.operation Unit) := none
  given : List (BitVec 32) := []
  received : List (Endpoint × Endpoint) := []

inductive Action (a : Receiver) where
  | recv (size : Nat)
  | clear
  | report (sender : Endpoint) (report : a.operation.Report)

namespace Shared

variable {a : Receiver}

def quiet {c : Awaitable} (_ : Unit) (_ : c.Members) (_ : c.Report) : Unit := ()

def advance (s : Shared a) (life : Life a.operation Unit) : Shared a :=
  if life.stage = .completed then { s with endpoint := a.endpoint life.members, life := none }
  else { s with life := some life }

def noted (s : Shared a) (sender : Endpoint) (members next : a.operation.Members)
    (report : a.operation.Report) : Shared a :=
  { s with
    given := s.given ++ if a.calls report then [(a.offered members).size] else []
    received := s.received ++
      if (a.delivered report).isSome then [(sender, a.endpoint next)] else [] }

def step (s : Shared a) : Action a → Option (Shared a)
  | .recv size =>
      provided s.life.isNone { s with life := some (start (a.make s.endpoint size) ()) }
  | .clear => provided s.life.isNone { s with endpoint := Receiving.clear s.endpoint }
  | .report sender report =>
      match s.life with
      | some life =>
          if Possible a life.members sender report then
            (Life.step quiet life report).map fun next =>
              (s.noted sender life.members next.members report).advance next
          else none
      | none => none

structure Complete (sender left : Endpoint) : Prop where
  size : left.size = sender.size
  storage : ∀ i : Fin 128, i.val < sender.size.toNat → left.storage.get i = sender.storage.get i

structure Reports (s : Shared a) : Prop where
  room : ∀ size ∈ s.given, size = Endpoint.capacity
  complete : ∀ entry ∈ s.received, Complete entry.1 entry.2

def calls : Action a → Bool
  | .report _ report => a.calls report
  | _ => false

theorem get_overlay {n bytes : Nat} {storage address : Vector (BitVec 8) n} (i : Fin n)
    (within : i.val < bytes) : (overlay storage address bytes).get i = address.get i := by
  show (Vector.ofFn _)[i] = address.get i
  rw [Fin.getElem_fin, Vector.getElem_ofFn]
  exact if_pos within

@[simp] theorem size_written (offered sender : Endpoint) (bytes size : BitVec 32) :
    (written offered sender bytes size).size = size := by
  simp only [written]

theorem written_complete (offered sender : Endpoint) :
    Complete sender (written offered sender sender.size sender.size) := by
  constructor
  · exact size_written ..
  · intro i within
    simp only [written]
    exact get_overlay i within

theorem possible_written {members : a.operation.Members} {sender : Endpoint}
    {report : a.operation.Report} (fits : sender.size ≤ (a.offered members).size)
    (family : sender.size = Endpoint.sockaddrInSize ∨ sender.size = Endpoint.sockaddrIn6Size)
    (delivered : a.delivered report =
      some (written (a.offered members) sender sender.size sender.size)) :
    Possible a members sender report := by
  refine ⟨family, fun endpoint same => ?_⟩
  have left := Option.some.inj (delivered.symm.trans same)
  rw [deliveries, if_pos fits, List.mem_singleton]
  exact left.symm

theorem delivered_complete {members : a.operation.Members} {sender endpoint : Endpoint}
    {report : a.operation.Report} (room : (a.offered members).size = Endpoint.capacity)
    (possible : Possible a members sender report) (delivered : a.delivered report = some endpoint) :
    Complete sender endpoint := by
  have fits : sender.size ≤ (a.offered members).size := by
    rw [room]
    rcases possible.1 with same | same <;> rw [same] <;> decide
  have left := possible.2 endpoint delivered
  rw [deliveries, if_pos fits, List.mem_singleton] at left
  rw [left]
  exact written_complete _ sender

theorem step_possible {s : Shared a} {life : Life a.operation Unit} {sender : Endpoint}
    {report : a.operation.Report} (underway : s.life = some life)
    (possible : Possible a life.members sender report) :
    step s (.report sender report) = (Life.step quiet life report).map fun next =>
      (s.noted sender life.members next.members report).advance next := by
  simp only [Shared.step, underway, if_pos possible]

theorem step_report {s t : Shared a} {sender : Endpoint} {report : a.operation.Report}
    (action : step s (.report sender report) = some t) :
    ∃ life next, s.life = some life ∧ Possible a life.members sender report ∧
      Life.step quiet life report = some next ∧
      t = (s.noted sender life.members next.members report).advance next := by
  simp only [step] at action
  split at action
  · next life present =>
      split at action
      · next possible =>
          obtain ⟨next, taken, rfl⟩ := Option.map_eq_some_iff.mp action
          exact ⟨life, next, present, possible, taken, rfl⟩
      · cases action
  · cases action

@[simp] theorem given_advance (s : Shared a) (life : Life a.operation Unit) :
    (s.advance life).given = s.given := by
  unfold advance
  split <;> rfl

@[simp] theorem received_advance (s : Shared a) (life : Life a.operation Unit) :
    (s.advance life).received = s.received := by
  unfold advance
  split <;> rfl

theorem reports_report_iff {s t : Shared a} {sender : Endpoint} {report : a.operation.Report}
    {life next : Life a.operation Unit} (reports : Reports s)
    (reported : t = (s.noted sender life.members next.members report).advance next) :
    Reports t ↔ (a.calls report = true → (a.offered life.members).size = Endpoint.capacity) ∧
      ((a.delivered report).isSome → Complete sender (a.endpoint next.members)) := by
  subst reported
  constructor
  · intro after
    constructor
    · intro calls
      apply after.room
      simp [noted, calls]
    · intro delivered
      apply after.complete (sender, a.endpoint next.members)
      simp [noted, delivered]
  · rintro ⟨room, complete⟩
    constructor
    · intro size member
      rw [given_advance, noted] at member
      rcases List.mem_append.mp member with old | new
      · exact reports.room size old
      · split at new
        · next calls =>
            cases List.mem_singleton.mp new
            exact room calls
        · cases new
    · intro entry member
      rw [received_advance, noted] at member
      rcases List.mem_append.mp member with old | new
      · exact reports.complete entry old
      · split at new
        · next delivered =>
            cases List.mem_singleton.mp new
            exact complete delivered
        · cases new

theorem Reports.quiet {s t : Shared a} (reports : Reports s) (given : t.given = s.given)
    (received : t.received = s.received) : Reports t :=
  ⟨by rw [given]; exact reports.room, by rw [received]; exact reports.complete⟩

/-! ## On Linux and FreeBSD -/

theorem posix_endpoint {os : Os} {members : (Receiver.posix os).operation.Members}
    {report : (Receiver.posix os).operation.Report} {endpoint : Endpoint}
    (delivered : (Receiver.posix os).delivered report = some endpoint) :
    (Receiver.posix os).endpoint ((Receiver.posix os).operation.run members report).1 =
      endpoint := by
  cases report with
  | ready report =>
      cases report with
      | ok result => exact Option.some.inj delivered
      | error errno => cases delivered
  | call report => cases delivered
  | resume report =>
      cases report with
      | ok result => exact Option.some.inj delivered
      | error errno => cases delivered

theorem posix_reports {os : Os} {s t : Shared (.posix os)} {action : Action (.posix os)}
    (reports : Reports s) (taken : step s action = some t) : Reports t := by
  cases action with
  | recv size =>
      obtain ⟨_, rfl⟩ := provided_eq_some.mp taken
      exact reports.quiet rfl rfl
  | clear =>
      obtain ⟨_, rfl⟩ := provided_eq_some.mp taken
      exact reports.quiet rfl rfl
  | report sender report =>
      obtain ⟨life, next, _, possible, moved, reported⟩ := step_report taken
      obtain ⟨_, rfl⟩ := provided_eq_some.mp moved
      rw [reports_report_iff reports reported]
      refine ⟨fun _ => rfl, fun some => ?_⟩
      obtain ⟨endpoint, delivered⟩ := Option.isSome_iff_exists.mp some
      rw [posix_endpoint delivered]
      exact delivered_complete rfl possible delivered

theorem posix_always {os : Os} {s : Shared (.posix os)} (reports : Reports s)
    (actions : List (Action (.posix os))) : Always step Reports s actions := by
  induction actions generalizing s with
  | nil => exact reports
  | cons action actions ih => exact ⟨reports, fun t taken => ih (posix_reports reports taken)⟩

/-! ## On Windows -/

def Known (size : BitVec 32) : Prop :=
  size = 0 ∨ size = Endpoint.sockaddrInSize ∨ size = Endpoint.sockaddrIn6Size

theorem Known.ne_capacity {size : BitVec 32} (known : Known size) : size ≠ Endpoint.capacity := by
  rcases known with rfl | rfl | rfl <;> decide

theorem known_delivered {members : a.operation.Members} {sender endpoint : Endpoint}
    {report : a.operation.Report} (known : Known (a.offered members).size)
    (possible : Possible a members sender report) (delivered : a.delivered report = some endpoint) :
    Known endpoint.size := by
  have address : Known sender.size := .inr possible.1
  have left := possible.2 endpoint delivered
  rw [deliveries] at left
  split at left
  · rw [List.mem_singleton.mp left, size_written]
    exact address
  · rcases List.mem_cons.mp left with first | last
    · rw [first, size_written]
      exact known
    · rw [List.mem_singleton.mp last, size_written]
      exact address

theorem windows_endpoint {members : Receiver.windows.operation.Members}
    {report : Receiver.windows.operation.Report} {endpoint : Endpoint}
    (delivered : Receiver.windows.delivered report = some endpoint) :
    Receiver.windows.endpoint (Receiver.windows.operation.run members report).1 = endpoint := by
  cases report with
  | ready report => cases delivered
  | call report =>
      cases report with
      | ok result => exact Option.some.inj delivered
      | error rc => cases delivered
  | resume report =>
      cases report with
      | ok result => exact Option.some.inj delivered
      | error rc => cases delivered

theorem issue_rejected (op : Udp.Windows.Recv) (rc : Errno) :
    (op.issue (.error rc)).1.endpoint = op.endpoint := by
  simp only [Udp.Windows.Recv.issue]
  split <;> simp only

theorem windows_endpoint_kept {members : Receiver.windows.operation.Members}
    {report : Receiver.windows.operation.Report}
    (nothing : Receiver.windows.delivered report = none) :
    Receiver.windows.endpoint (Receiver.windows.operation.run members report).1 =
      Receiver.windows.endpoint members := by
  cases report with
  | ready report => exact Eq.refl (members : Udp.Windows.Recv).endpoint
  | call report =>
      cases report with
      | ok result => cases nothing
      | error rc => exact issue_rejected members rc
  | resume report =>
      cases report with
      | ok result => cases nothing
      | error rc => exact Eq.refl (members : Udp.Windows.Recv).endpoint

theorem calls_of_waiting {members : Receiver.windows.operation.Members}
    {report : Receiver.windows.operation.Report}
    (waiting : proceed (Receiver.windows.operation.run members report) report = .waiting) :
    Receiver.windows.calls report = true := by
  cases report with
  | ready report => cases waiting
  | call report => rfl
  | resume report => cases report <;> cases waiting

structure Scant (s : Shared .windows) : Prop where
  idle : Known s.endpoint.size
  active : ∀ life, s.life = some life → Known (Receiver.windows.endpoint life.members).size
  waiting : ∀ life, s.life = some life → life.stage = .waiting →
    ∃ size ∈ s.given, size ≠ Endpoint.capacity

theorem Scant.step {s t : Shared .windows} {action : Action .windows} (scant : Scant s)
    (taken : step s action = some t) : Scant t := by
  cases action with
  | recv size =>
      obtain ⟨_, rfl⟩ := provided_eq_some.mp taken
      refine ⟨scant.idle, fun life same => ?_, fun life same waiting => ?_⟩
      · cases same
        exact scant.idle
      · cases same
        cases waiting
  | clear =>
      obtain ⟨none, rfl⟩ := provided_eq_some.mp taken
      exact ⟨.inl rfl, scant.active, scant.waiting⟩
  | report sender report =>
      obtain ⟨life, next, present, possible, moved, reported⟩ := step_report taken
      obtain ⟨⟨place, _⟩, rfl⟩ := provided_eq_some.mp moved
      have known : Known (Receiver.windows.endpoint
          (Receiver.windows.operation.run life.members report).1).size := by
        cases delivered : Receiver.windows.delivered report with
        | some endpoint =>
            rw [windows_endpoint delivered]
            exact known_delivered (scant.active life present) possible delivered
        | none =>
            rw [windows_endpoint_kept delivered]
            exact scant.active life present
      rw [reported, advance]
      split
      · exact ⟨known, (fun _ same => nomatch same), fun _ same => nomatch same⟩
      · refine ⟨scant.idle, fun next same => ?_, fun next same waiting => ?_⟩
        · cases same
          exact known
        · cases same
          refine ⟨_, List.mem_append_right _ ?_, (scant.active life present).ne_capacity⟩
          rw [if_pos (calls_of_waiting waiting)]
          exact List.mem_singleton.mpr rfl

theorem windows_reports_iff {s t : Shared .windows} {action : Action .windows} (scant : Scant s)
    (reports : Reports s) (taken : step s action = some t) :
    Reports t ↔ calls action = false := by
  cases action with
  | recv size =>
      obtain ⟨_, rfl⟩ := provided_eq_some.mp taken
      exact iff_of_true (reports.quiet rfl rfl) rfl
  | clear =>
      obtain ⟨_, rfl⟩ := provided_eq_some.mp taken
      exact iff_of_true (reports.quiet rfl rfl) rfl
  | report sender report =>
      obtain ⟨life, next, present, _, moved, reported⟩ := step_report taken
      obtain ⟨⟨place, _⟩, rfl⟩ := provided_eq_some.mp moved
      rw [reports_report_iff reports reported]
      cases report with
      | ready report =>
          exact iff_of_true ⟨(fun calls => nomatch calls), fun some => nomatch some⟩ rfl
      | call report =>
          have known := scant.active life present
          exact iff_of_false (fun both => known.ne_capacity (both.1 rfl)) Bool.noConfusion
      | resume report =>
          -- The call that the operation waits for has been made with too little room.
          obtain ⟨size, member, other⟩ := scant.waiting life present place
          exact absurd (reports.room size member) other

end Shared

open Shared

/-- On an endpoint that is new, cleared or filled: every receive call is given the length of the
whole storage and every sender is reported in full, always on Linux and FreeBSD, and on Windows
exactly until the first receive call. -/
theorem senders_reported_iff (os : Os) (endpoint : Endpoint) (begun : Known endpoint.size)
    (actions : List (Action (receiver os))) (s : Shared (receiver os))
    (ran : exec step { endpoint } actions = some s) :
    Always step Reports { endpoint } actions ↔
      (os = .win32 → ∀ action ∈ actions, calls action = false) := by
  have first : Reports ({ endpoint } : Shared (receiver os)) := ⟨by simp, by simp⟩
  cases os with
  | win32 =>
      have start : Scant ({ endpoint } : Shared .windows) :=
        ⟨begun, (fun _ same => nomatch same), fun _ same => nomatch same⟩
      have stepwise := always_iff_alwaysMeets Scant ran start first
        (fun _ _ _ scant taken => scant.step taken)
        fun _ _ _ scant reports taken => windows_reports_iff scant reports taken
      exact (stepwise.trans (alwaysMeets_iff_forall ran)).trans
        ⟨fun none _ => none, fun none => none rfl⟩
  | linux => exact iff_of_true (posix_always first actions) fun same => nomatch same
  | freebsd => exact iff_of_true (posix_always first actions) fun same => nomatch same

def padded (bytes : List (BitVec 8)) : Vector (BitVec 8) 128 :=
  ⟨⟨(bytes ++ List.replicate 128 0).take 128⟩, by simp⟩

def inet : Endpoint := { storage := padded [2, 0, 31, 144, 10, 0, 0, 1], size := 16 }

def inet6 : Endpoint :=
  { storage := padded ([10, 0, 31, 144] ++ List.replicate 19 0 ++ [1]), size := 28 }

theorem senders_reported_mixed :
    ∃ s : Shared (receiver .linux), s.received.length = 2 ∧ Reports s := by
  let first := written { inet6 with size := 128 } inet 16 16
  let second := written { first with size := 128 } inet6 28 28
  let actions : List (Action (receiver .linux)) :=
    [.recv 4, .report inet (.ready (Except.error 11)), .report inet (.call (Except.ok ())),
      .report inet (.resume (Except.ok (4, first))), .recv 4,
      .report inet6 (.ready (Except.ok (4, second)))]
  let start : Shared (receiver .linux) := { endpoint := inet6 }
  obtain ⟨s, ran, length⟩ : ∃ s, exec step start actions = some s ∧ s.received.length = 2 := by
    -- each report is possible; the rest of a step is evaluated
    refine ⟨_, exec_cons.mpr ⟨_, rfl, exec_cons.mpr ⟨_, (step_possible rfl ?_).trans rfl,
      exec_cons.mpr ⟨_, (step_possible rfl ?_).trans rfl, exec_cons.mpr
      ⟨_, (step_possible rfl ?_).trans rfl, exec_cons.mpr ⟨_, rfl, exec_cons.mpr
      ⟨_, (step_possible rfl ?_).trans rfl, rfl⟩⟩⟩⟩⟩⟩, rfl⟩
    · exact ⟨.inl rfl, fun _ none => nomatch none⟩
    · exact ⟨.inl rfl, fun _ none => nomatch none⟩
    · exact possible_written (by decide) (.inl rfl) rfl
    · exact possible_written (by decide) (.inr rfl) rfl
  have always := (senders_reported_iff .linux inet6 (.inr (.inr rfl)) actions s ran).mpr
    fun same => nomatch same
  exact ⟨s, length, always.last ran⟩

theorem sender_without_room :
    ¬ ∀ (os : Os) (endpoint : Endpoint), Known endpoint.size →
      ∀ (actions : List (Action (receiver os))) (s : Shared (receiver os)),
        exec step { endpoint } actions = some s → Reports s := by
  intro reports
  have last : (exec step ({ endpoint := { inet with size := 0 } } : Shared (receiver .win32))
      [.recv 4, .report inet (.call (Except.error 10014))]).map (fun s => s.given) = some [0] := by
    decide +kernel
  obtain ⟨s, ran, given⟩ := Option.map_eq_some_iff.mp last
  have room := (reports .win32 _ (.inl rfl) _ s ran).room 0 (given ▸ List.mem_singleton.mpr rfl)
  exact absurd room (by decide)

end Ice.Event.Receiving
