import Ice.Event.Exclusive

namespace Ice.Event
open Transition Net

variable {O T W : Type} {cls : O → EventClass}

inductive Side where
  | recv
  | send
  deriving DecidableEq, Repr

namespace Side

def operation : Side → Operation
  | .recv => .tcpRecv
  | .send => .tcpSend

def eventClass (side : Side) : EventClass := side.operation.eventClass

theorem not_shared (side : Side) : side.eventClass.shared = false := by
  cases side <;> rfl

theorem suspend_registers (side : Side) (members : side.eventClass.Members) (ec : ErrorCode) :
    side.eventClass.suspend members ≠ .fail ec := by
  cases side <;> nofun

end Side

def Pc.Collided : Pc O W → Prop
  | .refuse _ _ ec => ec = .native Errno.eexist
  | _ => False

def Pc.adding : Pc O W → Option O
  | .add _ o _ => some o
  | _ => none

def Action.adds : Action cls T W → Option T
  | .add t _ => some t
  | _ => none

namespace State

/-- What an operation does is not disturbed by the other ones: no registration fails because the
descriptor is registered, no `remove` deletes what another event registered, and the members are
what the operation's own calls have made of them. -/
structure Isolated (s : Epoll cls T W) : Prop where
  registrations : ∀ t, ¬ (s.pc t).Collided
  removals : ∀ t o context id r, s.pc t = .del o context id → s.kernel (context, id) = some r →
    r.target = o
  results : ∀ o, (s.object o).members = s.dictated o

def Apart (s : Epoll cls T W) (a : Action cls T W) : Prop :=
  ∀ t ∈ a.adds, ∀ o ∈ (s.pc t).adding, s.kernel (s.key o) = none

instance [DecidableEq O] (s : Epoll cls T W) (a : Action cls T W) : Decidable (s.Apart a) :=
  inferInstanceAs (Decidable (∀ t ∈ a.adds, ∀ o ∈ (s.pc t).adding, s.kernel (s.key o) = none))

structure Unmixed (s : Epoll cls T W) : Prop where
  registrations : ∀ t, ¬ (s.pc t).Collided
  results : ∀ o, (s.object o).members = s.dictated o

variable [DecidableEq O] [DecidableEq T] {s u : Epoll cls T W} {t : T} {o : O} {w : W}
  {pc : Pc O W} {a : Action cls T W}

theorem Inv.removals (inv : s.Inv) {context id : Fd} {r : Registration O}
    (place : s.pc t = .del o context id) (found : s.kernel (context, id) = some r) :
    r.target = o := by
  obtain ⟨w, _, _, registered, same, _⟩ := inv.holder place rfl
  rw [same, registered] at found
  cases found
  rfl

theorem Inv.isolated_iff (inv : s.Inv) : s.Isolated ↔ s.Unmixed :=
  ⟨fun isolated => ⟨isolated.registrations, isolated.results⟩, fun unmixed =>
    ⟨unmixed.registrations, fun _ _ _ _ _ place found => inv.removals place found, unmixed.results⟩⟩

omit [DecidableEq O] [DecidableEq T] in
theorem Apart.of_adds_none (other : a.adds = none) : s.Apart a := by
  simp [Apart, other]

omit [DecidableEq O] [DecidableEq T] in
theorem Unmixed.of_same (unmixed : s.Unmixed) (pc : u.pc = s.pc)
    (results : ∀ o, (s.object o).members = s.dictated o → (u.object o).members = u.dictated o) :
    u.Unmixed :=
  ⟨fun t => by rw [pc]; exact unmixed.registrations t, fun o => results o (unmixed.results o)⟩

omit [DecidableEq O] in
theorem Unmixed.goto (unmixed : s.Unmixed) (clear : ¬ pc.Collided) : (s.goto t pc).Unmixed := by
  refine ⟨fun t' => ?_, unmixed.results⟩
  by_cases mine : t' = t
  · simpa [mine] using clear
  · simpa [mine] using unmixed.registrations t'

omit [DecidableEq T] in
theorem Unmixed.setMembers (unmixed : s.Unmixed) {members dictated : (cls o).Members}
    (same : members = dictated) : (s.setMembers o members dictated).Unmixed := by
  refine unmixed.of_same rfl fun o' before => ?_
  by_cases mine : o' = o
  · subst mine
    simpa [State.setMembers] using same
  · simpa [State.setMembers, setObject, mine] using before

theorem Unmixed.write (unmixed : s.Unmixed) {object : Object W (cls o)}
    (same : object.members = (s.object o).members) (clear : ¬ pc.Collided) :
    ((s.setObject o object).goto t pc).Unmixed := by
  refine Unmixed.goto (unmixed.of_same rfl fun o' before => ?_) clear
  by_cases mine : o' = o
  · subst mine
    rw [setObject_self, same]
    exact before
  · rw [setObject_other object mine]
    exact before

omit [DecidableEq T] in
theorem Unmixed.construct (unmixed : s.Unmixed) (object : Object W (cls o)) :
    (s.construct o object).Unmixed := by
  refine unmixed.of_same rfl fun o' before => ?_
  by_cases mine : o' = o
  · subst mine
    simp [State.construct]
  · simpa [State.construct, setObject_other object mine, mine] using before

section Steps
variable [DecidableEq W]

theorem Unmixed.start (unmixed : s.Unmixed) : (s.start t w o).Unmixed :=
  Unmixed.goto ⟨unmixed.registrations, unmixed.results⟩ id

theorem Unmixed.proceed (unmixed : s.Unmixed) : (s.proceed t w o).Unmixed :=
  Unmixed.goto ⟨unmixed.registrations, unmixed.results⟩ id

theorem Unmixed.ready (unmixed : s.Unmixed) (report : (cls o).Ready) :
    (s.ready t w o report).Unmixed := by
  have after : Unmixed (s.setMembers o ((cls o).awaitReady (s.object o).members report).1
      ((cls o).awaitReady (s.dictated o) report).1) :=
    unmixed.setMembers (by rw [unmixed.results])
  simp only [State.ready]
  split
  · exact after
  · exact after.proceed
  · exact after.goto id

omit [DecidableEq W] in
theorem Unmixed.resume (unmixed : s.Unmixed) (report : (cls o).Resume) :
    (s.resume t o report).Unmixed := by
  have after : Unmixed (s.setMembers o ((cls o).resume (s.object o).members report).1
      ((cls o).resume (s.dictated o) report).1) :=
    unmixed.setMembers (by rw [unmixed.results])
  simp only [State.resume]
  split
  · exact after
  · exact after.goto id
  · exact after.goto id

omit [DecidableEq O] [DecidableEq W] in
theorem Unmixed.add (unmixed : s.Unmixed) {site : Option W} {result : Except Errno Unit}
    (action : s.add t site o result = some u) : u.Unmixed ↔ s.kernel (s.key o) = none := by
  cases result with
  | ok _ =>
      simp only [State.add, provided_eq_some] at action
      obtain ⟨free, rfl⟩ := action
      refine iff_of_true (Unmixed.goto ⟨unmixed.registrations, unmixed.results⟩ id) free
  | error errno =>
      simp only [State.add, provided_eq_some] at action
      obtain ⟨reported, rfl⟩ := action
      rw [reported]
      constructor
      · rintro mixed rfl
        exact mixed.registrations t (by simp [Pc.Collided])
      · intro other
        exact unmixed.goto fun collided =>
          other (by simpa [Pc.Collided, ErrorCode.native] using collided)

theorem Unmixed.code (unmixed : s.Unmixed) (action : s.code t = some u) : u.Unmixed := by
  unfold State.code at action
  split at action
  case h_1 => cases action; exact unmixed.write rfl id
  case h_2 site o ec place =>
      cases action
      have other : ec ≠ .native Errno.eexist := fun collided =>
        unmixed.registrations t (by rw [place]; exact collided)
      refine (unmixed.setMembers ?_).goto id
      rw [if_neg other, unmixed.results]
  case h_3 => cases action; exact unmixed.proceed
  case h_4 => cases action; exact unmixed.goto id
  case h_5 => cases action; exact unmixed.goto id
  case h_6 o place =>
      obtain ⟨w, _, rfl⟩ := Option.map_eq_some_iff.mp action
      exact unmixed.proceed
  case h_7 => cases action

theorem Unmixed.go (unmixed : s.Unmixed)
    (registers : ∀ o members ec, (cls o).suspend members ≠ .fail ec)
    (action : s.go t = some u) : u.Unmixed := by
  unfold State.go at action
  split at action
  case h_1 site o place =>
      cases action
      simp only [State.suspend]
      split
      case h_1 ec fails => exact absurd fails (registers o _ ec)
      all_goals exact unmixed.write rfl id
  case h_2 o place =>
      cases action
      simp only [State.remove]
      split <;> exact unmixed.goto id
  case h_3 => cases action; exact Unmixed.goto ⟨unmixed.registrations, unmixed.results⟩ id
  case h_4 => cases action; exact unmixed.write rfl id
  case h_5 => exact unmixed.code action

theorem Unmixed.step (unmixed : s.Unmixed) (own : ∀ o, (cls o).shared = false)
    (registers : ∀ o members ec, (cls o).suspend members ≠ .fail ec)
    (action : s.step a = some u) : u.Unmixed ↔ s.Apart a := by
  cases a with
  | add t result =>
      simp only [State.step] at action
      split at action
      · rename_i site o filter place
        rw [unmixed.add action]
        simp [Apart, Action.adds, place, Pc.adding]
      · cases action
  | operation t w o context socket members =>
      simp only [State.step, provided_eq_some] at action
      obtain ⟨_, rfl⟩ := action
      exact iff_of_true (unmixed.construct _).start (.of_adds_none rfl)
  | await t w o =>
      simp [State.step, own, provided_eq_some] at action
  | call t o argument =>
      simp only [State.step, provided_eq_some] at action
      obtain ⟨_, rfl⟩ := action
      exact iff_of_true (unmixed.setMembers (by rw [unmixed.results])) (.of_adds_none rfl)
  | ready t w o report =>
      simp only [State.step, provided_eq_some] at action
      obtain ⟨_, rfl⟩ := action
      exact iff_of_true (unmixed.ready report) (.of_adds_none rfl)
  | resume t o report =>
      simp only [State.step, provided_eq_some] at action
      obtain ⟨_, rfl⟩ := action
      exact iff_of_true (unmixed.resume report) (.of_adds_none rfl)
  | poll t size | polled t =>
      simp only [State.step, provided_eq_some] at action
      obtain ⟨_, rfl⟩ := action
      exact iff_of_true (Unmixed.goto ⟨unmixed.registrations, unmixed.results⟩ id)
        (.of_adds_none rfl)
  | deliver t key =>
      simp only [State.step] at action
      split at action
      · obtain ⟨_, rfl⟩ := provided_eq_some.mp action
        exact iff_of_true ⟨unmixed.registrations, unmixed.results⟩ (.of_adds_none rfl)
      · cases action
  | dispatch t =>
      simp only [State.step] at action
      split at action
      · obtain ⟨_, rfl⟩ := provided_eq_some.mp action
        exact iff_of_true (Unmixed.goto ⟨unmixed.registrations, unmixed.results⟩ id)
          (.of_adds_none rfl)
      · cases action
  | go t => exact iff_of_true (unmixed.go registers action) (.of_adds_none rfl)

end Steps

end State

section Duplex
variable [DecidableEq O] [DecidableEq T] [DecidableEq W]

/-- The operations of a run are isolated from each other exactly when each `EPOLL_CTL_ADD` is issued
while the other operation on the socket has no registration, from its own `EPOLL_CTL_ADD` to its
`remove`. -/
theorem duplex_isolated_iff (side : O → Side) (object : (o : O) → Object W (side o).eventClass)
    (actions : List (Action (fun o => (side o).eventClass) T W))
    (s : Epoll (fun o => (side o).eventClass) T W)
    (run : exec State.step (State.create object) actions = some s) :
    Always State.step State.Isolated (State.create object) actions ↔
      AlwaysMeets State.step State.Apart (State.create object) actions := by
  have own : ∀ o, (side o).eventClass.shared = false := fun o => (side o).not_shared
  have kept : ∀ (s : Epoll (fun o => (side o).eventClass) T W) a u, s.Inv → s.step a = some u →
      u.Inv := by
    intro s a u inv action
    refine inv.step ?_ action
    cases a with
    | await t w o => simp [State.step, own, provided_eq_some] at action
    | _ => trivial
  have first := State.create_inv (T := T) object
  refine always_iff_alwaysMeets State.Inv run first ?_ kept ?_
  · exact first.isolated_iff.mpr ⟨fun _ => id, fun _ => rfl⟩
  · intro s a u inv isolated action
    rw [(kept s a u inv action).isolated_iff]
    exact (inv.isolated_iff.mp isolated).step own (fun o => (side o).suspend_registers) action

end Duplex

def sides : (side : Side) → Object Side side.eventClass
  | .recv => { context := 3, socket := 5, members := Tcp.Recv.make .linux 1024 }
  | .send => { context := 3, socket := 5, members := Sending.make .linux 158 }

def awaitRecv : Action Side.eventClass Unit Side :=
  .operation () .recv .recv 3 5 (Tcp.Recv.make .linux 1024)

def awaitSend : Action Side.eventClass Unit Side :=
  .operation () .send .send 3 5 (Sending.make .linux 158)

def writeWhileWaiting : List (Action Side.eventClass Unit Side) :=
  [awaitRecv, .ready () .recv .recv (.error 11 : Except Errno Nat), .go (), .go (),
    .add () (.ok ()), .go (),
    awaitSend, .ready () .send .send (.ok 158 : Except Errno Nat)]

theorem duplex_isolated_write_while_waiting :
    Always State.step State.Isolated (State.create sides) writeWhileWaiting := by
  obtain ⟨s, run⟩ : ∃ s, exec State.step (State.create sides) writeWhileWaiting = some s :=
    ⟨_, rfl⟩
  exact (duplex_isolated_iff id sides writeWhileWaiting s run).mpr (by decide)

theorem duplex_collides : ¬ ∀ s : Epoll Side.eventClass Unit Side,
    Reachable State.step (State.create sides) s → s.Isolated := by
  intro isolated
  let actions : List (Action Side.eventClass Unit Side) :=
    [awaitSend, .ready () .send .send (.error 11 : Except Errno Nat), .go (), .go (),
      .add () (.ok ()), .go (),
      awaitRecv, .ready () .recv .recv (.error 11 : Except Errno Nat), .go (), .go (),
      .add () (.error Errno.eexist), .go (), .go ()]
  obtain ⟨s, run, ended, ec, dictated⟩ : ∃ s, exec State.step (State.create sides) actions = some s ∧
      s.continued .recv = 1 ∧ Tcp.Recv.ec (s.object .recv).members = .native Errno.eexist ∧
        Tcp.Recv.ec (s.dictated .recv) = .ok := ⟨_, rfl, rfl, rfl, rfl⟩
  have same := congrArg Tcp.Recv.ec ((isolated s (exec_reachable run)).results .recv)
  rw [ec, dictated] at same
  exact absurd same (by decide)

end Ice.Event
