import Ice.Event.Continuation

namespace Ice.Event
open Transition Net

variable {O X T W : Type}

structure Sockets (cls : O → EventClass) (X T W : Type) where
  events : Epoll cls T W
  handle : X → Option Fd := fun _ => none
  opened : Fd → Bool := fun _ => false

namespace Sockets

inductive Action (cls : O → EventClass) (X T W : Type) where
  | socket (x : X) (fd : Fd)
  | close (x : X)
  | destroy (x : X)
  | moveConstruct (x other : X)
  | moveAssign (x other : X)
  | operation (x : X) (t : T) (w : W) (o : O) (context : Fd) (members : (cls o).Members)
  | event (action : Event.Action cls T W)

end Sockets

namespace State

variable {cls : O → EventClass}

def withEpoll (s : Epoll cls T W) (epoll : Key → Option (Registration O)) : Epoll cls T W :=
  { s with kernel := epoll }

end State

namespace Sockets

variable {cls : O → EventClass} [DecidableEq X]

def create (object : (o : O) → Object W (cls o)) : Sockets cls X T W :=
  { events := .create object }

def closeFd (s : Sockets cls X T W) (fd : Fd) : Sockets cls X T W :=
  { s with
    events := s.events.withEpoll fun key => if key.2 = fd then none else s.events.kernel key
    opened := Function.update s.opened fd false }

def reset (s : Sockets cls X T W) (x : X) : Sockets cls X T W :=
  match s.handle x with
  | some fd => { s.closeFd fd with handle := Function.update s.handle x none }
  | none => s

def moveConstruct (s : Sockets cls X T W) (x other : X) : Sockets cls X T W :=
  { s with handle := Function.update (Function.update s.handle other none) x (s.handle other) }

def replaced (s : Sockets cls X T W) (x other : X) : Option Fd :=
  Function.update s.handle other none x

def moveAssign (s : Sockets cls X T W) (x other : X) : Sockets cls X T W :=
  match s.replaced x other with
  | some fd => (s.moveConstruct x other).closeFd fd
  | none => s.moveConstruct x other

def permits (s : Sockets cls X T W) : Event.Action cls T W → Bool
  | .operation .. => false
  | .add t (.ok ()) =>
      match s.events.pc t with
      | .add _ o _ => s.opened (s.events.object o).socket
      | _ => false
  | _ => true

variable [DecidableEq O] [DecidableEq T] [DecidableEq W]

/-- An operation keeps the descriptor that its socket had when it was made. The descriptor of a new
socket was not open. -/
def step (s : Sockets cls X T W) : Action cls X T W → Option (Sockets cls X T W)
  | .socket x fd =>
      provided ((s.handle x).isNone ∧ s.opened fd = false)
        { s with
          handle := Function.update s.handle x (some fd)
          opened := Function.update s.opened fd true }
  | .close x | .destroy x => some (s.reset x)
  | .moveConstruct x other =>
      provided ((s.handle x).isNone ∧ x ≠ other) (s.moveConstruct x other)
  | .moveAssign x other => some (s.moveAssign x other)
  | .operation x t w o context members =>
      match s.handle x with
      | some fd =>
          (s.events.step (.operation t w o context fd members)).map fun events => { s with events }
      | none => none
  | .event action =>
      if s.permits action then (s.events.step action).map fun events => { s with events } else none

end Sockets

namespace State

@[simp] theorem withEpoll_object {cls : O → EventClass} (s : Epoll cls T W)
    (epoll : Key → Option (Registration O)) : (s.withEpoll epoll).object = s.object := rfl

variable {cls : O → EventClass} {s u : Epoll cls T W} {epoll : Key → Option (Registration O)}

def Removes (s : Epoll cls T W) (t : T) (o : O) : Prop :=
  o ∈ s.batch t ∨ s.pc t = .remove o ∨ ∃ context id, s.pc t = .del o context id

/-- What is registered, but for registrations of events that have been reported. -/
def Shadows (s : Epoll cls T W) (epoll : Key → Option (Registration O)) : Prop :=
  ∀ key, s.kernel key = epoll key ∨ s.kernel key = none ∧ ∃ o, epoll key = some ⟨o, false⟩

theorem Shadows.update (shadows : s.Shadows epoll) (key : Key) (r : Option (Registration O))
    (same : u.kernel = Function.update s.kernel key r) :
    u.Shadows (Function.update epoll key r) := by
  intro key'
  rw [same]
  by_cases here : key' = key
  · rw [here]
    exact .inl (by simp)
  · simpa [here] using shadows key'

theorem Shadows.same (shadows : s.Shadows epoll) {key : Key} (found : s.kernel key ≠ none) :
    epoll key = s.kernel key := by
  rcases shadows key with same | ⟨none, _⟩
  · exact same.symm
  · exact absurd none found

theorem Shadows.close (shadows : s.Shadows epoll) {fd : Fd}
    (unwatched : ∀ context o, s.kernel (context, fd) ≠ some ⟨o, true⟩) :
    (s.withEpoll fun key => if key.2 = fd then none else s.kernel key).Shadows epoll := by
  intro key
  simp only [withEpoll]
  by_cases closed : key.2 = fd
  · rw [if_pos closed]
    rcases shadows key with same | ⟨_, dropped⟩
    · cases found : s.kernel key with
      | none => exact .inl (found.symm.trans same)
      | some r =>
          obtain ⟨o, armed⟩ := r
          cases armed with
          | true => exact absurd (closed ▸ found) (unwatched key.1 o)
          | false => exact .inr ⟨rfl, o, same.symm.trans found⟩
    · exact .inr ⟨rfl, dropped⟩
  · rw [if_neg closed]
    exact shadows key

variable [DecidableEq O] [DecidableEq T] [DecidableEq W]

def Kept (s : Epoll cls T W) : Prop := ∃ epoll, (s.withEpoll epoll).Inv ∧ s.Shadows epoll

def Unaware (s : Epoll cls T W) : Action cls T W → Prop
  | .add _ _ | .deliver _ _ => False
  | .go t => ∀ o context id, s.pc t ≠ .del o context id
  | _ => True

theorem code_withEpoll {t : T} : (s.withEpoll epoll).code t = (s.code t).map (·.withEpoll epoll) := by
  unfold State.code withEpoll
  dsimp only
  split
  case h_6 o _ => cases (s.object o).awaiter <;> rfl
  all_goals rfl

theorem go_withEpoll {t : T} (unaware : ∀ o context id, s.pc t ≠ .del o context id) :
    (s.withEpoll epoll).go t = (s.go t).map (·.withEpoll epoll) := by
  unfold State.go withEpoll
  dsimp only
  split
  case h_1 site o _ =>
      simp only [State.suspend]
      cases (cls o).suspend (s.object o).members <;> rfl
  case h_2 o _ =>
      simp only [State.remove]
      cases (s.object o).nativeContext <;> cases (s.object o).nativeId <;> rfl
  case h_3 o context id place => exact absurd place (unaware o context id)
  case h_4 => rfl
  case h_5 => exact code_withEpoll

theorem step_withEpoll {a : Action cls T W} (unaware : s.Unaware a) :
    (s.withEpoll epoll).step a = (s.step a).map (·.withEpoll epoll) := by
  cases a with
  | operation | await | call | poll | polled =>
      simp only [State.step, provided_map]
      rfl
  | ready t w o report =>
      simp only [State.step, provided_map, State.ready, withEpoll_object]
      cases ((cls o).awaitReady (s.object o).members report).2 with
      | none => rfl
      | some answer => cases answer <;> rfl
  | resume t o report =>
      simp only [State.step, provided_map, State.resume, withEpoll_object]
      cases ((cls o).resume (s.object o).members report).2 with
      | none => rfl
      | some answer => cases answer <;> rfl
  | dispatch t =>
      simp only [State.step, withEpoll]
      cases s.batch t with
      | nil => rfl
      | cons o rest => simp only [provided_map]; rfl
  | add | deliver => exact absurd unaware id
  | go t => exact go_withEpoll unaware

theorem step_epoll {a : Action cls T W} (unaware : s.Unaware a) (action : s.step a = some u) :
    u.kernel = s.kernel := by
  have same : s.withEpoll s.kernel = s := rfl
  have kept : (s.withEpoll s.kernel).step a = _ := step_withEpoll unaware
  rw [same, action] at kept
  rw [Option.some.inj kept]
  rfl

omit [DecidableEq W] in
theorem Inv.dropped {key : Key} {o : O} (inv : s.Inv) (found : s.kernel key = some ⟨o, false⟩) :
    key = s.key o ∧ ∃ t, s.Removes t o := by
  have keys : key = s.key o := inv.keys key _ found
  refine ⟨keys, ?_⟩
  rcases inv.settled o with ⟨_, idle⟩ | ⟨w, spot, _, waiting⟩
  · exact absurd found (idle.unregistered key false)
  · have fact := waiting.fact
    cases spot with
    | slot =>
        have armed := waiting.slot.mpr rfl
        rw [Registered, ← keys, found] at armed
        cases armed
    | batch t =>
        refine ⟨t, .inl (List.count_pos_iff.mp ?_)⟩
        rw [waiting.batch t]
        simp
    | thread t =>
        refine ⟨t, .inr ?_⟩
        have here := (waiting.thread t).mpr rfl
        simp only [Fact] at fact
        cases place : s.pc t with
        | free | polling | added => simp [place, Pc.object] at here
        | awaitReady | awaitSuspend =>
            rw [place] at fact
            exact absurd found (fact.2 key false)
        | suspend | refuse | refused =>
            rw [place] at fact
            exact absurd found (fact.2.2 key false)
        | add =>
            rw [place] at fact
            exact absurd found (fact.2.2.1 key false)
        | clear | resume | wake =>
            rw [place] at fact
            exact absurd found (fact.2 key false)
        | remove o' | del o' =>
            rw [place] at here
            obtain rfl : o' = o := Option.some.inj here
            simp

/-- No event is registered under a descriptor of that number while another has to be removed from
it, and a shared object is awaited by one coroutine at a time. -/
def Unhindered (s : Epoll cls T W) : Action cls T W → Prop
  | .add t (.ok ()) =>
      ∀ o, (s.pc t).object = some o → ∀ t' o', s.Removes t' o' → s.key o' ≠ s.key o
  | a => s.Exclusive a

theorem Kept.unaware {a : Action cls T W} (kept : s.Kept) (action : s.step a = some u)
    (unaware : s.Unaware a) (exclusive : s.Exclusive a) : u.Kept := by
  obtain ⟨epoll, inv, shadows⟩ := kept
  have shadowed : (s.withEpoll epoll).step a = some (u.withEpoll epoll) := by
    rw [step_withEpoll unaware, action]
    rfl
  have apart : (s.withEpoll epoll).Exclusive a := by
    cases a with
    | await t w o => exact exclusive
    | _ => trivial
  refine ⟨epoll, inv.step apart shadowed, fun key => ?_⟩
  rw [step_epoll unaware action]
  exact shadows key

omit [DecidableEq W] in
theorem Kept.add {t : T} {site : Option W} {o : O} {filter : Filter}
    {result : Except Errno Unit} (kept : s.Kept) (place : s.pc t = .add site o filter)
    (unhindered : s.Unhindered (.add t result))
    (action : s.add t site o result = some u) : u.Kept := by
  obtain ⟨epoll, inv, shadows⟩ := kept
  cases result with
  | error errno =>
      simp only [State.add, provided_eq_some] at action
      obtain ⟨_, rfl⟩ := action
      refine ⟨epoll, inv.goto place rfl rfl ?_, shadows⟩
      rintro w ⟨site, awaiter, unregistered, _⟩
      exact ⟨site, awaiter, unregistered⟩
  | ok _ =>
      simp only [State.add, provided_eq_some] at action
      obtain ⟨free, rfl⟩ := action
      have free' : epoll (s.key o) = none := by
        rcases shadows (s.key o) with same | ⟨_, o', dropped⟩
        · exact same.symm.trans free
        · obtain ⟨keys, t', removes⟩ := inv.dropped dropped
          exact absurd keys.symm (unhindered o (by rw [place]; rfl) t' o' removes)
      have shadowed : (s.withEpoll epoll).add t site o (.ok ()) = some _ :=
        provided_eq_some.mpr ⟨free', rfl⟩
      exact ⟨_, inv.add place shadowed, shadows.update _ _ rfl⟩

omit [DecidableEq W] in
theorem Kept.deliver {t : T} {key : Key} {o : O} (kept : s.Kept) (place : s.pc t = .polling)
    (found : s.kernel key = some ⟨o, true⟩) :
    Kept { s with
      kernel := Function.update s.kernel key (some ⟨o, false⟩)
      batch := Function.update s.batch t (s.batch t ++ [o]) } := by
  obtain ⟨epoll, inv, shadows⟩ := kept
  have found' : epoll key = some ⟨o, true⟩ := (shadows.same (by simp [found])).trans found
  exact ⟨_, inv.deliver place found', shadows.update _ _ rfl⟩

omit [DecidableEq W] in
theorem Kept.del {t : T} {o : O} {context id : Fd} (kept : s.Kept)
    (place : s.pc t = .del o context id) :
    ({ s with kernel := Function.update s.kernel (context, id) none }.goto t (.clear o)).Kept := by
  obtain ⟨epoll, inv, shadows⟩ := kept
  exact ⟨_, inv.del place, shadows.update _ _ rfl⟩

theorem Kept.step {a : Action cls T W} (kept : s.Kept) (action : s.step a = some u)
    (unhindered : s.Unhindered a) : u.Kept := by
  cases a with
  | add t result =>
      simp only [State.step] at action
      split at action
      next site o _ place => exact kept.add place unhindered action
      · cases action
  | deliver t key =>
      simp only [State.step] at action
      split at action
      next o found =>
        obtain ⟨⟨place, _⟩, rfl⟩ := provided_eq_some.mp action
        exact kept.deliver place found
      · cases action
  | go t =>
      by_cases removes : ∃ o context id, s.pc t = .del o context id
      · obtain ⟨o, context, id, place⟩ := removes
        simp only [State.step, State.go, place, Option.some.injEq] at action
        subst action
        exact kept.del place
      · exact kept.unaware action (fun o context id place => removes ⟨o, context, id, place⟩)
          unhindered
  | operation | await | call | ready | resume | poll | polled | dispatch =>
      exact kept.unaware action trivial unhindered

omit [DecidableEq W] in
theorem create_kept (object : (o : O) → Object W (cls o)) :
    (create object : Epoll cls T W).Kept :=
  ⟨fun _ => none, create_inv object, fun _ => .inl rfl⟩

omit [DecidableEq W] in
theorem Kept.waits {o : O} {w : W} (kept : s.Kept) (waits : w ∈ s.users o) :
    s.Registered o true ∨ ∃ t, s.Holds t o := by
  obtain ⟨epoll, inv, shadows⟩ := kept
  rcases inv.place waits with ⟨registered, _⟩ | ⟨_, t, holds, _⟩
  · left
    rcases shadows (s.key o) with same | ⟨_, o', dropped⟩
    · exact same.trans registered
    · cases dropped.symm.trans registered
  · exact .inr ⟨t, holds⟩

omit [DecidableEq W] in
theorem Kept.removes {t : T} {o : O} {context id : Fd} {r : Registration O} (kept : s.Kept)
    (place : s.pc t = .del o context id) (found : s.kernel (context, id) = some r) :
    r.target = o := by
  obtain ⟨epoll, inv, shadows⟩ := kept
  obtain ⟨w, _, _, registered, key, _⟩ := inv.holder place rfl
  have there : epoll (context, id) = some r := (shadows.same (by simp [found])).trans found
  rw [key] at there
  cases there.symm.trans registered
  rfl

end State

namespace Sockets

variable {cls : O → EventClass} [DecidableEq X] {s u : Sockets cls X T W}

def Unwatched (s : Sockets cls X T W) (fd : Fd) : Prop :=
  ∀ context o, s.events.kernel (context, fd) ≠ some ⟨o, true⟩

variable [DecidableEq O] [DecidableEq T] [DecidableEq W]

def Careful (s : Sockets cls X T W) : Action cls X T W → Prop
  | .close x | .destroy x => ∀ fd, s.handle x = some fd → s.Unwatched fd
  | .moveAssign x other => ∀ fd, s.replaced x other = some fd → s.Unwatched fd
  | .event action => s.events.Unhindered action
  | _ => True

theorem kept_step {a : Action cls X T W} (kept : s.events.Kept) (careful : s.Careful a)
    (action : s.step a = some u) : u.events.Kept := by
  obtain ⟨epoll, inv, shadows⟩ := kept
  cases a with
  | socket x fd =>
      simp only [step, provided_eq_some] at action
      obtain ⟨_, rfl⟩ := action
      exact ⟨epoll, inv, shadows⟩
  | close x | destroy x =>
      simp only [step, Option.some.injEq] at action
      subst action
      unfold reset
      split
      next fd owned => exact ⟨epoll, inv, shadows.close (careful fd owned)⟩
      · exact ⟨epoll, inv, shadows⟩
  | moveConstruct x other =>
      simp only [step, provided_eq_some] at action
      obtain ⟨_, rfl⟩ := action
      exact ⟨epoll, inv, shadows⟩
  | moveAssign x other =>
      simp only [step, Option.some.injEq] at action
      subst action
      unfold moveAssign
      split
      next fd owned => exact ⟨epoll, inv, shadows.close (careful fd owned)⟩
      · exact ⟨epoll, inv, shadows⟩
  | operation x t w o context members =>
      simp only [step] at action
      split at action
      next fd _ =>
        obtain ⟨events, moved, rfl⟩ := Option.map_eq_some_iff.mp action
        exact State.Kept.step ⟨epoll, inv, shadows⟩ moved trivial
      · cases action
  | event a =>
      simp only [step] at action
      split at action
      · obtain ⟨events, moved, rfl⟩ := Option.map_eq_some_iff.mp action
        exact State.Kept.step ⟨epoll, inv, shadows⟩ moved careful
      · cases action

theorem reaches_kept {object : (o : O) → Object W (cls o)}
    (reached : Reaches step Careful (create object) s) : s.events.Kept :=
  reached.invariant (State.create_kept object) fun _ _ _ kept careful action =>
    kept_step kept careful action

def Awaited (s : Sockets cls X T W) : Prop :=
  ∀ o w, w ∈ s.events.users o → s.events.Registered o true ∨ ∃ t, s.events.Holds t o

def RemovesOwn (s : Sockets cls X T W) : Prop :=
  ∀ t o context id, s.events.pc t = .del o context id →
    ∀ r, s.events.kernel (context, id) = some r → r.target = o

/-- As long as no descriptor is closed while an event waits under it, and none is registered under
the number of a closed one before the last event there was removed, no operation is stranded and
none loses its registration to another. -/
theorem closing_strands_none (operation : O → Operation)
    (object : (o : O) → Object W (operation o).eventClass)
    (s : Sockets (fun o => (operation o).eventClass) X T W)
    (reached : Reaches step Careful (create object) s) : s.Awaited ∧ s.RemovesOwn := by
  have kept := reaches_kept reached
  exact ⟨fun o w waits => kept.waits waits,
    fun t o context id place r found => kept.removes place found⟩

abbrev Receiving (O X T W : Type) := Sockets (fun _ : O => Operation.tcpRecv.eventClass) X T W

def receiver {O W : Type} (_ : O) : Object W Operation.tcpRecv.eventClass :=
  { context := 3, socket := 5, members := Tcp.Recv.make .linux 1024 }

def receive {O X T W : Type} (x : X) (t : T) (w : W) (o : O) :
    List (Sockets.Action (fun _ : O => Operation.tcpRecv.eventClass) X T W) :=
  [.socket x 5, .operation x t w o 3 (Tcp.Recv.make .linux 1024),
    .event (.ready t w o (.error 11 : Except Errno Nat)), .event (.go t), .event (.go t)]

def register {O X T W : Type} (t : T) :
    Sockets.Action (fun _ : O => Operation.tcpRecv.eventClass) X T W :=
  .event (.add t (.ok ()))

def report {O X T W : Type} (t t' : T) :
    List (Sockets.Action (fun _ : O => Operation.tcpRecv.eventClass) X T W) :=
  [.event (.go t), .event (.poll t' 1), .event (.deliver t' (3, 5)), .event (.polled t')]

theorem closing_strands_none_reported :
    ∃ s : Receiving Unit Unit Unit Unit, () ∈ s.events.users () ∧
      s.events.kernel (3, 5) = none ∧ s.Awaited := by
  obtain ⟨s₁, received, free, place, s₂, registered, s₃, reported, epoll, s₄, closed, users, none⟩ :
      ∃ s₁ : Receiving Unit Unit Unit Unit,
        exec step (create receiver) (receive () () () ()) = some s₁ ∧
        s₁.events.batch () = [] ∧ s₁.events.pc () = .add (some ()) () .read ∧
        ∃ s₂, step s₁ (register ()) = some s₂ ∧ ∃ s₃, exec step s₂ (report () ()) = some s₃ ∧
          s₃.events.kernel = Function.update (Function.update (fun _ => Option.none) (3, 5)
            (some ⟨(), true⟩)) (3, 5) (some ⟨(), false⟩) ∧
          ∃ s₄, step s₃ (.close ()) = some s₄ ∧ s₄.events.users () = [()] ∧
            s₄.events.kernel (3, 5) = Option.none :=
    ⟨_, rfl, rfl, rfl, _, rfl, _, rfl, rfl, _, rfl, rfl, rfl⟩
  have alone : Careful s₁ (register ()) := by
    intro o _ t' o' removes
    simp [State.Removes, free, place] at removes
  have unwatched : Careful s₃ (.close ()) := by
    intro fd _ context o found
    rw [epoll] at found
    by_cases here : (context, fd) = (3, 5)
    · simp [here] at found
    · simp [here] at found
  have waits : Reaches step Careful (create receiver) s₂ :=
    (exec_reaches received (by simp [receive, Careful, State.Unhindered, State.Exclusive])).trans
      (.single alone registered)
  have told : Reaches step Careful s₂ s₃ :=
    exec_reaches reported (by simp [report, Careful, State.Unhindered, State.Exclusive])
  have reached := (waits.trans told).trans (.single unwatched closed)
  exact ⟨s₄, by simp [users], none,
    (closing_strands_none (fun _ => .tcpRecv) receiver s₄ reached).1⟩

theorem closing_strands :
    (¬ ∀ s : Receiving Unit Unit Unit Unit, Reachable step (create receiver) s → s.Awaited) ∧
    ¬ ∀ s : Receiving Bool Bool Bool Bool, Reachable step (create receiver) s → s.RemovesOwn := by
  constructor
  · intro awaited
    obtain ⟨s, run, users, epoll, batch, place⟩ :
        ∃ s : Receiving Unit Unit Unit Unit, exec step (create receiver)
            (receive () () () () ++ [register (), .event (.go ()), .close ()]) = some s ∧
          s.events.users () = [()] ∧ s.events.kernel (s.events.key ()) = none ∧
          s.events.batch () = [] ∧ s.events.pc () = .free := ⟨_, rfl, rfl, rfl, rfl, rfl⟩
    rcases awaited s (exec_reachable run) () () (by simp [users]) with registered | ⟨t, holds⟩
    · simp [State.Registered, epoll] at registered
    · simp [State.Holds, batch, place, Pc.object] at holds
  · intro removesOwn
    obtain ⟨s, run, place, epoll⟩ :
        ∃ s : Receiving Bool Bool Bool Bool, exec step (create receiver)
            (receive false false false false ++ [register false] ++ report false true ++
              [.close false] ++ receive true false true true ++
              [register false, .event (.dispatch true), .event (.go true)]) = some s ∧
          s.events.pc true = .del false 3 5 ∧ s.events.kernel (3, 5) = some ⟨true, true⟩ :=
      ⟨_, rfl, rfl, rfl⟩
    have own := removesOwn s (exec_reachable run) true false 3 5 place _ epoll
    cases own

end Sockets

end Ice.Event
