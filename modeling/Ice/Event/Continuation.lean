import Ice.Event.Exclusive

namespace Ice.Event
open Transition Net

variable {O T W : Type} {cls : O → EventClass}

namespace State

def Continues (s : Epoll cls T W) (t : T) (w : W) (o : O) : Prop :=
  s.pc t = .awaitReady w o ∨ s.pc t = .refused (some w) o ∨
    (s.pc t = .wake o ∧ (s.object o).awaiter = some w)

variable [DecidableEq O] [DecidableEq T] [DecidableEq W]

inductive Effect (s u : Epoll cls T W) (a : Action cls T W) : Prop where
  | none (users : u.users = s.users) (continued : u.continued = s.continued)
      (key : ∀ o, u.key o = s.key o)
  | continues (t : T) (w : W) (o : O) (continues : s.Continues t w o)
      (users : u.users = Function.update s.users o ((s.users o).erase w))
      (continued : u.continued = Function.update s.continued w (s.continued w + 1))
      (key : ∀ o, u.key o = s.key o) (epoll : u.kernel = s.kernel)
  | begins (t : T) (w : W) (o : O)
      (action : (∃ members, a = .operation t w o (u.key o).1 (u.key o).2 members) ∨
        (a = .await t w o ∧ u.key o = s.key o))
      (users : u.users = Function.update s.users o (s.users o ++ [w]))
      (continued : u.continued = s.continued) (key : ∀ o', o' ≠ o → u.key o' = s.key o')

variable {s u : Epoll cls T W} {a : Action cls T W} {t : T} {o : O} {w : W}

omit [DecidableEq O] [DecidableEq W] in
@[simp] theorem goto_key (s : Epoll cls T W) (t : T) (pc : Pc O W) (o : O) :
    (s.goto t pc).key o = s.key o := rfl

@[simp] theorem proceed_key (s : Epoll cls T W) (t : T) (w : W) (o o' : O) :
    (s.proceed t w o).key o' = s.key o' := rfl

omit [DecidableEq T] [DecidableEq W] in
theorem setMembers_key (members dictated : (cls o).Members) (o' : O) :
    (s.setMembers o members dictated).key o' = s.key o' := by
  simp only [key, setMembers_base]

omit [DecidableEq T] [DecidableEq W] in
theorem setObject_key (object : Object W (cls o)) (context : object.context = (s.object o).context)
    (socket : object.socket = (s.object o).socket) (o' : O) :
    (s.setObject o object).key o' = s.key o' := by
  by_cases same : o' = o
  · subst same
    simp [key, context, socket]
  · simp [key, setObject_other object same]

theorem code_effect (action : s.code t = some u) : Effect s u (.go t) := by
  unfold State.code at action
  split at action
  case h_1 w o place => cases action; exact .none rfl rfl (setObject_key _ rfl rfl)
  case h_2 site o ec place =>
      cases action
      exact .none rfl rfl fun o' => by rw [State.refuse, goto_key, setMembers_key]
  case h_3 w o place =>
      cases action
      exact .continues t w o (.inr (.inl place)) rfl rfl (fun _ => rfl) rfl
  case h_4 o place => cases action; exact .none rfl rfl fun _ => rfl
  case h_5 place => cases action; exact .none rfl rfl fun _ => rfl
  case h_6 o place =>
      obtain ⟨w, awaits, rfl⟩ := Option.map_eq_some_iff.mp action
      exact .continues t w o (.inr (.inr ⟨place, awaits⟩)) rfl rfl (fun _ => rfl) rfl
  case h_7 => cases action

theorem go_effect (action : s.go t = some u) : Effect s u (.go t) := by
  unfold State.go at action
  split at action
  case h_1 site o place =>
      cases action
      simp only [State.suspend]
      split
      · exact .none rfl rfl fun _ => rfl
      all_goals exact .none rfl rfl (setObject_key _ rfl rfl)
  case h_2 o place =>
      cases action
      simp only [State.remove]
      split <;> exact .none rfl rfl fun _ => rfl
  case h_3 o context id place => cases action; exact .none rfl rfl fun _ => rfl
  case h_4 o place => cases action; exact .none rfl rfl (setObject_key _ rfl rfl)
  case h_5 => exact code_effect action

theorem step_effect (action : s.step a = some u) : Effect s u a := by
  cases a with
  | operation t w o context socket members =>
      simp only [State.step, provided_eq_some] at action
      obtain ⟨_, rfl⟩ := action
      refine .begins t w o (.inl ⟨members, ?_⟩) rfl rfl fun o' other => ?_
      · simp [State.start, State.construct, State.key, State.goto]
      · simp [State.start, State.construct, State.key, State.goto, setObject_other _ other]
  | await t w o =>
      simp only [State.step, provided_eq_some] at action
      obtain ⟨_, rfl⟩ := action
      exact .begins t w o (.inr ⟨rfl, rfl⟩) rfl rfl fun _ _ => rfl
  | call t o argument =>
      simp only [State.step, provided_eq_some] at action
      obtain ⟨_, rfl⟩ := action
      exact .none rfl rfl (setMembers_key _ _)
  | ready t w o report =>
      simp only [State.step, provided_eq_some] at action
      obtain ⟨place, rfl⟩ := action
      simp only [State.ready]
      split
      · exact .none rfl rfl (setMembers_key _ _)
      · exact .continues t w o (.inl place) rfl rfl
          (fun o' => by rw [proceed_key, setMembers_key]) rfl
      · exact .none rfl rfl fun o' => by rw [goto_key, setMembers_key]
  | add t result =>
      simp only [State.step] at action
      split at action
      · cases result <;> simp only [State.add, provided_eq_some] at action <;>
          obtain ⟨_, rfl⟩ := action <;> exact .none rfl rfl fun _ => rfl
      · cases action
  | resume t o report =>
      simp only [State.step, provided_eq_some] at action
      obtain ⟨place, rfl⟩ := action
      simp only [State.resume]
      split <;> exact .none rfl rfl fun o' => by simp only [goto_key, setMembers_key]
  | poll | polled =>
      simp only [State.step, provided_eq_some] at action
      obtain ⟨_, rfl⟩ := action
      exact .none rfl rfl fun _ => rfl
  | deliver | dispatch =>
      simp only [State.step] at action
      split at action
      · obtain ⟨_, rfl⟩ := provided_eq_some.mp action
        exact .none rfl rfl fun _ => rfl
      · cases action
  | go t => exact go_effect action

def Unused (s : Epoll cls T W) (key : Key) : Prop := ∀ o, s.users o ≠ [] → s.key o ≠ key

def Alone (s : Epoll cls T W) : Action cls T W → Prop
  | .operation _ _ _ context socket _ => s.Unused (context, socket)
  | .await _ _ o => s.Unused (s.key o)
  | _ => True

omit [DecidableEq O] [DecidableEq T] [DecidableEq W] in
theorem Alone.exclusive (alone : s.Alone a) : s.Exclusive a := by
  cases a with
  | await t w o => exact by_contra fun used => alone o used rfl
  | _ => trivial

def Solo (s : Epoll cls T W) : Prop :=
  ∀ o o', s.users o ≠ [] → s.users o' ≠ [] → s.key o = s.key o' → o = o'

theorem Solo.step (solo : s.Solo) (alone : s.Alone a) (action : s.step a = some u) : u.Solo := by
  cases step_effect action with
  | none users continued key =>
      intro o o'
      rw [users, key, key]
      exact solo o o'
  | continues t w o _ users _ key =>
      have before : ∀ o', u.users o' ≠ [] → s.users o' ≠ [] := by
        intro o' used empty
        apply used
        by_cases same : o' = o
        · subst same
          simp [users, empty]
        · simp [users, same, empty]
      intro o' o'' used used'
      rw [key, key]
      exact solo o' o'' (before o' used) (before o'' used')
  | begins t w o begins users _ key =>
      -- The object that begins may have been constructed anew, with another key than before.
      have unused : s.Unused (u.key o) := by
        rcases begins with ⟨members, rfl⟩ | ⟨rfl, same⟩
        · exact alone
        · rw [same]
          exact alone
      have before : ∀ o', o' ≠ o → u.users o' ≠ [] → s.users o' ≠ [] ∧ u.key o' ≠ u.key o := by
        intro o' other used
        have under : s.users o' ≠ [] := by simpa [users, other] using used
        exact ⟨under, by rw [key o' other]; exact unused o' under⟩
      intro o' o'' used used' same
      by_cases one : o' = o <;> by_cases two : o'' = o
      · rw [one, two]
      · exact absurd (one ▸ same.symm) (before o'' two used').2
      · exact absurd (two ▸ same) (before o' one used).2
      · rw [key o' one, key o'' two] at same
        exact solo o' o'' (before o' one used).1 (before o'' two used').1 same

theorem reaches_alone {object : (o : O) → Object W (cls o)}
    (reached : Reaches step Alone (create object) s) : s.Inv ∧ s.Solo := by
  have exclusive : Reaches step Exclusive (create object) s :=
    reached.mono fun _ _ alone => alone.exclusive
  refine ⟨reaches_inv exclusive, ?_⟩
  have nobody : (create object : Epoll cls T W).Solo := fun o _ used => absurd rfl used
  exact reached.invariant nobody fun _ _ _ solo alone action => solo.step alone action

omit [DecidableEq W] in
theorem Inv.unregistered (inv : s.Inv) (solo : s.Solo) (used : s.users o ≠ [])
    (unregistered : s.Unregistered o) : s.kernel (s.key o) = none := by
  cases found : s.kernel (s.key o) with
  | none => rfl
  | some r =>
      have other := inv.keys (s.key o) r found
      have under : s.users r.target ≠ [] := by
        rcases inv.settled r.target with ⟨_, idle⟩ | ⟨w, _, users, _⟩
        · exact absurd found (idle.unregistered _ r.armed)
        · simp [users]
      have same := solo o r.target used under other
      rw [same] at unregistered
      exact absurd found (unregistered _ r.armed)

omit [DecidableEq W] in
theorem Inv.continues (inv : s.Inv) (continues : s.Continues t w o) :
    s.users o = [w] ∧ s.Unregistered o := by
  rcases continues with place | place | ⟨place, awaiter⟩
  · obtain ⟨w', users, _, rfl, unregistered⟩ := inv.holder place rfl
    exact ⟨users, unregistered⟩
  · obtain ⟨w', users, _, same, _, unregistered⟩ := inv.holder place rfl
    obtain rfl := same w rfl
    exact ⟨users, unregistered⟩
  · obtain ⟨w', users, _, awaits, unregistered⟩ := inv.holder place rfl
    obtain rfl : w = w' := Option.some.inj (awaiter.symm.trans awaits)
    exact ⟨users, unregistered⟩

theorem step_stuck (place : s.pc a.thread = .added) (other : a ≠ .go a.thread) :
    s.step a = none := by
  cases a with
  | go t => exact absurd rfl other
  | deliver t key =>
      change s.pc t = .added at place
      simp only [State.step]
      split <;> simp [place]
  | dispatch t =>
      change s.pc t = .added at place
      simp only [State.step]
      split <;> simp [place]
  | add t result =>
      change s.pc t = .added at place
      simp [State.step, place]
  | operation t | await t | call t | ready t | resume t | poll t | polled t =>
      change s.pc t = .added at place
      simp [State.step, place]

theorem go_added (place : s.pc t = .added) : s.go t = some (s.goto t .free) := by
  have same : s.go t = s.code t := by
    unfold State.go
    split <;> simp_all
  rw [same]
  unfold State.code
  split <;> simp_all

theorem step_added (place : s.pc a.thread = .added) :
    s.step a = none ∨ s.step a = some (s.goto a.thread .free) := by
  by_cases returns : a = .go a.thread
  · right
    generalize a.thread = t at *
    subst returns
    exact go_added place
  · exact .inl (step_stuck place returns)

theorem step_added_frame (place : s.pc a.thread = .added) (object : Object W (cls o)) :
    (s.setObject o object).step a = (s.step a).map (·.setObject o object) := by
  by_cases returns : a = .go a.thread
  · generalize a.thread = t at *
    subst returns
    simp only [State.step, go_added place, go_added (s := s.setObject o object) place]
    rfl
  · rw [step_stuck place returns, step_stuck (s := s.setObject o object) place returns]
    rfl

def Holds (s : Epoll cls T W) (t : T) (o : O) : Prop := o ∈ s.batch t ∨ (s.pc t).object = some o

omit [DecidableEq W] in
theorem Waiting.holds_iff {spot : Spot T} (waiting : s.Waiting o w spot) :
    s.Holds t o ↔ spot = .batch t ∨ spot = .thread t := by
  have batch : o ∈ s.batch t ↔ spot = .batch t := by
    rw [← List.count_pos_iff, waiting.batch]
    split <;> simp_all
  rw [Holds, batch, waiting.thread]

omit [DecidableEq W] in
theorem Inv.place (inv : s.Inv) (under : w ∈ s.users o) :
    (s.Registered o true ∧ ∀ t, ¬ s.Holds t o) ∨
      (¬ s.Registered o true ∧ ∃! t, s.Holds t o) := by
  rcases inv.settled o with ⟨users, _⟩ | ⟨w', spot, users, waiting⟩
  · simp [users] at under
  · simp only [waiting.slot, waiting.holds_iff]
    cases spot with
    | slot => exact .inl ⟨rfl, by simp⟩
    | batch t => exact .inr ⟨nofun, t, by simp, fun t' same => by simpa [eq_comm] using same⟩
    | thread t => exact .inr ⟨nofun, t, by simp, fun t' same => by simpa [eq_comm] using same⟩

end State

/-- On Linux, for operations that have their descriptor to themselves: a wait continues at most once
and only when the descriptor is not registered; `EPOLL_CTL_ADD` finds the descriptor free; the
thread that has issued it goes its way in the same manner whatever the events contain; and a wait
under way is registered and armed, or held by exactly one thread. -/
theorem wait_continues_once [DecidableEq O] [DecidableEq T] [DecidableEq W]
    (operation : O → Operation) (object : (o : O) → Object W (operation o).eventClass)
    (s : Epoll (fun o => (operation o).eventClass) T W)
    (reached : Reaches State.step State.Alone (State.create object) s) :
    ((∀ w, s.continued w ≤ 1) ∧
      ∀ a u w, s.step a = some u → u.continued w ≠ s.continued w →
        ∃ o, w ∈ s.users o ∧ s.kernel (s.key o) = none ∧ u.kernel (u.key o) = none) ∧
    (∀ t site o filter, s.pc t = .add site o filter → s.kernel (s.key o) = none) ∧
    (∀ t u, s.step (.add t (.ok ())) = some u → u.pc t = .added) ∧
    (∀ a, s.pc a.thread = .added →
      (∀ o object, (s.setObject o object).step a = (s.step a).map (·.setObject o object)) ∧
        ∀ u, s.step a = some u → u.pc a.thread = .free ∧ u.object = s.object) ∧
    (∀ o w, w ∈ s.users o →
      (s.Registered o true ∧ ∀ t, ¬ s.Holds t o) ∨
        (¬ s.Registered o true ∧ ∃! t, s.Holds t o)) := by
  obtain ⟨inv, solo⟩ := State.reaches_alone reached
  refine ⟨⟨inv.tally.most, fun a u w action changed => ?_⟩, fun t site o filter place => ?_,
    fun t u action => ?_, fun a place => ?_, fun o w under => inv.place under⟩
  · cases State.step_effect action with
    | none _ continued | begins _ _ _ _ _ continued => exact absurd (congrFun continued w) changed
    | continues t w' o continues _ continued key epoll =>
        obtain ⟨users, unregistered⟩ := inv.continues continues
        have same : w = w' := by
          by_contra other
          simp [continued, other] at changed
        have free := inv.unregistered solo (by simp [users]) unregistered
        exact ⟨o, by simp [users, same], free, by rw [key, epoll, free]⟩
  · obtain ⟨w, users, _, _, _, unregistered, _⟩ := inv.holder place rfl
    exact inv.unregistered solo (by simp [users]) unregistered
  · simp only [State.step] at action
    split at action
    · obtain ⟨_, rfl⟩ := provided_eq_some.mp action
      simp
    · cases action
  · refine ⟨fun o object => State.step_added_frame place object, fun u returned => ?_⟩
    rcases State.step_added place with stuck | returns
    · simp [stuck] at returned
    · rw [returns] at returned
      cases returned
      exact ⟨by simp, rfl⟩

def storage (_ : Unit) : Object Unit Operation.tcpRecv.eventClass :=
  { context := 3, socket := 5, members := Tcp.Recv.make .linux 1024 }

def blockedRecv : List (Action (fun _ : Unit => Operation.tcpRecv.eventClass) Unit Unit) :=
  [.ready () () () (.error 11 : Except Errno Nat), .go (), .go (), .add () (.ok ()), .go (),
    .poll () 1, .deliver () (3, 5), .polled (), .dispatch (), .go (), .go (), .go (),
    .resume () () (.ok 7 : Except Errno Nat)]

theorem wait_continues_once_blocked_recv :
    ∃ s u, s.step (.go ()) = some u ∧ s.continued () = 0 ∧ u.continued () = 1 ∧
      Reaches State.step State.Alone (State.create storage) s ∧
      ∃ o, () ∈ s.users o ∧ s.kernel (s.key o) = none ∧ u.kernel (u.key o) = none := by
  let first : Action (fun _ : Unit => Operation.tcpRecv.eventClass) Unit Unit :=
    .operation () () () 3 5 (Tcp.Recv.make .linux 1024)
  obtain ⟨r, begins, s, run, u, action, before, after⟩ : ∃ r,
      (State.create storage).step first = some r ∧ ∃ s, exec State.step r blockedRecv = some s ∧
        ∃ u, s.step (.go ()) = some u ∧ s.continued () = 0 ∧ u.continued () = 1 :=
    ⟨_, rfl, _, rfl, _, rfl, rfl, rfl⟩
  have alone : (State.create storage : Epoll _ Unit Unit).Alone first := fun _ used => absurd rfl used
  have reached := (Reaches.single alone begins).trans
    (exec_reaches run (by simp [blockedRecv, State.Alone]))
  refine ⟨s, u, action, before, after, reached, ?_⟩
  exact (wait_continues_once (fun _ => .tcpRecv) storage s reached).1.2 _ u () action
    (by simp [before, after])

end Ice.Event
