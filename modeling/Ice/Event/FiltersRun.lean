import Ice.Event.FiltersPlaces

namespace Ice.Event.Filters
open Transition Net

variable {O T W : Type} {cls : O → EventClass}

section Runs
variable {s u : Kqueue cls T W} {place : O → Option (Place T)} {object : (o : O) → Object W (cls o)}
  {o : O} {w : W}

def Found (s : Kqueue cls T W) (o : O) : Prop := ∃ p, At s o p

def NoneLost (s : Kqueue cls T W) : Prop := ∀ o, s.users o ≠ [] → Found s o

theorem create_kept (object : (o : O) → Object W (cls o)) :
    Kept (Kqueue.create object : Kqueue cls T W) fun _ => none := by
  refine ⟨fun o => .nowhere fun p here => ?_, fun _ => List.nodup_nil, ⟨?_, ?_, ?_, ?_⟩, ?_⟩
  · cases p with
    | slot | thread => cases here
    | batch t => exact absurd here List.not_mem_nil
  · exact fun _ _ => ⟨rfl, fun _ => List.not_mem_nil⟩
  · exact fun _ _ _ => rfl
  · exact fun _ => Nat.zero_le 1
  · exact fun _ _ _ member => absurd member List.not_mem_nil
  · exact fun _ begun => (by cases begun)

theorem Kept.found_iff (kept : Kept s place) : Found s o ↔ place o ≠ none := by
  simp only [Found, (kept.placed o).places, ← Option.ne_none_iff_exists']

variable [DecidableEq O] [DecidableEq T] [DecidableEq W]

theorem reachable_kept (reached : Reachable Kqueue.step (Kqueue.create object) s) :
    ∃ place, Kept s place := by
  induction reached with
  | refl => exact ⟨_, create_kept object⟩
  | tail _ _ action ih =>
      obtain ⟨_, kept⟩ := ih
      obtain ⟨after, moves⟩ := kept.step action
      exact ⟨after, moves.kept⟩

theorem none_lost_step {a : Action cls T W} (kept : ∃ place, Kept s place) (found : NoneLost s)
    (action : s.step a = some u) : NoneLost u ↔ Apart s a := by
  obtain ⟨place, kept⟩ := kept
  obtain ⟨after, moves⟩ := kept.step action
  constructor
  · intro all
    by_contra taken
    obtain ⟨o, used, nowhere⟩ := moves.takes taken
    exact moves.kept.found_iff.mp (all o used) nowhere
  · intro apart o used
    refine moves.kept.found_iff.mpr fun nowhere => ?_
    obtain ⟨waits, lost⟩ := moves.finds apart o used nowhere
    exact kept.found_iff.mp (found o waits) lost

/-- A run keeps each wait within reach exactly when each successful `EV_ADD` finds that no other
object has been registered for this direction of the descriptor, and each close of a descriptor that
none is registered for it. -/
theorem none_lost_iff {actions : List (Action cls T W)}
    (run : exec Kqueue.step (Kqueue.create object) actions = some s) :
    Always Kqueue.step NoneLost (Kqueue.create object) actions ↔
      AlwaysMeets Kqueue.step Apart (Kqueue.create object) actions := by
  refine always_iff_alwaysMeets (fun s => ∃ place, Kept s place) run ⟨_, create_kept object⟩
    ?_ ?_ ?_
  · exact fun o used => absurd rfl used
  · intro s a u ⟨_, kept⟩ action
    obtain ⟨after, moves⟩ := kept.step action
    exact ⟨after, moves.kept⟩
  · exact fun s a u kept found action => none_lost_step kept found action

end Runs

def socketObject {W : Type} : (filter : Filter) → Object W (eventClass filter)
  | .read => { context := 3, socket := 5, members := Tcp.Recv.make .freebsd 1024 }
  | .write => { context := 3, socket := 5, members := Sending.make .freebsd 158 }

def upToAdd {O : Type} (side : O → Filter) (o : O) (blocked : (eventClass (side o)).Ready) :
    List (Action (fun o => eventClass (side o)) Unit O) :=
  [.await () o o (socketObject (side o)), .ready () o o blocked, .go (), .go ()]

def registered {O : Type} (side : O → Filter) (o : O) (blocked : (eventClass (side o)).Ready) :
    List (Action (fun o => eventClass (side o)) Unit O) :=
  upToAdd side o blocked ++ [.add () (.ok ()), .go ()]

def reading : Kqueue (fun _ : Bool => eventClass .read) Unit Bool :=
  .create fun _ => socketObject .read

def readFirst : List (Action (fun _ : Bool => eventClass .read) Unit Bool) :=
  registered (fun _ => .read) false (.error 35 : Except Errno Nat) ++
    upToAdd (fun _ => .read) true (.error 35 : Except Errno Nat)

def readTwice : List (Action (fun _ : Bool => eventClass .read) Unit Bool) :=
  readFirst ++ [.add () (.ok ()), .go ()]

theorem none_lost_read_twice : ¬ Always Kqueue.step NoneLost reading readTwice := by
  obtain ⟨s, run⟩ : ∃ s, exec Kqueue.step reading readTwice = some s := ⟨_, rfl⟩
  obtain ⟨u, first, adding, taken⟩ : ∃ u, exec Kqueue.step reading readFirst = some u ∧
      u.pc () = .add (some true) true .read ∧ u.kernel (u.key true .read) = some false :=
    ⟨_, rfl, rfl, rfl⟩
  refine mt (none_lost_iff run).mp fun meets => ?_
  have apart : Apart u (.add () (.ok ())) := meets.at first
  have free := apart (true, .read) (by rw [adding]; rfl)
  rw [taken] at free
  cases free

theorem lost_never_continues [DecidableEq O] [DecidableEq T] [DecidableEq W] {s u : Kqueue cls T W}
    {object : (o : O) → Object W (cls o)} {o : O} {w : W}
    (reached : Reachable Kqueue.step (Kqueue.create object) s) (waiting : w ∈ s.users o)
    (lost : ¬ Found s o) (later : Reachable Kqueue.step s u) :
    w ∈ u.users o ∧ ¬ Found u o ∧ u.continued w = 0 := by
  obtain ⟨place, kept⟩ := reachable_kept reached
  obtain ⟨after, kept, waits, nowhere⟩ :
      ∃ after, Kept u after ∧ w ∈ u.users o ∧ after o = none := by
    induction later with
    | refl => exact ⟨place, kept, waiting, not_not.mp (mt kept.found_iff.mpr lost)⟩
    | tail _ _ action ih =>
        obtain ⟨_, kept, waiting, nowhere⟩ := ih
        obtain ⟨after, moves⟩ := kept.step action
        exact ⟨after, moves.kept, moves.stays o w waiting nowhere⟩
  exact ⟨waits, fun found => kept.found_iff.mp found nowhere, kept.underway.once o w waits⟩

theorem lost_never_continues_read_twice : ∃ s, exec Kqueue.step reading readTwice = some s ∧
    false ∈ s.users false ∧ ¬ Found s false ∧ s.continued false = 0 := by
  obtain ⟨s, run, waiting, kernel, batch, pc⟩ :
      ∃ s, exec Kqueue.step reading readTwice = some s ∧ false ∈ s.users false ∧
        s.kernel = Function.update (Function.update (fun _ => none) ⟨3, 5, .read⟩ (some false))
          ⟨3, 5, .read⟩ (some true) ∧ s.batch () = [] ∧ s.pc () = .free :=
    ⟨_, rfl, List.mem_singleton_self false, rfl, rfl, rfl⟩
  have lost : ¬ Found s false := by
    rintro ⟨place, found⟩
    cases place with
    | slot key =>
        rw [At, kernel, Function.update_idem, Function.update_apply] at found
        split at found <;> cases found
    | batch t =>
        rw [At, batch] at found
        cases found
    | thread t =>
        rw [At, pc] at found
        cases found
  exact ⟨s, run, lost_never_continues (exec_reachable run) waiting lost .refl⟩

def Careful (fd : O → Fd) (s : Kqueue cls T W) : Action cls T W → Prop
  | .await _ _ o object => object.socket = fd o
  | .close closed => ∀ key, key.id = closed → s.kernel key = none
  | _ => True

structure Own (fd : O → Fd) (direction : O → Filter) (s : Kqueue cls T W) : Prop where
  socket : ∀ o, s.users o ≠ [] → (s.object o).socket = fd o
  filter : ∀ t o filter, (s.pc t).registers = some (o, filter) → filter = direction o
  slots : ∀ key o, s.kernel key = some o → key.id = fd o ∧ key.filter = direction o

section Directions
variable {s u : Kqueue cls T W} {place : O → Option (Place T)} {object : (o : O) → Object W (cls o)}
  {t : T} {o : O} {w : W} {fd : O → Fd} {direction : O → Filter} {a : Action cls T W}

theorem Own.of_same (own : Own fd direction s) (kernel : u.kernel = s.kernel)
    (users : ∀ o, u.users o ≠ [] → s.users o ≠ [])
    (socket : ∀ o, (u.object o).socket = (s.object o).socket)
    (pc : ∀ t, (u.pc t).registers = none ∨ u.pc t = s.pc t) : Own fd direction u := by
  refine ⟨fun o used => ?_, fun t o filter adding => ?_, ?_⟩
  · rw [socket]
    exact own.socket o (users o used)
  · rcases pc t with none | same
    · rw [none] at adding
      cases adding
    · exact own.filter t o filter (same ▸ adding)
  · rw [kernel]
    exact own.slots

theorem Own.setMembers [DecidableEq O] (own : Own fd direction s)
    (members dictated : (cls o).Members) : Own fd direction (s.setMembers o members dictated) := by
  refine own.of_same rfl (fun _ => id) (fun p => ?_) fun _ => .inr rfl
  by_cases same : p = o
  · subst same
    simp [State.setMembers, State.setObject]
  · simp [State.setMembers, State.setObject, same]

variable [DecidableEq T]

theorem update_registers (pcs : T → Pc O W) (pc : Pc O W) (plain : pc.registers = none) (t' : T) :
    (Function.update pcs t pc t').registers = none ∨ Function.update pcs t pc t' = pcs t' := by
  by_cases mine : t' = t
  · subst mine
    exact .inl (by rwa [Function.update_self])
  · exact .inr (Function.update_of_ne mine ..)

theorem Own.goto (own : Own fd direction s) {pc : Pc O W} (plain : pc.registers = none) :
    Own fd direction (s.goto t pc) :=
  own.of_same rfl (fun _ => id) (fun _ => rfl) (update_registers s.pc _ plain)

theorem Own.register (own : Own fd direction s) (site : Option W) :
    Own fd direction (s.goto t (.add site o (direction o))) := by
  refine ⟨own.socket, fun t' p filter adding => ?_, own.slots⟩
  by_cases mine : t' = t
  · subst mine
    simp only [State.goto, Function.update_self, Pc.registers, Option.some.injEq,
      Prod.mk.injEq] at adding
    obtain ⟨rfl, rfl⟩ := adding
    rfl
  · simp only [State.goto, Function.update_of_ne mine] at adding
    exact own.filter t' p filter adding

theorem Own.suspend (own : Own fd direction s) {site : Option W}
    (suspending : ∀ o members, (cls o).suspend members = suspends (direction o)) :
    Own fd direction (s.suspend t site o) := by
  simp only [Kqueue.suspend, suspending]
  have registers := own.register (t := t) (o := o) site
  cases way : direction o with
  | read => simpa [suspends, way] using registers
  | write => simpa [suspends, way] using registers

variable [DecidableEq W]

theorem Own.proceed [DecidableEq O] (own : Own fd direction s) :
    Own fd direction (s.proceed t w o) := by
  refine own.of_same rfl (fun p used => ?_) (fun _ => rfl) (update_registers s.pc _ rfl)
  by_cases same : p = o
  · subst same
    rintro empty
    simp [State.proceed, State.goto, empty] at used
  · simpa [State.proceed, State.goto, same] using used

variable [DecidableEq O]

theorem Own.code (own : Own fd direction s) (action : s.code t = some u) :
    Own fd direction u := by
  unfold State.code at action
  split at action
  case h_1 w o here =>
      cases action
      refine own.of_same rfl (fun _ => id) (fun p => ?_) (update_registers s.pc _ rfl)
      by_cases same : p = o
      · subst same
        simp [State.goto, State.setObject]
      · simp [State.goto, State.setObject, same]
  case h_2 => cases action; exact (own.setMembers _ _).goto rfl
  case h_3 => cases action; exact own.proceed
  case h_4 => cases action; exact own.goto rfl
  case h_5 => cases action; exact own.goto rfl
  case h_6 =>
      obtain ⟨w, _, rfl⟩ := Option.map_eq_some_iff.mp action
      exact own.proceed
  case h_7 => cases action

theorem Own.await (own : Own fd direction s) {made : Object W (cls o)}
    (socket : made.socket = fd o) : Own fd direction ((s.construct o made).start t w o) := by
  refine ⟨fun p used => ?_, fun t' p filter adding => ?_, own.slots⟩
  · by_cases same : p = o
    · subst same
      simpa [State.start, State.goto, State.construct, State.setObject] using socket
    · simp only [State.start, State.goto, State.construct, State.setObject,
        Function.update_of_ne same] at used ⊢
      exact own.socket p used
  · rcases update_registers s.pc (.awaitReady w o) rfl t' with none | same
    · cases none.symm.trans adding
    · exact own.filter t' p filter (same ▸ adding)

omit [DecidableEq O] [DecidableEq W] in
theorem Own.add (own : Own fd direction s) (kept : Kept s place) {site : Option W} {filter : Filter}
    (here : s.pc t = .add site o filter) : Own fd direction (s.add t site o filter (.ok ())) := by
  have lies := kept.lies (o := o) (by rw [here]; rfl)
  have used := (kept.placed o).used (by simp [lies])
  refine ⟨own.socket, fun t' p filter adding => ?_, fun key p found => ?_⟩
  · rcases update_registers s.pc .added rfl t' with none | same
    · cases none.symm.trans adding
    · exact own.filter t' p filter (same ▸ adding)
  · by_cases same : key = s.key o filter
    · subst same
      simp only [Kqueue.add, State.goto, Function.update_self, Option.some.injEq] at found
      subst found
      exact ⟨own.socket o used, own.filter t o filter (by rw [here]; rfl)⟩
    · simp only [Kqueue.add, State.goto, Function.update_of_ne same] at found
      exact own.slots key p found

theorem Own.step (own : Own fd direction s) (kept : Kept s place)
    (suspending : ∀ o members, (cls o).suspend members = suspends (direction o))
    (careful : Careful fd s a) (action : s.step a = some u) : Own fd direction u := by
  cases a with
  | await t w o made =>
      simp only [Kqueue.step, provided_eq_some] at action
      obtain ⟨_, rfl⟩ := action
      exact own.await careful
  | ready t w o report =>
      simp only [Kqueue.step, provided_eq_some] at action
      obtain ⟨_, rfl⟩ := action
      simp only [State.ready]
      split
      · exact own.setMembers _ _
      · exact (own.setMembers _ _).proceed
      · exact (own.setMembers _ _).goto rfl
  | add t result =>
      simp only [Kqueue.step] at action
      split at action
      · next site o filter here =>
          cases action
          cases result with
          | ok _ => exact own.add kept here
          | error errno => exact own.goto rfl
      · cases action
  | resume t o report =>
      simp only [Kqueue.step, provided_eq_some] at action
      obtain ⟨_, rfl⟩ := action
      simp only [State.resume]
      split
      · exact own.setMembers _ _
      · exact (own.setMembers _ _).goto rfl
      · exact (own.setMembers _ _).goto rfl
  | poll t bufferSize =>
      simp only [Kqueue.step, provided_eq_some] at action
      obtain ⟨_, rfl⟩ := action
      exact own.of_same rfl (fun _ => id) (fun _ => rfl) (update_registers s.pc _ rfl)
  | deliver t key =>
      simp only [Kqueue.step] at action
      split at action
      · obtain ⟨_, rfl⟩ := provided_eq_some.mp action
        refine ⟨own.socket, own.filter, fun key' p found => ?_⟩
        by_cases same : key' = key
        · simp [Kqueue.deliver, same] at found
        · simp only [Kqueue.deliver, Function.update_of_ne same] at found
          exact own.slots key' p found
      · cases action
  | polled t =>
      simp only [Kqueue.step, provided_eq_some] at action
      obtain ⟨_, rfl⟩ := action
      exact own.goto rfl
  | dispatch t =>
      simp only [Kqueue.step] at action
      split at action
      · obtain ⟨_, rfl⟩ := provided_eq_some.mp action
        exact own.of_same rfl (fun _ => id) (fun _ => rfl) (update_registers s.pc _ rfl)
      · cases action
  | close closed =>
      cases action
      refine ⟨own.socket, own.filter, fun key p found => ?_⟩
      simp only [Kqueue.drop] at found
      split at found
      · cases found
      · exact own.slots key p found
  | go t =>
      simp only [Kqueue.step] at action
      unfold Kqueue.go at action
      split at action
      · cases action
        exact own.suspend suspending
      · exact own.code action

omit [DecidableEq O] [DecidableEq T] [DecidableEq W] in
theorem Own.apart (own : Own fd direction s) (kept : Kept s place)
    (distinct : Function.Injective fun o => (fd o, direction o)) (careful : Careful fd s a) :
    Apart s a := by
  cases a with
  | add t result =>
      cases result with
      | error => trivial
      | ok _ =>
          rintro ⟨o, filter⟩ adding
          have lies := kept.lies (Pc.registers_object adding)
          have used := (kept.placed o).used (by simp [lies])
          by_contra taken
          obtain ⟨p, found⟩ := Option.ne_none_iff_exists'.mp taken
          have same : p = o := by
            have sameFd : fd p = fd o := (own.slots _ p found).1.symm.trans (own.socket o used)
            have sameDirection : direction p = direction o :=
              (own.slots _ p found).2.symm.trans (own.filter t o filter adding)
            exact distinct (Prod.ext sameFd sameDirection)
          have there := ((kept.placed p).places (.slot _)).mp found
          rw [same, lies] at there
          cases there
  | close => exact careful
  | await | ready | resume | poll | deliver | polled | dispatch | go => trivial

theorem directions_never_lost (distinct : Function.Injective fun o => (fd o, direction o))
    (suspending : ∀ o members, (cls o).suspend members = suspends (direction o))
    (reached : Reaches Kqueue.step (Careful fd) (Kqueue.create object) s)
    (begun : s.begun w = true) :
    (s.continued w = 1 ∧ ∀ o, w ∉ s.users o) ∨
      s.continued w = 0 ∧ ∃ o, w ∈ s.users o ∧ Found s o := by
  obtain ⟨place, kept, own, found⟩ :
      ∃ place, Kept s place ∧ Own fd direction s ∧ NoneLost s := by
    clear begun
    induction reached with
    | refl =>
        refine ⟨_, create_kept object, ⟨fun o used => absurd rfl used, fun t o filter adding => ?_,
          fun key o found => ?_⟩, fun o used => absurd rfl used⟩
        · cases adding
        · cases found
    | tail _ careful action ih =>
        obtain ⟨place, kept, own, found⟩ := ih
        obtain ⟨after, moves⟩ := kept.step action
        exact ⟨after, moves.kept, own.step kept suspending careful action,
          (none_lost_step ⟨place, kept⟩ found action).mpr (own.apart kept distinct careful)⟩
  by_cases ended : s.continued w = 0
  · obtain ⟨o, member⟩ := kept.left w begun ended
    exact .inr ⟨ended, o, member, found o (List.ne_nil_of_mem member)⟩
  · have most := kept.underway.most w
    exact .inl ⟨by omega, fun o member => ended (kept.underway.once o w member)⟩

def duplex : List (Action eventClass Unit Filter) :=
  registered id .read (.error 35 : Except Errno Nat) ++
    registered id .write (.error 35 : Except Errno Nat) ++
    [.poll () 1, .deliver () ⟨3, 5, .write⟩, .polled (), .dispatch (),
     .resume () .write (.ok 158 : Except Errno Nat), .go ()]

theorem directions_never_lost_duplex : ∃ s, exec Kqueue.step
    (Kqueue.create socketObject : Kqueue eventClass Unit Filter) duplex = some s ∧
    s.continued .write = 1 ∧ s.continued .read = 0 ∧ ∃ o, .read ∈ s.users o ∧ Found s o := by
  obtain ⟨s, run, begun, sent, waits⟩ : ∃ s, exec Kqueue.step
      (Kqueue.create socketObject : Kqueue eventClass Unit Filter) duplex = some s ∧
      s.begun .read = true ∧ s.continued .write = 1 ∧ s.continued .read = 0 :=
    ⟨_, rfl, rfl, rfl, rfl⟩
  have reached : Reaches Kqueue.step (Careful fun _ => 5)
      (Kqueue.create socketObject : Kqueue eventClass Unit Filter) s :=
    exec_reaches run (by simp [duplex, registered, upToAdd, Careful, socketObject])
  have distinct : Function.Injective fun filter : Filter => ((5 : Fd), filter) :=
    fun _ _ same => congrArg Prod.snd same
  have none := directions_never_lost distinct eventClass_suspend reached begun
  rcases none with ⟨ended, _⟩ | found
  · rw [waits] at ended
    cases ended
  · exact ⟨s, run, sent, found⟩

end Directions

end Ice.Event.Filters
