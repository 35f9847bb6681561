import Ice.Lib.Underway
import Ice.Event.Filters

namespace Ice.Event
open Net

variable {O T W : Type} {cls : O → EventClass}

namespace Pc

def wait : Pc O W → Option W
  | awaitReady w _ | awaitSuspend w _ => some w
  | suspend site _ | add site _ _ | refuse site _ _ | refused site _ => site
  | free | polling | added | remove _ | del _ _ _ | clear _ | resume _ | wake _ => none

def fresh : Pc O W → Bool
  | awaitReady _ _ | awaitSuspend _ _ => true
  | _ => false

def registers : Pc O W → Option (O × Filter)
  | add _ o filter => some (o, filter)
  | _ => none

theorem registers_object {pc : Pc O W} {o : O} {filter : Filter}
    (registers : pc.registers = some (o, filter)) : pc.object = some o := by
  cases pc <;> simp_all [Pc.registers, object]

structure Alike (before after : Pc O W) : Prop where
  object : after.object = before.object
  wait : after.wait = before.wait
  fresh : after.fresh = before.fresh

end Pc

namespace Filters
open Transition

inductive Place (T : Type) where
  | slot (key : Key)
  | batch (t : T)
  | thread (t : T)

def At (s : Kqueue cls T W) (o : O) : Place T → Prop
  | .slot key => s.kernel key = some o
  | .batch t => o ∈ s.batch t
  | .thread t => (s.pc t).object = some o

/-- What is known of an object at a place, or at none when nothing waits on it or its event is
gone. -/
structure Placed (s : Kqueue cls T W) (o : O) (place : Option (Place T)) : Prop where
  places : ∀ p, At s o p ↔ place = some p
  keys : ∀ key, place = some (.slot key) →
    key.context = (s.object o).context ∧ key.id = (s.object o).socket
  used : place ≠ none → s.users o ≠ []
  waits : ∀ t w, place = some (.thread t) → (s.pc t).wait = some w → s.users o = [w]
  awaiter : place ≠ none → (∀ t, place = some (.thread t) → (s.pc t).fresh = false) →
    (s.object o).awaiter.toList = s.users o

structure Kept (s : Kqueue cls T W) (place : O → Option (Place T)) : Prop where
  placed : ∀ o, Placed s o (place o)
  nodup : ∀ t, (s.batch t).Nodup
  underway : Underway (fun o w => w ∈ s.users o) s.begun s.continued
  left : Accounted (fun o w => w ∈ s.users o) s.begun s.continued

structure Elsewhere (s u : Kqueue cls T W) (t : T) (o : O) : Prop where
  kernel : ∀ key p, p ≠ o → (u.kernel key = some p ↔ s.kernel key = some p)
  batch : ∀ t' p, p ≠ o → (p ∈ u.batch t' ↔ p ∈ s.batch t')
  pc : ∀ t', t' ≠ t → u.pc t' = s.pc t'
  before : ∀ p, (s.pc t).object = some p → p = o
  after : ∀ p, (u.pc t).object = some p → p = o
  object : ∀ p, p ≠ o → (u.object p).toBase = (s.object p).toBase
  users : ∀ p, p ≠ o → u.users p = s.users p

section Steps
variable {s u : Kqueue cls T W} {place after : O → Option (Place T)} {spot : Option (Place T)}
  {t : T} {o p : O} {w : W}

theorem Kept.lies (kept : Kept s place) (here : (s.pc t).object = some o) :
    place o = some (.thread t) := ((kept.placed o).places (.thread t)).mp here

theorem Kept.unused (kept : Kept s place) (none : s.users o = []) : place o = .none :=
  not_not.mp (mt (kept.placed o).used (not_not.mpr none))

theorem Kept.waiting (kept : Kept s place) (here : (s.pc t).object = some o)
    (wait : (s.pc t).wait = some w) : s.users o = [w] :=
  (kept.placed o).waits t w (kept.lies here) wait

theorem Placed.elsewhere (placed : Placed s p spot) (other : p ≠ o) (beside : Elsewhere s u t o) :
    Placed u p spot := by
  have pc : ∀ t', spot = some (.thread t') → u.pc t' = s.pc t' := fun t' lies => by
    refine beside.pc t' ?_
    rintro rfl
    exact other (beside.before p ((placed.places _).mpr lies))
  refine ⟨fun q => ?_, fun key lies => ?_, fun lies => ?_, fun t' v lies wait => ?_,
    fun lies met => ?_⟩
  · rw [← placed.places q]
    cases q with
    | slot key => exact beside.kernel key p other
    | batch t' => exact beside.batch t' p other
    | thread t' =>
        by_cases mine : t' = t
        · subst mine
          exact iff_of_false (fun here => other (beside.after p here))
            fun here => other (beside.before p here)
        · simp only [At, beside.pc t' mine]
  · rw [beside.object p other]
    exact placed.keys key lies
  · rw [beside.users p other]
    exact placed.used lies
  · rw [beside.users p other]
    exact placed.waits t' v lies (pc t' lies ▸ wait)
  · rw [beside.object p other, beside.users p other]
    exact placed.awaiter lies fun t' there => pc t' there ▸ met t' there

theorem Kept.step_of (kept : Kept s place) (beside : Elsewhere s u t o)
    (others : ∀ p, p ≠ o → after p = place p) (here : Placed u o (after o))
    (nodup : ∀ t, (u.batch t).Nodup)
    (underway : Underway (fun o w => w ∈ u.users o) u.begun u.continued)
    (left : Accounted (fun o w => w ∈ u.users o) u.begun u.continued) : Kept u after := by
  refine ⟨fun p => ?_, nodup, underway, left⟩
  by_cases same : p = o
  · rwa [same]
  · rw [others p same]
    exact (kept.placed p).elsewhere same beside

theorem Kept.of_same (kept : Kept s place) (kernel : u.kernel = s.kernel)
    (batch : u.batch = s.batch) (object : ∀ o, (u.object o).toBase = (s.object o).toBase)
    (users : u.users = s.users) (begun : u.begun = s.begun) (continued : u.continued = s.continued)
    (pc : ∀ t, (s.pc t).Alike (u.pc t)) : Kept u place := by
  refine ⟨fun o => ?_, ?_, ?_, ?_⟩
  · obtain ⟨places, keys, used, waits, awaiter⟩ := kept.placed o
    refine ⟨fun p => ?_, ?_, ?_, fun t w lies wait => ?_, fun lies met => ?_⟩
    · rw [← places p]
      cases p with
      | slot key => simp only [At, kernel]
      | batch t => simp only [At, batch]
      | thread t => simp only [At, (pc t).object]
    · rwa [object]
    · rwa [users]
    · rw [users]
      exact waits t w lies ((pc t).wait ▸ wait)
    · rw [object, users]
      exact awaiter lies fun t there => (pc t).fresh ▸ met t there
  · rw [batch]
    exact kept.nodup
  · rw [users, begun, continued]
    exact kept.underway
  · rw [users, begun, continued]
    exact kept.left

theorem Kept.setMembers [DecidableEq O] (kept : Kept s place) (members dictated : (cls o).Members) :
    Kept (s.setMembers o members dictated) place := by
  refine kept.of_same rfl rfl (fun p => ?_) rfl rfl rfl fun _ => ⟨rfl, rfl, rfl⟩
  by_cases same : p = o
  · subst same
    simp [State.setMembers, State.setObject]
  · simp [State.setMembers, State.setObject, same]

variable [DecidableEq T]

theorem alike_update {pcs : T → Pc O W} {before pc : Pc O W} (here : pcs t = before)
    (alike : before.Alike pc) (t' : T) : (pcs t').Alike (Function.update pcs t pc t') := by
  by_cases mine : t' = t
  · subst mine here
    rwa [Function.update_self]
  · rw [Function.update_of_ne mine]
    exact ⟨rfl, rfl, rfl⟩

theorem Kept.goto (kept : Kept s place) {before pc : Pc O W} (here : s.pc t = before)
    (alike : before.Alike pc) : Kept (s.goto t pc) place :=
  kept.of_same rfl rfl (fun _ => rfl) rfl rfl rfl (alike_update here alike)

theorem Kept.poll (kept : Kept s place) (idle : s.pc t = .free) (bufferSize : Nat) :
    Kept ({ s with bufferSize := Function.update s.bufferSize t bufferSize }.goto t .polling)
      place :=
  kept.of_same rfl rfl (fun _ => rfl) rfl rfl rfl (alike_update idle ⟨rfl, rfl, rfl⟩)

omit [DecidableEq T] in
theorem Placed.thread (places : ∀ p, At u o p ↔ p = .thread t) (users : u.users o = [w])
    (wait : ∀ v, (u.pc t).wait = some v → v = w)
    (awaiter : (u.pc t).fresh = false → (u.object o).awaiter = some w) :
    Placed u o (some (.thread t)) := by
  refine ⟨fun p => ?_, fun _ lies => (by cases lies), fun _ => by simp [users],
    fun t' v lies known => ?_, fun _ met => ?_⟩
  · rw [places p, Option.some.injEq, eq_comm]
  · cases lies
    rw [users, wait v known]
  · rw [awaiter (met t rfl), users]
    rfl

omit [DecidableEq T] in
theorem Placed.nowhere (absent : ∀ p, ¬ At u o p) : Placed u o none :=
  ⟨fun p => iff_of_false (absent p) (by simp), fun _ lies => (by cases lies),
    fun lies => absurd rfl lies, fun _ _ lies => (by cases lies), fun lies => absurd rfl lies⟩

variable [DecidableEq O]

theorem Kept.awaitSuspend (kept : Kept s place) (here : s.pc t = .awaitSuspend w o) :
    Kept ((s.setObject o { s.object o with awaiter := some w }).goto t (.suspend (some w) o))
      place := by
  have object : (s.pc t).object = some o := by rw [here]; rfl
  have lies := kept.lies object
  have users : s.users o = [w] := kept.waiting object (by rw [here]; rfl)
  have beside : Elsewhere s ((s.setObject o { s.object o with awaiter := some w }).goto t
      (.suspend (some w) o)) t o := by
    refine ⟨fun _ _ _ => .rfl, fun _ _ _ => .rfl, fun t' other => ?_, ?_, ?_, fun p other => ?_,
      fun _ _ => rfl⟩
    · simp [State.goto, State.setObject, other]
    · simp [here, Pc.object]
    · simp [State.goto, Pc.object]
    · simp [State.goto, State.setObject, other]
  refine kept.step_of beside (fun _ _ => rfl) ?_ kept.nodup kept.underway kept.left
  rw [lies]
  refine .thread (fun p => ?_) users ?_ ?_
  · have places := (kept.placed o).places p
    rw [lies, Option.some.injEq, eq_comm] at places
    rw [← places]
    cases p with
    | slot | batch => rfl
    | thread t' =>
        by_cases mine : t' = t
        · subst mine
          simp [At, State.goto, here, Pc.object]
        · simp [At, State.goto, State.setObject, mine]
  · simp [State.goto, Pc.wait]
  · simp [State.goto, State.setObject]

theorem Kept.deliver {key : Key} (kept : Kept s place) (polling : s.pc t = .polling)
    (found : s.kernel key = some o) :
    Kept (s.deliver t key o) (Function.update place o (some (.batch t))) := by
  have lies : place o = some (.slot key) := ((kept.placed o).places (.slot key)).mp found
  have absent : o ∉ s.batch t := fun member => by
    have there := ((kept.placed o).places (.batch t)).mp member
    rw [lies] at there
    cases there
  have beside : Elsewhere s (s.deliver t key o) t o := by
    refine ⟨fun key' p other => ?_, fun t' p other => ?_, fun _ _ => rfl, ?_, ?_, fun _ _ => rfl,
      fun _ _ => rfl⟩
    · by_cases same : key' = key
      · subst same
        simp [Kqueue.deliver, found, Ne.symm other]
      · simp [Kqueue.deliver, same]
    · by_cases mine : t' = t
      · subst mine
        simp [Kqueue.deliver, other]
      · simp [Kqueue.deliver, mine]
    · simp [polling, Pc.object]
    · simp [Kqueue.deliver, polling, Pc.object]
  refine kept.step_of beside (fun p other => Function.update_of_ne other ..) ?_ ?_ kept.underway
    kept.left
  · rw [Function.update_self]
    obtain ⟨places, _, used, _, awaiter⟩ := kept.placed o
    rw [lies] at places used awaiter
    refine ⟨fun p => ?_, fun _ lies => (by cases lies), fun _ => used (Option.some_ne_none _),
      fun _ _ lies => (by cases lies), fun _ _ => awaiter (Option.some_ne_none _) (by simp)⟩
    have before := places p
    cases p with
    | slot key' =>
        by_cases same : key' = key
        · subst same
          simp [At, Kqueue.deliver]
        · simpa [At, Kqueue.deliver, same, Ne.symm same] using before
    | batch t' =>
        by_cases mine : t' = t
        · subst mine
          simp [At, Kqueue.deliver]
        · simpa [At, Kqueue.deliver, mine, Ne.symm mine] using before
    | thread t' => simpa [At, Kqueue.deliver] using before
  · intro t'
    by_cases mine : t' = t
    · subst mine
      have others : ∀ p ∈ s.batch t', p ≠ o := fun p member same => absent (same ▸ member)
      simpa [Kqueue.deliver, List.nodup_append, kept.nodup t'] using others
    · simpa [Kqueue.deliver, mine] using kept.nodup t'

theorem Kept.dispatch {rest : List O} (kept : Kept s place) (idle : s.pc t = .free)
    (first : s.batch t = o :: rest) :
    Kept ({ s with batch := Function.update s.batch t rest }.goto t (.resume o))
      (Function.update place o (some (.thread t))) := by
  have lies : place o = some (.batch t) := by
    refine ((kept.placed o).places (.batch t)).mp ?_
    rw [At, first]
    exact List.mem_cons_self
  have distinct := kept.nodup t
  rw [first, List.nodup_cons] at distinct
  obtain ⟨absent, nodup⟩ := distinct
  have beside : Elsewhere s
      ({ s with batch := Function.update s.batch t rest }.goto t (.resume o)) t o := by
    refine ⟨fun _ _ _ => .rfl, fun t' p other => ?_, fun t' other => ?_, ?_, ?_, fun _ _ => rfl,
      fun _ _ => rfl⟩
    · by_cases mine : t' = t
      · subst mine
        simp [State.goto, first, other]
      · simp [State.goto, mine]
    · simp [State.goto, other]
    · simp [idle, Pc.object]
    · simp [State.goto, Pc.object]
  refine kept.step_of beside (fun p other => Function.update_of_ne other ..) ?_ ?_ kept.underway
    kept.left
  · rw [Function.update_self]
    obtain ⟨places, _, used, _, awaiter⟩ := kept.placed o
    rw [lies] at places used awaiter
    refine ⟨fun p => ?_, fun _ lies => (by cases lies), fun _ => used (Option.some_ne_none _),
      fun t' w lies wait => ?_, fun _ _ => awaiter (Option.some_ne_none _) (by simp)⟩
    · have before := places p
      cases p with
      | slot key => simpa [At, State.goto] using before
      | batch t' =>
          by_cases mine : t' = t
          · subst mine
            simp [At, State.goto, absent]
          · simpa [At, State.goto, mine, Ne.symm mine] using before
      | thread t' =>
          by_cases mine : t' = t
          · subst mine
            simp [At, State.goto, Pc.object]
          · simpa [At, State.goto, mine, Ne.symm mine] using before
    · cases lies
      simp [State.goto, Pc.wait] at wait
  · intro t'
    by_cases mine : t' = t
    · subst mine
      simpa [State.goto] using nodup
    · simpa [State.goto, mine] using kept.nodup t'

def dropped (gone : Key → Bool) (place : O → Option (Place T)) (o : O) : Option (Place T) :=
  (place o).filter fun
    | .slot key => !gone key
    | _ => true

omit [DecidableEq T] [DecidableEq O] in
theorem dropped_eq_some {gone : Key → Bool} {p : Place T} :
    dropped gone place o = some p ↔
      place o = some p ∧ ∀ key, p = .slot key → gone key = false := by
  simp only [dropped, Option.filter_eq_some_iff]
  cases p with
  | slot key => simp
  | batch | thread => simp

omit [DecidableEq T] [DecidableEq O] in
theorem Kept.drop (kept : Kept s place) (gone : Key → Bool) :
    Kept (s.drop gone) (dropped gone place) := by
  refine ⟨fun o => ?_, kept.nodup, kept.underway, kept.left⟩
  obtain ⟨places, keys, used, waits, awaiter⟩ := kept.placed o
  have known : dropped gone place o ≠ none → place o ≠ none := by
    rintro lies nowhere
    simp [dropped, nowhere] at lies
  refine ⟨fun p => ?_, fun key lies => keys key (dropped_eq_some.mp lies).1,
    fun lies => used (known lies), fun t w lies => waits t w (dropped_eq_some.mp lies).1,
    fun lies met => ?_⟩
  · rw [dropped_eq_some, ← places p]
    cases p with
    | slot key => cases left : gone key <;> simp [At, Kqueue.drop, left]
    | batch | thread => simp [At, Kqueue.drop]
  · refine awaiter (known lies) fun t there => met t ?_
    rw [dropped_eq_some]
    exact ⟨there, fun key other => by cases other⟩

theorem Kept.register {site : Option W} {filter : Filter} (kept : Kept s place)
    (here : s.pc t = .add site o filter) (free : s.kernel (s.key o filter) = none) :
    Kept (s.add t site o filter (.ok ()))
      (Function.update place o (some (.slot (s.key o filter)))) := by
  have lies : place o = some (.thread t) := kept.lies (by rw [here]; rfl)
  have beside : Elsewhere s (s.add t site o filter (.ok ())) t o := by
    refine ⟨fun key p other => ?_, fun _ _ _ => .rfl, fun t' other => ?_, ?_, ?_, fun _ _ => rfl,
      fun _ _ => rfl⟩
    · by_cases same : key = s.key o filter
      · subst same
        simp [Kqueue.add, State.goto, free, Ne.symm other]
      · simp [Kqueue.add, State.goto, same]
    · simp [Kqueue.add, State.goto, other]
    · simp [here, Pc.object]
    · simp [Kqueue.add, State.goto, Pc.object]
  refine kept.step_of beside (fun p other => Function.update_of_ne other ..) ?_ kept.nodup
    kept.underway kept.left
  rw [Function.update_self]
  obtain ⟨places, _, used, _, awaiter⟩ := kept.placed o
  rw [lies] at places used awaiter
  refine ⟨fun p => ?_, fun key lies => ?_, fun _ => used (Option.some_ne_none _),
    fun _ _ lies => (by cases lies), fun _ _ => awaiter (Option.some_ne_none _) fun t' there => ?_⟩
  · have before := places p
    cases p with
    | slot key =>
        by_cases same : key = s.key o filter
        · subst same
          simp [At, Kqueue.add, State.goto]
        · simpa [At, Kqueue.add, State.goto, same, Ne.symm same] using before
    | batch t' => simpa [At, Kqueue.add, State.goto] using before
    | thread t' =>
        by_cases mine : t' = t
        · subst mine
          simp [At, Kqueue.add, State.goto, Pc.object]
        · simpa [At, Kqueue.add, State.goto, mine, Ne.symm mine] using before
  · cases lies
    exact ⟨rfl, rfl⟩
  · cases there
    rw [here]
    rfl

omit [DecidableEq O] in
theorem drop_add (s : Kqueue cls T W) (t : T) (site : Option W) (o : O) (filter : Filter) :
    (s.drop (· = s.key o filter)).add t site o filter (.ok ()) =
      s.add t site o filter (.ok ()) := by
  -- Nothing is left of the event that the key had before.
  have kernel : Function.update (s.drop (· = s.key o filter)).kernel (s.key o filter) (some o) =
      Function.update s.kernel (s.key o filter) (some o) := by
    funext key
    by_cases same : key = s.key o filter
    · simp [same]
    · simp [Kqueue.drop, same]
  simp only [Kqueue.add]
  exact congrArg (fun kernel => State.goto { s with kernel } t .added) kernel

variable [DecidableEq W]

theorem Kept.await (kept : Kept s place) (idle : s.pc t = .free) (unused : s.users o = [])
    (new : s.begun w = false) (object : Object W (cls o)) :
    Kept ((s.construct o object).start t w o) (Function.update place o (some (.thread t))) := by
  have nowhere := kept.unused unused
  have beside : Elsewhere s ((s.construct o object).start t w o) t o := by
    refine ⟨fun _ _ _ => .rfl, fun _ _ _ => .rfl, fun t' other => ?_, ?_, ?_, fun p other => ?_,
      fun p other => ?_⟩
    · simp [State.start, State.goto, State.construct, State.setObject, other]
    · simp [idle, Pc.object]
    · simp [State.start, State.goto, Pc.object]
    · simp [State.start, State.goto, State.construct, State.setObject, other]
    · simp [State.start, State.goto, State.construct, State.setObject, other]
  have users : ∀ p v, v ∈ ((s.construct o object).start t w o).users p ↔
      v ∈ s.users p ∨ p = o ∧ v = w := fun p v => by
    by_cases same : p = o
    · subst same
      simp [State.start, State.goto, State.construct, State.setObject, unused]
    · simp [beside.users p same, same]
  refine kept.step_of beside (fun p other => Function.update_of_ne other ..) ?_ kept.nodup
    (kept.underway.start new fun p v => (users p v).mp)
    (kept.left.start ((users o w).mpr (.inr ⟨rfl, rfl⟩)) fun p v member =>
      (users p v).mpr (.inl member))
  rw [Function.update_self]
  refine .thread (w := w) (fun p => ?_) ?_ ?_ ?_
  · have places := (kept.placed o).places p
    rw [nowhere] at places
    cases p with
    | slot | batch =>
        simpa [At, State.start, State.goto, State.construct, State.setObject] using places
    | thread t' =>
        by_cases mine : t' = t
        · subst mine
          simp [At, State.start, State.goto, Pc.object]
        · simpa [At, State.start, State.goto, State.construct, State.setObject, mine] using places
  · simp [State.start, State.goto, State.construct, State.setObject, unused]
  · simp [State.start, State.goto, Pc.wait]
  · simp [State.start, State.goto, Pc.fresh]

theorem Kept.proceed (kept : Kept s place) (here : (s.pc t).object = some o)
    (waiting : s.users o = [w]) : Kept (s.proceed t w o) (Function.update place o none) := by
  have lies := kept.lies here
  have beside : Elsewhere s (s.proceed t w o) t o := by
    refine ⟨fun _ _ _ => .rfl, fun _ _ _ => .rfl, fun t' other => ?_, fun p there => ?_, ?_,
      fun _ _ => rfl, fun p other => ?_⟩
    · simp [State.proceed, State.goto, other]
    · rw [here] at there
      exact (Option.some.inj there).symm
    · simp [State.proceed, State.goto, Pc.object]
    · simp [State.proceed, State.goto, other]
  have users : ∀ p v, v ∈ (s.proceed t w o).users p ↔ v ∈ s.users p ∧ p ≠ o := fun p v => by
    by_cases same : p = o
    · subst same
      simp [State.proceed, State.goto, waiting]
    · simp [beside.users p same, same]
  refine kept.step_of beside (fun p other => Function.update_of_ne other ..) ?_ kept.nodup
    (kept.underway.finish (p := o) (by simp [waiting]) fun p v => (users p v).mp)
    (kept.left.finish fun p v member other => (users p v).mpr ⟨member, ?_⟩)
  · rw [Function.update_self]
    refine .nowhere fun p => ?_
    have places := (kept.placed o).places p
    rw [lies] at places
    cases p with
    | slot | batch => simpa [At, State.proceed, State.goto] using places
    | thread t' =>
        by_cases mine : t' = t
        · subst mine
          simp [At, State.proceed, State.goto, Pc.object]
        · simpa [At, State.proceed, State.goto, mine, Ne.symm mine] using places
  · rintro rfl
    rw [waiting] at member
    exact other (List.mem_singleton.mp member)

end Steps

/-- `EV_ADD` succeeds for an object only while the kqueue has no event for its descriptor and
direction, and a descriptor is closed only while the kqueue has no event for it. -/
def Apart (s : Kqueue cls T W) : Action cls T W → Prop
  | .add t (.ok ()) => ∀ p ∈ (s.pc t).registers, s.kernel (s.key p.1 p.2) = none
  | .close fd => ∀ key, key.id = fd → s.kernel key = none
  | _ => True

/-- What an action makes of the places: what is nowhere stays there, and only an action that is not
apart brings an object there. -/
structure Moves (s : Kqueue cls T W) (place : O → Option (Place T)) (apart : Prop)
    (u : Kqueue cls T W) (after : O → Option (Place T)) : Prop where
  kept : Kept u after
  stays : ∀ o w, w ∈ s.users o → place o = none → w ∈ u.users o ∧ after o = none
  finds : apart → ∀ o, u.users o ≠ [] → after o = none → s.users o ≠ [] ∧ place o = none
  takes : ¬ apart → ∃ o, u.users o ≠ [] ∧ after o = none

section Moves
variable {s u v : Kqueue cls T W} {place after : O → Option (Place T)} {apart : Prop} {t : T}
  {o : O} {w : W} {a : Action cls T W}

theorem Kept.stays (kept : Kept u place) (users : u.users = s.users) (met : apart) :
    Moves s place apart u place :=
  ⟨kept, fun _ _ member nowhere => ⟨users ▸ member, nowhere⟩,
    fun _ _ used nowhere => ⟨users ▸ used, nowhere⟩, fun not => absurd met not⟩

theorem Kept.moved (kept : Kept u after) (others : ∀ p, p ≠ o → after p = place p)
    (users : ∀ p, p ≠ o → u.users p = s.users p) (before : place o = none → s.users o = [])
    (later : after o = none → u.users o = []) (met : apart) : Moves s place apart u after := by
  refine ⟨kept, fun p v member nowhere => ?_, fun _ p used nowhere => ?_, fun not => absurd met not⟩
  · have other : p ≠ o := by
      rintro rfl
      rw [before nowhere] at member
      cases member
    rw [users p other, others p other]
    exact ⟨member, nowhere⟩
  · have other : p ≠ o := fun same => used (same ▸ later (same ▸ nowhere))
    rw [users p other] at used
    rw [others p other] at nowhere
    exact ⟨used, nowhere⟩

theorem Moves.trans {middle : O → Option (Place T)} (first : Moves s place apart v middle)
    (second : Moves v middle True u after) : Moves s place apart u after := by
  refine ⟨second.kept, fun o w member nowhere => ?_, fun met o used nowhere => ?_, fun taken => ?_⟩
  · obtain ⟨member, nowhere⟩ := first.stays o w member nowhere
    exact second.stays o w member nowhere
  · obtain ⟨used, nowhere⟩ := second.finds trivial o used nowhere
    exact first.finds met o used nowhere
  · obtain ⟨o, used, nowhere⟩ := first.takes taken
    obtain ⟨w, member⟩ := List.exists_mem_of_ne_nil _ used
    obtain ⟨member, nowhere⟩ := second.stays o w member nowhere
    exact ⟨o, List.ne_nil_of_mem member, nowhere⟩

theorem Moves.congr {other : Prop} (moves : Moves s place apart u after) (same : apart ↔ other) :
    Moves s place other u after :=
  propext same ▸ moves

theorem Kept.drop_moves (kept : Kept s place) (gone : Key → Bool) :
    Moves s place (∀ key, gone key = true → s.kernel key = none) (s.drop gone)
      (dropped gone place) := by
  refine ⟨kept.drop gone, fun o w member nowhere => ⟨member, ?_⟩, fun empty o used nowhere => ?_,
    fun taken => ?_⟩
  · simp [dropped, nowhere]
  · refine ⟨used, ?_⟩
    by_contra lies
    obtain ⟨p, lies⟩ := Option.ne_none_iff_exists'.mp lies
    have left : dropped gone place o = some p := by
      refine dropped_eq_some.mpr ⟨lies, fun key slot => ?_⟩
      subst slot
      by_contra gone
      have found := ((kept.placed o).places (.slot key)).mpr lies
      rw [At, empty key (by simpa using gone)] at found
      cases found
    rw [nowhere] at left
    cases left
  · push Not at taken
    obtain ⟨key, gone, taken⟩ := taken
    obtain ⟨o, found⟩ := Option.ne_none_iff_exists'.mp taken
    have lies := ((kept.placed o).places (.slot key)).mp found
    refine ⟨o, (kept.placed o).used (by simp [lies]), ?_⟩
    simp [dropped, lies, gone]

variable [DecidableEq T]

theorem Kept.goes (kept : Kept u place) {before pc : Pc O W} (here : u.pc t = before)
    (alike : before.Alike pc) (users : u.users = s.users) (met : apart) :
    ∃ after, Moves s place apart (u.goto t pc) after :=
  ⟨place, (kept.goto here alike).stays users met⟩

theorem Kept.suspend_moves (kept : Kept s place) {site : Option W} (here : s.pc t = .suspend site o)
    (met : apart) : ∃ after, Moves s place apart (s.suspend t site o) after := by
  simp only [Kqueue.suspend]
  split <;> exact kept.goes here ⟨rfl, rfl, rfl⟩ rfl met

variable [DecidableEq O]

theorem Kept.added_moves (kept : Kept s place) {site : Option W} {filter : Filter}
    (here : s.pc t = .add site o filter) :
    ∃ after, Moves s place (s.kernel (s.key o filter) = none) (s.add t site o filter (.ok ()))
      after := by
  have drops := kept.drop_moves (· = s.key o filter)
  have free : (s.drop (· = s.key o filter)).kernel (s.key o filter) = none := by
    simp [Kqueue.drop]
  have registers := drops.kept.register here free
  rw [← drop_add s t site o filter]
  refine ⟨_, (drops.trans (registers.moved (o := o) (fun p other => Function.update_of_ne other ..)
    (fun _ _ => rfl) (fun nowhere => ?_) (fun nowhere => ?_) trivial)).congr (by simp)⟩
  · have lies : dropped (· = s.key o filter) place o = some (.thread t) :=
      drops.kept.lies (by simp [Kqueue.drop, here, Pc.object])
    rw [lies] at nowhere
    cases nowhere
  · rw [Function.update_self] at nowhere
    cases nowhere

theorem Kept.resume_moves (kept : Kept s place) (here : s.pc t = .resume o)
    (report : (cls o).Resume) (met : apart) :
    ∃ after, Moves s place apart (s.resume t o report) after := by
  have members := kept.setMembers ((cls o).resume (s.object o).members report).1
    ((cls o).resume (s.dictated o) report).1
  have same : (s.setMembers o ((cls o).resume (s.object o).members report).1
    ((cls o).resume (s.dictated o) report).1).pc t = .resume o := here
  simp only [State.resume]
  split
  · exact ⟨place, members.stays rfl met⟩
  all_goals exact members.goes same ⟨rfl, rfl, rfl⟩ rfl met

variable [DecidableEq W]

theorem Kept.proceed_moves (kept : Kept u place) (here : (u.pc t).object = some o)
    (waiting : u.users o = [w]) (users : u.users = s.users) (met : apart) :
    ∃ after, Moves s place apart (u.proceed t w o) after := by
  refine ⟨_, (kept.proceed here waiting).moved (o := o)
    (fun p other => Function.update_of_ne other ..) (fun p other => ?_) (fun nowhere => ?_)
    (fun _ => ?_) met⟩
  · simp [State.proceed, State.goto, other, users]
  · rw [kept.lies here] at nowhere
    cases nowhere
  · simp [State.proceed, State.goto, waiting]

theorem Kept.await_moves (kept : Kept s place) (idle : s.pc t = .free) (unused : s.users o = [])
    (new : s.begun w = false) (object : Object W (cls o)) (met : apart) :
    ∃ after, Moves s place apart ((s.construct o object).start t w o) after := by
  refine ⟨_, (kept.await idle unused new object).moved (o := o)
    (fun p other => Function.update_of_ne other ..) (fun p other => ?_) (fun _ => unused)
    (fun nowhere => ?_) met⟩
  · simp [State.start, State.goto, State.construct, State.setObject, other]
  · rw [Function.update_self] at nowhere
    cases nowhere

theorem Kept.ready_moves (kept : Kept s place) (here : s.pc t = .awaitReady w o)
    (report : (cls o).Ready) (met : apart) :
    ∃ after, Moves s place apart (s.ready t w o report) after := by
  have members := kept.setMembers ((cls o).awaitReady (s.object o).members report).1
    ((cls o).awaitReady (s.dictated o) report).1
  have same : (s.setMembers o ((cls o).awaitReady (s.object o).members report).1
    ((cls o).awaitReady (s.dictated o) report).1).pc t = .awaitReady w o := here
  simp only [State.ready]
  split
  · exact ⟨place, members.stays rfl met⟩
  · exact members.proceed_moves (by rw [same]; rfl)
      (kept.waiting (by rw [here]; rfl) (by rw [here]; rfl)) rfl met
  · exact members.goes same ⟨rfl, rfl, rfl⟩ rfl met

theorem Kept.code_moves (kept : Kept s place) (action : s.code t = some u) (met : apart) :
    ∃ after, Moves s place apart u after := by
  unfold State.code at action
  split at action
  case h_1 w o here =>
      cases action
      exact ⟨place, (kept.awaitSuspend here).stays rfl met⟩
  case h_2 site o ec here =>
      cases action
      exact (kept.setMembers _ _).goes here ⟨rfl, rfl, rfl⟩ rfl met
  case h_3 w o here =>
      cases action
      exact kept.proceed_moves (by rw [here]; rfl)
        (kept.waiting (by rw [here]; rfl) (by rw [here]; rfl)) rfl met
  case h_4 o here =>
      cases action
      exact kept.goes here ⟨rfl, rfl, rfl⟩ rfl met
  case h_5 here =>
      cases action
      exact kept.goes here ⟨rfl, rfl, rfl⟩ rfl met
  case h_6 o here =>
      obtain ⟨w, awaiter, rfl⟩ := Option.map_eq_some_iff.mp action
      have object : (s.pc t).object = some o := by rw [here]; rfl
      have lies := kept.lies object
      have waiting := (kept.placed o).awaiter (by simp [lies]) fun t' there => by
        rw [lies] at there
        cases there
        rw [here]
        rfl
      rw [awaiter] at waiting
      exact kept.proceed_moves object waiting.symm rfl met
  case h_7 => cases action

theorem Kept.go_moves (kept : Kept s place) (action : s.go t = some u) (met : apart) :
    ∃ after, Moves s place apart u after := by
  unfold Kqueue.go at action
  split at action
  case h_1 site o here =>
      cases action
      exact kept.suspend_moves here met
  case h_2 => exact kept.code_moves action met

theorem Kept.step (kept : Kept s place) (action : s.step a = some u) :
    ∃ after, Moves s place (Apart s a) u after := by
  cases a with
  | await t w o object =>
      simp only [Kqueue.step, provided_eq_some] at action
      obtain ⟨⟨idle, unused, new⟩, rfl⟩ := action
      exact kept.await_moves idle unused new object trivial
  | ready t w o report =>
      simp only [Kqueue.step, provided_eq_some] at action
      obtain ⟨here, rfl⟩ := action
      exact kept.ready_moves here report trivial
  | add t result =>
      simp only [Kqueue.step] at action
      split at action
      · next site o filter here =>
          cases action
          cases result with
          | ok _ =>
              obtain ⟨after, moves⟩ := kept.added_moves here
              exact ⟨after, moves.congr (by simp [Apart, here, Pc.registers])⟩
          | error errno => exact kept.goes here ⟨rfl, rfl, rfl⟩ rfl trivial
      · cases action
  | resume t o report =>
      simp only [Kqueue.step, provided_eq_some] at action
      obtain ⟨here, rfl⟩ := action
      exact kept.resume_moves here report trivial
  | poll t bufferSize =>
      simp only [Kqueue.step, provided_eq_some] at action
      obtain ⟨⟨idle, _⟩, rfl⟩ := action
      exact ⟨place, (kept.poll idle bufferSize).stays rfl trivial⟩
  | deliver t key =>
      simp only [Kqueue.step] at action
      split at action
      · next o found =>
          obtain ⟨⟨polling, _⟩, rfl⟩ := provided_eq_some.mp action
          have lies := ((kept.placed o).places (.slot key)).mp found
          exact ⟨_, (kept.deliver polling found).moved (o := o)
            (fun p other => Function.update_of_ne other ..) (fun _ _ => rfl) (by simp [lies])
            (by simp) trivial⟩
      · cases action
  | polled t =>
      simp only [Kqueue.step, provided_eq_some] at action
      obtain ⟨here, rfl⟩ := action
      exact kept.goes here ⟨rfl, rfl, rfl⟩ rfl trivial
  | dispatch t =>
      simp only [Kqueue.step] at action
      split at action
      · next o rest first =>
          obtain ⟨idle, rfl⟩ := provided_eq_some.mp action
          have lies : place o = some (.batch t) := by
            refine ((kept.placed o).places (.batch t)).mp ?_
            rw [At, first]
            exact List.mem_cons_self
          exact ⟨_, (kept.dispatch idle first).moved (o := o)
            (fun p other => Function.update_of_ne other ..) (fun _ _ => rfl) (by simp [lies])
            (by simp) trivial⟩
      · cases action
  | close fd =>
      cases action
      exact ⟨_, (kept.drop_moves _).congr (by simp [Apart])⟩
  | go t => exact kept.go_moves action trivial

end Moves

end Filters

end Ice.Event
