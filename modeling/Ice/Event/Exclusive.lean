import Mathlib.Data.List.Count
import Ice.Lib.Underway
import Ice.Event.Machine

namespace Ice.Event
open Transition Net

variable {O T W : Type}

inductive Spot (T : Type) where
  | slot
  | batch (t : T)
  | thread (t : T)
  deriving DecidableEq, Repr

namespace State

variable {cls : O → EventClass}

def Registered (s : Epoll cls T W) (o : O) (armed : Bool) : Prop :=
  s.kernel (s.key o) = some ⟨o, armed⟩

def Unregistered (s : Epoll cls T W) (o : O) : Prop :=
  ∀ key armed, s.kernel key ≠ some ⟨o, armed⟩

def Noted (s : Epoll cls T W) (o : O) : Prop :=
  (s.object o).nativeContext = some (s.object o).context ∧
    (s.object o).nativeId = some (s.object o).socket

def PcFact (s : Epoll cls T W) (o : O) (w : W) : Pc O W → Prop
  | .awaitReady w' _ | .awaitSuspend w' _ => w' = w ∧ s.Unregistered o
  | .suspend site _ | .refuse site _ _ | .refused site _ =>
      (∀ w' ∈ site, w' = w) ∧ (s.object o).awaiter = some w ∧ s.Unregistered o
  | .add site _ _ =>
      (∀ w' ∈ site, w' = w) ∧ (s.object o).awaiter = some w ∧ s.Unregistered o ∧ s.Noted o
  | .remove _ => s.Registered o false ∧ s.Noted o ∧ (s.object o).awaiter = some w
  | .del _ context id =>
      s.Registered o false ∧ (context, id) = s.key o ∧ (s.object o).awaiter = some w
  | .clear _ | .resume _ | .wake _ => (s.object o).awaiter = some w ∧ s.Unregistered o
  | .free | .polling | .added => False

def Fact (s : Epoll cls T W) (o : O) (w : W) : Spot T → Prop
  | .slot => s.Noted o ∧ (s.object o).awaiter = some w
  | .batch _ => s.Registered o false ∧ s.Noted o ∧ (s.object o).awaiter = some w
  | .thread t => s.PcFact o w (s.pc t)

variable [DecidableEq O] [DecidableEq T]

structure Waiting (s : Epoll cls T W) (o : O) (w : W) (spot : Spot T) : Prop where
  slot : s.Registered o true ↔ spot = .slot
  batch : ∀ t, (s.batch t).count o = if spot = .batch t then 1 else 0
  thread : ∀ t, (s.pc t).object = some o ↔ spot = .thread t
  fact : s.Fact o w spot

structure Idle (s : Epoll cls T W) (o : O) : Prop where
  batch : ∀ t, (s.batch t).count o = 0
  thread : ∀ t, (s.pc t).object ≠ some o
  unregistered : s.Unregistered o

def Settled (s : Epoll cls T W) (o : O) : Prop :=
  (s.users o = [] ∧ s.Idle o) ∨ ∃ w spot, s.users o = [w] ∧ s.Waiting o w spot

structure Elsewhere (s u : Epoll cls T W) (focus : Option O) : Prop where
  object : ∀ o, focus ≠ some o → (u.object o).toBase = (s.object o).toBase
  users : ∀ o, focus ≠ some o → u.users o = s.users o
  entry : ∀ o, focus ≠ some o → ∀ key armed,
    u.kernel key = some ⟨o, armed⟩ ↔ s.kernel key = some ⟨o, armed⟩
  batch : ∀ o, focus ≠ some o → ∀ t, (u.batch t).count o = (s.batch t).count o
  thread : ∀ o, focus ≠ some o → ∀ t, (u.pc t).object = some o ↔ (s.pc t).object = some o
  pc : ∀ o, focus ≠ some o → ∀ t, (s.pc t).object = some o → u.pc t = s.pc t

variable {s u : Epoll cls T W} {t : T} {o : O} {w : W} {focus : Option O} {spot : Spot T}
  {pc next : Pc O W}

omit [DecidableEq O] in
theorem moves_elsewhere (moves : u.pc = Function.update s.pc t pc)
    (before : (s.pc t).object = none ∨ (s.pc t).object = focus)
    (after : pc.object = none ∨ pc.object = focus) :
    (∀ o, focus ≠ some o → ∀ t', (u.pc t').object = some o ↔ (s.pc t').object = some o) ∧
      ∀ o, focus ≠ some o → ∀ t', (s.pc t').object = some o → u.pc t' = s.pc t' := by
  have away : ∀ place : Option O, place = none ∨ place = focus →
      ∀ o, focus ≠ some o → place ≠ some o := by
    rintro place (rfl | rfl) o other
    · simp
    · exact other
  refine ⟨fun o other t' => ?_, fun o other t' here => ?_⟩
  all_goals
    rw [moves]
    by_cases mine : t' = t
  · rw [mine, Function.update_self]
    exact iff_of_false (away _ after o other) (away _ before o other)
  · rw [Function.update_of_ne mine]
  · rw [mine] at here
    exact absurd here (away _ before o other)
  · rw [Function.update_of_ne mine]

omit [DecidableEq T] in
theorem Elsewhere.unregistered (elsewhere : Elsewhere s u focus) (other : focus ≠ some o) :
    u.Unregistered o ↔ s.Unregistered o := by
  simp only [Unregistered, Ne, elsewhere.entry o other]

omit [DecidableEq T] in
theorem Elsewhere.registered (elsewhere : Elsewhere s u focus) (other : focus ≠ some o)
    (armed : Bool) : u.Registered o armed ↔ s.Registered o armed := by
  simp only [Registered, key, elsewhere.object o other, elsewhere.entry o other]

omit [DecidableEq T] in
theorem Elsewhere.pcFact (elsewhere : Elsewhere s u focus) (other : focus ≠ some o)
    (pc : Pc O W) : u.PcFact o w pc ↔ s.PcFact o w pc := by
  cases pc <;> simp only [PcFact, Noted, key, elsewhere.object o other,
    elsewhere.unregistered other, elsewhere.registered other]

theorem Elsewhere.settled (elsewhere : Elsewhere s u focus) (other : focus ≠ some o)
    (settled : s.Settled o) : u.Settled o := by
  rcases settled with ⟨users, idle⟩ | ⟨w, spot, users, waiting⟩
  · left
    refine ⟨(elsewhere.users o other).trans users, fun t' => ?_, fun t' => ?_, ?_⟩
    · rw [elsewhere.batch o other, idle.batch]
    · rw [Ne, elsewhere.thread o other]
      exact idle.thread t'
    · exact (elsewhere.unregistered other).mpr idle.unregistered
  · right
    refine ⟨w, spot, (elsewhere.users o other).trans users, ?_, fun t' => ?_, fun t' => ?_, ?_⟩
    · rw [elsewhere.registered other, waiting.slot]
    · rw [elsewhere.batch o other, waiting.batch]
    · rw [elsewhere.thread o other, waiting.thread]
    · have fact := waiting.fact
      cases spot with
      | slot => simpa only [Fact, Noted, elsewhere.object o other] using fact
      | batch t' =>
          simpa only [Fact, Noted, elsewhere.object o other, elsewhere.registered other] using fact
      | thread t' =>
          have same := elsewhere.pc o other t' ((waiting.thread t').mpr rfl)
          simpa only [Fact, same, elsewhere.pcFact other] using fact

/-! ## Waits -/

/-- A wait is under way on at most one object, and continues at most once, after it is under way. -/
structure Tally (s : Epoll cls T W) : Prop where
  fresh : ∀ w, s.begun w = false → s.continued w = 0 ∧ ∀ o, w ∉ s.users o
  once : ∀ o, ∀ w ∈ s.users o, s.continued w = 0
  most : ∀ w, s.continued w ≤ 1
  apart : ∀ w o o', w ∈ s.users o → w ∈ s.users o' → o = o'

omit [DecidableEq O] [DecidableEq T] in
theorem Tally.of_same (tally : s.Tally) (users : u.users = s.users) (begun : u.begun = s.begun)
    (continued : u.continued = s.continued) : u.Tally := by
  obtain ⟨fresh, once, most, apart⟩ := tally
  constructor
  all_goals simpa only [users, begun, continued]

omit [DecidableEq O] [DecidableEq T] in
theorem tally_iff :
    s.Tally ↔ Underway (fun o w => w ∈ s.users o) s.begun s.continued :=
  ⟨fun tally => ⟨tally.fresh, tally.once, tally.most, tally.apart⟩,
    fun underway => ⟨underway.fresh, underway.once, underway.most, underway.apart⟩⟩

section Counting
variable [DecidableEq W]

theorem Tally.start (tally : s.Tally) (new : s.begun w = false) (users : s.users o = []) :
    (s.start t w o).Tally := by
  apply tally_iff.mpr
  apply (tally_iff.mp tally).start (p := o) new
  intro o' w' member
  by_cases same : o' = o
  · subst same
    right
    simpa [State.start, State.goto, users] using member
  · left
    simpa [State.start, State.goto, same] using member

theorem Tally.proceed (tally : s.Tally) (users : s.users o = [w]) : (s.proceed t w o).Tally := by
  have under : w ∈ s.users o := by simp [users]
  apply tally_iff.mpr
  apply (tally_iff.mp tally).finish under
  intro o' w' member
  by_cases same : o' = o
  · subst same
    simp [State.proceed, State.goto, users] at member
  · refine ⟨?_, same⟩
    simpa [State.proceed, State.goto, same] using member

end Counting

/-! ## The invariant -/

structure Inv (s : Epoll cls T W) : Prop where
  settled : ∀ o, s.Settled o
  keys : ∀ key r, s.kernel key = some r → key = s.key r.target
  tally : s.Tally

theorem Inv.holder (inv : s.Inv) (place : s.pc t = pc) (here : pc.object = some o) :
    ∃ w, s.users o = [w] ∧ s.Waiting o w (.thread t) ∧ s.PcFact o w pc := by
  rcases inv.settled o with ⟨_, idle⟩ | ⟨w, spot, users, waiting⟩
  · exact absurd (place ▸ here) (idle.thread t)
  · obtain rfl := (waiting.thread t).mp (place ▸ here)
    exact ⟨w, users, waiting, place ▸ waiting.fact⟩

theorem Inv.of_settled (inv : s.Inv) (elsewhere : Elsewhere s u (some o)) (settled : u.Settled o)
    (keys : ∀ key r, u.kernel key = some r → key = u.key r.target) (tally : u.Tally) : u.Inv where
  settled o' := by
    by_cases same : o' = o
    · rwa [same]
    · exact elsewhere.settled (by simpa using Ne.symm same) (inv.settled o')
  keys := keys
  tally := tally

theorem Inv.pass (inv : s.Inv) (object : ∀ o, (u.object o).toBase = (s.object o).toBase)
    (users : u.users = s.users) (begun : u.begun = s.begun) (continued : u.continued = s.continued)
    (epoll : u.kernel = s.kernel) (batch : u.batch = s.batch)
    (thread : ∀ t, u.pc t = s.pc t ∨ (u.pc t).object = none ∧ (s.pc t).object = none) : u.Inv := by
  have elsewhere : Elsewhere s u none := by
    refine ⟨fun o _ => object o, fun _ _ => by rw [users], fun _ _ _ _ => by rw [epoll],
      fun _ _ _ => by rw [batch], fun o _ t => ?_, fun o _ t here => ?_⟩
    · rcases thread t with same | ⟨after, before⟩
      · rw [same]
      · simp [after, before]
    · rcases thread t with same | ⟨_, before⟩
      · exact same
      · simp [before] at here
  refine ⟨fun o => elsewhere.settled nofun (inv.settled o), fun k r found => ?_,
    inv.tally.of_same users begun continued⟩
  rw [epoll] at found
  rw [inv.keys k r found]
  simp only [State.key, object]

theorem Inv.stay (inv : s.Inv) (place : s.pc t = pc) (here : pc.object = some o)
    (stays : next.object = some o) (users : u.users = s.users) (begun : u.begun = s.begun)
    (continued : u.continued = s.continued) (epoll : u.kernel = s.kernel) (batch : u.batch = s.batch)
    (object : ∀ o', o' ≠ o → (u.object o').toBase = (s.object o').toBase)
    (key : u.key o = s.key o) (moves : u.pc = Function.update s.pc t next)
    (fact : ∀ w, s.PcFact o w pc → u.PcFact o w next) : u.Inv := by
  have elsewhere : Elsewhere s u (some o) := by
    obtain ⟨thread, pc⟩ := moves_elsewhere moves (.inr (place ▸ here)) (.inr stays)
    exact ⟨fun o' other => object o' (by simpa using Ne.symm other), fun _ _ => by rw [users],
      fun _ _ _ _ => by rw [epoll], fun _ _ _ => by rw [batch], thread, pc⟩
  obtain ⟨w, under, waiting, before⟩ := inv.holder place here
  refine inv.of_settled elsewhere (.inr ⟨w, .thread t, by rw [users, under], ?_⟩) ?_
    (inv.tally.of_same users begun continued)
  · refine ⟨?_, fun t' => by rw [batch, waiting.batch], fun t' => ?_, ?_⟩
    · rw [Registered, epoll, key]
      exact waiting.slot
    · by_cases mine : t' = t
      · rw [mine, moves, Function.update_self, stays]
        simp
      · rw [moves, Function.update_of_ne mine, waiting.thread]
    · rw [Fact, moves, Function.update_self]
      exact fact w before
  · intro k r found
    rw [epoll] at found
    by_cases same : r.target = o
    · rw [same, key, inv.keys k r found, same]
    · rw [inv.keys k r found]
      simp only [State.key, object r.target same]

omit [DecidableEq O] in
@[simp] theorem goto_pc (s : Epoll cls T W) (t : T) (pc : Pc O W) :
    (s.goto t pc).pc = Function.update s.pc t pc := rfl

omit [DecidableEq T] in
theorem setObject_other (object : Object W (cls o)) {o' : O} (other : o' ≠ o) :
    (s.setObject o object).object o' = s.object o' := by
  simp [setObject, other]

omit [DecidableEq T] in
@[simp] theorem setObject_self (object : Object W (cls o)) :
    (s.setObject o object).object o = object := by
  simp [setObject]

omit [DecidableEq T] in
theorem setMembers_base (members dictated : (cls o).Members) (o' : O) :
    ((s.setMembers o members dictated).object o').toBase = (s.object o').toBase := by
  by_cases same : o' = o
  · subst same
    simp [setMembers, setObject]
  · simp [setMembers, setObject, same]

theorem Inv.away (inv : s.Inv) (bufferSize : T → Nat) (leaves : (s.pc t).object = none)
    (arrives : next.object = none) : ({ s with bufferSize }.goto t next).Inv := by
  refine inv.pass (fun _ => rfl) rfl rfl rfl rfl rfl fun t' => ?_
  by_cases mine : t' = t
  · exact .inr (by simp [mine, leaves, arrives])
  · exact .inl (by simp [mine])

theorem Inv.setMembers (inv : s.Inv) (members dictated : (cls o).Members) :
    (s.setMembers o members dictated).Inv :=
  inv.pass (setMembers_base members dictated) rfl rfl rfl rfl rfl fun _ => .inl rfl

theorem Inv.goto (inv : s.Inv) (place : s.pc t = pc) (here : pc.object = some o)
    (stays : next.object = some o) (fact : ∀ w, s.PcFact o w pc → s.PcFact o w next) :
    (s.goto t next).Inv := by
  refine inv.stay place here stays rfl rfl rfl rfl rfl (fun _ _ => rfl) rfl rfl fun w before => ?_
  have after := fact w before
  cases next <;> exact after

theorem Inv.write (inv : s.Inv) {object : Object W (cls o)} (place : s.pc t = pc)
    (here : pc.object = some o) (stays : next.object = some o)
    (context : object.context = (s.object o).context) (socket : object.socket = (s.object o).socket)
    (fact : ∀ w, s.PcFact o w pc → ((s.setObject o object).goto t next).PcFact o w next) :
    ((s.setObject o object).goto t next).Inv := by
  refine inv.stay place here stays rfl rfl rfl rfl rfl (fun o' other => ?_) ?_ rfl fact
  · exact congrArg _ (setObject_other object other)
  · simp [State.key, State.goto, context, socket]

/-! ## Steps -/

theorem Inv.resume (inv : s.Inv) (place : s.pc t = .resume o) (report : (cls o).Resume) :
    (s.resume t o report).Inv := by
  have after := inv.setMembers ((cls o).resume (s.object o).members report).1
    ((cls o).resume (s.dictated o) report).1
  simp only [State.resume]
  split
  · exact after
  · exact after.goto place rfl rfl fun _ fact => fact
  · exact after.goto place rfl rfl fun _ fact => ⟨by simp, fact⟩

theorem Inv.note (inv : s.Inv) {site : Option W} {filter : Filter}
    (place : s.pc t = .suspend site o) : ((s.note o).goto t (.add site o filter)).Inv := by
  refine inv.write place rfl rfl rfl rfl fun w ⟨site, awaiter, unregistered⟩ => ?_
  exact ⟨site, by simpa [State.goto] using awaiter, unregistered, by simp [Noted, State.goto]⟩

theorem Inv.suspend (inv : s.Inv) {site : Option W} (place : s.pc t = .suspend site o) :
    (s.suspend t site o).Inv := by
  simp only [State.suspend]
  split
  · exact inv.goto place rfl rfl fun _ fact => fact
  · exact inv.note place
  · exact inv.note place

theorem Inv.refuse (inv : s.Inv) {site : Option W} {ec : ErrorCode}
    (place : s.pc t = .refuse site o ec) : (s.refuse t site o ec).Inv :=
  (inv.setMembers _ _).goto place rfl rfl fun _ fact => by
    simpa [PcFact, setMembers_base] using fact

theorem Inv.remove (inv : s.Inv) (place : s.pc t = .remove o) : (s.remove t o).Inv := by
  simp only [State.remove]
  split
  · rename_i context id noted noted'
    refine inv.goto place rfl rfl fun w ⟨registered, ⟨hasContext, hasId⟩, awaiter⟩ => ?_
    rw [hasContext] at noted
    rw [hasId] at noted'
    cases noted
    cases noted'
    exact ⟨registered, rfl, awaiter⟩
  · rename_i missing
    obtain ⟨w, _, _, _, ⟨hasContext, hasId⟩, _⟩ := inv.holder place rfl
    exact absurd hasId (missing _ _ hasContext)

theorem Inv.register (inv : s.Inv) (r : Option (Registration O))
    (epoll : u.kernel = Function.update s.kernel (s.key o) r) (mine : ∀ r' ∈ r, r'.target = o)
    (before : ∀ r', s.kernel (s.key o) = some r' → r'.target = o) (object : u.object = s.object)
    (users : u.users = s.users) (begun : u.begun = s.begun) (continued : u.continued = s.continued)
    (batch : ∀ o', o' ≠ o → ∀ t, (u.batch t).count o' = (s.batch t).count o')
    (moves : u.pc = Function.update s.pc t next)
    (leaves : (s.pc t).object = none ∨ (s.pc t).object = some o)
    (arrives : next.object = none ∨ next.object = some o) (settled : u.Settled o) : u.Inv := by
  obtain ⟨thread, pc⟩ := moves_elsewhere moves leaves arrives
  refine inv.of_settled ⟨fun _ _ => by rw [object], fun _ _ => by rw [users],
    fun o' other key armed => ?_, fun o' other => batch o' (by simpa using Ne.symm other), thread,
    pc⟩ settled (fun key r' found => ?_) (inv.tally.of_same users begun continued)
  all_goals
    have key_same : ∀ o, u.key o = s.key o := fun o => by rw [State.key, State.key, object]
    rw [epoll] at *
    by_cases here : key = s.key o
  · have other : o' ≠ o := by simpa using Ne.symm other
    rw [here, Function.update_self]
    exact iff_of_false (fun found => other (mine _ found)) fun found => other (before _ found)
  · rw [Function.update_of_ne here]
  · rw [here, Function.update_self] at found
    rw [mine r' found, key_same, here]
  · rw [Function.update_of_ne here] at found
    rw [key_same, inv.keys key r' found]

theorem Inv.add (inv : s.Inv) {site : Option W} {filter : Filter} {result : Except Errno Unit}
    (place : s.pc t = .add site o filter) (action : s.add t site o result = some u) : u.Inv := by
  cases result with
  | error errno =>
      simp only [State.add, provided_eq_some] at action
      obtain ⟨_, rfl⟩ := action
      apply inv.goto place rfl rfl
      rintro w ⟨site, awaiter, unregistered, _⟩
      exact ⟨site, awaiter, unregistered⟩
  | ok _ =>
      simp only [State.add, provided_eq_some] at action
      obtain ⟨free, rfl⟩ := action
      obtain ⟨w, users, waiting, _, awaiter, unregistered, noted⟩ := inv.holder place rfl
      refine inv.register (some ⟨o, true⟩) rfl (by simp) (by simp [free]) rfl rfl rfl rfl
        (fun _ _ _ => rfl) rfl (.inr (place ▸ rfl)) (.inl rfl)
        (.inr ⟨w, .slot, users, ?_, waiting.batch, fun t' => ?_, noted, awaiter⟩)
      · exact iff_of_true (Function.update_self ..) rfl
      · by_cases same : t' = t
        · simp [same, Pc.object]
        · have other := waiting.thread t'
          simpa [same, Ne.symm same] using other

theorem Inv.del (inv : s.Inv) {context id : Fd} (place : s.pc t = .del o context id) :
    ({ s with kernel := Function.update s.kernel (context, id) none }.goto t (.clear o)).Inv := by
  obtain ⟨w, users, waiting, registered, same, awaiter⟩ := inv.holder place rfl
  rw [same]
  refine inv.register none rfl (by simp) (fun r found => ?_) rfl rfl rfl rfl (fun _ _ _ => rfl) rfl
    (.inr (place ▸ rfl)) (.inr rfl)
    (.inr ⟨w, .thread t, users, ?_, waiting.batch, fun t' => ?_, ?_⟩)
  · rw [registered] at found
    cases found
    rfl
  · simp [Registered, State.key, State.goto]
  · by_cases mine : t' = t
    · simp [mine, Pc.object]
    · simpa [mine] using waiting.thread t'
  · simp only [Fact, goto_pc, Function.update_self]
    refine ⟨awaiter, fun key armed found => ?_⟩
    -- An event is only ever registered under its own key, and that entry is gone.
    have away : key ≠ s.key o := by
      rintro rfl
      simp [State.goto] at found
    simp only [State.goto, Function.update_of_ne away] at found
    exact away (inv.keys key _ found)

theorem Inv.deliver (inv : s.Inv) {key : Key} (place : s.pc t = .polling)
    (found : s.kernel key = some ⟨o, true⟩) :
    Inv { s with
      kernel := Function.update s.kernel key (some ⟨o, false⟩)
      batch := Function.update s.batch t (s.batch t ++ [o]) } := by
  obtain rfl : key = s.key o := inv.keys key _ found
  rcases inv.settled o with ⟨_, idle⟩ | ⟨w, spot, users, waiting⟩
  · exact absurd found (idle.unregistered _ _)
  · obtain rfl := waiting.slot.mp found
    obtain ⟨noted, awaiter⟩ := waiting.fact
    have moves : s.pc = Function.update s.pc t .polling := by rw [← place, Function.update_eq_self]
    refine inv.register (some ⟨o, false⟩) rfl (by simp) (fun r other => ?_) rfl rfl rfl rfl
      (fun o' other t' => ?_) moves (.inl (by rw [place]; rfl)) (.inl rfl)
      (.inr ⟨w, .batch t, users, ?_, fun t' => ?_, fun t' => ?_, ?_⟩)
    · rw [found] at other
      cases other
      rfl
    · by_cases mine : t' = t
      · simp [mine, List.count_append, Ne.symm other]
      · simp [mine]
    · simp [Registered, State.key]
    · by_cases mine : t' = t
      · subst mine
        simp [waiting.batch]
      · simp [mine, Ne.symm mine, waiting.batch]
    · simp [waiting.thread]
    · exact ⟨Function.update_self .., noted, awaiter⟩

theorem Inv.dispatch (inv : s.Inv) {rest : List O} (place : s.pc t = .free)
    (batch : s.batch t = o :: rest) :
    Inv ({ s with batch := Function.update s.batch t rest }.goto t (.remove o)) := by
  rcases inv.settled o with ⟨_, idle⟩ | ⟨w, spot, users, waiting⟩
  · have none := idle.batch t
    simp [batch] at none
  · have some := waiting.batch t
    by_cases here : spot = .batch t
    · subst here
      have last : rest.count o = 0 := by simpa [batch] using some
      obtain ⟨thread, pc⟩ := moves_elsewhere
        (u := { s with batch := Function.update s.batch t rest }.goto t (.remove o)) rfl
        (.inl (by rw [place]; rfl)) (.inr rfl)
      refine inv.of_settled ⟨fun _ _ => rfl, fun _ _ => rfl, fun _ _ _ _ => .rfl,
        fun o' other t' => ?_, thread, pc⟩ (.inr ⟨w, .thread t, users, ?_, fun t' => ?_,
          fun t' => ?_, ?_⟩) inv.keys (inv.tally.of_same rfl rfl rfl)
      · have away : o ≠ o' := by simpa using other
        by_cases mine : t' = t
        · simp [State.goto, mine, batch, away]
        · simp [State.goto, mine]
      · exact iff_of_false (fun found => nomatch waiting.slot.mp found) (by simp)
      · by_cases mine : t' = t
        · simp [State.goto, mine, last]
        · simpa [State.goto, mine, Ne.symm mine] using waiting.batch t'
      · by_cases mine : t' = t
        · simp [mine, Pc.object]
        · simpa [mine, Ne.symm mine] using waiting.thread t'
      · simp only [Fact, goto_pc, Function.update_self]
        exact waiting.fact
    · simp [batch, here] at some

theorem Inv.construct (inv : s.Inv) (users : s.users o = []) (object : Object W (cls o))
    (dictated : (o : O) → (cls o).Members) :
    Inv { s.setObject o object with dictated } := by
  rcases inv.settled o with ⟨_, idle⟩ | ⟨_, _, under, _⟩
  · refine inv.of_settled ⟨fun o' other => ?_, fun _ _ => rfl, fun _ _ _ _ => .rfl, fun _ _ _ => rfl,
      fun _ _ _ => .rfl, fun _ _ _ _ => rfl⟩
      (.inl ⟨users, idle.batch, idle.thread, idle.unregistered⟩) (fun key r found => ?_)
      (inv.tally.of_same rfl rfl rfl)
    · have away : o' ≠ o := by simpa using Ne.symm other
      exact congrArg _ (setObject_other object away)
    · have away : r.target ≠ o := by
        rintro rfl
        exact idle.unregistered key r.armed found
      rw [inv.keys key r found]
      simp [State.key, setObject, away]
  · simp [users] at under

theorem create_inv (object : (o : O) → Object W (cls o)) : (create object : Epoll cls T W).Inv where
  settled o := .inl ⟨rfl, fun _ => rfl, fun _ => by simp [create, Pc.object], fun _ _ => by
    simp [create]⟩
  keys := by simp [create]
  tally := ⟨fun _ _ => ⟨rfl, by simp [create]⟩, by simp [create], fun _ => Nat.zero_le 1,
    by simp [create]⟩

section Steps
variable [DecidableEq W]

theorem Inv.start (inv : s.Inv) (place : s.pc t = .free) (users : s.users o = [])
    (new : s.begun w = false) : (s.start t w o).Inv := by
  rcases inv.settled o with ⟨_, idle⟩ | ⟨_, _, under, _⟩
  · have elsewhere : Elsewhere s (s.start t w o) (some o) := by
      obtain ⟨thread, pc⟩ := moves_elsewhere (u := s.start t w o) rfl
        (.inl (by rw [place]; rfl)) (.inr rfl)
      refine ⟨fun _ _ => rfl, fun o' other => ?_, fun _ _ _ _ => .rfl, fun _ _ _ => rfl, thread, pc⟩
      have away : o' ≠ o := by simpa using Ne.symm other
      simp [State.start, State.goto, away]
    refine inv.of_settled elsewhere (.inr ⟨w, .thread t, ?_, ?_, fun t' => ?_, fun t' => ?_, ?_⟩)
      inv.keys (inv.tally.start new users)
    · simp [State.start, State.goto, users]
    · exact iff_of_false (idle.unregistered _ _) (by simp)
    · exact (idle.batch t').trans (by simp)
    · by_cases mine : t' = t
      · simp [State.start, mine, Pc.object]
      · simpa [State.start, mine, Ne.symm mine] using idle.thread t'
    · simp only [Fact, State.start, goto_pc, Function.update_self]
      exact ⟨rfl, idle.unregistered⟩
  · simp [users] at under

theorem Inv.proceed (inv : s.Inv) (place : s.pc t = pc) (here : pc.object = some o)
    (users : s.users o = [w]) (unregistered : s.Unregistered o) : (s.proceed t w o).Inv := by
  obtain ⟨w', under, waiting, _⟩ := inv.holder place here
  have elsewhere : Elsewhere s (s.proceed t w o) (some o) := by
    obtain ⟨thread, pc⟩ := moves_elsewhere (u := s.proceed t w o) rfl (.inr (place ▸ here))
      (.inl rfl)
    refine ⟨fun _ _ => rfl, fun o' other => ?_, fun _ _ _ _ => .rfl, fun _ _ _ => rfl, thread, pc⟩
    have away : o' ≠ o := by simpa using Ne.symm other
    simp [State.proceed, State.goto, away]
  refine inv.of_settled elsewhere (.inl ⟨?_, fun t' => ?_, fun t' => ?_, unregistered⟩) inv.keys
    (inv.tally.proceed users)
  · simp [State.proceed, State.goto, users]
  · exact (waiting.batch t').trans (by simp)
  · by_cases mine : t' = t
    · simp [State.proceed, mine, Pc.object]
    · have other := waiting.thread t'
      simpa [State.proceed, mine, Ne.symm mine] using other

theorem Inv.ready (inv : s.Inv) (place : s.pc t = .awaitReady w o) (report : (cls o).Ready) :
    (s.ready t w o report).Inv := by
  obtain ⟨w, users, waiting, rfl, unregistered⟩ := inv.holder place rfl
  have after := inv.setMembers ((cls o).awaitReady (s.object o).members report).1
    ((cls o).awaitReady (s.dictated o) report).1
  simp only [State.ready]
  split
  · exact after
  · exact after.proceed place rfl users unregistered
  · exact after.goto place rfl rfl fun _ fact => fact

theorem Inv.code (inv : s.Inv) (action : s.code t = some u) : u.Inv := by
  unfold State.code at action
  split at action
  case h_1 w o place =>
      cases action
      refine inv.write place rfl rfl rfl rfl fun w' ⟨same, unregistered⟩ => ?_
      exact ⟨by simp [same], by simp [State.goto, same], unregistered⟩
  case h_2 site o ec place => cases action; exact inv.refuse place
  case h_3 w o place =>
      cases action
      obtain ⟨w', users, _, same, _, unregistered⟩ := inv.holder place rfl
      obtain rfl := same w rfl
      exact inv.proceed place rfl users unregistered
  case h_4 o place =>
      cases action
      exact inv.goto place rfl rfl fun _ fact => fact.2
  case h_5 place =>
      cases action
      exact inv.away s.bufferSize (place ▸ rfl) rfl
  case h_6 o place =>
      obtain ⟨w, awaits, rfl⟩ := Option.map_eq_some_iff.mp action
      obtain ⟨w', users, _, awaiter, unregistered⟩ := inv.holder place rfl
      obtain rfl : w = w' := Option.some.inj (awaits.symm.trans awaiter)
      exact inv.proceed place rfl users unregistered
  case h_7 => cases action

theorem Inv.go (inv : s.Inv) (action : s.go t = some u) : u.Inv := by
  unfold State.go at action
  split at action
  case h_1 site o place => cases action; exact inv.suspend place
  case h_2 o place => cases action; exact inv.remove place
  case h_3 o context id place => cases action; exact inv.del place
  case h_4 o place =>
      cases action
      refine inv.write place rfl rfl rfl rfl fun w ⟨awaiter, unregistered⟩ => ?_
      exact ⟨by simpa [State.goto] using awaiter, unregistered⟩
  case h_5 => exact inv.code action

def Exclusive (s : Epoll cls T W) : Action cls T W → Prop
  | .await _ _ o => s.users o = []
  | _ => True

theorem Inv.step {a : Action cls T W} (inv : s.Inv) (exclusive : s.Exclusive a)
    (action : s.step a = some u) : u.Inv := by
  cases a with
  | operation t w o context socket members =>
      simp only [State.step, provided_eq_some] at action
      obtain ⟨⟨place, _, users, new, _⟩, rfl⟩ := action
      exact (inv.construct users _ _).start place users new
  | await t w o =>
      simp only [State.step, provided_eq_some] at action
      obtain ⟨⟨place, _, new⟩, rfl⟩ := action
      have same : Inv { s with
          dictated := Function.update s.dictated o ((cls o).record (s.object o).members .ok) } :=
        inv.pass (fun _ => rfl) rfl rfl rfl rfl rfl fun _ => .inl rfl
      exact same.start place exclusive new
  | call t o argument =>
      simp only [State.step, provided_eq_some] at action
      obtain ⟨_, rfl⟩ := action
      exact inv.setMembers _ _
  | ready t w o report =>
      simp only [State.step, provided_eq_some] at action
      obtain ⟨place, rfl⟩ := action
      exact inv.ready place report
  | add t result =>
      simp only [State.step] at action
      split at action
      · rename_i site o filter place
        exact inv.add place action
      · cases action
  | resume t o report =>
      simp only [State.step, provided_eq_some] at action
      obtain ⟨place, rfl⟩ := action
      exact inv.resume place report
  | poll t size =>
      simp only [State.step, provided_eq_some] at action
      obtain ⟨⟨place, _⟩, rfl⟩ := action
      exact inv.away _ (place ▸ rfl) rfl
  | deliver t key =>
      simp only [State.step] at action
      split at action
      · rename_i o found
        obtain ⟨⟨place, _⟩, rfl⟩ := provided_eq_some.mp action
        exact inv.deliver place found
      · cases action
  | polled t =>
      simp only [State.step, provided_eq_some] at action
      obtain ⟨place, rfl⟩ := action
      exact inv.away s.bufferSize (place ▸ rfl) rfl
  | dispatch t =>
      simp only [State.step] at action
      split at action
      · rename_i o rest batch
        obtain ⟨place, rfl⟩ := provided_eq_some.mp action
        exact inv.dispatch place batch
      · cases action
  | go t => exact inv.go action

theorem reaches_inv {object : (o : O) → Object W (cls o)}
    (reached : Reaches step Exclusive (create object) s) : s.Inv :=
  reached.invariant (create_inv object) fun _ _ _ inv exclusive action => inv.step exclusive action

end Steps

end State

end Ice.Event
