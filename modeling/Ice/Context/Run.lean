import Mathlib.Data.List.ReduceOption
import Mathlib.Data.Set.Card
import Ice.Lib.Transition
import Ice.Context.Backend

/-!
# `context::run`, `interrupt` and `stop`

Any number of threads run one context while others interrupt it, stop it and schedule coroutines on
it. Between two steps of one thread the others may take any steps of theirs.
-/

namespace Ice.Context
open Transition

def stopRequestedFlag : BitVec 32 := 1
def threadCountIncrement : BitVec 32 := 2

/-- Where a thread is in `run`: in the wait for entries, in the loop over its batch, in
`event::await_resume`, before it reads the stop flag, before `fetch_sub`, and before its closing
`interrupt`. -/
inductive RunPc (S I : Type) where
  -- Not in `run`; the last call of it threw `ec`, if that is set.
  | outside (ec : ErrorCode)
  | waiting
  | scanning (rest : List (Entry S I)) (interrupted : Bool)
  | dispatching (ev : Event S I) (rest : List (Entry S I)) (interrupted : Bool)
  | checking
  | leaving (ec : ErrorCode)
  | closing (ec : ErrorCode)
  deriving DecidableEq, Repr

def RunPc.next : RunPc S I → Option (RunPc S I)
  | .scanning (none :: rest) _ => some (.scanning rest true)
  | .scanning (some ev :: rest) interrupted => some (.dispatching ev rest interrupted)
  | .scanning [] interrupted => some (if interrupted then .checking else .waiting)
  | _ => none

def RunPc.held : RunPc S I → List (Event S I)
  | .scanning rest _ => rest.reduceOption
  | .dispatching ev rest _ => ev :: rest.reduceOption
  | _ => []

/-- A wait hands out at least one entry and as many as there is room for, of those that are
pending. -/
def Handed (bufferSize : Nat) (pending batch : List (Entry S I)) : Prop :=
  batch ≠ [] ∧ batch.length ≤ bufferSize ∧ batch.Subperm pending

instance {S I : Type} [DecidableEq S] [DecidableEq I] (bufferSize : Nat)
    (pending batch : List (Entry S I)) : Decidable (Handed bufferSize pending batch) :=
  inferInstanceAs (Decidable (batch ≠ [] ∧ batch.length ≤ bufferSize ∧ batch.Subperm pending))

inductive StopPc where
  | uncalled
  | flagged (threadCount : BitVec 32)
  | returned (stopped : Bool)
  deriving DecidableEq, Repr

inductive Status where
  | fresh
  | suspended
  | failed (ec : ErrorCode)
  deriving DecidableEq, Repr

/-- A context with the threads `T` that may run it, the calls `C` of `stop` and the coroutines `S`
that are scheduled. `removed` and `dispatched` record the events a thread took out of the kernel and
the ones whose `await_resume` has returned. -/
structure State (b : Backend S I) (T C : Type) where
  kernel : b.Kernel
  state : BitVec 32 := 0
  run : T → RunPc S I := fun _ => .outside .ok
  bufferSize : T → Nat := fun _ => 0
  stop : C → StopPc := fun _ => .uncalled
  schedule : S → Status := fun _ => .fresh
  resumed : S → Nat := fun _ => 0
  removed : T → List (Event S I) := fun _ => []
  dispatched : T → List (Event S I) := fun _ => []

inductive Action (T C S I : Type) where
  | run (t : T) (eventBufferSize : Nat)
  | wait (t : T) (batch : List (Entry S I))
  | waitFailed (t : T) (errno : Errno)
  | next (t : T)
  | resume (t : T)
  | check (t : T)
  | leave (t : T)
  | close (t : T)
  | interrupt
  | stop (c : C)
  | stopInterrupt (c : C)
  | schedule (e : S) (result : Except Errno Unit)
  | notify (i : I)
  deriving Repr

namespace State

variable {S I T C : Type} {b : Backend S I}

def create (b : Backend S I) (T C : Type) : State b T C := { kernel := b.create }

def interrupt (s : State b T C) : State b T C := { s with kernel := b.post none s.kernel }

variable [DecidableEq T]

def goto (s : State b T C) (t : T) (pc : RunPc S I) : State b T C :=
  { s with run := Function.update s.run t pc }

@[simp] theorem goto_run (s : State b T C) (t : T) (pc : RunPc S I) :
    (s.goto t pc).run = Function.update s.run t pc := rfl

variable [DecidableEq S]

def resumeAwaiter (resumed : S → Nat) : Event S I → S → Nat
  | .schedule e => Function.update resumed e (resumed e + 1)
  | .io _ => resumed

variable [DecidableEq I] [DecidableEq C]

def step (b : Backend S I) (s : State b T C) : Action T C S I → Option (State b T C)
  | .run t eventBufferSize =>
      match s.run t with
      | .outside _ =>
          some ({ s with
            state := s.state + threadCountIncrement
            bufferSize := Function.update s.bufferSize t eventBufferSize }.goto t .waiting)
      | _ => none
  | .wait t batch =>
      provided (s.run t = .waiting ∧ Handed (s.bufferSize t) (b.pending s.kernel) batch)
        ({ s with
          kernel := b.remove batch s.kernel
          removed := Function.update s.removed t (s.removed t ++ batch.reduceOption) }.goto t
            (.scanning batch false))
  | .waitFailed t errno =>
      provided (s.run t = .waiting) <|
        match b.waitError errno with
        | none => s
        | some ec => s.goto t (.leaving ec)
  | .next t => (s.run t).next.map (s.goto t)
  | .resume t =>
      match s.run t with
      | .dispatching ev rest interrupted =>
          some ({ s with
            resumed := resumeAwaiter s.resumed ev
            dispatched := Function.update s.dispatched t (s.dispatched t ++ [ev]) }.goto t
              (.scanning rest interrupted))
      | _ => none
  | .check t =>
      provided (s.run t = .checking)
        (s.goto t (if s.state &&& stopRequestedFlag ≠ 0 then .leaving .ok else .waiting))
  | .leave t =>
      match s.run t with
      | .leaving ec => some ({ s with state := s.state - threadCountIncrement }.goto t (.closing ec))
      | _ => none
  | .close t =>
      match s.run t with
      | .closing ec => some (s.interrupt.goto t (.outside ec))
      | _ => none
  | .interrupt => some s.interrupt
  | .stop c =>
      provided (s.stop c = .uncalled)
        { s with
          state := s.state ||| stopRequestedFlag
          stop := Function.update s.stop c (.flagged (s.state / threadCountIncrement)) }
  | .stopInterrupt c =>
      match s.stop c with
      | .flagged threadCount =>
          some { s.interrupt with
            stop := Function.update s.stop c (.returned (threadCount == 0)) }
      | _ => none
  | .schedule e result =>
      provided (s.schedule e = .fresh) <|
        match result with
        | .ok () =>
            { s with
              kernel := b.post (some e) s.kernel
              schedule := Function.update s.schedule e .suspended }
        | .error errno =>
            { s with schedule := Function.update s.schedule e (.failed (.native errno)) }
  | .notify i => some { s with kernel := b.notify i s.kernel }

/-! ## What a step does -/

section Steps
variable {s u : State b T C} {t : T}

theorem step_run {size : Nat} : step b s (.run t size) = some u ↔
    ∃ ec, s.run t = .outside ec ∧ { s with
      state := s.state + threadCountIncrement
      bufferSize := Function.update s.bufferSize t size }.goto t .waiting = u := by
  simp only [step]
  split <;> simp_all

theorem step_next : step b s (.next t) = some u ↔
    ∃ pc, (s.run t).next = some pc ∧ s.goto t pc = u := by
  simp [step]

theorem step_resume : step b s (.resume t) = some u ↔
    ∃ ev rest interrupted, s.run t = .dispatching ev rest interrupted ∧
      { s with
        resumed := resumeAwaiter s.resumed ev
        dispatched := Function.update s.dispatched t (s.dispatched t ++ [ev]) }.goto t
          (.scanning rest interrupted) = u := by
  simp only [step]
  split
  · rename_i ev rest interrupted place
    refine ⟨fun next => ⟨ev, rest, interrupted, place, Option.some.inj next⟩, ?_⟩
    rintro ⟨ev, rest, interrupted, same, rfl⟩
    cases place.symm.trans same
    rfl
  · rename_i other
    exact iff_of_false nofun fun ⟨ev, rest, interrupted, place, _⟩ =>
      other ev rest interrupted place

theorem step_leave : step b s (.leave t) = some u ↔
    ∃ ec, s.run t = .leaving ec ∧
      { s with state := s.state - threadCountIncrement }.goto t (.closing ec) = u := by
  simp only [step]
  split <;> simp_all

theorem step_close : step b s (.close t) = some u ↔
    ∃ ec, s.run t = .closing ec ∧ s.interrupt.goto t (.outside ec) = u := by
  simp only [step]
  split <;> simp_all

theorem step_stopInterrupt {c : C} : step b s (.stopInterrupt c) = some u ↔
    ∃ threadCount, s.stop c = .flagged threadCount ∧
      { s.interrupt with stop := Function.update s.stop c (.returned (threadCount == 0)) } = u := by
  simp only [step]
  split <;> simp_all

end Steps

/-! ## The word with the stop flag and the thread count -/

end State

def RunPc.Inside : RunPc S I → Prop
  | .outside _ | .closing _ => False
  | _ => True

def inside (run : T → RunPc S I) : Set T := {t | (run t).Inside}

section Inside
variable [DecidableEq T] {run : T → RunPc S I} {t : T} {pc : RunPc S I}

theorem inside_same (same : (run t).Inside ↔ pc.Inside) :
    inside (Function.update run t pc) = inside run := by
  ext other
  by_cases moved : other = t
  · subst moved
    simp [inside, same]
  · simp [inside, moved]

theorem inside_enter (enters : pc.Inside) :
    inside (Function.update run t pc) = insert t (inside run) := by
  ext other
  by_cases moved : other = t
  · subst moved
    simp [inside, enters]
  · simp [inside, moved]

theorem inside_leave (leaves : ¬ pc.Inside) :
    inside (Function.update run t pc) = inside run \ {t} := by
  ext other
  by_cases moved : other = t
  · subst moved
    simp [inside, leaves]
  · simp [inside, moved]

end Inside

theorem RunPc.next_held {pc after : RunPc S I} (next : pc.next = some after) :
    after.held = pc.held := by
  unfold RunPc.next at next
  split at next
  · cases next; rfl
  · cases next; rfl
  · cases next
    split <;> rfl
  · cases next

theorem RunPc.next_inside {pc after : RunPc S I} (next : pc.next = some after) :
    pc.Inside ∧ after.Inside := by
  unfold RunPc.next at next
  split at next
  · cases next; exact ⟨trivial, trivial⟩
  · cases next; exact ⟨trivial, trivial⟩
  · cases next
    refine ⟨trivial, ?_⟩
    split <;> trivial
  · cases next

def word (threads : Nat) (stopped : Bool) : BitVec 32 :=
  BitVec.ofNat 32 (2 * threads + stopped.toNat)

@[simp] theorem threadCountIncrement_toNat : threadCountIncrement.toNat = 2 := rfl
@[simp] theorem stopRequestedFlag_toNat : stopRequestedFlag.toNat = 1 := rfl

theorem word_add (n : Nat) (f : Bool) : word n f + threadCountIncrement = word (n + 1) f := by
  apply BitVec.eq_of_toNat_eq
  simp only [word, threadCountIncrement_toNat, BitVec.toNat_add, BitVec.toNat_ofNat]
  omega

theorem word_sub (n : Nat) (f : Bool) : word (n + 1) f - threadCountIncrement = word n f := by
  rw [← word_add, BitVec.add_sub_cancel]

theorem or_one (m : Nat) : m ||| 1 = 2 * (m / 2) + 1 := by
  have half : (m ||| 1) / 2 = m / 2 := by simp [Nat.or_div_two]
  have odd : (m ||| 1) % 2 = 1 := by simp
  omega

theorem word_or (n : Nat) (f : Bool) : word n f ||| stopRequestedFlag = word n true := by
  apply BitVec.eq_of_toNat_eq
  have bit := f.toNat_lt
  simp only [word, stopRequestedFlag_toNat, BitVec.toNat_or, BitVec.toNat_ofNat, Bool.toNat_true,
    or_one]
  omega

theorem word_and (n : Nat) (f : Bool) : word n f &&& stopRequestedFlag ≠ 0 ↔ f = true := by
  rw [Ne, ← BitVec.toNat_inj]
  cases f <;> simp [word, stopRequestedFlag]

theorem word_div {n : Nat} (f : Bool) (fits : n < 2 ^ 31) :
    (word n f / threadCountIncrement).toNat = n := by
  have bit := f.toNat_lt
  simp only [word, threadCountIncrement_toNat, BitVec.toNat_udiv, BitVec.toNat_ofNat]
  omega

namespace State

variable {S I T C : Type} {b : Backend S I} {s u : State b T C} {a : Action T C S I} {t : T}
  {pc : RunPc S I}

def StopRequested (s : State b T C) : Prop := ∃ c, s.stop c ≠ .uncalled

structure Counted (s : State b T C) (stopped : Bool) : Prop where
  finite : (inside s.run).Finite
  state : s.state = word (inside s.run).ncard stopped
  flag : stopped = true ↔ s.StopRequested

theorem Counted.of_same {stopped : Bool} (counted : Counted s stopped)
    (threads : inside u.run = inside s.run) (state : u.state = s.state) (stop : u.stop = s.stop) :
    Counted u stopped :=
  ⟨threads ▸ counted.finite, by rw [state, threads, counted.state],
    by rw [StopRequested, stop]; exact counted.flag⟩

theorem create_counted : Counted (create b T C) false where
  finite := by simp [inside, create, RunPc.Inside]
  state := by simp [inside, create, RunPc.Inside, word]
  flag := by simp [StopRequested, create]

variable [DecidableEq T]

variable [DecidableEq S] [DecidableEq I] [DecidableEq C]

theorem counted_step {stopped : Bool} (counted : Counted s stopped)
    (action : step b s a = some u) : ∃ stopped, Counted u stopped := by
  cases a with
  | run t size =>
      obtain ⟨ec, place, rfl⟩ := step_run.mp action
      have absent : t ∉ inside s.run := by simp [inside, place, RunPc.Inside]
      have more : inside (Function.update s.run t .waiting) = insert t (inside s.run) :=
        inside_enter trivial
      refine ⟨stopped, ?_, ?_, counted.flag⟩
      all_goals rw [goto_run, more]
      · exact counted.finite.insert t
      · rw [Set.ncard_insert_of_notMem absent counted.finite, ← word_add, ← counted.state]
        rfl
  | wait t batch =>
      simp only [step, provided_eq_some] at action
      obtain ⟨⟨place, _⟩, rfl⟩ := action
      exact ⟨stopped, counted.of_same (inside_same (by simp [place, RunPc.Inside])) rfl rfl⟩
  | waitFailed t errno =>
      simp only [step, provided_eq_some] at action
      obtain ⟨place, next⟩ := action
      split at next <;> subst next
      · exact ⟨stopped, counted⟩
      · exact ⟨stopped, counted.of_same (inside_same (by simp [place, RunPc.Inside])) rfl rfl⟩
  | next t =>
      obtain ⟨pc, next, rfl⟩ := step_next.mp action
      obtain ⟨before, after⟩ := RunPc.next_inside next
      exact ⟨stopped, counted.of_same (inside_same (iff_of_true before after)) rfl rfl⟩
  | resume t =>
      obtain ⟨ev, rest, interrupted, place, rfl⟩ := step_resume.mp action
      exact ⟨stopped, counted.of_same (inside_same (by simp [place, RunPc.Inside])) rfl rfl⟩
  | check t =>
      simp only [step, provided_eq_some] at action
      obtain ⟨place, rfl⟩ := action
      refine ⟨stopped, counted.of_same (inside_same ?_) rfl rfl⟩
      split <;> simp [place, RunPc.Inside]
  | leave t =>
      obtain ⟨ec, place, rfl⟩ := step_leave.mp action
      have member : t ∈ inside s.run := by simp [inside, place, RunPc.Inside]
      refine ⟨stopped, ?_, ?_, counted.flag⟩
      all_goals rw [goto_run, inside_leave id]
      · exact counted.finite.sdiff
      · rw [← word_sub, Set.ncard_sdiff_singleton_add_one member counted.finite, ← counted.state]
        rfl
  | close t =>
      obtain ⟨ec, place, rfl⟩ := step_close.mp action
      exact ⟨stopped, counted.of_same
        (inside_same (by simp [interrupt, place, RunPc.Inside])) rfl rfl⟩
  | interrupt =>
      cases action
      exact ⟨stopped, counted.of_same rfl rfl rfl⟩
  | stop c =>
      simp only [step, provided_eq_some] at action
      obtain ⟨_, rfl⟩ := action
      refine ⟨true, counted.finite, ?_, ?_⟩
      · rw [← word_or _ stopped, ← counted.state]
      · exact iff_of_true rfl ⟨c, by simp⟩
  | stopInterrupt c =>
      obtain ⟨threadCount, place, rfl⟩ := step_stopInterrupt.mp action
      refine ⟨stopped, counted.finite, counted.state, ?_⟩
      have requested : s.StopRequested := ⟨c, by simp [place]⟩
      exact iff_of_true (counted.flag.mpr requested) ⟨c, by simp⟩
  | schedule e result =>
      simp only [step, provided_eq_some] at action
      obtain ⟨_, next⟩ := action
      split at next <;> subst next <;> exact ⟨stopped, counted.of_same rfl rfl rfl⟩
  | notify i =>
      cases action
      exact ⟨stopped, counted.of_same rfl rfl rfl⟩

/-! ## Dispatch -/

def Accounted (s : State b T C) : Prop :=
  ∀ t, s.removed t = s.dispatched t ++ (s.run t).held

omit [DecidableEq S] [DecidableEq I] [DecidableEq C] in
theorem Accounted.goto (accounted : Accounted s) (same : pc.held = (s.run t).held)
    (removed : u.removed = s.removed) (dispatched : u.dispatched = s.dispatched)
    (run : u.run = s.run) : Accounted (u.goto t pc) := by
  intro other
  have before := accounted other
  by_cases moved : other = t
  · subst moved
    simpa [State.goto, removed, dispatched, same] using before
  · simpa [State.goto, removed, dispatched, run, moved] using before

theorem accounted_step (accounted : Accounted s) (action : step b s a = some u) :
    Accounted u := by
  cases a with
  | run t size =>
      obtain ⟨ec, place, rfl⟩ := step_run.mp action
      exact accounted.goto (by rw [place]; rfl) rfl rfl rfl
  | wait t batch =>
      simp only [step, provided_eq_some] at action
      obtain ⟨⟨place, _⟩, rfl⟩ := action
      intro other
      have before := accounted other
      by_cases moved : other = t
      · subst moved
        rw [place] at before
        simp [State.goto, before, RunPc.held]
      · simpa [State.goto, moved] using before
  | waitFailed t errno =>
      simp only [step, provided_eq_some] at action
      obtain ⟨place, next⟩ := action
      split at next <;> subst next
      · exact accounted
      · exact accounted.goto (by rw [place]; rfl) rfl rfl rfl
  | next t =>
      obtain ⟨pc, next, rfl⟩ := step_next.mp action
      exact accounted.goto (RunPc.next_held next) rfl rfl rfl
  | resume t =>
      obtain ⟨ev, rest, interrupted, place, rfl⟩ := step_resume.mp action
      intro other
      have before := accounted other
      by_cases moved : other = t
      · subst moved
        rw [place] at before
        simp [State.goto, before, RunPc.held]
      · simpa [State.goto, moved] using before
  | check t =>
      simp only [step, provided_eq_some] at action
      obtain ⟨place, rfl⟩ := action
      refine accounted.goto ?_ rfl rfl rfl
      split <;> rw [place] <;> rfl
  | leave t =>
      obtain ⟨ec, place, rfl⟩ := step_leave.mp action
      exact accounted.goto (by rw [place]; rfl) rfl rfl rfl
  | close t =>
      obtain ⟨ec, place, rfl⟩ := step_close.mp action
      exact accounted.goto (by rw [place]; rfl) rfl rfl rfl
  | stopInterrupt c =>
      obtain ⟨threadCount, place, rfl⟩ := step_stopInterrupt.mp action
      exact accounted
  | interrupt | notify i =>
      cases action
      exact accounted
  | stop c =>
      simp only [step, provided_eq_some] at action
      obtain ⟨_, rfl⟩ := action
      exact accounted
  | schedule e result =>
      simp only [step, provided_eq_some] at action
      obtain ⟨_, next⟩ := action
      split at next <;> subst next <;> exact accounted

theorem reachable_accounted (reached : Reachable (step b) (create b T C) s) : Accounted s :=
  reached.invariant (fun _ => rfl) fun _ _ _ accounted _ action => accounted_step accounted action

theorem reachable_counted (reached : Reachable (step b) (create b T C) s) :
    ∃ stopped, Counted s stopped := by
  induction reached with
  | refl => exact ⟨false, create_counted⟩
  | tail _ _ action ih =>
      obtain ⟨stopped, counted⟩ := ih
      exact counted_step counted action

end State

end Ice.Context
