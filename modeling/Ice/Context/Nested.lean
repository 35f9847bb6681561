import Ice.Context.Current
import Ice.Lib.Simulation

namespace Ice.Context
open Transition

namespace Threads

variable {S I X T : Type} {b : Backend S I} {x : X} {t : T} {frame after : Frame X S I}
  {outer : List (Frame X S I)}

def callAt : List (Frame X S I) → Nat → Option (Frame X S I)
  | frame :: outer, d => if d = outer.length then some frame else callAt outer d
  | [], _ => none

theorem callAt_top : callAt (frame :: outer) outer.length = some frame := if_pos rfl

theorem callAt_beneath {d : Nat} (beneath : d ≠ outer.length) :
    callAt (frame :: outer) d = callAt outer d := if_neg beneath

theorem callAt_beyond {calls : List (Frame X S I)} {d : Nat} (beyond : calls.length ≤ d) :
    callAt calls d = none := by
  induction calls with
  | nil => rfl
  | cons frame outer ih =>
      rw [List.length_cons] at beyond
      rw [callAt_beneath (by omega)]
      exact ih (by omega)

/-- Where the thread that stands for a call of `run` is in `run` of the context `x`. In a callback
the call still has the event. -/
inductive Stands (x : X) : Option (Frame X S I) → RunPc S I → Nat → Prop where
  | absent {ec : ErrorCode} {size : Nat} : Stands x none (.outside ec) size
  | other {frame : Frame X S I} {ec : ErrorCode} {size : Nat} (away : frame.context ≠ x) :
      Stands x (some frame) (.outside ec) size
  | loop {frame : Frame X S I} (here : frame.context = x) (idle : frame.busy = false) :
      Stands x (some frame) frame.pc frame.bufferSize
  | callback {frame : Frame X S I} {ev : Event S I} {rest : List (Entry S I)} {interrupted : Bool}
      (here : frame.context = x) (busy : frame.busy = true)
      (place : frame.pc = .scanning rest interrupted) :
      Stands x (some frame) (.dispatching ev rest interrupted) frame.bufferSize

theorem Stands.idle {pc : RunPc S I} {size : Nat} (stands : Stands x (some frame) pc size)
    (here : frame.context = x) (idle : frame.busy = false) :
    pc = frame.pc ∧ size = frame.bufferSize := by
  cases stands with
  | other away => exact absurd here away
  | loop => exact ⟨rfl, rfl⟩
  | callback _ busy => cases idle.symm.trans busy

theorem Stands.busy {pc : RunPc S I} {size : Nat} (stands : Stands x (some frame) pc size)
    (here : frame.context = x) (busy : frame.busy = true) :
    ∃ ev rest interrupted, frame.pc = .scanning rest interrupted ∧
      pc = .dispatching ev rest interrupted ∧ size = frame.bufferSize := by
  cases stands with
  | other away => exact absurd here away
  | loop _ idle => cases idle.symm.trans busy
  | callback _ _ place => exact ⟨_, _, _, place, rfl, rfl⟩

theorem Stands.elsewhere {pc : RunPc S I} {size : Nat} (stands : Stands x (some frame) pc size)
    (away : frame.context ≠ x) : ∃ ec, pc = .outside ec := by
  cases stands with
  | other => exact ⟨_, rfl⟩
  | loop here => exact absurd here away
  | callback here => exact absurd here away

theorem Stands.outside {pc : RunPc S I} {size : Nat} (stands : Stands x none pc size) :
    ∃ ec, pc = .outside ec := by
  cases stands with
  | absent => exact ⟨_, rfl⟩

def Calls (x : X) (calls : T → List (Frame X S I)) : Set (T × Nat) :=
  {c | ∃ frame, callAt (calls c.1) c.2 = some frame ∧ frame.context = x ∧ frame.pc.Inside}

theorem Stands.inside {call : Option (Frame X S I)} {pc : RunPc S I} {size : Nat}
    (stands : Stands x call pc size) :
    pc.Inside ↔ ∃ frame, call = some frame ∧ frame.context = x ∧ frame.pc.Inside := by
  cases stands with
  | absent => exact iff_of_false id fun ⟨_, same, _⟩ => by cases same
  | other away =>
      refine iff_of_false id ?_
      rintro ⟨_, same, here, _⟩
      cases same
      exact away here
  | loop here =>
      refine ⟨fun inside => ⟨_, rfl, here, inside⟩, ?_⟩
      rintro ⟨_, same, _, inside⟩
      cases same
      exact inside
  | callback here _ place => exact iff_of_true trivial ⟨_, rfl, here, place ▸ trivial⟩

section Stack
variable [DecidableEq T] {calls : T → List (Frame X S I)} {inner : List (Frame X S I)}
  {run : T × Nat → RunPc S I} {size : T × Nat → Nat} {d n : Nat} {pc : RunPc S I}

theorem stands_update (stands : ∀ t d, Stands x (callAt (calls t) d) (run (t, d)) (size (t, d)))
    (others : ∀ e, e ≠ d → callAt inner e = callAt (calls t) e)
    (here : Stands x (callAt inner d) pc n) (r : T) (e : Nat) :
    Stands x (callAt (Function.update calls t inner r) e)
      (Function.update run (t, d) pc (r, e)) (Function.update size (t, d) n (r, e)) := by
  by_cases thread : r = t
  · subst thread
    by_cases depth : e = d
    · subst depth
      simpa using here
    · have apart : (r, e) ≠ (r, d) := fun same => depth (congrArg Prod.snd same)
      rw [Function.update_self, Function.update_of_ne apart, Function.update_of_ne apart,
        others e depth]
      exact stands r e
  · have apart : (r, e) ≠ (t, d) := fun same => thread (congrArg Prod.fst same)
    rw [Function.update_of_ne thread, Function.update_of_ne apart, Function.update_of_ne apart]
    exact stands r e

end Stack

/-- A context of these threads is in the state of one that is run by a thread for each call. -/
structure Seen (x : X) (s : Threads (.ofBackend b) X T) (u : State b (T × Nat) Nat) : Prop where
  kernel : u.kernel = s.kernel x
  state : u.state = s.state x
  calls : ∀ t d, Stands x (callAt (s.calls t) d) (u.run (t, d)) (u.bufferSize (t, d))
  fresh : ∀ w, s.target w = none → u.schedule w = .fresh
  stops : ∃ n, ∀ c, n ≤ c → u.stop c = .uncalled

variable {s r : Threads (.ofBackend b) X T} {u v : State b (T × Nat) Nat}

theorem Seen.inside (seen : Seen x s u) : inside u.run = Calls x s.calls :=
  Set.ext fun c => (seen.calls c.1 c.2).inside

theorem Seen.top (seen : Seen x s u) (calls : s.calls t = frame :: outer) :
    Stands x (some frame) (u.run (t, outer.length)) (u.bufferSize (t, outer.length)) := by
  have stands := seen.calls t outer.length
  rwa [calls, callAt_top] at stands

theorem Seen.of_same (seen : Seen x s u) (kernel : v.kernel = r.kernel x)
    (state : v.state = r.state x) (calls : r.calls = s.calls) (run : v.run = u.run)
    (size : v.bufferSize = u.bufferSize) (target : r.target = s.target)
    (schedule : v.schedule = u.schedule) (stop : v.stop = u.stop) : Seen x r v where
  kernel := kernel
  state := state
  calls := by rw [calls, run, size]; exact seen.calls
  fresh := by rw [target, schedule]; exact seen.fresh
  stops := by rw [stop]; exact seen.stops

theorem callAt_replaced (calls : s.calls t = frame :: outer) (e : Nat) (ne : e ≠ outer.length) :
    callAt (after :: outer) e = callAt (s.calls t) e := by
  rw [calls, callAt_beneath ne, callAt_beneath ne]

theorem callAt_popped (calls : s.calls t = frame :: outer) (e : Nat) (ne : e ≠ outer.length) :
    callAt outer e = callAt (s.calls t) e := by
  rw [calls, callAt_beneath ne]

theorem Seen.continues {w : S} {y : X} {queued : Option (Except Errno Unit)} {ec : ErrorCode}
    (seen : Seen x s u) : Seen x (s.continues t w y queued ec) u :=
  ⟨seen.kernel, seen.state, seen.calls, seen.fresh, seen.stops⟩

theorem Seen.callback {ev : Event S I} (seen : Seen x s u) : Seen x (s.callback t ev) u := by
  unfold Threads.callback
  split
  · split
    · exact seen.continues
    · exact seen
  · exact seen

section Moves
variable [DecidableEq T] {inner : List (Frame X S I)} {d n : Nat} {pc : RunPc S I}

theorem Seen.moved (seen : Seen x s u) (kernel : v.kernel = r.kernel x)
    (state : v.state = r.state x) (calls : r.calls = Function.update s.calls t inner)
    (run : v.run = Function.update u.run (t, d) pc)
    (size : v.bufferSize = Function.update u.bufferSize (t, d) n) (target : r.target = s.target)
    (schedule : v.schedule = u.schedule) (stop : v.stop = u.stop)
    (others : ∀ e, e ≠ d → callAt inner e = callAt (s.calls t) e)
    (here : Stands x (callAt inner d) pc n) : Seen x r v where
  kernel := kernel
  state := state
  calls := by rw [calls, run, size]; exact stands_update seen.calls others here
  fresh := by rw [target, schedule]; exact seen.fresh
  stops := by rw [stop]; exact seen.stops

theorem Seen.goes (seen : Seen x s u) (calls : s.calls t = frame :: outer)
    (kernel : v.kernel = r.kernel x) (state : v.state = r.state x)
    (next : r.calls = Function.update s.calls t (after :: outer))
    (run : v.run = Function.update u.run (t, outer.length) pc)
    (size : v.bufferSize = u.bufferSize) (target : r.target = s.target)
    (schedule : v.schedule = u.schedule) (stop : v.stop = u.stop)
    (here : Stands x (some after) pc (u.bufferSize (t, outer.length))) : Seen x r v := by
  have unchanged : v.bufferSize = Function.update u.bufferSize (t, outer.length)
      (u.bufferSize (t, outer.length)) := by rw [size, Function.update_eq_self]
  refine seen.moved kernel state next run unchanged target schedule stop (callAt_replaced calls) ?_
  rwa [callAt_top]

theorem Seen.elsewhere (seen : Seen x s u) (calls : s.calls t = frame :: outer)
    (next : r.calls = Function.update s.calls t (after :: outer))
    (same : after.context = frame.context) (away : frame.context ≠ x)
    (kernel : r.kernel x = s.kernel x) (state : r.state x = s.state x)
    (target : r.target = s.target) : Seen x r u := by
  obtain ⟨ec, place⟩ := (seen.top calls).elsewhere away
  refine seen.goes calls (seen.kernel.trans kernel.symm) (seen.state.trans state.symm) next
    (Function.update_eq_self _ _).symm rfl target rfl rfl ?_
  rw [place]
  exact .other (same ▸ away)

theorem Seen.loops (seen : Seen x s u) (calls : s.calls t = frame :: outer)
    (here : frame.context = x) (idle : frame.busy = false)
    (room : u.bufferSize (t, outer.length) = frame.bufferSize) (kernel : v.kernel = r.kernel x)
    (state : v.state = r.state x)
    (next : r.calls = Function.update s.calls t ({ frame with pc } :: outer))
    (run : v.run = Function.update u.run (t, outer.length) pc)
    (size : v.bufferSize = u.bufferSize) (target : r.target = s.target)
    (schedule : v.schedule = u.schedule) (stop : v.stop = u.stop) : Seen x r v := by
  refine seen.goes calls kernel state next run size target schedule stop ?_
  rw [room]
  exact .loop here idle

end Moves

section Steps
variable [DecidableEq X] [DecidableEq T] [DecidableEq S] [DecidableEq I]

omit [DecidableEq T] [DecidableEq S] [DecidableEq I] in
theorem kernel_elsewhere {y : X} {kernel : b.Kernel} (away : y ≠ x) :
    (s.setKernel y kernel).kernel x = s.kernel x := Function.update_of_ne (Ne.symm away) _ _

omit [DecidableEq T] [DecidableEq S] [DecidableEq I] in
theorem state_elsewhere {y : X} {state : BitVec 32} (away : y ≠ x) :
    (s.setState y state).state x = s.state x := Function.update_of_ne (Ne.symm away) _ _

def Follows (x : X) (u : State b (T × Nat) Nat) (r : Threads (.ofBackend b) X T) : Prop :=
  ∃ v, Reachable (State.step b) u v ∧ Seen x r v

omit [DecidableEq X] in
theorem Follows.none (seen : Seen x r u) : Follows x u r := ⟨u, .refl, seen⟩

omit [DecidableEq X] in
theorem Follows.one {a : Context.Action (T × Nat) Nat S I} (action : State.step b u a = some v)
    (seen : Seen x r v) : Follows x u r := ⟨v, .single trivial action, seen⟩

theorem follows_run {y : X} {size : Nat} (seen : Seen x s u)
    (taken : Threads.step s (.run t y size) = some r) : Follows x u r := by
  obtain ⟨_, rfl⟩ := provided_eq_some.mp taken
  have stands := seen.calls t (s.calls t).length
  rw [callAt_beyond (Nat.le_refl _)] at stands
  obtain ⟨ec, place⟩ := stands.outside
  by_cases here : y = x
  · subst here
    refine .one (a := .run (t, _) size) (State.step_run.mpr ⟨ec, place, rfl⟩) ?_
    refine seen.moved seen.kernel ?_ rfl rfl rfl rfl rfl rfl (fun _ => callAt_beneath) ?_
    · simp [State.goto, setCalls, setState, seen.state]
    · rw [callAt_top]
      exact .loop rfl rfl
  · refine .none (seen.moved seen.kernel ?_ rfl (Function.update_eq_self _ _).symm
      (Function.update_eq_self _ _).symm rfl rfl rfl (fun _ => callAt_beneath) ?_)
    · simp [setCalls, setState, setIndex, seen.state, Ne.symm here]
    · rw [callAt_top, place]
      exact .other here

omit [DecidableEq X] [DecidableEq T] [DecidableEq S] [DecidableEq I] in
theorem inLoop_idle {next : Frame X S I → List (Frame X S I) → Option (Threads (.ofBackend b) X T)}
    (taken : s.inLoop t next = some r) (calls : s.calls t = frame :: outer) :
    frame.busy = false := by
  unfold inLoop at taken
  rw [calls] at taken
  cases busy : frame.busy with
  | false => rfl
  | true => simp [busy] at taken

omit [DecidableEq X] [DecidableEq T] [DecidableEq S] [DecidableEq I] in
theorem Seen.place {next : Frame X S I → List (Frame X S I) → Option (Threads (.ofBackend b) X T)}
    (seen : Seen x s u) (taken : s.inLoop t next = some r) (calls : s.calls t = frame :: outer)
    (here : frame.context = x) : frame.busy = false ∧ u.run (t, outer.length) = frame.pc ∧
      u.bufferSize (t, outer.length) = frame.bufferSize :=
  have idle := inLoop_idle taken calls
  ⟨idle, (seen.top calls).idle here idle⟩

theorem follows_wait {batch : List (Entry S I)} (seen : Seen x s u)
    (taken : Threads.step s (.wait t batch) = some r) : Follows x u r := by
  obtain ⟨frame, outer, calls, next⟩ := inLoop_eq_some taken
  obtain ⟨⟨waiting, handed⟩, rfl⟩ := provided_eq_some.mp next
  by_cases here : frame.context = x
  · obtain ⟨idle, place, size⟩ := seen.place taken calls here
    subst here
    refine .one (a := .wait (t, outer.length) batch)
      (provided_eq_some.mpr ⟨⟨place.trans waiting, ?_⟩, rfl⟩) ?_
    · rw [size, seen.kernel]
      exact handed
    · refine seen.loops calls rfl idle size ?_ seen.state rfl rfl rfl rfl rfl rfl
      simp [State.goto, setCalls, setKernel, seen.kernel, Queue.ofBackend]
  · exact .none (seen.elsewhere calls rfl rfl here (kernel_elsewhere here) rfl rfl)

theorem follows_waitFailed {errno : Errno} (seen : Seen x s u)
    (taken : Threads.step s (.waitFailed t errno) = some r) : Follows x u r := by
  obtain ⟨frame, outer, calls, next⟩ := inLoop_eq_some taken
  obtain ⟨waiting, rfl⟩ := provided_eq_some.mp next
  cases failed : b.waitError errno with
  | none => simpa [Queue.ofBackend, failed] using Follows.none seen
  | some ec =>
    simp only [Queue.ofBackend, failed]
    by_cases here : frame.context = x
    · obtain ⟨idle, place, size⟩ := seen.place taken calls here
      refine .one (a := .waitFailed (t, outer.length) errno)
        (provided_eq_some.mpr ⟨place.trans waiting, by rw [failed]⟩) ?_
      exact seen.loops calls here idle size seen.kernel seen.state rfl rfl rfl rfl rfl rfl
    · exact .none (seen.elsewhere calls rfl rfl here rfl rfl rfl)

theorem follows_next (seen : Seen x s u) (taken : Threads.step s (.next t) = some r) :
    Follows x u r := by
  obtain ⟨frame, outer, calls, next⟩ := inLoop_eq_some taken
  obtain ⟨pc, further, rfl⟩ := Option.map_eq_some_iff.mp next
  by_cases here : frame.context = x
  · obtain ⟨idle, place, size⟩ := seen.place taken calls here
    refine .one (a := .next (t, outer.length))
      (State.step_next.mpr ⟨pc, (congrArg RunPc.next place).trans further, rfl⟩) ?_
    exact seen.loops calls here idle size seen.kernel seen.state rfl rfl rfl rfl rfl rfl
  · exact .none (seen.elsewhere calls rfl rfl here rfl rfl rfl)

theorem follows_resume (seen : Seen x s u) (taken : Threads.step s (.resume t) = some r) :
    Follows x u r := by
  -- The callback has the event, so the call has not come back from it.
  obtain ⟨frame, outer, calls, next⟩ := inLoop_eq_some taken
  split at next
  · next ev rest interrupted dispatching =>
      cases next
      have told : Seen x (s.callback t ev) u := seen.callback
      have calls' := (congrFun (calls_callback s t ev) t).trans calls
      by_cases here : frame.context = x
      · obtain ⟨idle, place, size⟩ := seen.place taken calls here
        refine .none (told.goes calls' told.kernel told.state rfl
          (Function.update_eq_self _ _).symm rfl rfl rfl rfl ?_)
        rw [place, dispatching, size]
        exact .callback here rfl rfl
      · exact .none (told.elsewhere calls' rfl rfl here rfl rfl rfl)
  · cases next

theorem follows_resumed (seen : Seen x s u) (taken : Threads.step s (.resumed t) = some r) :
    Follows x u r := by
  simp only [Threads.step] at taken
  split at taken
  · next frame outer calls =>
      obtain ⟨busy, rfl⟩ := provided_eq_some.mp taken
      by_cases here : frame.context = x
      · obtain ⟨ev, rest, interrupted, place, dispatching, size⟩ := (seen.top calls).busy here busy
        refine .one (a := .resume (t, outer.length))
          (State.step_resume.mpr ⟨ev, rest, interrupted, dispatching, rfl⟩) ?_
        refine seen.goes calls seen.kernel seen.state rfl rfl rfl rfl rfl rfl ?_
        rw [size, ← place]
        exact .loop here rfl
      · exact .none (seen.elsewhere calls rfl rfl here rfl rfl rfl)
  · cases taken

theorem follows_check (seen : Seen x s u) (taken : Threads.step s (.check t) = some r) :
    Follows x u r := by
  obtain ⟨frame, outer, calls, next⟩ := inLoop_eq_some taken
  obtain ⟨checking, rfl⟩ := provided_eq_some.mp next
  by_cases here : frame.context = x
  · obtain ⟨idle, place, size⟩ := seen.place taken calls here
    subst here
    refine .one (a := .check (t, outer.length))
      (provided_eq_some.mpr ⟨place.trans checking, rfl⟩) ?_
    rw [seen.state]
    exact seen.loops calls rfl idle size seen.kernel seen.state rfl rfl rfl rfl rfl rfl
  · exact .none (seen.elsewhere calls rfl rfl here rfl rfl rfl)

theorem follows_leave (seen : Seen x s u) (taken : Threads.step s (.leave t) = some r) :
    Follows x u r := by
  obtain ⟨frame, outer, calls, next⟩ := inLoop_eq_some taken
  split at next
  · next ec leaving =>
      cases next
      by_cases here : frame.context = x
      · obtain ⟨idle, place, size⟩ := seen.place taken calls here
        subst here
        refine .one (a := .leave (t, outer.length))
          (State.step_leave.mpr ⟨ec, place.trans leaving, rfl⟩) ?_
        refine seen.loops calls rfl idle size seen.kernel ?_ rfl rfl rfl rfl rfl rfl
        simp [State.goto, setCalls, setIndex, setState, seen.state]
      · exact .none (seen.elsewhere calls rfl rfl here rfl (state_elsewhere here) rfl)
  · cases next

theorem follows_close (seen : Seen x s u) (taken : Threads.step s (.close t) = some r) :
    Follows x u r := by
  obtain ⟨frame, outer, calls, next⟩ := inLoop_eq_some taken
  split at next
  · next ec closing =>
      cases next
      have gone : callAt outer outer.length = none := callAt_beyond (Nat.le_refl _)
      by_cases here : frame.context = x
      · obtain ⟨idle, place, size⟩ := seen.place taken calls here
        subst here
        refine .one (a := .close (t, outer.length))
          (State.step_close.mpr ⟨ec, place.trans closing, rfl⟩) ?_
        refine seen.moved ?_ seen.state rfl rfl (Function.update_eq_self _ _).symm rfl rfl rfl
          (callAt_popped calls) ?_
        · simp [State.goto, State.interrupt, setCalls, setKernel, seen.kernel, Queue.ofBackend]
        · rw [gone]
          exact .absent
      · obtain ⟨ec, place⟩ := (seen.top calls).elsewhere here
        refine .none (seen.moved (seen.kernel.trans (kernel_elsewhere here).symm) seen.state rfl
          (Function.update_eq_self _ _).symm (Function.update_eq_self _ _).symm rfl rfl rfl
          (callAt_popped calls) ?_)
        rw [gone, place]
        exact .absent
  · cases next

theorem follows_interrupt {y : X} (seen : Seen x s u) :
    Follows x u (s.setKernel y ((Queue.ofBackend b).post none (s.kernel y))) := by
  by_cases here : y = x
  · subst here
    refine .one (a := .interrupt) rfl
      (seen.of_same ?_ seen.state rfl rfl rfl rfl rfl rfl)
    simp [State.interrupt, setKernel, seen.kernel, Queue.ofBackend]
  · exact .none (seen.of_same (seen.kernel.trans (kernel_elsewhere here).symm) seen.state
      rfl rfl rfl rfl rfl rfl)

theorem follows_notify {y : X} {i : I} (seen : Seen x s u) :
    Follows x u (s.setKernel y ((Queue.ofBackend b).notify i (s.kernel y))) := by
  by_cases here : y = x
  · subst here
    refine .one (a := .notify i) rfl
      (seen.of_same ?_ seen.state rfl rfl rfl rfl rfl rfl)
    simp [setKernel, seen.kernel, Queue.ofBackend]
  · exact .none (seen.of_same (seen.kernel.trans (kernel_elsewhere here).symm) seen.state
      rfl rfl rfl rfl rfl rfl)

theorem follows_stop {y : X} (seen : Seen x s u) :
    Follows x u (s.setState y (s.state y ||| stopRequestedFlag)) := by
  -- Each `stop` is the first step of a new call.
  by_cases here : y = x
  · subst here
    obtain ⟨n, uncalled⟩ := seen.stops
    refine .one (a := .stop n) (provided_eq_some.mpr ⟨uncalled n (Nat.le_refl n), rfl⟩) ?_
    refine ⟨seen.kernel, ?_, seen.calls, seen.fresh, n + 1, fun c later => ?_⟩
    · simp [setState, seen.state]
    · exact (Function.update_of_ne (by omega) _ _).trans (uncalled c (by omega))
  · exact .none (seen.of_same seen.kernel (seen.state.trans (state_elsewhere here).symm)
      rfl rfl rfl rfl rfl rfl)

omit [DecidableEq X] [DecidableEq T] [DecidableEq I] in
theorem Seen.setTarget {w : S} {y : X} (seen : Seen x s u) :
    Seen x { s with target := Function.update s.target w (some y) } u := by
  refine ⟨seen.kernel, seen.state, seen.calls, fun other unused => ?_, seen.stops⟩
  by_cases same : other = w
  · subst same
    simp at unused
  · exact seen.fresh other ((Function.update_of_ne same _ _).symm.trans unused)

theorem follows_schedule {w : S} {y : X} {queue : Bool} {result : Except Errno Unit}
    (seen : Seen x s u) (unused : s.target w = none) :
    Follows x u (s.schedule t w y queue result) := by
  have named : Seen x { s with target := Function.update s.target w (some y) } u := seen.setTarget
  unfold Threads.schedule
  dsimp only
  split
  · exact .none named.continues
  · cases result with
    | error errno => exact .none named.continues
    | ok =>
      by_cases here : y = x
      · subst here
        refine .one (a := .schedule w (.ok ()))
          (provided_eq_some.mpr ⟨seen.fresh w unused, rfl⟩) ?_
        refine ⟨?_, seen.state, seen.calls, fun other none => ?_, seen.stops⟩
        · simp [setKernel, seen.kernel, Queue.ofBackend]
        · by_cases same : other = w
          · subst same
            simp [setKernel] at none
          · exact (Function.update_of_ne same _ _).trans (named.fresh other none)
      · exact .none (named.of_same (seen.kernel.trans (kernel_elsewhere here).symm) seen.state
          rfl rfl rfl rfl rfl rfl)

theorem follows_step {action : Action X T S I} (seen : Seen x s u)
    (taken : Threads.step s action = some r) : Follows x u r := by
  cases action with
  | run t y size => exact follows_run seen taken
  | wait t batch => exact follows_wait seen taken
  | waitFailed t errno => exact follows_waitFailed seen taken
  | next t => exact follows_next seen taken
  | resume t => exact follows_resume seen taken
  | resumed t => exact follows_resumed seen taken
  | check t => exact follows_check seen taken
  | leave t => exact follows_leave seen taken
  | close t => exact follows_close seen taken
  | interrupt y =>
      cases taken
      exact follows_interrupt seen
  | stop y =>
      cases taken
      exact follows_stop seen
  | notify y i =>
      cases taken
      exact follows_notify seen
  | schedule t w y queue result =>
      obtain ⟨⟨_, unused, _⟩, rfl⟩ := provided_eq_some.mp taken
      exact follows_schedule seen unused

theorem reachable_seen (reached : Reachable Threads.step {} s) (x : X) :
    ∃ u, Reachable (State.step b) (State.create b (T × Nat) Nat) u ∧ Seen x s u := by
  refine Reaches.matched (fun s u action r seen taken => follows_step seen taken) ?_ reached
  exact ⟨rfl, rfl, fun _ _ => .absent, fun _ _ => rfl, 0, fun _ _ => rfl⟩

/-- Whatever the threads run and however their calls are nested, a context goes through a run of it
by threads that do not nest, one for each call. Its word counts the calls that are inside. -/
theorem nested_calls_are_threads (s : Threads (.ofBackend b) X T)
    (reached : Reachable Threads.step {} s) (x : X) :
    ∃ u, Reachable (State.step b) (State.create b (T × Nat) Nat) u ∧ Seen x s u ∧
      (Calls x s.calls).Finite ∧
      ∃ stopped, s.state x = word (Calls x s.calls).ncard stopped := by
  obtain ⟨u, run, seen⟩ := reachable_seen reached x
  obtain ⟨stopped, counted⟩ := State.reachable_counted run
  rw [← seen.inside, ← seen.state]
  exact ⟨u, run, seen, counted.finite, stopped, counted.state⟩

end Steps

theorem nested_calls_twice :
    ∃ s : Threads (.ofBackend (epoll Nat Unit)) Bool Bool, s.state true = word 2 false ∧
      ∃ u : State (epoll Nat Unit) (Bool × Nat) Nat,
        Reachable (State.step _) (State.create _ (Bool × Nat) Nat) u ∧
        (∃ ev, u.run (true, 0) = .dispatching ev [] false) ∧ u.run (true, 1) = .waiting := by
  let actions : List (Action Bool Bool Nat Unit) :=
    [.run true true 1, .schedule false 0 true false (.ok ()), .wait true [some (.schedule 0)],
      .next true, .resume true, .run true true 1]
  obtain ⟨s, ran, word, calls⟩ : ∃ s, exec Threads.step
      ({} : Threads (.ofBackend (epoll Nat Unit)) Bool Bool) actions = some s ∧
      s.state true = word 2 false ∧ s.calls true = [
        { context := true, pc := .waiting, bufferSize := 1 },
        { context := true, pc := .scanning [] false, bufferSize := 1, busy := true }] :=
    ⟨_, rfl, rfl, rfl⟩
  obtain ⟨u, run, seen, _⟩ := nested_calls_are_threads s (exec_reachable ran) true
  have stands := seen.calls true
  rw [calls] at stands
  obtain ⟨ev, _, _, place, outer, _⟩ := (stands 0).busy rfl rfl
  cases place
  exact ⟨s, word, u, run, ⟨ev, outer⟩, ((stands 1).idle rfl rfl).1⟩

end Threads

end Ice.Context
