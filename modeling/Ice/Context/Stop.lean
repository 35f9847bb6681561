import Ice.Context.Run

namespace Ice.Context
open Transition

variable {S I T C : Type}

def RunPc.Unanswered : RunPc S I → Prop
  | .scanning rest interrupted | .dispatching _ rest interrupted =>
      interrupted = true ∨ none ∈ rest
  | .checking => True
  | _ => False

def RunPc.Exiting : RunPc S I → Prop
  | .leaving _ | .closing _ => True
  | _ => False

def RunPc.Carries (pc : RunPc S I) : Prop := pc.Unanswered ∨ pc.Exiting

theorem RunPc.next_unanswered {pc after : RunPc S I} (next : pc.next = some after) :
    after.Unanswered ↔ pc.Unanswered := by
  unfold RunPc.next at next
  split at next
  · cases next; simp [Unanswered]
  · cases next; simp [Unanswered]
  · rename_i interrupted
    cases next
    cases interrupted <;> simp [Unanswered]
  · cases next

def RunPc.loopSteps : RunPc S I → Nat
  | .scanning rest _ => 2 * rest.length + 2
  | .dispatching _ rest _ => 2 * rest.length + 3
  | .checking => 1
  | _ => 0

theorem RunPc.next_loopSteps {pc after : RunPc S I} (next : pc.next = some after) :
    after.loopSteps < pc.loopSteps := by
  unfold RunPc.next at next
  split at next
  · cases next; simp [loopSteps]
  · cases next; simp only [loopSteps, List.length_cons]; omega
  · rename_i interrupted
    cases next
    cases interrupted <;> simp [loopSteps]
  · cases next

theorem RunPc.scanning_next (rest : List (Entry S I)) (interrupted : Bool) :
    ∃ pc, (scanning rest interrupted).next = some pc := by
  cases rest with
  | nil => exact ⟨_, rfl⟩
  | cons entry rest => cases entry <;> exact ⟨_, rfl⟩

namespace State

variable [DecidableEq T] {b : Backend S I} {s u : State b T C} {a : Action T C S I} {t : T}
  {pc : RunPc S I}

def Stopped (s : State b T C) : Prop := ∃ c stopped, s.stop c = .returned stopped

/-- A null entry is with the kernel, or some thread has one to answer or to post. -/
def Relay (s : State b T C) : Prop :=
  none ∈ b.pending s.kernel ∨ ∃ t, (s.run t).Carries

/-- The step does not take the last null entry away after a `stop`. Only a `schedule` could, where
posting overwrites. -/
def Leaves (s : State b T C) : Action T C S I → Prop
  | .schedule _ (.ok ()) => s.Stopped → none ∈ b.pending s.kernel →
      none ∈ b.kept s.kernel ∨ ∃ t, (s.run t).Carries
  | _ => True

omit [DecidableEq T] in
theorem Relay.interrupt (kernel : u.kernel = b.post none s.kernel) : Relay u := by
  left
  rw [kernel, (b.pending_post none s.kernel).mem_iff]
  simp [posted]

theorem Relay.goto (relay : Relay s) (kernel : u.kernel = s.kernel) (run : u.run = s.run)
    (carries : (s.run t).Carries → pc.Carries) : Relay (u.goto t pc) := by
  rcases relay with waiting | ⟨other, carried⟩
  · exact .inl (kernel ▸ waiting)
  · refine .inr ⟨other, ?_⟩
    by_cases moved : other = t
    · subst moved
      simpa using carries carried
    · simpa [run, moved] using carried

variable [DecidableEq C] [DecidableEq S] [DecidableEq I]

/-! ## The loop over a batch -/

def InLoop (t : T) : Action T C S I → Prop
  | .next other | .resume other | .check other => other = t
  | _ => False

structure BatchDone (t : T) (s u : State b T C) : Prop where
  held : (u.run t).held = []
  answered : ¬ (u.run t).Unanswered
  dispatched : u.dispatched t = s.dispatched t ++ (s.run t).held
  kernel : u.kernel = s.kernel
  left : (s.run t).Unanswered →
    u.run t = if s.state &&& stopRequestedFlag ≠ 0 then .leaving .ok else .waiting

structure InBatch (t : T) (s v : State b T C) : Prop where
  dispatched : v.dispatched t ++ (v.run t).held = s.dispatched t ++ (s.run t).held
  unanswered : (v.run t).Unanswered ↔ (s.run t).Unanswered
  kernel : v.kernel = s.kernel
  state : v.state = s.state

omit [DecidableEq T] [DecidableEq C] [DecidableEq S] [DecidableEq I] in
theorem InBatch.done {v : State b T C} (kept : InBatch t s v) (done : BatchDone t v u) :
    BatchDone t s u where
  held := done.held
  answered := done.answered
  dispatched := done.dispatched.trans kept.dispatched
  kernel := done.kernel.trans kept.kernel
  left unanswered := kept.state ▸ done.left (kept.unanswered.mpr unanswered)

theorem next_inBatch (action : step b s (.next t) = some u) :
    InBatch t s u ∧ (u.run t).loopSteps < (s.run t).loopSteps := by
  obtain ⟨pc, next, rfl⟩ := step_next.mp action
  constructor
  · constructor
    · simp [goto, RunPc.next_held next]
    · simp [RunPc.next_unanswered next]
    · rfl
    · rfl
  · simpa using RunPc.next_loopSteps next

theorem resume_inBatch (action : step b s (.resume t) = some u) :
    InBatch t s u ∧ (u.run t).loopSteps < (s.run t).loopSteps := by
  obtain ⟨ev, rest, interrupted, place, rfl⟩ := step_resume.mp action
  constructor
  · constructor
    · simp [goto, place, RunPc.held]
    · simp [place, RunPc.Unanswered]
    · rfl
    · rfl
  · simp [place, RunPc.loopSteps]

theorem check_batchDone (place : s.run t = .checking) :
    ∃ u, step b s (.check t) = some u ∧ BatchDone t s u := by
  refine ⟨_, by simp only [step, provided_eq_some]; exact ⟨place, rfl⟩, ?_⟩
  constructor
  · rw [goto_run, Function.update_self]
    split <;> rfl
  · rw [goto_run, Function.update_self]
    split <;> exact id
  · simp [goto, place, RunPc.held]
  · rfl
  · simp

theorem loop_ends (s : State b T C) (t : T) :
    ∃ u, Reaches (step b) (fun _ => InLoop t) s u ∧ BatchDone t s u := by
  induction steps : (s.run t).loopSteps using Nat.strong_induction_on generalizing s with
  | _ n ih =>
      subst steps
      have further : ∀ {v : State b T C} {a : Action T C S I}, InLoop t a →
          step b s a = some v → InBatch t s v ∧ (v.run t).loopSteps < (s.run t).loopSteps →
          ∃ u, Reaches (step b) (fun _ => InLoop t) s u ∧ BatchDone t s u := by
        rintro v a own action ⟨kept, less⟩
        obtain ⟨u, reached, done⟩ := ih _ less v rfl
        have first : Reaches (step b) (fun _ => InLoop t) s v := .single own action
        exact ⟨u, first.trans reached, kept.done done⟩
      cases place : s.run t with
      | scanning rest interrupted =>
          obtain ⟨pc, next⟩ := RunPc.scanning_next rest interrupted
          have action : step b s (.next t) = some (s.goto t pc) :=
            step_next.mpr ⟨pc, by rw [place, next], rfl⟩
          exact further (show InLoop t (.next t) from rfl) action (next_inBatch action)
      | dispatching ev rest interrupted =>
          have action := step_resume.mpr ⟨ev, rest, interrupted, place, rfl⟩
          exact further (show InLoop t (.resume t) from rfl) action (resume_inBatch action)
      | checking =>
          obtain ⟨u, action, done⟩ := check_batchDone place
          exact ⟨u, .single (show InLoop t (.check t) from rfl) action, done⟩
      | _ =>
          refine ⟨s, .refl, ?_, ?_, ?_, rfl, ?_⟩
          all_goals simp [place, RunPc.held, RunPc.Unanswered]

/-! ## The relay -/

theorem relay_step (counted : ∃ flag, Counted s flag) (stopped : s.Stopped) (relay : Relay s)
    (leaves : Leaves s a) (action : step b s a = some u) : Relay u := by
  obtain ⟨flag, counted⟩ := counted
  cases a with
  | run t size =>
      obtain ⟨ec, place, rfl⟩ := step_run.mp action
      exact relay.goto rfl rfl (by simp [place, RunPc.Carries, RunPc.Unanswered, RunPc.Exiting])
  | wait t batch =>
      simp only [step, provided_eq_some] at action
      obtain ⟨⟨place, _, _, available⟩, rfl⟩ := action
      rcases relay with waiting | ⟨other, carried⟩
      · rw [← (b.pending_remove available).mem_iff, List.mem_append] at waiting
        rcases waiting with taken | left
        · exact .inr ⟨t, .inl (by simpa [RunPc.Unanswered] using taken)⟩
        · exact .inl left
      · have moved : other ≠ t := by
          rintro rfl
          simp [place, RunPc.Carries, RunPc.Unanswered, RunPc.Exiting] at carried
        exact .inr ⟨other, by simpa [moved] using carried⟩
  | waitFailed t errno =>
      simp only [step, provided_eq_some] at action
      obtain ⟨place, next⟩ := action
      split at next <;> subst next
      · exact relay
      · exact relay.goto rfl rfl fun _ => .inr trivial
  | next t =>
      obtain ⟨pc, next, rfl⟩ := step_next.mp action
      apply relay.goto rfl rfl
      rintro (unanswered | exiting)
      · exact .inl ((RunPc.next_unanswered next).mpr unanswered)
      · cases place : s.run t <;> simp_all [RunPc.next, RunPc.Exiting]
  | resume t =>
      obtain ⟨ev, rest, interrupted, place, rfl⟩ := step_resume.mp action
      exact relay.goto rfl rfl (by simp [place, RunPc.Carries, RunPc.Unanswered, RunPc.Exiting])
  | check t =>
      simp only [step, provided_eq_some] at action
      obtain ⟨place, rfl⟩ := action
      -- The flag has been set before the first `stop` returned.
      have set : s.state &&& stopRequestedFlag ≠ 0 := by
        obtain ⟨c, result, returned⟩ := stopped
        rw [counted.state, word_and, counted.flag]
        exact ⟨c, by simp [returned]⟩
      rw [if_pos set]
      exact relay.goto rfl rfl fun _ => .inr trivial
  | leave t =>
      obtain ⟨ec, place, rfl⟩ := step_leave.mp action
      exact relay.goto rfl rfl fun _ => .inr trivial
  | close t =>
      obtain ⟨ec, place, rfl⟩ := step_close.mp action
      exact .interrupt rfl
  | interrupt =>
      cases action
      exact .interrupt rfl
  | stop c =>
      simp only [step, provided_eq_some] at action
      obtain ⟨_, rfl⟩ := action
      exact relay
  | stopInterrupt c =>
      obtain ⟨threadCount, place, rfl⟩ := step_stopInterrupt.mp action
      exact .interrupt rfl
  | schedule e result =>
      simp only [step, provided_eq_some] at action
      obtain ⟨_, next⟩ := action
      cases result with
      | error errno =>
          subst next
          exact relay
      | ok _ =>
          subst next
          have carried : none ∈ b.kept s.kernel ∨ ∃ t, (s.run t).Carries := by
            rcases relay with waiting | carried
            · exact leaves stopped waiting
            · exact .inr carried
          refine carried.imp (fun kept => ?_) id
          exact (b.pending_post (some e) s.kernel).mem_iff.mpr (by simp [kept])
  | notify i =>
      cases action
      refine relay.imp (fun waiting => ?_) id
      exact (b.pending_notify i s.kernel).mem_iff.mpr (by simp [waiting])

theorem stopped_step (action : step b s a = some u) (stopped : u.Stopped) :
    s.Stopped ∨ Relay u := by
  obtain ⟨c, result, returned⟩ := stopped
  cases a with
  | stopInterrupt c =>
      obtain ⟨threadCount, place, rfl⟩ := step_stopInterrupt.mp action
      exact .inr (.interrupt rfl)
  | stop c' =>
      simp only [step, provided_eq_some] at action
      obtain ⟨_, rfl⟩ := action
      by_cases same : c = c'
      · subst same
        simp at returned
      · exact .inl ⟨c, result, by simpa [same] using returned⟩
  | run t size =>
      obtain ⟨ec, place, rfl⟩ := step_run.mp action
      exact .inl ⟨c, result, returned⟩
  | next t =>
      obtain ⟨pc, next, rfl⟩ := step_next.mp action
      exact .inl ⟨c, result, returned⟩
  | resume t =>
      obtain ⟨ev, rest, interrupted, place, rfl⟩ := step_resume.mp action
      exact .inl ⟨c, result, returned⟩
  | leave t =>
      obtain ⟨ec, place, rfl⟩ := step_leave.mp action
      exact .inl ⟨c, result, returned⟩
  | close t =>
      obtain ⟨ec, place, rfl⟩ := step_close.mp action
      exact .inl ⟨c, result, returned⟩
  | wait | check =>
      simp only [step, provided_eq_some] at action
      obtain ⟨_, rfl⟩ := action
      exact .inl ⟨c, result, returned⟩
  | waitFailed | schedule =>
      simp only [step, provided_eq_some] at action
      obtain ⟨_, next⟩ := action
      split at next <;> subst next <;> exact .inl ⟨c, result, returned⟩
  | interrupt | notify =>
      cases action
      exact .inl ⟨c, result, returned⟩

theorem reaches_relay (reached : Reaches (step b) Leaves (create b T C) s) :
    s.Stopped → Relay s := by
  induction reached with
  | refl =>
      rintro ⟨c, result, returned⟩
      simp [create] at returned
  | tail reached leaves action ih =>
      intro stopped
      rcases stopped_step action stopped with before | relay
      · exact relay_step (reachable_counted reached.reachable) before (ih before) leaves action
      · exact relay

end State

/-! ## Linux -/

section Linux
variable [DecidableEq T] [DecidableEq S] [DecidableEq I] {s u : State (epoll S I) T C} {t : T}
  {pc : RunPc S I}

def State.NullArmed (s : State (epoll S I) T C) : Prop :=
  Epoll.armed s.kernel = true ∧ Epoll.target s.kernel = none

structure State.Hangs (s : State (epoll S I) T C) (t : T) : Prop where
  blocked : s.run t = .waiting
  slot : ¬ s.NullArmed
  answered : ∀ other, ¬ (s.run other).Unanswered
  staying : ∀ other, ¬ (s.run other).Exiting

def State.SparesNull (s : State (epoll S I) T C) : Action T C S I → Prop
  | .schedule _ (.ok ()) => s.Stopped → s.NullArmed → ∃ t, (s.run t).Carries
  | _ => True

structure State.Lost (s : State (epoll S I) T C) : Prop where
  stopped : s.Stopped
  slot : ¬ s.NullArmed
  none : ∀ other, ¬ (s.run other).Carries

theorem State.Lost.goto (lost : s.Lost) (kernel : u.kernel = s.kernel) (run : u.run = s.run)
    (stop : u.stop = s.stop) (carries : ¬ pc.Carries) : (u.goto t pc).Lost where
  stopped := by
    obtain ⟨c, result, returned⟩ := lost.stopped
    exact ⟨c, result, (congrFun stop c).trans returned⟩
  slot := by
    have slot := lost.slot
    rwa [NullArmed, ← kernel] at slot
  none other := by
    by_cases moved : other = t
    · subst moved
      simpa using carries
    · simpa [run, moved] using lost.none other

omit [DecidableEq T] in
theorem State.Lost.hangs (lost : s.Lost) (blocked : s.run t = .waiting) : s.Hangs t :=
  ⟨blocked, lost.slot, fun other carried => lost.none other (.inl carried),
    fun other carried => lost.none other (.inr carried)⟩

variable [DecidableEq C]

theorem State.Lost.resume (lost : s.Lost) {ev : Event S I} {rest : List (Entry S I)}
    {interrupted : Bool} (place : s.run t = .dispatching ev rest interrupted) :
    ∃ u, Reachable (State.step (epoll S I)) s u ∧ u.Lost ∧
      u.run t = .scanning rest interrupted := by
  have calm : ¬ (RunPc.scanning rest interrupted : RunPc S I).Carries := by
    have none := place ▸ lost.none t
    simpa [RunPc.Carries, RunPc.Unanswered, RunPc.Exiting] using none
  have action := step_resume.mpr ⟨ev, rest, interrupted, place, rfl⟩
  exact ⟨_, .single trivial action, lost.goto rfl rfl rfl calm, by simp⟩

theorem State.Lost.scanning (lost : s.Lost) {rest : List (Entry S I)} {interrupted : Bool}
    (place : s.run t = .scanning rest interrupted) :
    ∃ v, Reachable (State.step (epoll S I)) s v ∧ v.Stopped ∧ v.Hangs t := by
  have quiet : ¬ (RunPc.scanning rest interrupted : RunPc S I).Carries := place ▸ lost.none t
  induction rest generalizing s with
  | nil =>
      have calm : interrupted = false := by
        cases interrupted
        · rfl
        · exact absurd (.inl (.inl rfl)) quiet
      subst calm
      have action : step (epoll S I) s (.next t) = some (s.goto t .waiting) :=
        step_next.mpr ⟨.waiting, by rw [place]; rfl, rfl⟩
      have after : (s.goto t .waiting).Lost := lost.goto rfl rfl rfl (by
        simp [RunPc.Carries, RunPc.Unanswered, RunPc.Exiting])
      exact ⟨_, .single trivial action, after.stopped, after.hangs (by simp)⟩
  | cons entry rest ih =>
      cases entry with
      | none => exact absurd (.inl (.inr (by simp))) quiet
      | some ev =>
          have calm : ¬ (RunPc.dispatching ev rest interrupted : RunPc S I).Carries := by
            simpa [RunPc.Carries, RunPc.Unanswered, RunPc.Exiting] using quiet
          have action : step (epoll S I) s (.next t) =
              some (s.goto t (.dispatching ev rest interrupted)) :=
            step_next.mpr ⟨.dispatching ev rest interrupted, by rw [place]; rfl, rfl⟩
          have lost : (s.goto t (.dispatching ev rest interrupted)).Lost :=
            lost.goto rfl rfl rfl calm
          have moved : (s.goto t (.dispatching ev rest interrupted)).run t =
              .dispatching ev rest interrupted := by simp
          obtain ⟨u, resumed, lost, place⟩ := lost.resume moved
          obtain ⟨v, reached, hangs⟩ := ih lost place (place ▸ lost.none t)
          exact ⟨v, ((Reaches.single trivial action).trans resumed).trans reached, hangs⟩

theorem State.Lost.blocks (lost : s.Lost) (t : T) :
    ∃ v, Reachable (State.step (epoll S I)) s v ∧ v.Stopped ∧ v.Hangs t := by
  have none := lost.none t
  cases place : s.run t with
  | outside ec =>
      have enters : ∃ u, step (epoll S I) s (.run t 1) = some u ∧ u.Lost ∧
          u.run t = .waiting :=
        ⟨_, step_run.mpr ⟨ec, place, rfl⟩, lost.goto rfl rfl rfl
          (by simp [RunPc.Carries, RunPc.Unanswered, RunPc.Exiting]), by simp⟩
      obtain ⟨u, action, lost, waiting⟩ := enters
      exact ⟨u, .single trivial action, lost.stopped, lost.hangs waiting⟩
  | waiting => exact ⟨s, .refl, lost.stopped, lost.hangs place⟩
  | scanning rest interrupted => exact lost.scanning place
  | dispatching ev rest interrupted =>
      obtain ⟨u, resumed, lost, place⟩ := lost.resume place
      obtain ⟨v, reached, hangs⟩ := lost.scanning place
      exact ⟨v, resumed.trans reached, hangs⟩
  | checking => exact absurd (.inl (place ▸ trivial)) none
  | leaving ec => exact absurd (.inr (place ▸ trivial)) none
  | closing ec => exact absurd (.inr (place ▸ trivial)) none

omit [DecidableEq T] [DecidableEq C] in
theorem State.leaves_iff {a : Action T C S I} : s.Leaves a ↔ s.SparesNull a := by
  have waiting : none ∈ (epoll S I).pending s.kernel ↔ s.NullArmed := Epoll.mem_pending_posted none
  have absent : none ∉ (epoll S I).kept s.kernel := Epoll.posted_notMem_others none _
  cases a with
  | schedule e result =>
      cases result with
      | ok _ => simp only [Leaves, SparesNull, waiting, absent, false_or]
      | error _ => rfl
  | _ => rfl

omit [DecidableEq T] [DecidableEq C] in
theorem State.not_hangs (relay : s.Relay) (t : T) : ¬ s.Hangs t := by
  rintro ⟨_, slot, answered, staying⟩
  rcases relay with waiting | ⟨other, unanswered | exiting⟩
  · exact slot ((Epoll.mem_pending_posted none).mp waiting)
  · exact answered other unanswered
  · exact staying other exiting

/-- A `stop` reaches every thread in all runs in which no `schedule` replaces its null entry while
that is the last one; where one does, every thread can end up blocked for good. -/
theorem stop_reaches_threads :
    (∀ s : State (epoll S I) T C,
      Reaches (State.step (epoll S I)) State.SparesNull (.create _ T C) s →
        s.Stopped → ∀ t, ¬ s.Hangs t) ∧
    (∀ (s u : State (epoll S I) T C) (e : S),
      Reachable (State.step (epoll S I)) (.create _ T C) s →
        State.step (epoll S I) s (.schedule e (.ok ())) = some u →
          ¬ s.SparesNull (.schedule e (.ok ())) → ∀ t,
            ∃ v, Reachable (State.step (epoll S I)) u v ∧ v.Stopped ∧ v.Hangs t) := by
  refine ⟨fun s reached stopped => State.not_hangs (State.reaches_relay ?_ stopped), ?_⟩
  · exact reached.mono fun s a spares => State.leaves_iff.mpr spares
  · intro s u e _ action overwrites
    simp only [State.step, provided_eq_some] at action
    obtain ⟨_, rfl⟩ := action
    simp only [State.SparesNull, not_forall] at overwrites
    obtain ⟨stopped, _, none⟩ := overwrites
    refine State.Lost.blocks ⟨stopped, ?_, not_exists.mp none⟩
    rintro ⟨_, target⟩
    cases target

theorem stop_reaches_blocked_thread :
    ∃ s, exec (State.step (epoll Empty Empty)) (.create _ Unit Unit)
        [.run () 1, .stop (), .stopInterrupt ()] = some s ∧ s.Stopped ∧ ¬ s.Hangs () := by
  obtain ⟨s, run, stopped⟩ : ∃ s, exec (State.step (epoll Empty Empty)) (.create _ Unit Unit)
      [.run () 1, .stop (), .stopInterrupt ()] = some s ∧ s.Stopped :=
    ⟨_, rfl, (), false, rfl⟩
  refine ⟨s, run, stopped, stop_reaches_threads.1 s (exec_reaches run ?_) stopped ()⟩
  simp [State.SparesNull]

theorem stop_overwritten : ¬ ∀ s : State (epoll Unit Empty) Unit Unit,
    Reachable (State.step (epoll Unit Empty)) (.create _ Unit Unit) s → s.Stopped →
      ∀ t, ¬ s.Hangs t := by
  intro reaches
  let actions : List (Action Unit Unit Unit Empty) :=
    [.run () 1, .stop (), .stopInterrupt (), .schedule () (.ok ()), .wait () [some (.schedule ())],
      .next (), .resume (), .next ()]
  obtain ⟨s, run, stopped, hangs⟩ : ∃ s, exec (State.step (epoll Unit Empty))
      (.create _ Unit Unit) actions = some s ∧ s.Stopped ∧ s.Hangs () :=
    ⟨_, rfl, ⟨(), false, rfl⟩, rfl, fun armed => Bool.noConfusion armed.1, fun _ => id, fun _ => id⟩
  exact reaches s (exec_reachable run) stopped () hangs

end Linux

/-! ## Windows -/

section Windows
variable [DecidableEq T] [DecidableEq C] [DecidableEq S] [DecidableEq I]

def State.queue (s : State (completionPort S I) T C) : List (Entry S I) := s.kernel

/-- On a completion port: after a `stop` there is always a null entry in the queue, with a thread
that has not answered it, or about to be posted, so that no thread is blocked on an empty queue
while nobody is leaving; every event removed from the queue is dispatched exactly once, in the order
of the batch, and a thread can always get to the end of its batch by itself, whether it then leaves
or waits; and `state_` counts the threads inside. -/
theorem completionPort_run (s : State (completionPort S I) T C)
    (reached : Reachable (State.step (completionPort S I)) (.create (completionPort S I) T C) s) :
    (s.Stopped →
      (none ∈ s.queue ∨ (∃ t, (s.run t).Unanswered) ∨ ∃ t, (s.run t).Exiting) ∧
      ∀ t, s.run t = .waiting → s.queue = [] →
        ∃ other, (s.run other).Unanswered ∨ (s.run other).Exiting) ∧
    (∀ t, s.removed t = s.dispatched t ++ (s.run t).held ∧
      (∀ ec, s.run t = .leaving ec ∨ s.run t = .closing ec ∨ s.run t = .outside ec →
        s.dispatched t = s.removed t) ∧
      ∃ u, Reaches (State.step (completionPort S I)) (fun _ => State.InLoop t) s u ∧
        u.dispatched t = s.removed t ∧ u.queue = s.queue ∧ (u.run t).held = [] ∧
        ¬ (u.run t).Unanswered ∧ ((s.run t).Unanswered → u.run t =
          if s.state &&& stopRequestedFlag ≠ 0 then .leaving .ok else .waiting)) ∧
    ((inside s.run).Finite ∧ ((inside s.run).ncard < 2 ^ 31 →
      (s.state / threadCountIncrement).toNat = (inside s.run).ncard)) := by
  refine ⟨fun stopped => ?_, fun t => ?_, ?_⟩
  · have leaving : Reaches (State.step (completionPort S I)) State.Leaves _ s :=
      reached.mono fun s a _ => by
        cases a with
        | schedule e result =>
            cases result with
            | ok _ => exact fun _ waiting => .inl waiting
            | error _ => trivial
        | _ => trivial
    have relay := State.reaches_relay leaving stopped
    refine ⟨relay.imp id exists_or.mp, fun t _ empty => relay.resolve_left ?_⟩
    change none ∉ s.queue
    rw [empty]
    exact List.not_mem_nil
  · have accounted := State.reachable_accounted reached t
    refine ⟨accounted, fun ec left => ?_, ?_⟩
    · rcases left with place | place | place <;> simp [accounted, place, RunPc.held]
    · obtain ⟨u, loop, done⟩ := State.loop_ends s t
      exact ⟨u, loop, done.dispatched.trans accounted.symm, done.kernel, done.held, done.answered,
        done.left⟩
  · obtain ⟨stopped, counted⟩ := State.reachable_counted reached
    exact ⟨counted.finite, fun fits => by rw [counted.state, word_div stopped fits]⟩

theorem completionPort_run_stopped :
    ∃ s, exec (State.step (completionPort Unit Empty)) (.create _ Unit Unit)
        [.run () 2, .schedule () (.ok ()), .stop (), .stopInterrupt (),
          .wait () [some (.schedule ()), none]] = some s ∧
      (∃ t, (s.run t).Unanswered) ∧ s.dispatched () = [] ∧
      ∃ u, Reachable (State.step (completionPort Unit Empty)) s u ∧
        u.dispatched () = [.schedule ()] ∧ u.run () = .leaving .ok := by
  obtain ⟨s, run, stopped, unanswered, empty, removed, set⟩ :
      ∃ s, exec (State.step (completionPort Unit Empty)) (.create _ Unit Unit)
        [.run () 2, .schedule () (.ok ()), .stop (), .stopInterrupt (),
          .wait () [some (.schedule ()), none]] = some s ∧ s.Stopped ∧ (s.run ()).Unanswered ∧
        s.dispatched () = [] ∧ s.removed () = [.schedule ()] ∧
        s.state &&& stopRequestedFlag ≠ 0 :=
    ⟨_, rfl, ⟨(), false, rfl⟩, .inr (by simp), rfl, rfl, by decide⟩
  obtain ⟨_, dispatch, _⟩ := completionPort_run s (exec_reachable run)
  obtain ⟨u, loop, dispatched, _, _, _, left⟩ := (dispatch ()).2.2
  refine ⟨s, run, ⟨(), unanswered⟩, empty, u, loop.reachable, dispatched.trans removed, ?_⟩
  rw [left unanswered, if_pos set]

end Windows

end Ice.Context
