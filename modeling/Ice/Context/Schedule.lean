import Ice.Lib.Place
import Ice.Context.Run

namespace Ice.Context
open Transition Place

variable {S I T C : Type}

def Action.Posts : Action T C S I → Prop
  | .interrupt | .close _ | .stopInterrupt _ | .schedule _ (.ok ()) => True
  | _ => False

instance : (a : Action T C S I) → Decidable a.Posts
  | .interrupt | .close _ | .stopInterrupt _ | .schedule _ (.ok ()) => .isTrue trivial
  | .schedule _ (.error _) | .run _ _ | .wait _ _ | .waitFailed _ _ | .next _ | .resume _
  | .check _ | .leave _ | .stop _ | .notify _ => .isFalse id

namespace State

variable [DecidableEq T] [DecidableEq C] [DecidableEq S] [DecidableEq I] {b : Backend S I}
  {s u : State b T C} {a : Action T C S I} {e : S} {t : T} {pc : RunPc S I}

def copies (s : State b T C) (e : S) : Option T → Nat
  | none => (b.pending s.kernel).count (some (.schedule e))
  | some t => (s.run t).held.count (.schedule e)

structure Placed (s : State b T C) (e : S) : Prop where
  most : AtMostOnce (s.copies e)
  gone : s.schedule e ≠ .suspended ∨ s.resumed e ≠ 0 → Nowhere (s.copies e)
  unscheduled : s.schedule e ≠ .suspended → s.resumed e = 0
  resumed : s.resumed e ≤ 1

def Tracked (s : State b T C) (e : S) : Prop :=
  s.schedule e = .suspended → s.resumed e = 0 → Once (s.copies e)

inductive Moves (s u : State b T C) (a : Action T C S I) (e : S) : Prop where
  | same : ¬ a.Posts → u.schedule e = s.schedule e → u.resumed e = s.resumed e →
      u.copies e = s.copies e → Moves s u a e
  | removed (t : T) : ¬ a.Posts → u.schedule e = s.schedule e → u.resumed e = s.resumed e →
      u.copies e none + u.copies e (some t) = s.copies e none + s.copies e (some t) →
      (∀ r, r ≠ none → r ≠ some t → u.copies e r = s.copies e r) → Moves s u a e
  | resumed (t : T) : ¬ a.Posts → u.schedule e = s.schedule e →
      u.resumed e = s.resumed e + 1 → s.copies e (some t) = u.copies e (some t) + 1 →
      (∀ r, r ≠ some t → u.copies e r = s.copies e r) → Moves s u a e
  | failed (ec : ErrorCode) : ¬ a.Posts → s.schedule e = .fresh → u.schedule e = .failed ec →
      u.resumed e = s.resumed e → u.copies e = s.copies e → Moves s u a e
  | posted : a.Posts → u.schedule e = s.schedule e → u.resumed e = s.resumed e →
      u.copies e none = (b.kept s.kernel).count (some (.schedule e)) →
      (∀ r, r ≠ none → u.copies e r = s.copies e r) → Moves s u a e
  | scheduled : a.Posts → s.schedule e = .fresh → u.schedule e = .suspended →
      u.resumed e = s.resumed e →
      u.copies e none = (b.kept s.kernel).count (some (.schedule e)) + 1 →
      (∀ r, r ≠ none → u.copies e r = s.copies e r) → Moves s u a e

omit [DecidableEq C] in
theorem copies_goto (held : pc.held = (s.run t).held) : (s.goto t pc).copies e = s.copies e := by
  funext place
  cases place with
  | none => rfl
  | some other =>
      by_cases moved : other = t
      · subst moved
        simp [copies, held]
      · simp [copies, moved]

theorem count_post (target : Option S) (k : b.Kernel) :
    (b.pending (b.post target k)).count (some (.schedule e)) =
      (b.kept k).count (some (.schedule e)) + if target = some e then 1 else 0 := by
  rw [(b.pending_post target k).count_eq, List.count_cons]
  cases target <;> simp [posted]

theorem count_remove {batch : List (Entry S I)} {k : b.Kernel}
    (available : batch.Subperm (b.pending k)) :
    (b.pending (b.remove batch k)).count (some (.schedule e)) +
        batch.reduceOption.count (.schedule e) =
      (b.pending k).count (some (.schedule e)) := by
  have events : batch.reduceOption.count (.schedule e) = batch.count (some (.schedule e)) := by
    clear available
    induction batch with
    | nil => rfl
    | cons entry batch ih => cases entry <;> simp [List.count_cons, ih]
  rw [events, ← (b.pending_remove available).count_eq, List.count_append, Nat.add_comm]

omit [DecidableEq T] [DecidableEq C] in
theorem moves_interrupt (posts : a.Posts) (kernel : u.kernel = b.post none s.kernel)
    (held : ∀ t, (u.run t).held = (s.run t).held) (schedule : u.schedule e = s.schedule e)
    (resumed : u.resumed e = s.resumed e) : Moves s u a e := by
  refine .posted posts schedule resumed ?_ fun r other => ?_
  · simp [copies, kernel, count_post]
  · cases r with
    | none => cases other rfl
    | some t => rw [copies, copies, held]

omit [DecidableEq C] in
theorem moves_goto (quiet : ¬ a.Posts) (held : pc.held = (s.run t).held)
    (kernel : u.kernel = s.kernel) (run : u.run = s.run) (schedule : u.schedule e = s.schedule e)
    (resumed : u.resumed e = s.resumed e) : Moves s (u.goto t pc) a e := by
  have same : u.copies e = s.copies e := by
    funext place
    cases place <;> simp [copies, kernel, run]
  refine .same quiet schedule resumed ?_
  rw [copies_goto (by rw [held, run]), same]

theorem moves_wait {t : T} {batch : List (Entry S I)}
    (action : step b s (.wait t batch) = some u) (e : S) : Moves s u (.wait t batch) e := by
  simp only [step, provided_eq_some] at action
  obtain ⟨⟨place, _, _, available⟩, rfl⟩ := action
  refine .removed t id rfl rfl ?_ fun r kernel thread => ?_
  · simpa [copies, State.goto, place, RunPc.held] using count_remove available
  · cases r with
    | none => cases kernel rfl
    | some other =>
        have moved : other ≠ t := fun same => thread (by rw [same])
        simp [copies, State.goto, moved]

theorem moves_resume {t : T} (action : step b s (.resume t) = some u) (e : S) :
    Moves s u (.resume t) e := by
  obtain ⟨ev, rest, interrupted, place, rfl⟩ := step_resume.mp action
  by_cases mine : ev = .schedule e
  · subst mine
    refine .resumed t id rfl (by simp [State.goto, resumeAwaiter]) ?_ fun r thread => ?_
    · simp [copies, State.goto, place, RunPc.held]
    · cases r with
      | none => rfl
      | some other =>
          have moved : other ≠ t := fun same => thread (by rw [same])
          simp [copies, State.goto, moved]
  · refine .same id rfl ?_ ?_
    · cases ev with
      | io i => rfl
      | schedule e' =>
          have other : e ≠ e' := fun same => mine (by rw [same])
          simp [State.goto, resumeAwaiter, other]
    · funext r
      cases r with
      | none => rfl
      | some other =>
          by_cases moved : other = t
          · subst moved
            simp [copies, State.goto, place, RunPc.held, mine]
          · simp [copies, State.goto, moved]

theorem moves_schedule {e' : S} {result : Except Errno Unit}
    (action : step b s (.schedule e' result) = some u) (e : S) :
    Moves s u (.schedule e' result) e := by
  simp only [step, provided_eq_some] at action
  obtain ⟨fresh, next⟩ := action
  cases result with
  | ok _ =>
      subst next
      by_cases mine : e = e'
      · subst mine
        refine .scheduled trivial fresh (by simp) rfl ?_ fun r other => ?_
        · simp [copies, count_post]
        · cases r with
          | none => cases other rfl
          | some t => rfl
      · refine .posted trivial (by simp [mine]) rfl ?_ fun r other => ?_
        · simp [copies, count_post, Ne.symm mine]
        · cases r with
          | none => cases other rfl
          | some t => rfl
  | error errno =>
      subst next
      by_cases mine : e = e'
      · subst mine
        exact .failed (.native errno) id fresh (by simp) rfl rfl
      · exact .same id (by simp [mine]) rfl rfl

theorem step_moves (action : step b s a = some u) (e : S) : Moves s u a e := by
  cases a with
  | run t size =>
      obtain ⟨ec, place, rfl⟩ := step_run.mp action
      exact moves_goto id (by rw [place]; rfl) rfl rfl rfl rfl
  | wait t batch => exact moves_wait action e
  | waitFailed t errno =>
      simp only [step, provided_eq_some] at action
      obtain ⟨place, next⟩ := action
      split at next <;> subst next
      · exact .same id rfl rfl rfl
      · exact moves_goto id (by rw [place]; rfl) rfl rfl rfl rfl
  | next t =>
      obtain ⟨pc, next, rfl⟩ := step_next.mp action
      exact moves_goto id (RunPc.next_held next) rfl rfl rfl rfl
  | resume t => exact moves_resume action e
  | check t =>
      simp only [step, provided_eq_some] at action
      obtain ⟨place, rfl⟩ := action
      refine moves_goto id ?_ rfl rfl rfl rfl
      split <;> rw [place] <;> rfl
  | leave t =>
      obtain ⟨ec, place, rfl⟩ := step_leave.mp action
      exact moves_goto id (by rw [place]; rfl) rfl rfl rfl rfl
  | close t =>
      obtain ⟨ec, place, rfl⟩ := step_close.mp action
      refine moves_interrupt trivial rfl (fun other => ?_) rfl rfl
      by_cases moved : other = t
      · subst moved
        simp [place, RunPc.held]
      · simp [interrupt, moved]
  | interrupt =>
      cases action
      exact moves_interrupt trivial rfl (fun _ => rfl) rfl rfl
  | stop c =>
      simp only [step, provided_eq_some] at action
      obtain ⟨_, rfl⟩ := action
      exact .same id rfl rfl rfl
  | stopInterrupt c =>
      obtain ⟨threadCount, place, rfl⟩ := step_stopInterrupt.mp action
      exact moves_interrupt trivial rfl (fun _ => rfl) rfl rfl
  | schedule e' result => exact moves_schedule action e
  | notify i =>
      cases action
      refine .same id rfl rfl ?_
      funext place
      cases place with
      | none => simp [copies, (b.pending_notify i s.kernel).count_eq]
      | some t => rfl

omit [DecidableEq T] [DecidableEq C] in
theorem kept_le (b : Backend S I) (s : State b T C) (e : S) :
    (b.kept s.kernel).count (some (.schedule e)) ≤ s.copies e none :=
  (b.kept_subperm s.kernel).count_le _

omit [DecidableEq T] [DecidableEq C] in
theorem placed_step (placed : Placed s e) (moves : Moves s u a e) : Placed u e := by
  obtain ⟨most, gone, unscheduled, resumed⟩ := placed
  have less := kept_le b s e
  cases moves with
  | same _ schedule count copies =>
      rw [← copies] at most gone
      exact ⟨most, by rwa [schedule, count], by rwa [schedule, count], by rwa [count]⟩
  | removed t _ schedule count sum rest =>
      refine ⟨most.move (by simp) sum rest, ?_, by rwa [schedule, count], by rwa [count]⟩
      rw [schedule, count]
      exact fun past => (gone past).move sum rest
  | resumed t _ schedule count here rest =>
      have found : ¬ Nowhere (s.copies e) := by
        intro nowhere
        have none := nowhere (some t)
        omega
      have before : s.schedule e = .suspended ∧ s.resumed e = 0 := by
        by_contra past
        exact found (gone (by tauto))
      refine ⟨.inr (most.disappear here rest), fun _ => most.disappear here rest, ?_, by omega⟩
      rw [schedule]
      exact fun other => absurd before.1 other
  | failed ec _ fresh schedule count copies =>
      have nowhere := gone (.inl (by simp [fresh]))
      have zero := unscheduled (by simp [fresh])
      rw [← copies] at nowhere
      exact ⟨.inr nowhere, fun _ => nowhere, fun _ => by rw [count, zero], by omega⟩
  | posted _ schedule count here rest =>
      refine ⟨most.shrink (by omega) rest, ?_, by rwa [schedule, count], by rwa [count]⟩
      rw [schedule, count]
      exact fun past => (gone past).shrink (by omega) rest
  | scheduled _ fresh schedule count here rest =>
      have nowhere := gone (.inl (by simp [fresh]))
      have zero := unscheduled (by simp [fresh])
      have one : u.copies e none = 1 := by
        have empty := nowhere none
        omega
      refine ⟨.inl ⟨none, nowhere.appear one rest⟩, ?_, ?_, by omega⟩
      · rintro (other | again)
        · exact absurd schedule other
        · omega
      · exact fun other => absurd schedule other

def Spares (s : State b T C) (a : Action T C S I) : Prop :=
  a.Posts → ∀ e, some (.schedule e) ∈ b.pending s.kernel → some (.schedule e) ∈ b.kept s.kernel

omit [DecidableEq T] [DecidableEq C] in
theorem tracked_step (placed : ∀ e, Placed s e) (tracked : ∀ e, Tracked s e)
    (moves : ∀ e, Moves s u a e) : (∀ e, Tracked u e) ↔ Spares s a := by
  constructor
  · intro kept posts e waiting
    have here : At (s.copies e) none := (placed e).most.at (List.count_pos_iff.mpr waiting).ne'
    have before : s.schedule e = .suspended ∧ s.resumed e = 0 := by
      by_contra past
      exact Once.not_nowhere ⟨none, here⟩ ((placed e).gone (by tauto))
    by_contra lost
    cases moves e with
    | posted _ schedule count there rest =>
        have found := kept e (schedule.trans before.1) (count.trans before.2)
        apply found.not_nowhere
        intro r
        cases r with
        | none => rw [there, List.count_eq_zero.mpr lost]
        | some t => rw [rest _ (by simp), here.elsewhere _ (by simp)]
    | scheduled _ fresh => simp [fresh] at before
    | same quiet | removed t quiet | resumed t quiet | failed ec quiet => exact quiet posts
  · intro spares e suspended unresumed
    cases moves e with
    | same _ schedule count copies =>
        rw [copies]
        exact tracked e (schedule ▸ suspended) (count ▸ unresumed)
    | removed t _ schedule count sum rest =>
        exact (tracked e (schedule ▸ suspended) (count ▸ unresumed)).move (by simp) sum rest
    | resumed t _ _ count => omega
    | failed ec _ _ failed => simp [failed] at suspended
    | posted posts schedule count there rest =>
        obtain ⟨p, here⟩ := tracked e (schedule ▸ suspended) (count ▸ unresumed)
        have less := kept_le b s e
        cases p with
        | none =>
            have waiting : some (.schedule e) ∈ b.pending s.kernel :=
              List.count_pos_iff.mp (Nat.lt_of_lt_of_eq Nat.one_pos here.here.symm)
            have stays := List.count_pos_iff.mpr (spares posts e waiting)
            refine ⟨none, ?_, fun r other => (rest r other).trans (here.elsewhere r other)⟩
            have one := here.here
            omega
        | some t =>
            have none := here.elsewhere none (by simp)
            refine ⟨some t, (rest _ (by simp)).trans here.here, fun r other => ?_⟩
            cases r with
            | none => omega
            | some t' => exact (rest _ (by simp)).trans (here.elsewhere _ other)
    | scheduled _ fresh schedule count there rest =>
        have nowhere := (placed e).gone (.inl (by simp [fresh]))
        have less := kept_le b s e
        have empty := nowhere none
        exact ⟨none, nowhere.appear (by omega) rest⟩

/-! ## Runs -/

omit [DecidableEq T] [DecidableEq C] in
theorem create_placed (e : S) : Placed (create b T C) e := by
  have nowhere : Nowhere ((create b T C).copies e) := by
    intro r
    cases r <;> simp [copies, create, b.pending_create, RunPc.held]
  exact ⟨.inr nowhere, fun _ => nowhere, fun _ => rfl, Nat.zero_le 1⟩

theorem reachable_placed (reached : Reachable (step b) (create b T C) s) (e : S) : Placed s e :=
  reached.invariant (fun e => create_placed e)
    (fun _ _ _ placed _ action e => placed_step (placed e) (step_moves action e)) e

end State

/-! ## Linux -/

section Linux
variable [DecidableEq T] [DecidableEq C] [DecidableEq S] [DecidableEq I]
  {s : State (epoll S I) T C} {a : Action T C S I}

def Epoll.ArmedFor (k : Epoll S I) (e : S) : Prop := k.armed = true ∧ k.target = some e

/-- Every coroutine suspended in `schedule` is the target of the armed slot or held by exactly one
thread, and none is resumed twice. -/
def State.Kept (s : State (epoll S I) T C) : Prop :=
  ∀ e, (s.schedule e = .suspended → s.resumed e = 0 →
      Epoll.ArmedFor s.kernel e ∨ ∃! t, .schedule e ∈ (s.run t).held) ∧
    s.resumed e ≤ 1

def State.SlotFree (s : State (epoll S I) T C) (a : Action T C S I) : Prop :=
  a.Posts → Epoll.armed s.kernel = true → Epoll.target s.kernel = none

instance (s : State (epoll S I) T C) (a : Action T C S I) : Decidable (s.SlotFree a) :=
  inferInstanceAs (Decidable (a.Posts → Epoll.armed s.kernel = true → Epoll.target s.kernel = none))

omit [DecidableEq T] [DecidableEq C] in
theorem State.kept_iff (placed : ∀ e, s.Placed e) : s.Kept ↔ ∀ e, s.Tracked e := by
  constructor
  · intro kept e suspended unresumed
    rcases (kept e).1 suspended unresumed with slot | ⟨t, holds, _⟩
    · have waiting : some (.schedule e) ∈ (epoll S I).pending s.kernel :=
        (Epoll.mem_pending_posted (some e)).mpr slot
      exact ⟨none, (placed e).most.at (List.count_pos_iff.mpr waiting).ne'⟩
    · exact ⟨some t, (placed e).most.at (List.count_pos_iff.mpr holds).ne'⟩
  · intro tracked e
    refine ⟨fun suspended unresumed => ?_, (placed e).resumed⟩
    obtain ⟨p, here⟩ := tracked e suspended unresumed
    cases p with
    | none =>
        left
        exact (Epoll.mem_pending_posted (some e)).mp
          (List.count_pos_iff.mp (Nat.lt_of_lt_of_eq Nat.one_pos here.here.symm))
    | some t =>
        refine .inr ⟨t, List.count_pos_iff.mp (Nat.lt_of_lt_of_eq Nat.one_pos here.here.symm), ?_⟩
        intro other holds
        exact Option.some.inj (here.unique (List.count_pos_iff.mpr holds).ne')

omit [DecidableEq T] [DecidableEq C] in
theorem State.spares_iff : s.Spares a ↔ s.SlotFree a := by
  have absent : ∀ e, some (.schedule e) ∉ (epoll S I).kept s.kernel :=
    fun e => Epoll.posted_notMem_others (some e) _
  have slot : ∀ e, some (.schedule e) ∈ (epoll S I).pending s.kernel ↔
      Epoll.armed s.kernel = true ∧ Epoll.target s.kernel = some e :=
    fun e => Epoll.mem_pending_posted (some e)
  simp only [Spares, absent, slot, SlotFree, imp_false, not_and]
  refine forall_congr' fun _ => ⟨fun free armed => ?_, fun free e armed => by simp [free armed]⟩
  exact Option.eq_none_iff_forall_ne_some.mpr fun e => free e armed

/-- No coroutine is lost in a run exactly when no step of it posts an entry while the slot is armed
for a coroutine. -/
theorem scheduled_kept_iff (actions : List (Action T C S I)) (s : State (epoll S I) T C)
    (run : exec (State.step (epoll S I)) (.create (epoll S I) T C) actions = some s) :
    Always (State.step (epoll S I)) State.Kept (.create (epoll S I) T C) actions ↔
      AlwaysMeets (State.step (epoll S I)) State.SlotFree (.create (epoll S I) T C) actions := by
  refine always_iff_alwaysMeets (fun s => ∀ e, s.Placed e) run State.create_placed ?_ ?_ ?_
  · exact (State.kept_iff State.create_placed).mpr fun e fresh =>
      absurd fresh (by simp [State.create])
  · exact fun _ _ _ placed action e => State.placed_step (placed e) (State.step_moves action e)
  · intro s a u placed kept action
    have moves := State.step_moves action
    rw [State.kept_iff fun e => State.placed_step (placed e) (moves e), ← State.spares_iff]
    exact State.tracked_step placed ((State.kept_iff placed).mp kept) moves

def oneAfterAnother : List (Action Unit Unit Bool Empty) :=
  [.run () 1, .schedule false (.ok ()), .wait () [some (.schedule false)], .next (), .resume (),
    .next (), .schedule true (.ok ())]

theorem scheduled_kept_one_after_another :
    Always (State.step (epoll Bool Empty)) State.Kept (.create _ Unit Unit) oneAfterAnother := by
  obtain ⟨s, run⟩ : ∃ s, exec (State.step (epoll Bool Empty)) (.create _ Unit Unit)
      oneAfterAnother = some s := ⟨_, rfl⟩
  exact (scheduled_kept_iff oneAfterAnother s run).mpr (by decide)

theorem scheduled_overwritten : ¬ ∀ (s : State (epoll Bool Empty) Unit Unit),
    Reachable (State.step (epoll Bool Empty)) (.create _ Unit Unit) s → s.Kept := by
  intro kept
  let actions : List (Action Unit Unit Bool Empty) :=
    [.schedule false (.ok ()), .schedule true (.ok ())]
  obtain ⟨s, run⟩ : ∃ s, exec (State.step (epoll Bool Empty)) (.create _ Unit Unit) actions =
      some s := ⟨_, rfl⟩
  have waiting := (kept s (exec_reachable run) false).1
  cases run
  rcases waiting rfl rfl with ⟨_, target⟩ | ⟨t, holds, _⟩
  · cases target
  · cases holds

end Linux

/-! ## Windows -/

theorem completionPort_tracked [DecidableEq T] [DecidableEq C] [DecidableEq S] [DecidableEq I]
    {s : State (completionPort S I) T C}
    (reached : Reachable (State.step (completionPort S I)) (.create (completionPort S I) T C) s) :
    ∀ e, s.Tracked e := by
  induction reached with
  | refl => exact fun e fresh => absurd fresh (by simp [State.create])
  | tail reached _ action ih =>
      exact (State.tracked_step (State.reachable_placed reached) ih
        (State.step_moves action)).mpr fun _ _ waiting => waiting

end Ice.Context
