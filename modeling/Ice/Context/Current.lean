import Ice.Lib.Transition
import Ice.Context.Run

/-!
# Coroutines that move onto a context

`schedule` among any number of contexts, with threads that call `run` of one context from a callback
of another, or of the same. `index_` of a context is one marker for each thread.
-/

namespace Ice.Context
open Transition

/-! ## The kernel object of a context -/

structure Queue (S I : Type) where
  Kernel : Type
  create : Kernel
  post : Option S → Kernel → Kernel
  notify : I → Kernel → Kernel
  remove : List (Entry S I) → Kernel → Kernel
  waitError : Errno → Option ErrorCode
  pending : Kernel → List (Entry S I)
  pending_create : pending create = []
  mem_post {target : Option S} {k : Kernel} {entry : Entry S I} :
    entry ∈ pending (post target k) → entry = posted target ∨ entry ∈ pending k
  mem_notify {i : I} {k : Kernel} {entry : Entry S I} :
    entry ∈ pending (notify i k) → entry = some (.io i) ∨ entry ∈ pending k
  mem_remove {batch : List (Entry S I)} {k : Kernel} {entry : Entry S I} :
    batch.Subperm (pending k) → entry ∈ pending (remove batch k) → entry ∈ pending k

namespace Queue

variable {S I : Type}

def ofBackend (b : Backend S I) : Queue S I where
  Kernel := b.Kernel
  create := b.create
  post := b.post
  notify := b.notify
  remove := b.remove
  waitError := b.waitError
  pending := b.pending
  pending_create := b.pending_create
  mem_post {target k entry} member := by
    have split := (b.pending_post target k).mem_iff.mp member
    rcases List.mem_cons.mp split with new | old
    · exact .inl new
    · exact .inr ((b.kept_subperm k).subset old)
  mem_notify {i k entry} member := by
    have split := (b.pending_notify i k).mem_iff.mp member
    exact List.mem_cons.mp split
  mem_remove available member :=
    (b.pending_remove available).mem_iff.mp (List.mem_append_right _ member)

end Queue

/-! ## FreeBSD -/

structure Kqueue (S I : Type) where
  note : Option (Option S) := some none
  triggered : Bool := false
  oneshot : Bool := false
  ready : List I := []
  deriving DecidableEq, Repr

namespace Kqueue

variable {S I : Type}

/-- `queue_note` adds the event with `EV_ONESHOT`, or changes it; `interrupt` changes it only. -/
def post (target : Option S) (k : Kqueue S I) : Kqueue S I :=
  match target, k.note with
  | some e, _ => { k with note := some (some e), triggered := true, oneshot := true }
  | none, some _ => { k with note := some none, triggered := true }
  | none, none => k

def notify (i : I) (k : Kqueue S I) : Kqueue S I := { k with ready := k.ready ++ [i] }

def user (k : Kqueue S I) : List (Entry S I) :=
  match k.note, k.triggered with
  | some target, true => [posted target]
  | _, _ => []

def pending (k : Kqueue S I) : List (Entry S I) := k.user ++ k.ready.map fun i => some (.io i)

def remove [DecidableEq S] [DecidableEq I] (batch : List (Entry S I)) (k : Kqueue S I) :
    Kqueue S I :=
  let handed := k.user.any batch.contains
  { note := if handed && k.oneshot then none else k.note
    triggered := k.triggered && !handed
    oneshot := k.oneshot && !handed
    ready := k.ready.diff (batch.filterMap Epoll.io?) }

theorem mem_user {k : Kqueue S I} {entry : Entry S I} :
    entry ∈ k.user ↔ k.triggered = true ∧ ∃ target, k.note = some target ∧ entry = posted target := by
  cases note : k.note <;> cases triggered : k.triggered <;> simp [user, note, triggered]

theorem mem_post {target : Option S} {k : Kqueue S I} {entry : Entry S I}
    (member : entry ∈ (k.post target).pending) : entry = posted target ∨ entry ∈ k.pending := by
  rcases List.mem_append.mp member with own | ready
  · obtain ⟨triggered, other, note, rfl⟩ := mem_user.mp own
    cases target with
    | some e =>
        cases note
        exact .inl rfl
    | none =>
        cases present : k.note with
        | some old =>
            simp only [post, present] at note
            cases note
            exact .inl rfl
        | none =>
            simp only [post, present] at note
            cases note
  · refine .inr (List.mem_append_right _ ?_)
    cases target with
    | some e => exact ready
    | none => cases note : k.note <;> simpa [post, note] using ready

theorem mem_remove [DecidableEq S] [DecidableEq I] {batch : List (Entry S I)} {k : Kqueue S I}
    {entry : Entry S I} (member : entry ∈ (k.remove batch).pending) : entry ∈ k.pending := by
  rcases List.mem_append.mp member with own | ready
  · obtain ⟨triggered, target, note, rfl⟩ := mem_user.mp own
    simp only [remove, Bool.and_eq_true] at triggered note
    refine List.mem_append_left _ (mem_user.mpr ⟨triggered.1, target, ?_, rfl⟩)
    split at note
    · cases note
    · exact note
  · obtain ⟨i, old, rfl⟩ := List.mem_map.mp ready
    exact List.mem_append_right _ (List.mem_map.mpr ⟨i, (List.diff_sublist _ _).subset old, rfl⟩)

end Kqueue

def kqueue (S I : Type) [DecidableEq S] [DecidableEq I] : Queue S I where
  Kernel := Kqueue S I
  create := {}
  post := Kqueue.post
  notify := Kqueue.notify
  remove := Kqueue.remove
  waitError := Epoll.waitError
  pending := Kqueue.pending
  pending_create := rfl
  mem_post := Kqueue.mem_post
  mem_notify {i k entry} member := by
    simp only [Kqueue.pending, Kqueue.user, Kqueue.notify, List.map_append, List.map_singleton]
      at member ⊢
    rw [← List.append_assoc] at member
    rcases List.mem_append.mp member with old | new
    · exact .inr old
    · exact .inl (List.mem_singleton.mp new)
  mem_remove _ := Kqueue.mem_remove

def queue (S I : Type) [DecidableEq S] [DecidableEq I] : Os → Queue S I
  | .win32 => .ofBackend (completionPort S I)
  | .linux => .ofBackend (epoll S I)
  | .freebsd => kqueue S I

/-! ## Threads in nested calls of `run` -/

/-- A call of `run` of a context, in which `busy` is the callback of an event that it has handed
out. -/
structure Frame (X S I : Type) where
  context : X
  pc : RunPc S I
  bufferSize : Nat
  busy : Bool := false
  deriving DecidableEq, Repr

/-- A coroutine goes on after `co_await schedule`, on `thread` in these calls of `run`: at once if
nothing was `queued`. -/
structure Continuation (X T S I : Type) where
  wait : S
  context : X
  thread : T
  calls : List (Frame X S I)
  queued : Option (Except Errno Unit)
  thrown : Option ErrorCode

/-- Contexts `X`, threads `T` and waits `S`. The innermost call of `run` of a thread comes first. -/
structure Threads (q : Queue S I) (X T : Type) where
  kernel : X → q.Kernel := fun _ => q.create
  state : X → BitVec 32 := fun _ => 0
  index : T → X → Bool := fun _ _ => false
  calls : T → List (Frame X S I) := fun _ => []
  target : S → Option X := fun _ => none
  continued : List (Continuation X T S I) := []

namespace Threads

variable {S I X T : Type}

inductive Action (X T S I : Type) where
  | run (t : T) (x : X) (eventBufferSize : Nat)
  | wait (t : T) (batch : List (Entry S I))
  | waitFailed (t : T) (errno : Errno)
  | next (t : T)
  -- `event::await_resume`, up to the callback and from it on.
  | resume (t : T)
  | resumed (t : T)
  | check (t : T)
  | leave (t : T)
  | close (t : T)
  | interrupt (x : X)
  | stop (x : X)
  | schedule (t : T) (w : S) (x : X) (queue : Bool) (result : Except Errno Unit)
  | notify (x : X) (i : I)

variable {q : Queue S I}

def Free (s : Threads q X T) (t : T) : Prop := ∀ frame ∈ (s.calls t).head?, frame.busy = true

instance (s : Threads q X T) (t : T) : Decidable (s.Free t) :=
  inferInstanceAs (Decidable (∀ frame ∈ (s.calls t).head?, frame.busy = true))

section Machine
variable [DecidableEq X] [DecidableEq T] [DecidableEq S]

def setCalls (s : Threads q X T) (t : T) (calls : List (Frame X S I)) : Threads q X T :=
  { s with calls := Function.update s.calls t calls }

def setIndex (s : Threads q X T) (t : T) (x : X) (marked : Bool) : Threads q X T :=
  { s with index := Function.update s.index t (Function.update (s.index t) x marked) }

def setState (s : Threads q X T) (x : X) (state : BitVec 32) : Threads q X T :=
  { s with state := Function.update s.state x state }

def setKernel (s : Threads q X T) (x : X) (kernel : q.Kernel) : Threads q X T :=
  { s with kernel := Function.update s.kernel x kernel }

def continues (s : Threads q X T) (t : T) (w : S) (x : X) (queued : Option (Except Errno Unit))
    (ec : ErrorCode) : Threads q X T :=
  { s with
    continued := s.continued ++
      [{ wait := w, context := x, thread := t, calls := s.calls t, queued
         thrown := if ec.isError then some ec else none }] }

def schedule (s : Threads q X T) (t : T) (w : S) (x : X) (queue : Bool)
    (result : Except Errno Unit) : Threads q X T :=
  -- `co_await x.schedule(queue)`, from the constructor of `schedule`.
  let s := { s with target := Function.update s.target w (some x) }
  if !queue && s.index t x then s.continues t w x none .ok
  else
    match result with
    | .ok () => s.setKernel x (q.post (some w) (s.kernel x))
    | .error errno => s.continues t w x (some result) (.native errno)

def callback (s : Threads q X T) (t : T) : Event S I → Threads q X T
  -- The callback of an event. What waits for a `schedule` has been queued and recorded no error.
  | .schedule w =>
      match s.target w with
      | some x => s.continues t w x (some (.ok ())) .ok
      | none => s
  | .io _ => s

def inLoop (s : Threads q X T) (t : T)
    (next : Frame X S I → List (Frame X S I) → Option (Threads q X T)) : Option (Threads q X T) :=
  match s.calls t with
  | frame :: outer => if frame.busy then none else next frame outer
  | [] => none

variable [DecidableEq I]

def step (s : Threads q X T) : Action X T S I → Option (Threads q X T)
  | .run t x eventBufferSize =>
      provided (s.Free t)
        (((s.setIndex t x true).setState x (s.state x + threadCountIncrement)).setCalls t
          ({ context := x, pc := .waiting, bufferSize := eventBufferSize } :: s.calls t))
  | .wait t batch => s.inLoop t fun frame outer =>
      provided (frame.pc = .waiting ∧
          Handed frame.bufferSize (q.pending (s.kernel frame.context)) batch)
        ((s.setKernel frame.context (q.remove batch (s.kernel frame.context))).setCalls t
          ({ frame with pc := .scanning batch false } :: outer))
  | .waitFailed t errno => s.inLoop t fun frame outer =>
      provided (frame.pc = .waiting) <|
        match q.waitError errno with
        | none => s
        | some ec => s.setCalls t ({ frame with pc := .leaving ec } :: outer)
  | .next t => s.inLoop t fun frame outer =>
      frame.pc.next.map fun pc => s.setCalls t ({ frame with pc } :: outer)
  | .resume t => s.inLoop t fun frame outer =>
      match frame.pc with
      | .dispatching ev rest interrupted =>
          some ((s.callback t ev).setCalls t
            ({ frame with pc := .scanning rest interrupted, busy := true } :: outer))
      | _ => none
  | .resumed t =>
      match s.calls t with
      | frame :: outer =>
          provided (frame.busy = true) (s.setCalls t ({ frame with busy := false } :: outer))
      | [] => none
  | .check t => s.inLoop t fun frame outer =>
      provided (frame.pc = .checking) <|
        let stopping := s.state frame.context &&& stopRequestedFlag ≠ 0
        s.setCalls t ({ frame with pc := if stopping then .leaving .ok else .waiting } :: outer)
  | .leave t => s.inLoop t fun frame outer =>
      match frame.pc with
      | .leaving ec =>
          some (((s.setState frame.context (s.state frame.context - threadCountIncrement)).setIndex
            t frame.context false).setCalls t ({ frame with pc := .closing ec } :: outer))
      | _ => none
  | .close t => s.inLoop t fun frame outer =>
      match frame.pc with
      | .closing _ =>
          some ((s.setKernel frame.context (q.post none (s.kernel frame.context))).setCalls t outer)
      | _ => none
  | .interrupt x => some (s.setKernel x (q.post none (s.kernel x)))
  | .stop x => some (s.setState x (s.state x ||| stopRequestedFlag))
  | .schedule t w x queue result =>
      provided (s.Free t ∧ s.target w = none ∧ result ≠ .error 0) (s.schedule t w x queue result)
  | .notify x i => some (s.setKernel x (q.notify i (s.kernel x)))

end Machine

/-- A marker tells of a call of `run`, and the entry of a `schedule` is where it was posted, or with
a call that has removed it from there. -/
structure Onto (s : Threads q X T) : Prop where
  marked : ∀ t x, s.index t x = true → ∃ frame ∈ s.calls t, frame.context = x ∧ frame.pc.Inside
  pending : ∀ x w, some (.schedule w) ∈ q.pending (s.kernel x) → s.target w = some x
  held : ∀ t, ∀ frame ∈ s.calls t, ∀ w, .schedule w ∈ frame.pc.held →
    s.target w = some frame.context

variable {s u : Threads q X T} {t : T} {x : X} {w : S} {frame : Frame X S I}
  {outer : List (Frame X S I)}

theorem held_top (onto : Onto s) (calls : s.calls t = frame :: outer)
    (holds : .schedule w ∈ frame.pc.held) : s.target w = some frame.context :=
  onto.held t frame (calls ▸ List.mem_cons_self ..) w holds

theorem inLoop_eq_some {next : Frame X S I → List (Frame X S I) → Option (Threads q X T)}
    (taken : s.inLoop t next = some u) :
    ∃ frame outer, s.calls t = frame :: outer ∧ next frame outer = some u := by
  unfold inLoop at taken
  split at taken
  · next frame outer calls =>
      split at taken
      · cases taken
      · exact ⟨frame, outer, calls, taken⟩
  · cases taken

section Contexts
variable [DecidableEq X]

theorem Onto.setState {state : BitVec 32} (onto : Onto s) : Onto (s.setState x state) :=
  ⟨onto.marked, onto.pending, onto.held⟩

theorem Onto.setKernel {kernel : q.Kernel} (onto : Onto s)
    (pending : ∀ w, some (.schedule w) ∈ q.pending kernel → s.target w = some x) :
    Onto (s.setKernel x kernel) := by
  refine ⟨onto.marked, fun y w member => ?_, onto.held⟩
  by_cases same : y = x
  · subst same
    simp only [Threads.setKernel, Function.update_self] at member
    exact pending w member
  · simp only [Threads.setKernel, Function.update_of_ne same] at member
    exact onto.pending y w member

theorem Onto.post_none (onto : Onto s) : Onto (s.setKernel x (q.post none (s.kernel x))) := by
  refine onto.setKernel fun w member => ?_
  rcases q.mem_post member with new | old
  · cases new
  · exact onto.pending x w old

end Contexts

section Calls
variable [DecidableEq T]

theorem Onto.setTop {pc : RunPc S I} {busy : Bool} (onto : Onto s) (calls : s.calls t = frame :: outer)
    (entered : frame.pc.Inside → pc.Inside)
    (held : ∀ w, .schedule w ∈ pc.held → s.target w = some frame.context) :
    Onto (s.setCalls t ({ frame with pc, busy } :: outer)) := by
  constructor
  · intro r x marker
    obtain ⟨kept, member, context, inside⟩ := onto.marked r x marker
    by_cases same : r = t
    · subst same
      simp only [setCalls, Function.update_self]
      rw [calls] at member
      rcases List.mem_cons.mp member with rfl | other
      · exact ⟨_, List.mem_cons_self .., context, entered inside⟩
      · exact ⟨kept, List.mem_cons_of_mem _ other, context, inside⟩
    · simp only [setCalls, Function.update_of_ne same]
      exact ⟨kept, member, context, inside⟩
  · exact onto.pending
  · intro r kept member w holds
    by_cases same : r = t
    · subst same
      simp only [setCalls, Function.update_self] at member
      rcases List.mem_cons.mp member with rfl | other
      · exact held w holds
      · exact onto.held r kept (calls ▸ List.mem_cons_of_mem _ other) w holds
    · simp only [setCalls, Function.update_of_ne same] at member
      exact onto.held r kept member w holds

theorem Onto.close {ec : ErrorCode} (onto : Onto s) (calls : s.calls t = frame :: outer)
    (closing : frame.pc = .closing ec) : Onto (s.setCalls t outer) := by
  -- A call that has cleared its marker is not the one that a marker tells of.
  constructor
  · intro r x marker
    obtain ⟨kept, member, context, inside⟩ := onto.marked r x marker
    by_cases same : r = t
    · subst same
      simp only [setCalls, Function.update_self]
      rw [calls] at member
      rcases List.mem_cons.mp member with rfl | other
      · rw [closing] at inside
        exact inside.elim
      · exact ⟨kept, other, context, inside⟩
    · simp only [setCalls, Function.update_of_ne same]
      exact ⟨kept, member, context, inside⟩
  · exact onto.pending
  · intro r kept member w holds
    by_cases same : r = t
    · subst same
      simp only [setCalls, Function.update_self] at member
      exact onto.held r kept (calls ▸ List.mem_cons_of_mem _ member) w holds
    · simp only [setCalls, Function.update_of_ne same] at member
      exact onto.held r kept member w holds

variable [DecidableEq X]

theorem Onto.enter {size : Nat} (onto : Onto s) :
    Onto ((s.setIndex t x true).setCalls t
      ({ context := x, pc := .waiting, bufferSize := size } :: s.calls t)) := by
  constructor
  · intro r y marker
    by_cases same : r = t
    · subst same
      simp only [setCalls, Function.update_self]
      by_cases here : y = x
      · exact ⟨_, List.mem_cons_self .., here.symm, trivial⟩
      · simp only [setCalls, setIndex, Function.update_self, Function.update_of_ne here] at marker
        obtain ⟨kept, member, rest⟩ := onto.marked r y marker
        exact ⟨kept, List.mem_cons_of_mem _ member, rest⟩
    · simp only [setCalls, setIndex, Function.update_of_ne same] at marker ⊢
      exact onto.marked r y marker
  · exact onto.pending
  · intro r kept member w holds
    by_cases same : r = t
    · subst same
      simp only [setCalls, Function.update_self] at member
      rcases List.mem_cons.mp member with rfl | old
      · cases holds
      · exact onto.held r kept old w holds
    · simp only [setCalls, Function.update_of_ne same] at member
      exact onto.held r kept member w holds

theorem Onto.leave {ec : ErrorCode} (onto : Onto s) (calls : s.calls t = frame :: outer) :
    Onto ((s.setIndex t frame.context false).setCalls t
      ({ frame with pc := .closing ec } :: outer)) := by
  -- The marker is cleared even where an outer call is of the same context.
  constructor
  · intro r y marker
    by_cases same : r = t
    · subst same
      simp only [setCalls, Function.update_self]
      by_cases here : y = frame.context
      · subst here
        simp [setCalls, setIndex] at marker
      · simp only [setCalls, setIndex, Function.update_self, Function.update_of_ne here] at marker
        obtain ⟨kept, member, context, inside⟩ := onto.marked r y marker
        rw [calls] at member
        rcases List.mem_cons.mp member with rfl | other
        · exact absurd context.symm here
        · exact ⟨kept, List.mem_cons_of_mem _ other, context, inside⟩
    · simp only [setCalls, setIndex, Function.update_of_ne same] at marker ⊢
      exact onto.marked r y marker
  · exact onto.pending
  · intro r kept member w holds
    by_cases same : r = t
    · subst same
      simp only [setCalls, Function.update_self] at member
      rcases List.mem_cons.mp member with rfl | old
      · cases holds
      · exact onto.held r kept (calls ▸ List.mem_cons_of_mem _ old) w holds
    · simp only [setCalls, Function.update_of_ne same] at member
      exact onto.held r kept member w holds

end Calls

theorem Onto.continues {queued : Option (Except Errno Unit)} {ec : ErrorCode} (onto : Onto s) :
    Onto (s.continues t w x queued ec) :=
  ⟨onto.marked, onto.pending, onto.held⟩

theorem Onto.callback {ev : Event S I} (onto : Onto s) : Onto (s.callback t ev) := by
  unfold Threads.callback
  split
  · split
    · exact onto.continues
    · exact onto
  · exact onto

theorem calls_callback (s : Threads q X T) (t : T) (ev : Event S I) :
    (s.callback t ev).calls = s.calls := by
  unfold callback
  split
  · split <;> rfl
  · rfl

theorem target_callback (s : Threads q X T) (t : T) (ev : Event S I) :
    (s.callback t ev).target = s.target := by
  unfold callback
  split
  · split <;> rfl
  · rfl

section Steps
variable [DecidableEq S]

theorem Onto.setTarget (onto : Onto s) (fresh : s.target w = none) :
    Onto { s with target := Function.update s.target w (some x) } := by
  have kept (other : S) (y : X) (target : s.target other = some y) :
      Function.update s.target w (some x) other = some y := by
    have apart : other ≠ w := by
      rintro rfl
      cases fresh.symm.trans target
    rw [Function.update_of_ne apart, target]
  exact ⟨onto.marked, fun y other member => kept other y (onto.pending y other member),
    fun r frame member other holds => kept other _ (onto.held r frame member other holds)⟩

variable [DecidableEq X]

theorem Onto.schedule {queue : Bool} {result : Except Errno Unit} (onto : Onto s)
    (fresh : s.target w = none) : Onto (s.schedule t w x queue result) := by
  have named := onto.setTarget (x := x) fresh
  unfold Threads.schedule
  dsimp only
  split
  · exact named.continues
  · cases result with
    | ok =>
        refine named.setKernel fun other member => ?_
        rcases q.mem_post member with new | old
        · cases new
          exact Function.update_self _ _ _
        · exact named.pending x other old
    | error errno => exact named.continues

variable [DecidableEq T] [DecidableEq I]

theorem Onto.step {action : Action X T S I} (onto : Onto s)
    (taken : Threads.step s action = some u) : Onto u := by
  cases action with
  | run t x size =>
      obtain ⟨_, rfl⟩ := provided_eq_some.mp taken
      have entered : Onto ((s.setIndex t x true).setCalls t
          ({ context := x, pc := .waiting, bufferSize := size } :: s.calls t)) := onto.enter
      exact ⟨entered.marked, entered.pending, entered.held⟩
  | wait t batch =>
      obtain ⟨frame, outer, calls, taken⟩ := inLoop_eq_some taken
      obtain ⟨⟨place, _, _, available⟩, rfl⟩ := provided_eq_some.mp taken
      have removed : Onto (s.setKernel frame.context (q.remove batch (s.kernel frame.context))) :=
        onto.setKernel fun w member => onto.pending _ w (q.mem_remove available member)
      refine removed.setTop calls (fun _ => trivial) fun w holds => ?_
      have member : some (.schedule w) ∈ batch := List.reduceOption_mem_iff.mp holds
      exact onto.pending _ w (available.subset member)
  | waitFailed t errno =>
      obtain ⟨frame, outer, calls, taken⟩ := inLoop_eq_some taken
      obtain ⟨_, next⟩ := provided_eq_some.mp taken
      split at next <;> subst next
      · exact onto
      · exact onto.setTop calls (fun _ => trivial) fun w holds => nomatch holds
  | next t =>
      obtain ⟨frame, outer, calls, taken⟩ := inLoop_eq_some taken
      obtain ⟨pc, next, rfl⟩ := Option.map_eq_some_iff.mp taken
      refine onto.setTop calls (fun _ => (RunPc.next_inside next).2) fun w holds => ?_
      rw [RunPc.next_held next] at holds
      exact held_top onto calls holds
  | resume t =>
      obtain ⟨frame, outer, calls, taken⟩ := inLoop_eq_some taken
      split at taken
      · next ev rest interrupted place =>
          cases taken
          have back : Onto (s.callback t ev) := onto.callback
          refine back.setTop ((congrFun (calls_callback s t ev) t).trans calls) (fun _ => trivial)
            fun w holds => ?_
          rw [target_callback]
          exact held_top onto calls (by rw [place]; exact List.mem_cons_of_mem _ holds)
      · cases taken
  | resumed t =>
      simp only [Threads.step] at taken
      split at taken
      · next frame outer calls =>
          obtain ⟨_, rfl⟩ := provided_eq_some.mp taken
          exact onto.setTop calls id fun w holds => held_top onto calls holds
      · cases taken
  | check t =>
      obtain ⟨frame, outer, calls, taken⟩ := inLoop_eq_some taken
      obtain ⟨_, rfl⟩ := provided_eq_some.mp taken
      refine onto.setTop calls (fun _ => ?_) fun w holds => ?_
      · split <;> trivial
      · split at holds <;> cases holds
  | leave t =>
      obtain ⟨frame, outer, calls, taken⟩ := inLoop_eq_some taken
      split at taken
      · next ec _ =>
          cases taken
          have left : Onto ((s.setIndex t frame.context false).setCalls t
              ({ frame with pc := .closing ec } :: outer)) := onto.leave calls
          exact ⟨left.marked, left.pending, left.held⟩
      · cases taken
  | close t =>
      obtain ⟨frame, outer, calls, taken⟩ := inLoop_eq_some taken
      split at taken
      · next ec closing =>
          cases taken
          exact onto.post_none.close calls closing
      · cases taken
  | interrupt x =>
      cases taken
      exact onto.post_none
  | stop x =>
      cases taken
      exact onto.setState
  | schedule t w x queue result =>
      obtain ⟨⟨_, fresh, _⟩, rfl⟩ := provided_eq_some.mp taken
      exact onto.schedule fresh
  | notify x i =>
      cases taken
      refine onto.setKernel fun w member => ?_
      rcases q.mem_notify member with new | old
      · cases new
      · exact onto.pending x w old

structure Moved (c : Continuation X T S I) : Prop where
  inside : c.thrown = none → ∃ frame ∈ c.calls, frame.context = c.context
  thrown : ∀ ec, c.thrown = some ec ↔
    ∃ errno, c.queued = some (.error errno) ∧ ec = .native errno

structure Moving (s : Threads q X T) : Prop where
  onto : Onto s
  moved : ∀ c ∈ s.continued, Moved c

omit [DecidableEq X] [DecidableEq T] [DecidableEq S] [DecidableEq I] in
theorem moved_inside {queued : Option (Except Errno Unit)}
    (inside : ∃ frame ∈ s.calls t, frame.context = x)
    (queuing : ∀ errno, queued ≠ some (.error errno))
    (moved : ∀ c ∈ s.continued, Moved c) :
    ∀ c ∈ (s.continues t w x queued .ok).continued, Moved c := by
  intro c member
  rcases List.mem_append.mp member with old | new
  · exact moved c old
  · cases List.mem_singleton.mp new
    refine ⟨fun _ => inside, fun ec => iff_of_false (fun thrown => nomatch thrown) ?_⟩
    rintro ⟨errno, failed, _⟩
    exact queuing errno failed

omit [DecidableEq X] [DecidableEq T] [DecidableEq S] [DecidableEq I] in
theorem moved_failed {errno : Errno} (nonzero : errno ≠ 0) (moved : ∀ c ∈ s.continued, Moved c) :
    ∀ c ∈ (s.continues t w x (some (.error errno)) (.native errno)).continued, Moved c := by
  intro c member
  rcases List.mem_append.mp member with old | new
  · exact moved c old
  · cases List.mem_singleton.mp new
    have error : (ErrorCode.native errno).isError = true := by simpa using nonzero
    constructor
    · intro thrown
      rw [if_pos error] at thrown
      cases thrown
    · intro ec
      rw [if_pos error]
      constructor
      · intro same
        exact ⟨errno, rfl, (Option.some.inj same).symm⟩
      · rintro ⟨_, same, rfl⟩
        cases same
        rfl

omit [DecidableEq T] [DecidableEq I] in
theorem moved_schedule {queue : Bool} {result : Except Errno Unit} (onto : Onto s)
    (nonzero : result ≠ .error 0) (moved : ∀ c ∈ s.continued, Moved c) :
    ∀ c ∈ (s.schedule t w x queue result).continued, Moved c := by
  unfold Threads.schedule
  dsimp only
  split
  · next ready =>
      obtain ⟨frame, member, context, _⟩ := onto.marked t x (Bool.and_eq_true_iff.mp ready).2
      exact moved_inside ⟨frame, member, context⟩ (fun _ same => nomatch same) moved
  · cases result with
    | ok => exact moved
    | error errno => exact moved_failed (fun zero => nonzero (congrArg _ zero)) moved

theorem moved_step {action : Action X T S I} (onto : Onto s) (moved : ∀ c ∈ s.continued, Moved c)
    (taken : Threads.step s action = some u) : ∀ c ∈ u.continued, Moved c := by
  cases action with
  | schedule t w x queue result =>
      obtain ⟨⟨_, _, nonzero⟩, rfl⟩ := provided_eq_some.mp taken
      exact moved_schedule onto nonzero moved
  | resume t =>
      obtain ⟨frame, outer, calls, taken⟩ := inLoop_eq_some taken
      split at taken
      · next ev rest interrupted place =>
          cases taken
          cases ev with
          | io i => exact moved
          | schedule w =>
              have target := held_top onto calls (w := w) (by rw [place]; exact List.mem_cons_self ..)
              have back : s.callback t (.schedule w) =
                  s.continues t w frame.context (some (.ok ())) .ok := by
                simp only [callback, target]
              rw [back]
              exact moved_inside ⟨frame, calls ▸ List.mem_cons_self .., rfl⟩
                (fun _ same => nomatch same) moved
      · cases taken
  | run t x size =>
      obtain ⟨_, rfl⟩ := provided_eq_some.mp taken
      exact moved
  | wait t batch =>
      obtain ⟨frame, outer, _, taken⟩ := inLoop_eq_some taken
      obtain ⟨_, rfl⟩ := provided_eq_some.mp taken
      exact moved
  | waitFailed t errno =>
      obtain ⟨frame, outer, _, taken⟩ := inLoop_eq_some taken
      obtain ⟨_, next⟩ := provided_eq_some.mp taken
      split at next <;> subst next <;> exact moved
  | next t =>
      obtain ⟨frame, outer, _, taken⟩ := inLoop_eq_some taken
      obtain ⟨pc, _, rfl⟩ := Option.map_eq_some_iff.mp taken
      exact moved
  | resumed t =>
      simp only [Threads.step] at taken
      split at taken
      · obtain ⟨_, rfl⟩ := provided_eq_some.mp taken
        exact moved
      · cases taken
  | check t =>
      obtain ⟨frame, outer, _, taken⟩ := inLoop_eq_some taken
      obtain ⟨_, rfl⟩ := provided_eq_some.mp taken
      exact moved
  | leave t =>
      obtain ⟨frame, outer, _, taken⟩ := inLoop_eq_some taken
      split at taken
      · cases taken
        exact moved
      · cases taken
  | close t =>
      obtain ⟨frame, outer, _, taken⟩ := inLoop_eq_some taken
      split at taken
      · cases taken
        exact moved
      · cases taken
  | interrupt x =>
      cases taken
      exact moved
  | stop x =>
      cases taken
      exact moved
  | notify x i =>
      cases taken
      exact moved

/-! ## What a coroutine gets -/

omit [DecidableEq X] [DecidableEq T] [DecidableEq S] [DecidableEq I] in
theorem continued_continues {queued : Option (Except Errno Unit)} {ec : ErrorCode} :
    (s.continues t w x queued ec).continued = s.continued ++
      [{ wait := w, context := x, thread := t, calls := s.calls t, queued
         thrown := if ec.isError then some ec else none }] := rfl

theorem continued_failed {queue : Bool} {errno : Errno}
    (taken : Threads.step s (.schedule t w x queue (.error errno)) = some u)
    (queues : queue = true ∨ s.index t x = false) : u.continued = s.continued ++
      [{ wait := w, context := x, thread := t, calls := s.calls t
         queued := some (.error errno), thrown := some (.native errno) }] := by
  obtain ⟨⟨_, _, nonzero⟩, rfl⟩ := provided_eq_some.mp taken
  have error : (ErrorCode.native errno).isError = true := by
    simpa using fun zero : errno = 0 => nonzero (congrArg _ zero)
  have slow : ¬ (!queue && s.index t x) = true := by
    rcases queues with rfl | unmarked <;> simp_all
  simp only [Threads.schedule, if_neg slow, continued_continues, if_pos error]

theorem continued_ready {result : Except Errno Unit}
    (taken : Threads.step s (.schedule t w x false result) = some u)
    (current : s.index t x = true) : u.continued = s.continued ++
      [{ wait := w, context := x, thread := t, calls := s.calls t, queued := none
         thrown := none }] := by
  obtain ⟨_, rfl⟩ := provided_eq_some.mp taken
  simp only [Threads.schedule, current, Bool.not_false, Bool.and_self, if_true,
    continued_continues]
  rfl

theorem continued_resumed {rest : List (Entry S I)} {interrupted : Bool} (onto : Onto s)
    (calls : s.calls t = frame :: outer)
    (place : frame.pc = .dispatching (.schedule w) rest interrupted)
    (taken : Threads.step s (.resume t) = some u) : u.continued = s.continued ++
      [{ wait := w, context := frame.context, thread := t, calls := s.calls t
         queued := some (.ok ()), thrown := none }] := by
  have target := held_top onto calls (w := w) (by rw [place]; exact List.mem_cons_self ..)
  obtain ⟨_, _, same, next⟩ := inLoop_eq_some taken
  cases calls.symm.trans same
  simp only [place, callback, target] at next
  cases next
  rfl

/-- Whatever the threads run, however their calls are nested and whatever is queued, stopped or
fails: each coroutine that goes on after `schedule` without an exception is in a call of `run` of
that context on its thread, and one that gets an exception gets the code of the failed call. It goes
on at once where `schedule` is ready, with the exception where queueing fails, and otherwise in the
callback of the event. -/
theorem schedule_moves_onto_context (os : Os) (s : Threads (queue S I os) X T)
    (reached : Reachable Threads.step {} s) :
    (∀ c ∈ s.continued, Moved c) ∧
    (∀ t w x queue errno u, Threads.step s (.schedule t w x queue (.error errno)) = some u →
      queue = true ∨ s.index t x = false → u.continued = s.continued ++
        [{ wait := w, context := x, thread := t, calls := s.calls t
           queued := some (.error errno), thrown := some (.native errno) }]) ∧
    (∀ t w x result u, Threads.step s (.schedule t w x false result) = some u →
      s.index t x = true → u.continued = s.continued ++
        [{ wait := w, context := x, thread := t, calls := s.calls t, queued := none
           thrown := none }]) ∧
    (∀ t frame outer w rest interrupted u, s.calls t = frame :: outer →
      frame.pc = .dispatching (.schedule w) rest interrupted →
      Threads.step s (.resume t) = some u → u.continued = s.continued ++
        [{ wait := w, context := frame.context, thread := t, calls := s.calls t
           queued := some (.ok ()), thrown := none }]) := by
  have start : Moving ({} : Threads (queue S I os) X T) := by
    refine ⟨⟨(fun _ _ marker => nomatch marker), fun x w member => ?_, ?_⟩, ?_⟩
    · simp only [(queue S I os).pending_create] at member
      cases member
    · rintro t frame member
      cases member
    · rintro c member
      cases member
  have moving := reached.invariant start fun s action u moving _ taken =>
    (⟨moving.onto.step taken, moved_step moving.onto moving.moved taken⟩ : Moving u)
  refine ⟨moving.moved, ?_, ?_, ?_⟩
  · intro t w x queue errno u taken queues
    exact continued_failed taken queues
  · intro t w x result u taken current
    exact continued_ready taken current
  · intro t frame outer w rest interrupted u calls place taken
    exact continued_resumed moving.onto calls place taken

end Steps

theorem schedule_moves_nested :
    ∃ s : Threads (queue Nat Unit .linux) Bool Bool, s.continued.map (·.wait) = [0, 1] ∧
      (∀ c ∈ s.continued, Moved c) ∧
      ∃ u, Threads.step s (.schedule false 2 true false (.error 9)) = some u ∧
        u.continued.map (·.thrown) = [none, none, some (.native 9)] := by
  let actions : List (Action Bool Bool Nat Unit) :=
    [.run true true 1, .schedule false 0 true false (.ok ()), .wait true [some (.schedule 0)],
      .next true, .resume true, .run true false 1, .interrupt false, .wait true [none], .next true,
      .next true, .check true, .waitFailed true 9, .leave true, .close true,
      .schedule true 1 true false (.ok ())]
  obtain ⟨s, ran⟩ : ∃ s, exec Threads.step ({} : Threads (queue Nat Unit .linux) Bool Bool) actions =
      some s := ⟨_, rfl⟩
  obtain ⟨moved, failed, _⟩ := schedule_moves_onto_context .linux s (exec_reachable ran)
  cases ran
  refine ⟨_, rfl, moved, _, rfl, ?_⟩
  rw [failed false 2 true false 9 _ rfl (.inr rfl)]
  rfl

end Threads

end Ice.Context
