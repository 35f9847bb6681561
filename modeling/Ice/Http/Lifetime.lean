import Ice.Http.Handler

/-!
# What the responders of a connection refer to

`respond` runs detached from `handle` and refers to the client socket and the mutex in its frame.
Here the receive loop can also end by an exception, which destroys the frame as the return does.
-/

namespace Ice.Http
open Transition Net

namespace Lifetime

/-- What the frame of `handle` is used by. A responder in `unlocking` has passed the mutex on in the
destructor of its lock and is still in the call of `resume` with which `unlock` ends. -/
structure Frame where
  state : State
  unlocking : List Nat := []
  deriving DecidableEq

/-- The end of a `recv` with the bytes of the buffer, and the end of a responder's `send`, each with
the members of the operation that its `await_resume` looks at; a responder's call of `unlock`, and
its end after that call has returned. -/
inductive Action where
  | recv (op : Tcp.Recv) (buffer : Vector Byte 1024)
  | scan
  | send (op : Sending)
  | unlock
  | finish (i : Nat)
  deriving DecidableEq

def Frame.start : Frame := { state := .start }

def received (os : Os) (response : List Byte) (s : State) (op : Tcp.Recv)
    (buffer : Vector Byte 1024) : State :=
  match op.awaitResume with
  | .error _ => { s with handle := .finished }
  | .ok 0 => State.request os response { s with handle := .locking } .handle
  | .ok size =>
      { s with
        received := s.received ++ buffer.toList.take size
        handle := State.next (buffer.toList.take size) }

def step (os : Os) (response : List Byte) (f : Frame) : Action → Option Frame
  | .recv op buffer =>
      provided (f.state.handle = .receiving ∧ op.buffer.size ≤ 1024)
        { f with state := received os response f.state op buffer }
  | .scan => (f.state.step os response .scan).map fun state => { f with state }
  -- An exception of `send` leaves `respond` through the destructor of its lock, as its end does.
  | .send op =>
      provided (f.state.responding ∧ f.state.sent = false)
        { f with state := { f.state with sending := op, sent := true } }
  -- Where `handle` is next, it is resumed in this call and runs to its end.
  | .unlock =>
      match f.state.line with
      | .responder i :: _ =>
          (f.state.step os response .unlock).map fun state =>
            { state, unlocking := i :: f.unlocking }
      | _ => none
  | .finish i => provided (i ∈ f.unlocking) { f with unlocking := f.unlocking.erase i }

def Finished (f : Frame) : Prop := (∀ client ∈ f.state.line, client = .handle) ∧ f.unlocking = []

instance (f : Frame) : Decidable (Finished f) :=
  inferInstanceAs (Decidable ((∀ client ∈ f.state.line, client = .handle) ∧ f.unlocking = []))

def Outlives (f : Frame) : Prop := f.state.handle = .finished → Finished f

/-- A `recv` that throws, or that ends the stream while the mutex is free, does so when no responder
is left, and no responder unlocks the mutex with `handle` next in the line. -/
def Spares (f : Frame) : Action → Prop
  | .recv op _ => op.ec.isError ∨ op.buffer.size = 0 ∧ f.state.line = [] → Finished f
  | .unlock => f.state.line.tail.head? ≠ some .handle
  | _ => True

instance (f : Frame) : (a : Action) → Decidable (Spares f a)
  | .recv op _ => inferInstanceAs
      (Decidable (op.ec.isError ∨ op.buffer.size = 0 ∧ f.state.line = [] → Finished f))
  | .unlock => inferInstanceAs (Decidable (f.state.line.tail.head? ≠ some .handle))
  | .scan => .isTrue trivial
  | .send _ => .isTrue trivial
  | .finish _ => .isTrue trivial

variable {os : Os} {response : List Byte} {f g : Frame} {s t : State} {client : Client} {a : Action}

theorem grant_line : (State.grant os response s).line = s.line := by
  unfold State.grant
  split <;> rfl

theorem grant_handle : (State.grant os response s).handle =
    if s.line.head? = some .handle then .finished else s.handle := by
  unfold State.grant
  split <;> simp_all

theorem request_line : (State.request os response s client).line = s.line ++ [client] := by
  unfold State.request
  split
  · exact grant_line
  · rfl

theorem request_handle : (State.request os response s client).handle =
    if s.line = [] ∧ client = .handle then .finished else s.handle := by
  unfold State.request
  split
  next empty => simp [grant_handle, empty]
  next busy => simp [busy]

theorem release_line : (State.release os response s).line = s.line.tail := grant_line

theorem release_handle : (State.release os response s).handle =
    if s.line.tail.head? = some .handle then .finished else s.handle := grant_handle

theorem respond_line :
    (State.respond os response s).line = s.line ++ [.responder s.started] := request_line

theorem respond_handle : (State.respond os response s).handle = s.handle := by
  simp [State.respond, request_handle]

/-! ## One step -/

inductive Moved (f g : Frame) : Action → Prop where
  | thrown {op : Tcp.Recv} {buffer : Vector Byte 1024} (throws : op.ec.isError = true)
      (reading : f.state.handle = .receiving) (line : g.state.line = f.state.line)
      (unlocking : g.unlocking = f.unlocking) (handle : g.state.handle = .finished) :
      Moved f g (.recv op buffer)
  | ended {op : Tcp.Recv} {buffer : Vector Byte 1024} (clean : op.ec.isError = false)
      (empty : op.buffer.size = 0) (reading : f.state.handle = .receiving)
      (line : g.state.line = f.state.line ++ [.handle]) (unlocking : g.unlocking = f.unlocking)
      (handle : g.state.handle = if f.state.line = [] then .finished else .locking) :
      Moved f g (.recv op buffer)
  | reads {a : Action} (spares : Spares f a)
      (before : f.state.handle ≠ .locking ∧ f.state.handle ≠ .finished)
      (after : g.state.handle ≠ .locking ∧ g.state.handle ≠ .finished)
      (line : g.state.line = f.state.line ∨ ∃ i, g.state.line = f.state.line ++ [.responder i]) :
      Moved f g a
  | sent {op : Sending} (line : g.state.line = f.state.line) (unlocking : g.unlocking = f.unlocking)
      (handle : g.state.handle = f.state.handle) : Moved f g (.send op)
  | unlocked (i : Nat) (rest : List Client) (line : f.state.line = .responder i :: rest)
      (left : g.state.line = rest) (unlocking : g.unlocking ≠ [])
      (handle : g.state.handle =
        if rest.head? = some .handle then .finished else f.state.handle) : Moved f g .unlock
  | finished {i : Nat} (state : g.state = f.state) (unlocking : f.unlocking ≠ []) :
      Moved f g (.finish i)

theorem next_reads (rest : List Byte) :
    State.next rest ≠ .locking ∧ State.next rest ≠ .finished := by
  cases rest <;> simp [State.next]

theorem recv_moved {op : Tcp.Recv} {buffer : Vector Byte 1024}
    (action : step os response f (.recv op buffer) = some g) : Moved f g (.recv op buffer) := by
  simp only [step, provided_eq_some] at action
  obtain ⟨⟨reading, _⟩, rfl⟩ := action
  cases fails : op.ec.isError with
  | true =>
      have thrown : received os response f.state op buffer = { f.state with handle := .finished } := by
        simp only [received, Tcp.Recv.awaitResume, fails, ↓reduceIte]
      rw [thrown]
      exact .thrown fails reading rfl rfl rfl
  | false =>
      cases size : op.buffer.size with
      | zero =>
          have ended : received os response f.state op buffer =
              State.request os response { f.state with handle := .locking } .handle := by
            simp only [received, Tcp.Recv.awaitResume, fails, Bool.false_eq_true, ↓reduceIte, size]
          rw [ended]
          refine .ended fails size reading request_line rfl ?_
          rw [request_handle]
          simp
      | succ n =>
          have data : received os response f.state op buffer =
              { f.state with
                received := f.state.received ++ buffer.toList.take (n + 1)
                handle := State.next (buffer.toList.take (n + 1)) } := by
            simp only [received, Tcp.Recv.awaitResume, fails, Bool.false_eq_true, ↓reduceIte, size]
          rw [data]
          refine .reads ?_ (by simp [reading]) (next_reads _) (.inl rfl)
          simp [Spares, fails, size]

theorem scan_moved (action : step os response f .scan = some g) : Moved f g .scan := by
  simp only [step, Option.map_eq_some_iff] at action
  obtain ⟨t, action, rfl⟩ := action
  simp only [State.step] at action
  split at action
  next c rest place =>
    cases action
    refine .reads trivial (by simp [place]) ?_ ?_
    · split
      · rw [respond_handle]
        exact next_reads rest
      · exact next_reads rest
    · split
      · exact .inr ⟨_, respond_line⟩
      · exact .inl rfl
  next => cases action

theorem unlock_moved (action : step os response f .unlock = some g) : Moved f g .unlock := by
  simp only [step] at action
  split at action
  next i rest line =>
    simp only [State.step, Option.map_eq_some_iff, provided_eq_some] at action
    obtain ⟨t, ⟨_, rfl⟩, rfl⟩ := action
    refine .unlocked i rest line ?_ (List.cons_ne_nil _ _) ?_
    · rw [release_line, line]
      rfl
    · rw [release_handle, line]
      rfl
  next => cases action

theorem step_moved (action : step os response f a = some g) : Moved f g a := by
  cases a with
  | recv op buffer => exact recv_moved action
  | scan => exact scan_moved action
  | send op =>
      obtain ⟨_, rfl⟩ := provided_eq_some.mp action
      exact .sent rfl rfl rfl
  | unlock => exact unlock_moved action
  | finish i =>
      obtain ⟨member, rfl⟩ := provided_eq_some.mp action
      exact .finished rfl (List.ne_nil_of_mem member)

theorem outlives_step (outlives : Outlives f) (action : step os response f a = some g) :
    Outlives g ↔ Spares f a := by
  cases step_moved action with
  | thrown throws reading line unlocking handle =>
      simp [Outlives, Spares, Finished, handle, line, unlocking, throws]
  | ended clean ends reading line unlocking handle =>
      by_cases empty : f.state.line = [] <;>
        simp [Outlives, Spares, Finished, handle, line, unlocking, empty, clean, ends]
  | reads spares before after line =>
      exact iff_of_true (fun finished => absurd finished after.2) spares
  | sent line unlocking handle =>
      apply iff_of_true _ trivial
      simpa [Outlives, Finished, line, unlocking, handle] using outlives
  | unlocked i rest line left unlocking handle =>
      have working : f.state.handle ≠ .finished := by
        intro finished
        have only := (outlives finished).1 (.responder i) (line ▸ List.mem_cons_self)
        cases only
      simp only [Outlives, Spares, Finished, handle, line, List.tail_cons, unlocking, and_false,
        imp_false]
      by_cases next : rest.head? = some .handle <;> simp [next, working]
  | finished state unlocking =>
      apply iff_of_true _ trivial
      intro finished
      exact absurd (outlives (state ▸ finished)).2 unlocking

/-! ## Runs -/

/-- `handle` is outlived by none of its responders exactly when no `recv` throws, or ends the stream
with the mutex free, while one of them is unfinished, and `handle` is never waiting for the mutex
when the last of them unlocks it: it is resumed within that `unlock`. -/
theorem responders_outlived_iff (os : Os) (response : List Byte) (actions : List Action)
    (f : Frame) (run : exec (step os response) .start actions = some f) :
    Always (step os response) Outlives .start actions ↔
      AlwaysMeets (step os response) Spares .start actions := by
  apply always_iff_alwaysMeets (fun _ => True) run trivial
  · exact fun finished => by simp [Frame.start, State.start] at finished
  · exact fun _ _ _ _ _ => trivial
  · exact fun f a g _ outlives action => outlives_step outlives action

def timedOut : Tcp.Recv := (Tcp.Recv.awaitReady .linux (.make .linux 1024) (.error 110)).1

def request : List Action :=
  [.recv { buffer := { size := 2 } } (.replicate 1024 10), .scan, .scan]

theorem responders_outlived_after_send :
    ∃ f, exec (step .linux gResponse) .start
        (request ++ [.send (.make .linux 158), .unlock, .finish 0,
          .recv timedOut (.replicate 1024 10)]) = some f ∧
      f.state.handle = .finished ∧ Outlives f := by
  let actions :=
    request ++ [.send (.make .linux 158), .unlock, .finish 0,
      .recv timedOut (.replicate 1024 10)]
  obtain ⟨f, run, finished⟩ : ∃ f, exec (step .linux gResponse) .start actions = some f ∧
      f.state.handle = .finished := ⟨_, rfl, rfl⟩
  have spared : AlwaysMeets (step .linux gResponse) Spares .start actions := by decide +kernel
  have outlived := (responders_outlived_iff .linux gResponse actions f run).mpr spared
  exact ⟨f, run, finished, outlived.last run⟩

theorem responder_outlives_handle :
    ¬ ∀ f, Reachable (step .linux gResponse) .start f → Outlives f := by
  intro outlived
  obtain ⟨f, run⟩ : ∃ f, exec (step .linux gResponse) .start
      (request ++ [.recv timedOut (.replicate 1024 10)]) = some f := ⟨_, rfl⟩
  have holds := outlived f (exec_reachable run)
  cases run
  have only := (holds rfl).1 (.responder 0) (by decide)
  cases only

end Lifetime

end Ice.Http
