import Ice.Lib.Transition
import Ice.Net.Buffer

namespace Ice.Net.Tcp.Windows
open Transition

def ioPending : Errno := 997

structure Send where
  buffer : Buffer
  size : Nat := 0
  bytes : Nat := 0
  ec : ErrorCode := .ok
  deriving DecidableEq, Repr

namespace Send

/-- One pass of the loop in `send::suspend`: what `WSASend` reports decides whether `suspend`
returns, with which value, or goes round again. -/
def issue (s : Send) : Except Errno Nat → Send × Option Bool
  | .error rc =>
      if rc ≠ ioPending then ({ s with ec := .native rc }, some false)
      else (s, some true)
  | .ok bytes =>
      let sent := { s with
        bytes := bytes
        buffer := { data := s.buffer.data + bytes, size := subSize 32 s.buffer.size bytes }
        size := addSize 64 s.size bytes }
      (sent, if bytes = 0 ∨ sent.buffer.size = 0 then some false else none)

/-- `send::resume`, given what `GetOverlappedResult` reports. The pointer is moved forward and
back again, and the size of the buffer is left alone. -/
def resume (s : Send) : Except Errno Nat → Send × Bool
  | .error rc => ({ s with ec := .native rc }, true)
  | .ok bytes =>
      let sent := { s with
        bytes := bytes
        buffer := { s.buffer with data := s.buffer.data + bytes - bytes }
        size := addSize 64 s.size bytes }
      (sent, !(0 < bytes ∧ 0 < sent.buffer.size))

def awaitResume (s : Send) : Except ErrorCode Nat :=
  if s.ec.isError then .error s.ec else .ok s.size

end Send

inductive Phase where
  | calling
  | pending
  | completed
  deriving DecidableEq, Repr

structure Transfer (β : Type*) where
  send : Send
  phase : Phase
  wire : List β := []

inductive Event where
  | sent (result : Except Errno Nat)
  | completed (result : Except Errno Nat)
  deriving DecidableEq, Repr

def Event.result : Event → Except Errno Nat
  | .sent result | .completed result => result

def Possible (buffer : Buffer) : Except Errno Nat → Prop
  | .ok bytes => bytes ≤ buffer.size
  | .error rc => rc ≠ 0

instance (buffer : Buffer) (result : Except Errno Nat) : Decidable (Possible buffer result) := by
  cases result <;> unfold Possible <;> infer_instance

namespace Transfer
variable {β : Type*}

def loop (t : Transfer β) : Transfer β :=
  { t with phase := if 0 < t.send.buffer.size then .calling else .completed }

def start (memory : List β) : Transfer β :=
  loop { send := { buffer := .make .win32 memory.length }, phase := .calling }

def consumed (memory : List β) (t : Transfer β) : Except Errno Nat → List β
  | .ok bytes => t.wire ++ (t.send.buffer.view memory).take bytes
  | .error _ => t.wire

def step (memory : List β) (t : Transfer β) : Event → Option (Transfer β)
  | .sent result =>
      provided (t.phase = .calling ∧ Possible t.send.buffer result) <|
        let next := { t with send := (t.send.issue result).1, wire := t.consumed memory result }
        match (t.send.issue result).2 with
        | none => next.loop
        | some true => { next with phase := .pending }
        | some false => { next with phase := .completed }
  | .completed result =>
      provided (t.phase = .pending ∧ Possible t.send.buffer result) <|
        let next := { t with send := (t.send.resume result).1, wire := t.consumed memory result }
        if (t.send.resume result).2 then { next with phase := .completed } else next.loop

theorem loop_completed {t : Transfer β} (done : t.loop.phase = .completed) :
    t.send.buffer.size = 0 := by
  simp only [loop] at done
  split at done <;> simp_all

theorem step_sent {memory : List β} {t u : Transfer β} {result : Except Errno Nat}
    (action : step memory t (.sent result) = some u) :
    Possible t.send.buffer result ∧ u.send = (t.send.issue result).1 ∧
      u.wire = t.consumed memory result ∧
      (u.phase = .completed →
        u.send.buffer.size = 0 ∨ (t.send.issue result).2 = some false) := by
  simp only [step, provided_eq_some] at action
  obtain ⟨⟨_, possible⟩, next⟩ := action
  cases again : (t.send.issue result).2 with
  | none =>
      simp only [again] at next
      subst next
      exact ⟨possible, rfl, rfl, fun done => .inl (loop_completed done)⟩
  | some suspended =>
      cases suspended <;> simp only [again] at next <;> subst next <;> simp [possible]

theorem step_completed {memory : List β} {t u : Transfer β} {result : Except Errno Nat}
    (action : step memory t (.completed result) = some u) :
    Possible t.send.buffer result ∧ u.send = (t.send.resume result).1 ∧
      u.wire = t.consumed memory result ∧
      (u.phase = .completed → u.send.buffer.size = 0 ∨ (t.send.resume result).2 = true) := by
  simp only [step, provided_eq_some] at action
  obtain ⟨⟨_, possible⟩, next⟩ := action
  cases finished : (t.send.resume result).2 with
  | false =>
      simp only [finished, Bool.false_eq_true, ↓reduceIte] at next
      subst next
      exact ⟨possible, rfl, rfl, fun done => .inl (loop_completed done)⟩
  | true =>
      simp only [finished, ↓reduceIte] at next
      subst next
      simp [possible]

def Accounted (memory : List β) (t : Transfer β) : Prop :=
  t.wire = memory.take t.send.size ∧ t.send.buffer.data = t.send.size ∧
    t.send.size + t.send.buffer.size = memory.length

theorem Accounted.consumed_ok {memory : List β} {t : Transfer β} {bytes : Nat}
    (accounted : Accounted memory t) (within : bytes ≤ t.send.buffer.size) :
    t.consumed memory (.ok bytes) = memory.take (t.send.size + bytes) := by
  obtain ⟨wire, data, _⟩ := accounted
  rw [consumed, Buffer.view, wire, data, List.take_take, Nat.min_eq_left within,
    List.take_add]

theorem Accounted.issue {memory : List β} {t : Transfer β} {result : Except Errno Nat}
    (fits : memory.length < 2 ^ 32) (accounted : Accounted memory t)
    (possible : Possible t.send.buffer result) :
    t.consumed memory result = memory.take (t.send.issue result).1.size ∧
      (t.send.issue result).1.buffer.data = (t.send.issue result).1.size ∧
      (t.send.issue result).1.size + (t.send.issue result).1.buffer.size = memory.length := by
  cases result with
  | error rc =>
      simp only [Send.issue]
      split <;> exact accounted
  | ok bytes =>
      have within : bytes ≤ t.send.buffer.size := possible
      obtain ⟨_, data, size⟩ := id accounted
      have total : addSize 64 t.send.size bytes = t.send.size + bytes := addSize_of_lt (by omega)
      have left : subSize 32 t.send.buffer.size bytes = t.send.buffer.size - bytes :=
        subSize_of_le within (by omega)
      simp only [Send.issue, total, left, data]
      exact ⟨accounted.consumed_ok within, trivial, by omega⟩

theorem Accounted.resume_iff {memory : List β} {t : Transfer β} {result : Except Errno Nat}
    (fits : memory.length < 2 ^ 32) (accounted : Accounted memory t)
    (possible : Possible t.send.buffer result) :
    (t.consumed memory result = memory.take (t.send.resume result).1.size ∧
      (t.send.resume result).1.buffer.data = (t.send.resume result).1.size ∧
      (t.send.resume result).1.size + (t.send.resume result).1.buffer.size = memory.length) ↔
    ∀ bytes, result = .ok bytes → bytes = 0 := by
  cases result with
  | error rc =>
      simp only [reduceCtorEq, false_implies, implies_true, iff_true]
      exact accounted
  | ok bytes =>
      have within : bytes ≤ t.send.buffer.size := possible
      obtain ⟨_, data, size⟩ := id accounted
      have total : addSize 64 t.send.size bytes = t.send.size + bytes := addSize_of_lt (by omega)
      simp only [Send.resume, total, data, Nat.add_sub_cancel, Except.ok.injEq, forall_eq']
      constructor
      · rintro ⟨_, pointer, _⟩
        omega
      · rintro rfl
        exact ⟨accounted.consumed_ok within, rfl, size⟩

end Transfer

def Event.Overlapped : Event → Prop
  | .sent _ => False
  | .completed result => ∃ bytes, result = .ok bytes ∧ 0 < bytes

namespace Transfer
variable {β : Type*} {memory : List β}

theorem start_accounted : Accounted memory (start memory) ↔ memory.length < 2 ^ 32 := by
  simp only [Accounted, start, loop, Buffer.make, sizeBits, List.take_zero, true_and]
  omega

theorem accounted_step (fits : memory.length < 2 ^ 32) (t : Transfer β) (e : Event)
    (u : Transfer β) (accounted : Accounted memory t) (action : step memory t e = some u) :
    Accounted memory u ↔ ¬ e.Overlapped := by
  cases e with
  | sent result =>
      obtain ⟨possible, send, wire, _⟩ := step_sent action
      have booked := accounted.issue fits possible
      rw [← send, ← wire] at booked
      exact iff_of_true booked not_false
  | completed result =>
      obtain ⟨possible, send, wire, _⟩ := step_completed action
      have booked := accounted.resume_iff fits possible
      rw [← send, ← wire] at booked
      rw [Accounted, booked]
      simp only [Event.Overlapped, not_exists, not_and, Nat.not_lt, Nat.le_zero]

def Settled (t : Transfer β) : Prop :=
  t.phase = .completed → t.send.ec.isError = true ∨ t.send.buffer.size = 0

theorem start_settled : Settled (start memory) := fun done => .inr (loop_completed done)

theorem settled_step (t : Transfer β) (e : Event) (u : Transfer β)
    (progress : e.result ≠ .ok 0) (action : step memory t e = some u) : Settled u := by
  intro done
  cases e with
  | sent result =>
      obtain ⟨possible, send, _, ended⟩ := step_sent action
      rcases ended done with empty | stopped
      · exact .inr empty
      · cases result with
        | error rc =>
            simp only [Send.issue] at stopped send
            split at stopped
            · rename_i other
              have nonzero : rc ≠ 0 := possible
              exact .inl (by simpa [send, other] using nonzero)
            · simp at stopped
        | ok bytes =>
            have positive : bytes ≠ 0 := fun zero => progress (by simp [Event.result, zero])
            simp only [Send.issue, positive, false_or] at stopped send
            split at stopped
            · exact .inr (by simpa [send])
            · simp at stopped
  | completed result =>
      obtain ⟨possible, send, _, ended⟩ := step_completed action
      rcases ended done with empty | stopped
      · exact .inr empty
      · cases result with
        | error rc =>
            have nonzero : rc ≠ 0 := possible
            exact .inl (by simpa [send, Send.resume] using nonzero)
        | ok bytes =>
            have positive : 0 < bytes :=
              Nat.pos_of_ne_zero fun zero => progress (by simp [Event.result, zero])
            right
            simpa [Send.resume, positive, send] using stopped

def Delivers (memory : List β) (events : List Event) : Prop :=
  Always (step memory) (Accounted memory) (start memory) events ∧
    ∀ t, exec (step memory) (start memory) events = some t → t.phase = .completed →
      t.send.ec = .ok → (∀ e ∈ events, e.result ≠ .ok 0) →
      t.send.awaitResume = .ok memory.length ∧ t.wire = memory

theorem Accounted.completed {t : Transfer β} (accounted : Accounted memory t)
    (settled : Settled t) (done : t.phase = .completed) (clean : t.send.ec = .ok) :
    t.send.awaitResume = .ok memory.length ∧ t.wire = memory := by
  obtain ⟨wire, _, size⟩ := accounted
  have empty : t.send.buffer.size = 0 := by simpa [clean] using settled done
  have all : t.send.size = memory.length := by omega
  exact ⟨by simp [Send.awaitResume, clean, all], by simp [wire, all]⟩

/-- `send` delivers the caller's bytes exactly in those runs in which the length fits the buffer's
size type and no overlapped completion reports progress. -/
theorem send_delivers_iff (events : List Event) (t : Transfer β)
    (run : exec (step memory) (start memory) events = some t) :
    Delivers memory events ↔ memory.length < 2 ^ 32 ∧ ∀ e ∈ events, ¬ e.Overlapped := by
  have sharp (fits : memory.length < 2 ^ 32) :
      Always (step memory) (Accounted memory) (start memory) events ↔
        ∀ e ∈ events, ¬ e.Overlapped := by
    rw [← alwaysMeets_iff_forall run]
    exact always_iff_alwaysMeets (fun _ => True) run trivial (start_accounted.mpr fits)
      (fun _ _ _ _ _ => trivial) fun s a u _ => accounted_step fits s a u
  constructor
  · rintro ⟨always, _⟩
    have fits := start_accounted.mp always.first
    exact ⟨fits, (sharp fits).mp always⟩
  · rintro ⟨fits, immediate⟩
    have always := (sharp fits).mpr immediate
    refine ⟨always, fun u reached done clean progress => ?_⟩
    have advancing : Reaches (step memory) (fun _ e => e.result ≠ .ok 0) (start memory) u :=
      exec_reaches reached fun e member _ => progress e member
    have settled : Settled u := advancing.invariant start_settled
      fun s e u _ met action => settled_step s e u met action
    exact (always.last reached).completed settled done clean

theorem send_delivers_two_writes :
    Delivers [10, 20] [.sent (.ok 1), .sent (.ok 1)] :=
  (send_delivers_iff [.sent (.ok 1), .sent (.ok 1)] _ rfl).mpr
    ⟨by decide, by simp [Event.Overlapped]⟩

theorem send_repeats_bytes : ¬ ∀ (memory : List Nat) (events : List Event) (t : Transfer Nat),
    exec (step memory) (start memory) events = some t → Delivers memory events := by
  intro delivers
  let events : List Event := [.sent (.error ioPending), .completed (.ok 1), .sent (.ok 2)]
  have all := (delivers [10, 20] events _ rfl).2 _ rfl rfl rfl (by decide)
  have wire : ([10, 10, 20] : List Nat) = [10, 20] := all.2
  exact absurd wire (by decide)

end Transfer

end Ice.Net.Tcp.Windows
