import Ice.Lib.Transition
import Ice.Error
import Mathlib.Tactic.Common

namespace Ice.Net.Ssh.Channel
open Transition

def libssh2Eagain : Int := -37

inductive Phase where
  | calling
  | waiting
  | returned
  | threwDomain (rv : Int)
  | threwSystem (ec : ErrorCode)
  deriving DecidableEq, Repr

/-- The local state of `channel::write`. `taken` lists what libssh2 has taken: each byte with the
place in the data it was read from. -/
structure Write (β : Type*) where
  written : Nat := 0
  phase : Phase
  taken : List (β × Nat) := []

inductive Event where
  | wrote (rv : Int)
  | waited (result : Except ErrorCode Unit)

def Event.Takes : Event → Prop
  | .wrote rv => 0 < rv
  | .waited _ => False

namespace Write
variable {β : Type*}

def loop (data : List β) (w : Write β) : Write β :=
  { w with phase := if w.written < data.length then .calling else .returned }

def start (data : List β) : Write β := loop data { phase := .calling }

/-- Each call is given `data.data()` and `data.size()`, whatever has been written before; a result
`rv ≥ 0` means that its first `rv` bytes were taken. -/
def step (data : List β) (w : Write β) : Event → Option (Write β)
  | .wrote rv =>
      provided (w.phase = .calling ∧ rv ≤ data.length) <|
        if 0 ≤ rv then
          loop data { w with
            written := w.written + rv.toNat
            taken := w.taken ++ data.zipIdx.take rv.toNat }
        else if rv ≠ libssh2Eagain then { w with phase := .threwDomain rv }
        else { w with phase := .waiting }
  | .waited result =>
      provided (w.phase = .waiting) <|
        match result with
        | .error ec => { w with phase := .threwSystem ec }
        | .ok () => loop data w

@[simp] theorem loop_written (data : List β) (w : Write β) : (loop data w).written = w.written :=
  rfl

@[simp] theorem loop_taken (data : List β) (w : Write β) : (loop data w).taken = w.taken := rfl

theorem step_wrote {data : List β} {w v : Write β} {rv : Int}
    (action : step data w (.wrote rv) = some v) :
    rv ≤ data.length ∧ v.written = w.written + rv.toNat ∧
      v.taken = w.taken ++ data.zipIdx.take rv.toNat := by
  simp only [step, provided_eq_some] at action
  obtain ⟨⟨_, within⟩, next⟩ := action
  split_ifs at next with nonneg other
  · subst next
    exact ⟨within, rfl, rfl⟩
  all_goals
    have none : rv.toNat = 0 := Int.toNat_of_nonpos (by omega)
    subst next
    simp [within, none]

theorem step_waited {data : List β} {w v : Write β} {result : Except ErrorCode Unit}
    (action : step data w (.waited result) = some v) :
    v.written = w.written ∧ v.taken = w.taken := by
  simp only [step, provided_eq_some] at action
  obtain ⟨_, next⟩ := action
  cases result <;> subst next <;> exact ⟨rfl, rfl⟩

def Delivered (data : List β) (w : Write β) : Prop :=
  w.written ≤ data.length ∧ w.taken = data.zipIdx.take w.written

theorem Delivered.bytes {data : List β} {w : Write β} (delivered : Delivered data w) :
    w.taken.map Prod.fst = data.take w.written := by
  rw [delivered.2, List.map_take, List.zipIdx_map_fst]

theorem front_continues_iff {data : List β} {w n : Nat} (fits : w ≤ data.length)
    (within : n ≤ data.length) (positive : 0 < n) :
    (w + n ≤ data.length ∧
      data.zipIdx.take w ++ data.zipIdx.take n = data.zipIdx.take (w + n)) ↔ w = 0 := by
  constructor
  · rintro ⟨bound, equal⟩
    rw [List.take_add] at equal
    have same := List.append_cancel_left equal
    have front : (data.zipIdx.take n)[0]? = some (data[0], 0) := by
      simp [positive, show 0 < data.length by omega]
    have next : ((data.zipIdx.drop w).take n)[0]? = some (data[w], w) := by
      simp [positive, show w < data.length by omega]
    rw [same, next, Option.some.injEq] at front
    exact (Prod.ext_iff.mp front).2
  · rintro rfl
    simp [within]

theorem delivered_step {data : List β} (w : Write β) (e : Event) (v : Write β)
    (delivered : Delivered data w) (action : step data w e = some v) :
    Delivered data v ↔ (e.Takes → w.written = 0) := by
  obtain ⟨bound, taken⟩ := delivered
  cases e with
  | waited result =>
      obtain ⟨written, same⟩ := step_waited action
      simp [Delivered, Event.Takes, written, same, bound, taken]
  | wrote rv =>
      obtain ⟨within, written, same⟩ := step_wrote action
      by_cases takes : 0 < rv
      · simp only [Delivered, Event.Takes, takes, true_implies, written, same, taken]
        exact front_continues_iff bound (by omega) (by omega)
      · have none : rv.toNat = 0 := Int.toNat_of_nonpos (by omega)
        simp [Delivered, Event.Takes, takes, written, same, none, bound, taken]

theorem alwaysMeets_iff {data : List β} {w v : Write β} {events : List Event}
    (run : exec (step data) w events = some v) :
    AlwaysMeets (step data) (fun w e => e.Takes → w.written = 0) w events ↔
      (0 < w.written → ∀ e ∈ events, ¬ e.Takes) ∧
        events.Pairwise fun e f => ¬ (e.Takes ∧ f.Takes) := by
  induction events generalizing w with
  | nil => simp [AlwaysMeets]
  | cons e events ih =>
      obtain ⟨u, action, rest⟩ := exec_cons.mp run
      have advance : 0 < u.written ↔ 0 < w.written ∨ e.Takes := by
        cases e with
        | wrote rv =>
            have written := (step_wrote action).2.1
            simp only [Event.Takes, written]
            omega
        | waited result => simp [Event.Takes, (step_waited action).1]
      have next : (∀ t, step data w e = some t →
          AlwaysMeets (step data) (fun w e => e.Takes → w.written = 0) t events) ↔
          (0 < w.written ∨ e.Takes → ∀ f ∈ events, ¬ f.Takes) ∧
            events.Pairwise fun e f => ¬ (e.Takes ∧ f.Takes) := by
        rw [← advance, ← ih rest]
        simp [action]
      simp only [AlwaysMeets, next, List.mem_cons, List.pairwise_cons, forall_eq_or_imp]
      by_cases takes : e.Takes <;> by_cases zero : w.written = 0 <;>
        simp [takes, zero, Nat.pos_iff_ne_zero]

def Delivers (data : List β) (events : List Event) : Prop :=
  Always (step data) (Delivered data) (start data) events ∧
    ∀ w, exec (step data) (start data) events = some w → w.phase = .returned →
      w.taken = data.zipIdx ∧ w.taken.map Prod.fst = data

def Finished (data : List β) (w : Write β) : Prop :=
  w.phase = .returned → data.length ≤ w.written

theorem loop_finished (data : List β) (w : Write β) : Finished data (loop data w) := by
  intro done
  simp only [loop] at done
  split at done <;> simp_all

theorem finished_step (data : List β) (w : Write β) (e : Event) (v : Write β)
    (action : step data w e = some v) : Finished data v := by
  cases e with
  | wrote rv =>
      simp only [step, provided_eq_some] at action
      obtain ⟨_, next⟩ := action
      split_ifs at next <;> subst next
      · exact loop_finished data _
      all_goals simp [Finished]
  | waited result =>
      simp only [step, provided_eq_some] at action
      obtain ⟨_, next⟩ := action
      cases result <;> subst next
      · simp [Finished]
      · exact loop_finished data _

/-- `write` delivers its argument exactly in those runs in which no two calls take bytes. -/
theorem write_delivers_iff (data : List β) (events : List Event) (w : Write β)
    (run : exec (step data) (start data) events = some w) :
    Delivers data events ↔ events.Pairwise fun e f => ¬ (e.Takes ∧ f.Takes) := by
  have first : Delivered data (start data) := by simp [Delivered, start]
  have sharp : Always (step data) (Delivered data) (start data) events ↔
      events.Pairwise fun e f => ¬ (e.Takes ∧ f.Takes) := by
    rw [always_iff_alwaysMeets (fun _ => True) run trivial first (fun _ _ _ _ _ => trivial)
      fun w e v _ => delivered_step w e v, alwaysMeets_iff run]
    simp [start]
  refine ⟨fun delivers => sharp.mp delivers.1, fun once => ?_⟩
  have always := sharp.mpr once
  refine ⟨always, fun v reached done => ?_⟩
  have delivered := always.last reached
  have finished : Finished data v := (exec_reachable reached).invariant (loop_finished data _)
    fun s e u _ _ action => finished_step data s e u action
  have all : v.written = data.length := Nat.le_antisymm delivered.1 (finished done)
  have bytes := delivered.bytes
  rw [all, List.take_length] at bytes
  exact ⟨by rw [delivered.2, all, List.take_of_length_le (by simp)], bytes⟩

theorem write_delivers_after_wait :
    Delivers [10, 20] [.wrote libssh2Eagain, .waited (.ok ()), .wrote 2] :=
  (write_delivers_iff [10, 20] [.wrote libssh2Eagain, .waited (.ok ()), .wrote 2] _ rfl).mpr
    (by simp [Event.Takes, libssh2Eagain])

theorem write_repeats_bytes : ¬ ∀ (data : List Nat) (events : List Event) (w : Write Nat),
    exec (step data) (start data) events = some w → Delivers data events := by
  intro delivers
  have sent := (delivers [10, 20] [.wrote 1, .wrote 1] _ rfl).2 _ rfl rfl
  have bytes : ([10, 10] : List Nat) = [10, 20] := sent.2
  exact absurd bytes (by decide)

end Write

end Ice.Net.Ssh.Channel
