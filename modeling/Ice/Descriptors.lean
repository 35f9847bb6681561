import Mathlib.Logic.Equiv.Basic
import Mathlib.Logic.Function.Basic
import Ice.Lib.Transition
import Ice.Net.Socket

/-!
# Descriptors that handles close on Linux

The loops of `context::close_type` and `socket::close_type`, as `handle::reset` and the destructor
run them, among threads that open and close descriptors. A number may stand for one opening after
another; the openings are counted.
-/

namespace Ice
open Transition Net

namespace Descriptors

def ebadf : Errno := 9

structure Held where
  fd : Fd
  opening : Nat
  deriving DecidableEq, Repr

structure Call where
  held : Held
  freed : List Nat := []
  deriving DecidableEq, Repr

/-- A handle with its `value_`, or in the closer with the argument of `reset`. -/
inductive Phase where
  | idle (value : Option Held)
  | closing (call : Call) (next : Option Held)
  deriving DecidableEq, Repr

inductive Slot where
  | value
  | next
  deriving DecidableEq, Repr

end Descriptors

open Descriptors

/-- `table` is the kernel's. An opening without an owner belongs to other code. -/
structure Descriptors (H : Type) where
  table : Fd → Option Nat := fun _ => none
  opened : Nat := 0
  owner : Nat → Option (H × Slot) := fun _ => none
  phase : H → Phase := fun _ => .idle none
  returned : List Call := []

namespace Descriptors

variable {H : Type}

inductive Action (H : Type) where
  -- Of other code.
  | openOther (fd : Fd)
  | closeOther (fd : Fd)
  | resetTo (h : H) (fd : Fd)
  -- `reset()` or the destructor.
  | reset (h : H)
  | release (h : H)
  | swap (h other : H)
  | closed (h : H) (result : Except Errno Unit)

variable [DecidableEq H]

def again : Except Errno Unit → Bool
  | .ok () => false
  | .error errno => errno == Errno.eintr

def setPhase (s : Descriptors H) (h : H) (phase : Phase) : Descriptors H :=
  { s with phase := Function.update s.phase h phase }

def setOwner (s : Descriptors H) (opening : Nat) (owner : Option (H × Slot)) : Descriptors H :=
  { s with owner := Function.update s.owner opening owner }

def give (s : Descriptors H) (h : H) (slot : Slot) : Option Held → Descriptors H
  | some held => s.setOwner held.opening (some (h, slot))
  | none => s

def startReset (s : Descriptors H) (h : H) (next : Option Held) :
    Option Held → Descriptors H
  | some held => (s.give h .next next).setPhase h (.closing { held } next)
  | none => (s.give h .value next).setPhase h (.idle next)

def closeNumber (s : Descriptors H) (call : Call) (result : Except Errno Unit) :
    Option (Descriptors H × Call) :=
  -- Linux frees an open number whatever `close` reports.
  match s.table call.held.fd with
  | some opening =>
      provided (result ≠ .error ebadf ∧ result ≠ .error 0)
        ({ s with table := Function.update s.table call.held.fd none },
          { call with freed := call.freed ++ [opening] })
  | none => provided (result = .error ebadf) (s, call)

def loop (s : Descriptors H) (h : H) (call : Call) (next : Option Held)
    (result : Except Errno Unit) : Descriptors H :=
  if again result then s.setPhase h (.closing call next)
  else
    { (s.give h .value next).setPhase h (.idle next) with returned := s.returned ++ [call] }

def step (s : Descriptors H) : Action H → Option (Descriptors H)
  | .openOther fd =>
      provided (s.table fd = none)
        { s.setOwner s.opened none with
          table := Function.update s.table fd (some s.opened)
          opened := s.opened + 1 }
  | .closeOther fd =>
      match s.table fd with
      | some opening =>
          provided (s.owner opening = none) { s with table := Function.update s.table fd none }
      | none => none
  | .resetTo h fd =>
      match s.phase h, s.table fd with
      | .idle value, some opening =>
          provided (s.owner opening = none) (s.startReset h (some { fd, opening }) value)
      | _, _ => none
  | .reset h =>
      match s.phase h with
      | .idle value => some (s.startReset h none value)
      | .closing _ _ => none
  | .release h =>
      match s.phase h with
      | .idle (some held) => some ((s.setPhase h (.idle none)).setOwner held.opening none)
      | _ => none
  | .swap h other =>
      match s.phase h, s.phase other with
      | .idle _, .idle _ =>
          some { s with
            phase := s.phase ∘ Equiv.swap h other
            owner := fun opening =>
              (s.owner opening).map fun owner => (Equiv.swap h other owner.1, owner.2) }
      | _, _ => none
  | .closed h result =>
      match s.phase h with
      | .closing call next =>
          (s.closeNumber call result).map fun after => after.1.loop h after.2 next result
      | .idle _ => none

structure Releases (s : Descriptors H) : Prop where
  returned : ∀ call ∈ s.returned, call.freed = [call.held.opening]
  closing : ∀ h call next, s.phase h = .closing call next →
    call.freed = [] ∨ call.freed = [call.held.opening]

/-- Where `close` is called again, nobody has been given the number in between. -/
def Vacant (s : Descriptors H) : Action H → Prop
  | .closed h _ =>
      match s.phase h with
      | .closing call _ => call.freed = [] ∨ s.table call.held.fd = none
      | .idle _ => True
  | _ => True

/-! ## Who owns which opening -/

def Phase.slot : Phase → Slot → Option Held
  | .idle value, .value => value
  | .idle _, .next => none
  | .closing call _, .value => if call.freed = [] then some call.held else none
  | .closing _ next, .next => next

section Owning
variable {s t : Descriptors H} {h : H} {slot : Slot} {held : Held} {call : Call} {phase : Phase}
  {value next : Option Held}

omit [DecidableEq H] in
def Has (s : Descriptors H) (h : H) (slot : Slot) (held : Held) : Prop :=
  s.table held.fd = some held.opening ∧ s.owner held.opening = some (h, slot)

structure Owned (s : Descriptors H) : Prop where
  has : ∀ h slot held, (s.phase h).slot slot = some held → s.Has h slot held
  fresh : ∀ fd opening, s.table fd = some opening → opening < s.opened

omit [DecidableEq H] in
theorem Has.keep (has : s.Has h slot held) (table : t.table held.fd = s.table held.fd)
    (owner : t.owner held.opening = s.owner held.opening) : t.Has h slot held :=
  ⟨table.trans has.1, owner.trans has.2⟩

theorem Owned.setPhase (owned : Owned s)
    (here : ∀ slot held, phase.slot slot = some held → s.Has h slot held) :
    Owned (s.setPhase h phase) := by
  refine ⟨fun x slot held present => ?_, owned.fresh⟩
  by_cases same : x = h
  · subst same
    simp only [Descriptors.setPhase, Function.update_self] at present
    exact here slot held present
  · simp only [Descriptors.setPhase, Function.update_of_ne same] at present
    exact owned.has x slot held present

omit [DecidableEq H] in
theorem Owned.setOwner {opening : Nat} {owner : Option (H × Slot)} (owned : Owned s)
    (unowned : ∀ h slot held, (s.phase h).slot slot = some held → held.opening ≠ opening) :
    Owned (s.setOwner opening owner) := by
  refine ⟨fun x slot held present => ?_, owned.fresh⟩
  exact (owned.has x slot held present).keep rfl
    (Function.update_of_ne (unowned x slot held present) _ _)

omit [DecidableEq H] in
theorem Owned.opening_ne {opening : Nat} (owned : Owned s) (other : s.owner opening = none)
    (present : (s.phase h).slot slot = some held) : held.opening ≠ opening := by
  rintro rfl
  rw [(owned.has h slot held present).2] at other
  cases other

omit [DecidableEq H] in
theorem Owned.opening_ne_of_owner {opening : Nat} {x : H} {other : Slot} (owned : Owned s)
    (elsewhere : s.owner opening = some (x, other)) (apart : (h, slot) ≠ (x, other))
    (present : (s.phase h).slot slot = some held) : held.opening ≠ opening := by
  rintro rfl
  rw [(owned.has h slot held present).2] at elsewhere
  exact apart (Option.some.inj elsewhere)

omit [DecidableEq H] in
theorem Owned.free {fd : Fd} {opening : Nat} (owned : Owned s) (current : s.table fd = some opening)
    (unowned : ∀ h slot held, (s.phase h).slot slot = some held → held.opening ≠ opening) :
    Owned { s with table := Function.update s.table fd none } := by
  constructor
  · intro x slot held present
    have has := owned.has x slot held present
    have apart : held.fd ≠ fd := by
      rintro rfl
      exact unowned x slot held present (Option.some.inj (has.1.symm.trans current))
    exact has.keep (Function.update_of_ne apart _ _) rfl
  · intro other opening entry
    by_cases same : other = fd
    · subst same
      simp only [Function.update_self] at entry
      cases entry
    · simp only [Function.update_of_ne same] at entry
      exact owned.fresh other opening entry

omit [DecidableEq H] in
theorem Owned.open {fd : Fd} (owned : Owned s) (vacant : s.table fd = none) :
    Owned { s.setOwner s.opened none with
      table := Function.update s.table fd (some s.opened)
      opened := s.opened + 1 } := by
  constructor
  · intro x slot held present
    have has := owned.has x slot held present
    have apart : held.fd ≠ fd := by
      rintro rfl
      cases vacant.symm.trans has.1
    have old := owned.fresh held.fd held.opening has.1
    exact has.keep (Function.update_of_ne apart _ _) (Function.update_of_ne (Nat.ne_of_lt old) _ _)
  · intro other opening entry
    by_cases same : other = fd
    · subst same
      simp only [Function.update_self] at entry
      cases entry
      exact Nat.lt_succ_self _
    · simp only [Function.update_of_ne same] at entry
      exact Nat.lt_succ_of_lt (owned.fresh other opening entry)

omit [DecidableEq H] in
@[simp] theorem phase_give (s : Descriptors H) (h : H) (slot : Slot) (next : Option Held) :
    (s.give h slot next).phase = s.phase := by
  cases next <;> rfl

theorem Owned.startReset (owned : Owned s) (idle : s.phase h = .idle value)
    (foreign : ∀ held, next = some held →
      s.table held.fd = some held.opening ∧ s.owner held.opening = none) :
    Owned (s.startReset h next value) := by
  have given (slot : Slot) : Owned (s.give h slot next) := by
    cases next with
    | none => exact owned
    | some held =>
        exact owned.setOwner fun x slot kept present =>
          owned.opening_ne (foreign held rfl).2 present
  have has (slot : Slot) (held : Held) (same : next = some held) :
      (s.give h slot next).Has h slot held := by
    subst same
    exact ⟨(foreign held rfl).1, Function.update_self _ _ _⟩
  cases value with
  | none =>
      refine (given .value).setPhase fun slot held present => ?_
      cases slot with
      | value => exact has .value held present
      | next => cases present
  | some old =>
      refine (given .next).setPhase fun slot held present => ?_
      cases slot with
      | value =>
          cases Option.some.inj present
          have phase : (s.give h .next next).phase h = .idle (some old) := by
            rw [phase_give, idle]
          exact (given .next).has h .value old (by rw [phase]; rfl)
      | next => exact has .next held present

theorem Owned.release (owned : Owned s) (idle : s.phase h = .idle (some held)) :
    Owned ((s.setPhase h (.idle none)).setOwner held.opening none) := by
  have emptied : Owned (s.setPhase h (.idle none)) :=
    owned.setPhase fun slot held present => by cases slot <;> cases present
  have has : s.Has h .value held := owned.has h .value held (by rw [idle]; rfl)
  refine emptied.setOwner fun x slot kept present => ?_
  by_cases same : x = h
  · subst same
    simp only [Descriptors.setPhase, Function.update_self] at present
    cases slot <;> cases present
  · exact emptied.opening_ne_of_owner has.2 (fun pair => same (congrArg Prod.fst pair)) present

theorem Owned.swap {other : H} (owned : Owned s) :
    Owned { s with
      phase := s.phase ∘ Equiv.swap h other
      owner := fun opening =>
        (s.owner opening).map fun owner => (Equiv.swap h other owner.1, owner.2) } := by
  refine ⟨fun x slot held present => ?_, owned.fresh⟩
  have has := owned.has (Equiv.swap h other x) slot held present
  refine ⟨has.1, ?_⟩
  simp only [has.2, Option.map_some, Equiv.swap_apply_self]

theorem setPhase_give_setPhase {first second : Phase} :
    ((s.setPhase h first).give h slot next).setPhase h second =
      (s.give h slot next).setPhase h second := by
  cases next <;> simp [Descriptors.setPhase, give, Descriptors.setOwner]

theorem Owned.finish (owned : Owned s) (closing : s.phase h = .closing call next) :
    Owned ((s.give h .value next).setPhase h (.idle next)) := by
  cases next with
  | none => exact owned.setPhase fun slot held present => by cases slot <;> cases present
  | some stored =>
      have has : s.Has h .next stored := owned.has h .next stored (by rw [closing]; rfl)
      refine ⟨fun x slot held present => ?_, owned.fresh⟩
      by_cases same : x = h
      · subst same
        simp only [Descriptors.setPhase, Function.update_self] at present
        cases slot with
        | value =>
            cases Option.some.inj present
            exact ⟨has.1, Function.update_self _ _ _⟩
        | next => cases present
      · simp only [Descriptors.setPhase, Function.update_of_ne same, phase_give] at present
        have apart := owned.opening_ne_of_owner has.2 (fun pair => same (congrArg Prod.fst pair))
          present
        exact (owned.has x slot held present).keep rfl (Function.update_of_ne apart _ _)

theorem Owned.loop (owned : Owned (s.setPhase h (.closing call next))) (result : Except Errno Unit) :
    Owned (s.loop h call next result) := by
  unfold Descriptors.loop
  split
  · exact owned
  · have finished := owned.finish (Function.update_self _ _ _)
    rw [setPhase_give_setPhase] at finished
    exact ⟨finished.has, finished.fresh⟩

inductive Closed (s : Descriptors H) (call : Call) (result : Except Errno Unit) :
    Descriptors H × Call → Prop where
  | freed (opening : Nat) (current : s.table call.held.fd = some opening) :
      Closed s call result ({ s with table := Function.update s.table call.held.fd none },
        { call with freed := call.freed ++ [opening] })
  | refused (vacant : s.table call.held.fd = none) (badf : result = .error ebadf) :
      Closed s call result (s, call)

omit [DecidableEq H] in
theorem closed_of_closeNumber {result : Except Errno Unit} {after : Descriptors H × Call}
    (taken : s.closeNumber call result = some after) : Closed s call result after := by
  unfold closeNumber at taken
  split at taken
  · next opening current =>
      obtain ⟨_, rfl⟩ := provided_eq_some.mp taken
      exact .freed opening current
  · next vacant =>
      obtain ⟨refused, rfl⟩ := provided_eq_some.mp taken
      exact .refused vacant refused

theorem Owned.closed {result : Except Errno Unit} {after : Descriptors H × Call} (owned : Owned s)
    (closing : s.phase h = .closing call next) (taken : Closed s call result after)
    (vacant : call.freed = [] ∨ s.table call.held.fd = none) :
    Owned (after.1.setPhase h (.closing after.2 next)) := by
  have stored (held : Held) (same : next = some held) : s.Has h .next held :=
    owned.has h .next held (by rw [closing]; exact same)
  cases taken with
  | refused none _ =>
      refine owned.setPhase fun slot held present => ?_
      exact owned.has h slot held (by rw [closing]; exact present)
  | freed opening current =>
      have first : call.freed = [] := by
        rcases vacant with first | vacant
        · exact first
        · cases vacant.symm.trans current
      have has : s.Has h .value call.held := owned.has h .value call.held (by
        rw [closing]
        exact if_pos first)
      cases Option.some.inj (has.1.symm.trans current)
      have passed : Owned (s.setPhase h
          (.closing { call with freed := call.freed ++ [call.held.opening] } next)) :=
        owned.setPhase fun slot held present => by
          cases slot with
          | value => simp [Phase.slot] at present
          | next => exact stored held present
      refine passed.free current fun x slot held present => ?_
      refine passed.opening_ne_of_owner has.2 (fun pair => ?_) present
      cases pair
      simp [Descriptors.setPhase, Phase.slot] at present

theorem Owned.step {action : Action H} (owned : Owned s) (vacant : Vacant s action)
    (taken : Descriptors.step s action = some t) : Owned t := by
  cases action with
  | openOther fd =>
      obtain ⟨none, rfl⟩ := provided_eq_some.mp taken
      exact owned.open none
  | closeOther fd =>
      simp only [Descriptors.step] at taken
      split at taken
      · next opening current =>
          obtain ⟨other, rfl⟩ := provided_eq_some.mp taken
          exact owned.free current fun x slot held present => owned.opening_ne other present
      · cases taken
  | resetTo h fd =>
      simp only [Descriptors.step] at taken
      split at taken
      · next value opening idle current =>
          obtain ⟨other, rfl⟩ := provided_eq_some.mp taken
          refine owned.startReset idle fun held same => ?_
          cases same
          exact ⟨current, other⟩
      · cases taken
  | reset h =>
      simp only [Descriptors.step] at taken
      split at taken
      · next value idle =>
          cases taken
          exact owned.startReset idle fun held same => nomatch same
      · cases taken
  | release h =>
      simp only [Descriptors.step] at taken
      split at taken
      · next held idle =>
          cases taken
          exact owned.release idle
      · cases taken
  | swap h other =>
      simp only [Descriptors.step] at taken
      split at taken
      · cases taken
        exact owned.swap
      · cases taken
  | closed h result =>
      simp only [Descriptors.step] at taken
      split at taken
      · next call next closing =>
          obtain ⟨after, number, rfl⟩ := Option.map_eq_some_iff.mp taken
          have free : call.freed = [] ∨ s.table call.held.fd = none := by
            simpa only [Vacant, closing] using vacant
          exact (owned.closed closing (closed_of_closeNumber number) free).loop result
      · cases taken

/-! ## What a call of the closer frees -/

theorem Releases.setPhase (releases : Releases s)
    (new : ∀ call next, phase = .closing call next →
      call.freed = [] ∨ call.freed = [call.held.opening]) : Releases (s.setPhase h phase) := by
  refine ⟨releases.returned, fun x call next present => ?_⟩
  by_cases same : x = h
  · subst same
    simp only [Descriptors.setPhase, Function.update_self] at present
    exact new call next present
  · simp only [Descriptors.setPhase, Function.update_of_ne same] at present
    exact releases.closing x call next present

omit [DecidableEq H] in
theorem Releases.give (releases : Releases s) : Releases (s.give h slot next) := by
  cases next <;> exact ⟨releases.returned, releases.closing⟩

theorem Releases.startReset (releases : Releases s) : Releases (s.startReset h next value) := by
  cases value with
  | none => exact releases.give.setPhase fun _ _ same => nomatch same
  | some held =>
      refine releases.give.setPhase fun _ _ same => ?_
      cases same
      exact .inl rfl

theorem Releases.loop_iff {result : Except Errno Unit} (releases : Releases s)
    (written : call.freed ≠ []) :
    Releases (s.loop h call next result) ↔ call.freed = [call.held.opening] := by
  unfold Descriptors.loop
  split
  · constructor
    · intro after
      exact (after.closing h call next (Function.update_self _ _ _)).resolve_left written
    · intro once
      refine releases.setPhase fun _ _ same => ?_
      cases same
      exact .inr once
  · constructor
    · intro after
      exact after.returned call (List.mem_append_right _ (List.mem_singleton.mpr rfl))
    · intro once
      have kept : Releases ((s.give h .value next).setPhase h (.idle next)) :=
        releases.give.setPhase fun _ _ same => nomatch same
      refine ⟨fun other member => ?_, kept.closing⟩
      rcases List.mem_append.mp member with old | new
      · exact releases.returned other old
      · cases List.mem_singleton.mp new
        exact once

theorem releases_closed_iff {result : Except Errno Unit} {after : Descriptors H × Call}
    (owned : Owned s) (releases : Releases s) (closing : s.phase h = .closing call next)
    (taken : Closed s call result after) :
    Releases (after.1.loop h after.2 next result) ↔
      call.freed = [] ∨ s.table call.held.fd = none := by
  cases taken with
  | refused vacant _ =>
      have written : call.freed ≠ [] := by
        intro first
        have has : s.Has h .value call.held := owned.has h .value call.held (by
          rw [closing]
          exact if_pos first)
        cases vacant.symm.trans has.1
      rw [releases.loop_iff written]
      exact iff_of_true ((releases.closing h call next closing).resolve_left written) (.inr vacant)
  | freed opening current =>
      have kept : Releases { s with table := Function.update s.table call.held.fd none } :=
        ⟨releases.returned, releases.closing⟩
      rw [kept.loop_iff (by simp)]
      rcases releases.closing h call next closing with first | once
      · have has : s.Has h .value call.held := owned.has h .value call.held (by
          rw [closing]
          exact if_pos first)
        cases Option.some.inj (has.1.symm.trans current)
        exact iff_of_true (by rw [first]; rfl) (.inl first)
      · apply iff_of_false
        · intro twice
          rw [once] at twice
          cases twice
        · rintro (first | vacant)
          · rw [once] at first
            cases first
          · cases vacant.symm.trans current

theorem Releases.step_iff {action : Action H} (owned : Owned s) (releases : Releases s)
    (taken : Descriptors.step s action = some t) : Releases t ↔ Vacant s action := by
  cases action with
  | openOther fd =>
      obtain ⟨_, rfl⟩ := provided_eq_some.mp taken
      exact iff_of_true ⟨releases.returned, releases.closing⟩ trivial
  | closeOther fd =>
      simp only [Descriptors.step] at taken
      split at taken
      · obtain ⟨_, rfl⟩ := provided_eq_some.mp taken
        exact iff_of_true ⟨releases.returned, releases.closing⟩ trivial
      · cases taken
  | resetTo h fd =>
      simp only [Descriptors.step] at taken
      split at taken
      · obtain ⟨_, rfl⟩ := provided_eq_some.mp taken
        exact iff_of_true releases.startReset trivial
      · cases taken
  | reset h =>
      simp only [Descriptors.step] at taken
      split at taken
      · cases taken
        exact iff_of_true releases.startReset trivial
      · cases taken
  | release h =>
      simp only [Descriptors.step] at taken
      split at taken
      · cases taken
        have idle : Releases (s.setPhase h (.idle none)) :=
          releases.setPhase fun _ _ same => nomatch same
        exact iff_of_true ⟨idle.returned, idle.closing⟩ trivial
      · cases taken
  | swap h other =>
      simp only [Descriptors.step] at taken
      split at taken
      · cases taken
        exact iff_of_true ⟨releases.returned, fun x => releases.closing (Equiv.swap h other x)⟩
          trivial
      · cases taken
  | closed h result =>
      simp only [Descriptors.step] at taken
      split at taken
      · next call next closing =>
          obtain ⟨after, number, rfl⟩ := Option.map_eq_some_iff.mp taken
          rw [releases_closed_iff owned releases closing (closed_of_closeNumber number)]
          simp only [Vacant, closing]
      · cases taken

/-- In a run with handles and other code that open and close descriptors, each call of the closer
frees what it was given, once, and nothing else, exactly if no number has been given to anyone when
`close` is called for it again. -/
theorem closers_release_own_iff (actions : List (Action H)) (s : Descriptors H)
    (run : exec Descriptors.step {} actions = some s) :
    Always Descriptors.step Releases {} actions ↔
      AlwaysMeets Descriptors.step Vacant {} actions := by
  have start : Owned ({} : Descriptors H) :=
    ⟨(fun _ slot _ present => by cases slot <;> cases present), fun _ _ entry => nomatch entry⟩
  have first : Releases ({} : Descriptors H) :=
    ⟨(fun _ member => nomatch member), fun _ _ _ closing => nomatch closing⟩
  apply always_iff_alwaysMeets_while Owned run (fun _ _ => trivial) start first
  · intro s action t _ owned releases taken after
    exact owned.step ((releases.step_iff owned taken).mp after) taken
  · intro s action t _ owned releases taken
    exact releases.step_iff owned taken

end Owning

instance (s : Descriptors H) : (action : Action H) → Decidable (Vacant s action)
  | .closed h _ =>
      match phase : s.phase h with
      | .closing call _ =>
          decidable_of_iff (call.freed = [] ∨ s.table call.held.fd = none)
            (by simp only [Vacant, phase])
      | .idle _ => .isTrue (by simp only [Vacant, phase])
  | .openOther _ => .isTrue trivial
  | .closeOther _ => .isTrue trivial
  | .resetTo .. => .isTrue trivial
  | .reset _ => .isTrue trivial
  | .release _ => .isTrue trivial
  | .swap .. => .isTrue trivial

theorem closers_release_own_interrupted :
    ∃ s : Descriptors Bool, s.returned = [{ held := { fd := 5, opening := 0 }, freed := [0] }] ∧
      Releases s := by
  let actions : List (Action Bool) :=
    [.openOther 5, .resetTo true 5, .reset true, .closed true (.error 4), .closed true (.error 9)]
  obtain ⟨s, run⟩ : ∃ s, exec Descriptors.step ({} : Descriptors Bool) actions = some s := ⟨_, rfl⟩
  have vacant : AlwaysMeets Descriptors.step Vacant ({} : Descriptors Bool) actions := by decide
  have released := ((closers_release_own_iff actions s run).mpr vacant).last run
  cases run
  exact ⟨_, rfl, released⟩

theorem closer_releases_other :
    ¬ ∀ (actions : List (Action Bool)) (s : Descriptors Bool),
      exec Descriptors.step {} actions = some s → Releases s := by
  intro releases
  obtain ⟨s, run⟩ : ∃ s, exec Descriptors.step ({} : Descriptors Bool)
      [.openOther 5, .resetTo true 5, .reset true, .closed true (.error 4), .openOther 5,
        .resetTo false 5, .closed true (.ok ())] = some s := ⟨_, rfl⟩
  have returned := (releases _ s run).returned
  cases run
  exact absurd (returned _ (List.mem_singleton.mpr rfl)) (by decide)

end Descriptors

end Ice
