import Mathlib.Logic.Function.Basic
import Ice.Lib.Transition
import Ice.Net.Option

namespace Ice.Net
open Transition

abbrev Key := BitVec 32 × BitVec 32

def OptionClass.key (os : Os) (cls : OptionClass) : Key := (cls.level os, cls.name os)

def nativeSize (os : Os) (key : Key) : Nat :=
  if key = OptionClass.linger.key os then OptionClass.linger.capacity os else 4

abbrev Options (os : Os) := (key : Key) → BitVec (8 * nativeSize os key)

def setsockopt {os : Os} (options : Options os) (key : Key) {bits : Nat} (data : BitVec bits)
    (length : BitVec 32) : Except Errno (Options os) :=
  if length.toNat = nativeSize os key then
    .ok (Function.update options key (data.setWidth _))
  else .error Errno.einval

def fill {bits width : Nat} (data : BitVec bits) (value : BitVec width) (bytes : Nat) :
    BitVec bits :=
  value.setWidth bits &&& BitVec.ofNat bits (2 ^ (8 * bytes) - 1) |||
    data &&& ~~~BitVec.ofNat bits (2 ^ (8 * bytes) - 1)

def getsockopt {os : Os} (options : Options os) (key : Key) {bits : Nat} (data : BitVec bits)
    (length : BitVec 32) : BitVec bits × BitVec 32 :=
  let bytes := min length.toNat (nativeSize os key)
  (fill data (options key) bytes, .ofNat 32 bytes)

namespace SocketOptions

variable {os : Os} {K O : Type}

def get (options : Options os) (option : SocketOption os) : SocketOption os :=
  let option := { option with size := .ofNat 32 (option.cls.capacity os) }
  let filled := getsockopt options (option.cls.key os) option.value option.size
  { option with value := filled.1, size := filled.2 }

def set (options : Options os) (option : SocketOption os) : Except Errno (Options os) :=
  setsockopt options (option.cls.key os) option.value option.size

structure SetCall where
  length : BitVec 32
  capacity : Nat
  result : Except Errno Unit

structure GetCall where
  cls : OptionClass
  last : Option cls.family.Setting
  returned : cls.family.Setting

/-- An option object with the setting that it was built from or that was read into it. `fetched`:
it has been passed to a `get` since it was built or copied. -/
structure Object (os : Os) where
  option : SocketOption os
  given : option.cls.family.Setting
  fetched : Bool := false

end SocketOptions

/-- Sockets `K` and option objects `O`; `last` is the setting of an option in the last object that a
socket has accepted for it. -/
structure SocketOptions (os : Os) (K O : Type) where
  options : K → Options os
  object : O → Option (SocketOptions.Object os) := fun _ => none
  last : K → (cls : OptionClass) → Option cls.family.Setting := fun _ _ => none
  sets : List SocketOptions.SetCall := []
  gets : List SocketOptions.GetCall := []

namespace SocketOptions

inductive Action (K O : Type) where
  | make (x : O) (cls : OptionClass) (setting : cls.family.Setting)
  | copy (x other : O)
  | assign (x other : O)
  | destroy (x : O)
  | get (k : K) (x : O)
  | set (k : K) (x : O)

variable [DecidableEq K] [DecidableEq O]

def setObject (s : SocketOptions os K O) (x : O) (object : Option (Object os)) :
    SocketOptions os K O :=
  { s with object := Function.update s.object x object }

def setResult (s : SocketOptions os K O) (k : K) (object : Object os) :
    Except Errno (Options os) → SocketOptions os K O
  | .ok options =>
      { s with
        options := Function.update s.options k options
        last := Function.update s.last k
          (Function.update (s.last k) object.option.cls (some object.given))
        sets := s.sets ++ [⟨object.option.size, object.option.cls.capacity os, .ok ()⟩] }
  | .error errno =>
      { s with
        sets := s.sets ++ [⟨object.option.size, object.option.cls.capacity os, .error errno⟩] }

def step (s : SocketOptions os K O) : Action K O → Option (SocketOptions os K O)
  | .make x cls setting =>
      provided ((s.object x).isNone)
        (s.setObject x (some { option := .make os cls setting, given := setting }))
  | .copy x other =>
      match s.object other with
      | some object =>
          provided ((s.object x).isNone)
            (s.setObject x (some { option := object.option.copy, given := object.given }))
      | none => none
  | .assign x other =>
      match s.object x, s.object other with
      | some target, some object =>
          provided (target.option.cls = object.option.cls)
            (s.setObject x (some { option := target.option.assign object.option
                                   given := object.given, fetched := target.fetched }))
      | _, _ => none
  | .destroy x => provided ((s.object x).isSome) (s.setObject x none)
  | .get k x =>
      match s.object x with
      | some object =>
          let option := SocketOptions.get (s.options k) object.option
          let s := s.setObject x (some { option, given := option.get, fetched := true })
          some { s with gets := s.gets ++ [⟨option.cls, s.last k option.cls, option.get⟩] }
      | none => none
  | .set k x =>
      match s.object x with
      | some object => some (s.setResult k object (SocketOptions.set (s.options k) object.option))
      | none => none

structure ReadBack (s : SocketOptions os K O) : Prop where
  accepted : ∀ call ∈ s.sets, call.length.toNat = call.capacity ∧ call.result = .ok ()
  returned : ∀ call ∈ s.gets, ∀ setting, call.last = some setting →
    call.returned = call.cls.family.kept setting

/-- A `linger` is set only once it has been passed to a `get`, and read back only where the native
type has room for the timeout that was set. -/
def Fetched (s : SocketOptions os K O) : Action K O → Prop
  | .set _ x => ∀ object ∈ s.object x, object.option.cls.family = .linger → object.fetched = true
  | .get k x => ∀ object ∈ s.object x, ∀ setting ∈ s.last k object.option.cls,
      object.option.cls.family.Fits os setting
  | _ => True

end SocketOptions

variable {os : Os}

theorem nativeSize_key (os : Os) (cls : OptionClass) :
    nativeSize os (cls.key os) = cls.capacity os := by
  cases os <;> cases cls <;> decide

theorem OptionClass.key_injective (os : Os) : Function.Injective (OptionClass.key os) := by
  intro cls other same
  revert same
  cases os <;> cases cls <;> cases other <;> decide

theorem OptionClass.capacity_lt (os : Os) (cls : OptionClass) : cls.capacity os < 2 ^ 32 := by
  cases os <;> cases cls <;> decide

theorem OptionClass.capacity_pos (os : Os) (cls : OptionClass) : 0 < cls.capacity os := by
  cases os <;> cases cls <;> decide

theorem OptionClass.wide (os : Os) (cls : OptionClass) : 32 ≤ 8 * cls.capacity os := by
  cases os <;> cases cls <;> decide

theorem OptionClass.wide_linger (os : Os) {cls : OptionClass} (linger : cls.family = .linger) :
    2 * (lingerType os).bits ≤ 8 * cls.capacity os := by
  cases cls <;> cases linger
  cases os <;> decide

theorem Family.load_setWidth {bits width : Nat} (family : Family) (value : BitVec bits)
    (same : width = bits) : family.load os (value.setWidth width) = family.load os value := by
  subst same
  rw [BitVec.setWidth_eq]

theorem fill_all {bits width bytes : Nat} (data : BitVec bits) (value : BitVec width)
    (all : 8 * bytes = bits) : fill data value bytes = value.setWidth bits := by
  subst all
  have ones : BitVec.ofNat (8 * bytes) (2 ^ (8 * bytes) - 1) = BitVec.allOnes _ := by
    apply BitVec.eq_of_toNat_eq
    rw [BitVec.toNat_allOnes, BitVec.toNat_ofNat]
    exact Nat.mod_eq_of_lt (Nat.sub_lt (Nat.two_pow_pos _) Nat.one_pos)
  rw [fill, ones]
  simp

namespace SocketOption

theorem get_make_iff (os : Os) (cls : OptionClass) (setting : cls.family.Setting) :
    (make os cls setting).get = cls.family.kept setting ↔ cls.family.Fits os setting :=
  Family.load_store_iff _ setting (cls.wide os) fun linger => OptionClass.wide_linger os linger

theorem get_make_load (os : Os) (cls : OptionClass) {width : Nat} (value : BitVec width) :
    (make os cls (cls.family.load os value)).get = cls.family.load os value :=
  Family.load_store_load _ value (cls.wide os) fun linger => OptionClass.wide_linger os linger

end SocketOption

namespace SocketOptions

section Calls
variable {options : Options os} {option : SocketOption os}

theorem size_get (options : Options os) (option : SocketOption os) :
    (get options option).size.toNat = option.cls.capacity os := by
  have small := option.cls.capacity_lt os
  simp only [get, getsockopt, nativeSize_key, BitVec.toNat_ofNat]
  rw [Nat.mod_eq_of_lt small, Nat.min_self, Nat.mod_eq_of_lt small]

theorem get_get (options : Options os) (option : SocketOption os) :
    (get options option).get = option.cls.family.load os (options (option.cls.key os)) := by
  have all : min (BitVec.ofNat 32 (option.cls.capacity os)).toNat (nativeSize os (option.cls.key os)) =
      option.cls.capacity os := by
    rw [nativeSize_key, BitVec.toNat_ofNat, Nat.mod_eq_of_lt (option.cls.capacity_lt os),
      Nat.min_self]
  simp only [get, getsockopt, SocketOption.get, all]
  rw [fill_all _ _ rfl]
  exact Family.load_setWidth _ _ (by rw [nativeSize_key])

theorem set_accepted (sized : option.size.toNat = option.cls.capacity os) :
    set options option =
      .ok (Function.update options (option.cls.key os) (option.value.setWidth _)) :=
  if_pos (by rw [sized, nativeSize_key])

theorem set_refused (other : option.size.toNat ≠ option.cls.capacity os) :
    set options option = .error Errno.einval :=
  if_neg (by rwa [nativeSize_key])

end Calls

variable {K O : Type}

def handed (option : SocketOption os) (fetched : Bool) : Nat :=
  if option.cls.family = .linger ∧ fetched = false then 0 else option.cls.capacity os

structure Object.Kept (object : Object os) : Prop where
  sized : object.option.size.toNat = handed object.option object.fetched
  stored : object.option.get = (SocketOption.make os object.option.cls object.given).get

structure Kept (s : SocketOptions os K O) : Prop where
  object : ∀ x object, s.object x = some object → object.Kept
  stored : ∀ k cls setting, s.last k cls = some setting →
    cls.family.load os (s.options k (cls.key os)) = (SocketOption.make os cls setting).get

theorem handed_eq_capacity_iff {option : SocketOption os} {fetched : Bool} :
    handed option fetched = option.cls.capacity os ↔
      (option.cls.family = .linger → fetched = true) := by
  have positive := option.cls.capacity_pos os
  unfold handed
  split
  · next bare =>
      simp only [bare.1, bare.2, forall_const, Bool.false_eq_true, iff_false]
      omega
  · next sized =>
      simp only [not_and, Bool.not_eq_false] at sized
      exact iff_of_true rfl sized

section Objects
variable {object target : Object os}

theorem Object.Kept.make (cls : OptionClass) (setting : cls.family.Setting) :
    Object.Kept { option := .make os cls setting, given := setting } := by
  refine ⟨?_, rfl⟩
  have small := cls.capacity_lt os
  by_cases linger : cls.family = .linger
  · simp [SocketOption.make, handed, linger]
  · simpa [SocketOption.make, handed, linger] using small

theorem Object.Kept.copy (kept : object.Kept) :
    Object.Kept { option := object.option.copy, given := object.given } := by
  refine ⟨?_, kept.stored⟩
  have sized := kept.sized
  by_cases linger : object.option.cls.family = .linger
  · simp [SocketOption.copy, handed, linger]
  · simp only [SocketOption.copy, handed, linger, false_and, if_false] at sized ⊢
    exact sized

theorem Object.Kept.assign (target_kept : target.Kept) (kept : object.Kept)
    (same : target.option.cls = object.option.cls) :
    Object.Kept { option := target.option.assign object.option
                  given := object.given, fetched := target.fetched } := by
  refine ⟨?_, kept.stored⟩
  have sized := kept.sized
  have sizedTarget := target_kept.sized
  by_cases linger : object.option.cls.family = .linger
  · simp only [SocketOption.assign, handed, linger, same, true_and, if_true] at sizedTarget ⊢
    exact sizedTarget
  · simp only [SocketOption.assign, handed, linger, false_and, if_false] at sized ⊢
    exact sized

theorem Object.Kept.get (options : Options os) (option : SocketOption os) :
    Object.Kept { option := SocketOptions.get options option
                  given := (SocketOptions.get options option).get, fetched := true } := by
  constructor
  · exact (size_get options option).trans (handed_eq_capacity_iff.mpr fun _ => rfl).symm
  · exact (SocketOption.get_make_load os option.cls _).symm

theorem Kept.setObject [DecidableEq O] {s : SocketOptions os K O} {x : O}
    {object : Option (Object os)} (kept : Kept s) (own : ∀ o, object = some o → o.Kept) :
    Kept (s.setObject x object) := by
  refine ⟨fun y o present => ?_, kept.stored⟩
  by_cases same : y = x
  · subst same
    simp only [SocketOptions.setObject, Function.update_self] at present
    exact own o present
  · simp only [SocketOptions.setObject, Function.update_of_ne same] at present
    exact kept.object y o present

theorem Kept.setResult [DecidableEq K] {s : SocketOptions os K O} {k : K} (kept : Kept s)
    (own : object.Kept) :
    Kept (s.setResult k object (SocketOptions.set (s.options k) object.option)) := by
  by_cases sized : object.option.size.toNat = object.option.cls.capacity os
  · rw [set_accepted sized]
    refine ⟨kept.object, fun k' cls setting last => ?_⟩
    simp only [SocketOptions.setResult] at last ⊢
    by_cases socket : k' = k
    · subst socket
      simp only [Function.update_self] at last ⊢
      by_cases same : cls = object.option.cls
      · subst same
        rw [Function.update_self] at last ⊢
        rw [Family.load_setWidth _ _ (by rw [nativeSize_key]), ← Option.some.inj last]
        exact own.stored
      · rw [Function.update_of_ne same] at last
        rw [Function.update_of_ne ((OptionClass.key_injective os).ne same)]
        exact kept.stored k' cls setting last
    · simp only [Function.update_of_ne socket] at last ⊢
      exact kept.stored k' cls setting last
  · rw [set_refused sized]
    exact ⟨kept.object, kept.stored⟩

end Objects

variable [DecidableEq K] [DecidableEq O] {s t : SocketOptions os K O}

theorem Kept.step {action : Action K O} (kept : Kept s)
    (taken : SocketOptions.step s action = some t) : Kept t := by
  cases action with
  | make x cls setting =>
      obtain ⟨_, rfl⟩ := provided_eq_some.mp taken
      exact kept.setObject fun o same => Option.some.inj same ▸ .make cls setting
  | copy x other =>
      simp only [SocketOptions.step] at taken
      split at taken
      · next object present =>
          obtain ⟨_, rfl⟩ := provided_eq_some.mp taken
          have own := kept.object other object present
          exact kept.setObject fun o same => Option.some.inj same ▸ own.copy
      · cases taken
  | assign x other =>
      simp only [SocketOptions.step] at taken
      split at taken
      · next target object first second =>
          obtain ⟨same, rfl⟩ := provided_eq_some.mp taken
          have own := (kept.object x target first).assign (kept.object other object second) same
          exact kept.setObject fun o given => Option.some.inj given ▸ own
      · cases taken
  | destroy x =>
      obtain ⟨_, rfl⟩ := provided_eq_some.mp taken
      exact kept.setObject fun o same => nomatch same
  | get k x =>
      simp only [SocketOptions.step] at taken
      split at taken
      · next object present =>
          cases taken
          have after : Kept (s.setObject x (some
              { option := SocketOptions.get (s.options k) object.option
                given := (SocketOptions.get (s.options k) object.option).get
                fetched := true })) := by
            apply kept.setObject
            intro o same
            cases same
            exact .get (s.options k) object.option
          exact ⟨after.object, after.stored⟩
      · cases taken
  | set k x =>
      simp only [SocketOptions.step] at taken
      split at taken
      · next object present =>
          cases taken
          exact kept.setResult (kept.object x object present)
      · cases taken

theorem ReadBack.get_iff {k : K} {x : O} (kept : Kept s) (readBack : ReadBack s)
    (taken : SocketOptions.step s (.get k x) = some t) : ReadBack t ↔ Fetched s (.get k x) := by
  simp only [SocketOptions.step] at taken
  split at taken
  · next object present =>
      cases taken
      have returned (setting : object.option.cls.family.Setting)
          (last : s.last k object.option.cls = some setting) :
          (SocketOptions.get (s.options k) object.option).get =
            object.option.cls.family.kept setting ↔ object.option.cls.family.Fits os setting := by
        have read := (get_get (s.options k) object.option).trans (kept.stored k _ setting last)
        rw [read]
        exact SocketOption.get_make_iff os object.option.cls setting
      constructor
      · intro after o same setting last
        cases present.symm.trans same
        refine (returned setting last).mp ?_
        exact after.returned _ (List.mem_append_right _ (List.mem_singleton.mpr rfl)) setting last
      · intro fits
        refine ⟨readBack.accepted, fun call member setting last => ?_⟩
        rcases List.mem_append.mp member with old | new
        · exact readBack.returned call old setting last
        · cases List.mem_singleton.mp new
          exact (returned setting last).mpr (fits object present setting last)
  · cases taken

theorem ReadBack.set_iff {k : K} {x : O} (kept : Kept s) (readBack : ReadBack s)
    (taken : SocketOptions.step s (.set k x) = some t) : ReadBack t ↔ Fetched s (.set k x) := by
  simp only [SocketOptions.step] at taken
  split at taken
  · next object present =>
      cases taken
      have fetched : Fetched s (.set k x) ↔
          object.option.size.toNat = object.option.cls.capacity os := by
        rw [(kept.object x object present).sized, handed_eq_capacity_iff]
        simp [Fetched, present]
      rw [fetched]
      constructor
      · intro after
        by_contra other
        rw [set_refused other] at after
        exact absurd (after.accepted _ (List.mem_append_right _ (List.mem_singleton.mpr rfl))).1
          other
      · intro equal
        rw [set_accepted equal]
        refine ⟨fun call member => ?_, readBack.returned⟩
        rcases List.mem_append.mp member with old | new
        · exact readBack.accepted call old
        · cases List.mem_singleton.mp new
          exact ⟨equal, rfl⟩
  · cases taken

theorem ReadBack.step_iff {action : Action K O} (kept : Kept s) (readBack : ReadBack s)
    (taken : SocketOptions.step s action = some t) : ReadBack t ↔ Fetched s action := by
  cases action with
  | make x cls setting =>
      obtain ⟨_, rfl⟩ := provided_eq_some.mp taken
      exact iff_of_true ⟨readBack.accepted, readBack.returned⟩ trivial
  | copy x other =>
      simp only [SocketOptions.step] at taken
      split at taken
      · obtain ⟨_, rfl⟩ := provided_eq_some.mp taken
        exact iff_of_true ⟨readBack.accepted, readBack.returned⟩ trivial
      · cases taken
  | assign x other =>
      simp only [SocketOptions.step] at taken
      split at taken
      · obtain ⟨_, rfl⟩ := provided_eq_some.mp taken
        exact iff_of_true ⟨readBack.accepted, readBack.returned⟩ trivial
      · cases taken
  | destroy x =>
      obtain ⟨_, rfl⟩ := provided_eq_some.mp taken
      exact iff_of_true ⟨readBack.accepted, readBack.returned⟩ trivial
  | get k x => exact readBack.get_iff kept taken
  | set k x => exact readBack.set_iff kept taken

/-- What a constructor is given is what its object says exactly where the native type has room for
it. Along a run every `set` is accepted, and what was last set is read back, exactly if each `linger`
that is set has been passed to a `get` before, and each one that is read back was set to a timeout
that the native type has room for. -/
theorem options_read_back_iff (options : K → Options os) (actions : List (Action K O))
    (run : exec SocketOptions.step { options } actions = some s) :
    (∀ (cls : OptionClass) (setting : cls.family.Setting),
        (SocketOption.make os cls setting).get = cls.family.kept setting ↔
          cls.family.Fits os setting) ∧
      (Always SocketOptions.step ReadBack { options } actions ↔
        AlwaysMeets SocketOptions.step Fetched { options } actions) := by
  have start : Kept ({ options } : SocketOptions os K O) :=
    ⟨by simp, by simp⟩
  refine ⟨SocketOption.get_make_iff os, ?_⟩
  exact always_iff_alwaysMeets Kept run start ⟨by simp, by simp⟩
    (fun _ _ _ kept taken => kept.step taken) fun _ _ _ kept readBack taken =>
      readBack.step_iff kept taken

instance (s : SocketOptions os K O) : (action : Action K O) → Decidable (Fetched s action)
  | .set _ x => inferInstanceAs
      (Decidable (∀ object ∈ s.object x, object.option.cls.family = .linger →
        object.fetched = true))
  | .get k x => inferInstanceAs
      (Decidable (∀ object ∈ s.object x, ∀ setting ∈ s.last k object.option.cls,
        object.option.cls.family.Fits os setting))
  | .make .. => .isTrue trivial
  | .copy .. => .isTrue trivial
  | .assign .. => .isTrue trivial
  | .destroy .. => .isTrue trivial

theorem options_read_back_assigned_linger :
    ∃ s : SocketOptions .linux Unit Nat, s.sets.length = 1 ∧ s.gets.length = 2 ∧ ReadBack s := by
  let actions : List (Action Unit Nat) :=
    [.make 0 .linger (some 30), .make 1 .linger none, .get () 1, .assign 1 0, .set () 1, .get () 0]
  obtain ⟨s, run⟩ : ∃ s, exec SocketOptions.step
      ({ options := fun _ _ => 0 } : SocketOptions .linux Unit Nat) actions = some s := ⟨_, rfl⟩
  have fetched : AlwaysMeets SocketOptions.step Fetched
      ({ options := fun _ _ => 0 } : SocketOptions .linux Unit Nat) actions := by decide +kernel
  have always := (options_read_back_iff (fun _ _ => 0) actions run).2.mpr fetched
  have readBack := always.last run
  cases run
  exact ⟨_, rfl, rfl, readBack⟩

theorem linger_not_set :
    ¬ ∀ (os : Os) (options : Unit → Options os) (actions : List (Action Unit Unit))
      (s : SocketOptions os Unit Unit),
      exec SocketOptions.step { options } actions = some s → ReadBack s := by
  intro readBack
  obtain ⟨s, run⟩ : ∃ s, exec SocketOptions.step
      ({ options := fun _ _ => 0 } : SocketOptions .linux Unit Unit)
      [.make () .linger (some 30), .set () ()] = some s := ⟨_, rfl⟩
  have accepted := (readBack .linux _ _ s run).accepted
  cases run
  exact absurd (accepted _ (List.mem_singleton.mpr rfl)).1 (by decide)

end SocketOptions

end Ice.Net
