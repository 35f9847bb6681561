import Ice.Error
import Ice.Lib.Native

/-!
# Socket options

The classes of `net/option.h`. The native value of an option is kept as the word that its bytes make
up, the first byte in the low bits.
-/

namespace Ice.Net

abbrev int : IntType := { bits := 32, signed := true }

abbrev Seconds := BitVec 64

def seconds : IntType := { bits := 64, signed := true }

def Seconds.ofInt (count : Int) : Seconds := seconds.narrow count

def lingerType : Os → IntType
  | .win32 => { bits := 16, signed := false }
  | _ => { bits := 32, signed := true }

structure Linger (os : Os) where
  onoff : BitVec (lingerType os).bits := 0
  linger : BitVec (lingerType os).bits := 0
  deriving DecidableEq

namespace Linger

/-- The constructor of `option::linger`; what the two checks store is overwritten. -/
def make (os : Os) : Option Seconds → Linger os
  | none => {}
  | some timeout =>
      let data : Linger os := { onoff := 1 }
      let data :=
        if timeout.toInt < (lingerType os).lo then { data with linger := 0 } else data
      let data :=
        if (lingerType os).hi < timeout.toInt then
          { data with linger := (lingerType os).narrow (lingerType os).hi }
        else data
      { data with linger := (lingerType os).narrow timeout.toInt }

def get {os : Os} (data : Linger os) : Option Seconds :=
  if data.onoff ≠ 0 then some (.ofInt ((lingerType os).read data.linger)) else none

end Linger

def atMost : Option Seconds → Option Seconds → Prop
  | none, _ => True
  | some _, none => False
  | some t, some u => t.toInt ≤ u.toInt

instance : (t u : Option Seconds) → Decidable (atMost t u)
  | none, _ => .isTrue trivial
  | some _, none => .isFalse id
  | some t, some u => inferInstanceAs (Decidable (t.toInt ≤ u.toInt))

namespace Linger

variable {os : Os} {t u : Option Seconds} {v w : Seconds}

theorem make_some (os : Os) (v : Seconds) :
    make os (some v) = { onoff := 1, linger := (lingerType os).narrow v.toInt } := by
  simp only [make]
  split
  · split <;> rfl
  · split <;> rfl

theorem onoff_ne_zero (os : Os) : (1 : BitVec (lingerType os).bits) ≠ 0 := by
  cases os <;> decide

theorem get_make_none (os : Os) : (make os none).get = none := by
  simp [make, get]

theorem get_make_some (os : Os) (v : Seconds) :
    (make os (some v)).get =
      some (.ofInt ((lingerType os).read ((lingerType os).narrow v.toInt))) := by
  rw [make_some]
  exact if_pos (onoff_ne_zero os)

theorem holds_seconds {x : Int} (holds : (lingerType os).Holds x) : seconds.Holds x := by
  apply holds.widen
  · cases os <;> decide
  · cases os <;> decide

theorem toInt_ofInt {x : Int} (holds : seconds.Holds x) : (Seconds.ofInt x).toInt = x :=
  IntType.read_narrow holds

theorem get_make_eq_iff {x : Int} : ((make os (some v)).get).map BitVec.toInt = some x ↔
    (lingerType os).Holds x ∧ v.toInt ≡ x [ZMOD 2 ^ (lingerType os).bits] := by
  have held := (lingerType os).holds_read ((lingerType os).narrow v.toInt)
  rw [get_make_some, Option.map_some, toInt_ofInt (holds_seconds held), Option.some.injEq]
  exact IntType.read_narrow_eq_iff

structure Saturates (os : Os) (t : Option Seconds) : Prop where
  none : (make os t).get = none ↔ t = none
  within : ∀ v, t = some v → (lingerType os).Holds v.toInt → (make os t).get = t
  above : ∀ v, t = some v → (lingerType os).hi < v.toInt →
    ((make os t).get).map BitVec.toInt = some (lingerType os).hi
  below : ∀ v, t = some v → v.toInt < (lingerType os).lo →
    ((make os t).get).map BitVec.toInt = some 0
  stable : (make os (make os t).get).get = (make os t).get

/-- The timeout is in the range of the native type, or its low bits are those of what it saturates
to. -/
def Survives (os : Os) : Option Seconds → Prop
  | none => True
  | some v =>
      (lingerType os).Holds v.toInt ∨
        (lingerType os).hi < v.toInt ∧
          v.toInt ≡ (lingerType os).hi [ZMOD 2 ^ (lingerType os).bits] ∨
        v.toInt < (lingerType os).lo ∧ v.toInt ≡ 0 [ZMOD 2 ^ (lingerType os).bits]

theorem eq_of_map_toInt {t : Option Seconds} (same : t.map BitVec.toInt = some v.toInt) :
    t = some v := by
  obtain ⟨w, rfl, equal⟩ := Option.map_eq_some_iff.mp same
  rw [BitVec.eq_of_toInt_eq equal]

theorem get_make_within_iff : (make os (some v)).get = some v ↔ (lingerType os).Holds v.toInt := by
  constructor
  · intro same
    exact (get_make_eq_iff.mp (by rw [same, Option.map_some])).1
  · intro holds
    exact eq_of_map_toInt (get_make_eq_iff.mpr ⟨holds, rfl⟩)

theorem get_make_within (holds : (lingerType os).Holds v.toInt) :
    (make os (some v)).get = some v :=
  get_make_within_iff.mpr holds

theorem get_make_get (data : Linger os) : (make os data.get).get = data.get := by
  unfold get
  split
  · have held := (lingerType os).holds_read data.linger
    apply get_make_within
    rwa [toInt_ofInt (holds_seconds held)]
  · exact get_make_none os

theorem saturates_iff (os : Os) (t : Option Seconds) : Saturates os t ↔ Survives os t := by
  cases t with
  | none =>
      apply iff_of_true _ trivial
      constructor <;> simp [get_make_none]
  | some v =>
      have least := (lingerType os).holds_zero
      constructor
      · intro saturates
        by_cases above : (lingerType os).hi < v.toInt
        · exact .inr (.inl ⟨above, (get_make_eq_iff.mp (saturates.above v rfl above)).2⟩)
        · by_cases below : v.toInt < (lingerType os).lo
          · exact .inr (.inr ⟨below, (get_make_eq_iff.mp (saturates.below v rfl below)).2⟩)
          · exact .inl ⟨not_lt.mp below, not_lt.mp above⟩
      · intro survives
        constructor
        · simp [get_make_some]
        · intro w same holds
          cases same
          exact get_make_within holds
        · intro w same above
          cases same
          rcases survives with holds | ⟨_, low⟩ | ⟨below, _⟩
          · exact absurd holds.2 (not_le.mpr above)
          · exact get_make_eq_iff.mpr ⟨IntType.holds_hi, low⟩
          · exact absurd (below.trans_le (least.1.trans least.2)) (not_lt.mpr above.le)
        · intro w same below
          cases same
          rcases survives with holds | ⟨above, _⟩ | ⟨_, low⟩
          · exact absurd holds.1 (not_le.mpr below)
          · exact absurd (below.trans_le (least.1.trans least.2)) (not_lt.mpr above.le)
          · exact get_make_eq_iff.mpr ⟨least, low⟩
        · exact get_make_get (make os (some v))

def Crosses (os : Os) : Option Seconds → Option Seconds → Prop
  | some v, some w => v.toInt < (lingerType os).lo ∧ (lingerType os).lo ≤ w.toInt ∧ w.toInt < 0
  | _, _ => False

instance (os : Os) : (t u : Option Seconds) → Decidable (Crosses os t u)
  | some v, some w =>
      inferInstanceAs (Decidable (v.toInt < (lingerType os).lo ∧ (lingerType os).lo ≤ w.toInt ∧
        w.toInt < 0))
  | some _, none => .isFalse id
  | none, _ => .isFalse id

theorem Saturates.value (saturates : Saturates os (some v)) : ∃ x, (make os (some v)).get = some x ∧
    (v.toInt < (lingerType os).lo ∧ x.toInt = 0 ∨
      (lingerType os).Holds v.toInt ∧ x.toInt = v.toInt ∨
        (lingerType os).hi < v.toInt ∧ x.toInt = (lingerType os).hi) := by
  by_cases below : v.toInt < (lingerType os).lo
  · obtain ⟨x, read, zero⟩ := Option.map_eq_some_iff.mp (saturates.below v rfl below)
    exact ⟨x, read, .inl ⟨below, zero⟩⟩
  · by_cases above : (lingerType os).hi < v.toInt
    · obtain ⟨x, read, most⟩ := Option.map_eq_some_iff.mp (saturates.above v rfl above)
      exact ⟨x, read, .inr (.inr ⟨above, most⟩)⟩
    · have holds : (lingerType os).Holds v.toInt := ⟨not_lt.mp below, not_lt.mp above⟩
      exact ⟨v, saturates.within v rfl holds, .inr (.inl ⟨holds, rfl⟩)⟩

theorem Saturates.monotone_iff (first : Saturates os t) (second : Saturates os u)
    (ordered : atMost t u) : atMost (make os t).get (make os u).get ↔ ¬ Crosses os t u := by
  cases t with
  | none =>
      rw [get_make_none]
      exact iff_of_true trivial id
  | some v =>
      cases u with
      | none => exact ordered.elim
      | some w =>
          have least := (lingerType os).holds_zero
          obtain ⟨x, readFirst, valueFirst⟩ := first.value
          obtain ⟨y, readSecond, valueSecond⟩ := second.value
          rw [readFirst, readSecond]
          simp only [atMost, Crosses, IntType.Holds] at *
          omega

/-- For timeouts in order: both saturate, are stable and are read back in order, exactly if the cast
that overwrites the checks leaves both what they saturate to, and the first is not raised above the
second by saturating. -/
theorem linger_saturates_iff (os : Os) (t u : Option Seconds) (ordered : atMost t u) :
    Saturates os t ∧ Saturates os u ∧ atMost (make os t).get (make os u).get ↔
      Survives os t ∧ Survives os u ∧ ¬ Crosses os t u := by
  rw [← saturates_iff, ← saturates_iff]
  constructor
  · rintro ⟨first, second, monotone⟩
    exact ⟨first, second, (first.monotone_iff second ordered).mp monotone⟩
  · rintro ⟨first, second, apart⟩
    exact ⟨first, second, (first.monotone_iff second ordered).mpr apart⟩

theorem linger_saturates_half_minute :
    Saturates .linux (some 5) ∧ Saturates .linux (some 30) ∧
      atMost (make .linux (some 5)).get (make .linux (some 30)).get := by
  have first : Survives .linux (some 5) := .inl ⟨by decide, by decide⟩
  have second : Survives .linux (some 30) := .inl ⟨by decide, by decide⟩
  exact (linger_saturates_iff .linux (some 5) (some 30) (by decide)).mpr
    ⟨first, second, by decide⟩

theorem linger_wraps :
    ¬ ∀ (os : Os) (t u : Option Seconds), atMost t u →
      Saturates os t ∧ Saturates os u ∧ atMost (make os t).get (make os u).get := by
  intro saturates
  have above := (saturates .linux (some 2147483648) (some 2147483648) (by decide)).1.above _ rfl
  exact absurd (above (by decide)) (by decide)

end Linger

/-! ## The classes of options -/

inductive OptionClass where
  | broadcast
  | doNotRoute
  | keepAlive
  | linger
  | noDelay
  | recvBufferSize
  | sendBufferSize
  | recvLowWatermark
  | sendLowWatermark
  | reuseAddress
  deriving DecidableEq, Repr

inductive Family where
  | flag
  | size
  | linger
  deriving DecidableEq, Repr

abbrev Family.Setting : Family → Type
  | flag => Bool
  | size => Nat
  | linger => Option Seconds

def solSocket : Os → BitVec 32
  | .linux => 1
  | _ => 0xffff

def ipprotoTcp : BitVec 32 := 6

namespace OptionClass

def family : OptionClass → Family
  | broadcast | doNotRoute | keepAlive | noDelay | reuseAddress => .flag
  | recvBufferSize | sendBufferSize | recvLowWatermark | sendLowWatermark => .size
  | linger => .linger

def level : Os → OptionClass → BitVec 32
  | .win32, noDelay => ipprotoTcp
  | os, _ => solSocket os

def name : Os → OptionClass → BitVec 32
  | .linux, broadcast => 6
  | .linux, doNotRoute => 5
  | .linux, keepAlive => 9
  | .linux, linger => 13
  | .linux, noDelay => 1
  | .linux, recvBufferSize => 8
  | .linux, sendBufferSize => 7
  | .linux, recvLowWatermark => 18
  | .linux, sendLowWatermark => 19
  | .linux, reuseAddress => 2
  | _, broadcast => 0x20
  | _, doNotRoute => 0x10
  | _, keepAlive => 0x8
  | _, linger => 0x80
  | _, noDelay => 1
  | _, recvBufferSize => 0x1002
  | _, sendBufferSize => 0x1001
  | _, recvLowWatermark => 0x1004
  | _, sendLowWatermark => 0x1003
  | _, reuseAddress => 0x4

def capacity : Os → OptionClass → Nat
  | .win32, linger => 4
  | _, linger => 8
  | _, _ => 4

end OptionClass

structure SocketOption (os : Os) where
  cls : OptionClass
  value : BitVec (8 * cls.capacity os)
  size : BitVec 32 := 0

def Linger.store {os : Os} (data : Linger os) (bits : Nat) : BitVec bits :=
  (data.linger ++ data.onoff).setWidth bits

def Linger.load (os : Os) {bits : Nat} (value : BitVec bits) : Linger os :=
  { onoff := value.extractLsb' 0 (lingerType os).bits
    linger := value.extractLsb' (lingerType os).bits (lingerType os).bits }

def storeSize (value : Nat) : BitVec 32 :=
  if int.hi < value then int.narrow int.hi else int.narrow value

def loadSize (value : BitVec 32) : Nat := if 0 < int.read value then (int.read value).toNat else 0

def Family.store (os : Os) (bits : Nat) : (family : Family) → family.Setting → BitVec bits
  | flag, value => (if value then 1 else 0 : BitVec 32).setWidth bits
  | size, value => (storeSize value).setWidth bits
  | linger, timeout => (Linger.make os timeout).store bits

def Family.load (os : Os) {bits : Nat} (value : BitVec bits) : (family : Family) → family.Setting
  | flag => value.setWidth 32 != 0
  | size => loadSize (value.setWidth 32)
  | linger => (Linger.load os value).get

namespace SocketOption

variable {os : Os}

def get (o : SocketOption os) : o.cls.family.Setting := o.cls.family.load os o.value

/-- The constructors, of which the one of `linger` leaves `size_` at zero. -/
def make (os : Os) (cls : OptionClass) (setting : cls.family.Setting) : SocketOption os where
  cls := cls
  value := cls.family.store os _ setting
  size := if cls.family = .linger then 0 else .ofNat 32 (cls.capacity os)

/-- The copy constructors; the one of `linger` does not name its base class. -/
def copy (other : SocketOption os) : SocketOption os :=
  { other with size := if other.cls.family = .linger then 0 else other.size }

def assign (target other : SocketOption os) : SocketOption os :=
  { other with size := if other.cls.family = .linger then target.size else other.size }

end SocketOption

/-- The setting that an option is to come back with: a size ends at the largest `int`. -/
def Family.kept : (family : Family) → family.Setting → family.Setting
  | flag, value => value
  | size, value => min value 2147483647
  | linger, timeout => timeout

def Family.Fits (os : Os) : (family : Family) → family.Setting → Prop
  | linger, some timeout => (lingerType os).Holds timeout.toInt
  | _, _ => True

instance (os : Os) : (family : Family) → (setting : family.Setting) →
    Decidable (family.Fits os setting)
  | .linger, some timeout => inferInstanceAs
      (Decidable ((lingerType os).lo ≤ timeout.toInt ∧ timeout.toInt ≤ (lingerType os).hi))
  | .linger, none => .isTrue trivial
  | .flag, _ => .isTrue trivial
  | .size, _ => .isTrue trivial

theorem hi_int : int.hi = 2147483647 := by decide

theorem Linger.load_store {os : Os} {bits : Nat} (data : Linger os)
    (wide : 2 * (lingerType os).bits ≤ bits) : Linger.load os (data.store bits) = data := by
  obtain ⟨onoff, linger⟩ := data
  have low : ((linger ++ onoff).setWidth bits).extractLsb' 0 (lingerType os).bits = onoff := by
    apply BitVec.eq_of_getLsbD_eq
    intro i within
    have inside : i < bits := by omega
    simp [BitVec.getLsbD_append, within, inside]
  have high : ((linger ++ onoff).setWidth bits).extractLsb' (lingerType os).bits
      (lingerType os).bits = linger := by
    apply BitVec.eq_of_getLsbD_eq
    intro i within
    have inside : (lingerType os).bits + i < bits := by omega
    have beyond : ¬ (lingerType os).bits + i < (lingerType os).bits := by omega
    simp [within, inside, beyond, BitVec.getElem_append]
  rw [Linger.load, Linger.store, low, high]

theorem loadSize_storeSize (value : Nat) : loadSize (storeSize value) = min value 2147483647 := by
  have read : int.read (storeSize value) = min (value : Int) 2147483647 := by
    by_cases above : int.hi < value
    · rw [storeSize, if_pos above, IntType.read_narrow IntType.holds_hi]
      rw [hi_int] at above ⊢
      omega
    · have holds : int.Holds value := ⟨int.holds_zero.1.trans (by omega), not_lt.mp above⟩
      rw [storeSize, if_neg above, IntType.read_narrow holds]
      rw [hi_int] at above
      omega
  unfold loadSize
  rw [read]
  split <;> omega

section Stored
variable {os : Os} {bits : Nat}

theorem Family.load_store_flag (setting : Bool) (wide : 32 ≤ bits) :
    Family.load os (Family.store os bits .flag setting) .flag = setting := by
  have same : ((if setting then 1 else 0 : BitVec 32).setWidth bits).setWidth 32 =
      if setting then 1 else 0 := by
    rw [BitVec.setWidth_setWidth_of_le _ wide, BitVec.setWidth_eq]
  simp only [load, store, same]
  cases setting <;> decide

theorem Family.load_store_size (setting : Nat) (wide : 32 ≤ bits) :
    Family.load os (Family.store os bits .size setting) .size = min setting 2147483647 := by
  simp only [load, store, BitVec.setWidth_setWidth_of_le _ wide, BitVec.setWidth_eq]
  exact loadSize_storeSize setting

theorem Family.load_store_linger (setting : Option Seconds) (wide : 2 * (lingerType os).bits ≤ bits) :
    Family.load os (Family.store os bits .linger setting) .linger = (Linger.make os setting).get :=
  congrArg Linger.get (Linger.load_store _ wide)

theorem Family.load_store_iff (family : Family) (setting : family.Setting) (wide : 32 ≤ bits)
    (linger : family = .linger → 2 * (lingerType os).bits ≤ bits) :
    family.load os (family.store os bits setting) = family.kept setting ↔
      family.Fits os setting := by
  cases family with
  | flag => exact iff_of_true (load_store_flag setting wide) trivial
  | size => exact iff_of_true (load_store_size setting wide) trivial
  | linger =>
      rw [load_store_linger setting (linger rfl)]
      cases setting with
      | none => exact iff_of_true (Linger.get_make_none os) trivial
      | some timeout => exact Linger.get_make_within_iff

theorem loadSize_le (value : BitVec 32) : loadSize value ≤ 2147483647 := by
  have held := (int.holds_read value).2
  rw [hi_int] at held
  unfold loadSize
  split <;> omega

theorem Family.load_store_load (family : Family) {width : Nat} (value : BitVec width)
    (wide : 32 ≤ bits) (linger : family = .linger → 2 * (lingerType os).bits ≤ bits) :
    family.load os (family.store os bits (family.load os value)) = family.load os value := by
  cases family with
  | flag => exact load_store_flag _ wide
  | size => exact (load_store_size _ wide).trans (Nat.min_eq_left (loadSize_le _))
  | linger => exact (load_store_linger _ (linger rfl)).trans (Linger.get_make_get _)

end Stored

end Ice.Net
