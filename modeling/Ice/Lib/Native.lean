import Mathlib.Data.Int.ModEq

structure IntType where
  bits : Nat
  signed : Bool

namespace IntType

def lo (τ : IntType) : Int := if τ.signed then -((2 ^ τ.bits : Nat) / 2) else 0

def hi (τ : IntType) : Int :=
  if τ.signed then ((2 ^ τ.bits : Nat) + 1) / 2 - 1 else (2 ^ τ.bits : Nat) - 1

def Holds (τ : IntType) (x : Int) : Prop := τ.lo ≤ x ∧ x ≤ τ.hi

/-- The number that a word stands for. -/
def read (τ : IntType) (word : BitVec τ.bits) : Int :=
  if τ.signed then word.toInt else word.toNat

def narrow (τ : IntType) (x : Int) : BitVec τ.bits := BitVec.ofInt τ.bits x

variable {τ : IntType} {x y : Int}

theorem read_narrow_eq_iff : τ.read (τ.narrow x) = y ↔ τ.Holds y ∧ x ≡ y [ZMOD 2 ^ τ.bits] := by
  have positive : 0 < 2 ^ τ.bits := Nat.two_pow_pos τ.bits
  rw [Int.modEq_iff_dvd]
  cases signed : τ.signed with
  | true =>
      simp only [read, narrow, Holds, lo, hi, signed, if_true, BitVec.toInt_ofInt,
        Int.bmod_eq_iff positive, Nat.cast_pow, Nat.cast_ofNat]
      constructor
      · rintro ⟨lower, upper, divides⟩
        exact ⟨⟨lower, by omega⟩, divides⟩
      · rintro ⟨⟨lower, upper⟩, divides⟩
        exact ⟨lower, by omega, divides⟩
  | false =>
      have nonnegative : 0 ≤ x % ((2 ^ τ.bits : Nat) : Int) := Int.emod_nonneg x (by omega)
      simp only [read, narrow, Holds, lo, hi, signed, Bool.false_eq_true, if_false,
        BitVec.toNat_ofInt, Int.toNat_of_nonneg nonnegative]
      rw [Int.emod_eq_iff (by omega), Int.natAbs_natCast]
      simp only [Nat.cast_pow, Nat.cast_ofNat]
      constructor
      · rintro ⟨lower, upper, divides⟩
        exact ⟨⟨lower, by omega⟩, divides⟩
      · rintro ⟨⟨lower, upper⟩, divides⟩
        exact ⟨lower, by omega, divides⟩

theorem read_narrow (holds : τ.Holds x) : τ.read (τ.narrow x) = x :=
  read_narrow_eq_iff.mpr ⟨holds, rfl⟩

theorem holds_read (word : BitVec τ.bits) : τ.Holds (τ.read word) := by
  have same : τ.narrow (τ.read word) = word := by
    unfold narrow read
    cases τ.signed with
    | true => exact BitVec.ofInt_toInt
    | false => simp
  rw [← same]
  exact (read_narrow_eq_iff.mp rfl).1

theorem holds_zero : τ.Holds 0 := by
  have zero : τ.read (0 : BitVec τ.bits) = 0 := by
    unfold read
    split <;> simp
  rw [← zero]
  exact holds_read _

theorem holds_hi : τ.Holds τ.hi := ⟨holds_zero.1.trans holds_zero.2, le_refl _⟩

theorem Holds.widen {σ : IntType} (holds : τ.Holds x) (lower : σ.lo ≤ τ.lo) (upper : τ.hi ≤ σ.hi) :
    σ.Holds x :=
  ⟨lower.trans holds.1, holds.2.trans upper⟩

end IntType
