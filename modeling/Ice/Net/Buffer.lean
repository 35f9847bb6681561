import Mathlib.Algebra.Ring.Nat
import Ice.Error
import Mathlib.Tactic.Common

namespace Ice.Net

def addSize (bits a b : Nat) : Nat := (a + b) % 2 ^ bits
def subSize (bits a b : Nat) : Nat := (a + 2 ^ bits - b) % 2 ^ bits

theorem addSize_of_lt {bits a b : Nat} (fits : a + b < 2 ^ bits) : addSize bits a b = a + b :=
  Nat.mod_eq_of_lt fits

theorem subSize_of_le {bits a b : Nat} (le : b ≤ a) (fits : a < 2 ^ bits) :
    subSize bits a b = a - b := by
  rw [subSize, show a + 2 ^ bits - b = (a - b) + 2 ^ bits by omega, Nat.add_mod_right,
    Nat.mod_eq_of_lt (by omega)]

def sizeBits : Os → Nat
  | .win32 => 32
  | _ => 64

/-- `basic_buffer`. The pointer is kept as its distance from the pointer the caller gave. -/
structure Buffer where
  size : Nat
  data : Nat := 0
  deriving DecidableEq, Repr

/-- The constructor, which casts the caller's `std::size_t` to `size_type`; its assertion that the
cast loses nothing is gone in a release build. -/
def Buffer.make (os : Os) (size : Nat) : Buffer := { size := size % 2 ^ sizeBits os }

def Buffer.view {β : Type*} (b : Buffer) (memory : List β) : List β :=
  (memory.drop b.data).take b.size

end Ice.Net
