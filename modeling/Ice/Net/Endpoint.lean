import Ice.Error
import Mathlib.Tactic.Common

namespace Ice.Net

/-- `inet_ntop` for the two families, with a null result as `none`. -/
structure Inet where
  ntop4 : Vector (BitVec 8) 4 → Option String
  ntop6 : Vector (BitVec 8) 16 → Option String

def afInet : Int := 2

def afInet6 : Os → Int
  | .win32 => 23
  | .linux => 10
  | .freebsd => 28

structure Endpoint where
  storage : Vector (BitVec 8) 128
  size : BitVec 32 := 0
  deriving DecidableEq

namespace Endpoint

def capacity : BitVec 32 := 128

def sockaddrInSize : BitVec 32 := 16
def sockaddrIn6Size : BitVec 32 := 28

def sinPort (e : Endpoint) : BitVec 16 := e.storage[2] ++ e.storage[3]

def sinAddr (e : Endpoint) : Vector (BitVec 8) 4 := Vector.ofFn fun i => e.storage[4 + i.val]

def sin6Addr (e : Endpoint) : Vector (BitVec 8) 16 := Vector.ofFn fun i => e.storage[8 + i.val]

def host (inet : Inet) (e : Endpoint) : String :=
  if e.size = sockaddrInSize then (inet.ntop4 e.sinAddr).getD ""
  else if e.size = sockaddrIn6Size then (inet.ntop6 e.sin6Addr).getD ""
  else ""

def port (e : Endpoint) : BitVec 16 :=
  if e.size = sockaddrInSize then e.sinPort
  else if e.size = sockaddrIn6Size then e.sinPort
  else 0

def family (os : Os) (e : Endpoint) : Int :=
  if e.size = sockaddrInSize then afInet
  else if e.size = sockaddrIn6Size then afInet6 os
  else 0

/-- The copy constructor initialises `storage_` only, so `size_` takes its default of zero. -/
def copy (other : Endpoint) : Endpoint := { storage := other.storage }

/-- `operator=` leaves the `size_` of the target as it is. -/
def assign (target other : Endpoint) : Endpoint := { target with storage := other.storage }

end Endpoint

end Ice.Net
