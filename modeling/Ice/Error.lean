namespace Ice

inductive Os where
  | win32
  | linux
  | freebsd
  deriving DecidableEq, Repr

/-- `ice::error_code`: one `int` that carries a class tag and a value. -/
structure ErrorCode where
  combined : BitVec 32 := 0
  deriving DecidableEq, Repr

namespace ErrorCode

def ok : ErrorCode := {}

def system : BitVec 32 := 1 <<< 29

def native (value : BitVec 32) : ErrorCode := ⟨value⟩

def errc (code : BitVec 32) : ErrorCode := ⟨code ||| system⟩

def isError (ec : ErrorCode) : Bool := ec.combined != 0

@[simp] theorem isError_ok : ok.isError = false := rfl

@[simp] theorem isError_native (value : BitVec 32) : (native value).isError = (value != 0) := rfl

end ErrorCode

abbrev Errno := BitVec 32

namespace Errno

def eintr : Errno := 4
def eexist : Errno := 17
def einval : Errno := 22

def eagain : Os → Errno
  | .freebsd => 35
  | _ => 11

def einprogress : Os → Errno
  | .freebsd => 36
  | _ => 115

def econnreset : Os → Errno
  | .freebsd => 54
  | _ => 104

end Errno

end Ice
