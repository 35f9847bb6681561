import Ice.Error
import Ice.Lib.Packed

namespace Ice
open Packed

inductive ErrorType where
  | native
  | system
  | domain
  deriving DecidableEq, Repr

namespace ErrorType

def tag : ErrorType → BitVec 32
  | native => 0
  | system => ErrorCode.system
  | domain => 1 <<< 29 ||| 1 <<< 28

theorem tag_injective : Function.Injective tag := by
  intro cls other same
  revert same
  cases cls <;> cases other <;> decide

end ErrorType

def errorCategoryMask : BitVec 32 :=
  ErrorType.native.tag ||| ErrorType.system.tag ||| ErrorType.domain.tag

/-- `std::system_category` is what `category` ends with when `type` is none of the three classes. -/
inductive Category where
  | native
  | system
  | domain
  | std
  deriving DecidableEq, Repr

def ErrorType.category : ErrorType → Category
  | native => .native
  | system => .system
  | domain => .domain

inductive Code where
  | native (value : BitVec 32)
  | errc (code : BitVec 32)
  | iceErrc (code : BitVec 32)
  deriving DecidableEq, Repr

namespace Code

def cls : Code → ErrorType
  | native _ => .native
  | errc _ => .system
  | iceErrc _ => .domain

def value : Code → BitVec 32
  | native value => value
  | errc code => code
  | iceErrc code => code

theorem ext_iff {code other : Code} :
    code = other ↔ code.cls = other.cls ∧ code.value = other.value := by
  cases code <;> cases other <;> simp [cls, value]

end Code

namespace ErrorCode

def iceErrc (code : BitVec 32) : ErrorCode := ⟨code ||| ErrorType.domain.tag⟩

def ofCombined (code : BitVec 32) : ErrorCode := ⟨code⟩

def make : Code → ErrorCode
  | .native value => native value
  | .errc code => errc code
  | .iceErrc code => iceErrc code

def type (ec : ErrorCode) : BitVec 32 := ec.combined &&& errorCategoryMask

def value (ec : ErrorCode) : BitVec 32 := ec.combined &&& ~~~errorCategoryMask

def category (ec : ErrorCode) : Category :=
  if ec.type = ErrorType.native.tag then .native
  else if ec.type = ErrorType.system.tag then .system
  else if ec.type = ErrorType.domain.tag then .domain
  else .std

def eq (lhs rhs : ErrorCode) : Bool := lhs.combined == rhs.combined

def ne (lhs rhs : ErrorCode) : Bool := !lhs.eq rhs

def eqCode (lhs : ErrorCode) : Code → Bool
  | .iceErrc rhs => lhs.type == ErrorType.domain.tag && lhs.value == rhs
  | .errc rhs => lhs.type == ErrorType.system.tag && lhs.value == rhs
  | .native rhs => lhs.type == ErrorType.native.tag && lhs.value == rhs

def neCode (lhs : ErrorCode) (rhs : Code) : Bool := !lhs.eqCode rhs

def codeEq (lhs : Code) (rhs : ErrorCode) : Bool := rhs.eqCode lhs

def codeNe (lhs : Code) (rhs : ErrorCode) : Bool := rhs.neCode lhs

end ErrorCode

structure StdErrorCode where
  value : BitVec 32
  category : Category
  deriving DecidableEq, Repr

structure SystemError where
  code : StdErrorCode
  what : Option String := none
  deriving DecidableEq, Repr

def SystemError.ofErrorCode (ec : ErrorCode) (what : Option String) : SystemError :=
  { code := { value := ec.value, category := ec.category }, what }

namespace ErrorCode

variable {ec other : ErrorCode} {code : Code}

theorem combined_make (code : Code) : (make code).combined = code.value ||| code.cls.tag := by
  cases code with
  | native value => exact BitVec.or_zero.symm
  | errc code => rfl
  | iceErrc code => rfl

theorem tag_within (cls : ErrorType) : cls.tag &&& errorCategoryMask = cls.tag := by
  cases cls <;> decide

theorem type_make (clear : code.value &&& errorCategoryMask = 0) :
    (make code).type = code.cls.tag := by
  rw [type, combined_make, tag_or (tag_within _) clear]

theorem value_make (clear : code.value &&& errorCategoryMask = 0) :
    (make code).value = code.value := by
  rw [value, combined_make, value_or (tag_within _) clear]

theorem eq_iff : ec.eq other = true ↔ ec.type = other.type ∧ ec.value = other.value := by
  rw [eq, beq_iff_eq]
  exact Packed.eq_iff

theorem eqCode_iff : ec.eqCode code = true ↔ ec.type = code.cls.tag ∧ ec.value = code.value := by
  cases code <;> simp [eqCode, Code.cls, Code.value]

theorem category_of_type {cls : ErrorType} (type : ec.type = cls.tag) :
    ec.category = cls.category := by
  rw [category, type]
  cases cls <;> decide

end ErrorCode

structure Code.Kept (code : Code) : Prop where
  type : (ErrorCode.make code).type = code.cls.tag
  value : (ErrorCode.make code).value = code.value
  combined : .ofCombined (ErrorCode.make code).combined = ErrorCode.make code
  eq : ∀ other, (ErrorCode.make code).eq other = true ↔
    (ErrorCode.make code).type = other.type ∧ (ErrorCode.make code).value = other.value
  ne : ∀ other, (ErrorCode.make code).ne other = true ↔
    ¬ ((ErrorCode.make code).type = other.type ∧ (ErrorCode.make code).value = other.value)
  eqCode : ∀ other, (ErrorCode.make code).eqCode other = true ↔ other = code
  neCode : ∀ other, (ErrorCode.make code).neCode other = true ↔ other ≠ code
  codeEq : ∀ other, ErrorCode.codeEq other (.make code) = true ↔ other = code
  codeNe : ∀ other, ErrorCode.codeNe other (.make code) = true ↔ other ≠ code
  isError : (ErrorCode.make code).isError = false ↔ code = .native 0
  thrown : ∀ what, (SystemError.ofErrorCode (.make code) what).code =
    { value := code.value, category := code.cls.category }

namespace ErrorCode

variable {code other : Code}

theorem eqCode_make (clear : code.value &&& errorCategoryMask = 0) :
    (make code).eqCode other = true ↔ other = code := by
  rw [eqCode_iff, type_make clear, value_make clear, eq_comm (a := other), Code.ext_iff,
    ErrorType.tag_injective.eq_iff]

theorem neCode_make (clear : code.value &&& errorCategoryMask = 0) :
    (make code).neCode other = true ↔ other ≠ code := by
  rw [neCode, Bool.not_eq_true', ← Bool.not_eq_true, eqCode_make clear]

theorem isError_make (clear : code.value &&& errorCategoryMask = 0) :
    (make code).isError = false ↔ code = .native 0 := by
  have zero : (make code).isError = false ↔ (make code).eq ok = true := by
    simp [isError, eq, ok]
  have nothing : ok.type = ErrorType.native.tag ∧ ok.value = 0 := by decide
  rw [zero, eq_iff, type_make clear, value_make clear, nothing.1, nothing.2,
    ErrorType.tag_injective.eq_iff, Code.ext_iff]
  rfl

theorem packing_keeps (code : Code) (clear : code.value &&& errorCategoryMask = 0) :
    code.Kept where
  type := type_make clear
  value := value_make clear
  combined := rfl
  eq _ := eq_iff
  ne other := by rw [ne, Bool.not_eq_true', ← Bool.not_eq_true, eq_iff]
  eqCode _ := eqCode_make clear
  neCode _ := neCode_make clear
  codeEq _ := eqCode_make clear
  codeNe _ := neCode_make clear
  isError := isError_make clear
  thrown what := by
    rw [SystemError.ofErrorCode, value_make clear, category_of_type (type_make clear)]

theorem packing_keeps_ends : (Code.native (-805306369)).Kept ∧ (Code.iceErrc 2).Kept :=
  ⟨packing_keeps _ (by decide), packing_keeps _ (by decide)⟩

end ErrorCode

end Ice
