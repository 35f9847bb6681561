import Mathlib.Data.List.Nodup
import Mathlib.Logic.Function.Basic

variable {ν : Type*}

def Linked (next : ν → Option ν) : Option ν → List ν → Prop
  | p, [] => p = none
  | p, a :: l => p = some a ∧ Linked next (next a) l

namespace Linked

variable {next other : ν → Option ν} {p q : Option ν} {a : ν} {l m : List ν}

@[simp] theorem nil_iff : Linked next p [] ↔ p = none := Iff.rfl

@[simp] theorem cons_iff : Linked next p (a :: l) ↔ p = some a ∧ Linked next (next a) l := Iff.rfl

theorem none_iff : Linked next none l ↔ l = [] := by
  cases l <;> simp

theorem head (linked : Linked next (some a) l) : ∃ m, l = a :: m ∧ Linked next (next a) m := by
  cases l with
  | nil => cases linked
  | cons b m =>
      obtain ⟨same, rest⟩ := cons_iff.mp linked
      cases same
      exact ⟨m, rfl, rest⟩

theorem unique (linked : Linked next p l) (again : Linked next p m) : l = m := by
  induction l generalizing p m with
  | nil =>
      cases linked
      exact (none_iff.mp again).symm
  | cons a l ih =>
      obtain ⟨rfl, rest⟩ := cons_iff.mp linked
      obtain ⟨n, rfl, left⟩ := again.head
      rw [ih rest left]

theorem congr (linked : Linked next p l) (same : ∀ a ∈ l, other a = next a) :
    Linked other p l := by
  induction l generalizing p with
  | nil => exact linked
  | cons a l ih =>
      obtain ⟨here, rest⟩ := cons_iff.mp linked
      refine ⟨here, ?_⟩
      rw [same a List.mem_cons_self]
      exact ih rest fun b member => same b (List.mem_cons_of_mem _ member)

theorem update [DecidableEq ν] (linked : Linked next p l) (outside : a ∉ l) :
    Linked (Function.update next a q) p l := by
  refine linked.congr fun b member => Function.update_of_ne ?_ _ _
  rintro rfl
  exact outside member

theorem push [DecidableEq ν] (linked : Linked next p l) (outside : a ∉ l) :
    Linked (Function.update next a p) (some a) (a :: l) := by
  refine ⟨rfl, ?_⟩
  rw [Function.update_self]
  exact linked.update outside

end Linked
