import Mathlib.Logic.Function.Basic

variable {π ω : Type*}

/-- A thing is under way at one place at most, and ends at most once, after it is under way. -/
structure Underway (under : π → ω → Prop) (begun : ω → Bool) (ended : ω → Nat) : Prop where
  fresh : ∀ w, begun w = false → ended w = 0 ∧ ∀ p, ¬ under p w
  once : ∀ p w, under p w → ended w = 0
  most : ∀ w, ended w ≤ 1
  apart : ∀ w p q, under p w → under q w → p = q

namespace Underway

variable {under after : π → ω → Prop} {begun : ω → Bool} {ended : ω → Nat} {p : π} {w : ω}
  [DecidableEq ω]

theorem start (underway : Underway under begun ended) (new : begun w = false)
    (adds : ∀ q v, after q v → under q v ∨ q = p ∧ v = w) :
    Underway after (Function.update begun w true) ended := by
  obtain ⟨unended, absent⟩ := underway.fresh w new
  constructor
  · intro v fresh
    have other : v ≠ w := by
      rintro rfl
      simp at fresh
    rw [Function.update_of_ne other] at fresh
    obtain ⟨none, nowhere⟩ := underway.fresh v fresh
    refine ⟨none, fun q here => ?_⟩
    rcases adds q v here with before | ⟨_, same⟩
    · exact nowhere q before
    · exact other same
  · intro q v here
    rcases adds q v here with before | ⟨_, rfl⟩
    · exact underway.once q v before
    · exact unended
  · exact underway.most
  · intro v q r one two
    rcases adds q v one with before | ⟨rfl, rfl⟩
    · rcases adds r v two with before' | ⟨_, rfl⟩
      · exact underway.apart v q r before before'
      · exact absurd before (absent q)
    · rcases adds r _ two with before | ⟨rfl, _⟩
      · exact absurd before (absent r)
      · rfl

theorem finish (underway : Underway under begun ended) (here : under p w)
    (rest : ∀ q v, after q v → under q v ∧ q ≠ p) :
    Underway after begun (Function.update ended w (ended w + 1)) := by
  have others : ∀ q v, after q v → v ≠ w := by
    rintro q v stays rfl
    obtain ⟨before, away⟩ := rest q v stays
    exact away (underway.apart v q p before here)
  constructor
  · intro v fresh
    obtain ⟨none, nowhere⟩ := underway.fresh v fresh
    have other : v ≠ w := by
      rintro rfl
      exact nowhere p here
    rw [Function.update_of_ne other]
    exact ⟨none, fun q stays => nowhere q (rest q v stays).1⟩
  · intro q v stays
    rw [Function.update_of_ne (others q v stays)]
    exact underway.once q v (rest q v stays).1
  · intro v
    by_cases same : v = w
    · have last : Function.update ended w (ended w + 1) v = 1 := by
        rw [same, Function.update_self, underway.once p w here]
      exact Nat.le_of_eq last
    · rw [Function.update_of_ne same]
      exact underway.most v
  · exact fun v q r one two => underway.apart v q r (rest q v one).1 (rest r v two).1

end Underway

def Accounted (under : π → ω → Prop) (begun : ω → Bool) (ended : ω → Nat) : Prop :=
  ∀ w, begun w = true → ended w = 0 → ∃ p, under p w

namespace Accounted

variable {under after : π → ω → Prop} {begun : ω → Bool} {ended : ω → Nat} {p : π} {w : ω}
  [DecidableEq ω]

theorem start (accounted : Accounted under begun ended) (adds : after p w)
    (rest : ∀ q v, under q v → after q v) :
    Accounted after (Function.update begun w true) ended := by
  intro v begun unended
  by_cases same : v = w
  · exact ⟨p, same ▸ adds⟩
  · rw [Function.update_of_ne same] at begun
    obtain ⟨q, here⟩ := accounted v begun unended
    exact ⟨q, rest q v here⟩

theorem finish (accounted : Accounted under begun ended)
    (rest : ∀ q v, under q v → v ≠ w → after q v) :
    Accounted after begun (Function.update ended w (ended w + 1)) := by
  intro v begun unended
  by_cases same : v = w
  · rw [same, Function.update_self] at unended
    cases unended
  · rw [Function.update_of_ne same] at unended
    obtain ⟨q, here⟩ := accounted v begun unended
    exact ⟨q, rest q v here same⟩

end Accounted
