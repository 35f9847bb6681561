import Mathlib.Logic.Function.Basic
import Mathlib.Logic.ExistsUnique

/-!
# Things that are at one place

`copies p` counts how often a thing is found at the place `p`. The lemmas say what moving one copy
does to being somewhere once, over arbitrary places.
-/

namespace Place

variable {π : Type*} {copies after : π → Nat} {p q : π}

def Nowhere (copies : π → Nat) : Prop := ∀ p, copies p = 0

structure At (copies : π → Nat) (p : π) : Prop where
  here : copies p = 1
  elsewhere : ∀ q, q ≠ p → copies q = 0

def Once (copies : π → Nat) : Prop := ∃ p, At copies p

def AtMostOnce (copies : π → Nat) : Prop := Once copies ∨ Nowhere copies

theorem At.unique (here : At copies p) (found : copies q ≠ 0) : q = p := by
  by_contra other
  exact found (here.elsewhere q other)

theorem Once.not_nowhere (once : Once copies) : ¬ Nowhere copies := by
  rintro nowhere
  obtain ⟨p, here⟩ := once
  have none := nowhere p
  rw [here.here] at none
  cases none

theorem AtMostOnce.at (most : AtMostOnce copies) (found : copies p ≠ 0) : At copies p := by
  rcases most with ⟨q, here⟩ | nowhere
  · rwa [here.unique found]
  · exact absurd (nowhere p) found

theorem At.move (here : At copies p) (leaves : copies p = after p + 1)
    (arrives : after q = copies q + 1) (rest : ∀ r, r ≠ p → r ≠ q → after r = copies r) :
    At after q := by
  have one := here.here
  have apart : q ≠ p := by
    intro same
    rw [same] at arrives
    omega
  have none := here.elsewhere q apart
  refine ⟨by omega, fun r other => ?_⟩
  by_cases left : r = p
  · rw [left]
    omega
  · rw [rest r left other, here.elsewhere r left]

theorem Nowhere.appear (nowhere : Nowhere copies) (here : after p = 1)
    (rest : ∀ q, q ≠ p → after q = copies q) : At after p :=
  ⟨here, fun q other => (rest q other).trans (nowhere q)⟩

theorem AtMostOnce.disappear (most : AtMostOnce copies) (here : copies p = after p + 1)
    (rest : ∀ q, q ≠ p → after q = copies q) : Nowhere after := by
  have only : At copies p := most.at (by omega)
  intro q
  by_cases same : q = p
  · have one := only.here
    rw [same]
    omega
  · rw [rest q same, only.elsewhere q same]

theorem Nowhere.shrink (nowhere : Nowhere copies) (less : after p ≤ copies p)
    (rest : ∀ q, q ≠ p → after q = copies q) : Nowhere after := by
  intro q
  by_cases same : q = p
  · have none := nowhere p
    rw [same]
    omega
  · rw [rest q same, nowhere q]

theorem AtMostOnce.shrink (most : AtMostOnce copies) (less : after p ≤ copies p)
    (rest : ∀ q, q ≠ p → after q = copies q) : AtMostOnce after := by
  rcases most with ⟨q, here⟩ | nowhere
  · by_cases same : q = p
    · subst same
      have one := here.here
      have others : ∀ r, r ≠ q → after r = 0 :=
        fun r other => (rest r other).trans (here.elsewhere r other)
      rcases Nat.eq_zero_or_pos (after q) with gone | stays
      · right
        intro r
        by_cases place : r = q
        · rw [place, gone]
        · exact others r place
      · exact .inl ⟨q, by omega, others⟩
    · refine .inl ⟨q, by rw [rest q same, here.here], fun r other => ?_⟩
      by_cases place : r = p
      · have none := here.elsewhere p (Ne.symm same)
        rw [place]
        omega
      · rw [rest r place, here.elsewhere r other]
  · exact .inr (nowhere.shrink less rest)

section Moving
variable (apart : p ≠ q) (sum : after p + after q = copies p + copies q)
  (rest : ∀ r, r ≠ p → r ≠ q → after r = copies r)
include sum rest

theorem Nowhere.move (nowhere : Nowhere copies) : Nowhere after := by
  have first := nowhere p
  have second := nowhere q
  intro r
  by_cases left : r = p
  · rw [left]
    omega
  · by_cases right : r = q
    · rw [right]
      omega
    · rw [rest r left right, nowhere r]

include apart

theorem Once.move (once : Once copies) : Once after := by
  obtain ⟨r, here⟩ := once
  have one := here.here
  by_cases away : r ≠ p ∧ r ≠ q
  · have first := here.elsewhere p (Ne.symm away.1)
    have second := here.elsewhere q (Ne.symm away.2)
    refine ⟨r, by rw [rest r away.1 away.2, one], fun s other => ?_⟩
    by_cases left : s = p
    · rw [left]
      omega
    · by_cases right : s = q
      · rw [right]
        omega
      · rw [rest s left right, here.elsewhere s other]
  · have total : after p + after q = 1 := by
      rw [sum]
      by_cases left : r = p
      · rw [← left, one, here.elsewhere q (left ▸ Ne.symm apart)]
      · have right : r = q := by_contra fun right => away ⟨left, right⟩
        rw [← right, one, here.elsewhere p (Ne.symm left)]
    have others : ∀ s, s ≠ p → s ≠ q → after s = 0 := by
      intro s left right
      rw [rest s left right]
      refine here.elsewhere s fun same => away ?_
      exact ⟨same ▸ left, same ▸ right⟩
    by_cases first : after p = 1
    · refine ⟨p, first, fun s other => ?_⟩
      by_cases right : s = q
      · rw [right]
        omega
      · exact others s other right
    · refine ⟨q, by omega, fun s other => ?_⟩
      by_cases left : s = p
      · rw [left]
        omega
      · exact others s left other

theorem AtMostOnce.move (most : AtMostOnce copies) : AtMostOnce after :=
  most.imp (Once.move apart sum rest) (Nowhere.move sum rest)

end Moving

end Place
