import Mathlib.Data.List.DropRight
import Mathlib.Data.List.TakeWhile

namespace Segment

variable {α : Type*} {p blank dot : α → Bool} {f : α → α} {l : List α} {i : Nat}

theorem take_findIdx? (found : l.findIdx? p = some i) : l.take i = l.takeWhile fun c => !p c := by
  induction l generalizing i with
  | nil => cases found
  | cons c l ih =>
      rw [List.findIdx?_cons] at found
      cases met : p c with
      | true =>
          rw [met, if_pos rfl] at found
          cases found
          simp [met]
      | false =>
          rw [met, if_neg Bool.false_ne_true] at found
          obtain ⟨j, later, rfl⟩ := Option.map_eq_some_iff.mp found
          simp [met, ih later]

theorem drop_findIdx? (found : l.findIdx? p = some i) : l.drop i = l.dropWhile fun c => !p c := by
  have joined := (List.take_append_drop i l).trans
    (List.takeWhile_append_dropWhile (p := fun c => !p c) (l := l)).symm
  rw [take_findIdx? found] at joined
  exact List.append_cancel_left joined

theorem takeWhile_of_findIdx?_eq_none (absent : l.findIdx? p = none) :
    (l.takeWhile fun c => !p c) = l := by
  rw [List.takeWhile_eq_self_iff]
  simpa using List.findIdx?_eq_none_iff.mp absent

def findLastIdx? (p : α → Bool) (l : List α) : Option Nat :=
  (l.reverse.findIdx? p).map fun i => l.length - 1 - i

theorem take_findLastIdx? (found : findLastIdx? p l = some i) :
    l.take (i + 1) = l.rdropWhile fun c => !p c := by
  obtain ⟨j, last, rfl⟩ := Option.map_eq_some_iff.mp found
  obtain ⟨within, _⟩ := List.findIdx?_eq_some_iff_getElem.mp last
  rw [List.length_reverse] at within
  rw [List.rdropWhile, ← drop_findIdx? last, List.drop_reverse, List.reverse_reverse]
  congr 1
  omega

theorem forall_of_findLastIdx?_eq_none (absent : findLastIdx? p l = none) :
    ∀ c ∈ l, p c = false := by
  intro c member
  rw [findLastIdx?, Option.map_eq_none_iff, List.findIdx?_eq_none_iff] at absent
  exact absent c (List.mem_reverse.mpr member)

/-- From the first element that is not blank up to the first dot after it, without the blanks at
the end. -/
def segment (blank dot : α → Bool) (l : List α) : List α :=
  ((l.dropWhile blank).takeWhile fun c => !dot c).rdropWhile blank

structure Cut (blank dot : α → Bool) (l : List α) : Prop where
  inner : ∀ c ∈ l, dot c = false
  first : ∀ c, l.head? = some c → blank c = false
  last : ∀ c, l.getLast? = some c → blank c = false

theorem Cut.segment_eq (cut : Cut blank dot l) : segment blank dot l = l := by
  have trimmed : l.dropWhile blank = l := by
    cases l with
    | nil => rfl
    | cons c l => exact List.dropWhile_cons_of_neg (by simp [cut.first c rfl])
  have whole : (l.takeWhile fun c => !dot c) = l := by
    rw [List.takeWhile_eq_self_iff]
    simpa using cut.inner
  rw [segment, trimmed, whole, List.rdropWhile_eq_self_iff]
  intro nonempty
  simp [cut.last _ (List.getLast?_eq_some_getLast nonempty)]

theorem head_eq_of_front {k : List α} {c : α} (front : k <+: l) (first : k.head? = some c) :
    l.head? = some c := by
  obtain ⟨rest, rfl⟩ := front
  rw [List.head?_append, first]
  rfl

theorem cut_segment (blank dot : α → Bool) (l : List α) : Cut blank dot (segment blank dot l) where
  inner c member := by
    have within := (List.rdropWhile_prefix _ _).subset member
    simpa using List.mem_takeWhile_imp within
  first c first := by
    have front : segment blank dot l <+: l.dropWhile blank :=
      (List.rdropWhile_prefix _ _).trans (List.takeWhile_prefix _)
    have kept := List.head?_dropWhile_not blank l
    rw [head_eq_of_front front first] at kept
    simpa using kept
  last c last := by
    have nonempty : segment blank dot l ≠ [] := by
      intro empty
      rw [empty] at last
      cases last
    rw [List.getLast?_eq_some_getLast nonempty] at last
    cases last
    exact eq_false_of_ne_true (List.rdropWhile_last_not _ _ nonempty)

def mapWhile (p : α → Bool) (f : α → α) (l : List α) : List α :=
  (l.takeWhile p).map f ++ l.dropWhile p

theorem mapWhile_cons_of_pos {c : α} (met : p c = true) :
    mapWhile p f (c :: l) = f c :: mapWhile p f l := by
  simp [mapWhile, met]

theorem mapWhile_cons_of_neg {c : α} (unmet : p c = false) : mapWhile p f (c :: l) = c :: l := by
  simp [mapWhile, unmet]

/-- A second time does nothing where `f` maps what meets `p` to what meets `p` and does nothing the
second time. -/
theorem mapWhile_mapWhile (kept : ∀ c, p c = true → p (f c) = true)
    (twice : ∀ c, p c = true → f (f c) = f c) :
    mapWhile p f (mapWhile p f l) = mapWhile p f l := by
  induction l with
  | nil => rfl
  | cons c l ih =>
      cases met : p c with
      | true => rw [mapWhile_cons_of_pos met, mapWhile_cons_of_pos (kept c met), twice c met, ih]
      | false => rw [mapWhile_cons_of_neg met, mapWhile_cons_of_neg met]

@[simp] theorem length_mapWhile : (mapWhile p f l).length = l.length := by
  rw [mapWhile, List.length_append, List.length_map, ← List.length_append,
    List.takeWhile_append_dropWhile]

theorem of_getElem?_mapWhile {d : α} (found : (mapWhile p f l)[i]? = some d) :
    ∃ c, l[i]? = some c ∧ (d = c ∨ p c = true ∧ d = f c) := by
  induction l generalizing i with
  | nil => cases found
  | cons c l ih =>
      cases met : p c with
      | false =>
          rw [mapWhile_cons_of_neg met] at found
          exact ⟨d, found, .inl rfl⟩
      | true =>
          rw [mapWhile_cons_of_pos met] at found
          cases i with
          | zero => exact ⟨c, rfl, .inr ⟨met, (Option.some.inj found).symm⟩⟩
          | succ i => exact ih found

theorem Cut.mapWhile (cut : Cut blank dot l) (keepsBlank : ∀ c, p c = true → blank (f c) = blank c)
    (keepsDot : ∀ c, p c = true → dot (f c) = dot c) : Cut blank dot (mapWhile p f l) where
  inner d member := by
    obtain ⟨i, found⟩ := List.mem_iff_getElem?.mp member
    obtain ⟨c, source, changed⟩ := of_getElem?_mapWhile found
    have kept := cut.inner c (List.mem_of_getElem? source)
    rcases changed with rfl | ⟨met, rfl⟩
    · exact kept
    · rwa [keepsDot c met]
  first d first := by
    rw [List.head?_eq_getElem?] at first
    obtain ⟨c, source, changed⟩ := of_getElem?_mapWhile first
    have kept := cut.first c (by rwa [List.head?_eq_getElem?])
    rcases changed with rfl | ⟨met, rfl⟩
    · exact kept
    · rwa [keepsBlank c met]
  last d last := by
    rw [List.getLast?_eq_getElem?, length_mapWhile] at last
    obtain ⟨c, source, changed⟩ := of_getElem?_mapWhile last
    have kept := cut.last c (by rwa [List.getLast?_eq_getElem?])
    rcases changed with rfl | ⟨met, rfl⟩
    · exact kept
    · rwa [keepsBlank c met]

end Segment
