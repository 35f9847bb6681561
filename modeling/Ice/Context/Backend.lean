import Mathlib.Data.List.Perm.Basic
import Mathlib.Data.List.Basic
import Mathlib.Data.List.Count
import Ice.Error

namespace Ice.Context

variable {S I : Type}

inductive Event (S I : Type) where
  | schedule (e : S)
  | io (i : I)
  deriving DecidableEq, Repr

abbrev Entry (S I : Type) := Option (Event S I)

/-- `posted none` is the entry `interrupt` asks for, `posted (some e)` the one a `schedule` does. -/
def posted (target : Option S) : Entry S I := target.map .schedule

/-- A kernel object with the entries it would hand out now, and those of them that survive when
another one is posted. -/
structure Backend (S I : Type) where
  Kernel : Type
  create : Kernel
  post : Option S → Kernel → Kernel
  notify : I → Kernel → Kernel
  remove : List (Entry S I) → Kernel → Kernel
  waitError : Errno → Option ErrorCode
  pending : Kernel → List (Entry S I)
  kept : Kernel → List (Entry S I)
  pending_create : pending create = []
  pending_post (target : Option S) (k : Kernel) :
    (pending (post target k)).Perm (posted target :: kept k)
  pending_notify (i : I) (k : Kernel) : (pending (notify i k)).Perm (some (.io i) :: pending k)
  pending_remove {batch : List (Entry S I)} {k : Kernel} (available : batch.Subperm (pending k)) :
    (batch ++ pending (remove batch k)).Perm (pending k)
  kept_subperm (k : Kernel) : (kept k).Subperm (pending k)

/-! ## Linux -/

structure Epoll (S I : Type) where
  target : Option S := none
  armed : Bool := false
  ready : List I := []
  deriving DecidableEq, Repr

namespace Epoll

/-- `EPOLL_CTL_MOD` of the eventfd, which is always writable. -/
def modify (target : Option S) (k : Epoll S I) : Epoll S I := { k with target, armed := true }

def notify (i : I) (k : Epoll S I) : Epoll S I := { k with ready := k.ready ++ [i] }

def io? : Entry S I → Option I
  | some (.io i) => some i
  | _ => none

def others (k : Epoll S I) : List (Entry S I) := k.ready.map fun i => some (.io i)

def pending (k : Epoll S I) : List (Entry S I) :=
  (if k.armed then [posted k.target] else []) ++ k.others

def remove [DecidableEq S] [DecidableEq I] (batch : List (Entry S I)) (k : Epoll S I) :
    Epoll S I :=
  { k with
    armed := k.armed && !batch.contains (posted k.target)
    ready := k.ready.diff (batch.filterMap io?) }

def waitError (errno : Errno) : Option ErrorCode :=
  if errno = Errno.eintr then none else some (.native errno)

theorem io_ne_posted (i : I) (target : Option S) : some (.io i) ≠ (posted target : Entry S I) := by
  cases target <;> simp [posted]

theorem posted_inj {target other : Option S} :
    (posted target : Entry S I) = posted other ↔ target = other := by
  cases target <;> cases other <;> simp [posted]

theorem posted_notMem_others (target : Option S) (k : Epoll S I) : posted target ∉ k.others := by
  simp [others, io_ne_posted]

theorem mem_pending_posted (target : Option S) {k : Epoll S I} :
    posted target ∈ k.pending ↔ k.armed = true ∧ k.target = target := by
  cases armed : k.armed <;>
    simp [pending, armed, posted_notMem_others, posted_inj, eq_comm]

variable [DecidableEq S] [DecidableEq I]

theorem count_posted (target : Option S) (k : Epoll S I) :
    k.pending.count (posted target) = if k.armed ∧ k.target = target then 1 else 0 := by
  have absent : k.others.count (posted target) = 0 :=
    List.count_eq_zero.mpr (posted_notMem_others target k)
  cases armed : k.armed <;>
    simp [pending, armed, absent, List.count_cons, posted_inj]

theorem count_io (i : I) (k : Epoll S I) :
    k.pending.count (some (.io i)) = k.ready.count i := by
  have injective : Function.Injective fun i : I => (some (.io i) : Entry S I) :=
    fun i j same => by simpa using same
  have others : k.others.count (some (.io i)) = k.ready.count i :=
    List.count_map_of_injective _ _ injective i
  cases armed : k.armed <;>
    simp [pending, armed, others, (io_ne_posted i k.target).symm]

theorem count_filterMap_io (i : I) (batch : List (Entry S I)) :
    (batch.filterMap io?).count i = batch.count (some (.io i)) := by
  induction batch with
  | nil => rfl
  | cons entry batch ih =>
      match entry with
      | none => rw [List.filterMap_cons_none rfl, ih, List.count_cons_of_ne (by simp)]
      | some (.schedule e) =>
          rw [List.filterMap_cons_none rfl, ih, List.count_cons_of_ne (by simp)]
      | some (.io j) =>
          rw [show List.filterMap io? (some (.io j) :: batch) = j :: batch.filterMap io? from rfl,
            List.count_cons, List.count_cons, ih]
          simp

theorem count_remove_posted {batch : List (Entry S I)} {k : Epoll S I} (target : Option S)
    (available : batch.Subperm k.pending) :
    (k.remove batch).pending.count (posted target) =
      k.pending.count (posted target) - batch.count (posted target) := by
  have enough := available.count_le (posted target)
  rw [count_posted] at enough ⊢
  rw [count_posted]
  by_cases slot : k.armed = true ∧ k.target = target
  · obtain ⟨armed, rfl⟩ := slot
    by_cases member : posted k.target ∈ batch
    · have positive := List.count_pos_iff.mpr member
      simp [remove, armed, member] at enough ⊢
    · simp [remove, armed, member, List.count_eq_zero.mpr member]
  · have none : ¬ ((k.remove batch).armed = true ∧ (k.remove batch).target = target) := by
      simp only [remove, Bool.and_eq_true]
      exact fun both => slot ⟨both.1.1, both.2⟩
    simp [slot, none]

theorem pending_remove {batch : List (Entry S I)} {k : Epoll S I}
    (available : batch.Subperm k.pending) :
    (batch ++ (k.remove batch).pending).Perm k.pending := by
  refine (List.Perm.append_left batch ?_).trans
    (List.subperm_append_diff_self_of_count_le fun entry _ => available.count_le entry)
  rw [List.perm_iff_count]
  intro entry
  rw [List.count_diff]
  match entry with
  | none => exact count_remove_posted none available
  | some (.schedule e) => exact count_remove_posted (some e) available
  | some (.io i) => rw [count_io, count_io, remove, List.count_diff, count_filterMap_io]

end Epoll

def epoll (S I : Type) [DecidableEq S] [DecidableEq I] : Backend S I where
  Kernel := Epoll S I
  create := {}
  post := Epoll.modify
  notify := Epoll.notify
  remove := Epoll.remove
  waitError := Epoll.waitError
  pending := Epoll.pending
  kept := Epoll.others
  pending_create := rfl
  pending_post _ _ := .refl _
  pending_notify i k := by
    simp only [Epoll.pending, Epoll.others, Epoll.notify, List.map_append, List.map_singleton]
    rw [← List.append_assoc]
    exact List.perm_append_singleton _ _
  pending_remove := Epoll.pending_remove
  kept_subperm k := (List.sublist_append_right _ _).subperm

/-! ## Windows -/

def abandonedWait0 : Errno := 735

/-- The packets queued at a completion port. `PostQueuedCompletionStatus` and the completion of a
request append one, `GetQueuedCompletionStatusEx` removes a batch. -/
def completionPort (S I : Type) [DecidableEq S] [DecidableEq I] : Backend S I where
  Kernel := List (Entry S I)
  create := []
  post target queue := queue ++ [posted target]
  notify i queue := queue ++ [some (.io i)]
  remove batch queue := queue.diff batch
  waitError rc := some (if rc = abandonedWait0 then .ok else .native rc)
  pending := id
  kept := id
  pending_create := rfl
  pending_post _ _ := List.perm_append_singleton _ _
  pending_notify _ _ := List.perm_append_singleton _ _
  pending_remove available :=
    List.subperm_append_diff_self_of_count_le fun entry _ => available.count_le entry
  kept_subperm _ := .refl _

end Ice.Context
