import Mathlib.Algebra.Ring.Nat
import Mathlib.Data.List.SplitBy
import Mathlib.Data.List.Chain

namespace Ice.Http

abbrev Byte := BitVec 8

def carriageReturn : Byte := 13
def lineFeed : Byte := 10

def scanByte (newline : Bool) (c : Byte) : Bool × Bool :=
  if c = carriageReturn then (newline, false)
  else if c = lineFeed then
    if newline then (false, true) else (true, false)
  else (false, false)

def scan (newline : Bool) : List Byte → Bool × Nat
  | [] => (newline, 0)
  | c :: stream =>
      let rest := scan (scanByte newline c).1 stream
      (rest.1, (scanByte newline c).2.toNat + rest.2)

@[simp] theorem scan_nil (newline : Bool) : scan newline [] = (newline, 0) := rfl

theorem scan_cons (newline : Bool) (c : Byte) (stream : List Byte) :
    scan newline (c :: stream) =
      ((scan (scanByte newline c).1 stream).1,
        (scanByte newline c).2.toNat + (scan (scanByte newline c).1 stream).2) := rfl

theorem scan_append (newline : Bool) (first second : List Byte) :
    scan newline (first ++ second) =
      ((scan (scan newline first).1 second).1,
        (scan newline first).2 + (scan (scan newline first).1 second).2) := by
  -- The state of the scanner is its flag, so a chunk boundary does not matter to it.
  induction first generalizing newline with
  | nil => simp
  | cons c first ih => simp [scan_cons, ih, Nat.add_assoc]

def lineFeedRuns (stream : List Byte) : List (List Byte) :=
  ((stream.filter (· ≠ carriageReturn)).splitBy (· == ·)).filter (·.head? = some lineFeed)

/-- The number of requests: one for each pair of line feeds in a run. -/
def requests (stream : List Byte) : Nat :=
  ((lineFeedRuns stream).map (·.length / 2)).sum

theorem scan_filter (newline : Bool) (stream : List Byte) :
    scan newline (stream.filter (· ≠ carriageReturn)) = scan newline stream := by
  induction stream generalizing newline with
  | nil => rfl
  | cons c stream ih =>
      by_cases skip : c = carriageReturn
      · simp [scan_cons, scanByte, skip, ← ih]
      · simp [scan_cons, skip, ← ih]

theorem scan_pair (stream : List Byte) :
    scan false (lineFeed :: lineFeed :: stream) = ((scan false stream).1, 1 + (scan false stream).2) := by
  simp [scan_cons, scanByte, lineFeed, carriageReturn]

theorem scan_lineFeeds (n : Nat) :
    scan false (List.replicate n lineFeed) = (n % 2 == 1, n / 2) := by
  induction n using Nat.twoStepInduction with
  | zero => rfl
  | one => rfl
  | more n ih _ =>
      rw [List.replicate_succ, List.replicate_succ, scan_pair, ih]
      simp [Nat.add_comm]

theorem scan_others {c : Byte} (other : c ≠ lineFeed) (kept : c ≠ carriageReturn) (newline : Bool)
    (n : Nat) : scan newline (List.replicate (n + 1) c) = (false, 0) := by
  induction n generalizing newline with
  | zero => simp [scan_cons, scanByte, other, kept]
  | succ n ih => rw [List.replicate_succ, scan_cons, ih]; simp [scanByte, other, kept]

theorem run_eq_replicate {run : List Byte} (same : run.IsChain fun x y => (x == y) = true)
    (nonempty : run ≠ []) : ∃ c n, run = List.replicate (n + 1) c := by
  cases run with
  | nil => exact absurd rfl nonempty
  | cons c rest =>
      have chain : (c :: rest).IsChain (· = ·) := by simpa using same
      exact ⟨c, rest.length, by
        rw [List.replicate_succ, ← List.isChain_cons_eq_iff_eq_replicate.mp chain]⟩

theorem scan_runs (runs : List (List Byte)) (newline : Bool) (nonempty : [] ∉ runs)
    (same : ∀ run ∈ runs, run.IsChain fun x y => (x == y) = true)
    (maximal : runs.IsChain fun a b => ∃ ha hb, (a.getLast ha == b.head hb) = false)
    (kept : ∀ run ∈ runs, carriageReturn ∉ run)
    (fresh : newline = true → ∀ run ∈ runs.head?, run.head? ≠ some lineFeed) :
    (scan newline runs.flatten).2 =
      ((runs.filter (·.head? = some lineFeed)).map (·.length / 2)).sum := by
  induction runs generalizing newline with
  | nil => simp
  | cons run runs ih =>
      obtain ⟨c, n, rfl⟩ := run_eq_replicate (same run (by simp)) fun empty => by
        simp [empty] at nonempty
      have differs := (List.isChain_cons.mp maximal).1
      have rest := fun newline => ih newline
        (fun member => nonempty (List.mem_cons_of_mem _ member))
        (fun run member => same run (List.mem_cons_of_mem _ member))
        (List.isChain_cons.mp maximal).2
        (fun run member => kept run (List.mem_cons_of_mem _ member))
      rw [List.flatten_cons, scan_append]
      by_cases feed : c = lineFeed
      · subst feed
        have down : newline = false := by
          cases newline with
          | false => rfl
          | true => exact absurd rfl (fresh rfl _ rfl)
        have next : ∀ run ∈ runs.head?, run.head? ≠ some lineFeed := by
          intro run member starts
          obtain ⟨_, _, unequal⟩ := differs run member
          simp only [List.getLast_replicate, beq_eq_false_iff_ne] at unequal
          exact unequal (Option.some.inj (starts.symm.trans (List.head?_eq_some_head _)))
        rw [down, scan_lineFeeds, rest _ fun _ => next]
        simp [List.replicate_succ]
      · have plain : c ≠ carriageReturn := fun eq =>
          kept (List.replicate (n + 1) c) (by simp) (by simp [eq])
        rw [scan_others feed plain, rest false (by simp)]
        simp [List.replicate_succ, feed]

theorem scan_requests (stream : List Byte) : (scan false stream).2 = requests stream := by
  have split := List.splitBy_eq_iff.mp
    (rfl : (stream.filter (· ≠ carriageReturn)).splitBy (· == ·) = _)
  obtain ⟨joined, nonempty, same, maximal⟩ := split
  rw [← scan_filter, requests, lineFeedRuns]
  conv_lhs => rw [joined]
  apply scan_runs _ _ nonempty same maximal
  · intro run member inside
    have whole : carriageReturn ∈ stream.filter (· ≠ carriageReturn) := by
      rw [joined]
      exact List.mem_flatten.mpr ⟨run, member, inside⟩
    simp at whole
  · simp

example : requests [71, 13, 10, 13, 10, 10, 71, 10] = 1 := by decide

end Ice.Http
