import Ice.Lib.Segment

namespace Ice.Message
open Segment

abbrev Text := List (BitVec 8)

def carriageReturn : BitVec 8 := 13
def lineFeed : BitVec 8 := 10
def space : BitVec 8 := 32
def tilde : BitVec 8 := 126
def dot : BitVec 8 := 46

def blanks : Text := [carriageReturn, lineFeed, space]

def findFirstNotOf (str chars : Text) : Option Nat := str.findIdx? fun c => !chars.contains c

def find (str : Text) (c : BitVec 8) : Option Nat := str.findIdx? (· == c)

def findLastNotOf (str chars : Text) : Option Nat := findLastIdx? (fun c => !chars.contains c) str

def tolower (c : BitVec 8) : BitVec 8 := if 65 ≤ c ∧ c ≤ 90 then c + 32 else c

def printable (c : BitVec 8) : Bool := space ≤ c && c ≤ tilde

/-- `std::transform` with the function that keeps `ascii` from one byte to the next. -/
def transform : Bool → Text → Text
  | _, [] => []
  | ascii, c :: str =>
      if ascii && printable c then tolower c :: transform ascii str else c :: transform false str

def format (str : Text) : Text :=
  let str := match findFirstNotOf str blanks with
    | some pos => str.drop pos
    | none => str
  let str := match find str dot with
    | some pos => str.take pos
    | none => str
  let str := match findLastNotOf str blanks with
    | some pos => str.take (pos + 1)
    | none => str
  transform true str

def blank (c : BitVec 8) : Bool := blanks.contains c

def lower (str : Text) : Text := mapWhile printable tolower str

theorem transform_false (str : Text) : transform false str = str := by
  induction str with
  | nil => rfl
  | cons c str ih => rw [transform, Bool.false_and, if_neg Bool.false_ne_true, ih]

theorem transform_true (str : Text) : transform true str = lower str := by
  induction str with
  | nil => rfl
  | cons c str ih =>
      rw [transform, Bool.true_and, lower]
      cases met : printable c with
      | true => rw [if_pos rfl, ih, mapWhile_cons_of_pos met, lower]
      | false => rw [if_neg Bool.false_ne_true, transform_false, mapWhile_cons_of_neg met]

theorem not_not_blank : (fun c => !(!blanks.contains c)) = blank := by
  funext c
  exact Bool.not_not _

theorem leftTrim (str : Text) (nonblank : ∃ c ∈ str, blank c = false) :
    (match findFirstNotOf str blanks with
      | some pos => str.drop pos
      | none => str) = str.dropWhile blank := by
  cases found : findFirstNotOf str blanks with
  | some pos =>
      rw [← not_not_blank]
      exact drop_findIdx? found
  | none =>
      obtain ⟨c, member, other⟩ := nonblank
      have all := List.findIdx?_eq_none_iff.mp found c member
      rw [Bool.not_eq_false'] at all
      exact absurd all (Bool.eq_false_iff.mp other)

theorem cut (str : Text) :
    (match find str dot with
      | some pos => str.take pos
      | none => str) = str.takeWhile fun c => !(c == dot) := by
  cases found : find str dot with
  | some pos => exact take_findIdx? found
  | none => exact (takeWhile_of_findIdx?_eq_none found).symm

theorem rightTrim (str : Text) (first : ∀ c, str.head? = some c → blank c = false) :
    (match findLastNotOf str blanks with
      | some pos => str.take (pos + 1)
      | none => str) = str.rdropWhile blank := by
  cases found : findLastNotOf str blanks with
  | some pos =>
      rw [← not_not_blank]
      exact take_findLastIdx? found
  | none =>
      have all := forall_of_findLastIdx?_eq_none found
      cases str with
      | nil => rfl
      | cons c str =>
          have other := first c rfl
          have same := all c (List.mem_cons_self ..)
          rw [Bool.not_eq_false'] at same
          exact absurd same (Bool.eq_false_iff.mp other)

theorem format_eq (str : Text) (nonblank : ∃ c ∈ str, blank c = false) :
    format str = lower (segment blank (· == dot) str) := by
  have first : ∀ c, ((str.dropWhile blank).takeWhile fun c => !(c == dot)).head? = some c →
      blank c = false := by
    intro c first
    have kept := List.head?_dropWhile_not blank str
    rw [head_eq_of_front (List.takeWhile_prefix _) first] at kept
    simpa using kept
  rw [format, leftTrim str nonblank, cut, rightTrim _ first, transform_true]
  rfl

theorem printable_tolower : ∀ c, printable c = true → printable (tolower c) = true := by
  decide +kernel

theorem tolower_tolower : ∀ c, tolower (tolower c) = tolower c := by decide +kernel

theorem blank_tolower : ∀ c, blank (tolower c) = blank c := by decide +kernel

theorem dot_tolower : ∀ c, (tolower c == dot) = (c == dot) := by decide +kernel

/-- The string is as the four passes are to leave it, and they leave it so. -/
structure Normal (str : Text) : Prop where
  dots : dot ∉ str
  first : ∀ c, str.head? = some c → blank c = false
  last : ∀ c, str.getLast? = some c → blank c = false
  format : format str = str

theorem cut_lower (str : Text) : Cut blank (· == dot) (lower (segment blank (· == dot) str)) :=
  (cut_segment blank (· == dot) str).mapWhile (fun c _ => blank_tolower c) fun c _ => dot_tolower c

theorem format_lower (str : Text) :
    format (lower (segment blank (· == dot) str)) = lower (segment blank (· == dot) str) := by
  have cut := cut_lower str
  cases written : lower (segment blank (· == dot) str) with
  | nil => rfl
  | cons c rest =>
      rw [written] at cut
      have nonblank : ∃ d ∈ c :: rest, blank d = false :=
        ⟨c, List.mem_cons_self .., cut.first c rfl⟩
      rw [format_eq _ nonblank, cut.segment_eq, ← written]
      exact mapWhile_mapWhile printable_tolower fun c _ => tolower_tolower c

theorem format_normalises (str : Text) (nonblank : ∃ c ∈ str, blank c = false) :
    format str = lower (segment blank (· == dot) str) ∧ Normal (format str) := by
  have passes := format_eq str nonblank
  have cut := cut_lower str
  refine ⟨passes, ?_⟩
  rw [passes]
  exact ⟨fun member => by simpa using cut.inner dot member, cut.first, cut.last, format_lower str⟩

theorem format_normalises_refused :
    format [32, 67, 111, 110, 110, 101, 99, 116, 105, 111, 110, 32, 114, 101, 102, 117, 115, 101,
        100, 46, 13, 10] =
      [99, 111, 110, 110, 101, 99, 116, 105, 111, 110, 32, 114, 101, 102, 117, 115, 101, 100] := by
  have passes := format_normalises [32, 67, 111, 110, 110, 101, 99, 116, 105, 111, 110, 32, 114,
    101, 102, 117, 115, 101, 100, 46, 13, 10] ⟨67, by decide, by decide⟩
  rw [passes.1]
  decide

end Ice.Message
