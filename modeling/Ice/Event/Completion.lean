import Ice.Event.Overlapped
import Ice.Lib.Place
import Ice.Lib.Underway

namespace Ice.Event.Windows
open Transition Place Net

variable {O T W : Type} {cls : O → OverlappedClass}

inductive Spot (T : Type) where
  | thread (t : T)
  | kernel
  | port
  | batch (t : T)
  deriving DecidableEq, Repr

def Pc.object : Pc cls W → Option O
  | .free | .polling _ => none
  | .called _ o report => if (cls o).pends report then none else some o
  | .awaitSuspend _ o | .suspend _ o | .call _ o | .refused _ o | .resume o | .wake o => some o

def Pc.Fact (awaiter : Option W) (w : W) : Pc cls W → Prop
  | .free | .polling _ => False
  | .awaitSuspend w' _ => w' = w
  | .suspend site _ | .call site _ | .called site _ _ | .refused site _ =>
      (∀ w' ∈ site, w' = w) ∧ awaiter = some w
  | .resume _ | .wake _ => awaiter = some w

namespace State

def Fact (s : State cls T W) (o : O) (w : W) : Spot T → Prop
  | .thread t => (s.pc t).Fact (s.object o).awaiter w
  | .kernel | .port | .batch _ => (s.object o).awaiter = some w

variable [DecidableEq O]

def copies (s : State cls T W) (o : O) : Spot T → Nat
  | .thread t => if (s.pc t).object = some o then 1 else 0
  | .kernel => s.outstanding o
  | .port => s.queued o
  | .batch t => (s.batch t).count o

structure Waiting (s : State cls T W) (o : O) (w : W) (spot : Spot T) : Prop where
  place : At (s.copies o) spot
  fact : s.Fact o w spot

def Settled (s : State cls T W) (o : O) : Prop :=
  s.wait o = none ∧ Nowhere (s.copies o) ∨ ∃ w spot, s.wait o = some w ∧ s.Waiting o w spot

structure Elsewhere (s u : State cls T W) (focus : Option O) : Prop where
  awaiter : ∀ o, focus ≠ some o → (u.object o).awaiter = (s.object o).awaiter
  wait : ∀ o, focus ≠ some o → u.wait o = s.wait o
  outstanding : ∀ o, focus ≠ some o → u.outstanding o = s.outstanding o
  queued : ∀ o, focus ≠ some o → u.queued o = s.queued o
  batch : ∀ o, focus ≠ some o → ∀ t, (u.batch t).count o = (s.batch t).count o
  pc : ∀ o, focus ≠ some o → ∀ t, (s.pc t).object = some o ∨ (u.pc t).object = some o →
    u.pc t = s.pc t

variable {s u : State cls T W} {t : T} {o : O} {w : W} {focus : Option O} {spot : Spot T}
  {pc next : Pc cls W}

theorem Elsewhere.copies (elsewhere : Elsewhere s u focus) (other : focus ≠ some o) :
    u.copies o = s.copies o := by
  funext spot
  cases spot with
  | thread t =>
      simp only [State.copies]
      by_cases here : (s.pc t).object = some o ∨ (u.pc t).object = some o
      · rw [elsewhere.pc o other t here]
      · rw [not_or] at here
        rw [if_neg here.1, if_neg here.2]
  | kernel => exact elsewhere.outstanding o other
  | port => exact elsewhere.queued o other
  | batch t => exact elsewhere.batch o other t

theorem Elsewhere.settled (elsewhere : Elsewhere s u focus) (other : focus ≠ some o)
    (settled : s.Settled o) : u.Settled o := by
  unfold Settled
  rw [elsewhere.wait o other, elsewhere.copies other]
  rcases settled with idle | ⟨w, spot, wait, waiting⟩
  · exact .inl idle
  · right
    refine ⟨w, spot, wait, by rw [elsewhere.copies other]; exact waiting.place, ?_⟩
    have fact := waiting.fact
    have same := elsewhere.awaiter o other
    cases spot with
    | thread t =>
        have here : (s.pc t).object = some o := by
          by_contra away
          have one := waiting.place.here
          simp [State.copies, away] at one
        simpa only [Fact, elsewhere.pc o other t (.inl here), same] using fact
    | kernel | port | batch => exact same.trans fact

/-! ## Waits -/

abbrev Tally (s : State cls T W) : Prop :=
  Underway (fun o w => s.wait o = some w) s.begun s.continued

omit [DecidableEq O] in
theorem Tally.of_same (tally : s.Tally) (wait : u.wait = s.wait) (begun : u.begun = s.begun)
    (continued : u.continued = s.continued) : u.Tally := by
  rw [Tally, wait, begun, continued]
  exact tally

section Counting
variable [DecidableEq T] [DecidableEq W]

theorem Tally.start (tally : s.Tally) (new : s.begun w = false) : (s.start t w o).Tally := by
  apply Underway.start (p := o) tally new
  intro o' w' waits
  by_cases same : o' = o
  · subst same
    have equal : some w = some w' := by simpa [State.start, goto] using waits
    exact .inr ⟨rfl, (Option.some.inj equal).symm⟩
  · left
    simpa [State.start, goto, same] using waits

theorem Tally.proceed (tally : s.Tally) (wait : s.wait o = some w) :
    (s.proceed t w o).Tally := by
  apply Underway.finish tally wait
  intro o' w' waits
  by_cases same : o' = o
  · subst same
    simp [State.proceed, goto] at waits
  · refine ⟨?_, same⟩
    simpa [State.proceed, goto, same] using waits

end Counting

/-! ## The invariant -/

structure Inv (s : State cls T W) : Prop where
  settled : ∀ o, s.Settled o
  tally : s.Tally

theorem Inv.found (inv : s.Inv) (found : s.copies o spot ≠ 0) :
    ∃ w, s.wait o = some w ∧ s.Waiting o w spot := by
  rcases inv.settled o with ⟨_, nowhere⟩ | ⟨w, other, wait, waiting⟩
  · exact absurd (nowhere spot) found
  · obtain rfl := waiting.place.unique found
    exact ⟨w, wait, waiting⟩

theorem Inv.holder (inv : s.Inv) (place : s.pc t = pc) (here : pc.object = some o) :
    ∃ w, s.wait o = some w ∧ At (s.copies o) (.thread t) ∧ pc.Fact (s.object o).awaiter w := by
  have found : s.copies o (.thread t) ≠ 0 := by simp [copies, place, here]
  obtain ⟨w, wait, waiting⟩ := inv.found found
  exact ⟨w, wait, waiting.place, place ▸ waiting.fact⟩

theorem Inv.of_settled (inv : s.Inv) (elsewhere : Elsewhere s u (some o)) (settled : u.Settled o)
    (tally : u.Tally) : u.Inv where
  settled o' := by
    by_cases same : o' = o
    · rw [same]
      exact settled
    · exact elsewhere.settled (fun equal => same (Option.some.inj equal).symm) (inv.settled o')
  tally := tally

theorem Inv.pass (inv : s.Inv) (elsewhere : Elsewhere s u none) (tally : u.Tally) : u.Inv :=
  ⟨fun o => elsewhere.settled (by simp) (inv.settled o), tally⟩

theorem Inv.move (inv : s.Inv) (o : O) (spot arrival : Spot T) (elsewhere : Elsewhere s u (some o))
    (wait : u.wait o = s.wait o) (leaves : s.copies o spot = u.copies o spot + 1)
    (arrives : u.copies o arrival = s.copies o arrival + 1)
    (rest : ∀ p, p ≠ spot → p ≠ arrival → u.copies o p = s.copies o p)
    (fact : ∀ w, s.Fact o w spot → u.Fact o w arrival) (tally : u.Tally) : u.Inv := by
  obtain ⟨w, waits, waiting⟩ := inv.found (by rw [leaves]; exact Nat.succ_ne_zero _)
  apply inv.of_settled elsewhere _ tally
  right
  exact ⟨w, arrival, wait.trans waits, waiting.place.move leaves arrives rest, fact w waiting.fact⟩

section Threads
variable [DecidableEq T]

omit [DecidableEq O] in
theorem moves_elsewhere (moves : u.pc = Function.update s.pc t next)
    (before : (s.pc t).object = none ∨ (s.pc t).object = focus)
    (after : next.object = none ∨ next.object = focus) (o : O) (other : focus ≠ some o) (t' : T)
    (here : (s.pc t').object = some o ∨ (u.pc t').object = some o) : u.pc t' = s.pc t' := by
  have away : ∀ place : Option O, place = none ∨ place = focus → place ≠ some o := by
    rintro place (rfl | rfl)
    · simp
    · exact other
  rw [moves] at here ⊢
  by_cases mine : t' = t
  · subst mine
    rw [Function.update_self] at here
    rcases here with here | here
    · exact absurd here (away _ before)
    · exact absurd here (away _ after)
  · rw [Function.update_of_ne mine]

omit [DecidableEq O] in
@[simp] theorem goto_pc (s : State cls T W) (t : T) (pc : Pc cls W) :
    (s.goto t pc).pc = Function.update s.pc t pc := rfl

omit [DecidableEq T] in
theorem setObject_other (object : Object W (cls o)) {o' : O} (other : o' ≠ o) :
    (s.setObject o object).object o' = s.object o' := Function.update_of_ne other ..

omit [DecidableEq T] in
@[simp] theorem setObject_self (object : Object W (cls o)) :
    (s.setObject o object).object o = object := Function.update_self ..

omit [DecidableEq T] in
theorem setObject_eq (s : State cls T W) (o : O) : s.setObject o (s.object o) = s := by
  simp [setObject]

theorem goto_copies (place : s.pc t = pc) (same : next.object = pc.object) :
    (s.goto t next).copies o = s.copies o := by
  funext spot
  cases spot with
  | thread t' =>
      by_cases mine : t' = t
      · simp [copies, mine, place, same]
      · simp [copies, mine]
  | kernel | port | batch => rfl

theorem code_elsewhere (place : s.pc t = pc) (before : pc.object = none ∨ pc.object = some o)
    (after : next.object = none ∨ next.object = some o) (object : Object W (cls o)) :
    Elsewhere s ((s.setObject o object).goto t next) (some o) where
  awaiter o' other :=
    congrArg Object.awaiter (setObject_other object fun same => other (congrArg some same.symm))
  wait _ _ := rfl
  outstanding _ _ := rfl
  queued _ _ := rfl
  batch _ _ _ := rfl
  pc := moves_elsewhere rfl (by rw [place]; exact before) after

theorem Inv.code (inv : s.Inv) (place : s.pc t = pc) (here : pc.object = some o)
    (there : next.object = some o) (object : Object W (cls o))
    (fact : ∀ w, pc.Fact (s.object o).awaiter w → next.Fact object.awaiter w) :
    ((s.setObject o object).goto t next).Inv := by
  obtain ⟨w, wait, spot, known⟩ := inv.holder place here
  apply inv.of_settled (code_elsewhere place (.inr here) (.inr there) object) _
    (inv.tally.of_same rfl rfl rfl)
  right
  refine ⟨w, .thread t, wait, ?_, ?_⟩
  · have same : ((s.setObject o object).goto t next).copies o = s.copies o :=
      goto_copies (s := s.setObject o object) place (there.trans here.symm)
    rw [same]
    exact spot
  · simpa [Fact, goto] using fact w known

theorem Inv.goto (inv : s.Inv) (place : s.pc t = pc) (here : pc.object = some o)
    (there : next.object = some o)
    (fact : ∀ w, pc.Fact (s.object o).awaiter w → next.Fact (s.object o).awaiter w) :
    (s.goto t next).Inv := by
  have next := inv.code place here there (s.object o) fact
  rwa [setObject_eq] at next

theorem Inv.away (inv : s.Inv) (before : (s.pc t).object = none) (after : next.object = none) :
    (s.goto t next).Inv :=
  inv.pass ⟨fun _ _ => rfl, fun _ _ => rfl, fun _ _ => rfl, fun _ _ => rfl, fun _ _ _ => rfl,
    moves_elsewhere rfl (.inl before) (.inl after)⟩ (inv.tally.of_same rfl rfl rfl)

omit [DecidableEq T] in
theorem Inv.setMembers (inv : s.Inv) (members : (cls o).Members) :
    (s.setMembers o members).Inv := by
  have awaiter : ∀ o', ((s.setMembers o members).object o').awaiter = (s.object o').awaiter := by
    intro o'
    by_cases same : o' = o
    · subst same
      simp [State.setMembers]
    · exact congrArg Object.awaiter (setObject_other _ same)
  exact inv.pass ⟨fun o' _ => awaiter o', fun _ _ => rfl, fun _ _ => rfl, fun _ _ => rfl,
    fun _ _ _ => rfl, fun _ _ _ _ => rfl⟩ (inv.tally.of_same rfl rfl rfl)

/-! ## The steps -/

theorem Inv.call (inv : s.Inv) {site : Option W} (place : s.pc t = .call site o)
    (report : (cls o).Call) : (s.call t site o report).Inv := by
  unfold State.call
  cases pends : (cls o).pends report with
  | false =>
      rw [if_neg (by simp)]
      exact inv.goto place rfl (by simp [Pc.object, pends]) fun w fact => fact
  | true =>
      rw [if_pos rfl]
      have left : (Pc.called site o report).object = none := by simp [Pc.object, pends]
      refine inv.move o (.thread t) .kernel ⟨fun _ _ => rfl, fun _ _ => rfl, fun o' other => ?_,
        fun _ _ => rfl, fun _ _ _ => rfl,
        moves_elsewhere rfl (.inr (by rw [place]; rfl)) (.inl left)⟩
        rfl ?_ ?_ (fun p other away => ?_) (fun w fact => ?_) (inv.tally.of_same rfl rfl rfl)
      · have away : o' ≠ o := fun same => other (congrArg some same.symm)
        simp [State.goto, away]
      · have here : (s.pc t).object = some o := by rw [place]; rfl
        simp [copies, here, left]
      · simp [copies, State.goto]
      · cases p with
        | thread t' =>
            have mine : t' ≠ t := fun same => other (congrArg Spot.thread same)
            simp [copies, mine]
        | kernel => exact absurd rfl away
        | port | batch => rfl
      · rw [Fact, place] at fact
        exact fact.2

omit [DecidableEq T] in
theorem Inv.complete (inv : s.Inv) {n : Nat} (outstanding : s.outstanding o = n + 1) :
    Inv { s with
      outstanding := Function.update s.outstanding o n
      queued := Function.update s.queued o (s.queued o + 1) } := by
  refine inv.move o .kernel .port ⟨fun _ _ => rfl, fun _ _ => rfl, fun o' other => ?_,
    fun o' other => ?_, fun _ _ _ => rfl, fun _ _ _ _ => rfl⟩ rfl ?_ ?_ (fun p other away => ?_)
    (fun w fact => fact) (inv.tally.of_same rfl rfl rfl)
  · exact Function.update_of_ne (fun same => other (congrArg some same.symm)) ..
  · exact Function.update_of_ne (fun same => other (congrArg some same.symm)) ..
  · simp [copies, outstanding]
  · simp [copies]
  · cases p with
    | kernel => exact absurd rfl other
    | port => exact absurd rfl away
    | thread | batch => rfl

theorem Inv.dequeue (inv : s.Inv) {n : Nat} (queued : s.queued o = n + 1) :
    Inv { s with
      queued := Function.update s.queued o n
      batch := Function.update s.batch t (s.batch t ++ [o]) } := by
  refine inv.move o .port (.batch t) ⟨fun _ _ => rfl, fun _ _ => rfl, fun _ _ => rfl,
    fun o' other => ?_, fun o' other t' => ?_, fun _ _ _ _ => rfl⟩ rfl ?_ ?_
    (fun p other away => ?_) (fun w fact => fact) (inv.tally.of_same rfl rfl rfl)
  · exact Function.update_of_ne (fun same => other (congrArg some same.symm)) ..
  · have apart : o ≠ o' := fun same => other (congrArg some same)
    by_cases mine : t' = t
    · simp [mine, List.count_append, apart]
    · simp [mine]
  · simp [copies, queued]
  · simp [copies, List.count_append]
  · cases p with
    | port => exact absurd rfl other
    | batch t' =>
        have mine : t' ≠ t := fun same => away (congrArg Spot.batch same)
        simp [copies, mine]
    | thread | kernel => rfl

theorem Inv.dispatch (inv : s.Inv) {rest : List O} (place : s.pc t = .free)
    (batch : s.batch t = o :: rest) :
    Inv ({ s with batch := Function.update s.batch t rest }.goto t (.resume o)) := by
  refine inv.move o (.batch t) (.thread t) ⟨fun _ _ => rfl, fun _ _ => rfl, fun _ _ => rfl,
    fun _ _ => rfl, fun o' other t' => ?_,
    moves_elsewhere rfl (.inl (by rw [place]; rfl)) (.inr rfl)⟩ rfl ?_ ?_
    (fun p other away => ?_) (fun w fact => ?_) (inv.tally.of_same rfl rfl rfl)
  · have apart : o ≠ o' := fun same => other (congrArg some same)
    by_cases mine : t' = t
    · simp [State.goto, mine, batch, apart]
    · simp [State.goto, mine]
  · simp [copies, State.goto, batch]
  · simp [copies, place, Pc.object]
  · cases p with
    | batch t' =>
        have mine : t' ≠ t := fun same => other (congrArg Spot.batch same)
        simp [copies, State.goto, mine]
    | thread t' =>
        have mine : t' ≠ t := fun same => away (congrArg Spot.thread same)
        simp [copies, mine]
    | kernel | port => rfl
  · simp only [Fact, goto_pc, Function.update_self]
    exact fact

theorem Inv.suspend (inv : s.Inv) {site : Option W} (place : s.pc t = .suspend site o) :
    (s.suspend t site o).Inv := by
  unfold State.suspend
  split
  · exact inv.code place rfl rfl _ fun w fact => fact
  · exact inv.goto place rfl rfl fun w fact => fact

theorem returned_pending (pairs : Pairs (cls o)) {report : (cls o).Call}
    (pends : (cls o).pends report = true) (site : Option W) :
    s.returned t site o report = s.goto t .free := by
  have same : s.setMembers o (s.object o).members = s := setObject_eq s o
  simp only [State.returned, pairs.pending _ _ pends, same]

theorem Inv.returned (inv : s.Inv) (pairs : Pairs (cls o)) {site : Option W}
    {report : (cls o).Call} (place : s.pc t = .called site o report) :
    (s.returned t site o report).Inv := by
  cases pends : (cls o).pends report with
  | true =>
      rw [returned_pending pairs pends]
      exact inv.away (by simp [place, Pc.object, pends]) rfl
  | false =>
      have here : (Pc.called site o report).object = some o := by simp [Pc.object, pends]
      have settled := pairs.settled (s.object o).members report pends
      simp only [State.returned]
      split
      · exact inv.code place here rfl _ fun w fact => fact
      next answers => exact absurd answers settled
      · exact inv.code place here rfl _ fun w fact => fact

theorem Inv.resume (inv : s.Inv) (place : s.pc t = .resume o) (report : (cls o).Completion) :
    (s.resume t o report).Inv := by
  simp only [State.resume]
  split
  · exact inv.setMembers _
  · exact inv.code place rfl rfl _ fun w fact => fact
  · exact inv.code place rfl rfl _ fun w fact => ⟨by simp, fact⟩

omit [DecidableEq T] in
theorem Inv.construct (inv : s.Inv) (wait : s.wait o = none) (object : Object W (cls o)) :
    (s.setObject o object).Inv := by
  rcases inv.settled o with idle | ⟨w, _, waits, _⟩
  · refine inv.of_settled ⟨fun o' other => ?_, fun _ _ => rfl, fun _ _ => rfl, fun _ _ => rfl,
      fun _ _ _ => rfl, fun _ _ _ _ => rfl⟩ (.inl idle) (inv.tally.of_same rfl rfl rfl)
    exact congrArg Object.awaiter
      (setObject_other object fun same => other (congrArg some same.symm))
  · simp [wait] at waits

section Waits
variable [DecidableEq W]

theorem Inv.start (inv : s.Inv) (place : s.pc t = .free) (wait : s.wait o = none)
    (new : s.begun w = false) : (s.start t w o).Inv := by
  rcases inv.settled o with ⟨_, nowhere⟩ | ⟨w', _, waits, _⟩
  · refine inv.of_settled ⟨fun _ _ => rfl, fun o' other => ?_, fun _ _ => rfl, fun _ _ => rfl,
      fun _ _ _ => rfl, moves_elsewhere rfl (.inl (by rw [place]; rfl)) (.inr rfl)⟩
      (.inr ⟨w, .thread t, ?_, ?_, ?_⟩) (inv.tally.start new)
    · have away : o' ≠ o := fun same => other (congrArg some same.symm)
      simp [State.start, State.goto, away]
    · simp [State.start, State.goto]
    · refine nowhere.appear ?_ fun p other => ?_
      · simp [copies, State.start, Pc.object]
      · cases p with
        | thread t' =>
            have mine : t' ≠ t := fun same => other (congrArg Spot.thread same)
            simp [copies, State.start, mine]
        | kernel | port | batch => rfl
    · simp [Fact, State.start, Pc.Fact]
  · simp [wait] at waits

theorem Inv.proceed (inv : s.Inv) (place : s.pc t = pc) (here : pc.object = some o)
    (wait : s.wait o = some w) :
    (s.proceed t w o).Inv ∧ Nowhere ((s.proceed t w o).copies o) := by
  obtain ⟨_, _, spot, _⟩ := inv.holder place here
  have nowhere : Nowhere ((s.proceed t w o).copies o) := by
    refine AtMostOnce.disappear (.inl ⟨_, spot⟩) (p := .thread t) ?_ fun p other => ?_
    · have found : (s.pc t).object = some o := place ▸ here
      have left : (.free : Pc cls W).object ≠ some o := by simp [Pc.object]
      simp [copies, State.proceed, found, left]
    · cases p with
      | thread t' =>
          have mine : t' ≠ t := fun same => other (congrArg Spot.thread same)
          simp [copies, State.proceed, mine]
      | kernel | port | batch => rfl
  refine ⟨inv.of_settled ⟨fun _ _ => rfl, fun o' other => ?_, fun _ _ => rfl, fun _ _ => rfl,
    fun _ _ _ => rfl, moves_elsewhere rfl (.inr (place ▸ here)) (.inl rfl)⟩
    (.inl ⟨?_, nowhere⟩) (inv.tally.proceed wait), nowhere⟩
  · have away : o' ≠ o := fun same => other (congrArg some same.symm)
    simp [State.proceed, State.goto, away]
  · simp [State.proceed, State.goto]

def Continued (s u : State cls T W) : Prop :=
  ∃ t w o, s.wait o = some w ∧ u = s.proceed t w o ∧ Nowhere (u.copies o)

theorem Inv.go (inv : s.Inv) (pairs : ∀ o, Pairs (cls o)) (action : s.go t = some u) :
    u.Inv ∧ (u.continued = s.continued ∨ s.Continued u) := by
  unfold State.go at action
  split at action
  next w o place =>
    cases action
    refine ⟨inv.code place rfl rfl _ fun w' same => ?_, .inl rfl⟩
    obtain rfl : w = w' := same
    simp [Pc.Fact]
  next site o place =>
    cases action
    refine ⟨inv.suspend place, .inl ?_⟩
    unfold State.suspend
    split <;> rfl
  next site o report place =>
    cases action
    refine ⟨inv.returned (pairs o) place, .inl ?_⟩
    simp only [State.returned]
    split <;> rfl
  next w o place =>
    cases action
    obtain ⟨w', wait, _, same, _⟩ := inv.holder place rfl
    obtain rfl := same w rfl
    obtain ⟨after, nowhere⟩ := inv.proceed place rfl wait
    exact ⟨after, .inr ⟨t, w, o, wait, rfl, nowhere⟩⟩
  next o place =>
    cases action
    exact ⟨inv.goto place rfl rfl fun w fact => fact.2, .inl rfl⟩
  next o place =>
    obtain ⟨w, awaits, rfl⟩ := Option.map_eq_some_iff.mp action
    obtain ⟨w', wait, _, awaiter⟩ := inv.holder place rfl
    obtain rfl : w = w' := Option.some.inj (awaits.symm.trans awaiter)
    obtain ⟨after, nowhere⟩ := inv.proceed place rfl wait
    exact ⟨after, .inr ⟨t, w, o, wait, rfl, nowhere⟩⟩
  · cases action

theorem Inv.step (inv : s.Inv) (pairs : ∀ o, Pairs (cls o)) {a : Action cls T W}
    (action : s.step a = some u) : u.Inv ∧ (u.continued = s.continued ∨ s.Continued u) := by
  cases a with
  | operation t w o members =>
      simp only [State.step] at action
      split at action
      next place =>
        obtain ⟨⟨_, wait, new⟩, rfl⟩ := provided_eq_some.mp action
        have idle := Option.isNone_iff_eq_none.mp wait
        exact ⟨(inv.construct idle _).start place idle new, .inl rfl⟩
      · cases action
  | await t w o =>
      simp only [State.step] at action
      split at action
      next place =>
        obtain ⟨⟨_, wait, new⟩, rfl⟩ := provided_eq_some.mp action
        exact ⟨inv.start place (Option.isNone_iff_eq_none.mp wait) new, .inl rfl⟩
      · cases action
  | argument t o argument =>
      simp only [State.step] at action
      split at action
      · cases action
        exact ⟨inv.setMembers _, .inl rfl⟩
      · cases action
  | call t o report =>
      simp only [State.step] at action
      split at action
      next site o' place =>
        obtain ⟨rfl, rfl⟩ := provided_eq_some.mp action
        exact ⟨inv.call place report, .inl rfl⟩
      · cases action
  | complete o =>
      simp only [State.step] at action
      split at action
      next n outstanding =>
        cases action
        exact ⟨inv.complete outstanding, .inl rfl⟩
      · cases action
  | resume t o report =>
      simp only [State.step] at action
      split at action
      next o' place =>
        obtain ⟨rfl, rfl⟩ := provided_eq_some.mp action
        refine ⟨inv.resume place report, .inl ?_⟩
        simp only [State.resume]
        split <;> rfl
      · cases action
  | poll t bufferSize =>
      simp only [State.step] at action
      split at action
      next place _ =>
        cases action
        exact ⟨inv.away (by rw [place]; rfl) rfl, .inl rfl⟩
      · cases action
  | dequeue t o =>
      simp only [State.step] at action
      split at action
      next _ n _ queued =>
        obtain ⟨_, rfl⟩ := provided_eq_some.mp action
        exact ⟨inv.dequeue queued, .inl rfl⟩
      · cases action
  | polled t =>
      simp only [State.step] at action
      split at action
      next _ place =>
        cases action
        exact ⟨inv.away (by rw [place]; rfl) rfl, .inl rfl⟩
      · cases action
  | dispatch t =>
      simp only [State.step] at action
      split at action
      next o rest place batch =>
        cases action
        exact ⟨inv.dispatch place batch, .inl rfl⟩
      · cases action
  | go t => exact inv.go pairs action

omit [DecidableEq T] [DecidableEq W] in
theorem create_inv (object : (o : O) → Object W (cls o)) :
    (create object : State cls T W).Inv where
  settled o := by
    left
    refine ⟨rfl, fun p => ?_⟩
    cases p <;> simp [copies, create, Pc.object]
  tally := by
    constructor <;> simp [create]

theorem reaches_inv {object : (o : O) → Object W (cls o)} (pairs : ∀ o, Pairs (cls o))
    (reached : Reachable step (create object) s) : s.Inv :=
  reached.invariant (create_inv object) fun _ _ _ inv _ action => (inv.step pairs action).1

/-! ## After a pending call -/

theorem step_stuck {site : Option W} {report : (cls o).Call} {a : Action cls T W}
    (place : s.pc t = .called site o report) (mine : a.thread = some t) (other : a ≠ .go t) :
    s.step a = none := by
  cases a with
  | complete o => cases mine
  | go t' =>
      cases mine
      exact absurd rfl other
  | operation t' | await t' | argument t' | call t' | resume t' | poll t' | dequeue t' | polled t'
  | dispatch t' =>
      cases mine
      simp [State.step, place]

theorem step_pending (pairs : Pairs (cls o)) {site : Option W} {report : (cls o).Call}
    {a : Action cls T W} (place : s.pc t = .called site o report)
    (pends : (cls o).pends report = true) (mine : a.thread = some t) :
    s.step a = none ∨ s.step a = some (s.goto t .free) := by
  by_cases returns : a = .go t
  · right
    subst returns
    simp only [State.step, State.go, place, returned_pending pairs pends]
  · exact .inl (step_stuck place mine returns)

theorem step_pending_frame (pairs : Pairs (cls o)) {site : Option W} {report : (cls o).Call}
    {a : Action cls T W} (place : s.pc t = .called site o report)
    (pends : (cls o).pends report = true) (mine : a.thread = some t) {o' : O}
    (object : Object W (cls o')) :
    (s.setObject o' object).step a = (s.step a).map (·.setObject o' object) := by
  by_cases returns : a = .go t
  · subst returns
    have placed : (s.setObject o' object).pc t = .called site o report := place
    simp only [State.step, State.go, place, placed, returned_pending pairs pends]
    rfl
  · rw [step_stuck place mine returns, step_stuck (s := s.setObject o' object) place mine returns]
    rfl

end Waits

end Threads

end State

/-- Over overlapped I/O, for all operations in any number of threads: a call is made only while no
request of its event is under way; a wait continues at most once, and leaves no request and no
packet behind; until then it is in exactly one place; and a thread whose call is pending goes its
way in the same manner whatever the events contain, and does not change them. -/
theorem request_continues_once [DecidableEq O] [DecidableEq T] [DecidableEq W]
    (operation : O → Operation) (object : (o : O) → Object W (overlappedClass (operation o)))
    (s : State (fun o => overlappedClass (operation o)) T W)
    (reached : Reachable State.step (State.create object) s) :
    ((∀ o, s.outstanding o ≤ 1) ∧ ∀ t site o, s.pc t = .call site o →
      s.outstanding o = 0 ∧ s.queued o = 0 ∧ ∀ t', o ∉ s.batch t') ∧
    ((∀ w, s.continued w ≤ 1) ∧
      ∀ a u w, s.step a = some u → u.continued w ≠ s.continued w →
        ∃ o, s.wait o = some w ∧ u.wait o = none) ∧
    (∀ o, s.wait o = none → Nowhere (s.copies o)) ∧
    (∀ o w, s.wait o = some w → Once (s.copies o)) ∧
    (∀ t site o report, s.pc t = .called site o report →
      (overlappedClass (operation o)).pends report = true → ∀ a, a.thread = some t →
        (∀ o' object,
          (s.setObject o' object).step a = (s.step a).map (·.setObject o' object)) ∧
        ∀ u, s.step a = some u → u.object = s.object ∧ u.pc t = .free) := by
  have pairs := fun o => overlapped_pairs (operation o)
  have inv := State.reaches_inv pairs reached
  refine ⟨⟨fun o => ?_, fun t site o place => ?_⟩, ⟨inv.tally.most, fun a u w action changed => ?_⟩,
    fun o idle => ?_, fun o w waits => ?_, fun t site o report place pends a mine => ?_⟩
  · rcases Nat.eq_zero_or_pos (s.outstanding o) with none | some
    · omega
    · have found : s.copies o .kernel ≠ 0 := Nat.pos_iff_ne_zero.mp some
      obtain ⟨_, _, waiting⟩ := inv.found found
      exact Nat.le_of_eq waiting.place.here
  · obtain ⟨_, _, spot, _⟩ := inv.holder place rfl
    refine ⟨spot.elsewhere .kernel (by simp), spot.elsewhere .port (by simp), fun t' => ?_⟩
    exact List.count_eq_zero.mp (spot.elsewhere (.batch t') (by simp))
  · rcases (inv.step pairs action).2 with same | ⟨t, w', o, waits, rfl, _⟩
    · exact absurd (congrFun same w) changed
    · obtain rfl : w = w' := by
        by_contra other
        simp [State.proceed, State.goto, other] at changed
      exact ⟨o, waits, by simp [State.proceed, State.goto]⟩
  · rcases inv.settled o with ⟨_, nowhere⟩ | ⟨w, _, waits, _⟩
    · exact nowhere
    · simp [idle] at waits
  · rcases inv.settled o with ⟨none, _⟩ | ⟨_, spot, _, waiting⟩
    · simp [none] at waits
    · exact ⟨spot, waiting.place⟩
  · refine ⟨fun o' object => State.step_pending_frame (s := s) (pairs o) place pends mine object,
      fun u action => ?_⟩
    rcases State.step_pending (s := s) (pairs o) place pends mine with stuck | returns
    · simp [stuck] at action
    · rw [returns] at action
      cases action
      exact ⟨rfl, by simp⟩

def storage (_ : Unit) : Object Unit (overlappedClass .tcpRecv) :=
  { members := ({ buffer := { size := 1024 } } : Tcp.Windows.Recv) }

def early : List (Action (fun _ : Unit => overlappedClass .tcpRecv) Bool Unit) :=
  [.operation false () () ({ buffer := { size := 1024 } } : Tcp.Windows.Recv), .go false, .go false,
    .call false () (.error 997 : Except Errno Nat), .complete (), .poll true 1, .dequeue true (),
    .polled true, .dispatch true, .resume true () (.ok 7 : Except Errno Nat), .go true]

theorem request_continues_once_early :
    ∃ s, exec State.step (State.create storage) early = some s ∧ s.continued () = 1 ∧
      Nowhere (s.copies ()) := by
  obtain ⟨s, run, continued, idle⟩ : ∃ s, exec State.step (State.create storage) early = some s ∧
      s.continued () = 1 ∧ s.wait () = none := ⟨_, rfl, rfl, rfl⟩
  have once := request_continues_once (fun _ => .tcpRecv) storage s (exec_reachable run)
  exact ⟨s, run, continued, once.2.2.1 () idle⟩

end Ice.Event.Windows
