import Ice.Async.MutexRun

namespace Ice.Async.Mutex
open Transition

variable {T O : Type} {s t : Mutex T O} {u v : T} {op : O} {waiter : Option O}
  {client holder : Client O} {line rest : List (Client O)} {spurious : Bool}

theorem Serves.sound (serves : Serves s line) (v : T) : s.pc v ≠ .aborted := by
  obtain ⟨_, _, _, lined⟩ := serves
  exact lined.ops.sound v

theorem Serves.granted (serves : Serves s line) : s.asked = s.granted ++ line.tail := by
  obtain ⟨stack, queue, client, lined⟩ := serves
  have served := lined.served
  have front := lined.line
  cases lined.turn with
  | free => simpa [waiting, front] using served
  | held => simpa [front] using served
  | leaving => simpa [front] using served

theorem Serves.leaving (serves : Serves s line) (leaves : (s.pc u).leaves = some holder) :
    line.head? = some holder ∧ ∀ v, v ≠ u → (s.pc v).leaves = none := by
  obtain ⟨stack, queue, client, lined⟩ := serves
  obtain ⟨leaving, front, _⟩ := lined.leaves leaves
  exact ⟨by rw [front]; rfl, leaving.others⟩

theorem Serves.owners (serves : Serves s (client :: line)) (outside : ∀ v, (s.pc v).leaves = none) :
    s.owners = [client] := by
  obtain ⟨stack, queue, holder, lined⟩ := serves
  have front := lined.line
  cases lined.turn with
  | free => cases front
  | held pushed queued owners =>
      cases front
      exact owners
  | @leaving u _ _ _ leaving => cases leaving.handing.leaves.symm.trans (outside u)

theorem Serves.dead (serves : Serves s line) (joins : ∀ v, (s.pc v).joins = none)
    (away : some op ∉ line) : s.live op = false := by
  obtain ⟨stack, queue, client, lined⟩ := serves
  by_contra live
  rcases lined.ops.kept op (by simpa using live) with member | ⟨v, joined⟩
  · exact away (by simp [lined.line, member])
  · cases (joins v).symm.trans joined

theorem Serves.outside (serves : Serves s line) (joins : (s.pc v).joins = none)
    (leaves : (s.pc v).leaves = none) : s.pc v = .outside := by
  have sound := serves.sound v
  cases place : s.pc v <;> simp_all [Pc.joins, Pc.leaves]

theorem Serves.alone (serves : Serves s [client]) (joins : ∀ v, (s.pc v).joins = none)
    (leaves : ∀ v, (s.pc v).leaves = none) :
    (∀ v, s.pc v = .outside) ∧ (∀ op, s.live op = false) ∧ s.word = .lockedNoWaiters ∧
      s.waiters = none := by
  have outside := fun v => serves.outside (joins v) (leaves v)
  obtain ⟨stack, queue, holder, lined⟩ := serves
  have front := lined.line
  cases lined.turn with
  | free => cases front
  | @held _ _ holder pushed queued =>
      obtain ⟨rfl, empty⟩ : client = holder ∧ waiting stack queue = [] := by simpa using front
      obtain ⟨rfl, rfl⟩ : queue = [] ∧ stack = [] := by simpa [waiting] using empty
      obtain ⟨top, word, pushed⟩ := pushed
      rw [Linked.nil_iff.mp pushed] at word
      refine ⟨outside, fun op => ?_, word, queued⟩
      by_contra live
      rcases lined.ops.kept op (by simpa using live) with member | ⟨v, joined⟩
      · cases member
      · cases (joins v).symm.trans joined
  | @leaving u _ _ _ leaving => cases leaving.handing.leaves.symm.trans (leaves u)

variable [DecidableEq T] [DecidableEq O]

theorem advance_pc (spurious : Bool) (busy : s.pc u ≠ .outside ∧ s.pc u ≠ .aborted) :
    ∃ pc, (s.advance u spurious (s.pc u)).pc = Function.update s.pc u pc ∧
      (shows s (.advance u spurious) = [] → pc ≠ .aborted →
        pc.joins = (s.pc u).joins ∧ pc.leaves = (s.pc u).leaves) ∧
      (shows s (.advance u spurious) ≠ [] → pc = .outside) := by
  -- An instruction that changes the line is the last one of its function.
  simp only [shows]
  cases place : s.pc u with
  | outside => exact absurd place busy.1
  | aborted => exact absurd place busy.2
  | joining op oldState =>
      cases oldState with
      | notLocked =>
          simp only [advance, acquire]
          split
          · exact ⟨_, rfl, by simp, by simp⟩
          · exact ⟨_, rfl, by simp [Pc.joins, Pc.leaves], by simp⟩
      | locked waiter => exact ⟨_, rfl, by simp [Pc.joins, Pc.leaves], by simp⟩
  | linked op oldState =>
      simp only [advance, push]
      split
      · exact ⟨_, rfl, by simp, by simp⟩
      · exact ⟨_, rfl, by simp [Pc.joins, Pc.leaves], by simp⟩
  | unlocking client =>
      simp only [advance]
      split <;> exact ⟨_, rfl, by simp [Pc.joins, Pc.leaves], by simp⟩
  | releasing client =>
      simp only [advance]
      split
      · exact ⟨_, rfl, by simp, by simp⟩
      · exact ⟨_, rfl, by simp [Pc.joins, Pc.leaves], by simp⟩
  | exchanging client =>
      simp only [advance]
      split <;> exact ⟨_, rfl, by simp [Pc.joins, Pc.leaves], by simp⟩
  | reversing client op waitersHead => exact ⟨_, rfl, by simp [Pc.joins, Pc.leaves], by simp⟩
  | relinking client op temp waitersHead =>
      simp only [advance]
      split <;> exact ⟨_, rfl, by simp [Pc.joins, Pc.leaves], by simp⟩
  | popping client op => exact ⟨_, rfl, by simp [Pc.joins, Pc.leaves], by simp⟩
  | resuming client op => exact ⟨_, rfl, by simp, by simp⟩

omit [DecidableEq T] in
theorem shows_advance (s : Mutex T O) (u : T) (spurious : Bool) :
    shows s (.advance u spurious) = [] ∨
      (∃ op, (s.pc u).joins = some op ∧ shows s (.advance u spurious) = [.ask (some op)]) ∨
      ∃ holder, (s.pc u).leaves = some holder ∧ shows s (.advance u spurious) = [.leave] := by
  simp only [shows]
  cases place : s.pc u with
  | joining op oldState =>
      cases oldState with
      | notLocked =>
          simp only
          split
          · exact .inr (.inl ⟨op, rfl, rfl⟩)
          · exact .inl rfl
      | locked waiter => exact .inl rfl
  | linked op oldState =>
      simp only
      split
      · exact .inr (.inl ⟨op, rfl, rfl⟩)
      · exact .inl rfl
  | releasing holder =>
      simp only
      split
      · exact .inr (.inr ⟨holder, rfl, rfl⟩)
      · exact .inl rfl
  | resuming holder op => exact .inr (.inr ⟨holder, rfl, rfl⟩)
  | _ => exact .inl rfl

/-- What an instruction does: nothing that a client sees, an operation joins the line, or the mutex
is passed on. -/
inductive Advances (s : Mutex T O) (u : T) (spurious : Bool) (line : List (Client O))
    (t : Mutex T O) : Prop where
  | inside (shown : shows s (.advance u spurious) = []) (serves : Serves t line)
      (granted : t.granted = s.granted) (joins : ∀ v, (t.pc v).joins = (s.pc v).joins)
      (leaves : ∀ v, (t.pc v).leaves = (s.pc v).leaves)
  | asks {op : O} (shown : shows s (.advance u spurious) = [.ask (some op)])
      (joined : (s.pc u).joins = some op) (serves : Serves t (line ++ [some op]))
      (granted : t.granted = s.granted ++ if line = [] then [some op] else [])
      (joins : ∀ v, (t.pc v).joins = if v = u then none else (s.pc v).joins)
      (leaves : ∀ v, (t.pc v).leaves = (s.pc v).leaves)
  | passes {holder : Client O} {rest : List (Client O)}
      (shown : shows s (.advance u spurious) = [.leave]) (first : line = holder :: rest)
      (left : (s.pc u).leaves = some holder) (serves : Serves t rest)
      (granted : t.granted = s.granted ++ rest.take 1)
      (joins : ∀ v, (t.pc v).joins = (s.pc v).joins) (leaves : ∀ v, (t.pc v).leaves = none)

omit [DecidableEq T] [DecidableEq O] in
theorem joins_of_leaves {pc : Pc O} (leaves : pc.leaves = some holder) : pc.joins = none := by
  cases pc <;> first | rfl | cases leaves

omit [DecidableEq T] [DecidableEq O] in
theorem leaves_of_joins {pc : Pc O} (joins : pc.joins = some op) : pc.leaves = none := by
  cases pc <;> first | rfl | cases joins

theorem Serves.advance (serves : Serves s line)
    (taken : step s (.advance u spurious) = some t) : Advances s u spurious line t := by
  obtain ⟨after, action, next⟩ := serves_step s line _ t serves taken
  have asked := asked_step taken
  have before := serves.granted
  have now := next.granted
  have sound := next.sound u
  obtain ⟨busy, rfl⟩ := provided_eq_some.mp taken
  obtain ⟨pc, same, silent, last⟩ := advance_pc spurious busy
  have views : ∀ v, (s.advance u spurious (s.pc u)).pc v = if v = u then pc else s.pc v := by
    intro v
    rw [same, Function.update_apply]
  have here : (s.advance u spurious (s.pc u)).pc u = pc := by simp [views]
  rw [here] at sound
  rcases shows_advance s u spurious with shown | ⟨op, joins, shown⟩ | ⟨holder, leaves, shown⟩
  · rw [shown] at action asked
    cases action
    obtain ⟨joins, leaves⟩ := silent shown sound
    refine .inside shown next ?_ ?_ ?_
    · rw [asked, Line.asked, List.append_nil, before] at now
      exact (List.append_cancel_right now).symm
    · intro v
      grind
    · intro v
      grind
  · rw [shown] at action asked
    cases action
    have outside := last (by simp [shown])
    have quiet := leaves_of_joins joins
    refine .asks shown joins next ?_ ?_ ?_
    · rw [asked, before, Line.asked, Line.asked] at now
      cases line with
      | nil => simpa using now.symm
      | cons client line =>
          have same : s.granted ++ (line ++ [some op]) =
              (s.advance u spurious (s.pc u)).granted ++ (line ++ [some op]) := by simpa using now
          simpa using (List.append_cancel_right same).symm
    · intro v
      grind
    · intro v
      grind
  · rw [shown] at action asked
    have outside := last (by simp [shown])
    have joins := joins_of_leaves leaves
    obtain ⟨first, others⟩ := serves.leaving leaves
    cases line with
    | nil => cases first
    | cons client rest =>
        cases first
        cases action
        refine .passes shown rfl leaves next ?_ ?_ ?_
        · rw [asked, before, Line.asked, Line.asked, List.append_nil, List.tail_cons] at now
          cases after with
          | nil => simpa using now.symm
          | cons client rest =>
              have same : s.granted ++ [client] ++ rest =
                  (s.advance u spurious (s.pc u)).granted ++ rest := by simpa using now
              exact (List.append_cancel_right same).symm
        · intro v
          rw [views]
          split
          · next same =>
              rw [same, outside, joins]
              rfl
          · rfl
        · intro v
          rw [views]
          split
          · rw [outside]
            rfl
          · next other => exact others v other

theorem Serves.construct (serves : Serves s line) {next : Option O}
    (taken : step s (.construct op next) = some t) :
    Serves t line ∧ t.granted = s.granted ∧ t.pc = s.pc := by
  obtain ⟨_, action, after⟩ := serves_step s line _ t serves taken
  cases action
  obtain ⟨_, rfl⟩ := provided_eq_some.mp taken
  exact ⟨after, rfl, rfl⟩

theorem Serves.lockAsync (serves : Serves s line)
    (taken : step s (.lockAsync u op) = some t) :
    Serves t line ∧ t.granted = s.granted ∧ s.pc u = .outside ∧
      (∀ v, (t.pc v).joins = if v = u then some op else (s.pc v).joins) ∧
      ∀ v, (t.pc v).leaves = (s.pc v).leaves := by
  obtain ⟨_, action, after⟩ := serves_step s line _ t serves taken
  cases action
  obtain ⟨⟨outside, _⟩, rfl⟩ := provided_eq_some.mp taken
  refine ⟨after, rfl, outside, fun v => ?_, fun v => ?_⟩ <;> rw [setPc_pc] <;> split
  · rfl
  · rfl
  · next same => rw [same, outside]; rfl
  · rfl

theorem Serves.unlock (serves : Serves s line) (taken : step s (.unlock u client) = some t) :
    Serves t line ∧ t.granted = s.granted ∧ line.head? = some client ∧ s.pc u = .outside ∧
      (∀ v, (t.pc v).joins = (s.pc v).joins) ∧
      ∀ v, (t.pc v).leaves = if v = u then some client else none := by
  obtain ⟨_, action, after⟩ := serves_step s line _ t serves taken
  cases action
  obtain ⟨⟨outside, owner⟩, rfl⟩ := provided_eq_some.mp taken
  have sound := after.sound u
  rw [setPc_pc, if_pos rfl] at sound
  have held : s.word ≠ .notLocked := fun free => sound (if_pos free)
  rw [if_neg held] at after ⊢
  obtain ⟨first, others⟩ := after.leaving (u := u) (by rw [setPc_pc, if_pos rfl]; rfl)
  refine ⟨after, rfl, first, outside, fun v => ?_, fun v => ?_⟩
  · rw [setPc_pc]
    split
    · next same => rw [same, outside]; rfl
    · rfl
  · split
    · next same => rw [setPc_pc, if_pos same]; rfl
    · next other => exact others v other

def Runs (s : Mutex T O) (u : T) (t : Mutex T O) : Prop :=
  ∃ k, exec step s (List.replicate k (.advance u false)) = some t

theorem Runs.refl (s : Mutex T O) (u : T) : Runs s u s := ⟨0, rfl⟩

theorem Runs.head {r : Mutex T O} (taken : step s (.advance u false) = some r)
    (rest : Runs r u t) : Runs s u t := by
  obtain ⟨k, run⟩ := rest
  refine ⟨k + 1, ?_⟩
  rw [List.replicate_succ, exec, taken]
  exact run

theorem Runs.others (runs : Runs s u t) (other : v ≠ u) : t.pc v = s.pc v := by
  obtain ⟨k, run⟩ := runs
  induction k generalizing s with
  | zero =>
      cases run
      rfl
  | succ k ih =>
      rw [List.replicate_succ] at run
      obtain ⟨r, taken, rest⟩ := exec_cons.mp run
      obtain ⟨busy, rfl⟩ := provided_eq_some.mp taken
      obtain ⟨pc, same, _⟩ := advance_pc false busy
      rw [ih rest, same, Function.update_of_ne other]

theorem advance_of_joins (joins : (s.pc u).joins = some op) :
    step s (.advance u false) = some (s.advance u false (s.pc u)) := by
  refine provided_eq_some.mpr ⟨⟨fun place => ?_, fun place => ?_⟩, rfl⟩ <;>
    rw [place] at joins <;> cases joins

theorem joins_linked (place : s.pc u = .linked op waiter) (word : s.word = .locked waiter) :
    ∃ t, Runs s u t ∧ (t.pc u).joins = none := by
  have taken := advance_of_joins (show (s.pc u).joins = some op by rw [place]; rfl)
  rw [place] at taken
  refine ⟨_, .head taken (.refl _ _), ?_⟩
  simp [advance, push, word, setPc, Pc.joins]

theorem joins_loaded (place : s.pc u = .joining op s.word) :
    ∃ t, Runs s u t ∧ (t.pc u).joins = none := by
  have taken := advance_of_joins (show (s.pc u).joins = some op by rw [place]; rfl)
  rw [place] at taken
  cases word : s.word with
  | notLocked =>
      rw [word] at taken
      refine ⟨_, .head taken (.refl _ _), ?_⟩
      simp [advance, acquire, word, setPc, Pc.joins]
  | locked waiter =>
      rw [word] at taken
      obtain ⟨t, runs, joined⟩ :=
        joins_linked (s := s.advance u false (.joining op (.locked waiter)))
          (Function.update_self ..) word
      exact ⟨t, .head taken runs, joined⟩

theorem joins_stale (place : s.pc u = .linked op waiter) :
    ∃ t, Runs s u t ∧ (t.pc u).joins = none := by
  by_cases loaded : s.word = .locked waiter
  · exact joins_linked place loaded
  · have taken := advance_of_joins (show (s.pc u).joins = some op by rw [place]; rfl)
    rw [place] at taken
    obtain ⟨t, runs, joined⟩ :=
      joins_loaded (s := s.advance u false (.linked op waiter)) (u := u)
        (by simp [advance, push, loaded, setPc]; rfl)
    exact ⟨t, .head taken runs, joined⟩

theorem joins_runs (joins : (s.pc u).joins = some op) :
    ∃ t, Runs s u t ∧ (t.pc u).joins = none := by
  have taken := advance_of_joins joins
  cases place : s.pc u with
  | joining other oldState =>
      rw [place] at taken
      cases oldState with
      | notLocked =>
          by_cases free : s.word = .notLocked
          · exact joins_loaded (by rw [place, free])
          · obtain ⟨t, runs, joined⟩ :=
              joins_loaded (s := s.advance u false (.joining other .notLocked)) (u := u)
                (by simp [advance, acquire, free, setPc]; rfl)
            exact ⟨t, .head taken runs, joined⟩
      | locked waiter =>
          obtain ⟨t, runs, joined⟩ :=
            joins_stale (s := s.advance u false (.joining other (.locked waiter)))
              (Function.update_self ..)
          exact ⟨t, .head taken runs, joined⟩
  | linked other waiter => exact joins_stale place
  | _ =>
      rw [place] at joins
      cases joins

theorem Serves.leaves_runs (serves : Serves s line) (leaves : (s.pc u).leaves = some holder) :
    ∃ t, Runs s u t ∧ t.pc u = .outside ∧ Serves t line.tail := by
  obtain ⟨stack, queue, client, lined⟩ := serves
  obtain ⟨leaving, rfl, _⟩ := lined.leaves leaves
  have serves : Serves s (holder :: (waiting stack queue).map some) := ⟨stack, queue, client, lined⟩
  obtain ⟨k, _, t, run, outside, events, _⟩ := serves.leave_run leaving.due
  obtain ⟨rest, spec, after⟩ := serves_step.run serves run
  rw [events] at spec
  cases spec
  exact ⟨t, ⟨k, run⟩, outside, after⟩

end Ice.Async.Mutex
