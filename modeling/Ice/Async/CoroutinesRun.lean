import Ice.Async.CoroutinesKept

namespace Ice.Async.Coroutines
open Transition

variable {K R : Type} [DecidableEq K] {s t : Coroutines K R} {k task : K} {p : Promise K R}

structure Delivered (s : Coroutines K R) : Prop where
  once : ∀ k task, s.awaited.count (k, task) = (s.received.map Prod.fst).count (k, task) +
    if (s.promise k).pc.awaits = some task then 1 else 0
  results : ∀ k task r, ((k, task), r) ∈ s.received →
    (s.promise task).result = some r ∧ (s.promise task).pc = .done

structure Quiet (s t : Coroutines K R) : Prop where
  awaited : t.awaited = s.awaited
  received : t.received = s.received
  awaits : ∀ k, (t.promise k).pc.awaits = (s.promise k).pc.awaits
  results : ∀ k, (s.promise k).pc = .done →
    (t.promise k).pc = .done ∧ (t.promise k).result = (s.promise k).result

theorem Delivered.quiet (delivered : Delivered s) (quiet : Quiet s t) :
    Delivered t := by
  obtain ⟨once, results⟩ := delivered
  obtain ⟨awaited, received, awaits, done⟩ := quiet
  refine ⟨fun k task => ?_, fun k task r member => ?_⟩
  · rw [awaited, received, awaits]
    exact once k task
  · rw [received] at member
    obtain ⟨result, place⟩ := results k task r member
    exact ⟨(done task place).2.trans result, (done task place).1⟩

theorem set_awaited (s : Coroutines K R) (k : K) (p : Promise K R) :
    (s.set k p).awaited = s.awaited := rfl

theorem set_received (s : Coroutines K R) (k : K) (p : Promise K R) :
    (s.set k p).received = s.received := rfl

omit [DecidableEq K] in
theorem Quiet.refl (s : Coroutines K R) : Quiet s s :=
  ⟨rfl, rfl, fun _ => rfl, fun _ done => ⟨done, rfl⟩⟩

theorem Quiet.set (quiet : Quiet s t) (awaits : p.pc.awaits = (s.promise k).pc.awaits)
    (results : (s.promise k).pc = .done → p.pc = .done ∧ p.result = (s.promise k).result) :
    Quiet s (t.set k p) := by
  refine ⟨quiet.awaited, quiet.received, fun j => ?_, fun j done => ?_⟩
  · by_cases same : j = k
    · subst same
      rwa [set_self]
    · rw [set_other t p same]
      exact quiet.awaits j
  · by_cases same : j = k
    · subst same
      rw [set_self]
      exact results done
    · rw [set_other t p same]
      exact quiet.results j done

omit [DecidableEq K] in
theorem unended {there : Pc K} (place : (s.promise k).pc = there) (other : there ≠ .done)
    (done : (s.promise k).pc = .done) : p.pc = .done ∧ p.result = (s.promise k).result :=
  absurd (place.symm.trans done) other

theorem quiet_advance (kept : Kept s) (taken : s.advance k (s.promise k).pc = some t)
    (waits : ∀ task, (s.promise k).pc ≠ .resumed task) : Quiet s t := by
  cases place : (s.promise k).pc with
  | starting task =>
      obtain ⟨created, _⟩ := kept.created place
      simp only [place, advance, created, if_true, Option.some.injEq] at taken
      subst taken
      exact ((Quiet.refl s).set (by rw [created]; rfl) (unended created (by simp))).set
        (by rw [place]; rfl) (unended place (by simp))
  | linking task =>
      simp only [place, advance] at taken
      split at taken
      · cases taken
      · cases taken
        have after : Quiet s (s.set task { s.promise task with continuation := some k }) :=
          (Quiet.refl s).set rfl fun done => ⟨done, rfl⟩
        exact after.set (by rw [place]; rfl) (unended place (by simp))
  | exchanging task =>
      simp only [place, advance] at taken
      have after : Quiet s (s.set task { s.promise task with state := true }) :=
        (Quiet.refl s).set rfl fun done => ⟨done, rfl⟩
      split at taken <;> cases taken <;>
        exact after.set (by rw [place]; rfl) (unended place (by simp))
  | completing =>
      simp only [place, advance] at taken
      split at taken <;> cases taken <;>
        exact (Quiet.refl s).set (by rw [place]; rfl) (unended place (by simp))
  | continuing =>
      obtain ⟨a, continuation, suspended, _⟩ := kept.awaiting place
      simp only [place, advance, continuation, suspended, if_true, Option.some.injEq] at taken
      subst taken
      exact ((Quiet.refl s).set (by rw [suspended]; rfl) (unended suspended (by simp))).set
        (by rw [place]; rfl) (unended place (by simp))
  | resumed task => exact absurd place (waits task)
  | created | running | awaiting | done | failed => simp [place, advance] at taken

theorem Delivered.resumed (delivered : Delivered s) (kept : Kept s)
    (place : (s.promise k).pc = .resumed task) (taken : s.advance k (.resumed task) = some t) :
    Delivered t := by
  obtain ⟨once, results⟩ := delivered
  obtain ⟨done, r, result⟩ := kept.result_of_resumed place
  simp only [advance, result, Option.some.injEq] at taken
  subst taken
  refine ⟨fun j other => ?_, fun j other r' member => ?_⟩
  · have count := once j other
    simp only [set_awaited, set_received, List.map_append, List.map_cons, List.map_nil,
      List.count_append, List.count_singleton]
    by_cases same : j = k
    · subst same
      rw [place] at count
      rw [set_self]
      by_cases same : task = other <;> simpa [Pc.awaits, same] using count
    · rw [set_other _ _ same]
      simpa [Ne.symm same] using count
  · have known : (s.promise other).result = some r' ∧ (s.promise other).pc = .done := by
      rw [set_received, List.mem_append, List.mem_singleton] at member
      rcases member with member | same
      · exact results j other r' member
      · cases same
        exact ⟨result, done⟩
    have apart : other ≠ k := by
      rintro rfl
      cases place.symm.trans known.2
    rwa [set_other _ _ apart]

theorem await_awaits (s : Coroutines K R) (k task : K) :
    ((s.await k task).promise k).pc.awaits = some task := by
  unfold Coroutines.await
  dsimp only
  split <;> rw [set_self] <;> rfl

theorem await_other (s : Coroutines K R) {j : K} (k task : K) (other : j ≠ k) :
    ((s.await k task).promise j).pc = (s.promise j).pc ∧
      ((s.await k task).promise j).result = (s.promise j).result := by
  unfold Coroutines.await
  dsimp only
  split
  · rw [set_other _ _ other]
    exact ⟨rfl, rfl⟩
  · rw [set_other _ _ other]
    by_cases same : j = task
    · subst same
      rw [set_self]
      exact ⟨rfl, rfl⟩
    · rw [set_other _ _ same]
      exact ⟨rfl, rfl⟩

theorem Delivered.await (delivered : Delivered s) (place : (s.promise k).pc = .running) :
    Delivered (s.await k task) := by
  obtain ⟨once, results⟩ := delivered
  have log : (s.await k task).awaited = s.awaited ++ [(k, task)] ∧
      (s.await k task).received = s.received := by
    unfold Coroutines.await
    split <;> exact ⟨rfl, rfl⟩
  refine ⟨fun j other => ?_, fun j other r member => ?_⟩
  · have count := once j other
    rw [log.1, log.2, List.count_append, List.count_singleton, count]
    by_cases same : j = k
    · subst same
      rw [await_awaits, place]
      by_cases same : task = other <;> simp [Pc.awaits, same]
    · rw [(await_other s k task same).1]
      simp [Ne.symm same]
  · rw [log.2] at member
    obtain ⟨result, done⟩ := results j other r member
    have apart : other ≠ k := by
      rintro rfl
      cases place.symm.trans done
    obtain ⟨pc, same⟩ := await_other s k task apart
    exact ⟨same.trans result, pc.trans done⟩

theorem delivered_step {action : Action K R} (delivered : Delivered s) (kept : Kept s)
    (taken : step s action = some t) : Delivered t := by
  cases action with
  | await k task =>
      obtain ⟨⟨place, _⟩, rfl⟩ := provided_eq_some.mp taken
      exact delivered.await place
  | complete k r =>
      obtain ⟨place, rfl⟩ := provided_eq_some.mp taken
      exact delivered.quiet ((Quiet.refl s).set (by rw [place]; rfl) (unended place nofun))
  | park k =>
      obtain ⟨place, rfl⟩ := provided_eq_some.mp taken
      exact delivered.quiet ((Quiet.refl s).set rfl (unended place nofun))
  | advance k =>
      by_cases waits : ∃ task, (s.promise k).pc = .resumed task
      · obtain ⟨task, place⟩ := waits
        simp only [step, place] at taken
        exact delivered.resumed kept place taken
      · exact delivered.quiet (quiet_advance kept taken (not_exists.mp waits))

theorem reachable_delivered {root : K → Bool} (reached : Reachable step (start root) s) :
    Kept s ∧ Delivered s := by
  induction reached with
  | refl =>
      refine ⟨start_kept root, fun k task => ?_, nofun⟩
      have idle : ((start root : Coroutines K R).promise k).pc.awaits = none := by
        simp only [start]
        split <;> rfl
      rw [idle]
      rfl
  | tail _ _ taken ih => exact ⟨kept_step ih.1 taken, delivered_step ih.2 ih.1 taken⟩

/-- No coroutine is resumed that is not suspended, and each await returns once, when the coroutine
has completed, with its result. -/
theorem await_returns_once {root : K → Bool} (reached : Reachable step (start root) s) :
    (∀ k, (s.promise k).pc ≠ .failed) ∧
      (∀ k task, s.awaited.count (k, task) = (s.received.map Prod.fst).count (k, task) +
        if (s.promise k).pc.awaits = some task then 1 else 0) ∧
      ∀ k task r, ((k, task), r) ∈ s.received →
        (s.promise task).result = some r ∧ (s.promise task).pc = .done := by
  obtain ⟨kept, delivered⟩ := reachable_delivered reached
  exact ⟨kept.sound, delivered.once, delivered.results⟩

def chain : List (Action Nat Nat) :=
  [.await 0 1, .advance 0, .await 1 2, .advance 1, .park 2, .advance 1, .advance 1, .advance 0,
    .advance 0, .complete 2 9, .advance 2, .advance 2, .advance 1, .complete 1 8, .advance 1,
    .advance 1, .advance 0]

def chained (n : Nat) : Coroutines Nat Nat :=
  (exec step (start fun k => k == 0) (chain.take n)).getD (start fun k => k == 0)

theorem chained_reachable (n : Nat) :
    Reachable step (start fun k => k == 0) (chained n) := by
  unfold chained
  cases run : exec step (start fun k => k == 0) (chain.take n) with
  | none => exact .refl
  | some s => exact exec_reachable run

theorem await_returns_once_chain : (chained 17).received = [((1, 2), 9), ((0, 1), 8)] ∧
    (chained 17).awaited.count (1, 2) = 1 ∧ ((chained 17).promise 2).result = some 9 := by
  obtain ⟨_, once, results⟩ := await_returns_once (chained_reachable 17)
  exact ⟨rfl, once 1 2, (results 1 2 9 (by decide)).1⟩

def Goes (s : Coroutines K R) (k : K) : Prop :=
  (s.promise k).pc = .running ∨ s.advance k (s.promise k).pc ≠ none

theorem not_goes (stuck : ¬ Goes s k) : (s.promise k).pc = .created ∨ (s.promise k).pc = .done ∨
    (s.promise k).pc = .failed ∨ ∃ task, (s.promise k).pc = .awaiting task ∨
      (s.promise k).pc = .linking task ∧ (s.promise task).nested = true := by
  obtain ⟨idle, stuck⟩ := not_or.mp stuck
  rw [not_not] at stuck
  cases place : (s.promise k).pc with
  | created => exact .inl rfl
  | done => exact .inr (.inl rfl)
  | failed => exact .inr (.inr (.inl rfl))
  | awaiting task => exact .inr (.inr (.inr ⟨task, .inl rfl⟩))
  | linking task =>
      simp only [place, advance] at stuck
      split at stuck
      next away => exact .inr (.inr (.inr ⟨task, .inr ⟨rfl, away⟩⟩))
      · cases stuck
  | running => exact absurd place idle
  | starting | exchanging | completing =>
      simp only [place, advance] at stuck
      split at stuck <;> cases stuck
  | resumed task =>
      simp only [place, advance] at stuck
      split at stuck <;> cases stuck
  | continuing =>
      simp only [place, advance] at stuck
      split at stuck
      · split at stuck <;> cases stuck
      · cases stuck

theorem Kept.waits (kept : Kept s) (stuck : ¬ Goes s k) (started : (s.promise k).pc ≠ .created)
    (unfinished : (s.promise k).pc ≠ .done) :
    ∃ task, (s.promise k).pc.awaits = some task ∧ (s.promise task).pc ≠ .created ∧
      (s.promise task).pc ≠ .done := by
  rcases not_goes stuck with place | place | place | ⟨task, place⟩
  · exact absurd place started
  · exact absurd place unfinished
  · exact absurd place (kept.sound k)
  · have awaits : (s.promise k).pc.awaits = some task := by
      rcases place with place | ⟨place, _⟩ <;> rw [place] <;> rfl
    refine ⟨task, awaits, ?_⟩
    have under : (s.promise task).pc.active = true ∨ (s.promise task).pc = .continuing := by
      rcases place with place | ⟨place, away⟩
      · cases kept.here place rfl with
        | awaiting active => exact active
        | completed _ _ _ _ woken => exact absurd rfl woken
      · cases kept.here place rfl with
        | linking active => exact .inl active
        | completed _ _ home => cases away.symm.trans home
    rcases under with active | continuing
    · refine ⟨Pc.active_ne_created active, fun done => ?_⟩
      rw [done] at active
      cases active
    · simp [continuing]

theorem await_progresses {root : K → Bool} (reached : Reachable step (start root) s)
    (started : (s.promise k).pc ≠ .created) (unfinished : (s.promise k).pc ≠ .done) :
    ∃ task, Relation.ReflTransGen (fun k task => (s.promise k).pc.awaits = some task) k task ∧
      Goes s task := by
  have kept := reachable_kept reached
  -- Each coroutine in the chain has been started later than the one before it.
  induction left : s.clock - (s.promise k).rank using Nat.strongRecOn generalizing k with
  | ind n ih =>
      by_cases goes : Goes s k
      · exact ⟨k, .refl, goes⟩
      · obtain ⟨task, awaits, running, unending⟩ := kept.waits goes started unfinished
        have later := kept.rank task k (kept.awaiter k task awaits)
        have bound := (kept.settled task).rank
        obtain ⟨last, chain, goes⟩ := ih _ (by omega) running unending rfl
        exact ⟨last, chain.head awaits, goes⟩

theorem await_progresses_chain : ((chained 9).promise 0).pc = .awaiting 1 ∧
    ∃ task, Relation.ReflTransGen
      (fun k task => ((chained 9).promise k).pc.awaits = some task) 0 task ∧
      Goes (chained 9) task :=
  ⟨rfl, await_progresses (k := 0) (chained_reachable 9) nofun nofun⟩

end Ice.Async.Coroutines
