import Ice.Async.Coroutines

namespace Ice.Async.Coroutines
open Transition

variable {K R : Type}

namespace Pc

def awaits : Pc K → Option K
  | starting task | linking task | exchanging task | awaiting task | resumed task => some task
  | _ => none

def opens : Pc K → Option K
  | starting task | linking task | exchanging task | awaiting task => some task
  | _ => none

def active : Pc K → Bool
  | running | starting _ | linking _ | exchanging _ | awaiting _ | resumed _ | completing => true
  | _ => false

theorem opens_awaits {pc : Pc K} {task : K} (opens : pc.opens = some task) :
    pc.awaits = some task := by
  cases pc <;> simp_all [Pc.opens, Pc.awaits]

theorem active_ne_created {pc : Pc K} (active : pc.active = true) : pc ≠ .created := by
  rintro rfl
  cases active

end Pc

/-- What holds of the promise of `task` when `k` has awaited it, by where `k` is. -/
inductive Awaited (k task : K) : Pc K → Promise K R → Prop where
  | starting {p : Promise K R} (pc : p.pc = .created) (state : p.state = false)
      (back : p.nested = false) : Awaited k task (.starting task) p
  | linking {p : Promise K R} (pc : p.pc.active = true) (state : p.state = false)
      (back : p.nested = true → ∀ other, p.pc ≠ .awaiting other) :
      Awaited k task (.linking task) p
  | exchanging {p : Promise K R} (pc : p.pc.active = true) (state : p.state = false)
      (back : p.nested = false) (continuation : p.continuation = some k) :
      Awaited k task (.exchanging task) p
  | awaiting {p : Promise K R} (pc : p.pc.active = true ∨ p.pc = .continuing)
      (state : p.state = true) (back : p.nested = false) (continuation : p.continuation = some k) :
      Awaited k task (.awaiting task) p
  | completed {pc : Pc K} {p : Promise K R} (done : p.pc = .done) (state : p.state = true)
      (back : p.nested = false) (started : pc ≠ .starting task) (woken : pc ≠ .awaiting task) :
      Awaited k task pc p

structure Onward (p q : Promise K R) : Prop where
  before : p.pc.active = true
  after : q.pc.active = true
  result : q.pc = .completing → q.result ≠ none
  state : q.state = p.state
  continuation : q.continuation = p.continuation
  awaiter : q.awaiter = p.awaiter
  rank : q.rank = p.rank
  back : q.nested = true → p.nested = true ∧ ∀ other, q.pc ≠ .awaiting other

theorem Onward.home {p q : Promise K R} (onward : Onward p q) (home : p.nested = false) :
    q.nested = false := by
  by_contra away
  rw [(onward.back (by simpa using away)).1] at home
  cases home

theorem Onward.goto {p : Promise K R} {before after : Pc K} (place : p.pc = before)
    (active : before.active = true) (goes : after.active = true) (incomplete : after ≠ .completing)
    (awake : ∀ other, after ≠ .awaiting other) : Onward p { p with pc := after } where
  before := place ▸ active
  after := goes
  result completes := absurd completes incomplete
  state := rfl
  continuation := rfl
  awaiter := rfl
  rank := rfl
  back away := ⟨away, awake⟩

section Awaiting
variable {k task : K} {there : Pc K} {p q : Promise K R}

theorem Awaited.onward (awaited : Awaited k task there p) (onward : Onward p q) :
    Awaited k task there q := by
  have ⟨before, after, _, state, continuation, _, _, back⟩ := onward
  cases awaited with
  | starting created => rw [created] at before; cases before
  | linking _ unset _ => exact .linking after (state.trans unset) fun away => (back away).2
  | exchanging _ unset home next =>
      exact .exchanging after (state.trans unset) (onward.home home) (continuation.trans next)
  | awaiting _ set home next =>
      exact .awaiting (.inl after) (state.trans set) (onward.home home) (continuation.trans next)
  | completed done => rw [done] at before; cases before

theorem Awaited.returned {pc : Pc K} (awaited : Awaited k task there p)
    (before : there.opens ≠ some task) (after : pc.opens ≠ some task) : Awaited k task pc p := by
  cases awaited with
  | starting | linking | exchanging | awaiting => exact absurd rfl before
  | completed done set home =>
      refine .completed done set home ?_ ?_
      · rintro rfl
        exact after rfl
      · rintro rfl
        exact after rfl

end Awaiting

structure Settled (clock : Nat) (p : Promise K R) : Prop where
  root : p.awaiter = none →
    p.pc ≠ .continuing ∧ (p.state = true ↔ p.pc = .done) ∧ p.nested = false
  result : p.pc = .completing ∨ p.pc = .continuing ∨ p.pc = .done → p.result ≠ none
  rank : p.rank ≤ clock
  sound : p.pc ≠ .failed

structure Link (k task : K) (p q : Promise K R) : Prop where
  awaited : Awaited k task p.pc q
  begun : p.pc ≠ .created
  rank : p.rank < q.rank

structure Kept (s : Coroutines K R) : Prop where
  settled : ∀ k, Settled s.clock (s.promise k)
  linked : ∀ task k, (s.promise task).awaiter = some k →
    Link k task (s.promise k) (s.promise task)
  awaiter : ∀ k task, (s.promise k).pc.awaits = some task → (s.promise task).awaiter = some k

namespace Kept
variable {s : Coroutines K R} {k task : K}

theorem awaited (kept : Kept s) (task k : K) (owner : (s.promise task).awaiter = some k) :
    Awaited k task (s.promise k).pc (s.promise task) := (kept.linked task k owner).awaited

theorem sound (kept : Kept s) (k : K) : (s.promise k).pc ≠ .failed := (kept.settled k).sound

theorem result (kept : Kept s) (k : K)
    (ended : (s.promise k).pc = .completing ∨ (s.promise k).pc = .continuing ∨
      (s.promise k).pc = .done) : (s.promise k).result ≠ none := (kept.settled k).result ended

theorem rank (kept : Kept s) (task k : K) (owner : (s.promise task).awaiter = some k) :
    (s.promise k).rank < (s.promise task).rank := (kept.linked task k owner).rank

theorem apart (kept : Kept s) (owner : (s.promise task).awaiter = some k) : k ≠ task := by
  rintro rfl
  exact Nat.lt_irrefl _ (kept.rank k k owner)

end Kept

section Settling
variable {clock : Nat} {p q : Promise K R} {k : K}

theorem Settled.onward (settled : Settled clock p) (onward : Onward p q) : Settled clock q := by
  have ⟨before, after, result, state, _, awaiter, rank, _⟩ := onward
  have unlike : ∀ {pc : Pc K}, pc.active = false → q.pc ≠ pc := by
    rintro _ idle rfl
    rw [idle] at after
    cases after
  refine ⟨fun alone => ?_, fun ended => ?_, rank ▸ settled.rank, unlike rfl⟩
  · obtain ⟨_, unset, home⟩ := settled.root (awaiter.symm.trans alone)
    refine ⟨unlike rfl, ?_, onward.home home⟩
    rw [state, unset]
    refine iff_of_false (fun done => ?_) (unlike rfl)
    rw [done] at before
    cases before
  · rcases ended with place | place | place
    · exact result place
    · exact absurd place (unlike rfl)
    · exact absurd place (unlike rfl)

theorem Settled.owned (settled : Settled clock p) (owner : q.awaiter = some k)
    (rank : q.rank = p.rank)
    (result : q.pc = .completing ∨ q.pc = .continuing ∨ q.pc = .done → q.result ≠ none)
    (sound : q.pc ≠ .failed) : Settled clock q := by
  refine ⟨fun alone => ?_, result, rank ▸ settled.rank, sound⟩
  rw [owner] at alone
  cases alone

end Settling

variable {s t : Coroutines K R} {k task : K} {p q : Promise K R}

structure Steps (s : Coroutines K R) (k : K) (p : Promise K R) : Prop where
  awaiter : p.awaiter = (s.promise k).awaiter
  rank : p.rank = (s.promise k).rank
  settled : Settled s.clock p
  begun : (s.promise k).pc ≠ .created → p.pc ≠ .created
  awaits : ∀ task, p.pc.awaits = some task → (s.promise task).awaiter = some k

theorem Kept.same (kept : Kept s) (k : K) : Steps s k (s.promise k) :=
  ⟨rfl, rfl, kept.settled k, id, kept.awaiter k⟩

theorem Kept.onward (kept : Kept s) (onward : Onward (s.promise k) p)
    (awaits : ∀ task, p.pc.awaits = some task → (s.promise task).awaiter = some k) :
    Steps s k p :=
  ⟨onward.awaiter, onward.rank, (kept.settled k).onward onward,
    fun _ => Pc.active_ne_created onward.after, awaits⟩

theorem Kept.above (kept : Kept s) (onward : Onward (s.promise k) p) (j : K)
    (owner : (s.promise k).awaiter = some j) : Awaited j k (s.promise j).pc p :=
  (kept.awaited k j owner).onward onward

theorem Kept.of_steps (kept : Kept s) (clock : t.clock = s.clock)
    (steps : ∀ k, Steps s k (t.promise k))
    (awaited : ∀ task k, (s.promise task).awaiter = some k →
      Awaited k task (t.promise k).pc (t.promise task)) : Kept t := by
  refine ⟨fun j => ?_, fun task k owner => ?_, fun k task waits => ?_⟩
  · rw [clock]
    exact (steps j).settled
  · rw [(steps task).awaiter] at owner
    have before := kept.linked task k owner
    refine ⟨awaited task k owner, (steps k).begun before.begun, ?_⟩
    rw [(steps task).rank, (steps k).rank]
    exact before.rank
  · rw [(steps task).awaiter]
    exact (steps k).awaits task waits

variable [DecidableEq K]

@[simp] theorem set_self (s : Coroutines K R) (k : K) (p : Promise K R) :
    (s.set k p).promise k = p := Function.update_self ..

theorem set_other (s : Coroutines K R) {j k : K} (p : Promise K R) (other : j ≠ k) :
    (s.set k p).promise j = s.promise j := Function.update_of_ne other ..

theorem steps_set (here : Steps s k p) (elsewhere : ∀ j, Steps s j (t.promise j)) (j : K) :
    Steps s j ((t.set k p).promise j) := by
  by_cases same : j = k
  · subst same
    rwa [set_self]
  · rw [set_other t p same]
    exact elsewhere j

theorem Kept.one (kept : Kept s) (steps : Steps s k p)
    (above : ∀ j, (s.promise k).awaiter = some j → Awaited j k (s.promise j).pc p)
    (before : ∀ task, (s.promise k).pc.opens ≠ some task) (after : ∀ task, p.pc.opens ≠ some task) :
    Kept (s.set k p) := by
  refine kept.of_steps rfl (steps_set steps kept.same) fun task j owner => ?_
  have awaited := kept.awaited task j owner
  by_cases one : task = k
  · subst one
    rw [set_self, set_other s p (kept.apart owner)]
    exact above j owner
  · rw [set_other s p one]
    by_cases two : j = k
    · subst two
      rw [set_self]
      exact awaited.returned (before task) (after task)
    · rwa [set_other s p two]

theorem Kept.pair (kept : Kept s) (waits : (s.promise k).pc.awaits = some task)
    (steps : Steps s k p) (steps' : Steps s task q) (link : Awaited k task p.pc q)
    (above : ∀ j, (s.promise k).awaiter = some j → Awaited j k (s.promise j).pc p)
    (below : ∀ other, (s.promise other).awaiter = some task →
      Awaited task other q.pc (s.promise other))
    (opens : ∀ other, p.pc.opens = some other → other = task) :
    Kept ((s.set task q).set k p) := by
  have owner := kept.awaiter k task waits
  have apart := kept.apart owner
  have atTask : ((s.set task q).set k p).promise task = q := by
    rw [set_other _ p apart.symm, set_self]
  have elsewhere : ∀ j, j ≠ k → j ≠ task → ((s.set task q).set k p).promise j = s.promise j :=
    fun j one two => by rw [set_other _ p one, set_other s q two]
  refine kept.of_steps rfl (steps_set steps (steps_set steps' kept.same)) fun other j owns => ?_
  by_cases one : other = task
  · obtain rfl : j = k := by
      rw [one, owner] at owns
      exact (Option.some.inj owns).symm
    rwa [one, atTask, set_self]
  have closed : (s.promise k).pc.opens ≠ some other := fun same => by
    rw [Pc.opens_awaits same] at waits
    exact one (Option.some.inj waits)
  by_cases two : other = k
  · subst two
    have three : j ≠ task := by
      rintro rfl
      exact Nat.lt_asymm (kept.rank _ _ owner) (kept.rank _ _ owns)
    rw [set_self, elsewhere j (kept.apart owns) three]
    exact above j owns
  rw [elsewhere other two one]
  by_cases three : j = k
  · subst three
    rw [set_self]
    exact (kept.awaited other j owns).returned closed fun same => one (opens other same)
  · by_cases four : j = task
    · subst four
      rw [atTask]
      exact below other owns
    · rw [elsewhere j three four]
      exact kept.awaited other j owns

theorem Kept.alone (kept : Kept s) (onward : Onward (s.promise k) p)
    (awaits : ∀ task, p.pc.awaits = some task → (s.promise task).awaiter = some k)
    (before : ∀ task, (s.promise k).pc.opens ≠ some task) (after : ∀ task, p.pc.opens ≠ some task) :
    Kept (s.set k p) :=
  kept.one (kept.onward onward awaits) (kept.above onward) before after

theorem Kept.park (kept : Kept s) (place : (s.promise k).pc = .running) :
    Kept (s.set k { s.promise k with nested := false }) := by
  have onward : Onward (s.promise k) { s.promise k with nested := false } := by
    constructor <;> simp [place, Pc.active]
  exact kept.alone onward (by simp [place, Pc.awaits]) (by simp [place, Pc.opens])
    (by simp [place, Pc.opens])

theorem Kept.complete (kept : Kept s) (place : (s.promise k).pc = .running) (r : R) :
    Kept (s.set k { s.promise k with pc := .completing, result := some r }) := by
  have onward : Onward (s.promise k) { s.promise k with pc := .completing, result := some r } := by
    constructor <;> simp [place, Pc.active]
  exact kept.alone onward (by simp [Pc.awaits]) (by simp [place, Pc.opens]) (by simp [Pc.opens])

omit [DecidableEq K] in
theorem Kept.owner (kept : Kept s) {there : Pc K} (place : (s.promise k).pc = there)
    (awaits : there.awaits = some task) : (s.promise task).awaiter = some k :=
  kept.awaiter k task (place ▸ awaits)

omit [DecidableEq K] in
theorem Kept.here (kept : Kept s) {there : Pc K} (place : (s.promise k).pc = there)
    (awaits : there.awaits = some task) : Awaited k task there (s.promise task) :=
  place ▸ kept.awaited task k (kept.owner place awaits)

omit [DecidableEq K] in
theorem Kept.created (kept : Kept s) (place : (s.promise k).pc = .starting task) :
    (s.promise task).pc = .created ∧ (s.promise task).state = false := by
  cases kept.here place rfl with
  | starting created unset => exact ⟨created, unset⟩
  | completed _ _ _ started => exact absurd rfl started

theorem Kept.starting (kept : Kept s) (place : (s.promise k).pc = .starting task)
    (taken : s.advance k (.starting task) = some t) : Kept t := by
  have owner := kept.owner place rfl
  obtain ⟨created, unset⟩ := kept.created place
  simp only [advance, created, if_true, Option.some.injEq] at taken
  subst taken
  have onward : Onward (s.promise k) { s.promise k with pc := .linking task } :=
    .goto place rfl rfl nofun nofun
  have settled := (kept.settled task).owned (q := { s.promise task with
    pc := .running, nested := true }) owner rfl (by simp) nofun
  refine kept.pair (by rw [place]; rfl) (kept.onward onward ?_) ⟨rfl, rfl, settled, nofun, nofun⟩
    (.linking rfl unset nofun) (kept.above onward) (fun other owns => ?_) ?_
  · rintro _ ⟨⟩
    exact owner
  · exact absurd created (kept.linked other task owns).begun
  · rintro _ ⟨⟩
    rfl

theorem Kept.linking (kept : Kept s) (place : (s.promise k).pc = .linking task)
    (taken : s.advance k (.linking task) = some t) : Kept t := by
  have owner := kept.owner place rfl
  have here := kept.here place rfl
  simp only [advance] at taken
  split at taken
  · cases taken
  next home =>
    cases taken
    have onward : Onward (s.promise k) { s.promise k with pc := .exchanging task } :=
      .goto place rfl rfl nofun nofun
    have settled := (kept.settled task).owned (q := { s.promise task with
      continuation := some k }) owner rfl (kept.result task) (kept.sound task)
    have link : Awaited k task (.exchanging task)
        { s.promise task with continuation := some k } := by
      cases here with
      | linking active unset => exact .exchanging active unset (by simpa using home) rfl
      | completed done set home => exact .completed done set home nofun nofun
    refine kept.pair (by rw [place]; rfl) (kept.onward onward ?_)
      ⟨rfl, rfl, settled, id, kept.awaiter task⟩ link (kept.above onward)
      (fun other => kept.awaited other task) ?_
    · rintro _ ⟨⟩
      exact owner
    · rintro _ ⟨⟩
      rfl

theorem Kept.exchanging (kept : Kept s) (place : (s.promise k).pc = .exchanging task)
    (taken : s.advance k (.exchanging task) = some t) : Kept t := by
  have owner := kept.owner place rfl
  have settled := (kept.settled task).owned (q := { s.promise task with state := true }) owner rfl
    (kept.result task) (kept.sound task)
  have steps : Steps s task { s.promise task with state := true } :=
    ⟨rfl, rfl, settled, id, kept.awaiter task⟩
  simp only [advance] at taken
  cases kept.here place rfl with
  | exchanging active unset home next =>
      rw [if_neg (by simp [unset]), Option.some.injEq] at taken
      subst taken
      have onward : Onward (s.promise k)
          { s.promise k with pc := .awaiting task, nested := false } := by
        constructor <;> simp [place, Pc.active]
      refine kept.pair (by rw [place]; rfl) (kept.onward onward ?_) steps
        (.awaiting (.inl active) rfl home next) (kept.above onward)
        (fun other => kept.awaited other task) ?_
      · rintro _ ⟨⟩
        exact owner
      · rintro _ ⟨⟩
        rfl
  | completed done set home =>
      rw [if_pos set, Option.some.injEq] at taken
      subst taken
      have onward : Onward (s.promise k) { s.promise k with pc := .resumed task } :=
        .goto place rfl rfl nofun nofun
      refine kept.pair (by rw [place]; rfl) (kept.onward onward ?_) steps
        (.completed done rfl home nofun nofun) (kept.above onward)
        (fun other => kept.awaited other task) nofun
      rintro _ ⟨⟩
      exact owner

omit [DecidableEq K] in
theorem Kept.result_of_resumed (kept : Kept s) (place : (s.promise k).pc = .resumed task) :
    (s.promise task).pc = .done ∧ ∃ r, (s.promise task).result = some r := by
  -- An awaitable that returns finds the coroutine at its end.
  cases kept.here place rfl with
  | completed done =>
      exact ⟨done, Option.ne_none_iff_exists'.mp (kept.result task (.inr (.inr done)))⟩

theorem Kept.resumed (kept : Kept s) (place : (s.promise k).pc = .resumed task)
    (taken : s.advance k (.resumed task) = some t) : Kept t := by
  obtain ⟨_, r, result⟩ := kept.result_of_resumed place
  simp only [advance, result, Option.some.injEq] at taken
  subst taken
  have onward : Onward (s.promise k) { s.promise k with pc := .running } :=
    .goto place rfl rfl nofun nofun
  have noted : Kept { s with received := s.received ++ [((k, task), r)] } :=
    ⟨kept.settled, kept.linked, kept.awaiter⟩
  exact noted.alone onward (by simp [Pc.awaits]) (by simp [place, Pc.opens]) (by simp [Pc.opens])

theorem Kept.completing (kept : Kept s) (place : (s.promise k).pc = .completing)
    (taken : s.advance k .completing = some t) : Kept t := by
  have result := kept.result k (.inl place)
  have settled := kept.settled k
  simp only [advance] at taken
  split at taken
  next set =>
    cases taken
    -- Only an awaiting coroutine has set the state before.
    obtain ⟨j, owner⟩ : ∃ j, (s.promise k).awaiter = some j := by
      refine Option.ne_none_iff_exists'.mp fun alone => ?_
      have done := (settled.root alone).2.1.mp set
      rw [place] at done
      cases done
    refine kept.one ⟨rfl, rfl, settled.owned owner rfl (fun _ => result) nofun, nofun, nofun⟩
      (fun j owner => ?_) (by simp [place, Pc.opens]) (by simp [Pc.opens])
    have awaited := kept.awaited k j owner
    generalize (s.promise j).pc = there at awaited
    cases awaited with
    | starting _ unset | linking _ unset | exchanging _ unset =>
        rw [set] at unset
        cases unset
    | awaiting _ _ home next => exact .awaiting (.inr rfl) rfl home next
    | completed done =>
        rw [place] at done
        cases done
  next unset =>
    cases taken
    have done : Settled s.clock
        { s.promise k with pc := .done, state := true, nested := false } :=
      ⟨fun _ => ⟨nofun, by simp, rfl⟩, fun _ => result, settled.rank, nofun⟩
    refine kept.one ⟨rfl, rfl, done, nofun, nofun⟩ (fun j owner => ?_) (by simp [place, Pc.opens])
      (by simp [Pc.opens])
    have awaited := kept.awaited k j owner
    generalize (s.promise j).pc = there at awaited
    cases awaited with
    | starting created =>
        rw [place] at created
        cases created
    | linking | exchanging => exact .completed rfl rfl rfl nofun nofun
    | awaiting _ set => exact absurd set unset
    | completed done =>
        rw [place] at done
        cases done

omit [DecidableEq K] in
theorem Kept.awaiting (kept : Kept s) (place : (s.promise task).pc = .continuing) :
    ∃ k, (s.promise task).continuation = some k ∧ (s.promise k).pc = .awaiting task ∧
      (s.promise task).state = true ∧ (s.promise task).nested = false := by
  -- A coroutine that goes on to its continuation finds the one that awaits it suspended.
  cases owner : (s.promise task).awaiter with
  | none => exact absurd place ((kept.settled task).root owner).1
  | some k =>
      have awaited := kept.awaited task k owner
      generalize pc : (s.promise k).pc = there at awaited
      cases awaited with
      | awaiting _ state back continuation => exact ⟨k, continuation, pc, state, back⟩
      | starting here => cases place.symm.trans here
      | linking active => cases place ▸ active
      | exchanging active => cases place ▸ active
      | completed here => cases place.symm.trans here

theorem set_comm (s : Coroutines K R) {j k : K} (p q : Promise K R) (other : j ≠ k) :
    (s.set j p).set k q = (s.set k q).set j p := by
  simp only [set, Function.update_comm other]

theorem Kept.continuing (kept : Kept s) (place : (s.promise task).pc = .continuing)
    (taken : s.advance task .continuing = some t) : Kept t := by
  obtain ⟨k, continuation, suspended, state, home⟩ := kept.awaiting place
  simp only [advance, continuation, suspended, if_true, Option.some.injEq] at taken
  subst taken
  have owner := kept.owner suspended rfl
  rw [set_comm s _ _ (kept.apart owner)]
  have onward : Onward (s.promise k) { s.promise k with pc := .resumed task } :=
    .goto suspended rfl rfl nofun nofun
  have settled := (kept.settled task).owned (q := { s.promise task with
    pc := .done, continuation := some k }) owner rfl
    (fun _ => kept.result task (.inr (.inl place))) nofun
  refine kept.pair (by rw [suspended]; rfl) (kept.onward onward ?_)
    ⟨rfl, rfl, settled, nofun, nofun⟩ (.completed rfl state home nofun nofun) (kept.above onward)
    (fun other owns => ?_) nofun
  · rintro _ ⟨⟩
    exact owner
  · exact (kept.awaited other task owns).returned (by simp [place, Pc.opens]) nofun

omit [DecidableEq K] in
theorem Settled.later {clock : Nat} (settled : Settled clock p) : Settled (clock + 1) p :=
  ⟨settled.root, settled.result, Nat.le_succ_of_le settled.rank, settled.sound⟩

omit [DecidableEq K] in
theorem Kept.asked (kept : Kept s) (k task : K) :
    Kept { s with awaited := s.awaited ++ [(k, task)], clock := s.clock + 1 } :=
  ⟨fun j => (kept.settled j).later, kept.linked, kept.awaiter⟩

theorem Kept.again (kept : Kept s) (place : (s.promise k).pc = .running)
    (done : (s.promise task).pc = .done) (owner : (s.promise task).awaiter = some k) :
    Kept (s.await k task) := by
  have onward : Onward (s.promise k) { s.promise k with pc := .resumed task } :=
    .goto place rfl rfl nofun nofun
  rw [Coroutines.await, if_pos done]
  refine (kept.asked k task).alone onward ?_ (by simp [place, Pc.opens]) nofun
  rintro _ ⟨⟩
  exact owner

theorem Kept.first (kept : Kept s) (place : (s.promise k).pc = .running)
    (created : (s.promise task).pc = .created) (alone : (s.promise task).awaiter = none) :
    Kept (s.await k task) := by
  have apart : k ≠ task := by
    rintro rfl
    cases place.symm.trans created
  obtain ⟨_, unset, home⟩ := (kept.settled task).root alone
  have onward : Onward (s.promise k) { s.promise k with pc := .starting task } :=
    .goto place rfl rfl nofun nofun
  have unlike : ∀ j other, (s.promise other).awaiter = some j → j ≠ task := fun j other owns => by
    rintro rfl
    exact (kept.linked other j owns).begun created
  rw [Coroutines.await, if_neg (by rw [created]; nofun)]
  have atTask : ∀ (u : Coroutines K R) (p q : Promise K R),
      ((u.set task q).set k p).promise task = q := fun u p q => by
    rw [set_other _ p apart.symm, set_self]
  have elsewhere : ∀ (u : Coroutines K R) (p q : Promise K R) (j : K), j ≠ k → j ≠ task →
      ((u.set task q).set k p).promise j = u.promise j := fun u p q j one two => by
    rw [set_other _ p one, set_other u q two]
  refine ⟨fun j => ?_, fun other j owns => ?_, fun j other awaits => ?_⟩
  · by_cases one : j = k
    · subst one
      rw [set_self]
      exact ((kept.settled j).onward onward).later
    · by_cases two : j = task
      · subst two
        rw [atTask]
        exact ⟨nofun, (kept.settled j).result, Nat.le_refl _, (kept.settled j).sound⟩
      · rw [elsewhere _ _ _ j one two]
        exact (kept.settled j).later
  · by_cases one : other = task
    · subst one
      rw [atTask] at owns ⊢
      cases owns
      rw [set_self]
      exact ⟨.starting created (by simpa [created] using unset) home, nofun,
        Nat.lt_succ_of_le (kept.settled k).rank⟩
    · by_cases two : other = k
      · subst two
        rw [set_self] at owns ⊢
        have before := kept.linked other j owns
        rw [elsewhere _ _ _ j (kept.apart owns) (unlike j other owns)]
        exact ⟨before.awaited.onward onward, before.begun, before.rank⟩
      · rw [elsewhere _ _ _ other two one] at owns ⊢
        have before := kept.linked other j owns
        by_cases three : j = k
        · subst three
          rw [set_self]
          refine ⟨before.awaited.returned (by simp [place, Pc.opens]) ?_, nofun, before.rank⟩
          rintro ⟨⟩
          exact one rfl
        · rw [elsewhere _ _ _ j three (unlike j other owns)]
          exact before
  · by_cases one : j = k
    · subst one
      rw [set_self] at awaits
      cases awaits
      rw [atTask]
    · by_cases two : j = task
      · subst two
        rw [atTask, created] at awaits
        cases awaits
      · rw [elsewhere _ _ _ j one two] at awaits
        have owner := kept.awaiter j other awaits
        have three : other ≠ task := by
          rintro rfl
          cases alone.symm.trans owner
        by_cases four : other = k
        · subst four
          rw [set_self]
          exact owner
        · rw [elsewhere _ _ _ other four three]
          exact owner

theorem Kept.await (kept : Kept s) (place : (s.promise k).pc = .running)
    (fresh : (s.promise task).pc = .created ∧ (s.promise task).awaiter = none ∨
      (s.promise task).pc = .done ∧ (s.promise task).awaiter = some k) : Kept (s.await k task) := by
  rcases fresh with ⟨created, alone⟩ | ⟨done, owner⟩
  · exact kept.first place created alone
  · exact kept.again place done owner

theorem kept_step {action : Action K R} (kept : Kept s) (taken : step s action = some t) :
    Kept t := by
  cases action with
  | await k task =>
      obtain ⟨⟨place, fresh⟩, rfl⟩ := provided_eq_some.mp taken
      exact kept.await place fresh
  | complete k r =>
      obtain ⟨place, rfl⟩ := provided_eq_some.mp taken
      exact kept.complete place r
  | park k =>
      obtain ⟨place, rfl⟩ := provided_eq_some.mp taken
      exact kept.park place
  | advance k =>
      simp only [step] at taken
      cases place : (s.promise k).pc <;> rw [place] at taken
      case starting task => exact kept.starting place taken
      case linking task => exact kept.linking place taken
      case exchanging task => exact kept.exchanging place taken
      case resumed task => exact kept.resumed place taken
      case completing => exact kept.completing place taken
      case continuing => exact kept.continuing place taken
      all_goals cases taken

omit [DecidableEq K] in
theorem start_kept (root : K → Bool) : Kept (start root : Coroutines K R) := by
  have pc : ∀ k, ((start root : Coroutines K R).promise k).pc = .running ∨
      ((start root : Coroutines K R).promise k).pc = .created := fun k => by
    simp only [start]
    split
    · exact .inl rfl
    · exact .inr rfl
  refine ⟨fun k => ⟨fun _ => ?_, fun ended => ?_, Nat.le_refl _, ?_⟩, fun _ _ owner => ?_,
    fun k task awaits => ?_⟩
  · rcases pc k with place | place <;> simp [place] <;> simp [start]
  · rcases pc k with place | place <;> simp [place] at ended
  · rcases pc k with place | place <;> simp [place]
  · cases owner
  · rcases pc k with place | place <;> simp [place, Pc.awaits] at awaits

theorem reachable_kept {root : K → Bool} (reached : Reachable step (start root) s) : Kept s := by
  induction reached with
  | refl => exact start_kept root
  | tail _ _ taken ih => exact kept_step ih taken

end Ice.Async.Coroutines
