import Ice.Async.Mutex
import Ice.Lib.Line
import Ice.Lib.Linked
import Ice.Lib.Simulation

namespace Ice.Async
open Transition

namespace Pc

variable {O : Type}

@[grind =] def joins : Pc O → Option O
  | joining op _ | linked op _ => some op
  | _ => none

@[grind =] def leaves : Pc O → Option (Client O)
  | unlocking client | releasing client | exchanging client | reversing client _ _
  | relinking client _ _ _ | popping client _ | resuming client _ => some client
  | _ => none

end Pc

/-- The operations that `unlock` has yet to serve, in order, apart from those that join while it is at
work. -/
inductive Handing {O : Type} (next : O → Option O) (waiters : Option O) (stack : List O)
    (client : Client O) : Pc O → List O → Prop where
  | unlocking {queue : List O} (queued : Linked next waiters queue) :
      Handing next waiters stack client (.unlocking client) queue
  | releasing (empty : waiters = none) : Handing next waiters stack client (.releasing client) []
  | exchanging (empty : waiters = none) (pushed : stack ≠ []) :
      Handing next waiters stack client (.exchanging client) []
  | reversing {op : O} {waitersHead : Option O} {rest done : List O} (empty : waiters = none)
      (left : Linked next (some op) rest) (turned : Linked next waitersHead done) :
      Handing next waiters stack client (.reversing client op waitersHead) (rest.reverse ++ done)
  | relinking {op : O} {temp waitersHead : Option O} {rest done : List O} (empty : waiters = none)
      (left : Linked next temp rest) (turned : Linked next waitersHead done) :
      Handing next waiters stack client (.relinking client op temp waitersHead)
        (rest.reverse ++ op :: done)
  | popping {op : O} {queue : List O} (queued : Linked next (some op) queue) :
      Handing next waiters stack client (.popping client op) queue
  | resuming {op : O} {queue : List O} (queued : Linked next waiters queue) :
      Handing next waiters stack client (.resuming client op) (op :: queue)

namespace Handing

variable {O : Type} {next after : O → Option O} {waiters : Option O} {stack queue : List O}
  {client : Client O} {pc : Pc O} {op : O}

theorem congr (handing : Handing next waiters stack client pc queue)
    (same : ∀ op ∈ queue, after op = next op) : Handing after waiters stack client pc queue := by
  cases handing with
  | unlocking queued => exact .unlocking (queued.congr same)
  | releasing empty => exact .releasing empty
  | exchanging empty pushed => exact .exchanging empty pushed
  | reversing empty left turned =>
      exact .reversing empty (left.congr fun a member => same a (by simp [member]))
        (turned.congr fun a member => same a (by simp [member]))
  | relinking empty left turned =>
      exact .relinking empty (left.congr fun a member => same a (by simp [member]))
        (turned.congr fun a member => same a (by simp [member]))
  | popping queued => exact .popping (queued.congr same)
  | resuming queued => exact .resuming (queued.congr fun a member => same a (by simp [member]))

theorem push (handing : Handing next waiters stack client pc queue) (op : O) :
    Handing next waiters (op :: stack) client pc queue := by
  cases handing with
  | unlocking queued => exact .unlocking queued
  | releasing empty => exact .releasing empty
  | exchanging empty _ => exact .exchanging empty (List.cons_ne_nil op stack)
  | reversing empty left turned => exact .reversing empty left turned
  | relinking empty left turned => exact .relinking empty left turned
  | popping queued => exact .popping queued
  | resuming queued => exact .resuming queued

theorem leaves (handing : Handing next waiters stack client pc queue) :
    pc.leaves = some client := by
  cases handing <;> rfl

end Handing

namespace Mutex

variable {T O : Type}

structure Leaving (s : Mutex T O) (t : T) (stack queue : List O) (client : Client O) : Prop where
  pushed : ∃ top, s.word = .locked top ∧ Linked s.next top stack
  handing : Handing s.next s.waiters stack client (s.pc t) queue
  owners : s.owners = []
  others : ∀ u, u ≠ t → (s.pc u).leaves = none

/-- `stack` are those who have joined since `m_state` was exchanged, the last one first, and `queue`
those who have before. -/
inductive Turn (s : Mutex T O) : List O → List O → Option (Client O) → Prop where
  | free (word : s.word = .notLocked) (empty : s.waiters = none) (owners : s.owners = [])
      (outside : ∀ t, (s.pc t).leaves = none) : Turn s [] [] none
  | held {stack queue : List O} {client : Client O}
      (pushed : ∃ top, s.word = .locked top ∧ Linked s.next top stack)
      (queued : Linked s.next s.waiters queue) (owners : s.owners = [client])
      (outside : ∀ t, (s.pc t).leaves = none) : Turn s stack queue (some client)
  | leaving {t : T} {stack queue : List O} {client : Client O}
      (leaving : Leaving s t stack queue client) : Turn s stack queue (some client)

structure Ops (s : Mutex T O) (waiting : List O) : Prop where
  nodup : waiting.Nodup
  live : ∀ op ∈ waiting, s.live op = true
  joining : ∀ t op, (s.pc t).joins = some op → s.live op = true ∧ op ∉ waiting
  apart : ∀ t u op, (s.pc t).joins = some op → (s.pc u).joins = some op → t = u
  linked : ∀ t op oldState, s.pc t = .linked op oldState → s.next op = oldState
  kept : ∀ op, s.live op = true → op ∈ waiting ∨ ∃ t, (s.pc t).joins = some op
  sound : ∀ t, s.pc t ≠ .aborted

def waiting (stack queue : List O) : List O := queue ++ stack.reverse

/-- `line` is that of the clients, with the one that holds the mutex or gives it back in front. -/
structure Lined (s : Mutex T O) (stack queue : List O) (client : Option (Client O))
    (line : List (Client O)) : Prop where
  turn : Turn s stack queue client
  ops : Ops s (waiting stack queue)
  line : line = client.toList ++ (waiting stack queue).map some
  served : s.asked = s.granted ++ (waiting stack queue).map some

variable {s t : Mutex T O} {u v : T} {pc : Pc O} {op : O} {stack queue waiting : List O}
  {client : Option (Client O)} {holder : Client O} {next : Option O}

/-! ## The operations -/

theorem Ops.of_same (ops : Ops s waiting) (pc : t.pc = s.pc) (live : t.live = s.live)
    (next : t.next = s.next) : Ops t waiting := by
  obtain ⟨nodup, lives, joining, apart, linked, kept, sound⟩ := ops
  rw [← pc] at joining apart linked kept sound
  rw [← live] at lives joining kept
  rw [← next] at linked
  exact ⟨nodup, lives, joining, apart, linked, kept, sound⟩

section Changes
variable [DecidableEq T]

theorem Ops.setPc (ops : Ops s waiting) (joins : pc.joins = (s.pc u).joins)
    (linked : ∀ op oldState, pc = .linked op oldState → s.next op = oldState)
    (sound : pc ≠ .aborted) : Ops (s.setPc u pc) waiting := by
  obtain ⟨nodup, lives, joining, apart, links, kept, sounds⟩ := ops
  refine ⟨nodup, lives, by grind, by grind, by grind, fun op live => ?_, by grind⟩
  exact (kept op live).imp id fun ⟨v, place⟩ => ⟨v, by grind⟩

theorem Ops.join (ops : Ops s waiting) (joins : (s.pc u).joins = some op) :
    Ops (s.setPc u .outside) (waiting ++ [op]) := by
  obtain ⟨nodup, lives, joining, apart, links, kept, sounds⟩ := ops
  refine ⟨by grind, by grind, by grind, by grind, by grind, fun other live => ?_,
    by grind⟩
  by_cases same : other = op
  · exact .inl (by grind)
  · rcases kept other live with member | ⟨v, place⟩
    · exact .inl (by grind)
    · exact .inr ⟨v, by grind⟩

variable [DecidableEq O]

theorem Ops.pass (ops : Ops s waiting) (joins : (s.pc u).joins = some op) :
    Ops ((s.setLive op false).setPc u .outside) waiting := by
  obtain ⟨nodup, lives, joining, apart, links, kept, sounds⟩ := ops
  refine ⟨nodup, by grind, by grind, by grind, by grind, fun other live => ?_, by grind⟩
  rcases kept other (by grind) with member | ⟨v, place⟩
  · exact .inl member
  · exact .inr ⟨v, by grind⟩

theorem Ops.serve (ops : Ops s (op :: waiting)) (joins : (s.pc u).joins = none) :
    Ops ((s.setLive op false).setPc u .outside) waiting := by
  obtain ⟨nodup, lives, joining, apart, links, kept, sounds⟩ := ops
  refine ⟨by grind, by grind, by grind, by grind, by grind, fun other live => ?_,
    by grind⟩
  rcases kept other (by grind) with member | ⟨v, place⟩
  · exact .inl (by grind)
  · exact .inr ⟨v, by grind⟩

theorem Ops.start (ops : Ops s waiting) (fresh : s.live op = false)
    (joins : (s.pc u).joins = none) (word : Word O) :
    Ops ((s.setLive op true).setPc u (.joining op word)) waiting := by
  obtain ⟨nodup, lives, joining, apart, links, kept, sounds⟩ := ops
  refine ⟨nodup, by grind, by grind, by grind, by grind, fun other live => ?_,
    by grind⟩
  by_cases same : other = op
  · exact .inr ⟨u, by grind⟩
  · rcases kept other (by grind) with member | ⟨v, place⟩
    · exact .inl member
    · exact .inr ⟨v, by grind⟩

omit [DecidableEq T] [DecidableEq O] in
theorem Ops.next_of_linked (ops : Ops s waiting) (place : s.pc u = .linked op next) :
    (s.pc u).joins = some op ∧ s.next op = next :=
  ⟨by rw [place]; rfl, ops.linked u op next place⟩

theorem Ops.link {word : Word O} (ops : Ops s waiting) (place : s.pc u = .joining op word)
    (oldState : Option O) : Ops ((s.setNext op oldState).setPc u (.linked op oldState)) waiting := by
  have links : ∀ v other next, s.pc v = .linked other next →
      (s.pc v).joins = some other ∧ s.next other = next := fun _ _ _ => ops.next_of_linked
  obtain ⟨nodup, lives, joining, apart, _, kept, sounds⟩ := ops
  refine ⟨nodup, lives, by grind, by grind, by grind,
    fun other live => ?_, by grind⟩
  exact (kept other live).imp id fun ⟨v, joins⟩ => ⟨v, by grind⟩

omit [DecidableEq T] in
theorem Ops.setNext (ops : Ops s waiting) (outside : ∀ v, (s.pc v).joins ≠ some op)
    (next : Option O) : Ops (s.setNext op next) waiting := by
  have links : ∀ v other next, s.pc v = .linked other next →
      (s.pc v).joins = some other ∧ s.next other = next := fun _ _ _ => ops.next_of_linked
  obtain ⟨nodup, lives, joining, apart, _, kept, sounds⟩ := ops
  exact ⟨nodup, lives, joining, apart, by grind, kept, sounds⟩

end Changes

/-! ## The lists -/

theorem mem_waiting : op ∈ Mutex.waiting stack queue ↔ op ∈ queue ∨ op ∈ stack := by
  simp [Mutex.waiting]

theorem Leaving.of_same (leaving : Leaving s u stack queue holder) (word : t.word = s.word)
    (waiters : t.waiters = s.waiters) (pc : t.pc = s.pc) (owners : t.owners = s.owners)
    (next : ∀ op ∈ Mutex.waiting stack queue, t.next op = s.next op) :
    Leaving t u stack queue holder := by
  obtain ⟨⟨top, locked, pushed⟩, handing, none, others⟩ := leaving
  refine ⟨⟨top, word.trans locked, ?_⟩, ?_, owners.trans none, pc ▸ others⟩
  · exact pushed.congr fun op member => next op (mem_waiting.mpr (.inr member))
  · rw [waiters, pc]
    exact handing.congr fun op member => next op (mem_waiting.mpr (.inl member))

theorem Turn.of_same (turn : Turn s stack queue client) (word : t.word = s.word)
    (waiters : t.waiters = s.waiters) (pc : t.pc = s.pc) (owners : t.owners = s.owners)
    (next : ∀ op ∈ Mutex.waiting stack queue, t.next op = s.next op) :
    Turn t stack queue client := by
  cases turn with
  | free locked empty none outside =>
      exact .free (word.trans locked) (waiters.trans empty) (owners.trans none) (pc ▸ outside)
  | held pushed queued one outside =>
      obtain ⟨top, locked, pushed⟩ := pushed
      refine .held ⟨top, word.trans locked, ?_⟩ ?_ (owners.trans one) (pc ▸ outside)
      · exact pushed.congr fun op member => next op (mem_waiting.mpr (.inr member))
      · rw [waiters]
        exact queued.congr fun op member => next op (mem_waiting.mpr (.inl member))
  | leaving leaving => exact .leaving (leaving.of_same word waiters pc owners next)

theorem Turn.of_notLocked (turn : Turn s stack queue client) (free : s.word = .notLocked) :
    stack = [] ∧ queue = [] ∧ client = none ∧ s.waiters = none ∧ s.owners = [] ∧
      ∀ t, (s.pc t).leaves = none := by
  cases turn with
  | free _ empty owners outside => exact ⟨rfl, rfl, rfl, empty, owners, outside⟩
  | held pushed =>
      obtain ⟨top, locked, _⟩ := pushed
      cases free.symm.trans locked
  | leaving leaving =>
      obtain ⟨top, locked, _⟩ := leaving.pushed
      cases free.symm.trans locked

theorem Turn.of_mem_owners (turn : Turn s stack queue client) (owner : holder ∈ s.owners) :
    client = some holder ∧ (∃ top, s.word = .locked top ∧ Linked s.next top stack) ∧
      Linked s.next s.waiters queue ∧ s.owners = [holder] ∧ ∀ t, (s.pc t).leaves = none := by
  cases turn with
  | free _ _ owners _ =>
      rw [owners] at owner
      cases owner
  | held pushed queued owners outside =>
      rw [owners] at owner
      cases List.mem_singleton.mp owner
      exact ⟨rfl, pushed, queued, owners, outside⟩
  | leaving leaving =>
      rw [leaving.owners] at owner
      cases owner

theorem Turn.of_leaves (turn : Turn s stack queue client)
    (leaves : (s.pc u).leaves = some holder) :
    client = some holder ∧ Leaving s u stack queue holder := by
  cases turn with
  | free _ _ _ outside => cases leaves.symm.trans (outside u)
  | held _ _ _ outside => cases leaves.symm.trans (outside u)
  | @leaving v _ _ _ leaving =>
      have same : u = v := by
        by_contra other
        cases leaves.symm.trans (leaving.others u other)
      subst same
      cases leaves.symm.trans leaving.handing.leaves
      exact ⟨rfl, leaving⟩

theorem Turn.push (turn : Turn s stack queue client) (word : s.word = .locked (s.next op)) :
    Turn { s with word := .locked (some op) } (op :: stack) queue client := by
  cases turn with
  | free free => cases free.symm.trans word
  | held pushed queued owners outside =>
      obtain ⟨top, locked, pushed⟩ := pushed
      cases word.symm.trans locked
      exact .held ⟨some op, rfl, rfl, pushed⟩ queued owners outside
  | leaving leaving =>
      obtain ⟨⟨top, locked, pushed⟩, handing, owners, others⟩ := leaving
      cases word.symm.trans locked
      exact .leaving ⟨⟨some op, rfl, rfl, pushed⟩, handing.push op, owners, others⟩

section Changes
variable [DecidableEq T]

theorem leaving_setPc (pushed : ∃ top, s.word = .locked top ∧ Linked s.next top stack)
    (handing : Handing s.next s.waiters stack holder pc queue) (owners : s.owners = [])
    (others : ∀ v, v ≠ u → (s.pc v).leaves = none) :
    Leaving (s.setPc u pc) u stack queue holder := by
  refine ⟨pushed, ?_, owners, fun v other => ?_⟩
  · have here : (s.setPc u pc).pc u = pc := by grind
    rw [here]
    exact handing
  · have away : (s.setPc u pc).pc v = s.pc v := by grind
    rw [away]
    exact others v other

theorem Turn.setPc (turn : Turn s stack queue client) (before : (s.pc u).leaves = none)
    (after : pc.leaves = none) : Turn (s.setPc u pc) stack queue client := by
  have stays : ∀ v, (s.pc v).leaves = none → ((s.setPc u pc).pc v).leaves = none := by grind
  cases turn with
  | free locked empty none outside =>
      exact .free locked empty none fun v => stays v (outside v)
  | held pushed queued one outside =>
      exact .held pushed queued one fun v => stays v (outside v)
  | @leaving v _ _ _ leaving =>
      obtain ⟨pushed, handing, none, others⟩ := leaving
      have apart : v ≠ u := by
        rintro rfl
        rw [handing.leaves] at before
        cases before
      have place : (s.setPc u pc).pc v = s.pc v := by grind
      refine .leaving (t := v) ⟨pushed, ?_, none, fun w other => stays w (others w other)⟩
      rw [place]
      exact handing

end Changes

/-! ## Steps -/

variable {line : List (Client O)}

def Serves (s : Mutex T O) (line : List (Client O)) : Prop :=
  ∃ stack queue client, Lined s stack queue client line

theorem Lined.keep {stack' queue' : List O} (lined : Lined s stack queue client line)
    (turn : Turn t stack' queue' client) (ops : Ops t (Mutex.waiting stack queue))
    (same : Mutex.waiting stack' queue' = Mutex.waiting stack queue)
    (asked : t.asked = s.asked) (granted : t.granted = s.granted) : Serves t line := by
  refine ⟨stack', queue', client, turn, same ▸ ops, ?_, ?_⟩
  · rw [same]
    exact lined.line
  · rw [same, asked, granted]
    exact lined.served

theorem Lined.take (lined : Lined s stack queue client line) (free : s.word = .notLocked)
    (word : t.word = .lockedNoWaiters) (waiters : t.waiters = s.waiters)
    (owners : t.owners = s.owners ++ [holder])
    (leaves : ∀ v, (s.pc v).leaves = none → (t.pc v).leaves = none)
    (ops : Ops t (Mutex.waiting stack queue)) (asked : t.asked = s.asked ++ [holder])
    (granted : t.granted = s.granted ++ [holder]) : line = [] ∧ Serves t [holder] := by
  obtain ⟨rfl, rfl, rfl, empty, none, outside⟩ := lined.turn.of_notLocked free
  have turn : Turn t [] [] (some holder) := by
    refine .held ⟨_, word, rfl⟩ ?_ (by rw [owners, none]; rfl) fun v => leaves v (outside v)
    rw [waiters, empty]
    rfl
  have served : s.asked = s.granted := by simpa [Mutex.waiting] using lined.served
  refine ⟨lined.line, [], [], some holder, turn, ops, rfl, ?_⟩
  rw [asked, granted, served]
  simp [Mutex.waiting]

section Steps
variable [DecidableEq T] [DecidableEq O]

def shows (s : Mutex T O) : Action T O → List (Line.Event (Client O))
  | .construct .. | .lockAsync .. | .unlock .. => []
  | .tryLock _ => if s.word = .notLocked then [.ask none] else []
  | .advance t spurious =>
      match s.pc t with
      | .joining op .notLocked =>
          if s.word = .notLocked ∧ spurious = false then [.ask (some op)] else []
      | .linked op oldState =>
          if s.word = .locked oldState ∧ spurious = false then [.ask (some op)] else []
      | .releasing _ => if s.word = .lockedNoWaiters then [.leave] else []
      | .resuming _ _ => [.leave]
      | _ => []

omit [DecidableEq T] in
theorem Lined.construct (lined : Lined s stack queue client line) (fresh : s.live op = false)
    (next : Option O) : Serves (s.setNext op next) line := by
  have absent : op ∉ Mutex.waiting stack queue := by
    intro member
    cases fresh.symm.trans (lined.ops.live op member)
  have apart : ∀ v, (s.pc v).joins ≠ some op := by
    intro v joins
    cases fresh.symm.trans (lined.ops.joining v op joins).1
  refine lined.keep (lined.turn.of_same rfl rfl rfl rfl fun other member => ?_)
    (lined.ops.setNext apart next) rfl rfl rfl
  have away : other ≠ op := by
    rintro rfl
    exact absent member
  exact Function.update_of_ne away _ _

omit [DecidableEq T] in
theorem Lined.tryLock (lined : Lined s stack queue client line) :
    ∃ rest, exec Line.step line (if s.word = .notLocked then [.ask none] else []) = some rest ∧
      Serves s.tryLock rest := by
  unfold Mutex.tryLock
  cases word : s.word with
  | locked top => exact ⟨line, rfl, stack, queue, client, lined⟩
  | notLocked =>
      obtain ⟨rfl, serves⟩ : line = [] ∧
          Serves (({ s with word := .lockedNoWaiters }.ask none).grant none) [none] :=
        lined.take word rfl rfl rfl (fun _ => id) (lined.ops.of_same rfl rfl rfl) rfl rfl
      exact ⟨[none], rfl, serves⟩

theorem Lined.lockAsync (lined : Lined s stack queue client line) (outside : s.pc u = .outside)
    (fresh : s.live op = false) :
    Serves ((s.setLive op true).setPc u (.joining op s.word)) line := by
  have turn : Turn (s.setLive op true) stack queue client :=
    lined.turn.of_same rfl rfl rfl rfl fun _ _ => rfl
  refine lined.keep (turn.setPc ?_ rfl) (lined.ops.start fresh ?_ s.word) rfl rfl rfl
  · show (s.pc u).leaves = none
    rw [outside]
    rfl
  · rw [outside]
    rfl

theorem Lined.unlock (lined : Lined s stack queue client line) (outside : s.pc u = .outside)
    (owner : holder ∈ s.owners) :
    Serves (({ s with owners := s.owners.erase holder } : Mutex T O).setPc u
      (if s.word = Word.notLocked then .aborted else .unlocking holder)) line := by
  obtain ⟨rfl, pushed, queued, owners, others⟩ := lined.turn.of_mem_owners owner
  obtain ⟨top, word, linked⟩ := pushed
  rw [if_neg (by rw [word]; exact fun eq => nomatch eq)]
  have begun : Leaving (({ s with owners := s.owners.erase holder } : Mutex T O).setPc u
      (.unlocking holder)) u stack queue holder := by
    refine leaving_setPc ⟨top, word, linked⟩ (.unlocking queued) ?_ fun v _ => others v
    show s.owners.erase holder = []
    rw [owners]
    simp
  refine lined.keep (.leaving begun) ?_ rfl rfl rfl
  · have ops : Ops ({ s with owners := s.owners.erase holder } : Mutex T O)
        (Mutex.waiting stack queue) := lined.ops.of_same rfl rfl rfl
    refine ops.setPc ?_ (fun _ _ place => nomatch place) (fun place => nomatch place)
    show none = (s.pc u).joins
    rw [outside]
    rfl

omit [DecidableEq O] in
theorem Lined.retry (lined : Lined s stack queue client line) (joins : (s.pc u).joins = some op)
    (word : Word O) : Serves (s.setPc u (.joining op word)) line := by
  have leaves : (s.pc u).leaves = none := by
    cases place : s.pc u <;> rw [place] at joins <;> first | rfl | cases joins
  exact lined.keep (lined.turn.setPc leaves rfl) (lined.ops.setPc joins.symm (fun _ _ => nofun) nofun)
    rfl rfl rfl

theorem Lined.acquire (lined : Lined s stack queue client line)
    (place : s.pc u = .joining op .notLocked) (spurious : Bool) :
    ∃ rest, exec Line.step line
        (if s.word = .notLocked ∧ spurious = false then [.ask (some op)] else []) = some rest ∧
      Serves (s.acquire u op spurious) rest := by
  have joins : (s.pc u).joins = some op := by
    rw [place]
    rfl
  unfold Mutex.acquire
  split
  · next free =>
      obtain ⟨rfl, serves⟩ : line = [] ∧ Serves
          (((({ s with word := .lockedNoWaiters }.ask (some op)).grant (some op)).setLive op
            false).setPc u .outside) [some op] := by
        refine lined.take free.1 rfl rfl rfl (fun v leaves => ?_) ?_ rfl rfl
        · by_cases here : v = u
          · subst here
            simp [Mutex.setPc, Pc.leaves]
          · simpa [Mutex.setPc, here, Mutex.setLive, Mutex.grant, Mutex.ask] using leaves
        · exact Ops.pass (lined.ops.of_same rfl rfl rfl) joins
      exact ⟨[some op], rfl, serves⟩
  · exact ⟨line, rfl, lined.retry joins s.word⟩

theorem Lined.link (lined : Lined s stack queue client line) {word : Word O}
    (place : s.pc u = .joining op word) (waiter : Option O) :
    Serves ((s.setNext op waiter).setPc u (.linked op waiter)) line := by
  have joins : (s.pc u).joins = some op := by
    rw [place]
    rfl
  have absent := (lined.ops.joining u op joins).2
  have turn : Turn (s.setNext op waiter) stack queue client := by
    refine lined.turn.of_same rfl rfl rfl rfl fun other member => ?_
    have away : other ≠ op := by
      rintro rfl
      exact absent member
    exact Function.update_of_ne away _ _
  refine lined.keep (turn.setPc ?_ rfl) (lined.ops.link place waiter) rfl rfl rfl
  show (s.pc u).leaves = none
  rw [place]
  rfl

theorem Lined.push (lined : Lined s stack queue client line) (place : s.pc u = .linked op next)
    (spurious : Bool) :
    ∃ rest, exec Line.step line
        (if s.word = .locked next ∧ spurious = false then [.ask (some op)] else []) = some rest ∧
      Serves (s.push u op next spurious) rest := by
  obtain ⟨joins, linked⟩ := lined.ops.next_of_linked place
  unfold Mutex.push
  split
  · next held =>
      have pushed : Turn { s with word := .locked (some op) } (op :: stack) queue client :=
        lined.turn.push (linked ▸ held.1)
      have leaves : (s.pc u).leaves = none := by
        rw [place]
        rfl
      have joined : Mutex.waiting (op :: stack) queue = Mutex.waiting stack queue ++ [op] := by
        simp [Mutex.waiting]
      have turn : Turn (({ s with word := .locked (some op) }.ask (some op)).setPc u .outside)
          (op :: stack) queue client :=
        Turn.setPc (pushed.of_same rfl rfl rfl rfl fun _ _ => rfl) leaves rfl
      refine ⟨line ++ [some op], rfl, op :: stack, queue, client, turn, ?_, ?_, ?_⟩
      · rw [joined]
        exact Ops.join (lined.ops.of_same rfl rfl rfl) joins
      · rw [joined, lined.line]
        simp
      · show s.asked ++ [some op] = _
        rw [joined, lined.served]
        simp [Mutex.ask, Mutex.setPc]
  · exact ⟨line, rfl, lined.retry joins s.word⟩

/-! ### `unlock` -/

omit [DecidableEq T] [DecidableEq O] in
theorem Lined.leaves (lined : Lined s stack queue client line)
    (leaves : (s.pc u).leaves = some holder) :
    Leaving s u stack queue holder ∧
      line = holder :: (Mutex.waiting stack queue).map some ∧ (s.pc u).joins = none := by
  obtain ⟨rfl, leaving⟩ := lined.turn.of_leaves leaves
  refine ⟨leaving, lined.line, ?_⟩
  cases place : s.pc u <;> rw [place] at leaves <;> first | rfl | cases leaves

omit [DecidableEq O] in
theorem Lined.proceed (lined : Lined s stack queue client line)
    (leaves : (s.pc u).leaves = some holder)
    (handing : Handing s.next s.waiters stack holder pc queue) : Serves (s.setPc u pc) line := by
  obtain ⟨rfl, leaving⟩ := lined.turn.of_leaves leaves
  have joins := (lined.leaves leaves).2.2
  have quiet : pc.joins = none ∧ pc ≠ .aborted := by
    cases handing <;> exact ⟨rfl, fun place => nomatch place⟩
  have begun := leaving_setPc (u := u) leaving.pushed handing leaving.owners leaving.others
  refine lined.keep (.leaving begun) (lined.ops.setPc ?_ ?_ quiet.2) rfl rfl rfl
  · rw [quiet.1, joins]
  · rintro op oldState rfl
    cases quiet.1

theorem Lined.unlocking (lined : Lined s stack queue client line)
    (place : s.pc u = .unlocking holder) (spurious : Bool) :
    Serves (s.advance u spurious (.unlocking holder)) line := by
  -- `unlock` goes by whether `m_waiters` is null.
  have leaves : (s.pc u).leaves = some holder := by
    rw [place]
    rfl
  have handing := (lined.leaves leaves).1.handing
  rw [place] at handing
  cases handing with
  | unlocking queued =>
      cases waiters : s.waiters with
      | none =>
          rw [waiters] at queued
          cases Linked.none_iff.mp queued
          simp only [Mutex.advance, waiters]
          exact lined.proceed leaves (.releasing waiters)
      | some waitersHead =>
          rw [waiters] at queued
          simp only [Mutex.advance, waiters]
          exact lined.proceed leaves (.popping queued)

theorem Lined.release (lined : Lined s stack queue client line)
    (place : s.pc u = .releasing holder) (spurious : Bool) :
    ∃ rest, exec Line.step line (if s.word = .lockedNoWaiters then [.leave] else []) = some rest ∧
      Serves (s.advance u spurious (.releasing holder)) rest := by
  have leaves : (s.pc u).leaves = some holder := by
    rw [place]
    rfl
  obtain ⟨leaving, front, joins⟩ := lined.leaves leaves
  have handing := leaving.handing
  rw [place] at handing
  cases handing with
  | releasing empty =>
      obtain ⟨top, word, pushed⟩ := leaving.pushed
      simp only [Mutex.advance]
      split
      · next alone =>
          cases word.symm.trans alone
          cases Linked.none_iff.mp pushed
          subst front
          refine ⟨[], rfl, [], [], none, ?_, ?_, rfl, ?_⟩
          · refine .free rfl empty leaving.owners fun v => ?_
            by_cases here : v = u
            · subst here
              simp [Mutex.setPc, Pc.leaves]
            · simpa [Mutex.setPc, here] using leaving.others v here
          · have ops : Ops ({ s with word := .notLocked } : Mutex T O) (Mutex.waiting [] []) :=
              lined.ops.of_same rfl rfl rfl
            exact ops.setPc joins.symm (fun _ _ eq => nomatch eq) (fun eq => nomatch eq)
          · exact lined.served
      · next more =>
          refine ⟨line, rfl, lined.proceed leaves (.exchanging empty ?_)⟩
          rintro rfl
          cases pushed
          exact more word

theorem Lined.exchange (lined : Lined s stack queue client line)
    (place : s.pc u = .exchanging holder) (spurious : Bool) :
    Serves (s.advance u spurious (.exchanging holder)) line := by
  have leaves : (s.pc u).leaves = some holder := by
    rw [place]
    rfl
  obtain ⟨leaving, front, joins⟩ := lined.leaves leaves
  have handing := leaving.handing
  rw [place] at handing
  cases handing with
  | exchanging empty pushed =>
      obtain ⟨top, word, linked⟩ := leaving.pushed
      cases top with
      | none => exact absurd (Linked.none_iff.mp linked) pushed
      | some op =>
          simp only [Mutex.advance, word]
          have ops : Ops ({ s with word := .lockedNoWaiters } : Mutex T O)
              (Mutex.waiting stack []) := lined.ops.of_same rfl rfl rfl
          have same : Mutex.waiting [] (stack.reverse ++ []) = Mutex.waiting stack [] := by
            simp [Mutex.waiting]
          have begun : Leaving (({ s with word := .lockedNoWaiters } : Mutex T O).setPc u
              (.reversing holder op none)) u [] (stack.reverse ++ []) holder :=
            leaving_setPc ⟨none, rfl, rfl⟩ (.reversing empty linked rfl) leaving.owners leaving.others
          obtain ⟨rfl, _⟩ := lined.turn.of_leaves leaves
          exact lined.keep (.leaving begun)
            (ops.setPc joins.symm (fun _ _ eq => nomatch eq) (fun eq => nomatch eq)) same rfl rfl

theorem Lined.reverse {waitersHead : Option O} (lined : Lined s stack queue client line)
    (place : s.pc u = .reversing holder op waitersHead) (spurious : Bool) :
    Serves (s.advance u spurious (.reversing holder op waitersHead)) line := by
  have leaves : (s.pc u).leaves = some holder := by
    rw [place]
    rfl
  have handing := (lined.leaves leaves).1.handing
  rw [place] at handing
  cases handing with
  | reversing empty left turned =>
      obtain ⟨rest, rfl, linked⟩ := left.head
      refine lined.proceed leaves ?_
      rw [List.reverse_cons, List.append_assoc]
      exact .relinking empty linked turned

theorem Lined.relink {temp waitersHead : Option O} (lined : Lined s stack queue client line)
    (place : s.pc u = .relinking holder op temp waitersHead) (spurious : Bool) :
    Serves (s.advance u spurious (.relinking holder op temp waitersHead)) line := by
  -- The operation at the front of what is left is put in front of what is done.
  have leaves : (s.pc u).leaves = some holder := by
    rw [place]
    rfl
  obtain ⟨⟨⟨top, word, pushed⟩, handing, owners, others⟩, front, joins⟩ := lined.leaves leaves
  rw [place] at handing
  cases handing with
  | @relinking _ _ _ rest done empty left turned =>
      have nodup := lined.ops.nodup
      have absent : op ∉ rest ∧ op ∉ done ∧ op ∉ stack := by
        simp only [Mutex.waiting, List.append_assoc, List.cons_append, List.nodup_append,
          List.nodup_cons, List.mem_append, List.mem_reverse, List.mem_cons] at nodup
        grind
      have apart : ∀ v, (s.pc v).joins ≠ some op := by
        intro v joins
        exact (lined.ops.joining v op joins).2 (by simp [Mutex.waiting])
      have ops := lined.ops.setNext apart waitersHead
      have relinked : Linked (s.setNext op waitersHead).next (some op) (op :: done) :=
        turned.push absent.2.1
      obtain ⟨rfl, _⟩ := lined.turn.of_leaves leaves
      have stays : ∀ pc, pc.joins = none → pc ≠ .aborted → Handing (s.setNext op waitersHead).next
          s.waiters stack holder pc (rest.reverse ++ op :: done) →
          Serves ((s.setNext op waitersHead).setPc u pc) line := by
        intro pc quiet sound handing
        have begun : Leaving ((s.setNext op waitersHead).setPc u pc) u stack _ holder :=
          leaving_setPc ⟨top, word, pushed.update absent.2.2⟩ handing owners others
        refine lined.keep (.leaving begun) (ops.setPc (quiet.trans joins.symm) ?_ sound) rfl rfl rfl
        rintro other oldState rfl
        cases quiet
      simp only [Mutex.advance]
      cases temp with
      | none =>
          cases Linked.none_iff.mp left
          exact stays _ rfl (fun eq => nomatch eq) (.popping relinked)
      | some following =>
          exact stays _ rfl (fun eq => nomatch eq)
            (.reversing empty (left.update absent.1) relinked)

theorem Lined.pop (lined : Lined s stack queue client line) (place : s.pc u = .popping holder op)
    (spurious : Bool) : Serves (s.advance u spurious (.popping holder op)) line := by
  have leaves : (s.pc u).leaves = some holder := by
    rw [place]
    rfl
  obtain ⟨⟨pushed, handing, owners, others⟩, front, joins⟩ := lined.leaves leaves
  rw [place] at handing
  cases handing with
  | popping queued =>
      obtain ⟨rest, rfl, linked⟩ := queued.head
      obtain ⟨rfl, _⟩ := lined.turn.of_leaves leaves
      have begun : Leaving (({ s with waiters := s.next op } : Mutex T O).setPc u
          (.resuming holder op)) u stack (op :: rest) holder :=
        leaving_setPc pushed (.resuming linked) owners others
      have ops : Ops ({ s with waiters := s.next op } : Mutex T O)
          (Mutex.waiting stack (op :: rest)) := lined.ops.of_same rfl rfl rfl
      exact lined.keep (.leaving begun)
        (ops.setPc joins.symm (fun _ _ eq => nomatch eq) (fun eq => nomatch eq)) rfl rfl rfl

theorem Lined.resume (lined : Lined s stack queue client line)
    (place : s.pc u = .resuming holder op) (spurious : Bool) :
    ∃ rest, exec Line.step line [.leave] = some rest ∧
      Serves (s.advance u spurious (.resuming holder op)) rest := by
  have leaves : (s.pc u).leaves = some holder := by
    rw [place]
    rfl
  obtain ⟨⟨pushed, handing, owners, others⟩, front, joins⟩ := lined.leaves leaves
  rw [place] at handing
  cases handing with
  | @resuming _ rest queued =>
      subst front
      have first : Mutex.waiting stack (op :: rest) = op :: Mutex.waiting stack rest := rfl
      have ops : Ops (s.grant (some op)) (op :: Mutex.waiting stack rest) :=
        lined.ops.of_same rfl rfl rfl
      refine ⟨_, rfl, stack, rest, some (some op), ?_, ops.serve joins, rfl, ?_⟩
      · refine .held pushed queued ?_ fun v => ?_
        · show s.owners ++ [some op] = _
          rw [owners]
          rfl
        · by_cases here : v = u
          · subst here
            simp [Mutex.advance, Mutex.setPc, Pc.leaves]
          · have away : (s.advance u spurious (.resuming holder op)).pc v = s.pc v := by
              simp [Mutex.advance, Mutex.setPc, Mutex.setLive, Mutex.grant, here]
            rw [away]
            exact others v here
      · show s.asked = s.granted ++ [some op] ++ _
        rw [lined.served, first]
        simp

theorem serves_step : Simulates (step : Mutex T O → Action T O → _) Line.step shows Serves := by
  rintro s line action t ⟨stack, queue, client, lined⟩ taken
  cases action with
  | construct op next =>
      obtain ⟨fresh, rfl⟩ := provided_eq_some.mp taken
      exact ⟨line, rfl, lined.construct fresh next⟩
  | tryLock u =>
      obtain ⟨_, rfl⟩ := provided_eq_some.mp taken
      exact lined.tryLock
  | lockAsync u op =>
      obtain ⟨⟨outside, fresh⟩, rfl⟩ := provided_eq_some.mp taken
      exact ⟨line, rfl, lined.lockAsync outside fresh⟩
  | unlock u holder =>
      obtain ⟨⟨outside, owner⟩, rfl⟩ := provided_eq_some.mp taken
      exact ⟨line, rfl, lined.unlock outside owner⟩
  | advance u spurious =>
      obtain ⟨⟨busy, sound⟩, rfl⟩ := provided_eq_some.mp taken
      simp only [shows]
      cases place : s.pc u with
      | outside => exact absurd place busy
      | aborted => exact absurd place sound
      | joining op oldState =>
          cases oldState with
          | notLocked => exact lined.acquire place spurious
          | locked waiter => exact ⟨line, rfl, lined.link place waiter⟩
      | linked op oldState => exact lined.push place spurious
      | unlocking holder =>
          exact ⟨line, rfl, lined.unlocking place spurious⟩
      | releasing holder => exact lined.release place spurious
      | exchanging holder => exact ⟨line, rfl, lined.exchange place spurious⟩
      | reversing holder op waitersHead => exact ⟨line, rfl, lined.reverse place spurious⟩
      | relinking holder op temp waitersHead => exact ⟨line, rfl, lined.relink place spurious⟩
      | popping holder op => exact ⟨line, rfl, lined.pop place spurious⟩
      | resuming holder op => exact lined.resume place spurious

end Steps

end Mutex

end Ice.Async
