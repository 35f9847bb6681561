import Ice.Http.ConnectionRun

namespace Ice.Http.Connection
open Transition Net Async

variable {T : Type} {c d e : Connection T} {h : State} {os : Os} {response : List Byte} {t u : T}
  {i : Nat}

structure Settles (c d : Connection T) : Prop where
  received : d.received = c.received
  handle : d.handle = c.handle ∨ d.handle = .finished

theorem Settles.refl (c : Connection T) : Settles c c := ⟨rfl, .inl rfl⟩

theorem Settles.trans (first : Settles c d) (second : Settles d e) : Settles c e := by
  refine ⟨second.received.trans first.received, ?_⟩
  rcases second.handle with same | ended
  · rw [same]
    exact first.handle
  · exact .inr ended

theorem grant_settles (os : Os) (response : List Byte) (c : Connection T)
    (client : Async.Client Client) :
    Settles c (grant os response c client) ∧ (grant os response c client).mutex = c.mutex := by
  cases client with
  | none => exact ⟨.refl c, rfl⟩
  | some client =>
      cases client with
      | responder i => exact ⟨⟨rfl, .inl rfl⟩, rfl⟩
      | handle => exact ⟨⟨rfl, .inr rfl⟩, rfl⟩

theorem grants_settle (os : Os) (response : List Byte) (clients : List (Async.Client Client))
    (c : Connection T) :
    Settles c (clients.foldl (grant os response) c) ∧
      (clients.foldl (grant os response) c).mutex = c.mutex := by
  induction clients generalizing c with
  | nil => exact ⟨.refl c, rfl⟩
  | cons client clients ih =>
      obtain ⟨first, mutex⟩ := grant_settles os response c client
      obtain ⟨rest, same⟩ := ih (grant os response c client)
      exact ⟨first.trans rest, same.trans mutex⟩

variable [DecidableEq T]

structure Later (os : Os) (response : List Byte) (c d : Connection T) : Prop extends
    Settles c d where
  reached : Reachable (step os response) c d

theorem Later.trans (first : Later os response c d) (second : Later os response d e) :
    Later os response c e :=
  ⟨first.toSettles.trans second.toSettles, first.reached.trans second.reached⟩

theorem later_of_runs (os : Os) (response : List Byte) {mutex : Mutex T Client}
    (runs : Mutex.Runs c.mutex u mutex) :
    ∃ d, Later os response c d ∧ d.mutex = mutex := by
  obtain ⟨k, run⟩ := runs
  induction k generalizing c with
  | zero =>
      cases run
      exact ⟨c, ⟨.refl c, .refl⟩, rfl⟩
  | succ k ih =>
      rw [List.replicate_succ] at run
      obtain ⟨middle, taken, rest⟩ := exec_cons.mp run
      obtain ⟨settles, same⟩ := grants_settle os response
        (middle.granted.drop c.mutex.granted.length) { c with mutex := middle }
      have action : step os response c (.advance u false) = some (c.settle os response middle) := by
        rw [step, taken]
        rfl
      obtain ⟨d, later, last⟩ := ih (c := c.settle os response middle) (by
        rw [settle, same]
        exact rest)
      exact ⟨d, .trans ⟨⟨settles.received, settles.handle⟩, .single trivial action⟩ later, last⟩

/-- The first of the line has left it, and no thread is in the code of the mutex. -/
def Left (c d : Connection T) (line : List (Async.Client Client)) (os : Os)
    (response : List Byte) : Prop :=
  Later os response c d ∧ Mutex.Serves d.mutex line ∧ Quiet d ∧ Held d

theorem Left.head {line : List (Async.Client Client)} {a : Action T}
    (left : Left d e line os response) (action : step os response c a = some d)
    (settles : Settles c d) : Left c e line os response :=
  ⟨.trans ⟨settles, .single trivial action⟩ left.1, left.2⟩

theorem leaving_left (os : Os) (response : List Byte) (c : Connection T)
    {line : List (Async.Client Client)}
    {holder : Async.Client Client}
    (serves : Mutex.Serves c.mutex line) (quiet : Quiet c)
    (leaves : (c.mutex.pc t).leaves = some holder) : ∃ d, Left c d line.tail os response := by
  obtain ⟨_, others⟩ := serves.leaving leaves
  obtain ⟨mutex, runs, outside, serves⟩ := serves.leaves_runs leaves
  obtain ⟨d, later, rfl⟩ := later_of_runs os response runs
  refine ⟨d, later, serves, fun v => ?_, fun v => ?_⟩ <;> by_cases same : v = t
  · rw [same, outside]
    rfl
  · rw [runs.others same]
    exact quiet v
  · rw [same, outside]
    rfl
  · rw [runs.others same]
    exact others v same

theorem sent_left (os : Os) (response : List Byte) (c : Connection T)
    {line : List (Async.Client Client)} (t : T)
    (serves : Mutex.Serves c.mutex (some (.responder i) :: line)) (quiet : Quiet c) (held : Held c)
    (sent : c.responder i = .sent) : ∃ d, Left c d line os response := by
  have outside := serves.outside (quiet t) (held t)
  have owners := serves.owners held
  obtain ⟨mutex, unlocks⟩ : ∃ mutex, c.mutex.step (.unlock t (some (.responder i))) = some mutex :=
    ⟨_, provided_eq_some.mpr ⟨⟨outside, by simp [owners]⟩, rfl⟩⟩
  have action : step os response c (.unlock t i) =
      some { c.setResponder i .finished with mutex } := by
    rw [step, sent]
    simp [unlocks]
  obtain ⟨serves, _, _, _, joins, leaves⟩ := serves.unlock unlocks
  obtain ⟨d, left⟩ := leaving_left os response
    { c.setResponder i .finished with mutex } serves (fun v => (joins v).trans (quiet v))
    ((leaves t).trans (if_pos rfl))
  exact ⟨d, left.head action ⟨rfl, .inl rfl⟩⟩

theorem sending_left {line : List (Async.Client Client)} {op : Sending} (t : T)
    (serves : Mutex.Serves c.mutex (some (.responder i) :: line)) (quiet : Quiet c) (held : Held c)
    (sending : c.responder i = .sending op) (more : 0 < op.buffer.size)
    (fits : op.size + op.buffer.size < 2 ^ 64) : ∃ d, Left c d line os response := by
  have attempt : Tcp.Send.awaitReady os op (.ok op.buffer.size) =
      (op.book op.buffer.size, some true) := by
    rw [Tcp.Send.awaitReady, Sending.awaitReady_written more]
    simp [Sending.book_eq (Nat.le_refl _) fits]
  have action : step os response c (.write i op.buffer.size) =
      some ({ c with wire := c.wire ++ (op.buffer.view response).take op.buffer.size }.setResponder
        i .sent) := by
    rw [step, sending]
    simp [more, attempt, send]
  obtain ⟨d, left⟩ := sent_left (i := i) os response
    ({ c with wire := c.wire ++ (op.buffer.view response).take op.buffer.size }.setResponder i
      .sent)
    t serves quiet held (Function.update_self ..)
  exact ⟨d, left.head action ⟨rfl, .inl rfl⟩⟩

theorem first_left (os : Os) (t : T) (serving : State.Serving response h)
    (follows : Follows c h) (fits : response.length < 2 ^ 32) (quiet : Quiet c)
    (started : h.started = c.started) {rest : List Client} (line : h.line = .responder i :: rest) :
    ∃ d, Left c d (rest.map some) os response := by
  have first : h.line.head? = some (.responder i) := by simp [line]
  have called := lt_started serving (by simp [line] : Client.responder i ∈ h.line)
  have serves := follows.serves
  rw [line] at serves
  have responds := follows.responders i
  generalize place : c.responder i = responder at responds
  cases responds with
  | absent new => omega
  | asking fresh new => omega
  | waiting waits => exact absurd waits (not_mem_tail serving first)
  | sending _ unsent held =>
      obtain ⟨⟨done, queued⟩, _⟩ := serving
      have more := queued.responding_iff.mp (responding_of_first first)
      have size := queued.size more
      have left : h.sending.buffer.size ≠ 0 := by
        rw [Ne, ← queued.sent more]
        simp [unsent]
      exact sending_left t serves quiet held place (Nat.pos_of_ne_zero left) (by omega)
  | sent _ _ held => exact sent_left os response c t serves quiet held place
  | leaving _ leaves => exact leaving_left os response c serves quiet leaves
  | finished _ left => exact absurd (by simp [line]) left

omit [DecidableEq T] in
theorem front_of_locking (serving : State.Serving response h) (locking : h.handle = .locking) :
    ∃ i rest, h.line = .responder i :: rest ∧ Client.handle ∈ rest := by
  obtain ⟨⟨done, queued⟩, _⟩ := serving
  have line := queued.line
  rw [State.asked, locking] at line
  cases waiting : List.range' done (h.started - done) with
  | nil =>
      have ended := queued.passed.mpr (by simp [line, waiting])
      cases locking.symm.trans ended
  | cons i rest => exact ⟨i, _, by rw [line, waiting]; rfl, by simp⟩

theorem Quiet.acquiring (quiet : Quiet c) (follows : Follows c h) (place : c.handle = .acquiring) :
    h.handle = .locking ∧ h.started = c.started := by
  have handles := follows.handle
  rw [place] at handles
  cases handles with
  | @joining t joins =>
      have joined := joins t
      rw [quiet t, if_pos rfl] at joined
      cases joined
  | acquiring _ handle started => exact ⟨handle, started⟩

theorem acquiring_ends (os : Os) (t : T) (nonempty : 0 < response.length)
    (fits : response.length < 2 ^ 32) (serving : State.Serving response h) (follows : Follows c h)
    (quiet : Quiet c) (place : c.handle = .acquiring) :
    ∃ d, Later os response c d ∧ d.handle = .finished := by
  generalize length : h.line.tail.length = n
  induction n generalizing c h with
  | zero =>
      obtain ⟨i, rest, line, last⟩ := front_of_locking serving (quiet.acquiring follows place).1
      rw [line, List.tail_cons] at length
      simp [List.length_eq_zero_iff.mp length] at last
  | succ n ih =>
      obtain ⟨locking, started⟩ := quiet.acquiring follows place
      obtain ⟨i, rest, line, _⟩ := front_of_locking serving locking
      obtain ⟨d, later, serves, quiet, _⟩ :=
        first_left os t serving follows fits quiet started line
      rcases later.handle with waits | ended
      · obtain ⟨k, _, serving, follows⟩ :=
          (follows_step nonempty fits).reaches ⟨serving, follows⟩ later.reached
        have shorter : k.line.tail.length = n := by
          have tails := follows.serves.granted.symm.trans serves.granted
          have same := congrArg List.length (List.append_cancel_left tails)
          simp only [List.length_tail, List.length_map] at same
          simp only [line, List.tail_cons] at length
          rw [List.length_tail]
          omega
        obtain ⟨e, last, ended⟩ := ih serving follows quiet (waits.trans place) shorter
        exact ⟨e, later.trans last, ended⟩
      · exact ⟨d, later, ended⟩

theorem joining_ends (os : Os) (t : T) (nonempty : 0 < response.length)
    (fits : response.length < 2 ^ 32) (serving : State.Serving response h) (follows : Follows c h)
    (place : c.handle = .acquiring) :
    ∃ d, Later os response c d ∧ d.handle = .finished := by
  have handles := follows.handle
  rw [place] at handles
  cases handles with
  | acquiring quiet => exact acquiring_ends os t nonempty fits serving follows quiet place
  | @joining u joins =>
      obtain ⟨mutex, runs, joined⟩ := Mutex.joins_runs ((joins u).trans (if_pos rfl))
      obtain ⟨d, later, rfl⟩ := later_of_runs os response runs
      have quiet : Quiet d := by
        intro v
        by_cases same : v = u
        · rw [same, joined]
        · rw [runs.others same, joins v, if_neg same]
      rcases later.handle with waits | ended
      · obtain ⟨k, _, serving, follows⟩ :=
          (follows_step nonempty fits).reaches ⟨serving, follows⟩ later.reached
        obtain ⟨e, last, ended⟩ :=
          acquiring_ends os t nonempty fits serving follows quiet (waits.trans place)
        exact ⟨e, later.trans last, ended⟩
      · exact ⟨d, later, ended⟩

theorem locking_ends (os : Os) (t : T) (nonempty : 0 < response.length)
    (fits : response.length < 2 ^ 32) (serving : State.Serving response h) (follows : Follows c h)
    (held : Held c) (place : c.handle = .locking) :
    ∃ d, Later os response c d ∧ d.handle = .finished := by
  have handles := follows.handle
  rw [place] at handles
  cases handles with
  | locking quiet handle =>
      have absent : some Client.handle ∉ h.line.map some := by
        obtain ⟨⟨done, queued⟩, _⟩ := id serving
        simp [queued.line, State.asked, handle]
      have outside := follows.serves.outside (quiet t) (held t)
      have dead := follows.serves.dead quiet absent
      obtain ⟨mutex, enters⟩ : ∃ mutex, enter c.mutex t .handle none = some mutex := by
        refine ⟨_, Option.bind_eq_some_iff.mpr ⟨_, provided_eq_some.mpr ⟨dead, rfl⟩,
          provided_eq_some.mpr ⟨⟨outside, dead⟩, rfl⟩⟩⟩
      have action : step os response c (.lock t none) =
          some { c with handle := .acquiring, mutex } := by
        rw [step, place]
        simp [enters]
      obtain ⟨k, _, serving, follows⟩ :=
        (follows_step nonempty fits).reaches ⟨serving, follows⟩ (.single trivial action)
      obtain ⟨d, later, ended⟩ := joining_ends os t nonempty fits serving follows rfl
      exact ⟨d, ⟨⟨later.received, .inr ended⟩, (Reaches.single trivial action).trans later.reached⟩,
        ended⟩

/-- Wherever the responders are when the stream has ended, `handle` can come to its end, without
another byte. -/
theorem connection_finishes (t : T) {next : Client → Option Client}
    (reached : Reachable (step os gResponse) ({ mutex := { next } } : Connection T) c)
    (ends : c.handle = .locking ∨ c.handle = .acquiring) :
    ∃ d, Reachable (step os gResponse) c d ∧ d.handle = .finished ∧ d.received = c.received := by
  obtain ⟨nonempty, fits⟩ := gResponse_bounds
  obtain ⟨h, _, serving, follows⟩ := reachable_follows nonempty fits reached
  rcases ends with place | place
  · by_cases held : Held c
    · obtain ⟨d, later, ended⟩ := locking_ends os t nonempty fits serving follows held place
      exact ⟨d, later.reached, ended, later.received⟩
    · obtain ⟨u, leaves⟩ := not_forall.mp held
      obtain ⟨holder, leaves⟩ := Option.ne_none_iff_exists'.mp leaves
      have handles := follows.handle
      rw [place] at handles
      cases handles with
      | locking quiet =>
          obtain ⟨d, later, _, _, held⟩ := leaving_left os gResponse c follows.serves quiet leaves
          rcases later.handle with waits | ended
          · obtain ⟨k, _, serving, follows⟩ :=
              (follows_step nonempty fits).reaches ⟨serving, follows⟩ later.reached
            obtain ⟨e, last, ended⟩ :=
              locking_ends os t nonempty fits serving follows held (waits.trans place)
            exact ⟨e, (later.trans last).reached, ended, (later.trans last).received⟩
          · exact ⟨d, later.reached, ended, later.received⟩
  · obtain ⟨d, later, ended⟩ := joining_ends os t nonempty fits serving follows place
    exact ⟨d, later.reached, ended, later.received⟩

theorem connection_finishes_two_threads : ∃ c d : Connection Bool,
    exec (step .linux gResponse) { mutex := { next := fun _ => none } } (twoThreads.take 8) =
        some c ∧
      Reachable (step .linux gResponse) c d ∧ d.handle = .finished ∧ d.received = c.received := by
  obtain ⟨c, run, locking⟩ : ∃ c, exec (step .linux gResponse)
      ({ mutex := { next := fun _ => none } } : Connection Bool) (twoThreads.take 8) = some c ∧
        c.handle = .locking := by
    refine Option.map_eq_some_iff.mp ?_
    decide +kernel
  obtain ⟨d, finishes⟩ := connection_finishes false (exec_reachable run) (.inl locking)
  exact ⟨c, d, run, finishes⟩

end Ice.Http.Connection
