import Ice.Async.MutexClient
import Ice.Http.Connection

namespace Ice.Http
open Transition Net Async

namespace Connection

variable {T : Type} {c d : Connection T} {h k : State} {os : Os} {response : List Byte} {t u v : T}
  {i : Nat}

def Joins [DecidableEq T] (c : Connection T) (t : T) (client : Client) : Prop :=
  ∀ v, (c.mutex.pc v).joins = if v = t then some client else none

def Quiet (c : Connection T) : Prop := ∀ v, (c.mutex.pc v).joins = none

def Held (c : Connection T) : Prop := ∀ v, (c.mutex.pc v).leaves = none

/-- Where `handle` is in both. A byte that asks for a response is taken, and the end of the stream
received, when the lock operation joins the line. -/
inductive Handles [DecidableEq T] (c : Connection T) (h : State) : Place T → Prop where
  | receiving (quiet : Quiet c) (handle : h.handle = .receiving) (newline : h.newline = c.newline)
      (started : h.started = c.started) : Handles c h .receiving
  | scanning {rest : List Byte} (quiet : Quiet c) (handle : h.handle = .scanning rest)
      (newline : h.newline = c.newline) (started : h.started = c.started) :
      Handles c h (.scanning rest)
  | calling {x : Byte} {rest : List Byte} (quiet : Quiet c)
      (handle : h.handle = .scanning (x :: rest)) (newline : h.newline = c.newline)
      (request : (scanByte c.newline x).2 = true) (started : h.started = c.started) :
      Handles c h (.calling rest)
  | asking {t : T} {x : Byte} {rest : List Byte} (joins : Joins c t (.responder h.started))
      (handle : h.handle = .scanning (x :: rest)) (newline : h.newline = c.newline)
      (request : (scanByte c.newline x).2 = true) (started : c.started = h.started + 1) :
      Handles c h (.responding t rest)
  | asked {t : T} {rest : List Byte} (quiet : Quiet c) (handle : h.handle = State.next rest)
      (newline : h.newline = false) (started : h.started = c.started) :
      Handles c h (.responding t rest)
  | locking (quiet : Quiet c) (handle : h.handle = .receiving) (started : h.started = c.started) :
      Handles c h .locking
  | joining {t : T} (joins : Joins c t .handle) (handle : h.handle = .receiving)
      (started : h.started = c.started) : Handles c h .acquiring
  | acquiring (quiet : Quiet c) (handle : h.handle = .locking) (started : h.started = c.started) :
      Handles c h .acquiring
  | finished (quiet : Quiet c) (handle : h.handle = .finished) (started : h.started = c.started) :
      Handles c h .finished

inductive Responds (c : Connection T) (h : State) (i : Nat) : Responder → Prop where
  | absent (new : c.started ≤ i) : Responds c h i .absent
  | asking (fresh : h.started ≤ i) (called : i < c.started) : Responds c h i .locking
  | waiting (waits : Client.responder i ∈ h.line.tail) : Responds c h i .locking
  | sending (first : h.line.head? = some (.responder i)) (unsent : h.sent = false) (held : Held c) :
      Responds c h i (.sending h.sending)
  | sent (first : h.line.head? = some (.responder i)) (sent : h.sent = true) (held : Held c) :
      Responds c h i .sent
  | leaving {t : T} (first : h.line.head? = some (.responder i))
      (leaves : (c.mutex.pc t).leaves = some (some (.responder i))) : Responds c h i .finished
  | finished (called : i < h.started) (left : Client.responder i ∉ h.line) :
      Responds c h i .finished

structure Follows [DecidableEq T] (c : Connection T) (h : State) : Prop where
  serves : Mutex.Serves c.mutex (h.line.map some)
  received : h.received = c.received
  wire : h.wire = c.wire
  handle : Handles c h c.handle
  responders : ∀ i, Responds c h i (c.responder i)
  leavers : ∀ v client, (c.mutex.pc v).leaves = some client →
    h.sent = true ∧ ∃ i, client = some (.responder i)

/-! ## The line -/

theorem line_nodup (serving : State.Serving response h) : h.line.Nodup := by
  obtain ⟨⟨done, queued⟩, _⟩ := serving
  rw [queued.line, List.nodup_append]
  refine ⟨(List.nodup_range').map fun _ _ same => Client.responder.inj same, ?_, ?_⟩
  · cases place : h.handle <;> simp [State.asked, place]
  · intro a member b other
    obtain ⟨i, _, rfl⟩ := List.mem_map.mp member
    cases place : h.handle <;> simp_all [State.asked]

theorem lt_started (serving : State.Serving response h) (member : Client.responder i ∈ h.line) :
    i < h.started := by
  obtain ⟨⟨done, queued⟩, _⟩ := serving
  rw [queued.line] at member
  rcases List.mem_append.mp member with called | other
  · obtain ⟨j, within, same⟩ := List.mem_map.mp called
    cases same
    have bound := queued.bound
    have range := List.mem_range'_1.mp within
    omega
  · cases place : h.handle <;> simp_all [State.asked]

theorem handle_locking (serving : State.Serving response h) {line : List Client}
    (front : h.line = .responder i :: .handle :: line) : h.handle = .locking := by
  obtain ⟨⟨done, queued⟩, _⟩ := serving
  have working : h.handle ≠ .finished := by
    rw [Ne, queued.passed, front]
    simp
  have member : Client.handle ∈ h.line := by simp [front]
  rw [queued.line] at member
  cases place : h.handle <;> simp_all [State.asked]

theorem not_mem_tail (serving : State.Serving response h)
    (first : h.line.head? = some (.responder i)) : Client.responder i ∉ h.line.tail := by
  have distinct := line_nodup serving
  obtain ⟨rest, line⟩ := List.head?_eq_some_iff.mp first
  rw [line] at distinct ⊢
  exact (List.nodup_cons.mp distinct).1

/-! ## What stays -/

theorem Responds.keep {place : Responder} (responds : Responds c h i place)
    (new : c.started ≤ i → d.started ≤ i) (called : c.started ≤ d.started) (held : Held c → Held d)
    (leaves : ∀ t client, (c.mutex.pc t).leaves = some client → (d.mutex.pc t).leaves = some client)
    (line : k.line = h.line) (started : k.started = h.started) (sending : k.sending = h.sending)
    (sent : k.sent = h.sent) : Responds d k i place := by
  cases responds with
  | absent before => exact .absent (new before)
  | asking fresh before => exact .asking (started ▸ fresh) (Nat.lt_of_lt_of_le before called)
  | waiting waits => exact .waiting (line ▸ waits)
  | sending first unsent idle =>
      rw [← sending]
      exact .sending (line ▸ first) (sent ▸ unsent) (held idle)
  | sent first done idle => exact .sent (line ▸ first) (sent ▸ done) (held idle)
  | leaving first left => exact .leaving (line ▸ first) (leaves _ _ left)
  | finished before left => exact .finished (started ▸ before) (line ▸ left)

theorem Responds.other {j : Nat} {place : Responder} (responds : Responds c h j place)
    (first : h.line.head? = some (.responder i)) (other : j ≠ i) (called : d.started = c.started)
    (line : k.line = h.line) (started : k.started = h.started) : Responds d k j place := by
  -- A responder that is not the first of the line does not touch the mutex.
  have behind : h.line.head? ≠ some (.responder j) := by
    rw [first]
    rintro ⟨⟩
    exact other rfl
  cases responds with
  | absent new => exact .absent (called ▸ new)
  | asking fresh new => exact .asking (started ▸ fresh) (called ▸ new)
  | waiting waits => exact .waiting (line ▸ waits)
  | sending here | sent here | leaving here => exact absurd here behind
  | finished before left => exact .finished (started ▸ before) (line ▸ left)

theorem Responds.same {place : Responder} (responds : Responds c h i place)
    (called : d.started = c.started) (mutex : d.mutex = c.mutex) (line : k.line = h.line)
    (started : k.started = h.started) (sending : k.sending = h.sending) (sent : k.sent = h.sent) :
    Responds d k i place :=
  responds.keep (fun new => called ▸ new) (Nat.le_of_eq called.symm)
    (fun held => by unfold Held; rwa [mutex]) (fun t client leaves => by rwa [mutex])
    line started sending sent

variable [DecidableEq T]

theorem Handles.next {rest : List Byte} (quiet : Quiet c) (handle : h.handle = State.next rest)
    (newline : h.newline = c.newline) (started : h.started = c.started) :
    Handles c h (.next rest) := by
  cases rest with
  | nil => exact .receiving quiet handle newline started
  | cons x rest => exact .scanning quiet handle newline started

theorem Handles.keep {place : Place T} (handles : Handles c h place)
    (joins : ∀ v, (d.mutex.pc v).joins = (c.mutex.pc v).joins) (newline : d.newline = c.newline)
    (called : d.started = c.started) (handle : k.handle = h.handle)
    (flag : k.newline = h.newline) (started : k.started = h.started) : Handles d k place := by
  have still : Quiet c → Quiet d := fun quiet v => (joins v).trans (quiet v)
  have also : ∀ t client, Joins c t client → Joins d t client :=
    fun t client about v => (joins v).trans (about v)
  cases handles with
  | receiving quiet => exact .receiving (still quiet) (by simp_all) (by simp_all) (by simp_all)
  | scanning quiet => exact .scanning (still quiet) (by simp_all) (by simp_all) (by simp_all)
  | calling quiet _ _ request =>
      exact .calling (still quiet) (by simp_all) (by simp_all) (newline ▸ request) (by simp_all)
  | asking about _ _ request =>
      exact .asking (started ▸ also _ _ about) (by simp_all) (by simp_all) (newline ▸ request)
        (by simp_all)
  | asked quiet => exact .asked (still quiet) (by simp_all) (by simp_all) (by simp_all)
  | locking quiet => exact .locking (still quiet) (by simp_all) (by simp_all)
  | joining about => exact .joining (also _ _ about) (by simp_all) (by simp_all)
  | acquiring quiet => exact .acquiring (still quiet) (by simp_all) (by simp_all)
  | finished quiet => exact .finished (still quiet) (by simp_all) (by simp_all)

theorem Handles.of_locking {place : Place T} (handles : Handles c h place)
    (locking : h.handle = .locking) : Quiet c ∧ h.started = c.started := by
  cases handles with
  | acquiring quiet _ started => exact ⟨quiet, started⟩
  | asked quiet handle _ started => exact ⟨quiet, started⟩
  | receiving _ handle | scanning _ handle | calling _ handle | asking _ handle
  | locking _ handle | joining _ handle | finished _ handle =>
      cases locking.symm.trans handle

def shows (c : Connection T) : Action T → List Http.Action
  | .recv chunk => if chunk = [] then [] else [.recv chunk]
  | .scan =>
      match c.handle with
      | .scanning (x :: _) => if (scanByte c.newline x).2 then [] else [.scan]
      | _ => []
  | .write _ rc => [.write rc]
  | .block _ errno => [.block errno]
  | .advance t spurious =>
      (Mutex.shows c.mutex (.advance t spurious)).map fun
        | .ask (some .handle) => .recv []
        | .ask _ => .scan
        | .leave => .unlock
  | .respond .. | .responded | .lock .. | .unlock .. => []

theorem exec_single {b : Http.Action} :
    exec (State.step os response) h [b] = some k ↔ State.step os response h b = some k := by
  simp [exec]

theorem Follows.recv (follows : Follows c h) {chunk : List Byte}
    (taken : step os response c (.recv chunk) = some d) :
    ∃ k, exec (State.step os response) h (shows c (.recv chunk)) = some k ∧ Follows d k := by
  simp only [step, State.recv_size, List.take_length] at taken
  obtain ⟨⟨place, fits⟩, next⟩ := provided_eq_some.mp taken
  obtain ⟨serves, received, wire, handle, responders, leavers⟩ := follows
  rw [place] at handle
  cases handle with
  | receiving quiet handle newline started =>
      by_cases empty : chunk = []
      · subst empty
        cases next
        exact ⟨h, rfl, serves, received, wire, .locking quiet handle started,
          fun i => (responders i).same rfl rfl rfl rfl rfl rfl, leavers⟩
      · have long : ¬ chunk.length = 0 := by simpa using empty
        rw [if_neg long] at next
        cases next
        refine ⟨{ h with received := h.received ++ chunk, handle := .scanning chunk }, ?_, serves,
          congrArg (· ++ chunk) received, wire, .scanning quiet rfl newline started,
          fun i => (responders i).same rfl rfl rfl rfl rfl rfl, leavers⟩
        rw [shows, if_neg empty, exec_single]
        simp [State.step, handle, fits, State.recv_size, empty]

theorem Follows.scan (follows : Follows c h) (taken : step os response c .scan = some d) :
    ∃ k, exec (State.step os response) h (shows c .scan) = some k ∧ Follows d k := by
  simp only [step] at taken
  split at taken
  · next x rest place =>
      obtain ⟨serves, received, wire, handle, responders, leavers⟩ := follows
      rw [place] at handle
      cases handle with
      | scanning quiet handle newline started =>
          by_cases request : (scanByte c.newline x).2 = true
          · rw [if_pos request] at taken
            cases taken
            exact ⟨h, by simp [shows, place, request], serves, received, wire,
              .calling quiet handle newline request started,
              fun i => (responders i).same rfl rfl rfl rfl rfl rfl, leavers⟩
          · rw [if_neg request] at taken
            cases taken
            refine ⟨{ h with newline := (scanByte c.newline x).1, handle := State.next rest }, ?_,
              serves, received, wire, .next quiet rfl rfl started,
              fun i => (responders i).same rfl rfl rfl rfl rfl rfl, leavers⟩
            have shown : shows c .scan = [.scan] := by simp [shows, place, request]
            rw [shown, exec_single]
            simp [State.step, handle, newline, request]
  · cases taken

theorem Follows.responded (follows : Follows c h)
    (taken : step os response c .responded = some d) :
    ∃ k, exec (State.step os response) h (shows c .responded) = some k ∧ Follows d k := by
  simp only [step] at taken
  split at taken
  · next t rest place =>
      obtain ⟨outside, rfl⟩ := provided_eq_some.mp taken
      obtain ⟨serves, received, wire, handle, responders, leavers⟩ := follows
      rw [place] at handle
      cases handle with
      | asking joins =>
          have here := joins t
          rw [outside, if_pos rfl] at here
          cases here
      | asked quiet handle newline started =>
          exact ⟨h, rfl, serves, received, wire, .next quiet handle newline started,
            fun i => (responders i).same rfl rfl rfl rfl rfl rfl, leavers⟩
  · cases taken

/-! ## The mutex -/

theorem enter_views {mutex after : Mutex T Client} {line : List (Async.Client Client)}
    {client : Client} {next : Option Client} (serves : Mutex.Serves mutex line)
    (taken : enter mutex t client next = some after) :
    Mutex.Serves after line ∧
      (∀ v, (after.pc v).joins = if v = t then some client else (mutex.pc v).joins) ∧
      ∀ v, (after.pc v).leaves = (mutex.pc v).leaves := by
  obtain ⟨built, constructs, enters⟩ := Option.bind_eq_some_iff.mp taken
  obtain ⟨serves, _, pc⟩ := serves.construct constructs
  obtain ⟨serves, _, _, joins, leaves⟩ := serves.lockAsync enters
  exact ⟨serves, by rwa [pc] at joins, by rwa [pc] at leaves⟩

theorem Follows.respond (follows : Follows c h) {next : Option Client}
    (taken : step os response c (.respond t next) = some d) :
    ∃ k, exec (State.step os response) h (shows c (.respond t next)) = some k ∧ Follows d k := by
  simp only [step] at taken
  split at taken
  · next rest place =>
      obtain ⟨mutex, enters, rfl⟩ := Option.map_eq_some_iff.mp taken
      obtain ⟨serves, received, wire, handle, responders, leavers⟩ := follows
      obtain ⟨serves, joins, leaves⟩ := enter_views serves enters
      rw [place] at handle
      cases handle with
      | calling quiet handle newline request started =>
          refine ⟨h, rfl, serves, received, wire, .asking ?_ handle newline request ?_, ?_, ?_⟩
          · intro v
            rw [started]
            rw [joins, quiet v]
          · rw [started]
          · intro i
            by_cases same : i = c.started
            · rw [same]
              simp only [setResponder, Function.update_self]
              exact .asking (Nat.le_of_eq started) (Nat.lt_succ_self _)
            · simp only [setResponder, Function.update_of_ne same]
              refine (responders i).keep ?_ (Nat.le_succ _) ?_ ?_ rfl rfl rfl rfl
              · intro new
                exact Nat.lt_of_le_of_ne new (Ne.symm same)
              · intro held v
                rw [leaves]
                exact held v
              · intro v client left
                rwa [leaves]
          · intro v client left
            rw [leaves] at left
            exact leavers v client left
  · cases taken

theorem Follows.lock (follows : Follows c h) {next : Option Client}
    (taken : step os response c (.lock t next) = some d) :
    ∃ k, exec (State.step os response) h (shows c (.lock t next)) = some k ∧ Follows d k := by
  simp only [step] at taken
  split at taken
  · next place =>
      obtain ⟨mutex, enters, rfl⟩ := Option.map_eq_some_iff.mp taken
      obtain ⟨serves, received, wire, handle, responders, leavers⟩ := follows
      obtain ⟨serves, joins, leaves⟩ := enter_views serves enters
      rw [place] at handle
      cases handle with
      | locking quiet handle started =>
          refine ⟨h, rfl, serves, received, wire, .joining (t := t) ?_ handle started, ?_, ?_⟩
          · intro v
            rw [joins, quiet v]
          · intro i
            refine (responders i).keep id (Nat.le_refl _) ?_ ?_ rfl rfl rfl rfl
            · intro held v
              rw [leaves]
              exact held v
            · intro v client left
              rwa [leaves]
          · intro v client left
            rw [leaves] at left
            exact leavers v client left
  · cases taken

/-! ## The responders -/

omit [DecidableEq T] in
theorem Responds.first {op : Sending} (responds : Responds c h i (.sending op)) :
    h.line.head? = some (.responder i) ∧ h.sending = op ∧ h.sent = false ∧ Held c := by
  cases responds with
  | sending first unsent held => exact ⟨first, rfl, unsent, held⟩

theorem Follows.send (follows : Follows c h) {op : Sending} (here : c.responder i = .sending op)
    (attempt : Sending × Option Bool) (wire : List Byte) :
    Follows ({ c with wire }.send i attempt)
      { h with sending := attempt.1, sent := attempt.2 = some true, wire } := by
  obtain ⟨serves, received, _, handle, responders, leavers⟩ := follows
  obtain ⟨first, _, unsent, held⟩ := (here ▸ responders i).first
  refine ⟨serves, received, rfl, ?_, fun j => ?_, fun v client left => ?_⟩
  · exact handle.keep (fun _ => rfl) rfl rfl rfl rfl rfl
  · by_cases same : j = i
    · subst same
      simp only [Connection.send, setResponder, Function.update_self]
      split
      · next done => exact .sent first (by simpa using done) held
      · next more => exact .sending first (by simpa using more) held
    · simp only [Connection.send, setResponder, Function.update_of_ne same]
      exact (responders j).other first same rfl rfl rfl
  · cases (held v).symm.trans left

theorem responding_of_first (first : h.line.head? = some (.responder i)) :
    h.responding = true := by
  obtain ⟨rest, line⟩ := List.head?_eq_some_iff.mp first
  simp [State.responding, line]

theorem Follows.write (follows : Follows c h) {rc : Nat}
    (taken : step os response c (.write i rc) = some d) :
    ∃ k, exec (State.step os response) h (shows c (.write i rc)) = some k ∧ Follows d k := by
  simp only [step] at taken
  split at taken
  · next op here =>
      obtain ⟨within, rfl⟩ := provided_eq_some.mp taken
      obtain ⟨first, rfl, unsent, _⟩ := (here ▸ follows.responders i).first
      refine ⟨_, ?_, follows.send here (Tcp.Send.awaitReady os h.sending (.ok rc))
        (c.wire ++ (h.sending.buffer.view response).take rc)⟩
      rw [shows, exec_single]
      simp [State.step, responding_of_first first, unsent, within, follows.wire]
  · cases taken

theorem Follows.block (follows : Follows c h) {errno : Errno}
    (taken : step os response c (.block i errno) = some d) :
    ∃ k, exec (State.step os response) h (shows c (.block i errno)) = some k ∧ Follows d k := by
  simp only [step] at taken
  split at taken
  · next op here =>
      obtain ⟨transient, rfl⟩ := provided_eq_some.mp taken
      obtain ⟨first, rfl, unsent, _⟩ := (here ▸ follows.responders i).first
      refine ⟨_, ?_, follows.send here (Tcp.Send.awaitReady os h.sending (.error errno)) c.wire⟩
      rw [shows, exec_single]
      simp [State.step, responding_of_first first, unsent, transient, follows.wire]
  · cases taken

theorem Follows.unlock (follows : Follows c h)
    (taken : step os response c (.unlock t i) = some d) :
    ∃ k, exec (State.step os response) h (shows c (.unlock t i)) = some k ∧ Follows d k := by
  simp only [step] at taken
  split at taken
  · next here =>
      obtain ⟨mutex, unlocks, rfl⟩ := Option.map_eq_some_iff.mp taken
      obtain ⟨serves, received, wire, handle, responders, leavers⟩ := follows
      obtain ⟨serves, _, _, _, joins, leaves⟩ := serves.unlock unlocks
      obtain ⟨first, sent⟩ : h.line.head? = some (.responder i) ∧ h.sent = true := by
        have responds := responders i
        rw [here] at responds
        cases responds with
        | sent first sent => exact ⟨first, sent⟩
      refine ⟨h, rfl, serves, received, wire, handle.keep joins rfl rfl rfl rfl rfl, fun j => ?_,
        fun v client left => ?_⟩
      · by_cases same : j = i
        · subst same
          simp only [setResponder, Function.update_self]
          exact .leaving (t := t) first (by rw [leaves, if_pos rfl])
        · simp only [setResponder, Function.update_of_ne same]
          exact (responders j).other first same rfl rfl rfl
      · rw [leaves] at left
        split at left
        · cases left
          exact ⟨sent, i, rfl⟩
        · cases left
  · cases taken

/-! ## The instructions of the mutex -/

omit [DecidableEq T] in
theorem settle_nil {mutex : Mutex T Client} (granted : mutex.granted = c.mutex.granted) :
    c.settle os response mutex = { c with mutex } := by
  simp [settle, granted]

omit [DecidableEq T] in
theorem settle_single {mutex : Mutex T Client} (client : Async.Client Client)
    (granted : mutex.granted = c.mutex.granted ++ [client]) :
    c.settle os response mutex = grant os response { c with mutex } client := by
  simp [settle, granted]

theorem Follows.inside (follows : Follows c h) {mutex : Mutex T Client}
    (serves : Mutex.Serves mutex (h.line.map some))
    (joins : ∀ v, (mutex.pc v).joins = (c.mutex.pc v).joins)
    (leaves : ∀ v, (mutex.pc v).leaves = (c.mutex.pc v).leaves) :
    Follows { c with mutex } h := by
  obtain ⟨_, received, wire, handle, responders, leavers⟩ := follows
  refine ⟨serves, received, wire, handle.keep joins rfl rfl rfl rfl rfl, fun i => ?_,
    fun v client left => ?_⟩
  · refine (responders i).keep id (Nat.le_refl _) ?_ ?_ rfl rfl rfl rfl
    · intro held v
      rw [leaves]
      exact held v
    · intro v client left
      rwa [leaves]
  · rw [leaves] at left
    exact leavers v client left

omit [DecidableEq T] in
theorem Responds.alone {place : Responder} {client : Client} (responds : Responds c h i place)
    (empty : h.line = []) (line : k.line = [client]) (other : client ≠ .responder i)
    (called : d.started = c.started) (started : h.started ≤ k.started)
    (asks : h.started ≤ i → i < c.started → client = .responder i) : Responds d k i place := by
  cases responds with
  | absent new => exact .absent (called ▸ new)
  | asking fresh new => exact absurd (asks fresh new) other
  | waiting waits => simp [empty] at waits
  | sending first | sent first | leaving first => simp [empty] at first
  | finished before left =>
      exact .finished (Nat.lt_of_lt_of_le before started) (by simpa [line] using Ne.symm other)

omit [DecidableEq T] in
theorem Responds.behind {place : Responder} {client : Client} (responds : Responds c h i place)
    (nonempty : h.line ≠ []) (line : k.line = h.line ++ [client])
    (fresh : i < h.started → client ≠ .responder i) (called : d.started = c.started)
    (held : Held c → Held d)
    (leaves : ∀ t holder, (c.mutex.pc t).leaves = some holder →
      (d.mutex.pc t).leaves = some holder)
    (started : h.started ≤ k.started) (sending : k.sending = h.sending) (sent : k.sent = h.sent)
    (asks : h.started ≤ i → i < c.started → client = .responder i) : Responds d k i place := by
  have front : k.line.head? = h.line.head? := by
    rw [line, List.head?_append_of_ne_nil _ nonempty]
  have tail : k.line.tail = h.line.tail ++ [client] := by
    rw [line, List.tail_append_of_ne_nil nonempty]
  cases responds with
  | absent new => exact .absent (called ▸ new)
  | asking before new => exact .waiting (by simp [tail, asks before new])
  | waiting waits => exact .waiting (by simp [tail, waits])
  | sending first unsent idle =>
      rw [← sending]
      exact .sending (front.trans first) (sent ▸ unsent) (held idle)
  | sent first done idle => exact .sent (front.trans first) (sent ▸ done) (held idle)
  | leaving first left => exact .leaving (front.trans first) (leaves _ _ left)
  | finished before left =>
      refine .finished (Nat.lt_of_lt_of_le before started) ?_
      simpa [line, left] using Ne.symm (fresh before)

omit [DecidableEq T] in
theorem Responds.pass {place : Responder} {j : Nat} {rest : List Client}
    (serving : State.Serving response h) (responds : Responds c h j place)
    (line : h.line = .responder i :: rest)
    (left : (c.mutex.pc u).leaves = some (some (.responder i))) (after : k.line = rest)
    (next : rest.head? ≠ some (.responder j))
    (called : d.started = c.started) (started : k.started = h.started) : Responds d k j place := by
  have front : ∀ {n}, h.line.head? = some (Client.responder n) → n = i := by
    intro n first
    rw [line] at first
    cases first
    rfl
  cases responds with
  | absent new => exact .absent (called ▸ new)
  | asking fresh new => exact .asking (started ▸ fresh) (called ▸ new)
  | waiting waits =>
      rw [line, List.tail_cons] at waits
      refine .waiting ?_
      rw [after]
      cases rest with
      | nil => cases waits
      | cons client rest =>
          rcases List.mem_cons.mp waits with same | later
          · exact absurd (congrArg some same.symm) next
          · exact later
  | sending _ _ held | sent _ _ held => cases left.symm.trans (held u)
  | leaving first =>
      have same := front first
      subst same
      have absent := not_mem_tail serving first
      rw [line, List.tail_cons] at absent
      refine .finished ?_ (after ▸ absent)
      rw [started]
      exact lt_started serving (by simp [line])
  | finished before gone =>
      refine .finished (started ▸ before) fun member => gone ?_
      rw [line]
      exact List.mem_cons_of_mem _ (after ▸ member)

theorem scanByte_request {newline : Bool} {x : Byte} (request : (scanByte newline x).2 = true) :
    (scanByte newline x).1 = false := by
  unfold scanByte at request ⊢
  split_ifs at request ⊢
  simp_all

omit [DecidableEq T] in
theorem held_of_line_nil (serves : Mutex.Serves c.mutex (h.line.map some)) (empty : h.line = []) :
    Held c := by
  intro v
  cases leaves : (c.mutex.pc v).leaves with
  | none => rfl
  | some holder =>
      have first := (serves.leaving leaves).1
      simp [empty] at first

theorem Follows.asks_respond (follows : Follows c h) (os : Os) (response : List Byte)
    {mutex : Mutex T Client}
    (joined : (c.mutex.pc u).joins = some (.responder i))
    (serves : Mutex.Serves mutex (h.line.map some ++ [some (.responder i)]))
    (granted : mutex.granted = c.mutex.granted ++
      if h.line.map some = [] then [some (.responder i)] else [])
    (joins : ∀ v, (mutex.pc v).joins = if v = u then none else (c.mutex.pc v).joins)
    (leaves : ∀ v, (mutex.pc v).leaves = (c.mutex.pc v).leaves) :
    ∃ k, State.step os response h .scan = some k ∧ Follows (c.settle os response mutex) k := by
  obtain ⟨before, received, wire, handle, responders, leavers⟩ := follows
  generalize place : c.handle = here at handle
  cases handle with
  | receiving quiet | scanning quiet | calling quiet | asked quiet | locking quiet
  | acquiring quiet | finished quiet => cases (quiet u).symm.trans joined
  | joining about =>
      rw [about] at joined
      split at joined <;> cases joined
  | @asking t x rest about handle newline request started =>
      obtain ⟨rfl, rfl⟩ : u = t ∧ i = h.started := by
        rw [about] at joined
        split at joined
        · next same => exact ⟨same, by cases joined; rfl⟩
        · cases joined
      have quiet : ∀ v, (mutex.pc v).joins = none := by
        intro v
        rw [joins, about]
        split <;> rfl
      refine ⟨State.respond os response { h with newline := false, handle := State.next rest },
        ?_, ?_⟩
      · simp [State.step, handle, newline, request, scanByte_request request]
      have asks : ∀ j, h.started ≤ j → j < c.started →
          Client.responder h.started = .responder j := by
        intro j fresh called
        rw [show j = h.started by omega]
      by_cases empty : h.line = []
      · have held := held_of_line_nil before empty
        have joined : State.respond os response
              { h with newline := false, handle := State.next rest } =
            { h with
              newline := false
              handle := State.next rest
              started := h.started + 1
              line := [.responder h.started]
              sending := .make os response.length
              sent := false } := by
          simp [State.respond, State.request, State.grant, empty]
        have alone : Mutex.Serves mutex [some (.responder h.started)] := by
          simpa [empty] using serves
        rw [joined, settle_single (some (.responder h.started)) (by simp [granted, empty])]
        refine ⟨alone, received, wire, ?_, fun j => ?_, fun v client left => ?_⟩
        · simp only [grant, setResponder, place]
          exact .asked quiet rfl rfl started.symm
        · by_cases same : j = h.started
          · subst same
            simp only [grant, setResponder, Function.update_self]
            exact .sending rfl rfl fun v => (leaves v).trans (held v)
          · simp only [grant, setResponder, Function.update_of_ne same]
            exact (responders j).alone empty rfl (fun eq => same (Client.responder.inj eq).symm) rfl
              (Nat.le_succ _) (asks j)
        · cases (held v).symm.trans ((leaves v).symm.trans left)
      · have joined : State.respond os response
              { h with newline := false, handle := State.next rest } =
            { h with
              newline := false
              handle := State.next rest
              started := h.started + 1
              line := h.line ++ [.responder h.started] } := by
          simp [State.respond, State.request, empty]
        rw [joined, settle_nil (by simp [granted, empty])]
        refine ⟨by simpa using serves, received, wire, ?_, fun j => ?_, fun v client left => ?_⟩
        · simp only [place]
          exact .asked quiet rfl rfl started.symm
        · refine (responders j).behind empty rfl ?_ rfl (fun held v => (leaves v).trans (held v))
            (fun v holder left => (leaves v).trans left) (Nat.le_succ _) rfl rfl (asks j)
          intro called same
          exact Nat.ne_of_gt called (Client.responder.inj same)
        · exact leavers v client ((leaves v).symm.trans left)

theorem Follows.asks_handle (follows : Follows c h) (os : Os) (response : List Byte)
    {mutex : Mutex T Client}
    (joined : (c.mutex.pc u).joins = some .handle)
    (serves : Mutex.Serves mutex (h.line.map some ++ [some .handle]))
    (granted : mutex.granted = c.mutex.granted ++
      if h.line.map some = [] then [some .handle] else [])
    (joins : ∀ v, (mutex.pc v).joins = if v = u then none else (c.mutex.pc v).joins)
    (leaves : ∀ v, (mutex.pc v).leaves = (c.mutex.pc v).leaves) :
    ∃ k, State.step os response h (.recv []) = some k ∧
      Follows (c.settle os response mutex) k := by
  obtain ⟨before, received, wire, handle, responders, leavers⟩ := follows
  generalize place : c.handle = here at handle
  cases handle with
  | receiving quiet | scanning quiet | calling quiet | asked quiet | locking quiet
  | acquiring quiet | finished quiet => cases (quiet u).symm.trans joined
  | asking about =>
      rw [about] at joined
      split at joined <;> cases joined
  | @joining t about handle started =>
      have same : u = t := by
        rw [about] at joined
        split at joined
        · next same => exact same
        · cases joined
      subst same
      have quiet : ∀ v, (mutex.pc v).joins = none := by
        intro v
        rw [joins, about]
        split <;> rfl
      refine ⟨State.request os response { h with handle := .locking } .handle, ?_, ?_⟩
      · simp [State.step, handle, State.recv_size]
      have asks : ∀ j, h.started ≤ j → j < c.started → Client.handle = .responder j := by
        intro j fresh called
        omega
      by_cases empty : h.line = []
      · have held := held_of_line_nil before empty
        have joined : State.request os response { h with handle := .locking } .handle =
            { h with line := [.handle], handle := .finished } := by
          simp [State.request, State.grant, empty]
        have alone : Mutex.Serves mutex [some .handle] := by
          simpa [empty] using serves
        rw [joined, settle_single (some .handle) (by simp [granted, empty])]
        refine ⟨alone, received, wire, .finished quiet rfl started, fun j => ?_,
          fun v client left => ?_⟩
        · exact (responders j).alone empty rfl (by simp) rfl (Nat.le_refl _) (asks j)
        · cases (held v).symm.trans ((leaves v).symm.trans left)
      · have joined : State.request os response { h with handle := .locking } .handle =
            { h with line := h.line ++ [.handle], handle := .locking } := by
          simp [State.request, empty]
        rw [joined, settle_nil (by simp [granted, empty])]
        refine ⟨by simpa using serves, received, wire, ?_, fun j => ?_, fun v client left => ?_⟩
        · simp only [place]
          exact .acquiring quiet rfl started
        · exact (responders j).behind empty rfl (by simp) rfl (fun held v => (leaves v).trans (held v))
            (fun v holder left => (leaves v).trans left) (Nat.le_refl _) rfl rfl (asks j)
        · exact leavers v client ((leaves v).symm.trans left)

theorem Follows.passes (follows : Follows c h) (os : Os) (serving : State.Serving response h)
    {mutex : Mutex T Client} {holder : Async.Client Client} {rest : List (Async.Client Client)}
    (first : h.line.map some = holder :: rest) (left : (c.mutex.pc u).leaves = some holder)
    (serves : Mutex.Serves mutex rest) (granted : mutex.granted = c.mutex.granted ++ rest.take 1)
    (joins : ∀ v, (mutex.pc v).joins = (c.mutex.pc v).joins)
    (leaves : ∀ v, (mutex.pc v).leaves = none) :
    ∃ k, State.step os response h .unlock = some k ∧ Follows (c.settle os response mutex) k := by
  obtain ⟨_, received, wire, handle, responders, leavers⟩ := follows
  obtain ⟨sent, i, rfl⟩ := leavers u holder left
  obtain ⟨client, line, front, same, rfl⟩ := List.map_eq_cons_iff.mp first
  cases same
  refine ⟨State.release os response h, ?_, ?_⟩
  · simp [State.step, State.responding, front, sent]
  cases line with
  | nil =>
      have released : State.release os response h = { h with line := [] } := by
        simp [State.release, State.grant, front]
      rw [released, settle_nil (by simp [granted])]
      refine ⟨serves, received, wire, handle.keep joins rfl rfl rfl rfl rfl, fun j => ?_,
        fun v client left => by cases (leaves v).symm.trans left⟩
      exact (responders j).pass serving front left rfl (by simp) rfl rfl
  | cons next line =>
      cases next with
      | responder n =>
          have released : State.release os response h =
              { h with
                line := .responder n :: line
                sending := .make os response.length
                sent := false } := by
            simp [State.release, State.grant, front]
          rw [released, settle_single (some (.responder n)) (by simp [granted])]
          refine ⟨serves, received, wire, handle.keep joins rfl rfl rfl rfl rfl, fun j => ?_,
            fun v client left => by cases (leaves v).symm.trans left⟩
          by_cases same : j = n
          · subst same
            simp only [grant, setResponder, Function.update_self]
            exact .sending rfl rfl leaves
          · simp only [grant, setResponder, Function.update_of_ne same]
            refine (responders j).pass serving front left rfl ?_ rfl rfl
            rintro ⟨⟩
            exact same rfl
      | handle =>
          have released : State.release os response h =
              { h with line := .handle :: line, handle := .finished } := by
            simp [State.release, State.grant, front]
          rw [released, settle_single (some .handle) (by simp [granted])]
          refine ⟨serves, received, wire, ?_, fun j => ?_,
            fun v client left => by cases (leaves v).symm.trans left⟩
          · obtain ⟨quiet, started⟩ := handle.of_locking (handle_locking serving front)
            exact .finished (fun v => (joins v).trans (quiet v)) rfl started
          · exact (responders j).pass serving front left rfl (by simp) rfl rfl

theorem Follows.advance (follows : Follows c h) (serving : State.Serving response h)
    {spurious : Bool} (taken : step os response c (.advance t spurious) = some d) :
    ∃ k, exec (State.step os response) h (shows c (.advance t spurious)) = some k ∧
      Follows d k := by
  obtain ⟨mutex, advances, rfl⟩ := Option.map_eq_some_iff.mp taken
  cases follows.serves.advance advances with
  | inside shown serves granted joins leaves =>
      refine ⟨h, by simp [shows, shown], ?_⟩
      rw [settle_nil granted]
      exact follows.inside serves joins leaves
  | @asks client shown joined serves granted joins leaves =>
      rw [shows, shown]
      cases client with
      | responder i =>
          obtain ⟨k, taken, next⟩ := follows.asks_respond os response
            joined serves granted joins leaves
          exact ⟨k, exec_single.mpr taken, next⟩
      | handle =>
          obtain ⟨k, taken, next⟩ := follows.asks_handle os response
            joined serves granted joins leaves
          exact ⟨k, exec_single.mpr taken, next⟩
  | passes shown first left serves granted joins leaves =>
      obtain ⟨k, taken, next⟩ := follows.passes os serving first left serves granted
        joins leaves
      refine ⟨k, ?_, next⟩
      rw [shows, shown]
      exact exec_single.mpr taken

theorem follows_step (nonempty : 0 < response.length) (fits : response.length < 2 ^ 32) :
    Simulates (step (T := T) os response) (State.step os response) shows
      fun c h => State.Serving response h ∧ Follows c h := by
  rintro c h a d ⟨serving, follows⟩ taken
  obtain ⟨k, run, next⟩ : ∃ k, exec (State.step os response) h (shows c a) = some k ∧
      Follows d k := by
    cases a with
    | recv chunk => exact follows.recv taken
    | scan => exact follows.scan taken
    | respond t next => exact follows.respond taken
    | responded => exact follows.responded taken
    | lock t next => exact follows.lock taken
    | write i rc => exact follows.write taken
    | block i errno => exact follows.block taken
    | unlock t i => exact follows.unlock taken
    | advance t spurious => exact follows.advance serving taken
  refine ⟨k, run, ?_, next⟩
  exact (exec_reachable run).invariant serving fun s a t serving _ action =>
    State.serving_step nonempty fits s a t serving action

/-! ## Runs -/

theorem start_follows (response : List Byte) (next : Client → Option Client) :
    State.Serving response State.start ∧
      Follows ({ mutex := { next } } : Connection T) State.start := by
  refine ⟨⟨⟨0, State.start_queued⟩, State.start_scanned⟩, Mutex.start_serves next, rfl, rfl,
    .receiving (fun _ => rfl) rfl rfl rfl, fun i => .absent (Nat.zero_le i), ?_⟩
  intro v client left
  cases left

theorem reachable_follows {next : Client → Option Client} (nonempty : 0 < response.length)
    (fits : response.length < 2 ^ 32)
    (reached : Reachable (step os response) ({ mutex := { next } } : Connection T) c) :
    ∃ h, Reachable (State.step os response) State.start h ∧ State.Serving response h ∧
      Follows c h :=
  (follows_step nonempty fits).reaches (start_follows response next) reached

omit [DecidableEq T] in
theorem handle_finished [DecidableEq T] (follows : Follows c h) :
    c.handle = .finished ↔ h.handle = .finished := by
  have handles := follows.handle
  generalize c.handle = place at handles
  cases handles with
  | @asked t rest _ handle => cases rest <;> simp [handle, State.next]
  | receiving _ handle | scanning _ handle | calling _ handle | asking _ handle
  | locking _ handle | joining _ handle | acquiring _ handle | finished _ handle => simp [handle]

theorem gResponse_bounds : 0 < gResponse.length ∧ gResponse.length < 2 ^ 32 := by
  simp [State.gResponse_length]

/-- Each run is a run of the handler whose mutex is served in order, with the same stream and the
same bytes on the wire. -/
theorem connection_is_handler {next : Client → Option Client} {actions : List (Action T)}
    (run : exec (step os gResponse) ({ mutex := { next } } : Connection T) actions = some c) :
    ∃ h, exec (State.step os gResponse) State.start
        (trace (step os gResponse) shows ({ mutex := { next } } : Connection T) actions) = some h ∧
      h.received = c.received ∧ h.wire = c.wire ∧
      (h.handle = .finished ↔ c.handle = .finished) := by
  obtain ⟨nonempty, fits⟩ := gResponse_bounds
  obtain ⟨h, spec, _, follows⟩ := (follows_step nonempty fits).run
    (start_follows gResponse next) run
  exact ⟨h, spec, follows.received, follows.wire, (handle_finished follows).symm⟩

def twoThreads : List (Action Bool) :=
  [.recv [10, 10], .scan, .scan, .respond false none, .advance false false, .responded,
    .write 0 100, .recv [], .lock true none, .advance true false, .advance true false, .write 0 58,
    .unlock false 0] ++ List.replicate 7 (.advance false false)

theorem twoThreads_runs : ∃ c, exec (step .linux gResponse)
    ({ mutex := { next := fun _ => none } } : Connection Bool) twoThreads = some c ∧
      c.handle = .finished := by
  refine Option.map_eq_some_iff.mp ?_
  decide +kernel

theorem connection_is_handler_two_threads : ∃ h, exec (State.step .linux gResponse) State.start
    (trace (step .linux gResponse) shows
      ({ mutex := { next := fun _ => none } } : Connection Bool) twoThreads) = some h ∧
      h.handle = .finished := by
  obtain ⟨c, run, ended⟩ := twoThreads_runs
  obtain ⟨h, spec, _, _, finished⟩ := connection_is_handler run
  exact ⟨h, spec, finished.mpr ended⟩

theorem connection_serves {next : Client → Option Client}
    (reached : Reachable (step os gResponse) ({ mutex := { next } } : Connection T) c) :
    c.wire <+: (List.replicate (requests c.received) gResponse).flatten ∧
      (c.handle = .finished →
        c.wire = (List.replicate (requests c.received) gResponse).flatten) ∧
      ∀ i j op other, c.responder i = .sending op → c.responder j = .sending other → i = j := by
  obtain ⟨nonempty, fits⟩ := gResponse_bounds
  obtain ⟨h, _, serving, follows⟩ := reachable_follows nonempty fits reached
  rw [← follows.received, ← follows.wire]
  refine ⟨State.wire_begins serving,
    fun ended => State.wire_finished serving ((handle_finished follows).mp ended), ?_⟩
  intro i j op other one two
  have first := (one ▸ follows.responders i).first.1
  have second := (two ▸ follows.responders j).first.1
  exact Client.responder.inj (Option.some.inj (first.symm.trans second))

theorem connection_serves_two_threads : ∃ c : Connection Bool,
    Reachable (step .linux gResponse) { mutex := { next := fun _ => none } } c ∧
      c.wire = (List.replicate (requests c.received) gResponse).flatten := by
  obtain ⟨c, run, ended⟩ := twoThreads_runs
  have reached := exec_reachable run
  exact ⟨c, reached, (connection_serves reached).2.1 ended⟩

omit [DecidableEq T] in
theorem line_finished (serving : State.Serving response h) (ended : h.handle = .finished) :
    h.line = [.handle] := by
  obtain ⟨⟨done, queued⟩, _⟩ := serving
  have first := queued.passed.mp ended
  rw [queued.line] at first ⊢
  cases calls : List.range' done (h.started - done) with
  | nil => simp [State.asked, ended]
  | cons i rest => simp [calls] at first

theorem connection_destructs {next : Client → Option Client}
    (reached : Reachable (step os gResponse) ({ mutex := { next } } : Connection T) c)
    (ended : c.handle = .finished) :
    (∀ t, c.mutex.pc t = .outside) ∧ (∀ client, c.mutex.live client = false) ∧
      (c.mutex.word = .notLocked ∨ c.mutex.word = .lockedNoWaiters) ∧ c.mutex.waiters = none := by
  obtain ⟨nonempty, fits⟩ := gResponse_bounds
  obtain ⟨h, _, serving, follows⟩ := reachable_follows nonempty fits reached
  have line := line_finished serving ((handle_finished follows).mp ended)
  have serves := follows.serves
  rw [line] at serves
  have handle := follows.handle
  rw [ended] at handle
  cases handle with
  | finished quiet =>
      obtain ⟨outside, dead, word, waiters⟩ := serves.alone quiet fun v => by
        cases leaves : (c.mutex.pc v).leaves with
        | none => rfl
        | some client =>
            obtain ⟨_, i, rfl⟩ := follows.leavers v client leaves
            cases (serves.leaving leaves).1
      exact ⟨outside, dead, .inr word, waiters⟩

theorem connection_destructs_two_threads : ∃ c : Connection Bool,
    Reachable (step .linux gResponse) { mutex := { next := fun _ => none } } c ∧
      ∀ t, c.mutex.pc t = .outside := by
  obtain ⟨c, run, ended⟩ := twoThreads_runs
  have reached := exec_reachable run
  exact ⟨c, reached, (connection_destructs reached ended).1⟩

end Connection

end Ice.Http
