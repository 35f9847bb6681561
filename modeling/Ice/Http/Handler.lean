import Ice.Lib.Transition
import Ice.Http.Scan
import Ice.Net.Tcp.Operations

/-!
# The HTTP connection handler

`handle` and the detached `respond` coroutines of `main.cpp` on one client socket, with the mutex
they share and the bytes the kernel has accepted. The mutex is the line of its clients in the order
of their requests: the first one holds it.
-/

namespace Ice.Http
open Transition Net

def bytes (text : String) : List Byte := text.toList.map fun c => BitVec.ofNat 8 c.toNat

def gResponse : List Byte :=
  bytes <|
    "HTTP/1.1 200 OK\r\n" ++
    "Date: Thu, 19 Apr 2018 04:34:52 GMT\r\n" ++
    "Connection: keep-alive\r\n" ++
    "Server: ice/0.1.0\r\n" ++
    "Content-Type: text/html; charset=utf-8\r\n" ++
    "Content-Length: 0\r\n" ++
    "\r\n"

inductive Client where
  | responder (i : Nat)
  | handle
  deriving DecidableEq, Repr

/-- Where `handle` is: in `recv`, in the loop over the bytes it got, in its final `lock_async`, or
past it. -/
inductive HandlePc where
  | receiving
  | scanning (rest : List Byte)
  | locking
  | finished
  deriving DecidableEq, Repr

structure State where
  received : List Byte := []
  handle : HandlePc := .receiving
  newline : Bool := false
  line : List Client := []
  started : Nat := 0
  sending : Sending
  sent : Bool := false
  wire : List Byte := []
  deriving DecidableEq, Repr

inductive Action where
  | recv (chunk : List Byte)
  | scan
  | write (rc : Nat)
  | block (errno : Errno)
  | unlock
  deriving DecidableEq, Repr

namespace State

def start : State := { sending := .make .linux 0 }

/-- What the coroutine at the head of the line does with the mutex: a responder starts its `send`,
`handle` passes its `lock_async`. -/
def grant (os : Os) (response : List Byte) (s : State) : State :=
  match s.line with
  | .responder _ :: _ => { s with sending := .make os response.length, sent := false }
  | .handle :: _ => { s with handle := .finished }
  | [] => s

def request (os : Os) (response : List Byte) (s : State) (client : Client) : State :=
  let joined := { s with line := s.line ++ [client] }
  if s.line = [] then grant os response joined else joined

def release (os : Os) (response : List Byte) (s : State) : State :=
  grant os response { s with line := s.line.tail }

def respond (os : Os) (response : List Byte) (s : State) : State :=
  request os response { s with started := s.started + 1 } (.responder s.started)

def next : List Byte → HandlePc
  | [] => .receiving
  | rest => .scanning rest

def responding (s : State) : Bool :=
  match s.line with
  | .responder _ :: _ => true
  | _ => false

def step (os : Os) (response : List Byte) (s : State) : Action → Option State
  | .recv chunk =>
      provided (s.handle = .receiving ∧ chunk.length ≤ 1024) <|
        let size := (Tcp.Recv.awaitReady os (.make os 1024) (.ok chunk.length)).1.buffer.size
        if size = 0 then request os response { s with handle := .locking } .handle
        else { s with received := s.received ++ chunk, handle := .scanning (chunk.take size) }
  | .scan =>
      match s.handle with
      | .scanning (c :: rest) =>
          let switched := { s with newline := (scanByte s.newline c).1, handle := next rest }
          some (if (scanByte s.newline c).2 then respond os response switched else switched)
      | _ => none
  | .write rc =>
      provided (s.responding ∧ s.sent = false ∧ 0 < rc ∧ rc ≤ s.sending.buffer.size) <|
        let attempt := Tcp.Send.awaitReady os s.sending (.ok rc)
        { s with
          sending := attempt.1
          sent := attempt.2 = some true
          wire := s.wire ++ (s.sending.buffer.view response).take rc }
  | .block errno =>
      provided (s.responding ∧ s.sent = false ∧ Errno.fatal os errno = false) <|
        let attempt := Tcp.Send.awaitReady os s.sending (.error errno)
        { s with sending := attempt.1, sent := attempt.2 = some true }
  | .unlock =>
      provided (s.responding ∧ s.sent = true) (release os response s)

/-! ## The line of responders -/

def pending (s : State) : List Byte :=
  match s.handle with
  | .scanning rest => rest
  | _ => []

def asked (s : State) : List Client :=
  match s.handle with
  | .locking | .finished => [.handle]
  | _ => []

def Scanned (s : State) : Prop :=
  ∃ handled, s.received = handled ++ s.pending ∧ scan false handled = (s.newline, s.started)

/-- The first `done` responders have finished; the next one holds the mutex and has written a part
of its response, the others wait behind it. -/
structure Queued (response : List Byte) (s : State) (done : Nat) : Prop where
  bound : done ≤ s.started
  line : s.line = (List.range' done (s.started - done)).map .responder ++ s.asked
  passed : s.handle = .finished ↔ s.line.head? = some .handle
  wire : s.wire = (List.replicate done response).flatten ++
    if done < s.started then response.take s.sending.size else []
  data : done < s.started → s.sending.buffer.data = s.sending.size
  size : done < s.started → s.sending.size + s.sending.buffer.size = response.length
  clean : s.sending.ec = .ok
  sent : done < s.started → (s.sent = true ↔ s.sending.buffer.size = 0)

variable {os : Os} {response : List Byte} {s t : State} {done : Nat}

theorem start_queued : Queued response start 0 where
  bound := Nat.le_refl 0
  line := rfl
  passed := by simp [start]
  wire := rfl
  data := by simp [start]
  size := by simp [start]
  clean := rfl
  sent := by simp [start]

theorem range_succ (more : done < s.started) :
    List.range' done (s.started - done) =
      done :: List.range' (done + 1) (s.started - (done + 1)) := by
  rw [show s.started - done = (s.started - (done + 1)) + 1 by omega, List.range'_succ]

theorem Queued.responding_iff (queued : Queued response s done) :
    s.responding = true ↔ done < s.started := by
  rw [responding, queued.line]
  rcases Nat.lt_or_ge done s.started with more | none
  · simp [range_succ more, more]
  · have empty : s.started - done = 0 := by omega
    simp only [empty, List.range'_zero, List.map_nil, List.nil_append, asked]
    cases s.handle <;> simp <;> omega

theorem Queued.line_eq_nil (queued : Queued response s done) (quiet : s.asked = []) :
    s.line = [] ↔ done = s.started := by
  rw [queued.line, quiet]
  have := queued.bound
  simp
  omega

theorem Queued.write (queued : Queued response s done) (fits : response.length < 2 ^ 32)
    {rc : Nat} (action : step os response s (.write rc) = some t) : Queued response t done := by
  simp only [step, provided_eq_some] at action
  obtain ⟨⟨holds, _, positive, within⟩, next⟩ := action
  have more := queued.responding_iff.mp holds
  have size := queued.size more
  have booked := Sending.book_eq within (by omega)
  rw [Tcp.Send.awaitReady, Sending.awaitReady_written positive, booked] at next
  subst next
  refine ⟨queued.bound, queued.line, queued.passed, ?_, ?_, ?_, queued.clean, ?_⟩
  · simp only [queued.wire, more, ↓reduceIte, Buffer.view, queued.data more, List.take_take,
      Nat.min_eq_left within, List.append_assoc, List.take_add]
  · intro _
    simp [queued.data more]
  · intro _
    simp only
    omega
  · simp

theorem Queued.block (queued : Queued response s done) {errno : Errno}
    (action : step os response s (.block errno) = some t) : Queued response t done := by
  simp only [step, provided_eq_some] at action
  obtain ⟨⟨_, unsent, transient⟩, next⟩ := action
  rw [Tcp.Send.awaitReady, Sending.awaitReady_blocked transient] at next
  subst next
  have same : { s with sent := decide (some false = some true) } = s := by
    cases s
    simp_all
  simpa only [same] using queued

theorem Queued.lock (queued : Queued response s done) (reading : s.handle = .receiving) :
    Queued response (request os response { s with handle := .locking } .handle) done := by
  have quiet : s.asked = [] := by simp [asked, reading]
  have line := queued.line
  rw [quiet, List.append_nil] at line
  by_cases empty : s.line = []
  · have last := (queued.line_eq_nil quiet).mp empty
    have granted : request os response { s with handle := .locking } .handle =
        { s with line := [.handle], handle := .finished } := by
      simp [request, grant, empty]
    rw [granted]
    exact ⟨queued.bound, by simp [asked, last], by simp, queued.wire, queued.data, queued.size,
      queued.clean, queued.sent⟩
  · have more : done < s.started :=
      Nat.lt_of_le_of_ne queued.bound fun last => empty ((queued.line_eq_nil quiet).mpr last)
    have waiting : request os response { s with handle := .locking } .handle =
        { s with line := s.line ++ [.handle], handle := .locking } := by
      simp [request, empty]
    rw [waiting]
    refine ⟨queued.bound, by simp [asked, line], ?_, queued.wire, queued.data, queued.size,
      queued.clean, queued.sent⟩
    simp [line, range_succ more]

theorem Queued.respond (queued : Queued response s done) (quiet : s.asked = [])
    (nonempty : 0 < response.length) (fits : response.length < 2 ^ 32) :
    Queued response (respond os response s) done := by
  have line := queued.line
  rw [quiet, List.append_nil] at line
  have working : s.handle ≠ .finished := fun done => by simp [asked, done] at quiet
  have bound := queued.bound
  by_cases empty : s.line = []
  · have last := (queued.line_eq_nil quiet).mp empty
    have granted : State.respond os response s =
        { s with
          started := s.started + 1
          line := [.responder s.started]
          sending := { buffer := { size := response.length } }
          sent := false } := by
      simp [State.respond, request, grant, empty, Sending.make_eq fits]
    have wire := queued.wire
    rw [granted]
    refine ⟨Nat.le_succ_of_le bound, ?_, ?_, ?_, fun _ => rfl, fun _ => by simp, rfl, ?_⟩
    · simp only [asked] at quiet ⊢
      simp [quiet, last]
    · simp [working]
    · simp [wire, last]
    · intro _
      simp only [Bool.false_eq_true, false_iff]
      omega
  · have more : done < s.started :=
      Nat.lt_of_le_of_ne bound fun last => empty ((queued.line_eq_nil quiet).mpr last)
    have waiting : State.respond os response s =
        { s with started := s.started + 1, line := s.line ++ [.responder s.started] } := by
      simp [State.respond, request, empty]
    have passed := queued.passed
    have wire := queued.wire
    rw [waiting]
    refine ⟨Nat.le_succ_of_le bound, ?_, ?_, ?_, fun _ => queued.data more,
      fun _ => queued.size more, queued.clean, fun _ => queued.sent more⟩
    · have last : s.started + 1 - done = (s.started - done) + 1 := by omega
      simp only [asked] at quiet ⊢
      simp only [line, quiet, last, List.range'_1_concat, List.map_append, List.append_nil]
      simp [Nat.add_sub_cancel' bound]
    · simp [working, line, range_succ more]
    · simp [wire, more, Nat.lt_succ_of_lt more]

theorem Queued.unlock (queued : Queued response s done) (nonempty : 0 < response.length)
    (fits : response.length < 2 ^ 32) (action : step os response s .unlock = some t) :
    Queued response t (done + 1) := by
  simp only [step, provided_eq_some] at action
  obtain ⟨⟨holds, complete⟩, next⟩ := action
  have more := queued.responding_iff.mp holds
  have all : s.sending.size = response.length := by
    have left := (queued.sent more).mp complete
    have size := queued.size more
    omega
  have written : s.wire = (List.replicate (done + 1) response).flatten := by
    rw [queued.wire, if_pos more, all, List.take_length, List.replicate_succ', List.flatten_concat]
  have tail : s.line.tail =
      (List.range' (done + 1) (s.started - (done + 1))).map .responder ++ s.asked := by
    rw [queued.line, range_succ more]
    rfl
  have working : s.handle ≠ .finished := by
    rw [Ne, queued.passed, queued.line, range_succ more]
    simp
  rw [← next, release]
  rcases Nat.lt_or_ge (done + 1) s.started with another | last
  · have granted : grant os response { s with line := s.line.tail } =
        { s with
          line := s.line.tail
          sending := { buffer := { size := response.length } }
          sent := false } := by
      simp [grant, tail, range_succ another, Sending.make_eq fits]
    rw [granted]
    refine ⟨more, tail, ?_, by simp [written], fun _ => rfl, fun _ => by simp, rfl, ?_⟩
    · simp [working, tail, range_succ another]
    · intro _
      simp only [Bool.false_eq_true, false_iff]
      omega
  · have empty : s.started - (done + 1) = 0 := by omega
    have none : ¬ done + 1 < s.started := by omega
    rw [empty, List.range'_zero, List.map_nil, List.nil_append] at tail
    by_cases waiting : s.handle = .locking
    · have granted : grant os response { s with line := s.line.tail } =
          { s with line := [.handle], handle := .finished } := by
        simp [grant, tail, asked, waiting]
      rw [granted]
      exact ⟨more, by simp [asked, empty], by simp, by simp [written, none], by simp [none],
        by simp [none], queued.clean, by simp [none]⟩
    · have quiet : s.asked = [] := by
        cases place : s.handle <;> simp_all [asked]
      have granted : grant os response { s with line := s.line.tail } = { s with line := [] } := by
        simp [grant, tail, quiet]
      rw [granted]
      refine ⟨more, ?_, by simp [working], by simp [written, none], by simp [none], by simp [none],
        queued.clean, by simp [none]⟩
      rw [empty]
      exact quiet.symm

/-! ## The scanner and the responders it starts -/

theorem start_scanned : Scanned start := ⟨[], rfl, rfl⟩

theorem Scanned.grant (scanned : Scanned s)
    (idle : s.line.head? = some .handle → s.pending = []) : Scanned (grant os response s) := by
  obtain ⟨handled, received, count⟩ := scanned
  refine ⟨handled, ?_, ?_⟩
  · cases line : s.line with
    | nil => simpa [State.grant, line] using received
    | cons client rest =>
        cases client with
        | responder i => simpa [State.grant, line, pending] using received
        | handle =>
            rw [idle (by simp [line]), List.append_nil] at received
            simpa [State.grant, line, pending] using received
  · cases line : s.line with
    | nil => simpa [State.grant, line] using count
    | cons client rest => cases client <;> simpa [State.grant, line] using count

theorem Scanned.request (scanned : Scanned s) {client : Client}
    (idle : client = .handle → s.pending = []) : Scanned (request os response s client) := by
  have joined : Scanned { s with line := s.line ++ [client] } := scanned
  simp only [State.request]
  split
  · rename_i empty
    exact joined.grant fun first => idle (by simpa [empty] using first)
  · exact joined

theorem Scanned.scan (scanned : Scanned s) (action : step os response s .scan = some t) :
    Scanned t := by
  obtain ⟨handled, received, count⟩ := scanned
  simp only [step] at action
  split at action
  · rename_i c rest place
    have whole : s.received = (handled ++ [c]) ++ (match next rest with
        | .scanning rest => rest
        | _ => []) := by
      rw [received, pending, place]
      cases rest <;> simp [next]
    have counted : State.Scanned { s with
        newline := (scanByte s.newline c).1
        handle := next rest
        started := s.started + (scanByte s.newline c).2.toNat } :=
      ⟨handled ++ [c], whole, by simp [scan_append, scan_cons, count]⟩
    cases responds : (scanByte s.newline c).2 with
    | false =>
        simp only [responds, Bool.false_eq_true, ↓reduceIte, Option.some.injEq] at action
        subst action
        simpa [responds] using counted
    | true =>
        simp only [responds, ↓reduceIte, Option.some.injEq] at action
        subst action
        rw [responds] at counted
        exact counted.request nofun
  · cases action

/-! ## Runs of the handler -/

def Serving (response : List Byte) (s : State) : Prop :=
  (∃ done, Queued response s done) ∧ Scanned s

theorem recv_size (os : Os) (n : Nat) :
    (Tcp.Recv.awaitReady os (.make os 1024) (.ok n)).1.buffer.size = n := rfl

theorem serving_step (nonempty : 0 < response.length) (fits : response.length < 2 ^ 32)
    (s : State) (a : Action) (t : State) (serving : Serving response s)
    (action : step os response s a = some t) : Serving response t := by
  obtain ⟨⟨done, queued⟩, scanned⟩ := serving
  cases a with
  | recv chunk =>
      simp only [step, provided_eq_some, recv_size, List.take_length] at action
      obtain ⟨⟨reading, _⟩, received⟩ := action
      have empty : s.pending = [] := by simp [pending, reading]
      split at received
      · subst received
        refine ⟨⟨done, queued.lock reading⟩, ?_⟩
        have asking : Scanned { s with handle := .locking } := by
          simpa [Scanned, pending, reading] using scanned
        exact asking.request fun _ => rfl
      · subst received
        have quiet : s.asked = [] := by simp [asked, reading]
        obtain ⟨handled, before, count⟩ := scanned
        rw [empty, List.append_nil] at before
        refine ⟨⟨done, ?_⟩, handled, ?_, count⟩
        · refine ⟨queued.bound, ?_, ?_, queued.wire, queued.data, queued.size, queued.clean,
            queued.sent⟩
          · simpa [asked, reading] using queued.line
          · simpa [reading] using queued.passed
        · simp [pending, before]
  | scan =>
      refine ⟨⟨done, ?_⟩, scanned.scan action⟩
      simp only [step] at action
      split at action
      · rename_i c rest place
        have moved : Queued response
            { s with newline := (scanByte s.newline c).1, handle := next rest } done := by
          have away : ∀ rest : List Byte, next rest ≠ .finished ∧ next rest ≠ .locking := by
            intro rest
            cases rest <;> simp [next]
          refine ⟨queued.bound, ?_, ?_, queued.wire, queued.data, queued.size, queued.clean,
            queued.sent⟩
          · have line := queued.line
            simp only [asked, place] at line ⊢
            cases rest <;> simpa [next] using line
          · simpa [place, away rest] using queued.passed
        have quiet : State.asked
            { s with newline := (scanByte s.newline c).1, handle := next rest } = [] := by
          cases rest <;> rfl
        split at action <;> cases action
        · exact moved.respond quiet nonempty fits
        · exact moved
      · cases action
  | write rc =>
      have moved := queued.write fits action
      simp only [step, provided_eq_some] at action
      obtain ⟨_, rfl⟩ := action
      exact ⟨⟨done, moved⟩, scanned⟩
  | block errno =>
      have moved := queued.block action
      simp only [step, provided_eq_some] at action
      obtain ⟨_, rfl⟩ := action
      exact ⟨⟨done, moved⟩, scanned⟩
  | unlock =>
      have moved := queued.unlock nonempty fits action
      simp only [step, provided_eq_some] at action
      obtain ⟨⟨holds, _⟩, rfl⟩ := action
      refine ⟨⟨done + 1, moved⟩, ?_⟩
      have left : Scanned { s with line := s.line.tail } := scanned
      apply left.grant
      intro first
      have more := queued.responding_iff.mp holds
      have tail := queued.line
      rw [range_succ more] at tail
      cases place : s.handle <;> simp_all [asked, pending]

theorem reachable_serving (nonempty : 0 < response.length) (fits : response.length < 2 ^ 32)
    (reached : Reachable (step os response) start s) : Serving response s :=
  reached.invariant ⟨⟨0, start_queued⟩, start_scanned⟩
    fun s a t serving _ action => serving_step nonempty fits s a t serving action

theorem started_le (scanned : Scanned s) : s.started ≤ requests s.received := by
  obtain ⟨handled, received, count⟩ := scanned
  rw [← scan_requests, received, scan_append, count]
  exact Nat.le_add_right _ _

theorem started_eq (scanned : Scanned s) (empty : s.pending = []) :
    s.started = requests s.received := by
  obtain ⟨handled, received, count⟩ := scanned
  rw [← scan_requests, received, empty, List.append_nil, count]

theorem wire_begins (serving : Serving response s) :
    s.wire <+: (List.replicate (requests s.received) response).flatten := by
  obtain ⟨⟨done, queued⟩, scanned⟩ := serving
  have enough := started_le scanned
  have bound := queued.bound
  obtain ⟨rest, copies⟩ : ∃ rest, requests s.received = done + rest :=
    ⟨requests s.received - done, by omega⟩
  rw [queued.wire, copies, List.replicate_add, List.flatten_append]
  apply (List.prefix_append_right_inj _).mpr
  split
  · obtain ⟨rest, rfl⟩ : ∃ n, rest = n + 1 := ⟨rest - 1, by omega⟩
    rw [List.replicate_succ, List.flatten_cons]
    exact (List.take_prefix _ _).trans (List.prefix_append _ _)
  · exact List.nil_prefix

theorem wire_finished (serving : Serving response s) (finished : s.handle = .finished) :
    s.wire = (List.replicate (requests s.received) response).flatten := by
  obtain ⟨⟨done, queued⟩, scanned⟩ := serving
  have all : ¬ done < s.started := by
    intro more
    have first := queued.passed.mp finished
    simp [queued.line, range_succ more] at first
  have count := started_eq scanned (by simp [pending, finished])
  have bound := queued.bound
  rw [queued.wire, if_neg all, List.append_nil, ← count,
    show done = s.started by omega]

theorem Queued.completes (os : Os) (queued : Queued response s done) (more : done < s.started)
    (fits : response.length < 2 ^ 32) :
    ∃ t, Reachable (step os response) s t ∧ Queued response t done ∧ t.sent = true ∧
      t.started = s.started ∧ t.handle = s.handle ∧ t.received = s.received := by
  cases sent : s.sent with
  | true => exact ⟨s, .refl, queued, sent, rfl, rfl, rfl⟩
  | false =>
      have holds := queued.responding_iff.mpr more
      have left : 0 < s.sending.buffer.size := by
        apply Nat.pos_of_ne_zero
        intro empty
        simp [(queued.sent more).mpr empty] at sent
      obtain ⟨t, action⟩ : ∃ t, step os response s (.write s.sending.buffer.size) = some t :=
        ⟨_, provided_eq_some.mpr ⟨⟨holds, sent, left, Nat.le_refl _⟩, rfl⟩⟩
      have moved := queued.write fits action
      have size := queued.size more
      have next := (provided_eq_some.mp action).2
      have drained : t.sending.buffer.size = 0 := by
        rw [← next, Tcp.Send.awaitReady, Sending.awaitReady_written left,
          Sending.book_eq (Nat.le_refl _) (by omega)]
        exact Nat.sub_self _
      have same : t.started = s.started ∧ t.handle = s.handle ∧ t.received = s.received := by
        rw [← next]
        exact ⟨rfl, rfl, rfl⟩
      exact ⟨t, .single trivial action, moved, (moved.sent (same.1 ▸ more)).mpr drained, same⟩

theorem grant_keeps (os : Os) (response : List Byte) (s : State) :
    (grant os response s).started = s.started ∧ (grant os response s).received = s.received ∧
      ((grant os response s).handle = s.handle ∨ (grant os response s).handle = .finished) := by
  cases line : s.line with
  | nil => simp [grant, line]
  | cons client rest => cases client <;> simp [grant, line]

theorem Queued.finishes (nonempty : 0 < response.length) (fits : response.length < 2 ^ 32)
    (queued : Queued response s done) (waiting : s.handle = .locking) :
    ∃ t, Reachable (step os response) s t ∧ t.handle = .finished ∧ t.received = s.received := by
  -- On the number of responders left: the next one completes its `send` and hands the mutex on.
  induction rest : s.started - done generalizing s done with
  | zero =>
      have first : s.line.head? = some .handle := by
        simp [queued.line, rest, asked, waiting]
      have passed := queued.passed.mpr first
      simp [waiting] at passed
  | succ n ih =>
      have more : done < s.started := by omega
      obtain ⟨u, reached, queued, sent, started, handle, received⟩ :=
        queued.completes os more fits
      have holds := queued.responding_iff.mpr (started ▸ more)
      have action : step os response u .unlock = some (release os response u) :=
        provided_eq_some.mpr ⟨⟨holds, sent⟩, rfl⟩
      have moved := queued.unlock nonempty fits action
      have after := reached.tail trivial action
      obtain ⟨sameStarted, sameReceived, place⟩ :=
        grant_keeps os response { u with line := u.line.tail }
      rcases place with kept | finished
      · obtain ⟨t, last, finished, same⟩ := ih moved (kept.trans (handle.trans waiting)) (by
          change (grant os response { u with line := u.line.tail }).started - (done + 1) = n
          rw [sameStarted, started]
          omega)
        exact ⟨t, after.trans last, finished, same.trans (sameReceived.trans received)⟩
      · exact ⟨_, after, finished, sameReceived.trans received⟩

theorem gResponse_length : gResponse.length = 158 := by decide +kernel

/-- Whatever the stream, its cutting and the order of writes: the client is sent whole responses
one after the other, one for each request, and all of them before `handle` passes its final
lock. -/
theorem handle_serves (os : Os) (s : State) (reached : Reachable (step os gResponse) start s) :
    s.wire <+: (List.replicate (requests s.received) gResponse).flatten ∧
      (s.handle = .finished →
        s.wire = (List.replicate (requests s.received) gResponse).flatten) ∧
      (s.handle = .locking →
        ∃ t, Reachable (step os gResponse) s t ∧ t.handle = .finished ∧
          t.received = s.received) := by
  have nonempty : 0 < gResponse.length := by simp [gResponse_length]
  have fits : gResponse.length < 2 ^ 32 := by simp [gResponse_length]
  have serving := reachable_serving nonempty fits reached
  obtain ⟨⟨done, queued⟩, _⟩ := id serving
  exact ⟨wire_begins serving, wire_finished serving, queued.finishes nonempty fits⟩

def twoWrites : List Action :=
  [.recv [13, 10, 13], .scan, .scan, .scan, .recv [10], .scan, .write 100, .block 11,
    .recv [], .write 58, .unlock]

theorem handle_serves_two_writes :
    ∃ s, exec (step .linux gResponse) start twoWrites = some s ∧
      s.wire = (List.replicate (requests s.received) gResponse).flatten := by
  have last : (exec (step .linux gResponse) start twoWrites).map handle = some .finished := by
    decide +kernel
  obtain ⟨s, run, finished⟩ := Option.map_eq_some_iff.mp last
  exact ⟨s, run, (handle_serves .linux s (exec_reachable run)).2.1 finished⟩

end State

end Ice.Http
