import Ice.Event.Lifecycle

namespace Ice.Event.Delivery
open Transition Net SocketOperation Life

variable {β : Type}

structure Wire (β : Type) where
  taken : List β := []
  zero : Bool := false
  deriving DecidableEq, Repr

abbrev SendLife (os : Os) (β : Type) := Life (posixAwaitable os .tcpSend) (Wire β)

def write (memory : List β) (wire : Wire β) (op : Sending) : Except Errno Nat → Wire β
  | .ok rc =>
      { taken := wire.taken ++ (op.buffer.view memory).take rc
        zero := wire.zero || rc == 0 && 0 < op.buffer.size }
  | .error _ => wire

def noteWrite (os : Os) (memory : List β) (wire : Wire β) (op : Sending) :
    (posixAwaitable os .tcpSend).Report → Wire β
  | .ready report => write memory wire op report
  | .resume report => write memory wire op report
  | .call _ => wire

def writes (op : Sending) : Except Errno Nat → Prop
  | .ok rc => rc ≤ op.buffer.size
  | .error _ => True

def Writes (os : Os) (s : SendLife os β) : (posixAwaitable os .tcpSend).Report → Prop
  | .ready report => writes s.members report
  | .resume report => writes s.members report
  | .call _ => True

instance decidableWrites (op : Sending) : (report : Except Errno Nat) → Decidable (writes op report)
  | .ok rc => Nat.decLe rc op.buffer.size
  | .error _ => .isTrue trivial

instance (os : Os) (s : SendLife os β) :
    (report : (posixAwaitable os .tcpSend).Report) → Decidable (Writes os s report)
  | .ready report => decidableWrites s.members report
  | .resume report => decidableWrites s.members report
  | .call _ => .isTrue trivial

structure Accounted (memory : List β) (op : Sending) (wire : Wire β) : Prop where
  taken : wire.taken = memory.take op.size
  data : op.buffer.data = op.size
  size : op.size + op.buffer.size = memory.length

theorem Accounted.write {memory : List β} {op : Sending} {wire : Wire β} {rc : Nat}
    (accounted : Accounted memory op wire) (fits : memory.length < 2 ^ 64)
    (within : rc ≤ op.buffer.size) :
    Accounted memory (op.book rc) (Delivery.write memory wire op (.ok rc)) := by
  obtain ⟨taken, data, size⟩ := accounted
  rw [Sending.book_eq within (by omega)]
  constructor
  · simp only [Delivery.write, Buffer.view, taken, data, List.take_take, Nat.min_eq_left within,
      List.take_add]
  · simp [data]
  · simp only
    omega

theorem Accounted.zero {memory : List β} {op : Sending} {wire : Wire β}
    (accounted : Accounted memory op wire) (zero : Bool) :
    Accounted memory op { wire with zero } :=
  ⟨accounted.taken, accounted.data, accounted.size⟩

theorem Accounted.record {memory : List β} {op : Sending} {wire : Wire β}
    (accounted : Accounted memory op wire) (ec : ErrorCode) :
    Accounted memory { op with ec } wire :=
  ⟨accounted.taken, accounted.data, accounted.size⟩

structure Delivering (memory : List β) (op : Sending) (wire : Wire β) (stage : Stage) : Prop where
  accounted : Accounted memory op wire
  left : stage ≠ .completed → op.buffer.size = 0 → memory = []
  finished : stage = .completed →
    op.ec.isError = true ∨ wire.zero = true ∨ op.buffer.size = 0

theorem Delivering.rejected {os : Os} {memory : List β} {op : Sending} {wire : Wire β}
    {errno : Errno} {before after : Stage} (delivering : Delivering memory op wire before)
    (working : before ≠ .completed) (nonzero : errno ≠ 0)
    (proceeds : (Tcp.Send.awaitReady os op (.error errno)).2 = some true ∧ after = .completed ∨
      (Tcp.Send.awaitReady os op (.error errno)).2 = some false ∧ after ≠ .completed) :
    Delivering memory (Tcp.Send.awaitReady os op (.error errno)).1 wire after := by
  by_cases fatal : Errno.fatal os errno
  · have recorded : Tcp.Send.awaitReady os op (.error errno) =
        ({ op with ec := .native errno }, some true) := by
      simp [Tcp.Send.awaitReady, Sending.awaitReady, fatal]
    rw [recorded] at proceeds ⊢
    constructor
    · exact delivering.accounted.record _
    · simp_all
    · exact fun _ => .inl (by simpa using nonzero)
  · have same : Tcp.Send.awaitReady os op (.error errno) = (op, some false) :=
      Sending.awaitReady_blocked (by simpa using fatal)
    rw [same] at proceeds ⊢
    have going : after ≠ .completed := by simpa using proceeds
    exact ⟨delivering.accounted, fun _ => delivering.left working, fun done => absurd done going⟩

theorem Delivering.written {os : Os} {memory : List β} {op : Sending} {wire : Wire β}
    {rc : Nat} {before after : Stage} (delivering : Delivering memory op wire before)
    (fits : memory.length < 2 ^ 64) (possible : rc ≤ op.buffer.size)
    (proceeds : (Tcp.Send.awaitReady os op (.ok rc)).2 = some true ∧ after = .completed ∨
      (Tcp.Send.awaitReady os op (.ok rc)).2 = some false ∧ after ≠ .completed) :
    Delivering memory (Tcp.Send.awaitReady os op (.ok rc)).1 (write memory wire op (.ok rc))
      after := by
  cases rc with
  | zero =>
      have done : after = .completed := by
        simpa [Tcp.Send.awaitReady, Sending.awaitReady] using proceeds
      have same : (Tcp.Send.awaitReady os op (.ok 0)).1 = op := rfl
      rw [same]
      constructor
      · simpa [write] using delivering.accounted.zero _
      · exact fun going => absurd done going
      · intro _
        right
        rcases Nat.eq_zero_or_pos op.buffer.size with none | some
        · exact .inr none
        · exact .inl (by simp [write, some])
  | succ rc =>
      have booked : Tcp.Send.awaitReady os op (.ok (rc + 1)) =
          (op.book (rc + 1), some ((op.book (rc + 1)).buffer.size == 0)) := rfl
      rw [booked] at proceeds ⊢
      simp only [Option.some.injEq, beq_iff_eq, beq_eq_false_iff_ne] at proceeds
      constructor
      · exact delivering.accounted.write fits possible
      · rcases proceeds with ⟨_, done⟩ | ⟨some, _⟩
        · exact fun going => absurd done going
        · exact fun _ none => absurd none some
      · rcases proceeds with ⟨none, _⟩ | ⟨_, going⟩
        · exact fun _ => .inr (.inr none)
        · exact fun done => absurd done going

theorem Delivering.attempt {os : Os} {memory : List β} {op : Sending} {wire : Wire β}
    {report : Except Errno Nat} {before after : Stage} (delivering : Delivering memory op wire before)
    (fits : memory.length < 2 ^ 64) (working : before ≠ .completed) (possible : writes op report)
    (nonzero : report ≠ .error 0)
    (proceeds : (Tcp.Send.awaitReady os op report).2 = some true ∧ after = .completed ∨
      (Tcp.Send.awaitReady os op report).2 = some false ∧ after ≠ .completed) :
    Delivering memory (Tcp.Send.awaitReady os op report).1 (write memory wire op report) after := by
  cases report with
  | ok rc => exact delivering.written fits possible proceeds
  | error errno => exact delivering.rejected working (fun zero => nonzero (zero ▸ rfl)) proceeds

theorem awaitReady_answers (os : Os) (op : Sending) (report : Except Errno Nat) :
    ∃ answer, (Tcp.Send.awaitReady os op report).2 = some answer := by
  cases report with
  | ok rc => cases rc <;> exact ⟨_, rfl⟩
  | error errno =>
      simp only [Tcp.Send.awaitReady, Sending.awaitReady]
      split <;> exact ⟨_, rfl⟩

abbrev Delivers {os : Os} (memory : List β) (s : SendLife os β) : Prop :=
  Delivering memory s.members s.seen s.stage

theorem Delivers.step {os : Os} {memory : List β} {s t : SendLife os β}
    {report : (posixAwaitable os .tcpSend).Report} (fits : memory.length < 2 ^ 64)
    (delivering : Delivers memory s) (possible : Writes os s report)
    (action : Life.step (noteWrite os memory) s report = some t) : Delivers memory t := by
  obtain ⟨⟨place, nonzero⟩, rfl⟩ := provided_eq_some.mp action
  have working : s.stage ≠ .completed := by
    rw [place]
    cases report <;> simp [expects]
  cases report with
  | ready report =>
      obtain ⟨answer, answers⟩ := awaitReady_answers os s.members report
      apply delivering.attempt fits working possible (fun zero => nonzero (by rw [zero]; rfl))
      have proceeds := proceed_ready (c := posixAwaitable os .tcpSend) (fun _ => rfl) answers
      cases answer <;> simp_all
  | resume report =>
      obtain ⟨answer, answers⟩ := awaitReady_answers os s.members report
      apply delivering.attempt fits working possible (fun zero => nonzero (by rw [zero]; rfl))
      have proceeds := proceed_resume (c := posixAwaitable os .tcpSend) (fun _ => rfl) answers
      cases answer <;> simp_all
  | call report =>
      cases report with
      | ok => exact ⟨delivering.accounted, fun _ => delivering.left working, fun done => by cases done⟩
      | error errno =>
          have positive : errno ≠ 0 := fun zero => nonzero (by rw [zero]; rfl)
          refine ⟨delivering.accounted.record _, fun going => absurd rfl going, fun _ => .inl ?_⟩
          show (ErrorCode.native errno).isError = true
          simpa using positive

theorem start_delivering {os : Os} (posix : os ≠ .win32) (memory : List β)
    (fits : memory.length < 2 ^ 64) :
    Delivering memory (.make os memory.length) {} .ready := by
  have bits : sizeBits os = 64 := by
    cases os
    · exact absurd rfl posix
    · rfl
    · rfl
  have made : Sending.make os memory.length = { buffer := { size := memory.length } } := by
    rw [Sending.make, Buffer.make, bits, Nat.mod_eq_of_lt fits]
  rw [made]
  constructor
  · constructor <;> simp
  · exact fun _ none => List.length_eq_zero_iff.mp none
  · exact fun done => by cases done

/-- However the kernel cuts the writes, and wherever it blocks or fails them: what it has taken is
the first part of the data, the buffer is the rest, an empty rest is written only of empty data, and
a send that completes without an error and without a write of no bytes has delivered all of it. -/
theorem posix_send_delivers (os : Os) (posix : os ≠ .win32) (memory : List β)
    (fits : memory.length < 2 ^ 64) (s : SendLife os β)
    (reached : Reaches (Life.step (noteWrite os memory)) (Writes os)
      (start (Sending.make os memory.length) {}) s) :
    Accounted memory s.members s.seen ∧
      (s.stage ≠ .completed → (s.members : Sending).buffer.size = 0 → memory = []) ∧
      (s.stage = .completed → (s.members : Sending).ec.isError = false → s.seen.zero = false →
        (s.members : Sending).size = memory.length ∧
          Sending.awaitResume s.members = .ok memory.length) := by
  have start : Delivers memory (start (Sending.make os memory.length) {} : SendLife os β) :=
    start_delivering posix memory fits
  have delivering : Delivers memory s :=
    reached.invariant start fun s report t delivering possible action =>
      Delivers.step fits delivering possible action
  refine ⟨delivering.accounted, delivering.left, fun done clean written => ?_⟩
  have size := delivering.accounted.size
  rcases delivering.finished done with failed | zero | none
  · simp [clean] at failed
  · simp [written] at zero
  · have all : (s.members : Sending).size = memory.length := by omega
    exact ⟨all, by simp [Sending.awaitResume, clean, all]⟩

theorem posix_send_delivers_in_parts :
    ∃ s : SendLife .linux Nat, s.seen.taken = [1, 2, 3] ∧
      Sending.awaitResume s.members = .ok 3 := by
  let reports : List (posixAwaitable .linux .tcpSend).Report :=
    [.ready (Except.ok 1), .call (Except.ok ()), .resume (Except.error 11), .call (Except.ok ()),
      .resume (Except.ok 2)]
  have last : (exec (Life.step (noteWrite .linux [1, 2, 3]))
      (start (Sending.make .linux 3) {} : SendLife .linux Nat) reports).map
        (fun s => (s.stage, s.seen, (s.members : Sending).ec)) =
      some (.completed, { taken := [1, 2, 3] }, .ok) := by decide
  obtain ⟨s, run, same⟩ := Option.map_eq_some_iff.mp last
  simp only [Prod.mk.injEq] at same
  obtain ⟨done, seen, clean⟩ := same
  have possible : AlwaysMeets (Life.step (noteWrite .linux [1, 2, 3])) (Writes .linux)
      (start (Sending.make .linux 3) {}) reports := by decide
  have delivers := posix_send_delivers .linux (by decide) [1, 2, 3] (by decide) s
    (possible.reaches run)
  exact ⟨s, by rw [seen], (delivers.2.2 done (by rw [clean]; rfl) (by rw [seen])).2⟩

end Ice.Event.Delivery
