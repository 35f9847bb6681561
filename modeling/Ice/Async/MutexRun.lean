import Ice.Async.MutexLine
import Mathlib.Data.List.Count
import Mathlib.Data.Option.Basic

namespace Ice.Async.Mutex
open Transition

variable {T O : Type} {s t : Mutex T O} {u v : T} {op : O} {stack queue : List O}
  {client : Option (Client O)} {holder : Client O} {line : List (Client O)} {next : O → Option O}
  {actions : List (Action T O)}

theorem start_serves (next : O → Option O) : Serves ({ next } : Mutex T O) [] := by
  refine ⟨[], [], none, .free rfl rfl rfl fun _ => rfl, ?_, rfl, rfl⟩
  constructor <;> simp [Mutex.waiting, Pc.joins]

variable [DecidableEq T] [DecidableEq O]

theorem reachable_lined (reached : Reachable step ({ next } : Mutex T O) s) :
    ∃ stack queue client line, Lined s stack queue client line := by
  obtain ⟨line, _, stack, queue, client, lined⟩ := serves_step.reaches (start_serves next) reached
  exact ⟨stack, queue, client, line, lined⟩

theorem asked_step {action : Action T O} (taken : step s action = some t) :
    t.asked = s.asked ++ Line.asked (shows s action) := by
  cases action with
  | construct op next =>
      obtain ⟨_, rfl⟩ := provided_eq_some.mp taken
      exact (List.append_nil _).symm
  | tryLock u =>
      obtain ⟨_, rfl⟩ := provided_eq_some.mp taken
      cases word : s.word <;> simp [shows, word, tryLock, ask, grant, Line.asked]
  | lockAsync u op =>
      obtain ⟨_, rfl⟩ := provided_eq_some.mp taken
      exact (List.append_nil _).symm
  | unlock u holder =>
      obtain ⟨_, rfl⟩ := provided_eq_some.mp taken
      exact (List.append_nil _).symm
  | advance u spurious =>
      obtain ⟨_, rfl⟩ := provided_eq_some.mp taken
      cases place : s.pc u with
      | joining op oldState =>
          cases oldState with
          | notLocked =>
              simp only [shows, place, advance, acquire]
              split <;> simp [ask, grant, setLive, setPc, Line.asked]
          | locked waiter => simp [shows, place, advance, setNext, setPc, Line.asked]
      | linked op oldState =>
          simp only [shows, place, advance, push]
          split <;> simp [ask, setPc, Line.asked]
      | unlocking holder =>
          cases waiters : s.waiters <;>
            simp [shows, place, advance, waiters, setPc, Line.asked]
      | releasing holder =>
          simp only [shows, place, advance]
          split <;> simp [setPc, Line.asked]
      | exchanging holder =>
          simp only [shows, place, advance]
          split <;> simp [setPc, Line.asked]
      | relinking holder op temp waitersHead =>
          cases temp <;> simp [shows, place, advance, setNext, setPc, Line.asked]
      | _ => simp [shows, place, advance, setPc, setLive, grant, Line.asked]

theorem asked_run (run : exec step s actions = some t) :
    t.asked = s.asked ++ Line.asked (trace step shows s actions) := by
  induction actions generalizing s with
  | nil =>
      cases run
      exact (List.append_nil _).symm
  | cons action actions ih =>
      obtain ⟨r, taken, rest⟩ := exec_cons.mp run
      rw [ih rest, asked_step taken, trace, taken, Line.asked_append, List.append_assoc]

omit [DecidableEq T] [DecidableEq O] in
theorem Lined.line_cases (lined : Lined s stack queue client line) :
    (line = [] ∧ s.asked = s.granted) ∨
      ∃ holder, client = some holder ∧ line = holder :: (waiting stack queue).map some := by
  have front := lined.line
  cases lined.turn with
  | free => exact .inl ⟨front, by simpa [waiting] using lined.served⟩
  | held => exact .inr ⟨_, rfl, front⟩
  | leaving => exact .inr ⟨_, rfl, front⟩

/-- Every run is one of a lock that is served in order: who has asked for the mutex first gets it
first. -/
theorem run_is_line (run : exec step ({ next } : Mutex T O) actions = some s) :
    ∃ line, exec Line.step [] (trace step shows { next } actions) = some line ∧
      s.asked = Line.asked (trace step shows { next } actions) ∧
      s.granted = Line.holders [] (trace step shows { next } actions) := by
  obtain ⟨line, spec, stack, queue, client, lined⟩ := serves_step.run (start_serves next) run
  have asked : s.asked = Line.asked (trace step shows { next } actions) := by
    simpa using asked_run run
  have left := Line.run_eq spec
  refine ⟨line, spec, asked, ?_⟩
  rw [Line.holders_eq spec, List.nil_append, ← asked]
  rw [List.nil_append, ← asked] at left
  rcases lined.line_cases with ⟨rfl, all⟩ | ⟨holder, _, rfl⟩
  · have passed := List.drop_eq_nil_iff.mp left.symm
    rw [List.take_of_length_le (by omega), all]
  · have size := congrArg List.length left
    have total := congrArg List.length lined.served
    simp only [List.length_cons, List.length_map, List.length_drop, List.length_append]
      at size total
    have here : Line.leaves (trace step shows { next } actions) + 1 = s.granted.length := by omega
    rw [here, lined.served, List.take_left]

def passing : List (Action Bool Nat) :=
  [.tryLock false, .lockAsync true 7, .advance true false, .advance true false,
    .unlock false none] ++ List.replicate 7 (.advance false false)

def passed (n : Nat) : Mutex Bool Nat :=
  (exec step { next := fun _ => none } (passing.take n)).getD { next := fun _ => none }

theorem passed_reachable (n : Nat) : Reachable step { next := fun _ => none } (passed n) := by
  unfold passed
  cases run : exec step { next := fun _ => none } (passing.take n) with
  | none => exact .refl
  | some s => exact exec_reachable run

theorem run_is_line_passing : (passed 12).granted = [none, some 7] ∧
    ∃ line, exec Line.step [] (trace step shows { next := fun _ => none } passing) = some line ∧
      (passed 12).asked = Line.asked (trace step shows { next := fun _ => none } passing) ∧
      (passed 12).granted = Line.holders [] (trace step shows { next := fun _ => none } passing) :=
  ⟨rfl, run_is_line rfl⟩

theorem mutex_excludes (reached : Reachable step ({ next } : Mutex T O) s) :
    s.owners.length ≤ 1 ∧ (∀ t, s.pc t ≠ .aborted) ∧
      (∀ t, (s.pc t).leaves ≠ none → s.owners = [] ∧ ∀ u, u ≠ t → (s.pc u).leaves = none) ∧
      (s.word = .notLocked ↔ s.owners = [] ∧ ∀ t, (s.pc t).leaves = none) := by
  obtain ⟨stack, queue, client, line, lined⟩ := reachable_lined reached
  have sound := lined.ops.sound
  cases lined.turn with
  | free word empty owners outside =>
      refine ⟨by simp [owners], sound, fun t leaves => absurd (outside t) leaves, ?_⟩
      simp [word, owners, outside]
  | held pushed queued owners outside =>
      obtain ⟨top, word, _⟩ := pushed
      refine ⟨by simp [owners], sound, fun t leaves => absurd (outside t) leaves, ?_⟩
      simp [word, owners]
  | @leaving u _ _ holder leaving =>
      obtain ⟨⟨top, word, _⟩, handing, owners, others⟩ := leaving
      have here : (s.pc u).leaves = some holder := handing.leaves
      refine ⟨by simp [owners], sound, fun t leaves => ⟨owners, fun v apart => ?_⟩, ?_⟩
      · have same : t = u := by
          by_contra other
          exact leaves (others t other)
        exact others v (same ▸ apart)
      · have busy : ¬ ∀ t, (s.pc t).leaves = none := fun outside => by
          cases here.symm.trans (outside u)
        simp [word, busy]

theorem mutex_excludes_passing : ((passed 6).pc false).leaves = some none ∧
    (passed 6).owners = [] ∧ ∀ u, u ≠ false → ((passed 6).pc u).leaves = none :=
  ⟨rfl, (mutex_excludes (passed_reachable 6)).2.2.1 false (Option.some_ne_none none)⟩

def touches : Pc O → Option O
  | .joining op _ | .linked op _ => some op
  | .reversing _ next _ | .relinking _ next _ _ => some next
  | .popping _ waitersHead | .resuming _ waitersHead => some waitersHead
  | _ => none

omit [DecidableEq T] [DecidableEq O] in
theorem touches_joins {pc : Pc O} (touched : touches pc = some op) :
    pc.joins = some op ∨ ∃ holder, pc.leaves = some holder := by
  cases pc with
  | joining | linked => exact .inl touched
  | reversing | relinking | popping | resuming => exact .inr ⟨_, rfl⟩
  | _ => cases touched

omit [DecidableEq T] [DecidableEq O] in
theorem touches_queued {pc : Pc O} {waiters : Option O}
    (handing : Handing next waiters stack holder pc queue) (touched : touches pc = some op) :
    op ∈ queue := by
  cases handing with
  | unlocking | releasing | exchanging => cases touched
  | reversing empty left turned =>
      cases touched
      obtain ⟨rest, rfl, _⟩ := left.head
      simp
  | relinking empty left turned =>
      cases touched
      simp
  | popping queued =>
      cases touched
      obtain ⟨rest, rfl, _⟩ := queued.head
      simp
  | resuming queued =>
      cases touched
      simp

theorem touches_live (reached : Reachable step ({ next } : Mutex T O) s)
    (touched : touches (s.pc u) = some op) : s.live op = true := by
  obtain ⟨stack, queue, client, line, lined⟩ := reachable_lined reached
  rcases touches_joins touched with joins | ⟨holder, leaves⟩
  · exact (lined.ops.joining u op joins).1
  · have queued := touches_queued (lined.leaves leaves).1.handing touched
    exact lined.ops.live op (mem_waiting.mpr (.inl queued))

theorem touches_live_passing : touches ((passed 8).pc false) = some 7 ∧ (passed 8).live 7 = true :=
  ⟨rfl, touches_live (u := false) (passed_reachable 8) rfl⟩

def Waits (s : Mutex T O) (op : O) : Prop :=
  s.live op = true ∧ ∀ t, (s.pc t).joins ≠ some op

omit [DecidableEq T] [DecidableEq O] in
theorem Ops.waits_iff {waiting : List O} (ops : Ops s waiting) : Waits s op ↔ op ∈ waiting := by
  refine ⟨fun ⟨live, outside⟩ => ?_, fun member => ⟨ops.live op member, fun t joins => ?_⟩⟩
  · exact (ops.kept op live).resolve_right fun ⟨t, joins⟩ => outside t joins
  · exact (ops.joining t op joins).2 member

theorem operation_granted (reached : Reachable step ({ next } : Mutex T O) s) (op : O) :
    (¬ Waits s op → s.asked.count (some op) = s.granted.count (some op)) ∧
      (Waits s op → s.asked.count (some op) = s.granted.count (some op) + 1 ∧
        (s.owners ≠ [] ∨ ∃ t, (s.pc t).leaves ≠ none)) := by
  obtain ⟨stack, queue, client, line, lined⟩ := reachable_lined reached
  have total : s.asked.count (some op) =
      s.granted.count (some op) + (waiting stack queue).count op := by
    rw [lined.served, List.count_append,
      List.count_map_of_injective _ _ (Option.some_injective O)]
  rw [lined.ops.waits_iff]
  refine ⟨fun absent => ?_, fun member => ⟨?_, ?_⟩⟩
  · rw [total, List.count_eq_zero_of_not_mem absent, Nat.add_zero]
  · rw [total, List.count_eq_one_of_mem lined.ops.nodup member]
  · cases lined.turn with
    | free => cases member
    | held pushed queued owners => exact .inl (by simp [owners])
    | @leaving u _ _ holder leaving =>
        refine .inr ⟨u, ?_⟩
        rw [leaving.handing.leaves]
        exact Option.some_ne_none holder

theorem operation_granted_passing :
    (passed 4).asked.count (some 7) = (passed 4).granted.count (some 7) + 1 ∧
      ((passed 4).owners ≠ [] ∨ ∃ t, ((passed 4).pc t).leaves ≠ none) := by
  refine (operation_granted (passed_reachable 4) 7).2 ⟨rfl, fun t joins => ?_⟩
  cases t <;> cases joins

theorem destructor_asserts_iff (reached : Reachable step ({ next } : Mutex T O) s)
    (outside : ∀ t, s.pc t = .outside) :
    ((s.word = .notLocked ∨ s.word = .lockedNoWaiters) ∧ s.waiters = none) ↔
      ∀ op, s.live op = false := by
  obtain ⟨stack, queue, client, line, lined⟩ := reachable_lined reached
  have live : ∀ op, s.live op = true ↔ op ∈ waiting stack queue := fun op => by
    rw [← lined.ops.waits_iff]
    simp [Waits, outside, Pc.joins]
  have idle : (∀ op, s.live op = false) ↔ waiting stack queue = [] := by
    simp [List.eq_nil_iff_forall_not_mem, ← live]
  rw [idle]
  cases lined.turn with
  | free word empty => simp [word, empty, waiting]
  | held pushed queued =>
      obtain ⟨top, word, pushed⟩ := pushed
      rw [word]
      cases stack <;> cases queue <;> simp_all [waiting, Word.lockedNoWaiters]
  | @leaving u _ _ holder leaving =>
      have leaves := leaving.handing.leaves
      rw [outside u] at leaves
      cases leaves

theorem destructor_asserts_iff_passing :
    (((passed 12).word = .notLocked ∨ (passed 12).word = .lockedNoWaiters) ∧
      (passed 12).waiters = none) ↔ ∀ op, (passed 12).live op = false :=
  destructor_asserts_iff (passed_reachable 12) fun t => by cases t <;> rfl

inductive Due (s : Mutex T O) : Pc O → Nat → Prop where
  | unlocking {client : Client O} {top : Option O} {stack : List O} {n : Nat}
      (word : s.word = .locked top) (pushed : Linked s.next top stack)
      (size : 2 * stack.length + 5 ≤ n) : Due s (.unlocking client) n
  | releasing {client : Client O} {top : Option O} {stack : List O} {n : Nat}
      (word : s.word = .locked top) (pushed : Linked s.next top stack)
      (size : 2 * stack.length + 4 ≤ n) : Due s (.releasing client) n
  | exchanging {client : Client O} {top : Option O} {stack : List O} {n : Nat}
      (word : s.word = .locked top) (pushed : Linked s.next top stack)
      (size : 2 * stack.length + 3 ≤ n) : Due s (.exchanging client) n
  | reversing {client : Client O} {op : O} {waitersHead : Option O} {rest : List O} {n : Nat}
      (left : Linked s.next (some op) rest) (size : 2 * rest.length + 2 ≤ n) :
      Due s (.reversing client op waitersHead) n
  | relinking {client : Client O} {op : O} {temp waitersHead : Option O} {rest : List O} {n : Nat}
      (left : Linked s.next temp rest) (size : 2 * rest.length + 3 ≤ n) :
      Due s (.relinking client op temp waitersHead) n
  | popping {client : Client O} {op : O} {n : Nat} (size : 2 ≤ n) : Due s (.popping client op) n
  | resuming {client : Client O} {op : O} {n : Nat} (size : 1 ≤ n) : Due s (.resuming client op) n

omit [DecidableEq T] [DecidableEq O] in
theorem Leaving.due (leaving : Leaving s u stack queue holder) :
    Due s (s.pc u) (2 * (waiting stack queue).length + 5) := by
  obtain ⟨⟨top, word, pushed⟩, handing, _, _⟩ := leaving
  have size : (waiting stack queue).length = queue.length + stack.length := by simp [waiting]
  rw [size]
  generalize s.pc u = pc at handing
  cases handing with
  | unlocking queued => exact .unlocking word pushed (by omega)
  | releasing empty => exact .releasing word pushed (by omega)
  | exchanging empty nonempty => exact .exchanging word pushed (by omega)
  | reversing empty left turned =>
      exact .reversing left (by rw [List.length_append, List.length_reverse]; omega)
  | relinking empty left turned =>
      exact .relinking left (by rw [List.length_append, List.length_reverse]; omega)
  | popping queued => exact .popping (by omega)
  | resuming queued => exact .resuming (by omega)

theorem advance_pc_of_ne (apart : v ≠ u) (spurious : Bool) (pc : Pc O) :
    (s.advance u spurious pc).pc v = s.pc v := by
  have stays : ∀ (r : Mutex T O) (pc : Pc O), (r.setPc u pc).pc v = r.pc v := by grind
  cases pc with
  | joining op oldState =>
      cases oldState with
      | notLocked =>
          simp only [advance, acquire]
          split
          · rw [stays]
            rfl
          · exact stays _ _
      | locked waiter => exact stays _ _
  | linked op oldState =>
      simp only [advance, push]
      split
      · rw [stays]
        rfl
      · exact stays _ _
  | relinking client op temp waitersHead => cases temp <;> exact stays _ _
  | outside | aborted => rfl
  | reversing | popping | resuming => exact stays _ _
  | _ =>
      simp only [advance]
      split <;> rw [stays]

omit [DecidableEq T] [DecidableEq O] in
theorem Due.leaves {pc : Pc O} {n : Nat} (due : Due s pc n) :
    0 < n ∧ ∃ holder, pc.leaves = some holder := by
  cases due <;> exact ⟨by omega, _, rfl⟩

theorem Lined.leave_step {n : Nat} (lined : Lined s stack queue client line)
    (due : Due s (s.pc u) n) :
    (shows s (.advance u false) = [.leave] ∧ (s.advance u false (s.pc u)).pc u = .outside) ∨
      (shows s (.advance u false) = [] ∧
        ∃ m < n, Due (s.advance u false (s.pc u)) ((s.advance u false (s.pc u)).pc u) m) := by
  have here : ∀ (r : Mutex T O) (pc : Pc O), (r.setPc u pc).pc u = pc := by grind
  obtain ⟨_, holder, leaves⟩ := due.leaves
  obtain ⟨⟨⟨top, locked, joined⟩, handing, _, _⟩, _, _⟩ := lined.leaves leaves
  have nodup := lined.ops.nodup
  generalize place : s.pc u = pc at due handing
  simp only [shows, place]
  cases due with
  | unlocking word pushed size =>
      refine .inr ⟨rfl, n - 1, by omega, ?_⟩
      simp only [advance]
      split
      · rw [here]
        exact .releasing word pushed (by omega)
      · rw [here]
        exact .popping (by omega)
  | releasing word pushed size =>
      simp only [advance]
      split
      · exact .inl ⟨rfl, here _ _⟩
      · refine .inr ⟨rfl, n - 1, by omega, ?_⟩
        rw [here]
        exact .exchanging word pushed (by omega)
  | exchanging word pushed size =>
      cases handing with
      | exchanging empty nonempty =>
          cases locked.symm.trans word
          cases pushed.unique joined
          cases top with
          | none => exact absurd (Linked.none_iff.mp joined) nonempty
          | some op =>
              refine .inr ⟨by simp, n - 1, by omega, ?_⟩
              simp only [advance, word, here]
              exact .reversing joined (by omega)
  | reversing left size =>
      obtain ⟨rest, rfl, linked⟩ := left.head
      refine .inr ⟨rfl, n - 1, by omega, ?_⟩
      simp only [advance, here]
      exact .relinking linked (by simp only [List.length_cons] at size; omega)
  | @relinking _ op temp _ rest _ left size =>
      refine .inr ⟨rfl, n - 1, by omega, ?_⟩
      cases temp with
      | none =>
          simp only [advance, here]
          exact .popping (by omega)
      | some following =>
          cases handing with
          | @relinking _ _ _ again done empty linked turned =>
              cases left.unique linked
              have absent : op ∉ rest := by
                simp only [waiting, List.append_assoc, List.cons_append, List.nodup_append,
                  List.nodup_cons, List.mem_append, List.mem_reverse, List.mem_cons] at nodup
                grind
              simp only [advance, here]
              exact .reversing (left.update absent) (by omega)
  | popping size =>
      refine .inr ⟨rfl, n - 1, by omega, ?_⟩
      simp only [advance, here]
      exact .resuming (by omega)
  | resuming size => exact .inl ⟨rfl, here _ _⟩

theorem Serves.leave_run {n : Nat} (serves : Serves s line) (due : Due s (s.pc u) n) :
    ∃ k ≤ n, ∃ t, exec step s (List.replicate k (.advance u false)) = some t ∧ t.pc u = .outside ∧
      trace step shows s (List.replicate k (.advance u false)) = [.leave] ∧
      ∀ v, v ≠ u → t.pc v = s.pc v := by
  induction n using Nat.strongRecOn generalizing s line with
  | ind n ih =>
      have taken : step s (.advance u false) = some (s.advance u false (s.pc u)) := by
        refine provided_eq_some.mpr ⟨⟨fun place => ?_, fun place => ?_⟩, rfl⟩ <;>
          rw [place] at due <;> cases due
      have others : ∀ v, v ≠ u → (s.advance u false (s.pc u)).pc v = s.pc v := fun v apart =>
        advance_pc_of_ne apart false (s.pc u)
      obtain ⟨rest, _, next⟩ := serves_step s line _ _ serves taken
      obtain ⟨stack, queue, client, lined⟩ := serves
      have first : ∀ k, exec step s (List.replicate (k + 1) (.advance u false)) =
          exec step (s.advance u false (s.pc u)) (List.replicate k (.advance u false)) := by
        intro k
        rw [List.replicate_succ, exec, taken]
        rfl
      rcases lined.leave_step due with ⟨shown, outside⟩ | ⟨shown, m, less, due⟩
      · refine ⟨1, due.leaves.1, _, first 0, outside, ?_, others⟩
        simp [List.replicate_succ, trace, shown, taken]
      · obtain ⟨k, bound, t, run, outside, events, same⟩ := ih m less next due
        refine ⟨k + 1, by omega, t, (first k).trans run, outside, ?_, fun v apart => ?_⟩
        · rw [List.replicate_succ, trace, taken, shown]
          exact events
        · rw [same v apart, others v apart]

/-- `unlock` passes the mutex to the next operation in line, or leaves it free, in a number of steps
that is bounded by how many wait. -/
theorem unlock_passes_on (reached : Reachable step ({ next } : Mutex T O) s)
    (leaves : (s.pc u).leaves = some holder) :
    ∃ k ≤ 2 * (s.asked.length - s.granted.length) + 5, ∃ t,
      exec step s (List.replicate k (.advance u false)) = some t ∧ t.pc u = .outside ∧
      t.asked = s.asked ∧ t.granted = s.asked.take (s.granted.length + 1) ∧
      t.owners = (s.asked.drop s.granted.length).take 1 ∧
      (t.word = .notLocked ↔ s.asked = s.granted) := by
  obtain ⟨stack, queue, client, line, lined⟩ := reachable_lined reached
  obtain ⟨leaving, rfl, _⟩ := lined.leaves leaves
  have served := lined.served
  have size : (waiting stack queue).length = s.asked.length - s.granted.length := by
    simp [served]
  have serves : Serves s (holder :: (waiting stack queue).map some) := ⟨stack, queue, client, lined⟩
  obtain ⟨k, bound, t, run, outside, events, others⟩ := serves.leave_run leaving.due
  have asked : t.asked = s.asked := by
    rw [asked_run run, events]
    exact List.append_nil _
  obtain ⟨line, spec, stack', queue', client', after⟩ := serves_step.run serves run
  rw [events] at spec
  cases spec
  refine ⟨k, by omega, t, run, outside, asked, ?_⟩
  have front := after.line
  have left := after.served
  rw [asked, served] at left
  have rest : t.granted = s.granted ++ client'.toList := by
    rw [front, ← List.append_assoc] at left
    exact (List.append_cancel_right left).symm
  have more : s.asked.drop s.granted.length = (waiting stack queue).map some := by
    rw [served, List.drop_left]
  have step : s.asked.take (s.granted.length + 1) =
      s.granted ++ ((waiting stack queue).map some).take 1 := by
    rw [served, List.take_length_add_append]
  rw [rest, step, more, served]
  cases after.turn with
  | free word empty owners =>
      rw [front, owners]
      exact ⟨rfl, rfl, by simp [word, waiting]⟩
  | held pushed queued owners =>
      obtain ⟨top, word, _⟩ := pushed
      rw [front, owners]
      exact ⟨rfl, rfl, by simp [word]⟩
  | @leaving v _ _ _ again =>
      have apart : v ≠ u := by
        rintro rfl
        have busy := again.handing.leaves
        rw [outside] at busy
        cases busy
      have busy := again.handing.leaves
      rw [others v apart, leaving.others v apart] at busy
      cases busy

theorem unlock_passes_on_passing :
    ∃ k ≤ 2 * ((passed 5).asked.length - (passed 5).granted.length) + 5, ∃ t,
      exec step (passed 5) (List.replicate k (.advance false false)) = some t ∧
      t.pc false = .outside ∧ t.asked = (passed 5).asked ∧
      t.granted = (passed 5).asked.take ((passed 5).granted.length + 1) ∧
      t.owners = ((passed 5).asked.drop (passed 5).granted.length).take 1 ∧
      (t.word = .notLocked ↔ (passed 5).asked = (passed 5).granted) :=
  unlock_passes_on (passed_reachable 5) (rfl : ((passed 5).pc false).leaves = some none)

end Ice.Async.Mutex
