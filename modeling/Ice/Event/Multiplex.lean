import Ice.Event.Continuation

namespace Ice.Event
open Transition Net

variable {W : Type}

abbrev Session (W : Type) := Epoll (fun _ : Unit => Operation.sshTransportClass) Unit W

abbrev Session.Action (W : Type) := Ice.Event.Action (fun _ : Unit => Operation.sshTransportClass)
  Unit W

namespace Session

def ec (s : Session W) : ErrorCode := Ssh.Transport.ec (s.object ()).members

/-- What `ec_` would be if each `co_await` began with it clear. -/
def dictatedEc (s : Session W) : ErrorCode := Ssh.Transport.ec (s.dictated ())

def awaiter (s : Session W) : Option W := (s.object ()).awaiter

def Suspended (s : Session W) (w : W) : Prop :=
  w ∈ s.users () ∧ s.pc () ≠ .awaitReady w () ∧ s.pc () ≠ .awaitSuspend w ()

def Reports (s : Session W) (w : W) : Prop :=
  s.pc () = .refused (some w) () ∨ (s.pc () = .wake () ∧ s.awaiter = some w)

/-- The waits of the coroutines do not disturb each other: each suspended one is the awaiter, and
its notification is at one place; each continues at most once; and the error it is told is the one
of its own wait. -/
structure Multiplexed (s : Session W) : Prop where
  awaiter : ∀ w, s.Suspended w → s.awaiter = some w
  notified : ∀ w, s.Suspended w → (s.Registered () true ∧ ∀ t, ¬ s.Holds t ()) ∨
    (¬ s.Registered () true ∧ ∃! t, s.Holds t ())
  once : ∀ w, s.continued w ≤ 1
  error : ∀ w, s.Reports w → s.ec = s.dictatedEc

def Clear (s : Session W) : Session.Action W → Prop
  | .await _ _ _ => s.users () = []
  | .add _ (.ok _) => s.ec = .ok
  | _ => True

instance (s : Session W) (a : Session.Action W) : Decidable (s.Clear a) :=
  match a with
  | .await _ _ _ => decidable_of_iff ((s.users ()).isEmpty = true) List.isEmpty_iff
  | .add _ (.ok _) => inferInstanceAs (Decidable (s.ec = .ok))
  | .operation .. | .call .. | .ready .. | .add _ (.error _) | .resume .. | .poll .. | .deliver ..
  | .polled _ | .dispatch _ | .go _ => .isTrue trivial

def NoError (s : Session W) : Prop := s.ec = .ok ∧ s.dictatedEc = .ok

def ErrorFact (s : Session W) : Pc Unit W → Prop
  | .awaitReady _ _ | .awaitSuspend _ _ | .suspend (some _) _ | .add (some _) _ _ =>
      s.dictatedEc = .ok
  | .refuse (some _) _ ec => s.dictatedEc = .ok ∧ ec ≠ .native Errno.eexist
  | .refused (some _) _ => s.ec = s.dictatedEc
  | .remove _ | .del _ _ _ | .clear _ | .resume _ | .wake _ => s.NoError
  | .suspend none _ | .add none _ _ | .refuse none _ _ | .refused none _ => False
  | .free | .polling | .added => True

structure Honest (s : Session W) : Prop where
  registered : ∀ armed, s.Registered () armed → s.NoError
  batch : () ∈ s.batch () → s.NoError
  thread : s.ErrorFact (s.pc ())

variable {s u : Session W} {w : W} {pc : Pc Unit W} {a : Session.Action W}

theorem NoError.of_same (noError : s.NoError) (ec : u.ec = s.ec)
    (dictated : u.dictatedEc = s.dictatedEc) : u.NoError :=
  ⟨ec.trans noError.1, dictated.trans noError.2⟩

theorem Honest.inCode (inv : u.Inv) (place : u.pc () = pc) (here : pc.object = some ())
    (fact : u.ErrorFact pc) : u.Honest := by
  obtain ⟨w, _, waiting, known⟩ := inv.holder place here
  have idle : () ∉ u.batch () := by
    rw [← List.count_eq_zero, waiting.batch]
    rfl
  refine ⟨fun armed found => ?_, fun member => absurd member idle, place ▸ fact⟩
  -- Before `remove` has run the registration left no error; elsewhere there is none.
  cases pc with
  | free | polling | added => cases here
  | remove | del => exact fact
  | awaitReady | awaitSuspend => exact absurd found (known.2 _ armed)
  | suspend | refuse | refused => exact absurd found (known.2.2 _ armed)
  | add => exact absurd found (known.2.2.1 _ armed)
  | clear | resume | wake => exact absurd found (known.2 _ armed)

theorem Honest.leave (honest : s.Honest)
    (registered : ∀ armed, u.Registered () armed → ∃ armed', s.Registered () armed')
    (batch : () ∈ u.batch () → () ∈ s.batch () ∨ ∃ armed, s.Registered () armed)
    (ec : u.ec = s.ec) (dictated : u.dictatedEc = s.dictatedEc)
    (place : u.pc () = .free ∨ u.pc () = .polling) : u.Honest := by
  refine ⟨fun armed found => ?_, fun member => ?_, ?_⟩
  · obtain ⟨armed', found⟩ := registered armed found
    exact (honest.registered armed' found).of_same ec dictated
  · rcases batch member with member | ⟨armed, found⟩
    · exact (honest.batch member).of_same ec dictated
    · exact (honest.registered armed found).of_same ec dictated
  · rcases place with place | place <;> rw [place] <;> trivial

theorem Honest.keep (honest : s.Honest)
    (registered : ∀ armed, u.Registered () armed → s.Registered () armed)
    (batch : u.batch = s.batch) (ec : u.ec = s.ec) (dictated : u.dictatedEc = s.dictatedEc)
    (place : u.pc () = .free ∨ u.pc () = .polling) : u.Honest :=
  honest.leave (fun armed found => ⟨armed, registered armed found⟩)
    (fun member => .inl (batch ▸ member)) ec dictated place

theorem goto_here (s : Session W) (pc : Pc Unit W) : (State.goto s () pc).pc () = pc := rfl

theorem callback_ec (op : Ssh.Transport) (callback : Ssh.Callback) :
    (op.callback callback).1.ec = op.ec := by
  rcases callback with (rc | errno) | (rc | errno)
  all_goals
    simp only [Ssh.Transport.callback, Ssh.Transport.onRecv, Ssh.Transport.onSend,
      Ssh.Transport.onError]
  all_goals split <;> rfl

theorem suspend_not_eexist {op : Ssh.Transport} {ec : ErrorCode} (fails : op.suspend = .fail ec) :
    ec ≠ .native Errno.eexist := by
  rintro rfl
  revert fails
  simp only [Ssh.Transport.suspend]
  split <;> decide

theorem refuse_ec (site : Option W) {ec : ErrorCode} (other : ec ≠ .native Errno.eexist) :
    Session.ec (s.refuse () site () ec) = ec ∧ Session.dictatedEc (s.refuse () site () ec) = ec := by
  simp only [State.refuse, if_neg other]
  exact ⟨rfl, rfl⟩

variable [DecidableEq W]

theorem Honest.code (honest : s.Honest) (inv : u.Inv) (action : s.code () = some u) :
    u.Honest := by
  have fact := honest.thread
  unfold State.code at action
  split at action
  case h_1 w o place =>
      rw [place] at fact
      cases action
      exact .inCode inv (goto_here _ _) rfl fact
  case h_2 site o ec place =>
      rw [place] at fact
      cases site with
      | none => exact fact.elim
      | some w =>
          cases action
          obtain ⟨ec, dictated⟩ := refuse_ec (some w) fact.2
          exact .inCode inv (goto_here _ _) rfl (ec.trans dictated.symm)
  case h_3 w o place =>
      cases action
      exact honest.keep (fun _ => id) rfl rfl rfl (.inl (goto_here _ _))
  case h_4 o place =>
      rw [place] at fact
      exact fact.elim
  case h_5 place =>
      cases action
      exact honest.keep (fun _ => id) rfl rfl rfl (.inl (goto_here _ _))
  case h_6 o place =>
      obtain ⟨w, _, rfl⟩ := Option.map_eq_some_iff.mp action
      exact honest.keep (fun _ => id) rfl rfl rfl (.inl (goto_here _ _))
  case h_7 => cases action

theorem Honest.go (honest : s.Honest) (inv : u.Inv) (action : s.go () = some u) : u.Honest := by
  have fact := honest.thread
  unfold State.go at action
  split at action
  case h_1 site o place =>
      rw [place] at fact
      cases site with
      | none => exact fact.elim
      | some w =>
          cases action
          revert inv
          simp only [State.suspend]
          split
          case h_1 ec fails =>
              exact fun inv => .inCode inv (goto_here _ _) rfl ⟨fact, suspend_not_eexist fails⟩
          all_goals exact fun inv => .inCode inv (goto_here _ _) rfl fact
  case h_2 o place =>
      rw [place] at fact
      cases action
      revert inv
      simp only [State.remove]
      split <;> exact fun inv => .inCode inv (goto_here _ _) rfl fact
  case h_3 o context id place =>
      rw [place] at fact
      cases action
      exact .inCode inv (goto_here _ _) rfl fact
  case h_4 o place =>
      rw [place] at fact
      cases action
      exact .inCode inv (goto_here _ _) rfl fact
  case h_5 => exact honest.code inv action

omit [DecidableEq W] in
theorem free_of_add (inv : s.Inv) {site : Option W} {filter : Filter}
    (place : s.pc () = .add site () filter) :
    s.kernel (s.key ()) = none := by
  obtain ⟨w, users, _, _, _, unregistered, _⟩ := inv.holder place rfl
  exact inv.unregistered (fun _ _ _ _ _ => rfl) (by simp [users]) unregistered

omit [DecidableEq W] in
theorem Honest.add (honest : s.Honest) (before : s.Inv) (inv : u.Inv) {site : Option W}
    {filter : Filter} {result : Except Errno Unit} (place : s.pc () = .add site () filter)
    (clear : s.Clear (.add () result))
    (action : s.add () site () result = some u) : u.Honest := by
  have fact := honest.thread
  rw [place] at fact
  cases site with
  | none => exact fact.elim
  | some w =>
      cases result with
      | ok _ =>
          simp only [State.add, provided_eq_some] at action
          obtain ⟨_, rfl⟩ := action
          exact ⟨fun _ _ => ⟨clear, fact⟩, fun _ => ⟨clear, fact⟩, trivial⟩
      | error errno =>
          simp only [State.add, provided_eq_some] at action
          obtain ⟨reported, rfl⟩ := action
          have other := reported.mp (free_of_add before place)
          exact .inCode inv (goto_here _ _) rfl ⟨fact, by simpa [ErrorCode.native] using other⟩

omit [DecidableEq W] in
theorem Clear.exclusive (clear : s.Clear a) : s.Exclusive a := by
  cases a with
  | await t w o => exact clear
  | _ => trivial

theorem Honest.step (honest : s.Honest) (before : s.Inv) (clear : s.Clear a)
    (action : s.step a = some u) : u.Honest := by
  have inv := before.step clear.exclusive action
  cases a with
  | operation t w o context socket members =>
      simp only [State.step, provided_eq_some] at action
      obtain ⟨⟨_, owned, _⟩, _⟩ := action
      cases owned
  | await t w o =>
      simp only [State.step, provided_eq_some] at action
      obtain ⟨_, rfl⟩ := action
      exact .inCode inv (goto_here _ _) rfl rfl
  | call t o argument =>
      simp only [State.step, provided_eq_some] at action
      obtain ⟨place, rfl⟩ := action
      exact honest.keep (fun _ => id) rfl (callback_ec _ _) (callback_ec _ _)
        (.inl place)
  | ready t w o report =>
      simp only [State.step, provided_eq_some] at action
      obtain ⟨place, rfl⟩ := action
      have fact := honest.thread
      rw [place] at fact
      have next : State.pc (s.ready () w () report) () = .awaitSuspend w () := goto_here _ _
      exact .inCode inv next rfl fact
  | add t result =>
      simp only [State.step] at action
      split at action
      · rename_i site o filter place
        exact honest.add before inv place clear action
      · cases action
  | resume t o report =>
      simp only [State.step, provided_eq_some] at action
      obtain ⟨place, rfl⟩ := action
      have fact := honest.thread
      rw [place] at fact
      have next : State.pc (s.resume () () report) () = .wake () := goto_here _ _
      exact .inCode inv next rfl fact
  | poll t size =>
      simp only [State.step, provided_eq_some] at action
      obtain ⟨_, rfl⟩ := action
      exact honest.keep (fun _ => id) rfl rfl rfl (.inr (goto_here _ _))
  | deliver t key =>
      simp only [State.step] at action
      split at action
      · rename_i o found
        obtain ⟨⟨place, _⟩, rfl⟩ := provided_eq_some.mp action
        obtain rfl := before.keys key _ found
        exact honest.leave (fun _ _ => ⟨true, found⟩) (fun _ => .inr ⟨true, found⟩) rfl rfl
          (.inr place)
      · cases action
  | polled t =>
      simp only [State.step, provided_eq_some] at action
      obtain ⟨_, rfl⟩ := action
      exact honest.keep (fun _ => id) rfl rfl rfl (.inl (goto_here _ _))
  | dispatch t =>
      simp only [State.step] at action
      split at action
      · rename_i o rest batch
        obtain ⟨_, rfl⟩ := provided_eq_some.mp action
        have noError := honest.batch (by rw [batch]; exact List.mem_cons_self)
        exact .inCode inv (goto_here _ _) rfl noError
      · cases action
  | go t => exact honest.go inv action

theorem reaches_clear {object : Unit → Object W Operation.sshTransportClass}
    (reached : Reaches State.step Clear (State.create object) s) : s.Inv ∧ s.Honest := by
  induction reached with
  | refl =>
      exact ⟨State.create_inv object, fun _ found => (nomatch found), fun member => (nomatch member),
        trivial⟩
  | tail _ clear action ih =>
      exact ⟨ih.1.step (Clear.exclusive clear) action, ih.2.step ih.1 clear action⟩

omit [DecidableEq W] in
theorem Suspended.awaiter (inv : s.Inv) (suspended : s.Suspended w) : s.awaiter = some w := by
  obtain ⟨under, notReady, notSuspend⟩ := suspended
  rcases inv.settled () with ⟨users, _⟩ | ⟨w', spot, users, waiting⟩
  · simp [users] at under
  · obtain rfl : w = w' := by simpa [users] using under
    have fact := waiting.fact
    cases spot with
    | slot => exact fact.2
    | batch t => exact fact.2.2
    | thread t =>
        simp only [State.Fact] at fact
        cases place : s.pc () with
        | free | polling | added => rw [place] at fact; cases fact
        | awaitReady w' o =>
            rw [place] at fact
            exact absurd (fact.1 ▸ place) notReady
        | awaitSuspend w' o =>
            rw [place] at fact
            exact absurd (fact.1 ▸ place) notSuspend
        | suspend | refuse | refused | add => rw [place] at fact; exact fact.2.1
        | remove | del => rw [place] at fact; exact fact.2.2
        | clear | resume | wake => rw [place] at fact; exact fact.1

omit [DecidableEq W] in
theorem Honest.error (honest : s.Honest) (reports : s.Reports w) : s.ec = s.dictatedEc := by
  have fact := honest.thread
  rcases reports with place | ⟨place, _⟩
  · rw [place] at fact
    exact fact
  · rw [place] at fact
    exact fact.1.trans fact.2.symm

theorem reaches_multiplexed {object : Unit → Object W Operation.sshTransportClass}
    (reached : Reaches State.step Clear (State.create object) s) : s.Multiplexed := by
  obtain ⟨inv, honest⟩ := reaches_clear reached
  exact ⟨fun w suspended => suspended.awaiter inv, fun w suspended => inv.place suspended.1,
    inv.tally.most, fun w reports => honest.error reports⟩

theorem replaces (inv : s.Inv) (used : s.users () ≠ []) (action : s.step (.await () w ()) = some u) :
    ∃ v : Session W, Reachable State.step u v ∧ ¬ v.Multiplexed := by
  simp only [State.step, provided_eq_some] at action
  obtain ⟨⟨_, _, new⟩, next⟩ := action
  obtain ⟨w', under⟩ := List.exists_mem_of_ne_nil _ used
  have other : w ≠ w' := by
    rintro rfl
    exact (inv.tally.fresh w new).2 () under
  have ready : u.step (.ready () w () ()) = some (u.ready () w () ()) :=
    provided_eq_some.mpr ⟨by rw [← next]; rfl, rfl⟩
  let v : Session W := ((u.ready () w () ()).setObject () { (u.ready () w () ()).object () with
    awaiter := some w }).goto () (.suspend (some w) ())
  have go : State.step (u.ready () w () ()) (.go ()) = some v := rfl
  have suspended : v.Suspended w' := by
    refine ⟨?_, ?_, ?_⟩
    · simp only [v, ← next]
      exact List.mem_append_left _ under
    · intro place
      cases place
    · intro place
      cases place
  refine ⟨v, (Reaches.single trivial ready).tail trivial go, fun multiplexed => other ?_⟩
  exact Option.some.inj (multiplexed.awaiter w' suspended)

theorem wakes (added : s.pc () = .added) (armed : s.Registered () true) (empty : s.batch () = [])
    (noted : s.Noted ()) : ∃ v : Session W, Reachable State.step s v ∧ v.pc () = .wake () ∧
      v.awaiter = s.awaiter ∧ v.ec = s.ec ∧ v.dictatedEc = s.dictatedEc := by
  have run : ∃ v : Session W, exec State.step s [.go (), .poll () 1, .deliver () (s.key ()),
      .polled (), .dispatch (), .go (), .go (), .go (), .resume () () ()] = some v ∧
      v.pc () = .wake () ∧ v.awaiter = s.awaiter ∧ v.ec = s.ec ∧ v.dictatedEc = s.dictatedEc := by
    unfold State.Registered at armed
    obtain ⟨context, id⟩ := noted
    simp only [exec, State.step, State.go, State.code, added, State.goto, provided, State.remove,
      Option.bind_fun_some, Option.bind_some, Function.update_self, empty, and_self, ↓reduceIte,
      Function.update_idem, armed, List.length_nil, Nat.lt_add_one, List.nil_append, context, id,
      Option.some.injEq, exists_eq_left']
    exact ⟨rfl, rfl, rfl, rfl⟩
  obtain ⟨v, run, facts⟩ := run
  exact ⟨v, exec_reachable run, facts⟩

theorem misreports (inv : s.Inv) (honest : s.Honest) (left : s.ec ≠ .ok)
    (action : s.step (.add () (.ok ())) = some u) :
    ∃ v : Session W, Reachable State.step u v ∧ ¬ v.Multiplexed := by
  simp only [State.step] at action
  split at action
  · rename_i site o filter place
    have fact := honest.thread
    rw [place] at fact
    obtain ⟨w, users, waiting, same, awaiter, _, noted⟩ := inv.holder place rfl
    simp only [State.add, provided_eq_some] at action
    obtain ⟨_, next⟩ := action
    have empty : u.batch () = [] := by
      rw [← next]
      apply List.eq_nil_iff_forall_not_mem.mpr
      intro _
      exact List.count_eq_zero.mp (waiting.batch ())
    have registered : u.Registered () true := by
      rw [← next]
      exact Function.update_self ..
    obtain ⟨v, reached, wake, resumes, ec, dictated⟩ := wakes (by rw [← next]; rfl) registered empty
      (by rw [← next]; exact noted)
    have ecs : u.ec = s.ec ∧ u.dictatedEc = s.dictatedEc ∧ u.awaiter = some w := by
      rw [← next]
      exact ⟨rfl, rfl, awaiter⟩
    refine ⟨v, reached, fun multiplexed => left ?_⟩
    have reported := multiplexed.error w (.inr ⟨wake, by rw [resumes, ecs.2.2]⟩)
    have clear : s.dictatedEc = .ok := by
      cases site with
      | none => exact fact.elim
      | some _ => exact fact
    rw [← clear, ← ecs.2.1, ← dictated, ← reported, ec, ecs.1]
  · cases action

end Session

/-- In every run in which a `co_await` of the transport begins only while no other is under way, and
its registration succeeds only while no error is left, the channels of a session are multiplexed
correctly; and every step that breaks this leads to a state in which they are not. -/
theorem session_multiplexed [DecidableEq W]
    (object : Unit → Object W Operation.sshTransportClass) :
    (∀ s, Reaches State.step Session.Clear (State.create object) s → Session.Multiplexed s) ∧
      ∀ (s u : Session W) (a : Session.Action W),
        Reaches State.step Session.Clear (State.create object) s → ¬ s.Clear a →
          s.step a = some u → ∃ v : Session W, Reachable State.step u v ∧ ¬ v.Multiplexed := by
  refine ⟨fun s reached => Session.reaches_multiplexed reached, fun s u a reached breaks action => ?_⟩
  obtain ⟨inv, honest⟩ := Session.reaches_clear reached
  cases a with
  | await t w o => exact Session.replaces inv breaks action
  | add t result =>
      cases result with
      | ok _ => exact Session.misreports inv honest breaks action
      | error _ => exact absurd trivial breaks
  | _ => exact absurd trivial breaks

def transport (_ : Unit) : Object Bool Operation.sshTransportClass :=
  { context := 3, socket := 5, members := ({} : Ssh.Transport) }

def blocks (w : Bool) : List (Session.Action Bool) :=
  [.call () () (.onRecv (.error 11)), .await () w (), .ready () w () (), .go (), .go ()]

def wakeUp : List (Session.Action Bool) :=
  [.poll () 1, .deliver () (3, 5), .polled (), .dispatch (), .go (), .go (), .go (),
    .resume () () (), .go ()]

def waitInTurn : List (Session.Action Bool) :=
  blocks false ++ [.add () (.ok ()), .go ()] ++ wakeUp ++ blocks true ++ [.add () (.ok ()), .go ()]

theorem session_multiplexed_in_turn :
    ∃ s, exec State.step (State.create transport) waitInTurn = some s ∧ Session.Multiplexed s := by
  obtain ⟨s, run⟩ : ∃ s, exec State.step (State.create transport) waitInTurn = some s := ⟨_, rfl⟩
  have meets : AlwaysMeets State.step Session.Clear (State.create transport) waitInTurn := by decide
  exact ⟨s, run, (session_multiplexed transport).1 s (meets.reaches run)⟩

theorem session_overlaps : ¬ ∀ s : Session Bool,
    Reachable State.step (State.create transport) s → s.Multiplexed := by
  intro multiplexed
  let actions : List (Session.Action Bool) :=
    blocks false ++ [.add () (.ok ()), .go ()] ++ blocks true ++
      [.add () (.error Errno.eexist), .go (), .go ()] ++ wakeUp
  obtain ⟨s, run, twice⟩ : ∃ s, exec State.step (State.create transport) actions = some s ∧
      s.continued true = 2 := ⟨_, rfl, rfl⟩
  have once := (multiplexed s (exec_reachable run)).once true
  rw [twice] at once
  exact absurd once (by decide)

end Ice.Event
