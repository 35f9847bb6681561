import Ice.Async.GeneratorPaced
import Ice.Lib.Simulation

namespace Ice.Async.Generator
open Transition Handover

variable {V E : Type} {s t : Generator V E} {stage : Stage (Option V)}

def shows (s : Generator V E) : Action V E → List (Event (Option V))
  | .yieldValue v => [.give (some v)]
  | .finish _ => [.give none]
  | .consumer =>
      match s.consumer with
      | .storing _ => [.ask]
      | .swappingReady => if s.state = .valueReadyProducerActive then [.ask] else []
      | .resumed => [.take]
      | _ => []
  | _ => []

theorem Paced.turns (paced : Paced s stage) {was state : State} {before c : Consumer}
    {p : Producer} {next : Stage (Option V)} (place : s.consumer = before) (stateEq : s.state = was)
    (producerEq : s.producer = p) (unfinished : before ≠ .active .finished)
    (returned : (∃ site, before = .loading site) → s.producerReturns = false)
    (awake : c ≠ .suspended) (registered : c.registered = true → s.consumerCoroutine = true)
    (cancelled : was = .cancelled → state = .cancelled)
    (demand : next = stage ∨ stage = .idle ∧ next = .asked) (fits : Fits state p c next) :
    Paced { s with state, consumer := c } next where
  fits := by
    dsimp only
    rw [producerEq]
    exact fits
  value v given := by
    rcases demand with same | ⟨_, asked⟩
    · exact paced.value v (same ▸ given)
    · cases asked.symm.trans given
  order := by
    rcases demand with same | ⟨idle, asked⟩
    · rw [same]
      exact paced.order
    · rw [asked, paced.order, idle]
      rfl
  ended final := by
    rcases paced.ended final with was | given | finished
    · exact .inl (cancelled (stateEq ▸ was))
    · rcases demand with same | ⟨idle, _⟩
      · exact .inr (.inl (same.trans given))
      · cases idle.symm.trans given
    · exact absurd (place.symm.trans finished) unfinished
  running := paced.running
  registered := registered
  producerReturns set := by
    have away := returned (place ▸ (paced.producerReturns set).1)
    rw [away] at set
    cases set
  consumerReturns set := ⟨(paced.consumerReturns set).1, awake⟩
  destroyed := paced.destroyed

theorem Paced.creating (paced : Paced s stage) (place : s.consumer = .creating)
    (taken : s.consumerStep = some t) : Paced t stage := by
  have fits := paced.fits
  rw [place] at fits
  generalize stateEq : s.state = state, producerEq : s.producer = producer at fits
  simp only [consumerStep, place, stateEq] at taken
  have turns : ∀ {c : Consumer}, c ≠ .suspended → c.registered = false →
      Fits state producer c stage → Paced { s with state, consumer := c } stage :=
    fun awake quiet fits => paced.turns place stateEq producerEq nofun nofun awake (by simp [quiet])
      id (.inl rfl) fits
  cases fits with
  | rests =>
      cases taken
      exact turns nofun rfl (.rests (.inr ⟨_, rfl⟩))
  | between returns =>
      cases taken
      exact turns nofun rfl (.between returns rfl)
  | ready other => rcases other with other | other | other <;> cases other
  | works other | offers _ other => cases other

theorem Paced.demand {site : Site} (paced : Paced s stage) (place : s.consumer = .storing site)
    (taken : s.consumerStep = some t) : stage = .idle ∧ Paced t .asked := by
  -- The demand is made before the producer is resumed.
  have fits := paced.fits
  rw [place] at fits
  generalize stateEq : s.state = state, producerEq : s.producer = producer at fits
  simp only [consumerStep, place] at taken
  cases fits with
  | rests =>
      cases taken
      refine ⟨rfl, paced.turns place stateEq producerEq nofun nofun nofun (fun set => ?_) nofun
        (.inr ⟨rfl, rfl⟩) .starts⟩
      exact paced.registered (by rw [place]; exact set)
  | ready other => rcases other with other | other | other <;> cases other
  | works other | offers _ other | between _ other => cases other

theorem Paced.start {site : Site} (paced : Paced s stage) (place : s.consumer = .resuming site)
    (taken : s.consumerStep = some t) : Paced t stage := by
  have fits := paced.fits
  rw [place] at fits
  generalize stateEq : s.state = state, producerEq : s.producer = producer at fits
  cases fits with
  | starts =>
      have unfinished : s.final = false := by
        by_contra final
        have ended := paced.ended (by simpa using final)
        simp [stateEq, place] at ended
      simp only [consumerStep, place, producerEq, unfinished, and_self, if_true,
        Option.some.injEq] at taken
      subst taken
      exact {
        fits := by
          dsimp only
          rw [stateEq]
          exact .works rfl
        value := paced.value
        order := paced.order
        ended := nofun
        running := fun _ => rfl
        registered := fun set => paced.registered (by rw [place]; exact set)
        producerReturns := fun _ => ⟨⟨site, rfl⟩, nofun⟩
        consumerReturns := fun set => absurd set (by simp [paced.returned producerEq nofun])
        destroyed := by simp [paced.alive producerEq nofun] }
  | rests other => rcases other with other | ⟨_, other⟩ <;> cases other
  | ready other => rcases other with other | other | other <;> cases other
  | works other | offers _ other | between _ other => cases other

theorem Paced.reload {site : Site} (paced : Paced s stage) (place : s.consumer = .loading site)
    (taken : s.consumerStep = some t) : Paced t stage := by
  have fits := paced.fits
  rw [place] at fits
  generalize stateEq : s.state = state, producerEq : s.producer = producer at fits
  simp only [consumerStep, place] at taken
  split at taken
  · cases taken
  next away =>
    have returned : s.producerReturns = false := by simpa using away
    have turns : ∀ {c : Consumer}, c ≠ .suspended →
        (c.registered = true → s.consumerCoroutine = true) → Fits state producer c stage →
        Paced { s with state, consumer := c } stage := fun awake registered fits =>
      paced.turns place stateEq producerEq nofun (fun _ => returned) awake registered id (.inl rfl)
        fits
    cases site with
    | create =>
        simp only [stateEq, Option.some.injEq] at taken
        subst taken
        cases fits with
        | ready => exact turns nofun nofun (.ready (.inr (.inr rfl)))
        | works => exact turns nofun nofun (.works rfl)
        | offers offered => exact turns nofun nofun (.offers offered rfl)
        | rests other => rcases other with other | ⟨_, other⟩ <;> cases other
        | between _ other => cases other
    | suspend =>
        have registered : s.consumerCoroutine = true := paced.registered (by rw [place]; rfl)
        cases fits with
        | ready =>
            simp only [stateEq, Option.some.injEq] at taken
            exact taken ▸ turns nofun nofun (.ready (.inr (.inl rfl)))
        | works =>
            simp only [stateEq, Option.some.injEq] at taken
            exact taken ▸ turns nofun (fun _ => registered) (.works rfl)
        | offers offered =>
            simp only [stateEq, Option.some.injEq] at taken
            exact taken ▸ turns nofun (fun _ => registered) (.offers offered rfl)
        | rests other => rcases other with other | ⟨_, other⟩ <;> cases other
        | between _ other => cases other

theorem Paced.suspendConsumer (paced : Paced s stage) {before : Consumer} {p : Producer}
    {next : Stage (Option V)} (place : s.consumer = before) (producerEq : s.producer = p)
    (unfinished : before ≠ .active .finished) (registered : before.registered = true)
    (away : ∀ site, before ≠ .loading site) (active : s.state ≠ .cancelled)
    (demand : next = stage ∨ stage = .idle ∧ next = .asked)
    (fits : Fits .valueNotReadyConsumerSuspended p .suspended next) :
    Paced s.suspendConsumer next where
  -- The consumer is suspended, and has made its demand by then or makes it so.
  fits := by rw [← producerEq] at fits; exact fits
  value v given := by
    rcases demand with same | ⟨_, asked⟩
    · exact paced.value v (same ▸ given)
    · cases asked.symm.trans given
  order := by
    rcases demand with same | ⟨idle, asked⟩
    · rw [same]
      exact paced.order
    · rw [asked, Generator.suspendConsumer, paced.order, idle]
      rfl
  ended final := by
    rcases paced.ended final with was | given | finished
    · exact absurd was active
    · rcases demand with same | ⟨idle, _⟩
      · exact .inr (.inl (same.trans given))
      · cases idle.symm.trans given
    · exact absurd (place.symm.trans finished) unfinished
  running := paced.running
  registered _ := paced.registered (place ▸ registered)
  producerReturns set := by
    obtain ⟨site, loading⟩ := (paced.producerReturns set).1
    exact absurd (place.symm.trans loading) (away site)
  consumerReturns := nofun
  destroyed := paced.destroyed

theorem Paced.suspend (paced : Paced s stage) (place : s.consumer = .swappingReady)
    (taken : s.consumerStep = some t) :
    if s.state = .valueReadyProducerActive then stage = .idle ∧ Paced t .asked
    else Paced t stage := by
  have fits := paced.fits
  rw [place] at fits
  generalize stateEq : s.state = state, producerEq : s.producer = producer at fits
  simp only [consumerStep, place, stateEq] at taken
  cases fits with
  | between returns =>
      cases taken
      exact ⟨rfl, paced.suspendConsumer place producerEq nofun rfl nofun (by simp [stateEq])
        (.inr ⟨rfl, rfl⟩) (.continues (Producer.continues_of_returns returns))⟩
  | rests =>
      cases taken
      refine paced.turns place stateEq producerEq nofun nofun nofun (fun _ => ?_) nofun (.inl rfl)
        (.rests (.inr ⟨_, rfl⟩))
      exact paced.registered (by rw [place]; rfl)
  | ready other => rcases other with other | other | other <;> cases other
  | works other | offers _ other => cases other

theorem Paced.wait (paced : Paced s stage) (place : s.consumer = .swappingNotReady)
    (taken : s.consumerStep = some t) : Paced t stage := by
  have fits := paced.fits
  rw [place] at fits
  generalize stateEq : s.state = state, producerEq : s.producer = producer at fits
  simp only [consumerStep, place, stateEq] at taken
  have suspends : s.state ≠ .cancelled →
      Fits .valueNotReadyConsumerSuspended producer .suspended stage →
      Paced s.suspendConsumer stage := fun active fits =>
    paced.suspendConsumer place producerEq nofun rfl nofun active (.inl rfl) fits
  cases fits with
  | ready =>
      cases taken
      exact paced.turns place stateEq producerEq nofun nofun nofun nofun nofun (.inl rfl)
        (.ready (.inr (.inl rfl)))
  | works =>
      cases taken
      exact suspends (by simp [stateEq]) (.continues rfl)
  | offers offered =>
      cases taken
      exact suspends (by simp [stateEq]) (.wakes (.inl offered))
  | rests other => rcases other with other | ⟨_, other⟩ <;> cases other
  | between _ other => cases other

theorem Paced.takes {v : Option V} {cursor : Cursor} {exception rethrown : Option E}
    (paced : Paced s (.given v)) (place : s.consumer = .resumed) (active : s.state ≠ .cancelled)
    (finished : v = none → cursor = .finished)
    (fits : Fits s.state s.producer (.active cursor) (.idle : Stage (Option V))) :
    Paced { s with
      taken := s.taken ++ [s.currentValue], consumer := .active cursor, exception, rethrown }
      .idle where
  fits := fits
  value _ given := by cases given
  order := by simp [paced.order, paced.value v rfl, Stage.left]
  ended final := by
    rcases paced.ended final with cancelled | given | finished
    · exact absurd cancelled active
    · rw [finished (Stage.given.inj given)]
      exact .inr (.inr rfl)
    · cases place.symm.trans finished
  running := paced.running
  registered := nofun
  producerReturns set := by
    obtain ⟨site, loading⟩ := (paced.producerReturns set).1
    cases place.symm.trans loading
  consumerReturns set := ⟨(paced.consumerReturns set).1, nofun⟩
  destroyed := paced.destroyed

theorem Paced.awaitResume (paced : Paced s stage) (place : s.consumer = .resumed)
    (taken : s.consumerStep = some t) : ∃ v, stage = .given v ∧ Paced t .idle := by
  have given : ∃ v, stage = .given v ∧ s.state ≠ .cancelled ∧
      ∀ cursor, Fits s.state s.producer (.active cursor) (.idle : Stage (Option V)) := by
    have fits := paced.fits
    rw [place] at fits
    generalize s.state = state, s.producer = producer at fits ⊢
    cases fits with
    | ready => exact ⟨_, rfl, nofun, fun _ => .rests (.inl rfl)⟩
    | resumed returns => exact ⟨_, rfl, nofun, fun _ => .between returns rfl⟩
    | rests other => rcases other with other | ⟨_, other⟩ <;> cases other
    | works other | offers _ other | between _ other => cases other
  obtain ⟨v, rfl, active, fits⟩ := given
  refine ⟨v, rfl, ?_⟩
  have value := paced.value v rfl
  simp only [consumerStep, place, Generator.awaitResume, Option.some.injEq] at taken
  split at taken
  next u found =>
    subst taken
    exact paced.takes place active (fun none => by cases (value.trans none).symm.trans found)
      (fits _)
  next => exact taken ▸ paced.takes place active (fun _ => rfl) (fits _)

theorem Paced.destroy (paced : Paced s stage) (place : s.consumer = .destroying)
    (taken : s.consumerStep = some t) : Paced t stage := by
  have fits := paced.fits
  rw [place] at fits
  generalize stateEq : s.state = state, producerEq : s.producer = producer at fits
  cases fits with
  | destroys =>
      simp only [consumerStep, place, producerEq, if_true, Option.some.injEq] at taken
      subst taken
      exact {
        fits := by
          dsimp only
          rw [stateEq]
          exact .gone rfl nofun
        value := paced.value
        order := paced.order
        ended := fun _ => .inl stateEq
        running := nofun
        registered := nofun
        producerReturns := fun set => absurd producerEq (paced.producerReturns set).2
        consumerReturns := fun set => absurd set (by simp [paced.returned producerEq nofun])
        destroyed := by simp [paced.alive producerEq nofun] }
  | rests other => rcases other with other | ⟨_, other⟩ <;> cases other
  | ready other => rcases other with other | other | other <;> cases other
  | works other | offers _ other | between _ other => cases other

theorem Paced.consumer (paced : Paced s stage) (taken : s.consumerStep = some t) :
    ∃ next, exec Handover.step stage (shows s .consumer) = some next ∧ Paced t next := by
  cases place : s.consumer with
  | creating => exact ⟨stage, by simp [shows, place], paced.creating place taken⟩
  | storing site =>
      obtain ⟨rfl, next⟩ := paced.demand place taken
      exact ⟨.asked, by simp only [shows, place]; rfl, next⟩
  | resuming site => exact ⟨stage, by simp [shows, place], paced.start place taken⟩
  | loading site => exact ⟨stage, by simp [shows, place], paced.reload place taken⟩
  | swappingReady =>
      have next := paced.suspend place taken
      simp only [shows, place]
      split at next
      · next state =>
          obtain ⟨rfl, next⟩ := next
          exact ⟨.asked, by rw [if_pos state]; rfl, next⟩
      · next state => exact ⟨stage, by rw [if_neg state]; rfl, next⟩
  | swappingNotReady => exact ⟨stage, by simp [shows, place], paced.wait place taken⟩
  | resumed =>
      obtain ⟨v, rfl, next⟩ := paced.awaitResume place taken
      exact ⟨.idle, by simp only [shows, place]; rfl, next⟩
  | destroying => exact ⟨stage, by simp [shows, place], paced.destroy place taken⟩
  | _ => simp [consumerStep, place] at taken

theorem Fits.asked_of_running {state : State} {c : Consumer}
    (fits : Fits state .running c stage) : stage = .asked := by
  cases fits with
  | works | continues => rfl
  | gone _ asked => exact asked rfl
  | wakes other => rcases other with other | ⟨_, other⟩ <;> cases other
  | offers other | resumed other | between other => cases other

theorem Fits.given {state : State} {c : Consumer} {v : Option V}
    (fits : Fits state .running c (.asked : Stage (Option V))) :
    Fits state .yielding c (.given v) := by
  cases fits with
  | works waits => exact .offers rfl waits
  | continues => exact .wakes (.inl rfl)
  | gone => exact .gone rfl nofun

theorem Paced.gives {v : Option V} {final : Bool} (paced : Paced s .asked)
    (place : s.producer = .running) (known : final = true → v = none) :
    Paced { s with
      currentValue := v, given := s.given ++ [v], final, producer := .yielding } (.given v) where
  -- The producer runs on demand only.
  fits := by
    have fits := paced.fits
    rw [place] at fits
    exact fits.given
  value _ given := Stage.given.inj given
  order := by simp [paced.order, Stage.left]
  ended final := .inr (.inl (by rw [known final]))
  running := by simp
  registered := paced.registered
  producerReturns set := ⟨(paced.producerReturns set).1, by simp⟩
  consumerReturns set := absurd set (by simp [paced.returned place (by simp)])
  destroyed := by simp [paced.alive place (by simp)]

theorem Paced.yieldValue (paced : Paced s stage) (place : s.producer = .running) (v : V) :
    stage = .asked ∧ Paced (s.yieldValue v) (.given (some v)) := by
  have fits := paced.fits
  rw [place] at fits
  cases fits.asked_of_running
  have unfinished := paced.running place
  exact ⟨rfl, paced.gives place fun final => absurd (unfinished.symm.trans final) nofun⟩

theorem Paced.finalSuspend (paced : Paced s stage) (place : s.producer = .running) :
    stage = .asked ∧ Paced s.finalSuspend (.given none) := by
  have fits := paced.fits
  rw [place] at fits
  cases fits.asked_of_running
  exact ⟨rfl, paced.gives place fun _ => rfl⟩

theorem Paced.unhandledException (paced : Paced s stage) (e : E) :
    Paced (s.unhandledException e) stage := by
  obtain ⟨fits, value, order, ended, running, registered, producerReturns, consumerReturns,
    destroyed⟩ := paced
  unfold Generator.unhandledException
  split <;> exact ⟨fits, value, order, ended, running, registered, producerReturns, consumerReturns,
    destroyed⟩

theorem Paced.advance (paced : Paced s stage)
    (place : s.consumer = .active .start ∨ s.consumer = .active .value) :
    Paced { s with consumer := .creating } stage := by
  obtain ⟨cursor, here, unfinished⟩ : ∃ cursor, s.consumer = .active cursor ∧
      cursor ≠ .finished := by
    rcases place with place | place
    · exact ⟨_, place, nofun⟩
    · exact ⟨_, place, nofun⟩
  have fits := paced.fits
  rw [here] at fits
  refine paced.turns here rfl rfl (fun same => unfinished (Consumer.active.inj same)) nofun nofun
    nofun id (.inl rfl) ?_
  generalize s.state = state, s.producer = producer at fits ⊢
  cases fits with
  | rests => exact .rests (.inl rfl)
  | between returns => exact .between returns rfl
  | ready other => rcases other with other | other | other <;> cases other
  | works other | offers _ other => cases other

theorem Paced.awaitOperation {initialState : State} (paced : Paced s stage)
    (place : s.consumer = .operating initialState) :
    Paced (s.awaitOperation initialState) stage := by
  have fits := paced.fits
  rw [place] at fits
  generalize stateEq : s.state = state, producerEq : s.producer = producer at fits
  have noted : Paced { s with consumerCoroutine := true } stage :=
    { paced with registered := fun _ => rfl }
  have turns : ∀ {c : Consumer}, c ≠ .suspended → Fits state producer c stage →
      Paced { s with consumerCoroutine := true, consumer := c } stage := fun awake fits =>
    noted.turns place rfl rfl nofun nofun awake (fun _ => rfl) id (.inl rfl)
      (by rw [stateEq, producerEq]; exact fits)
  cases initialState with
  | valueReadyProducerSuspended =>
      cases fits with
      | ready =>
          exact paced.turns place rfl producerEq nofun nofun nofun nofun id (.inl rfl)
            (by rw [stateEq]; exact .ready (.inr (.inl rfl)))
      | rests other => rcases other with other | ⟨_, other⟩ <;> cases other
      | works other | offers _ other | between _ other => cases other
  | valueReadyProducerActive =>
      cases fits with
      | rests => exact turns nofun (.rests (.inl rfl))
      | between returns => exact turns nofun (.between returns rfl)
      | ready other => rcases other with other | other | other <;> cases other
      | works other | offers _ other => cases other
  | valueNotReadyConsumerActive =>
      cases fits with
      | ready => exact turns nofun (.ready (.inl rfl))
      | works => exact turns nofun (.works rfl)
      | offers offered => exact turns nofun (.offers offered rfl)
      | rests other => rcases other with other | ⟨_, other⟩ <;> cases other
      | between _ other => cases other
  | valueNotReadyConsumerSuspended | cancelled =>
      cases fits with
      | rests other => rcases other with other | ⟨_, other⟩ <;> cases other
      | ready other => rcases other with other | other | other <;> cases other
      | works other | offers _ other | between _ other => cases other

theorem Paced.cancels (paced : Paced s stage) {c : Consumer}
    (away : ∀ site, s.consumer ≠ .loading site) (last : c = .destroying ∨ c = .gone)
    (fits : Fits .cancelled s.producer c stage) :
    Paced { s with state := .cancelled, consumer := c } stage where
  fits := fits
  value := paced.value
  order := paced.order
  ended _ := .inl rfl
  running := paced.running
  registered set := by rcases last with rfl | rfl <;> cases set
  producerReturns set := by
    obtain ⟨site, loading⟩ := (paced.producerReturns set).1
    exact absurd loading (away site)
  consumerReturns set := by
    refine ⟨(paced.consumerReturns set).1, ?_⟩
    rcases last with rfl | rfl <;> nofun
  destroyed := paced.destroyed

theorem Paced.requestCancellation (paced : Paced s stage)
    (place : (∃ cursor, s.consumer = .active cursor) ∨ ∃ w, s.consumer = .operating w) :
    Paced s.requestCancellation stage := by
  have away : ∀ site, s.consumer ≠ .loading site := by
    rintro site loading
    rcases place with ⟨_, place⟩ | ⟨_, place⟩ <;> cases place.symm.trans loading
  have own : s.consumer ≠ .resumed ∧ s.consumer ≠ .suspended ∧ s.consumer ≠ .destroying ∧
      s.consumer ≠ .gone ∧ ∀ site, s.consumer ≠ .resuming site := by
    rcases place with ⟨_, place⟩ | ⟨_, place⟩ <;> simp [place]
  have fits := paced.fits
  have destroys : Fits .cancelled s.producer .destroying stage →
      Paced { s with state := .cancelled, consumer := .destroying } stage :=
    paced.cancels away (.inl rfl)
  have goes : Fits .cancelled s.producer .gone stage →
      Paced { s with state := .cancelled, consumer := .gone } stage :=
    paced.cancels away (.inr rfl)
  unfold Generator.requestCancellation
  generalize stateEq : s.state = state, producerEq : s.producer = producer,
    consumerEq : s.consumer = consumer at fits destroys goes own ⊢
  cases fits with
  | rests | ready => exact destroys .destroys
  | works => exact goes (.gone rfl fun _ => rfl)
  | offers offered =>
      obtain ⟨abandoned, idle⟩ := Producer.abandoned_of_offers offered
      exact goes (.gone abandoned fun running => absurd running idle)
  | between returns =>
      obtain ⟨abandoned, idle⟩ := Producer.abandoned_of_returns returns
      exact goes (.gone abandoned fun running => absurd running idle)
  | starts => exact absurd rfl (own.2.2.2.2 _)
  | continues | wakes | resumes => exact absurd rfl own.2.1
  | resumed => exact absurd rfl own.1
  | destroys => exact absurd rfl own.2.2.1
  | gone => exact absurd rfl own.2.2.2.1

theorem paced_step :
    Simulates (step : Generator V E → Action V E → _) Handover.step shows Paced := by
  intro s stage action t paced taken
  cases action with
  | yieldValue v =>
      obtain ⟨place, rfl⟩ := provided_eq_some.mp taken
      obtain ⟨rfl, next⟩ := paced.yieldValue place v
      exact ⟨_, rfl, next⟩
  | finish exception =>
      obtain ⟨place, rfl⟩ := provided_eq_some.mp taken
      cases exception with
      | none =>
          obtain ⟨rfl, next⟩ := paced.finalSuspend place
          exact ⟨_, rfl, next⟩
      | some e =>
          have still : (s.unhandledException e).producer = .running := by
            unfold unhandledException
            split <;> exact place
          obtain ⟨rfl, next⟩ := (paced.unhandledException e).finalSuspend still
          exact ⟨_, rfl, next⟩
  | parkProducer =>
      obtain ⟨place, rfl⟩ := provided_eq_some.mp taken
      exact ⟨stage, rfl, { paced with producerReturns := fun set => nomatch set }⟩
  | advance =>
      obtain ⟨place, rfl⟩ := provided_eq_some.mp taken
      exact ⟨stage, rfl, paced.advance place⟩
  | await =>
      refine ⟨stage, rfl, ?_⟩
      cases place : s.consumer with
      | operating initialState =>
          simp only [step, place, Option.some.injEq] at taken
          exact taken ▸ paced.awaitOperation place
      | _ => simp [step, place] at taken
  | destroy =>
      refine ⟨stage, rfl, ?_⟩
      cases place : s.consumer with
      | active cursor =>
          simp only [step, place, Option.some.injEq] at taken
          exact taken ▸ paced.requestCancellation (.inl ⟨cursor, place⟩)
      | operating initialState =>
          simp only [step, place, Option.some.injEq] at taken
          exact taken ▸ paced.requestCancellation (.inr ⟨initialState, place⟩)
      | _ => simp [step, place] at taken
  | parkConsumer =>
      refine ⟨stage, rfl, ?_⟩
      have parked : t = { s with consumerReturns := false } := by
        cases place : s.consumer <;> simp_all [step]
      subst parked
      exact { paced with consumerReturns := fun set => nomatch set }
  | producer => exact ⟨stage, rfl, paced.producer taken⟩
  | consumer => exact paced.consumer taken

theorem start_paced (currentValue : Option V) :
    Paced ({ currentValue } : Generator V E) .idle where
  fits := .rests (.inl rfl)
  value _ eq := nomatch eq
  order := rfl
  ended set := nomatch set
  running place := nomatch place
  registered place := nomatch place
  producerReturns set := nomatch set
  consumerReturns set := nomatch set
  destroyed := rfl

theorem reachable_paced {currentValue : Option V}
    (reached : Reachable step ({ currentValue } : Generator V E) s) : ∃ stage, Paced s stage := by
  obtain ⟨stage, _, paced⟩ := paced_step.reaches (start_paced currentValue) reached
  exact ⟨stage, paced⟩

end Ice.Async.Generator
