import Ice.Async.Generator
import Ice.Lib.Handover

namespace Ice.Async.Generator
open Transition Handover

variable {V E : Type}

namespace Producer

@[grind =] def offers : Producer → Bool
  | yielding | swappingNotReady => true
  | operating initialState => initialState == .valueNotReadyConsumerActive
  | _ => false

@[grind =] def returns : Producer → Bool
  | loading _ | swappingReady => true
  | operating initialState => initialState == .valueReadyProducerActive
  | _ => false

@[grind =] def continues : Producer → Bool
  | running | loading _ | swappingReady => true
  | operating initialState =>
      initialState == .valueReadyProducerActive || initialState == .valueNotReadyConsumerSuspended
  | _ => false

theorem continues_of_returns {p : Producer} (returned : p.returns = true) : p.continues = true := by
  cases p <;> grind

@[grind =] def abandoned : Producer → Bool
  | running | yielding | loading _ | swappingNotReady | swappingReady => true
  | destroying | destroyed => true
  | operating initialState => initialState == .valueNotReadyConsumerActive ||
      initialState == .valueReadyProducerActive || initialState == .cancelled
  | _ => false

def within : Producer → Bool
  | yielding | storing _ | resuming _ | operating _ | swappingNotReady | swappingReady => true
  | destroying | failed => true
  | suspended | running | loading _ | destroyed => false

theorem abandoned_of_offers {p : Producer} (offered : p.offers = true) :
    p.abandoned = true ∧ p ≠ running := by
  cases p <;> grind

theorem abandoned_of_returns {p : Producer} (returned : p.returns = true) :
    p.abandoned = true ∧ p ≠ running := by
  cases p <;> grind

end Producer

namespace Consumer

@[grind =] def between : Consumer → Bool
  | active _ | creating | swappingReady => true
  | operating initialState => initialState == .valueReadyProducerActive
  | _ => false

@[grind =] def waits : Consumer → Bool
  | loading _ | swappingNotReady => true
  | operating initialState => initialState == .valueNotReadyConsumerActive
  | _ => false

@[grind =] def registered : Consumer → Bool
  | storing site | resuming site | loading site => site == .suspend
  | swappingReady | swappingNotReady | suspended => true
  | _ => false

end Consumer

/-- What `m_state` says about the two coroutines and the value. -/
inductive Fits : State → Producer → Consumer → Stage (Option V) → Prop where
  | rests {c : Consumer} (between : c.between ∨ ∃ site, c = .storing site) :
      Fits .valueReadyProducerSuspended .suspended c .idle
  | ready {c : Consumer} {v : Option V}
      (waits : c.waits ∨ c = .resumed ∨ c = .operating .valueReadyProducerSuspended) :
      Fits .valueReadyProducerSuspended .suspended c (.given v)
  | starts {site : Site} : Fits .valueNotReadyConsumerActive .suspended (.resuming site) .asked
  | works {c : Consumer} (waits : c.waits) : Fits .valueNotReadyConsumerActive .running c .asked
  | offers {p : Producer} {c : Consumer} {v : Option V} (offers : p.offers) (waits : c.waits) :
      Fits .valueNotReadyConsumerActive p c (.given v)
  | continues {p : Producer} (continues : p.continues) :
      Fits .valueNotReadyConsumerSuspended p .suspended .asked
  | wakes {p : Producer} {v : Option V} (offers : p.offers ∨ ∃ site, p = .storing site) :
      Fits .valueNotReadyConsumerSuspended p .suspended (.given v)
  | resumes {site : Site} {v : Option V} :
      Fits .valueReadyProducerActive (.resuming site) .suspended (.given v)
  | resumed {p : Producer} {v : Option V} (returns : p.returns) :
      Fits .valueReadyProducerActive p .resumed (.given v)
  | between {p : Producer} {c : Consumer} (returns : p.returns) (between : c.between) :
      Fits .valueReadyProducerActive p c .idle
  | destroys {stage : Stage (Option V)} : Fits .cancelled .suspended .destroying stage
  | gone {p : Producer} {stage : Stage (Option V)} (abandoned : p.abandoned)
      (running : p = .running → stage = .asked) : Fits .cancelled p .gone stage

structure Paced (s : Generator V E) (stage : Stage (Option V)) : Prop where
  fits : Fits s.state s.producer s.consumer stage
  value : ∀ v, stage = .given v → s.currentValue = v
  order : s.given = s.taken ++ stage.left
  ended : s.final = true →
    s.state = .cancelled ∨ stage = .given none ∨ s.consumer = .active .finished
  running : s.producer = .running → s.final = false
  registered : s.consumer.registered = true → s.consumerCoroutine = true
  producerReturns : s.producerReturns = true →
    (∃ site, s.consumer = .loading site) ∧ s.producer ≠ .suspended
  consumerReturns : s.consumerReturns = true →
    (∃ site, s.producer = .loading site) ∧ s.consumer ≠ .suspended
  destroyed : s.destroyed = if s.producer = .destroyed then 1 else 0

variable {s t : Generator V E} {stage : Stage (Option V)}

theorem Paced.goes (paced : Paced s stage) {state : State} {p : Producer}
    (before : s.producer.within = true ∨ ∃ site, s.producer = .loading site)
    (returned : (∃ site, s.producer = .loading site) → s.consumerReturns = false)
    (after : p.within = true) (cancelled : s.state = .cancelled → state = .cancelled)
    (fits : Fits state p s.consumer stage) : Paced { s with state, producer := p } stage where
  fits := fits
  value := paced.value
  order := paced.order
  ended final := (paced.ended final).imp_left cancelled
  running place := by
    dsimp only at place
    subst place
    cases after
  registered := paced.registered
  producerReturns set := by
    refine ⟨(paced.producerReturns set).1, ?_⟩
    rintro rfl
    cases after
  consumerReturns set := by
    have away := returned (paced.consumerReturns set).1
    rw [away] at set
    cases set
  destroyed := by
    have alive : s.producer ≠ .destroyed := by
      rintro place
      rw [place] at before
      rcases before with within | ⟨site, loading⟩
      · cases within
      · cases loading
    have alive' : p ≠ .destroyed := by
      rintro rfl
      cases after
    rw [paced.destroyed, if_neg alive, if_neg alive']

theorem Paced.inside (paced : Paced s stage) {was state : State} {before p : Producer}
    {c : Consumer} (place : s.producer = before) (stateEq : s.state = was)
    (consumerEq : s.consumer = c) (within : before.within = true) (after : p.within = true)
    (cancelled : was = .cancelled → state = .cancelled) (fits : Fits state p c stage) :
    Paced { s with state, producer := p } stage := by
  refine paced.goes (.inl (place ▸ within)) (fun ⟨site, loading⟩ => ?_) after
    (fun set => cancelled (stateEq ▸ set)) (consumerEq ▸ fits)
  rw [← place, loading] at within
  cases within

theorem Paced.yielding (paced : Paced s stage) (place : s.producer = .yielding)
    (taken : s.producerStep = some t) : Paced t stage := by
  have fits := paced.fits
  rw [place] at fits
  generalize stateEq : s.state = state, consumerEq : s.consumer = consumer at fits
  simp only [producerStep, place, stateEq] at taken
  cases fits with
  | offers _ waits =>
      cases taken
      exact paced.inside place stateEq consumerEq rfl rfl nofun (.offers rfl waits)
  | wakes =>
      cases taken
      exact paced.inside place stateEq consumerEq rfl rfl nofun (.wakes (.inr ⟨_, rfl⟩))
  | gone =>
      cases taken
      exact paced.inside place stateEq consumerEq rfl rfl id (.gone rfl nofun)
  | continues other | resumed other | between other => cases other

theorem Paced.storing {site : Site} (paced : Paced s stage) (place : s.producer = .storing site)
    (taken : s.producerStep = some t) : Paced t stage := by
  -- The value is there before the consumer is resumed.
  have fits := paced.fits
  rw [place] at fits
  generalize stateEq : s.state = state, consumerEq : s.consumer = consumer at fits
  simp only [producerStep, place] at taken
  cases fits with
  | wakes =>
      cases taken
      exact paced.inside place stateEq consumerEq rfl rfl nofun .resumes
  | offers other | continues other | resumed other | between other | gone other => cases other

theorem Paced.resuming {site : Site} (paced : Paced s stage) (place : s.producer = .resuming site)
    (taken : s.producerStep = some t) : Paced t stage := by
  have fits := paced.fits
  rw [place] at fits
  generalize stateEq : s.state = state, consumerEq : s.consumer = consumer at fits
  cases fits with
  | resumes =>
      have registered : s.consumerCoroutine = true := paced.registered (by rw [consumerEq]; rfl)
      have alive : s.destroyed = 0 := by simpa [place] using paced.destroyed
      simp only [producerStep, place, registered, consumerEq, and_self, if_true,
        Option.some.injEq] at taken
      subst taken
      refine { paced with
        fits := by rw [stateEq]; exact .resumed rfl
        ended := fun final => ?_
        running := nofun
        registered := nofun
        producerReturns := fun set => ?_
        consumerReturns := fun _ => ⟨⟨site, rfl⟩, nofun⟩
        destroyed := alive }
      · have ended := paced.ended final
        rw [consumerEq] at ended
        exact ended.imp_right fun given => given.imp_right nofun
      · obtain ⟨⟨_, loading⟩, _⟩ := paced.producerReturns set
        cases consumerEq.symm.trans loading
  | wakes other => rcases other with other | ⟨_, other⟩ <;> cases other
  | offers other | continues other | resumed other | between other | gone other => cases other

theorem Paced.alive (paced : Paced s stage) {before : Producer} (place : s.producer = before)
    (other : before ≠ .destroyed) : s.destroyed = 0 := by
  rw [paced.destroyed, if_neg (place ▸ other)]

theorem Paced.returned (paced : Paced s stage) {before : Producer} (place : s.producer = before)
    (other : ∀ site, before ≠ .loading site) : s.consumerReturns = false := by
  by_contra set
  obtain ⟨site, loading⟩ := (paced.consumerReturns (by simpa using set)).1
  exact other site (place.symm.trans loading)

theorem Paced.goOn (paced : Paced s .asked) {before : Producer} (place : s.producer = before)
    (other : before ≠ .destroyed) (stateEq : s.state = .valueNotReadyConsumerSuspended)
    (consumerEq : s.consumer = .suspended) (returned : s.consumerReturns = false) :
    Paced s.goOn .asked := by
  -- The consumer is suspended and has asked for a value.
  have unfinished : s.final = false := by
    by_contra final
    have ended := paced.ended (by simpa using final)
    simp [stateEq, consumerEq] at ended
  rw [Generator.goOn, if_neg (by simp [unfinished])]
  exact {
    fits := by
      dsimp only
      rw [stateEq, consumerEq]
      exact .continues rfl
    value := paced.value
    order := paced.order
    ended := paced.ended
    running := fun _ => unfinished
    registered := paced.registered
    producerReturns := fun set => ⟨(paced.producerReturns set).1, nofun⟩
    consumerReturns := fun set => absurd set (by simp [returned])
    destroyed := paced.alive place other }

theorem Paced.suspendProducer (paced : Paced s stage) {before : Producer}
    (place : s.producer = before) (inside : before.within = true) (active : s.state ≠ .cancelled)
    (fits : Fits .valueReadyProducerSuspended .suspended s.consumer stage) :
    Paced s.suspendProducer stage where
  fits := fits
  value := paced.value
  order := paced.order
  ended final := .inr ((paced.ended final).resolve_left active)
  running := nofun
  registered := paced.registered
  producerReturns := nofun
  consumerReturns set := by
    obtain ⟨site, loading⟩ := (paced.consumerReturns set).1
    rw [← place, loading] at inside
    cases inside
  destroyed := by
    refine paced.alive place ?_
    rintro rfl
    cases inside

theorem Paced.loading {site : Site} (paced : Paced s stage) (place : s.producer = .loading site)
    (taken : s.producerStep = some t) : Paced t stage := by
  have fits := paced.fits
  rw [place] at fits
  generalize stateEq : s.state = state, consumerEq : s.consumer = consumer at fits
  simp only [producerStep, place] at taken
  split at taken
  · cases taken
  next away =>
    have returned : s.consumerReturns = false := by simpa using away
    have goes : ∀ {p : Producer}, p.within = true → Fits state p consumer stage →
        Paced { s with state, producer := p } stage := fun after fits =>
      paced.goes (.inr ⟨site, place⟩) (fun _ => returned) after stateEq.symm.trans
        (consumerEq ▸ fits)
    cases site with
    | create =>
        simp only [stateEq, Option.some.injEq] at taken
        subst taken
        cases fits with
        | continues => exact goes rfl (.continues rfl)
        | resumed => exact goes rfl (.resumed rfl)
        | between _ between => exact goes rfl (.between rfl between)
        | gone => exact goes rfl (.gone rfl nofun)
        | wakes other => rcases other with other | ⟨_, other⟩ <;> cases other
        | offers other => cases other
    | suspend =>
        cases fits with
        | continues =>
            rw [if_pos stateEq] at taken
            cases taken
            exact paced.goOn place nofun stateEq consumerEq returned
        | resumed =>
            simp only [stateEq, settle, reduceCtorEq, if_false, Option.some.injEq] at taken
            exact taken ▸ goes rfl (.resumed rfl)
        | between _ between =>
            simp only [stateEq, settle, reduceCtorEq, if_false, Option.some.injEq] at taken
            exact taken ▸ goes rfl (.between rfl between)
        | gone =>
            simp only [stateEq, settle, reduceCtorEq, if_false, Option.some.injEq] at taken
            exact taken ▸ goes rfl (.gone rfl nofun)
        | wakes other => rcases other with other | ⟨_, other⟩ <;> cases other
        | offers other => cases other

theorem Paced.operating {initialState : State} (paced : Paced s stage)
    (place : s.producer = .operating initialState) (taken : s.producerStep = some t) :
    Paced t stage := by
  have fits := paced.fits
  rw [place] at fits
  generalize stateEq : s.state = state, consumerEq : s.consumer = consumer at fits
  have goes : ∀ {p : Producer}, p.within = true → Fits state p consumer stage →
      Paced { s with state, producer := p } stage := fun after fits =>
    paced.inside place stateEq consumerEq rfl after id fits
  simp only [producerStep, place] at taken
  cases initialState with
  | valueNotReadyConsumerActive =>
      simp only [stateEq, Option.some.injEq] at taken
      subst taken
      cases fits with
      | offers _ waits => exact goes rfl (.offers rfl waits)
      | wakes => exact goes rfl (.wakes (.inl rfl))
      | gone => exact goes rfl (.gone rfl nofun)
      | continues other | resumed other | between other => cases other
  | valueNotReadyConsumerSuspended =>
      cases taken
      cases fits with
      | continues =>
          exact paced.goOn place nofun stateEq consumerEq (paced.returned place nofun)
      | wakes other => rcases other with other | ⟨_, other⟩ <;> cases other
      | offers other | resumed other | between other | gone other => cases other
  | valueReadyProducerActive =>
      simp only [stateEq, settle, Option.some.injEq] at taken
      subst taken
      cases fits with
      | continues => exact goes rfl (.continues rfl)
      | resumed => exact goes rfl (.resumed rfl)
      | between _ between => exact goes rfl (.between rfl between)
      | gone => exact goes rfl (.gone rfl nofun)
      | wakes other => rcases other with other | ⟨_, other⟩ <;> cases other
      | offers other => cases other
  | valueReadyProducerSuspended =>
      cases fits with
      | wakes other => rcases other with other | ⟨_, other⟩ <;> cases other
      | offers other | continues other | resumed other | between other | gone other => cases other
  | cancelled =>
      simp only [stateEq, settle, Option.some.injEq] at taken
      subst taken
      cases fits with
      | gone => exact goes rfl (.gone rfl nofun)
      | wakes other => rcases other with other | ⟨_, other⟩ <;> cases other
      | offers other | continues other | resumed other | between other => cases other

theorem Paced.swappingNotReady (paced : Paced s stage) (place : s.producer = .swappingNotReady)
    (taken : s.producerStep = some t) : Paced t stage := by
  have fits := paced.fits
  rw [place] at fits
  generalize stateEq : s.state = state, consumerEq : s.consumer = consumer at fits
  simp only [producerStep, place, stateEq] at taken
  cases fits with
  | offers _ waits =>
      cases taken
      refine paced.suspendProducer place rfl (by simp [stateEq]) ?_
      rw [consumerEq]
      exact .ready (.inl waits)
  | wakes =>
      cases taken
      exact paced.inside place stateEq consumerEq rfl rfl nofun (.wakes (.inr ⟨_, rfl⟩))
  | gone =>
      cases taken
      exact paced.inside place stateEq consumerEq rfl rfl id (.gone rfl nofun)
  | continues other | resumed other | between other => cases other

theorem Paced.swappingReady (paced : Paced s stage) (place : s.producer = .swappingReady)
    (taken : s.producerStep = some t) : Paced t stage := by
  have fits := paced.fits
  rw [place] at fits
  generalize stateEq : s.state = state, consumerEq : s.consumer = consumer at fits
  simp only [producerStep, place, stateEq] at taken
  cases fits with
  | continues =>
      cases taken
      exact paced.goOn place nofun stateEq consumerEq (paced.returned place nofun)
  | resumed =>
      cases taken
      refine paced.suspendProducer place rfl (by simp [stateEq]) ?_
      rw [consumerEq]
      exact .ready (.inr (.inl rfl))
  | between _ between =>
      cases taken
      refine paced.suspendProducer place rfl (by simp [stateEq]) ?_
      rw [consumerEq]
      exact .rests (.inl between)
  | gone =>
      cases taken
      exact paced.inside place stateEq consumerEq rfl rfl id (.gone rfl nofun)
  | wakes other => rcases other with other | ⟨_, other⟩ <;> cases other
  | offers other => cases other

theorem Paced.destroying (paced : Paced s stage) (place : s.producer = .destroying)
    (taken : s.producerStep = some t) : Paced t stage := by
  have fits := paced.fits
  rw [place] at fits
  generalize stateEq : s.state = state, consumerEq : s.consumer = consumer at fits
  simp only [producerStep, place, Option.some.injEq] at taken
  subst taken
  cases fits with
  | gone =>
      exact {
        fits := by
          dsimp only
          rw [stateEq, consumerEq]
          exact .gone rfl nofun
        value := paced.value
        order := paced.order
        ended := fun _ => .inl stateEq
        running := nofun
        registered := paced.registered
        producerReturns := nofun
        consumerReturns := fun set => absurd set (by simp [paced.returned place nofun])
        destroyed := by simp [paced.alive place nofun] }
  | wakes other => rcases other with other | ⟨_, other⟩ <;> cases other
  | offers other | continues other | resumed other | between other => cases other

theorem Paced.producer (paced : Paced s stage) (taken : s.producerStep = some t) :
    Paced t stage := by
  cases place : s.producer with
  | yielding => exact paced.yielding place taken
  | storing site => exact paced.storing place taken
  | resuming site => exact paced.resuming place taken
  | loading site => exact paced.loading place taken
  | operating initialState => exact paced.operating place taken
  | swappingNotReady => exact paced.swappingNotReady place taken
  | swappingReady => exact paced.swappingReady place taken
  | destroying => exact paced.destroying place taken
  | _ => simp [producerStep, place] at taken

end Ice.Async.Generator
