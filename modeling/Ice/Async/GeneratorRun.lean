import Ice.Async.GeneratorHandover

namespace Ice.Async.Generator
open Transition Handover

variable {V E : Type} {s t : Generator V E} {stage : Stage (Option V)} {currentValue : Option V}
  {actions : List (Action V E)}

theorem producerStep_given (taken : s.producerStep = some t) :
    t.given = s.given ∧ t.final = s.final ∧ t.thrown = s.thrown ∧ t.currentValue = s.currentValue ∧
      t.taken = s.taken ∧ t.exception = s.exception ∧ t.rethrown = s.rethrown ∧
      (t.consumer = s.consumer ∨ s.consumer = .suspended ∧ t.consumer = .resumed) := by
  cases place : s.producer with
  | loading site =>
      cases site <;> simp only [producerStep, place] at taken <;> grind [goOn]
  | _ =>
      simp only [producerStep, place] at taken
      grind [goOn, suspendProducer]

theorem consumerStep_given (taken : s.consumerStep = some t) :
    t.given = s.given ∧ t.final = s.final ∧ t.thrown = s.thrown := by
  cases place : s.consumer <;> simp only [consumerStep, place] at taken <;>
    grind [awaitResume, suspendConsumer]

def Action.gives : Action V E → Bool
  | yieldValue _ | finish _ => true
  | _ => false

theorem step_given {action : Action V E} (taken : step s action = some t)
    (others : action.gives = false) :
    t.given = s.given ∧ t.final = s.final ∧ t.thrown = s.thrown := by
  cases action with
  | yieldValue | finish => cases others
  | producer =>
      obtain ⟨given, final, thrown, _⟩ := producerStep_given taken
      exact ⟨given, final, thrown⟩
  | consumer => exact consumerStep_given taken
  | parkProducer | advance =>
      obtain ⟨_, rfl⟩ := provided_eq_some.mp taken
      exact ⟨rfl, rfl, rfl⟩
  | await =>
      cases place : s.consumer <;> simp only [step, place, reduceCtorEq, Option.some.injEq] at taken
      subst taken
      unfold awaitOperation
      split <;> exact ⟨rfl, rfl, rfl⟩
  | destroy =>
      cases place : s.consumer <;>
        simp only [step, place, reduceCtorEq, Option.some.injEq] at taken <;> subst taken <;>
        unfold requestCancellation <;> split <;> exact ⟨rfl, rfl, rfl⟩
  | parkConsumer => grind [step]

theorem unhandledException_given (e : E) : (s.unhandledException e).given = s.given := by
  unfold unhandledException
  split <;> rfl

theorem given_step {action : Action V E} (taken : step s action = some t) :
    t.given = s.given ++ gives (shows s action) := by
  cases action with
  | yieldValue v =>
      obtain ⟨_, rfl⟩ := provided_eq_some.mp taken
      rfl
  | finish exception =>
      obtain ⟨_, rfl⟩ := provided_eq_some.mp taken
      cases exception with
      | none => rfl
      | some e =>
          show (s.unhandledException e).given ++ [none] = _
          rw [unhandledException_given]
          rfl
  | consumer =>
      have quiet : gives (shows s (.consumer : Action V E)) = [] := by
        simp only [shows]
        split <;> try split
        all_goals rfl
      rw [quiet, List.append_nil]
      exact (step_given taken rfl).1
  | _ =>
      rw [(step_given taken rfl).1]
      exact (List.append_nil _).symm

theorem given_run (run : exec step s actions = some t) :
    t.given = s.given ++ gives (trace step shows s actions) := by
  induction actions generalizing s with
  | nil =>
      cases run
      exact (List.append_nil _).symm
  | cons action actions ih =>
      obtain ⟨r, taken, rest⟩ := exec_cons.mp run
      rw [ih rest, given_step taken, trace, taken, gives_append, List.append_assoc]

/-- In every run demand, value and its receipt alternate, so that what the consumer finds is what the
producer has yielded, in order and each value once. -/
theorem run_is_handover (run : exec step ({ currentValue } : Generator V E) actions = some s) :
    ∃ stage, exec Handover.step .idle (trace step shows { currentValue } actions) = some stage ∧
      s.given = gives (trace step shows { currentValue } actions) ∧
      s.taken = takes .idle (trace step shows { currentValue } actions) ∧
      s.given = s.taken ++ stage.left := by
  obtain ⟨stage, spec, paced⟩ := paced_step.run (start_paced currentValue) run
  have given : s.given = gives (trace step shows { currentValue } actions) := by
    simpa using given_run run
  refine ⟨stage, spec, given, ?_, paced.order⟩
  have all : gives (trace step shows { currentValue } actions) =
      takes .idle (trace step shows { currentValue } actions) ++ stage.left := Handover.run_eq spec
  rw [← given, paced.order] at all
  exact List.append_cancel_right all

def twoValues : List (Action Nat Unit) :=
  [.advance, .consumer, .consumer, .consumer, .yieldValue 5, .producer, .producer, .producer,
    .consumer, .await, .consumer, .advance, .consumer, .consumer, .consumer, .parkProducer, .consumer,
    .await, .consumer, .yieldValue 7, .producer, .producer, .producer, .consumer, .destroy,
    .parkConsumer]

def visited (n : Nat) : Generator Nat Unit :=
  (exec step { currentValue := none } (twoValues.take n)).getD { currentValue := none }

theorem visited_reachable (n : Nat) : Reachable step { currentValue := none } (visited n) := by
  unfold visited
  cases run : exec step ({ currentValue := none } : Generator Nat Unit) (twoValues.take n) with
  | none => exact .refl
  | some s => exact exec_reachable run

theorem run_is_handover_two_values : (visited 26).taken = [some 5, some 7] ∧
    ∃ stage, exec Handover.step .idle (trace step shows { currentValue := none } twoValues) =
        some stage ∧
      (visited 26).given = gives (trace step shows { currentValue := none } twoValues) ∧
      (visited 26).taken = takes .idle (trace step shows { currentValue := none } twoValues) ∧
      (visited 26).given = (visited 26).taken ++ stage.left :=
  ⟨rfl, run_is_handover rfl⟩

@[grind =] def Consumer.expects : Consumer → Bool
  | gone | destroying | active .finished => false
  | _ => true

structure Ends (s : Generator V E) : Prop where
  values : ∃ vs : List V, s.given = vs.map some ++ if s.final then [none] else []
  held : s.consumer = .active .value →
    ∃ v, s.currentValue = some v ∧ s.taken.getLast? = some (some v)
  finished : s.consumer = .active .finished → s.final = true ∧ s.rethrown = s.thrown
  pending : s.consumer.expects = true → s.exception = s.thrown

theorem Paced.not_active (paced : Paced s stage) (place : s.producer = .running) (cursor : Cursor) :
    s.consumer ≠ .active cursor := by
  intro here
  have fits := paced.fits
  rw [place, here] at fits
  generalize s.state = state at fits
  cases fits with
  | works waits => cases waits
  | offers offers => cases offers
  | between returns => cases returns

theorem Paced.gone_of_cancelled (paced : Paced s stage) (cancelled : s.state = .cancelled) :
    s.consumer = .gone ∨ s.consumer = .destroying := by
  have fits := paced.fits
  rw [cancelled] at fits
  generalize s.producer = producer, s.consumer = consumer at fits
  cases fits with
  | destroys => exact .inr rfl
  | gone => exact .inl rfl

theorem Paced.given_of_resumed (paced : Paced s stage) (place : s.consumer = .resumed) :
    ∃ v, stage = .given v := by
  have fits := paced.fits
  rw [place] at fits
  generalize s.state = state, s.producer = producer at fits
  cases fits with
  | ready | resumed => exact ⟨_, rfl⟩
  | rests between => rcases between with between | ⟨_, between⟩ <;> cases between
  | works waits => cases waits
  | offers _ waits => cases waits
  | between _ between => cases between

theorem Paced.suspended_of_destroying (paced : Paced s stage) (place : s.consumer = .destroying) :
    s.producer = .suspended := by
  have fits := paced.fits
  rw [place] at fits
  generalize s.state = state, s.producer = producer at fits
  cases fits with
  | destroys | rests | ready => rfl
  | works waits => cases waits
  | offers _ waits => cases waits
  | between _ between => cases between

theorem Ends.yieldValue (ends : Ends s) (paced : Paced s stage) (place : s.producer = .running)
    (v : V) : Ends (s.yieldValue v) := by
  obtain ⟨⟨vs, given⟩, held, finished, pending⟩ := ends
  have more := paced.running place
  refine ⟨⟨vs ++ [v], ?_⟩, fun here => ?_, fun here => ?_, pending⟩
  · simp [Generator.yieldValue, given, more]
  · exact absurd here (paced.not_active place _)
  · exact absurd here (paced.not_active place _)

theorem Ends.finalSuspend (ends : Ends s) (paced : Paced s stage) (place : s.producer = .running) :
    Ends s.finalSuspend := by
  obtain ⟨⟨vs, given⟩, held, finished, pending⟩ := ends
  have more := paced.running place
  refine ⟨⟨vs, ?_⟩, fun here => ?_, fun here => ?_, pending⟩
  · simp [Generator.finalSuspend, given, more]
  · exact absurd here (paced.not_active place _)
  · exact absurd here (paced.not_active place _)

theorem Ends.unhandledException (ends : Ends s) (paced : Paced s stage)
    (place : s.producer = .running) (e : E) : Ends (s.unhandledException e) := by
  obtain ⟨values, held, finished, pending⟩ := ends
  unfold Generator.unhandledException
  split
  · next cancelled =>
      refine ⟨values, held, fun here => absurd here (paced.not_active place _), fun expects => ?_⟩
      rcases paced.gone_of_cancelled cancelled with gone | gone <;> rw [gone] at expects <;>
        cases expects
  · exact ⟨values, held, fun here => absurd here (paced.not_active place _), fun _ => rfl⟩

theorem Ends.awaitResume (ends : Ends s) (paced : Paced s stage) (place : s.consumer = .resumed) :
    Ends s.awaitResume := by
  obtain ⟨⟨vs, given⟩, held, finished, pending⟩ := ends
  obtain ⟨v, rfl⟩ := paced.given_of_resumed place
  have value := paced.value v rfl
  have exception : s.exception = s.thrown := pending (by rw [place]; rfl)
  unfold Generator.awaitResume
  cases v with
  | some v =>
      rw [value]
      refine ⟨⟨vs, given⟩, fun _ => ⟨v, rfl, by simp⟩, fun here => ?_, fun _ => exception⟩
      cases here
  | none =>
      have final : s.final = true := by
        by_contra more
        have last : none ∈ s.given := by simp [paced.order, Stage.left]
        rw [given] at last
        simp [more] at last
      rw [value]
      refine ⟨⟨vs, given⟩, fun here => ?_, fun _ => ⟨final, exception⟩, fun expects => ?_⟩
      · cases here
      · cases expects

theorem Ends.producer (ends : Ends s) (taken : s.producerStep = some t) : Ends t := by
  obtain ⟨values, held, finished, pending⟩ := ends
  obtain ⟨given, final, thrown, value, same, exception, rethrown, consumer⟩ :=
    producerStep_given taken
  have own : ∀ cursor, t.consumer = .active cursor → s.consumer = .active cursor := by
    rintro cursor here
    rcases consumer with unmoved | ⟨_, resumed⟩
    · exact unmoved.symm.trans here
    · cases resumed.symm.trans here
  have expected : t.consumer.expects = true → s.consumer.expects = true := fun expects => by
    rcases consumer with unmoved | ⟨suspended, _⟩
    · exact unmoved ▸ expects
    · rw [suspended]
      rfl
  refine ⟨?_, fun here => ?_, fun here => ?_, fun expects => ?_⟩
  · rw [given, final]
    exact values
  · rw [value, same]
    exact held (own _ here)
  · rw [final, rethrown, thrown]
    exact finished (own _ here)
  · rw [exception, thrown]
    exact pending (expected expects)

theorem consumerStep_away (taken : s.consumerStep = some t) (other : s.consumer ≠ .resumed)
    (suspended : s.consumer = .destroying → s.producer = .suspended) :
    (∀ cursor, t.consumer ≠ .active cursor) ∧ t.exception = s.exception ∧
      (t.consumer.expects = true → s.consumer.expects = true) := by
  cases place : s.consumer with
  | resumed => exact absurd place other
  | destroying =>
      simp only [consumerStep, place, suspended place, if_true, Option.some.injEq] at taken
      subst taken
      exact ⟨by simp, rfl, by simp [Consumer.expects]⟩
  | _ =>
      simp only [consumerStep, place] at taken
      grind [suspendConsumer]

theorem Ends.consumer (ends : Ends s) (paced : Paced s stage) (taken : s.consumerStep = some t) :
    Ends t := by
  by_cases place : s.consumer = .resumed
  · simp only [consumerStep, place, Option.some.injEq] at taken
    exact taken ▸ ends.awaitResume paced place
  · obtain ⟨given, final, thrown⟩ := consumerStep_given taken
    obtain ⟨away, exception, expected⟩ := consumerStep_away taken place
      paced.suspended_of_destroying
    refine ⟨?_, fun here => absurd here (away _), fun here => absurd here (away _),
      fun expects => ?_⟩
    · rw [given, final]
      exact ends.values
    · rw [exception, thrown]
      exact ends.pending (expected expects)

theorem Ends.requestCancellation (ends : Ends s) (paced : Paced s.requestCancellation stage) :
    Ends s.requestCancellation := by
  have cancelled : s.requestCancellation.state = .cancelled := by
    unfold Generator.requestCancellation
    split <;> rfl
  have gone := paced.gone_of_cancelled cancelled
  have same : s.requestCancellation.given = s.given ∧ s.requestCancellation.final = s.final := by
    unfold Generator.requestCancellation
    split <;> exact ⟨rfl, rfl⟩
  refine ⟨?_, fun here => ?_, fun here => ?_, fun expects => ?_⟩
  · rw [same.1, same.2]
    exact ends.values
  · rcases gone with gone | gone <;> cases gone.symm.trans here
  · rcases gone with gone | gone <;> cases gone.symm.trans here
  · rcases gone with gone | gone <;> rw [gone] at expects <;> cases expects

theorem ends_step {action : Action V E} (ends : Ends s) (paced : Paced s stage)
    (taken : step s action = some t) : Ends t := by
  cases action with
  | yieldValue v =>
      obtain ⟨place, rfl⟩ := provided_eq_some.mp taken
      exact ends.yieldValue paced place v
  | finish exception =>
      obtain ⟨place, rfl⟩ := provided_eq_some.mp taken
      cases exception with
      | none => exact ends.finalSuspend paced place
      | some e =>
          have still : (s.unhandledException e).producer = .running := by
            unfold unhandledException
            split <;> exact place
          exact (ends.unhandledException paced place e).finalSuspend (paced.unhandledException e)
            still
  | parkProducer =>
      obtain ⟨_, rfl⟩ := provided_eq_some.mp taken
      exact ⟨ends.values, ends.held, ends.finished, ends.pending⟩
  | advance =>
      obtain ⟨place, rfl⟩ := provided_eq_some.mp taken
      have exception := ends.pending (by rcases place with place | place <;> rw [place] <;> rfl)
      refine ⟨ends.values, fun here => ?_, fun here => ?_, fun _ => exception⟩ <;> cases here
  | await =>
      cases place : s.consumer <;> simp only [step, place, reduceCtorEq, Option.some.injEq] at taken
      subst taken
      have exception := ends.pending (by rw [place]; rfl)
      unfold awaitOperation
      split <;> refine ⟨ends.values, fun here => ?_, fun here => ?_, fun _ => exception⟩ <;> cases here
  | destroy =>
      have place : (∃ cursor, s.consumer = .active cursor) ∨ ∃ w, s.consumer = .operating w := by
        cases here : s.consumer <;> simp_all [step]
      have cancelled : t = s.requestCancellation := by
        cases here : s.consumer <;> simp_all [step]
      subst cancelled
      exact ends.requestCancellation (paced.requestCancellation place)
  | parkConsumer =>
      have parked : t = { s with consumerReturns := false } := by
        cases place : s.consumer <;> simp_all [step]
      subst parked
      exact ⟨ends.values, ends.held, ends.finished, ends.pending⟩
  | producer => exact ends.producer taken
  | consumer => exact ends.consumer paced taken

theorem reachable_ends (reached : Reachable step ({ currentValue } : Generator V E) s) :
    (∃ stage, Paced s stage) ∧ Ends s := by
  induction reached with
  | refl =>
      refine ⟨⟨.idle, start_paced currentValue⟩, ⟨[], rfl⟩, fun here => ?_, fun here => ?_,
        fun _ => rfl⟩ <;>
        cases here
  | tail _ _ taken ih =>
      obtain ⟨⟨stage, paced⟩, ends⟩ := ih
      obtain ⟨next, _, after⟩ := paced_step _ stage _ _ paced taken
      exact ⟨⟨next, after⟩, ends_step ends paced taken⟩

theorem Paced.destroyed_gone (paced : Paced s stage) (place : s.producer = .destroyed) :
    s.consumer = .gone := by
  have fits := paced.fits
  rw [place] at fits
  generalize s.state = state, s.consumer = consumer at fits
  cases fits with
  | gone => rfl
  | offers offers => cases offers
  | continues continues => cases continues
  | wakes offers => rcases offers with offers | ⟨_, offers⟩ <;> cases offers
  | resumed returns => cases returns
  | between returns => cases returns

theorem Paced.not_failed (paced : Paced s stage) : s.producer ≠ .failed ∧ s.consumer ≠ .failed := by
  have fits := paced.fits
  generalize s.state = state, s.producer = producer, s.consumer = consumer at fits
  constructor
  · rintro rfl
    cases fits <;> simp_all [Producer.offers, Producer.continues, Producer.returns, Producer.abandoned]
  · rintro rfl
    cases fits <;> simp_all [Consumer.between, Consumer.waits]

theorem generator_sound (reached : Reachable step ({ currentValue } : Generator V E) s) :
    s.producer ≠ .failed ∧ s.consumer ≠ .failed ∧ s.destroyed ≤ 1 ∧
      (s.destroyed ≠ 0 → s.producer = .destroyed ∧ s.consumer = .gone) := by
  obtain ⟨stage, paced⟩ := reachable_paced reached
  obtain ⟨producer, consumer⟩ := paced.not_failed
  refine ⟨producer, consumer, ?_, fun destroyed => ?_⟩ <;> have count := paced.destroyed
  · split at count <;> omega
  · split at count
    · next place => exact ⟨place, paced.destroyed_gone place⟩
    · exact absurd count destroyed

theorem generator_sound_two_values : (visited 26).state = .cancelled ∧
    (visited 26).producer ≠ .failed ∧ (visited 26).destroyed ≤ 1 := by
  obtain ⟨producer, _, once, _⟩ := generator_sound (visited_reachable 26)
  exact ⟨rfl, producer, once⟩

theorem iterator_refers (reached : Reachable step ({ currentValue } : Generator V E) s) :
    (s.consumer = .active .value → ∃ v, s.currentValue = some v ∧
      s.taken.getLast? = some (some v) ∧ s.given = s.taken ∧ s.producer ≠ .running ∧
      s.destroyed = 0) ∧
    (s.consumer = .active .finished → s.given = s.taken ∧ s.rethrown = s.thrown ∧
      ∃ vs : List V, s.taken = vs.map some ++ [none]) := by
  obtain ⟨⟨stage, paced⟩, ends⟩ := reachable_ends reached
  have idle : ∀ cursor, s.consumer = .active cursor → s.given = s.taken := by
    intro cursor here
    have fits := paced.fits
    have order := paced.order
    rw [here] at fits
    generalize s.state = state, s.producer = producer at fits
    cases fits with
    | rests | between => simpa [Stage.left] using order
    | ready waits => rcases waits with waits | waits | waits <;> cases waits
    | works waits => cases waits
    | offers _ waits => cases waits
  refine ⟨fun here => ?_, fun here => ?_⟩
  · obtain ⟨v, value, last⟩ := ends.held here
    refine ⟨v, value, last, idle _ here, fun place => paced.not_active place _ here, ?_⟩
    rw [paced.destroyed, if_neg]
    intro place
    cases here.symm.trans (paced.destroyed_gone place)
  · obtain ⟨final, rethrown⟩ := ends.finished here
    obtain ⟨vs, given⟩ := ends.values
    rw [final] at given
    exact ⟨idle _ here, rethrown, vs, (idle _ here).symm.trans given⟩

theorem iterator_refers_two_values : ∃ v, (visited 11).currentValue = some v ∧
    (visited 11).taken.getLast? = some (some v) ∧ (visited 11).given = (visited 11).taken ∧
    (visited 11).producer ≠ .running ∧ (visited 11).destroyed = 0 :=
  (iterator_refers (visited_reachable 11)).1 rfl

def ProducerGoes (s : Generator V E) : Prop := s.producer = .running ∨ s.producerStep ≠ none

def ConsumerGoes (s : Generator V E) : Prop :=
  (∃ cursor, s.consumer = .active cursor) ∨ (∃ state, s.consumer = .operating state) ∨
    s.consumer = .gone ∨ s.consumerStep ≠ none

theorem not_producerGoes (stuck : ¬ ProducerGoes s) :
    s.producer = .suspended ∨ s.producer = .destroyed ∨ s.producer = .failed ∨
      (∃ site, s.producer = .loading site) ∧ s.consumerReturns = true := by
  obtain ⟨idle, stuck⟩ := not_or.mp stuck
  cases place : s.producer <;> simp only [producerStep, place] at stuck <;> grind

theorem not_consumerGoes (stuck : ¬ ConsumerGoes s) :
    s.consumer = .suspended ∨ s.consumer = .failed ∨
      (∃ site, s.consumer = .loading site) ∧ s.producerReturns = true := by
  simp only [ConsumerGoes, not_or] at stuck
  obtain ⟨active, operating, gone, stuck⟩ := stuck
  cases place : s.consumer <;> simp only [consumerStep, place] at stuck <;> grind

theorem Fits.not_both_suspended {state : State}
    (fits : Fits state .suspended .suspended stage) : False := by
  cases fits with
  | rests between => rcases between with between | ⟨_, between⟩ <;> cases between
  | ready waits => rcases waits with waits | waits | waits <;> cases waits
  | offers offers => cases offers
  | continues continues => cases continues
  | wakes offers => rcases offers with offers | ⟨_, offers⟩ <;> cases offers
  | between returns => cases returns

theorem Fits.not_both_loading {state : State} {site other : Site}
    (fits : Fits state (.loading site) (.loading other) stage) : False := by
  cases fits with
  | offers offers => cases offers
  | between _ between => cases between

theorem Fits.of_gone {state : State} {p : Producer} (fits : Fits state p .gone stage) :
    state = .cancelled ∧ p.abandoned = true := by
  cases fits with
  | gone abandoned => exact ⟨rfl, abandoned⟩
  | rests between => rcases between with between | ⟨_, between⟩ <;> cases between
  | ready waits => rcases waits with waits | waits | waits <;> cases waits
  | works waits => cases waits
  | offers _ waits => cases waits
  | between _ between => cases between

theorem generator_live (reached : Reachable step ({ currentValue } : Generator V E) s) :
    ProducerGoes s ∨ ConsumerGoes s := by
  obtain ⟨stage, paced⟩ := reachable_paced reached
  obtain ⟨producer, consumer⟩ := paced.not_failed
  have gone := paced.destroyed_gone
  obtain ⟨fits, _, _, _, _, _, producerReturns, consumerReturns, _⟩ := paced
  by_contra stuck
  obtain ⟨producerStuck, consumerStuck⟩ := not_or.mp stuck
  rcases not_producerGoes producerStuck with place | place | place | ⟨⟨site, place⟩, set⟩
  · rcases not_consumerGoes consumerStuck with here | here | ⟨_, set⟩
    · rw [place, here] at fits
      exact fits.not_both_suspended
    · exact consumer here
    · exact (producerReturns set).2 place
  · exact consumerStuck (.inr (.inr (.inl (gone place))))
  · exact producer place
  · rcases not_consumerGoes consumerStuck with here | here | ⟨⟨other, here⟩, _⟩
    · exact (consumerReturns set).2 here
    · exact consumer here
    · rw [place, here] at fits
      exact fits.not_both_loading

theorem generator_live_two_values : (visited 19).consumer = .suspended ∧
    (ProducerGoes (visited 19) ∨ ConsumerGoes (visited 19)) :=
  ⟨rfl, generator_live (visited_reachable 19)⟩

/-- A generator that is destroyed while its producer is not suspended leaves no frame behind: in the
code of the generator the producer is at most three steps from the end of its frame. -/
theorem abandoned_ends (reached : Reachable step ({ currentValue } : Generator V E) s)
    (gone : s.consumer = .gone) (left : s.consumerReturns = false) :
    s.producer = .running ∨ ∃ n ≤ 3, ∃ t,
      exec step s (List.replicate n .producer) = some t ∧ t.producer = .destroyed ∧
        t.destroyed = 1 := by
  obtain ⟨stage, paced⟩ := reachable_paced reached
  obtain ⟨fits, _, _, _, _, _, _, _, count⟩ := paced
  rw [gone] at fits
  obtain ⟨cancelled, abandoned⟩ := fits.of_gone
  cases place : s.producer with
  | running => exact .inl rfl
  | destroyed => exact .inr ⟨0, by omega, s, rfl, place, by rw [count, if_pos place]⟩
  | destroying =>
      refine .inr ⟨1, by omega, ?_⟩
      simp [exec, step, producerStep, place, count]
  | swappingNotReady | swappingReady =>
      refine .inr ⟨2, by omega, ?_⟩
      simp [List.replicate, exec, step, producerStep, settle, place, cancelled, count]
  | yielding =>
      refine .inr ⟨3, by omega, ?_⟩
      simp [List.replicate, exec, step, producerStep, settle, place, cancelled, count]
  | loading site =>
      cases site with
      | create =>
          refine .inr ⟨3, by omega, ?_⟩
          simp [List.replicate, exec, step, producerStep, settle, place, cancelled, left, count]
      | suspend =>
          refine .inr ⟨2, by omega, ?_⟩
          simp [List.replicate, exec, step, producerStep, settle, place, cancelled, left, count]
  | operating initialState =>
      rw [place] at abandoned
      cases initialState with
      | cancelled =>
          refine .inr ⟨2, by omega, ?_⟩
          simp [List.replicate, exec, step, producerStep, settle, place, count]
      | valueNotReadyConsumerActive | valueReadyProducerActive =>
          refine .inr ⟨3, by omega, ?_⟩
          simp [List.replicate, exec, step, producerStep, settle, place, cancelled, count]
      | _ => cases abandoned
  | _ =>
      rw [place] at abandoned
      cases abandoned

theorem abandoned_ends_two_values : (visited 26).producer = .running ∨ ∃ n ≤ 3, ∃ t,
    exec step (visited 26) (List.replicate n .producer) = some t ∧ t.producer = .destroyed ∧
      t.destroyed = 1 :=
  abandoned_ends (visited_reachable 26) rfl rfl

end Ice.Async.Generator
