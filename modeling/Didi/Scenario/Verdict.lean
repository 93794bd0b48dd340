import Didi.Scenario.Sequence

/-!
# A scenario passes only on proof

* `Proven` : what a pass says of a run;
* `Truthful` : the run answers pass iff it is proven, tears the game down once and last, starts no step after a
  failure, and counts every assertion;
* `truthful_iff` : a run is so iff every reply it gets is one that it can read; otherwise its exception escapes, and the
  game is not torn down.
-/

namespace Didi.Scenario
open Locked RunM

def Event.isTeardown : Event → Bool
  | .called _ .teardown _ => true
  | _ => false

/-- What a pass says of a run. -/
structure Proven (spec : ScenarioSpec) (s : RunState) : Prop where
  launched : ∃ game, .called none .launch (.answer game) ∈ s.events
  inOrder : s.events.filterMap Event.startedStep = List.range spec.steps.length
  finished : ∀ index step, spec.steps[index]? = some step → Finished s index step
  answered : ∀ step c reply, .called step c reply ∈ s.events → ∃ body, reply = .answer body
  held : ∀ index step, spec.steps[index]? = some step → step.isAssertion → Holds step index s.events
  proved : ∃ index step, spec.steps[index]? = some step ∧ step.provesSomething ∧ Holds step index s.events
  notCancelled : ∀ reply, .polledCancelled reply ∈ s.events → reply = .ok false
  inTime : ∀ reply, .polledElapsed reply ∈ s.events → ∃ ms, reply = .ok ms ∧ ms ≤ spec.timeoutSeconds * 1000
  tornDown : ∃ body, .called none .teardown (.answer body) ∈ s.events

/-- The game is torn down once, and no call is made after that. -/
def TornDownLast (events : List Event) : Prop :=
  ∃ before reply after, events = before ++ .called none .teardown reply :: after ∧
    (∀ e ∈ before, e.isTeardown = false) ∧ ∀ e ∈ after, e.isFailed

/-- Every assertion of the scenario is counted once. -/
def CountsAll (spec : ScenarioSpec) (counts : AssertionCounts) : Prop :=
  counts.total = spec.steps.countP ScenarioStep.isAssertion ∧
    counts.held + counts.failed + counts.notRun = counts.total

/-- The run ends with an outcome that says what happened. -/
def Truthful (spec : ScenarioSpec) (driver : Driver) : Prop :=
  ∃ outcome final, runScenario spec driver = (.ok outcome, final) ∧ (outcome.verdict = .pass ↔ Proven spec final) ∧
    TornDownLast final.events ∧ StartsFirst final.events ∧ CountsAll spec outcome.report.assertions

/-! ### The end of a run -/

/-- A failure that is not of a step: it is recorded unless there is one. -/
theorem wp_fail_none_bind {β : Type} {stage : Stage} {reason message : String} {cause : Option Error}
    {f : Unit → RunM β} {P : Except Thrown β → RunState → Prop} {s : RunState}
    (h : ∀ s' : RunState, outcomes s' = outcomes s → s'.steps = s.steps → s'.failure ≠ none →
      (∃ after, s'.events = s.events ++ after ∧ ∀ e ∈ after, e.isFailed) → (f ()).wp P s') :
    (fail stage none reason message cause >>= f).wp P s := by
  by_cases hs : s.failure.isSome
  · have hrun : (fail stage none reason message cause).run s = (.ok (), s) := by
      simp only [RunM.fail, run, hs, if_true]
    exact wp_run_bind hrun (h s rfl rfl (Option.isSome_iff_ne_none.mp hs) ⟨[], by simp, by simp⟩)
  · have hrun : (fail stage none reason message cause).run s = (.ok (), { s with
        failure := some { stage, step := none, reason, message, cause }
        events := s.events ++ [.failed stage] }) := by
      simp only [RunM.fail, run, hs]
      rfl
    exact wp_run_bind hrun (h _ rfl rfl (by simp) ⟨[.failed stage], rfl, by simp [Event.isFailed]⟩)

theorem countAssertions_total {spec : ScenarioSpec} {entries : List StepEntry}
    (h : entries.length = spec.steps.length) :
    (assertionOutcomes spec entries).length = spec.steps.countP ScenarioStep.isAssertion := by
  unfold assertionOutcomes
  rw [← List.countP_eq_length_filter, List.countP_map]
  generalize spec.steps = steps at h
  induction steps generalizing entries with
  | nil => simp
  | cons step steps ih =>
    cases entries with
    | nil => simp at h
    | cons entry entries =>
      rw [List.zip_cons_cons, List.countP_cons, List.countP_cons, ih (by simpa using h)]
      rfl

theorem countAssertions_sum (l : List (ScenarioStep × Outcome)) :
    (countAssertions l).held + (countAssertions l).failed + (countAssertions l).notRun = (countAssertions l).total := by
  simp only [countAssertions]
  induction l with
  | nil => rfl
  | cons p l ih =>
    simp only [List.countP_cons, List.length_cons]
    cases p.2 <;> simp at ih ⊢ <;> omega

/-- What the end of a run leaves. -/
structure Ended (spec : ScenarioSpec) (s : RunState) (outcome : ScenarioOutcome) (s' : RunState) : Prop where
  outcomes : Scenario.outcomes s' = Scenario.outcomes s
  events : ∃ after, s'.events = s.events ++ after ∧ ∀ e ∈ after, e.isFailed
  pass : outcome.verdict = .pass ↔ s.failure = none ∧ (∃ p ∈ assertionOutcomes spec s.steps, p.2 = .held ∧
    p.1.provesSomething) ∧ ∀ o ∈ Scenario.outcomes s, o = .done ∨ o = .held
  counts : outcome.report.assertions = countAssertions (assertionOutcomes spec s.steps)

theorem verdictOf_eq_pass {f : Option ScenarioFailure} : verdictOf f = .pass ↔ f = none := by
  cases f with
  | none => simp [verdictOf]
  | some f =>
    simp only [verdictOf]
    split_ifs <;> simp

theorem finish_wp {spec : ScenarioSpec} {teardown : Json} {teardownError : Option Error} (s : RunState) :
    (finish spec teardown teardownError).wp (fun r s' => ∃ outcome, r = .ok outcome ∧ Ended spec s outcome s') s := by
  have hproving : ((assertionOutcomes spec s.steps).countP fun p => decide (p.2 = .held) && p.1.provesSomething) = 0 ↔
      ¬ ∃ p ∈ assertionOutcomes spec s.steps, p.2 = .held ∧ p.1.provesSomething := by
    rw [List.countP_eq_zero]
    constructor
    · rintro h ⟨p, hp, hheld, hproves⟩
      exact h p hp (by simp [hheld, hproves])
    · intro h p hp hc
      simp only [Bool.and_eq_true, decide_eq_true_iff] at hc
      exact h ⟨p, hp, hc.1, hc.2⟩
  have hran : (s.steps.all fun entry => decide (entry.outcome = .done) || decide (entry.outcome = .held)) = true ↔
      ∀ o ∈ Scenario.outcomes s, o = .done ∨ o = .held := by
    simp [Scenario.outcomes]
  unfold finish
  refine wp_fetch_bind (wp_ite_bind (fun hunproved => ?_) fun hproved => ?_)
  · refine wp_fail_none_bind fun s' hout _ hfail hev => wp_fetch_bind (wp_pure ⟨_, rfl, hout, hev, ?_, rfl⟩)
    rw [verdictOf_eq_pass]
    rw [hproving, hran] at hunproved
    exact iff_of_false hfail fun h => hunproved.2.elim (fun hno => hno h.2.1) fun hno => hno h.2.2
  · have hrun : (pure () : RunM Unit).run s = (.ok (), s) := rfl
    refine wp_run_bind hrun (wp_fetch_bind (wp_pure ⟨_, rfl, rfl, ⟨[], by simp, by simp⟩, ?_, rfl⟩))
    rw [verdictOf_eq_pass]
    rw [hproving, hran, Option.isNone_iff_eq_none, not_and, not_or, not_not, not_not] at hproved
    exact ⟨fun h => ⟨h, hproved h⟩, fun h => h.1⟩

/-! ### The whole run -/

/-- What the launch and the steps leave, when no exception escaped. -/
structure Driven (spec : ScenarioSpec) (s : RunState) : Prop where
  readable : ∀ e ∈ s.events, e.Readable spec
  noTeardown : ∀ e ∈ s.events, e.isTeardown = false
  starts : StartsFirst s.events
  length : (outcomes s).length = spec.steps.length
  result : s.failure = none ∧ (∃ game, .called none .launch (.answer game) ∈ s.events) ∧
      AllFinished spec 0 spec.steps s.events s ∨
    s.failure ≠ none ∧ ((∃ j, Unfinished s j) ∨
      ∃ reply, .called none .launch reply ∈ s.events ∧ ¬ ∃ body, reply = .answer body)

theorem initial_length (spec : ScenarioSpec) : (outcomes (initial spec)).length = spec.steps.length := by
  simp [outcomes, initial]

theorem driveGame_wp (driver : Driver) (spec : ScenarioSpec) (reply : Reply) :
    (driveGame driver spec (guarded reply)).wp (fun r s' => match r with
      | .error _ => ∃ e ∈ s'.events, ¬ e.Readable spec
      | .ok _ => Driven spec s') (push (initial spec) (.called none .launch reply)) := by
  have hreadable : (Event.called none .launch reply).Readable spec := by cases reply <;> trivial
  cases hreply : guarded reply with
  | error error =>
    refine wp_mono (Q := fun r s' => r = .ok () ∧ outcomes s' = outcomes (initial spec) ∧ s'.failure ≠ none ∧
      s'.events = [.called none .launch reply, .failed .launch])
      ⟨rfl, rfl, by simp [driveGame, run, RunM.fail, push, initial], rfl⟩ fun r s' h => ?_
    obtain ⟨rfl, hout, hfail, hev⟩ := h
    refine ⟨?_, ?_, ?_, by rw [hout, initial_length], .inr ⟨hfail, .inr ⟨reply, ?_, guarded_error hreply⟩⟩⟩
    · rw [hev]
      exact List.forall_mem_cons.mpr ⟨hreadable, by simp [Event.Readable]⟩
    · rw [hev]
      simp [Event.isTeardown]
    · rw [hev]
      simp [StartsFirst, Event.startedStep]
    · rw [hev]
      exact List.mem_cons_self
  | ok game =>
    have hanswer := guarded_ok hreply
    refine wp_run_bind rfl (wp_mono (runSteps_wp spec.steps 0 _ (fun k => by rw [Nat.zero_add]) rfl
      (initial_length spec)) fun r s' h => ?_)
    obtain ⟨events, hev, hfrom, hbelow, hstarts, hr⟩ := h
    have hev' : s'.events = .called none .launch reply :: events := hev
    cases r with
    | error thrown =>
      obtain ⟨e, he, hbad⟩ := hr
      exact ⟨e, by rw [hev']; exact List.mem_cons_of_mem _ he, hbad⟩
    | ok u =>
      refine ⟨?_, ?_, ?_, by rw [hbelow.1]; exact initial_length spec, hr.2.imp (fun h => ?_) fun h => ?_⟩
      · rw [hev']
        exact List.forall_mem_cons.mpr ⟨hreadable, hr.1⟩
      · rw [hev']
        refine List.forall_mem_cons.mpr ⟨rfl, fun e he => ?_⟩
        have hcall := hfrom e he
        cases e with
        | called step call reply =>
          cases call with
          | teardown => exact absurd rfl hcall.2.2
          | _ => rfl
        | _ => rfl
      · rw [hev']
        exact List.pairwise_cons.mpr ⟨fun e he hf => (by cases hf), hstarts⟩
      · refine ⟨h.1, ⟨game, by rw [hev', hanswer]; exact List.mem_cons_self⟩, ?_⟩
        rw [hev']
        refine ⟨List.forall_mem_cons.mpr ⟨⟨game, hanswer⟩, h.2.good⟩, h.2.inOrder, h.2.finished, fun k step hk => ?_⟩
        refine holds_congr (fun c r => ?_) (h.2.holds k step hk)
        rw [List.mem_cons, or_iff_right (by rintro ⟨⟩)]
      · obtain ⟨hfail, j, -, hun⟩ := h
        exact ⟨hfail, .inl ⟨j, hun⟩⟩

theorem finished_outcome {s : RunState} {index : Nat} {step : ScenarioStep} (h : Finished s index step) :
    ¬ Unfinished s index := by
  rintro ⟨o, ho, hdone, hheld⟩
  rw [Finished, ho, Option.some.injEq] at h
  unfold finishedOutcome at h
  split_ifs at h
  · exact hheld h
  · exact hdone h

/-- What the assertions of the scenario came to, as the verdict counts them. -/
theorem mem_assertionOutcomes {spec : ScenarioSpec} {s : RunState} {p : ScenarioStep × Outcome} :
    p ∈ assertionOutcomes spec s.steps ↔ p.1.isAssertion ∧
      ∃ index : Nat, spec.steps[index]? = some p.1 ∧ (outcomes s)[index]? = some p.2 := by
  unfold assertionOutcomes outcomes
  rw [List.mem_filter, List.mem_map, and_comm]
  refine and_congr_right fun _ => ?_
  constructor
  · rintro ⟨q, hq, rfl⟩
    obtain ⟨index, hindex⟩ := List.mem_iff_getElem?.mp hq
    obtain ⟨hstep, hentry⟩ := List.getElem?_zip_eq_some.mp hindex
    exact ⟨index, hstep, by simp [hentry]⟩
  · rintro ⟨index, hstep, hout⟩
    rw [List.getElem?_map, Option.map_eq_some_iff] at hout
    obtain ⟨entry, hentry, hout⟩ := hout
    refine ⟨(p.1, entry), List.mem_iff_getElem?.mpr ⟨index, ?_⟩, by rw [hout]⟩
    exact List.getElem?_zip_eq_some.mpr ⟨hstep, hentry⟩

/-- How the run ends after the steps, with the reply of the teardown. -/
def RunPost (spec : ScenarioSpec) (r : Except Thrown ScenarioOutcome) (s : RunState) : Prop :=
  match r with
  | .error _ => ∃ e ∈ s.events, ¬ e.Readable spec
  | .ok outcome => (∀ e ∈ s.events, e.Readable spec) ∧ (outcome.verdict = .pass ↔ Proven spec s) ∧
      TornDownLast s.events ∧ StartsFirst s.events ∧ CountsAll spec outcome.report.assertions

/-- The state after the teardown, before the verdict. -/
structure TornDown (spec : ScenarioSpec) (driven s : RunState) (reply : Reply) : Prop where
  outcomes : Scenario.outcomes s = Scenario.outcomes driven
  steps : s.steps = driven.steps
  failure : s.failure = none ↔ driven.failure = none ∧ ∃ body, reply = .answer body
  events : ∃ after, s.events = driven.events ++ .called none .teardown reply :: after ∧ ∀ e ∈ after, e.isFailed

theorem isAssertion_of_proves {step : ScenarioStep} (h : step.provesSomething) : step.isAssertion := by
  unfold ScenarioStep.provesSomething at h
  unfold ScenarioStep.isAssertion
  rcases Bool.or_eq_true_iff.mp h with h | h
  · rw [h, Bool.true_or]
  · rw [(Bool.and_eq_true_iff.mp h).1, Bool.or_true]

/-- Only the start of a step has a step that it starts. -/
theorem startedStep_of_failed {e : Event} (h : e.isFailed) : e.startedStep = none := by
  cases e with
  | started index => cases h
  | _ => rfl

section End
variable {spec : ScenarioSpec} {driven s s' : RunState} {reply : Reply} {outcome : ScenarioOutcome}
  {after : List Event}

/-- What can follow the teardown is of no call and of no step. -/
theorem mem_end {e : Event} (hall : s'.events = driven.events ++ .called none .teardown reply :: after)
    (hafter : ∀ e ∈ after, e.isFailed) (he : e.isFailed = false) :
    e ∈ s'.events ↔ e ∈ driven.events ∨ e = .called none .teardown reply := by
  rw [hall, List.mem_append, List.mem_cons]
  refine or_congr_right (or_iff_left fun hmem => ?_)
  rw [hafter e hmem] at he
  cases he

theorem proven_of_finished (hd : AllFinished spec 0 spec.steps driven.events driven)
    (hlaunch : ∃ game, .called none .launch (.answer game) ∈ driven.events) {body : Json}
    (hout : outcomes s' = outcomes driven)
    (hall : s'.events = driven.events ++ .called none .teardown (.answer body) :: after)
    (hafter : ∀ e ∈ after, e.isFailed)
    (hproved : ∃ (index : Nat) (step : ScenarioStep), spec.steps[index]? = some step ∧ step.provesSomething) :
    Proven spec s' := by
  have hmem := fun e he => mem_end (e := e) hall hafter he
  have hholds : ∀ index step, spec.steps[index]? = some step → Holds step index s'.events := fun index step h => by
    have hstep := hd.holds index step h
    rw [Nat.zero_add] at hstep
    refine holds_congr (fun c r => ?_) hstep
    rw [hmem _ rfl, or_iff_left (by simp)]
  refine ⟨?_, ?_, fun index step h => ?_, fun step c r h => ?_, fun index step h _ => hholds index step h, ?_,
    fun r h => ?_, fun r h => ?_, body, ?_⟩
  · obtain ⟨game, hgame⟩ := hlaunch
    exact ⟨game, (hmem _ rfl).mpr (.inl hgame)⟩
  · have hnone : (Event.called none .teardown (.answer body) :: after).filterMap Event.startedStep = [] := by
      exact List.filterMap_eq_nil_iff.mpr
        (List.forall_mem_cons.mpr ⟨rfl, fun e he => startedStep_of_failed (hafter e he)⟩)
    rw [hall, List.filterMap_append, hnone, List.append_nil, hd.inOrder, List.range_eq_range']
  · have hstep := hd.finished index step h
    rw [Nat.zero_add] at hstep
    rwa [Finished, hout]
  · rcases (hmem _ rfl).mp h with h | h
    · exact hd.good _ h
    · cases h
      exact ⟨body, rfl⟩
  · obtain ⟨index, step, hstep, hproves⟩ := hproved
    exact ⟨index, step, hstep, hproves, hholds index step hstep⟩
  · exact hd.good _ (((hmem _ rfl).mp h).resolve_right (by simp))
  · exact hd.good _ (((hmem _ rfl).mp h).resolve_right (by simp))
  · exact (hmem _ rfl).mpr (.inr rfl)

/-- A run that is proven recorded no failure before the teardown. -/
theorem failure_of_proven (hd : Driven spec driven) (hout : outcomes s' = outcomes driven)
    (hmem : ∀ e ∈ driven.events, e ∈ s'.events) (hp : Proven spec s') : driven.failure = none := by
  by_contra hfail
  obtain ⟨-, ⟨j, hun⟩ | ⟨launch, hlaunch, hno⟩⟩ := hd.result.resolve_left fun h => hfail h.1
  · obtain ⟨o, ho, -⟩ := id hun
    have hj : j < spec.steps.length := hd.length ▸ (List.getElem?_eq_some_iff.mp ho).1
    have hfinished := hp.finished j spec.steps[j] (List.getElem?_eq_getElem hj)
    rw [Finished, hout] at hfinished
    exact finished_outcome hfinished hun
  · exact hno (hp.answered _ _ _ (hmem _ hlaunch))

theorem runPost_of_ended (hd : Driven spec driven) (ht : TornDown spec driven s reply)
    (he : Ended spec s outcome s') : RunPost spec (.ok outcome) s' := by
  obtain ⟨after, hev, hafter⟩ := ht.events
  obtain ⟨after', hev', hafter'⟩ := he.events
  have hall : s'.events = driven.events ++ .called none .teardown reply :: (after ++ after') := by
    rw [hev', hev, List.append_assoc, List.cons_append]
  have hfailed : ∀ e ∈ after ++ after', e.isFailed := List.forall_mem_append.mpr ⟨hafter, hafter'⟩
  have hout : outcomes s' = outcomes driven := he.outcomes.trans ht.outcomes
  refine ⟨?_, ?_, ⟨_, _, _, hall, hd.noTeardown, hfailed⟩, ?_, ?_⟩
  · rw [hall]
    refine List.forall_mem_append.mpr ⟨hd.readable, List.forall_mem_cons.mpr ⟨by cases reply <;> trivial, fun e h => ?_⟩⟩
    have hf := hfailed e h
    cases e with
    | failed stage => trivial
    | _ => cases hf
  · rw [he.pass, ht.failure]
    constructor
    · rintro ⟨⟨hfail, body, rfl⟩, ⟨p, hp, -, hproves⟩, -⟩
      obtain ⟨-, hlaunch, hfinished⟩ := hd.result.resolve_right fun h => h.1 hfail
      obtain ⟨-, index, hstep, -⟩ := mem_assertionOutcomes.mp hp
      exact proven_of_finished hfinished hlaunch hout hall hfailed ⟨index, p.1, hstep, hproves⟩
    · intro hp
      have hmem : ∀ e ∈ driven.events, e ∈ s'.events := fun e h => by
        rw [hall]
        exact List.mem_append_left _ h
      refine ⟨⟨failure_of_proven hd hout hmem hp, hp.answered none .teardown reply ?_⟩, ?_, fun o ho => ?_⟩
      · rw [hall]
        exact List.mem_append_right _ List.mem_cons_self
      · obtain ⟨index, step, hstep, hproves, -⟩ := hp.proved
        have hassert := isAssertion_of_proves hproves
        have hfinished := hp.finished index step hstep
        rw [Finished, finishedOutcome, if_pos hassert, he.outcomes] at hfinished
        exact ⟨(step, .held), mem_assertionOutcomes.mpr ⟨hassert, index, hstep, hfinished⟩, rfl, hproves⟩
      · obtain ⟨j, hj⟩ := List.mem_iff_getElem?.mp ho
        have hlt : j < spec.steps.length := by
          rw [← hd.length, ← ht.outcomes]
          exact (List.getElem?_eq_some_iff.mp hj).1
        have hfinished := hp.finished j spec.steps[j] (List.getElem?_eq_getElem hlt)
        rw [Finished, he.outcomes, hj, Option.some.injEq] at hfinished
        rw [hfinished, finishedOutcome]
        split_ifs
        · exact .inr rfl
        · exact .inl rfl
  · have htail : ∀ e ∈ Event.called none .teardown reply :: (after ++ after'), e.startedStep = none :=
      List.forall_mem_cons.mpr ⟨rfl, fun e h => startedStep_of_failed (hfailed e h)⟩
    rw [hall]
    refine List.pairwise_append.mpr ⟨hd.starts, ?_, fun a _ b hb _ => htail b hb⟩
    exact List.pairwise_of_forall_mem_list fun a _ b hb _ => htail b hb
  · have hlen : s.steps.length = spec.steps.length := by
      rw [ht.steps, ← hd.length]
      simp [outcomes]
    rw [he.counts]
    exact ⟨countAssertions_total hlen, countAssertions_sum _⟩

end End

theorem execute_wp (driver : Driver) (spec : ScenarioSpec) :
    (execute driver spec).wp (RunPost spec) (initial spec) := by
  unfold execute
  refine wp_call_bind fun launch => wp_bind (wp_mono (driveGame_wp driver spec launch) fun r driven hd => ?_)
  cases r with
  | error thrown => exact hd
  | ok u =>
    refine wp_call_bind fun reply => ?_
    cases hreply : guarded reply with
    | error error =>
      refine wp_fail_none_bind fun s hout hsteps hfail hev => wp_mono (finish_wp s) fun r s' h => ?_
      obtain ⟨outcome, rfl, he⟩ := h
      obtain ⟨after, hev, hafter⟩ := hev
      have htorn : TornDown spec driven s reply := by
        refine ⟨hout, hsteps, iff_of_false hfail fun h => guarded_error hreply h.2, after, ?_, hafter⟩
        rw [hev, push, List.append_assoc]
        rfl
      exact runPost_of_ended hd htorn he
    | ok body =>
      refine wp_mono (finish_wp _) fun r s' h => ?_
      obtain ⟨outcome, rfl, he⟩ := h
      have htorn : TornDown spec driven (push driven (.called none .teardown reply)) reply :=
        ⟨rfl, rfl, (and_iff_left ⟨body, guarded_ok hreply⟩).symm, [], rfl, by simp⟩
      exact runPost_of_ended hd htorn he

/-- A run is truthful exactly when it can read every reply it gets. -/
theorem truthful_iff (spec : ScenarioSpec) (driver : Driver) :
    Truthful spec driver ↔ ∀ e ∈ (runScenario spec driver).2.events, e.Readable spec := by
  have hpost : RunPost spec (runScenario spec driver).1 (runScenario spec driver).2 := execute_wp driver spec
  rw [Truthful]
  generalize runScenario spec driver = run at hpost ⊢
  obtain ⟨r, final⟩ := run
  cases r with
  | error thrown =>
    obtain ⟨e, he, hbad⟩ := hpost
    refine iff_of_false ?_ fun h => hbad (h e he)
    rintro ⟨outcome, final', hrun, -⟩
    cases hrun
  | ok outcome => exact iff_of_true ⟨outcome, final, rfl, hpost.2⟩ hpost.1

/-- One assertion, that a `true` is true. -/
def oneAssertion : ScenarioSpec where
  name := "start"
  scenePath := "res://main.tscn"
  steps := [{ kind := .assertValue, expression := "true" }]

/-- A game that answers the type of a value by a number. -/
def numberedTypes : Driver where
  reply _ call := match call with
    | .evaluate _ _ => .answer (.object [("value", .boolean true), ("value_type", .integer 5)])
    | _ => .answer (.object [])
  cancelled _ := .ok false
  elapsedMs _ := .ok 0

/-- The exception of the reading escapes, and the game is not torn down. -/
theorem not_truthful_numberedTypes : ¬ Truthful oneAssertion numberedTypes := by
  rintro ⟨outcome, final, hrun, -⟩
  have hthrown : (runScenario oneAssertion numberedTypes).1.isOk = false := by decide
  rw [hrun] at hthrown
  cases hthrown

end Didi.Scenario
