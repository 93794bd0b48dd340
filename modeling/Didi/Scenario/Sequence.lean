import Didi.Scenario.Steps

/-!
# The steps of a run, one after the other

* `StepsPost` : what the steps from one on leave: all of them finished in order on good events alone, or a failure with
  an unfinished step, or an unreadable reply; no step starts after a failure;
* `runSteps_wp` : the loop of `execute`, by induction on the steps that are left.
-/

namespace Didi.Scenario
open Locked RunM
variable {steps : List ScenarioStep} {spec : ScenarioSpec}

/-- An event of the steps from `first` on. -/
def Event.From (first : Nat) : Event → Prop
  | .called step call _ => (∃ j, step = some j ∧ first ≤ j) ∧ call ≠ .launch ∧ call ≠ .teardown
  | _ => True

theorem Event.Within.from {e : Event} {first index : Nat} (h : e.Within index) (hle : first ≤ index) : e.From first := by
  cases e with
  | called step call reply => exact ⟨⟨index, h.1, hle⟩, h.2⟩
  | _ => trivial

theorem Event.From.mono {e : Event} {first first' : Nat} (h : e.From first') (hle : first ≤ first') : e.From first := by
  cases e with
  | called step call reply =>
    obtain ⟨⟨j, hj, hfirst⟩, hcall⟩ := h
    exact ⟨⟨j, hj, hle.trans hfirst⟩, hcall⟩
  | _ => trivial

theorem Event.Within.startedStep {e : Event} {index : Nat} (h : e.Within index) : e.startedStep = none := by
  cases e with
  | started j => exact h.elim
  | _ => rfl

theorem Event.Good.isFailed {e : Event} (h : e.Good spec) : e.isFailed = false := by
  cases e with
  | failed stage => exact h.elim
  | _ => rfl

/-- No step starts after a failure. -/
def StartsFirst (events : List Event) : Prop := events.Pairwise fun a b => a.isFailed → b.startedStep = none

theorem startsFirst_of_within {events : List Event} {index : Nat} (h : ∀ e ∈ events, e.Within index) :
    StartsFirst events :=
  List.pairwise_of_forall_mem_list fun _ _ b hb _ => (h b hb).startedStep

theorem startsFirst_append_good {events events' : List Event} (h : ∀ e ∈ events, e.Good spec)
    (h' : StartsFirst events') : StartsFirst (events ++ events') := by
  refine List.pairwise_append.mpr ⟨?_, h', fun a ha b _ hf => ?_⟩
  · refine List.pairwise_of_forall_mem_list fun a ha b _ hf => ?_
    rw [(h a ha).isFailed] at hf
    cases hf
  · rw [(h a ha).isFailed] at hf
    cases hf

/-- The outcomes of the steps before `first` are as they were. -/
def SameBelow (first : Nat) (s s' : RunState) : Prop :=
  (outcomes s').length = (outcomes s).length ∧ ∀ j, j < first → (outcomes s')[j]? = (outcomes s)[j]?

theorem SameBut.below {first index : Nat} {s s' : RunState} (h : SameBut index s s') (hle : first ≤ index) :
    SameBelow first s s' := ⟨h.1, fun j hj => h.2 j (by omega)⟩

theorem SameBelow.trans {first first' : Nat} {s t u : RunState} (h : SameBelow first s t) (h' : SameBelow first' t u)
    (hle : first ≤ first') : SameBelow first s u :=
  ⟨h'.1.trans h.1, fun j hj => (h'.2 j (by omega)).trans (h.2 j hj)⟩

/-- The steps from `first` on have all finished, in order, and what they assert holds. -/
structure AllFinished (spec : ScenarioSpec) (first : Nat) (steps : List ScenarioStep) (events : List Event)
    (s : RunState) : Prop where
  good : ∀ e ∈ events, e.Good spec
  inOrder : events.filterMap Event.startedStep = List.range' first steps.length
  finished : ∀ k step, steps[k]? = some step → Finished s (first + k) step
  holds : ∀ k step, steps[k]? = some step → Holds step (first + k) events

/-- What the steps from `first` on leave. -/
def StepsPost (spec : ScenarioSpec) (first : Nat) (steps : List ScenarioStep) (s : RunState) (r : Except Thrown Unit)
    (s' : RunState) : Prop :=
  ∃ events, s'.events = s.events ++ events ∧ (∀ e ∈ events, e.From first) ∧ SameBelow first s s' ∧
    StartsFirst events ∧
    match r with
    | .error _ => ∃ e ∈ events, ¬ e.Readable spec
    | .ok _ => (∀ e ∈ events, e.Readable spec) ∧
        (s'.failure = none ∧ AllFinished spec first steps events s' ∨
          s'.failure ≠ none ∧ ∃ j, first ≤ j ∧ Unfinished s' j)

/-- What an assertion asserts is about the calls of its step alone. -/
theorem holds_congr {step : ScenarioStep} {index : Nat} {events events' : List Event}
    (h : ∀ c reply, .called (some index) c reply ∈ events ↔ .called (some index) c reply ∈ events')
    (hholds : Holds step index events) : Holds step index events' := by
  have hpage : ∀ page, ReadsPage step index events' page ↔ ReadsPage step index events page := fun page => by
    simp only [ReadsPage, h]
  unfold Holds at hholds ⊢
  cases hkind : step.kind with
  | assertValue => simpa only [hkind, h] using hholds
  | assertOutput => simpa only [hkind, hpage] using hholds
  | wait => trivial
  | waitUntil => trivial
  | press => trivial
  | capture => trivial

/-- Good events in front of what the rest of the steps leaves. -/
theorem StepsPost.prepend {first first' : Nat} {steps steps' : List ScenarioStep} {before : List Event}
    {s s₁ s' : RunState} {r : Except Thrown Unit} (hev : s₁.events = s.events ++ before)
    (hfrom : ∀ e ∈ before, e.From first) (hgood : ∀ e ∈ before, e.Good spec) (hread : ∀ e ∈ before, e.Readable spec)
    (hbelow : SameBelow first s s₁) (hle : first ≤ first')
    (hall : ∀ events, (∀ e ∈ events, e.From first') → SameBelow first' s₁ s' →
      AllFinished spec first' steps' events s' → AllFinished spec first steps (before ++ events) s')
    (h : StepsPost spec first' steps' s₁ r s') : StepsPost spec first steps s r s' := by
  obtain ⟨events, hev', hfrom', hbelow', hstarts, hr⟩ := h
  refine ⟨before ++ events, by rw [hev', hev, List.append_assoc],
    List.forall_mem_append.mpr ⟨hfrom, fun e he => (hfrom' e he).mono hle⟩, hbelow.trans hbelow' hle,
    startsFirst_append_good hgood hstarts, ?_⟩
  cases r with
  | error thrown =>
    obtain ⟨e, he, hbad⟩ := hr
    exact ⟨e, List.mem_append_right _ he, hbad⟩
  | ok u =>
    refine ⟨List.forall_mem_append.mpr ⟨hread, hr.1⟩, hr.2.imp (fun h => ⟨h.1, hall events hfrom' hbelow' h.2⟩) ?_⟩
    rintro ⟨hfail, j, hj, hun⟩
    exact ⟨hfail, j, hle.trans hj, hun⟩

/-- A step that stops, or that an unreadable reply ends, after good events in front of it. -/
theorem stepsPost_of_post {first : Nat} {before : List Event} {α : Type} {go : α → List Event → RunState → Prop}
    {stop : α → Prop} {s s₁ s' : RunState} {r : Except Thrown α} {r' : Except Thrown Unit}
    (hev : s₁.events = s.events ++ before) (hfrom : ∀ e ∈ before, e.From first) (hgood : ∀ e ∈ before, e.Good spec)
    (hread : ∀ e ∈ before, e.Readable spec) (hbelow : SameBelow first s s₁) (h : Post spec first go stop s₁ r s')
    (hr : (∃ thrown thrown', r = .error thrown ∧ r' = .error thrown') ∨
      ∃ a, r = .ok a ∧ r' = .ok () ∧ s'.failure ≠ none) : StepsPost spec first steps s r' s' := by
  obtain ⟨events, hev', hin, hsame, hpost⟩ := h
  refine ⟨before ++ events, by rw [hev', hev, List.append_assoc],
    List.forall_mem_append.mpr ⟨hfrom, fun e he => (hin e he).from (Nat.le_refl _)⟩,
    hbelow.trans (hsame.below (Nat.le_refl _)) (Nat.le_refl _),
    startsFirst_append_good hgood (startsFirst_of_within hin), ?_⟩
  rcases hr with ⟨thrown, thrown', rfl, rfl⟩ | ⟨a, rfl, rfl, hfail⟩
  · obtain ⟨e, he, hbad⟩ := hpost
    exact ⟨e, List.mem_append_right _ he, hbad⟩
  · refine ⟨List.forall_mem_append.mpr ⟨hread, hpost.1⟩, .inr ⟨hfail, first, Nat.le_refl _, ?_⟩⟩
    rcases hpost.2 with ⟨hnone, -⟩ | ⟨-, hun, -⟩
    · exact absurd hnone hfail
    · exact hun

/-- The same, where nothing but the start of the step is in front of it. -/
theorem stepsPost_of_started {first : Nat} {α : Type} {go : α → List Event → RunState → Prop} {stop : α → Prop}
    {s s' : RunState} {r : Except Thrown α} {r' : Except Thrown Unit}
    (h : Post spec first go stop (push s (.started first)) r s')
    (hr : (∃ thrown thrown', r = .error thrown ∧ r' = .error thrown') ∨
      ∃ a, r = .ok a ∧ r' = .ok () ∧ s'.failure ≠ none) : StepsPost spec first steps s r' s' := by
  have hev : (push s (.started first)).events = s.events ++ [.started first] := rfl
  exact stepsPost_of_post hev (by simp [Event.From]) (by simp [Event.Good]) (by simp [Event.Readable])
    ⟨rfl, fun _ _ => rfl⟩ h hr

/-- After a failure no further step starts. -/
theorem runSteps_failed {driver : Driver} (steps : List ScenarioStep) (first : Nat) {s : RunState}
    (hs : s.failure ≠ none) : (runSteps driver spec first steps).run s = (.ok (), s) := by
  cases steps with
  | nil => rfl
  | cons step steps =>
    have hsome : s.failure.isSome = true := Option.isSome_iff_ne_none.mpr hs
    unfold runSteps
    rw [run_bind]
    simp only [run, fetch, hsome, if_true]
    rfl

/-- What the polls before a step leave, in front of the step. -/
theorem allFinished_of_polls {first : Nat} {before events : List Event} {s : RunState}
    (hin : ∀ e ∈ before, e.Within first) (hgood : ∀ e ∈ before, e.Good spec) (hcall : ∀ e ∈ before, e.isCall = false)
    (h : AllFinished spec first steps events s) :
    AllFinished spec first steps (before ++ events) s where
  good := List.forall_mem_append.mpr ⟨hgood, h.good⟩
  inOrder := by
    rw [List.filterMap_append, List.filterMap_eq_nil_iff.mpr fun e he => (hin e he).startedStep, List.nil_append]
    exact h.inOrder
  finished := h.finished
  holds k step hstep := by
    refine holds_congr (fun c reply => ?_) (h.holds k step hstep)
    rw [List.mem_append, or_iff_right]
    intro hmem
    cases hcall _ hmem

/-- A step that finished, in front of those that follow. -/
theorem allFinished_cons {first : Nat} {step : ScenarioStep} {before events : List Event} {s s' : RunState}
    (hin : ∀ e ∈ before, e.Within first) (hgood : ∀ e ∈ before, e.Good spec) (hfinished : Finished s first step)
    (hholds : Holds step first before) (hfrom : ∀ e ∈ events, e.From (first + 1)) (hbelow : SameBelow (first + 1) s s')
    (h : AllFinished spec (first + 1) steps events s') :
    AllFinished spec first (step :: steps) (.started first :: before ++ events) s' where
  good := List.forall_mem_append.mpr ⟨List.forall_mem_cons.mpr ⟨trivial, hgood⟩, h.good⟩
  inOrder := by
    have hnone := List.filterMap_eq_nil_iff.mpr fun e he => (hin e he).startedStep
    rw [List.cons_append, List.filterMap_cons, List.filterMap_append, hnone, h.inOrder]
    rfl
  finished k step' hstep' := by
    cases k with
    | zero =>
      cases hstep'
      rw [Finished, Nat.add_zero, hbelow.2 first (Nat.lt_succ_self first)]
      exact hfinished
    | succ k =>
      have hrest := h.finished k step' hstep'
      rwa [Nat.add_right_comm, Nat.add_assoc] at hrest
  holds k step' hstep' := by
    cases k with
    | zero =>
      cases hstep'
      refine holds_congr (fun c reply => ?_) hholds
      rw [Nat.add_zero, List.mem_append, List.mem_cons, or_iff_left, or_iff_right]
      · simp
      · intro hmem
        obtain ⟨⟨j, hj, hle⟩, -⟩ := hfrom _ hmem
        cases hj
        omega
    | succ k =>
      have hrest := h.holds k step' hstep'
      rw [Nat.add_right_comm, Nat.add_assoc] at hrest
      refine holds_congr (fun c reply => ?_) hrest
      rw [List.mem_append, List.mem_cons, or_iff_right]
      rintro (hmem | hmem)
      · cases hmem
      · have hself := (hin _ hmem).1
        simp only [Option.some.injEq] at hself
        omega

theorem runSteps_wp {driver : Driver} (steps : List ScenarioStep) (first : Nat) (s : RunState)
    (hsteps : ∀ k, steps[k]? = spec.steps[first + k]?) (hs : s.failure = none)
    (hlen : (outcomes s).length = spec.steps.length) :
    (runSteps driver spec first steps).wp (StepsPost spec first steps s) s := by
  induction steps generalizing first s with
  | nil =>
    refine wp_pure ⟨[], by simp, by simp, ⟨rfl, fun _ _ => rfl⟩, List.Pairwise.nil, by simp, .inl ⟨hs, ?_⟩⟩
    exact ⟨by simp, rfl, fun k step h => by simp at h, fun k step h => by simp at h⟩
  | cons step steps ih =>
    have hstep : spec.steps[first]? = some step := by
      have h0 := hsteps 0
      simpa using h0.symm
    have hbegun : Begun first s := ⟨hs, hlen ▸ (List.getElem?_eq_some_iff.mp hstep).1⟩
    have hnone : s.events = s.events ++ [] := (List.append_nil _).symm
    unfold runSteps
    refine wp_fetch_bind ?_
    rw [hs]
    refine wp_bind (wp_mono (interrupted_wp hbegun false) fun r₁ s₁ h₁ => ?_)
    cases r₁ with
    | error thrown =>
      exact stepsPost_of_post hnone (by simp) (by simp) (by simp) ⟨rfl, fun _ _ => rfl⟩ h₁
        (.inl ⟨thrown, thrown, rfl, rfl⟩)
    | ok b =>
      cases b with
      | true =>
        have hfail : s₁.failure ≠ none := by
          obtain ⟨-, -, -, -, -, ⟨-, -, hgo, -⟩ | ⟨hfail, -⟩⟩ := h₁
          · cases hgo
          · exact hfail
        exact wp_pure (stepsPost_of_post hnone (by simp) (by simp) (by simp) ⟨rfl, fun _ _ => rfl⟩ h₁
          (.inr ⟨true, rfl, rfl, hfail⟩))
      | false =>
        obtain ⟨before, hev, hin, hsame, hread, ⟨hfail, hgood, -, hcall⟩ | ⟨-, -, hstop⟩⟩ := h₁
        · have hbegun₁ : Begun first s₁ := ⟨hfail, hsame.1 ▸ hbegun.entry⟩
          refine wp_mono (Q := StepsPost spec first (step :: steps) s₁) ?_ fun r s' h =>
            .prepend hev (fun e he => (hin e he).from (Nat.le_refl _)) hgood hread (hsame.below (Nat.le_refl _))
              (Nat.le_refl _) (fun events _ _ hall => allFinished_of_polls hin hgood hcall hall) h
          refine wp_bind (wp_mono (runStep_wp hstep hbegun₁) fun r₂ s₂ h₂ => ?_)
          cases r₂ with
          | error thrown => exact stepsPost_of_started h₂ (.inl ⟨thrown, thrown, rfl, rfl⟩)
          | ok u =>
            by_cases hfail₂ : s₂.failure = none
            · obtain ⟨events, hev₂, hin₂, hsame₂, hread₂, ⟨-, hgood₂, hfinished, hholds⟩ | ⟨hbad, -⟩⟩ := h₂
              · have hlen₂ : (outcomes s₂).length = spec.steps.length := by
                  rw [hsame₂.1, ← hlen, ← hsame.1]
                  rfl
                have hrest : ∀ k, steps[k]? = spec.steps[first + 1 + k]? := fun k => by
                  rw [← Nat.add_right_comm, Nat.add_assoc, ← hsteps (k + 1)]
                  rfl
                refine wp_mono (ih (first + 1) s₂ hrest hfail₂ hlen₂) fun r s' h => ?_
                have hev₂ : s₂.events = s₁.events ++ .started first :: events := by
                  rw [hev₂, push, List.append_assoc]
                  rfl
                refine .prepend hev₂ ?_ ?_ ?_ (hsame₂.below (Nat.le_refl _)) (Nat.le_succ _)
                  (fun events' hfrom hbelow hall =>
                    allFinished_cons hin₂ hgood₂ hfinished hholds hfrom hbelow hall) h
                · exact List.forall_mem_cons.mpr ⟨trivial, fun e he => (hin₂ e he).from (Nat.le_refl _)⟩
                · exact List.forall_mem_cons.mpr ⟨trivial, hgood₂⟩
                · exact List.forall_mem_cons.mpr ⟨trivial, hread₂⟩
              · exact absurd hfail₂ hbad
            · unfold wp
              rw [runSteps_failed steps (first + 1) hfail₂]
              exact stepsPost_of_started h₂ (.inr ⟨u, rfl, rfl, hfail₂⟩)
        · cases hstop

end Didi.Scenario
