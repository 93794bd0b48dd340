import Didi.Scenario.Run

/-!
# What the steps of a scenario leave behind

* `Event.Readable` : the reply is one that the run can read; a poll that throws is not, nor an answer of another shape;
* `Event.Good` : the call was answered, and a poll saw neither a cancellation nor the deadline;
* `Post` : what a part of a step leaves: it goes on with nothing but good events, or it stops with a failure recorded
  and its outcome unfinished, or an unreadable reply ends the run;
* `Holds` : what an assertion asserts, on the answers its step got;
* `runStep_wp` : one step of a run.
-/

namespace Didi.Scenario
open Locked RunM
variable {body : Json} {page : PageReading} {reason message : String}

/-! ### Events -/

/-- The run can read the reply. -/
def Event.Readable (spec : ScenarioSpec) : Event → Prop
  | .called _ (.evaluate _ _) (.answer body) => (readEvaluation body).isOk
  | .called (some index) (.readOutput cursor _) (.answer body) =>
    ∀ step, spec.steps[index]? = some step → (readPage step (cursor = 0) cursor body).isOk
  | .polledCancelled reply => reply.isOk
  | .polledElapsed reply => reply.isOk
  | _ => True

/-- Nothing that should stop a run. -/
def Event.Good (spec : ScenarioSpec) : Event → Prop
  | .called _ _ reply => ∃ body, reply = .answer body
  | .polledCancelled reply => reply = .ok false
  | .polledElapsed reply => ∃ ms, reply = .ok ms ∧ ms ≤ spec.timeoutSeconds * 1000
  | .started _ => True
  | .failed _ => False

/-- An event of the step `index`, after its start. -/
def Event.Within (index : Nat) : Event → Prop
  | .called step call _ => step = some index ∧ call ≠ .launch ∧ call ≠ .teardown
  | .started _ => False
  | _ => True

def Event.startedStep : Event → Option Nat
  | .started index => some index
  | _ => none

def Event.isFailed : Event → Bool
  | .failed _ => true
  | _ => false

/-! ### What an assertion asserts -/

/-- The page that the step read from this reply. -/
def ReadsPage (step : ScenarioStep) (index : Nat) (events : List Event) (page : PageReading) : Prop :=
  ∃ cursor level body, .called (some index) (.readOutput cursor level) (.answer body) ∈ events ∧
    readPage step (cursor = 0) cursor body = .ok page

/-- What an assertion asserts, on the answers to the calls of its step. -/
def Holds (step : ScenarioStep) (index : Nat) (events : List Event) : Prop :=
  match step.kind with
  | .assertValue => ∃ body evaluated,
      .called (some index) (.evaluate step.expression step.contextNode) (.answer body) ∈ events ∧
      readEvaluation body = .ok evaluated ∧ (judgeValue evaluated.1 step.minimum step.maximum).held
  | .assertOutput =>
    if step.absent then
      (∀ page, ReadsPage step index events page → page.matched = none ∧ page.dropped = false) ∧
        ∃ page, ReadsPage step index events page ∧ page.complete
    else ∃ page, ReadsPage step index events page ∧ page.matched.isSome
  | _ => True

/-- The outcome of a step of this kind that finished. -/
def finishedOutcome (step : ScenarioStep) : Outcome := if step.isAssertion then .held else .done

def outcomes (s : RunState) : List Outcome := s.steps.map StepEntry.outcome

def Finished (s : RunState) (index : Nat) (step : ScenarioStep) : Prop :=
  (outcomes s)[index]? = some (finishedOutcome step)

def Unfinished (s : RunState) (index : Nat) : Prop :=
  ∃ outcome, (outcomes s)[index]? = some outcome ∧ outcome ≠ .done ∧ outcome ≠ .held

/-! ### Parts of a step -/

/-- The outcomes of the other steps are as they were. -/
def SameBut (index : Nat) (s s' : RunState) : Prop :=
  (outcomes s').length = (outcomes s).length ∧ ∀ j, j ≠ index → (outcomes s')[j]? = (outcomes s)[j]?

theorem SameBut.refl (index : Nat) (s : RunState) : SameBut index s s := ⟨rfl, fun _ _ => rfl⟩

theorem SameBut.trans {index : Nat} {s t u : RunState} (h : SameBut index s t) (h' : SameBut index t u) :
    SameBut index s u := ⟨h'.1.trans h.1, fun j hj => (h'.2 j hj).trans (h.2 j hj)⟩

theorem sameBut_modify (index : Nat) (s : RunState) (f : StepEntry → StepEntry) :
    SameBut index s { s with steps := s.steps.modify index f } := by
  refine ⟨by simp [outcomes], fun j hj => ?_⟩
  simp [outcomes, Ne.symm hj]

/-- Nothing happened but a change that no event and no outcome shows. -/
structure Silent (s s' : RunState) : Prop where
  events : s'.events = s.events
  failure : s'.failure = s.failure
  outcomes : outcomes s' = outcomes s

theorem Silent.same {s s' : RunState} (h : Silent s s') (index : Nat) : SameBut index s s' :=
  ⟨by rw [h.outcomes], fun j _ => by rw [h.outcomes]⟩

theorem Silent.trans {s t u : RunState} (h : Silent s t) (h' : Silent t u) : Silent s u :=
  ⟨h'.events.trans h.events, h'.failure.trans h.failure, h'.outcomes.trans h.outcomes⟩

/-- A call that always answers and leaves no trace. -/
def Quiet (m : RunM Unit) : Prop := ∀ s, ∃ s', m.run s = (.ok (), s') ∧ Silent s s'

theorem quiet_pure : Quiet (pure ()) := fun s => ⟨s, rfl, rfl, rfl, rfl⟩

theorem quiet_update {g : RunState → RunState} (h : ∀ s, Silent s (g s)) : Quiet (update g) := fun s => ⟨g s, rfl, h s⟩

theorem quiet_setMember (index : Nat) (key : String) (value : Json) : Quiet (setMember index key value) :=
  quiet_update fun s => ⟨rfl, rfl, by
    refine List.ext_getElem? fun j => ?_
    by_cases hj : index = j
    · subst hj
      simp [outcomes, Function.comp_def]
    · simp [outcomes, hj]⟩

theorem quiet_ite {c : Prop} [Decidable c] {m m' : RunM Unit} (h : Quiet m) (h' : Quiet m') :
    Quiet (if c then m else m') := by
  split
  · exact h
  · exact h'

theorem quiet_forM {α : Type} {f : α → RunM Unit} (h : ∀ a, Quiet (f a)) (o : Option α) : Quiet (o.forM f) := by
  cases o with
  | none => exact quiet_pure
  | some a => exact h a

theorem quiet_fetch_bind {f : RunState → RunM Unit} (h : ∀ s, Quiet (f s)) : Quiet (Locked.fetch >>= f) :=
  fun s => h s s

theorem quiet_setAtFrame (index : Nat) : Quiet (setAtFrame index) :=
  quiet_fetch_bind fun s => quiet_setMember index "at_frame" (.integer s.frames)

section Parts
variable {α β : Type} (spec : ScenarioSpec) (index : Nat)

/-- What a part of the step `index` leaves that begins in `s` without a failure. `go` is what it answers, on which
events and in which state, when the step goes on, and `stop` what it answers when the step stops. -/
def Post (go : α → List Event → RunState → Prop) (stop : α → Prop) (s : RunState) (r : Except Thrown α)
    (s' : RunState) : Prop :=
  ∃ events, s'.events = s.events ++ events ∧ (∀ e ∈ events, e.Within index) ∧ SameBut index s s' ∧
    match r with
    | .error _ => ∃ e ∈ events, ¬ e.Readable spec
    | .ok a => (∀ e ∈ events, e.Readable spec) ∧
        (s'.failure = none ∧ (∀ e ∈ events, e.Good spec) ∧ go a events s' ∨
          s'.failure ≠ none ∧ Unfinished s' index ∧ stop a)

variable {spec index} {go : α → List Event → RunState → Prop} {stop : α → Prop} {s : RunState}

theorem Post.mono {go' : α → List Event → RunState → Prop} {s' : RunState} {r : Except Thrown α}
    (hgo : ∀ a events s', go a events s' → go' a events s') (h : Post spec index go stop s r s') :
    Post spec index go' stop s r s' := by
  obtain ⟨events, hev, hin, hsame, hr⟩ := h
  refine ⟨events, hev, hin, hsame, ?_⟩
  cases r with
  | error thrown => exact hr
  | ok a => exact ⟨hr.1, hr.2.imp (fun h => ⟨h.1, h.2.1, hgo _ _ _ h.2.2⟩) id⟩

theorem Post.of_silent {s₁ s' : RunState} {r : Except Thrown α} (h : Silent s s₁)
    (hp : Post spec index go stop s₁ r s') : Post spec index go stop s r s' := by
  obtain ⟨events, hev, hin, hsame, hr⟩ := hp
  exact ⟨events, h.events ▸ hev, hin, (h.same index).trans hsame, hr⟩

def push (s : RunState) (e : Event) : RunState := { s with events := s.events ++ [e] }

/-- A good event before a part of the step. -/
theorem Post.push_good {e : Event} {s' : RunState} {r : Except Thrown α} (hin : e.Within index)
    (hread : e.Readable spec) (hgood : e.Good spec)
    (hp : Post spec index (fun a events s' => go a (e :: events) s') stop (push s e) r s') :
    Post spec index go stop s r s' := by
  obtain ⟨events, hev, hall, hsame, hr⟩ := hp
  refine ⟨e :: events, by rw [hev, push, List.append_assoc]; rfl, List.forall_mem_cons.mpr ⟨hin, hall⟩, hsame, ?_⟩
  cases r with
  | error thrown =>
    obtain ⟨e', he', hbad⟩ := hr
    exact ⟨e', List.mem_cons_of_mem e he', hbad⟩
  | ok a =>
    refine ⟨List.forall_mem_cons.mpr ⟨hread, hr.1⟩, hr.2.imp (fun h => ?_) id⟩
    exact ⟨h.1, List.forall_mem_cons.mpr ⟨hgood, h.2.1⟩, h.2.2⟩

/-- An event after which the step can only stop. -/
theorem Post.push_stop {e : Event} {s' : RunState} {r : Except Thrown α} (hin : e.Within index)
    (hread : e.Readable spec) (hp : Post spec index (fun _ _ _ => False) stop (push s e) r s') :
    Post spec index go stop s r s' := by
  obtain ⟨events, hev, hall, hsame, hr⟩ := hp
  refine ⟨e :: events, by rw [hev, push, List.append_assoc]; rfl, List.forall_mem_cons.mpr ⟨hin, hall⟩, hsame, ?_⟩
  cases r with
  | error thrown =>
    obtain ⟨e', he', hbad⟩ := hr
    exact ⟨e', List.mem_cons_of_mem e he', hbad⟩
  | ok a =>
    refine ⟨List.forall_mem_cons.mpr ⟨hread, hr.1⟩, hr.2.imp (fun h => ?_) id⟩
    exact absurd h.2.2 not_false

theorem wp_push_good {m : RunM α} {e : Event} (hin : e.Within index) (hread : e.Readable spec) (hgood : e.Good spec)
    (h : m.wp (Post spec index (fun a events s' => go a (e :: events) s') stop (push s e)) (push s e)) :
    m.wp (Post spec index go stop s) (push s e) := wp_mono h fun _ _ => .push_good hin hread hgood

theorem wp_push_stop {m : RunM α} {e : Event} (hin : e.Within index) (hread : e.Readable spec)
    (h : m.wp (Post spec index (fun _ _ _ => False) stop (push s e)) (push s e)) :
    m.wp (Post spec index go stop s) (push s e) := wp_mono h fun _ _ => .push_stop hin hread

/-- A reply that cannot be read ends the run. -/
theorem Post.push_error {e : Event} {thrown : Thrown} (hin : e.Within index) (hbad : ¬ e.Readable spec) :
    Post spec index go stop s (.error thrown : Except Thrown α) (push s e) :=
  ⟨[e], rfl, by simpa using hin, .refl _ _, e, List.mem_singleton_self e, hbad⟩

theorem Post.go_here {a : α} (hs : s.failure = none) (h : go a [] s) : Post spec index go stop s (.ok a) s :=
  ⟨[], (List.append_nil _).symm, by simp, .refl _ _, by simp, .inl ⟨hs, by simp, h⟩⟩

/-- No failure is recorded yet, and the step has its entry. -/
structure Begun (index : Nat) (s : RunState) : Prop where
  failure : s.failure = none
  entry : index < (outcomes s).length

theorem Begun.push (h : Begun index s) (e : Event) : Begun index (push s e) := ⟨h.failure, h.entry⟩

theorem Begun.of_silent {s₁ : RunState} (h : Silent s s₁) (hs : Begun index s) : Begun index s₁ :=
  ⟨h.failure.trans hs.failure, h.outcomes ▸ hs.entry⟩

/-- One part of a step after another. -/
theorem wp_bind_post {m : RunM α} {f : α → RunM β} {go' : β → List Event → RunState → Prop} {stop' : β → Prop}
    (hs : Begun index s) (hm : m.wp (Post spec index go stop s) s)
    (hgo : ∀ a events s', Begun index s' → go a events s' →
      (f a).wp (Post spec index (fun b events' s'' => go' b (events ++ events') s'') stop' s') s')
    (hstop : ∀ a, stop a → ∃ b, f a = pure b ∧ stop' b) :
    (m >>= f).wp (Post spec index go' stop' s) s := by
  refine wp_bind (wp_mono hm fun r s' h => ?_)
  obtain ⟨events, hev, hin, hsame, hr⟩ := h
  cases r with
  | error thrown => exact ⟨events, hev, hin, hsame, hr⟩
  | ok a =>
    obtain ⟨hread, ⟨hfail, hgood, ha⟩ | ⟨hfail, hun, ha⟩⟩ := hr
    · refine wp_mono (hgo a events s' ⟨hfail, hsame.1 ▸ hs.entry⟩ ha) fun r' s'' h' => ?_
      obtain ⟨events', hev', hin', hsame', hr'⟩ := h'
      refine ⟨events ++ events', by rw [hev', hev, List.append_assoc], List.forall_mem_append.mpr ⟨hin, hin'⟩,
        hsame.trans hsame', ?_⟩
      cases r' with
      | error thrown =>
        obtain ⟨e, he, hbad⟩ := hr'
        exact ⟨e, List.mem_append_right _ he, hbad⟩
      | ok b =>
        refine ⟨List.forall_mem_append.mpr ⟨hread, hr'.1⟩, hr'.2.imp (fun h => ?_) id⟩
        exact ⟨h.1, List.forall_mem_append.mpr ⟨hgood, h.2.1⟩, h.2.2⟩
    · obtain ⟨b, hb, hstop'⟩ := hstop a ha
      change (f a).wp _ _
      rw [hb]
      exact wp_pure ⟨events, hev, hin, hsame, hread, .inr ⟨hfail, hun, hstop'⟩⟩

/-! ### The primitives -/

theorem wp_call_bind {driver : Driver} {step : Option Nat} {c : Call} {f : Except Error Json → RunM β}
    {P : Except Thrown β → RunState → Prop}
    (h : ∀ reply, (f (guarded reply)).wp P (push s (.called step c reply))) : (call driver step c >>= f).wp P s :=
  wp_bind (h _)

/-- A poll whose reply is noted, as the event `e` of it. -/
theorem wp_poll_bind {γ : Type} {m : RunM γ} {e : Except Thrown γ → Event} {f : γ → RunM β}
    {P : Except Thrown β → RunState → Prop} {reply : Except Thrown γ} (hm : m.run s = (reply, push s (e reply)))
    (hok : ∀ a, (f a).wp P (push s (e (.ok a)))) (herr : ∀ thrown, P (.error thrown) (push s (e (.error thrown)))) :
    (m >>= f).wp P s := by
  cases reply with
  | error thrown => exact wp_run_bind_error hm (herr thrown)
  | ok a => exact wp_run_bind hm (hok a)

/-- A change that leaves no trace. -/
theorem wp_quiet_bind {m : RunM Unit} {f : Unit → RunM α} (hm : Quiet m) (hs : Begun index s)
    (h : ∀ s₁, Begun index s₁ → Silent s s₁ → (f ()).wp (Post spec index go stop s₁) s₁) :
    (m >>= f).wp (Post spec index go stop s) s := by
  obtain ⟨s₁, hrun, hsilent⟩ := hm s
  exact wp_run_bind hrun (wp_mono (h s₁ (hs.of_silent hsilent) hsilent) fun _ _ => .of_silent hsilent)

/-! ### Failures -/

/-- The failure of a step is recorded, and its outcome is none of a finished step. -/
structure Settled (index : Nat) (s s' : RunState) : Prop where
  events : s'.events = s.events
  failure : s'.failure ≠ none
  same : SameBut index s s'
  unfinished : Unfinished s' index

/-- What follows the failure leaves it, answers what stops the step, and does nothing else. -/
def Stops (index : Nat) (stop : α → Prop) (s : RunState) (r : Except Thrown α) (s' : RunState) : Prop :=
  ∃ a, r = .ok a ∧ stop a ∧ Settled index s s'

theorem unfinished_modify {f : StepEntry → StepEntry} (hi : index < (outcomes s).length)
    (hf : ∀ entry, (f entry).outcome ≠ .done ∧ (f entry).outcome ≠ .held) :
    Unfinished { s with steps := s.steps.modify index f } index := by
  have hi' : index < s.steps.length := by simpa [outcomes] using hi
  refine ⟨(f s.steps[index]).outcome, ?_, hf _⟩
  simp [outcomes, hi']

theorem StepEntry.fail_outcome (entry : StepEntry) (stage : Stage) (reason : String) (cause : Option Error) :
    (entry.fail stage reason cause).outcome ≠ .done ∧ (entry.fail stage reason cause).outcome ≠ .held := by
  unfold StepEntry.fail
  split_ifs <;> simp

/-- The state in which the first failure of the step is recorded. -/
def failAt (s : RunState) (index : Nat) (failure : ScenarioFailure) : RunState where
  events := s.events ++ [.failed failure.stage]
  steps := s.steps.modify index fun entry => entry.fail failure.stage failure.reason failure.cause
  game := s.game
  captures := s.captures
  frames := s.frames
  failure := some failure
  lastSentence := s.lastSentence

theorem fail_run {stage : Stage} {cause : Option Error} (hs : s.failure = none) :
    (fail stage (some index) reason message cause).run s =
      (.ok (), failAt s index { stage, step := some index, reason, message, cause }) := by
  simp only [RunM.fail, run, hs, Option.isSome_none, Bool.false_eq_true, if_false]
  rfl

/-- A failure of the step, where what follows only adds to its entry. -/
theorem wp_fail_bind {stage : Stage} {cause : Option Error} {f : Unit → RunM α} (hs : Begun index s)
    (h : ∀ s₁ : RunState, s₁.failure ≠ none → Unfinished s₁ index → (f ()).wp (Stops index stop s₁) s₁) :
    (fail stage (some index) reason message cause >>= f).wp (Post spec index go stop s) s := by
  refine wp_run_bind (fail_run hs.failure) ?_
  have hsame := sameBut_modify index s fun entry => entry.fail stage reason cause
  have hun := unfinished_modify hs.entry fun entry => entry.fail_outcome stage reason cause
  have hf := h (failAt s index { stage, step := some index, reason, message, cause }) (by simp [failAt]) hun
  refine wp_mono hf fun r s' hstops => ?_
  obtain ⟨a, rfl, ha, hset⟩ := hstops
  refine ⟨[.failed stage], hset.events, by simp [Event.Within], hsame.trans hset.same, by simp [Event.Readable], ?_⟩
  exact .inr ⟨hset.failure, hset.unfinished, ha⟩

theorem stops_pure {a : α} (ha : stop a) (hs : s.failure ≠ none) (hun : Unfinished s index) :
    (pure a : RunM α).wp (Stops index stop s) s :=
  wp_pure ⟨a, rfl, ha, rfl, hs, .refl _ _, hun⟩

/-- After a failure the outcome may be set to another of an unfinished step. -/
theorem stops_setOutcome_bind {outcome : Outcome} {f : Unit → RunM α} (hs : s.failure ≠ none)
    (hun : Unfinished s index) (ho : outcome ≠ .done ∧ outcome ≠ .held)
    (h : ∀ s₁ : RunState, s₁.failure ≠ none → Unfinished s₁ index → (f ()).wp (Stops index stop s₁) s₁) :
    (setOutcome index outcome >>= f).wp (Stops index stop s) s := by
  have hi : index < (outcomes s).length := by
    obtain ⟨o, ho, -⟩ := hun
    exact (List.getElem?_eq_some_iff.mp ho).1
  refine wp_run_bind rfl (wp_mono (h _ hs (unfinished_modify hi fun _ => ho)) fun r s' hstops => ?_)
  obtain ⟨a, hr, ha, hset⟩ := hstops
  exact ⟨a, hr, ha, hset.events, hset.failure, (sameBut_modify index s _).trans hset.same, hset.unfinished⟩

theorem stops_quiet_bind {m : RunM Unit} {f : Unit → RunM α} (hm : Quiet m) (hs : s.failure ≠ none)
    (hun : Unfinished s index)
    (h : ∀ s₁ : RunState, s₁.failure ≠ none → Unfinished s₁ index → (f ()).wp (Stops index stop s₁) s₁) :
    (m >>= f).wp (Stops index stop s) s := by
  obtain ⟨s₁, hrun, hsilent⟩ := hm s
  have hun₁ : Unfinished s₁ index := by
    unfold Unfinished
    rwa [hsilent.outcomes]
  refine wp_run_bind hrun (wp_mono (h s₁ (hsilent.failure ▸ hs) hun₁) fun r s' hstops => ?_)
  obtain ⟨a, hr, ha, hset⟩ := hstops
  exact ⟨a, hr, ha, hset.events.trans hsilent.events, hset.failure, (hsilent.same index).trans hset.same,
    hset.unfinished⟩

end Parts

/-! ### The parts of a step -/

section Kinds
variable {driver : Driver} {spec : ScenarioSpec} {index : Nat} {step : ScenarioStep} {s : RunState}

theorem stopped_wp {go : Bool → List Event → RunState → Prop} (hs : Begun index s) (stage : Stage) (message : String)
    (begun : Bool) : (stopped stage message index begun).wp (Post spec index go (· = true) s) s := by
  unfold stopped
  refine wp_fail_bind hs fun s₁ hfail hun => ?_
  refine stops_setOutcome_bind hfail hun (by cases begun <;> simp) fun s₂ hfail hun => ?_
  exact stops_pure rfl hfail hun

def Event.isCall : Event → Bool
  | .called _ _ _ => true
  | _ => false

/-- A look at the job and at the clock. -/
theorem interrupted_wp (hs : Begun index s) (begun : Bool) : (interrupted driver spec index begun).wp
    (Post spec index (fun b events _ => b = false ∧ ∀ e ∈ events, e.isCall = false) (· = true) s) s := by
  unfold interrupted
  refine wp_poll_bind (e := .polledCancelled) rfl (fun cancelled => ?_) fun thrown =>
    .push_error trivial (by simp [Event.Readable, Except.isOk, Except.toBool])
  cases cancelled with
  | true => exact wp_push_stop trivial rfl (stopped_wp (hs.push _) _ _ _)
  | false =>
    refine wp_push_good trivial rfl rfl ?_
    refine wp_poll_bind (e := .polledElapsed) rfl (fun ms => ?_) fun thrown =>
      .push_error trivial (by simp [Event.Readable, Except.isOk, Except.toBool])
    by_cases hlate : spec.timeoutSeconds * 1000 < ms
    · rw [if_pos hlate]
      exact wp_push_stop trivial rfl (stopped_wp ((hs.push _).push _) _ _ _)
    · rw [if_neg hlate]
      refine wp_push_good trivial rfl ⟨ms, rfl, not_lt.mp hlate⟩ (wp_pure (.go_here hs.failure ⟨rfl, ?_⟩))
      simp [Event.isCall]

/-- A call that the driver refuses, or whose exception is caught. -/
theorem guarded_error {reply : Reply} {error : Error} (h : guarded reply = .error error) :
    ¬ ∃ body, reply = .answer body := by
  rintro ⟨body, rfl⟩
  cases h

theorem guarded_ok {reply : Reply} (h : guarded reply = .ok body) : reply = .answer body := by
  unfold guarded at h
  split at h <;> cases h
  rfl

/-- A call of the step, answered or refused; a reply that is refused can be read. -/
theorem wp_answered_bind {α : Type} {c : Call} {f : Except Error Json → RunM α}
    {go : α → List Event → RunState → Prop} {stop : α → Prop} (hc : c ≠ .launch ∧ c ≠ .teardown)
    (hok : ∀ body, (f (.ok body)).wp (Post spec index go stop s) (push s (.called (some index) c (.answer body))))
    (herr : ∀ error reply, (f (.error error)).wp (Post spec index (fun _ _ _ => False) stop
      (push s (.called (some index) c reply))) (push s (.called (some index) c reply))) :
    (call driver (some index) c >>= f).wp (Post spec index go stop s) s := by
  refine wp_call_bind fun reply => ?_
  cases h : guarded reply with
  | ok body =>
    rw [guarded_ok h]
    exact hok body
  | error error =>
    refine wp_push_stop ⟨rfl, hc⟩ ?_ (herr error reply)
    cases reply with
    | answer body => exact absurd ⟨body, rfl⟩ (guarded_error h)
    | refused e => cases c <;> trivial
    | threw t => cases c <;> trivial

theorem driveFramesLoop_wp (fuel frames : Nat) (hs : Begun index s) :
    (driveFramesLoop driver spec index step fuel frames).wp
      (Post spec index (fun b _ _ => b = true) (· = false) s) s := by
  induction fuel generalizing frames s with
  | zero => exact wp_pure (.go_here hs.failure rfl)
  | succ fuel ih =>
    unfold driveFramesLoop
    refine wp_ite (fun _ => wp_pure (.go_here hs.failure rfl)) fun _ => ?_
    refine wp_answered_bind (by simp) (fun body => ?_) fun error reply => ?_
    · -- the chunk ran
      refine wp_push_good ⟨rfl, by simp⟩ trivial ⟨body, rfl⟩ ?_
      refine wp_quiet_bind (quiet_update fun _ => ⟨rfl, rfl, rfl⟩) (hs.push _) fun s₁ hs' _ => ?_
      refine wp_bind_post hs' (interrupted_wp hs' true) (fun b events s' hb hgo => ?_) fun b hb => ?_
      · rw [hgo.1]
        exact ih _ hb
      · rw [hb]
        exact ⟨false, rfl, rfl⟩
    · exact wp_fail_bind (hs.push _) fun s₁ hfail hun => stops_pure rfl hfail hun

theorem driveFrames_wp (frames : Nat) (hs : Begun index s) :
    (driveFrames driver spec index step frames).wp (Post spec index (fun b _ _ => b = true) (· = false) s) s :=
  driveFramesLoop_wp frames frames hs

theorem reading_ok {α : Type} {r : Except JsonException α} {a : α} (h : r = .ok a) :
    (reading r).run s = (.ok a, s) := by
  rw [h]
  rfl

theorem reading_error {α : Type} {r : Except JsonException α} {e : JsonException} (h : r = .error e) :
    (reading r).run s = (.error (some e.what), s) := by
  rw [h]
  rfl

/-- The value of the expression, as an answer of the step to this evaluation says it. -/
def Judged (step : ScenarioStep) (index : Nat) (events : List Event) (judged : ValueJudgement) : Prop :=
  ∃ body evaluated, .called (some index) (.evaluate step.expression step.contextNode) (.answer body) ∈ events ∧
    readEvaluation body = .ok evaluated ∧ judged = judgeValue evaluated.1 step.minimum step.maximum

theorem judge_wp (hs : Begun index s) : (judge driver index step).wp (Post spec index
    (fun a events _ => ∃ judged, a = some judged ∧ Judged step index events judged) (· = none) s) s := by
  unfold judge
  refine wp_answered_bind (by simp) (fun body => ?_) fun error reply => ?_
  · cases hread : readEvaluation body with
    | error e =>
      refine wp_run_bind_error (reading_error hread) (.push_error ⟨rfl, by simp⟩ ?_)
      simp [Event.Readable, hread, Except.isOk, Except.toBool]
    | ok evaluated =>
      refine wp_push_good ⟨rfl, by simp⟩ (by simp [Event.Readable, hread, Except.isOk, Except.toBool]) ⟨body, rfl⟩ ?_
      refine wp_run_bind (reading_ok hread) ?_
      have hjudged : ∀ events, Judged step index (.called (some index) (.evaluate step.expression step.contextNode)
          (.answer body) :: events) (judgeValue evaluated.1 step.minimum step.maximum) := fun events =>
        ⟨body, evaluated, List.mem_cons_self, hread, rfl⟩
      refine wp_quiet_bind (quiet_setMember _ _ _) (hs.push _) fun s₁ hs₁ _ => ?_
      refine wp_quiet_bind (quiet_ite (quiet_setMember _ _ _) quiet_pure) hs₁ fun s₂ hs₂ _ => ?_
      refine wp_quiet_bind (quiet_forM (fun _ => quiet_setMember _ _ _) _) hs₂ fun s₃ hs₃ _ => ?_
      refine wp_quiet_bind (quiet_forM (fun _ => quiet_setMember _ _ _) _) hs₃ fun s₄ hs₄ _ => ?_
      refine wp_quiet_bind (quiet_update fun _ => ⟨rfl, rfl, rfl⟩) hs₄ fun s₅ hs₅ _ => ?_
      exact wp_pure (.go_here hs₅.failure ⟨_, rfl, hjudged []⟩)
  · exact wp_fail_bind (hs.push _) fun s₁ hfail hun => stops_pure rfl hfail hun

theorem neverHeld_wp {go : Option Nat → List Event → RunState → Prop} (hs : Begun index s) :
    (neverHeld index step).wp (Post spec index go (· = none) s) s := by
  unfold neverHeld
  refine wp_fetch_bind ?_
  refine wp_fail_bind hs fun s₁ hfail hun => ?_
  refine stops_quiet_bind (quiet_setMember _ _ _) hfail hun fun s₂ hfail hun => ?_
  refine stops_quiet_bind (quiet_setAtFrame _) hfail hun fun s₃ hfail hun => ?_
  exact stops_pure rfl hfail hun

theorem waitLoop_wp (left : Nat) (hs : Begun index s) : (waitLoop driver spec index step left).wp
    (Post spec index (fun a _ _ => a.isSome) (· = none) s) s := by
  induction left generalizing s with
  | zero =>
    unfold waitLoop
    refine wp_bind_post hs (judge_wp hs) (fun a events s' hs' ha => ?_) fun a ha => ?_
    · obtain ⟨judged, rfl, -⟩ := ha
      exact wp_ite (fun _ => wp_pure (.go_here hs'.failure rfl)) fun _ => neverHeld_wp hs'
    · rw [ha]
      exact ⟨none, rfl, rfl⟩
  | succ left ih =>
    unfold waitLoop
    refine wp_bind_post hs (judge_wp hs) (fun a events s' hs' ha => ?_) fun a ha => ?_
    · obtain ⟨judged, rfl, -⟩ := ha
      refine wp_ite (fun _ => wp_pure (.go_here hs'.failure rfl)) fun _ => ?_
      refine wp_bind_post hs' (driveFrames_wp 1 hs') (fun b events' s'' hs'' hb => ?_) fun b hb => ?_
      · rw [hb]
        exact ih hs''
      · rw [hb]
        exact ⟨none, rfl, rfl⟩
    · rw [ha]
      exact ⟨none, rfl, rfl⟩

/-- What the pages say together is what the replies to the step say, and `dropped` of the pages before them. -/
structure PagesRead (step : ScenarioStep) (index : Nat) (dropped : Bool) (output : OutputReading)
    (events : List Event) : Prop where
  seen : output.matched.isSome → ∃ page, ReadsPage step index events page ∧ page.matched.isSome
  unseen : output.matched = none → ∀ page, ReadsPage step index events page → page.matched = none
  kept : output.dropped = false → dropped = false ∧ ∀ page, ReadsPage step index events page → page.dropped = false
  complete : output.complete → ∃ page, ReadsPage step index events page ∧ page.complete

theorem readsPage_cons {cursor : Nat} {level : String} {events : List Event} {page page' : PageReading}
    (hpage : readPage step (cursor = 0) cursor body = .ok page) :
    ReadsPage step index (.called (some index) (.readOutput cursor level) (.answer body) :: events) page' ↔
      page' = page ∨ ReadsPage step index events page' := by
  constructor
  · rintro ⟨cursor', level', body', hmem, hread⟩
    rcases List.mem_cons.mp hmem with heq | hmem
    · cases heq
      rw [hpage] at hread
      cases hread
      exact .inl rfl
    · exact .inr ⟨cursor', level', body', hmem, hread⟩
  · rintro (rfl | ⟨cursor', level', body', hmem, hread⟩)
    · exact ⟨cursor, level, body, List.mem_cons_self, hpage⟩
    · exact ⟨cursor', level', body', List.mem_cons_of_mem _ hmem, hread⟩

/-- One more page in front. -/
theorem PagesRead.cons {cursor : Nat} {level : String} {events : List Event} {output : OutputReading} {dropped : Bool}
    (hpage : readPage step (cursor = 0) cursor body = .ok page) (hmatched : page.matched = none)
    (h : PagesRead step index (dropped || page.dropped) output events) :
    PagesRead step index dropped output
      (.called (some index) (.readOutput cursor level) (.answer body) :: events) where
  seen hsome := by
    obtain ⟨page', hread, hm⟩ := h.seen hsome
    exact ⟨page', (readsPage_cons hpage).mpr (.inr hread), hm⟩
  unseen hnone page' hread := by
    rcases (readsPage_cons hpage).mp hread with rfl | hread
    · exact hmatched
    · exact h.unseen hnone page' hread
  kept hkept := by
    obtain ⟨hdropped, hrest⟩ := h.kept hkept
    obtain ⟨hbefore, hhere⟩ := Bool.or_eq_false_iff.mp hdropped
    refine ⟨hbefore, fun page' hread => ?_⟩
    rcases (readsPage_cons hpage).mp hread with rfl | hread
    · exact hhere
    · exact hrest page' hread
  complete hcomplete := by
    obtain ⟨page', hread, hc⟩ := h.complete hcomplete
    exact ⟨page', (readsPage_cons hpage).mpr (.inr hread), hc⟩

theorem not_readsPage_nil : ¬ ReadsPage step index [] page := by
  rintro ⟨_, _, _, hmem, -⟩
  cases hmem

/-- The last page that is read. -/
theorem pagesRead_last {cursor : Nat} {level : String} {dropped complete : Bool}
    (hpage : readPage step (cursor = 0) cursor body = .ok page) (hcomplete : complete → page.complete) :
    PagesRead step index dropped { dropped := dropped || page.dropped, matched := page.matched, complete }
      [.called (some index) (.readOutput cursor level) (.answer body)] := by
  have honly : ∀ page', ReadsPage step index [.called (some index) (.readOutput cursor level) (.answer body)] page' ↔
      page' = page := fun page' => by
    rw [readsPage_cons hpage, or_iff_left not_readsPage_nil]
  refine ⟨fun h => ⟨page, (honly page).mpr rfl, h⟩, fun h page' hread => ?_, fun h => ?_,
    fun h => ⟨page, (honly page).mpr rfl, hcomplete h⟩⟩
  · rw [(honly page').mp hread]
    exact h
  · obtain ⟨hbefore, hhere⟩ := Bool.or_eq_false_iff.mp h
    refine ⟨hbefore, fun page' hread => ?_⟩
    rw [(honly page').mp hread]
    exact hhere

theorem next_ne_zero {first : Bool} {cursor : Nat} (h : readPage step first cursor body = .ok page)
    (hmatched : page.matched = none) (hcomplete : page.complete = false) : page.next ≠ 0 := by
  unfold readPage at h
  obtain ⟨dropped, -, h⟩ := Except.bind_eq_ok.mp h
  obtain ⟨records, -, h⟩ := Except.bind_eq_ok.mp h
  obtain ⟨matched, -, h⟩ := Except.bind_eq_ok.mp h
  cases matched with
  | some matched =>
    cases h
    cases hmatched
  | none =>
    obtain ⟨next, -, h⟩ := Except.bind_eq_ok.mp h
    obtain ⟨more, -, h⟩ := Except.bind_eq_ok.mp h
    cases h
    simp only [Bool.or_eq_false_iff, decide_eq_false_iff_not] at hcomplete
    change next ≠ 0
    omega

theorem readPages_wp {level : String} (hstep : spec.steps[index]? = some step) (pages cursor : Nat) (dropped : Bool)
    (hs : Begun index s) : (readPages driver index step level pages (cursor = 0) cursor dropped).wp
      (Post spec index (fun a events _ => ∃ output, a = some output ∧ PagesRead step index dropped output events)
        (· = none) s) s := by
  induction pages generalizing cursor dropped s with
  | zero =>
    refine wp_pure (.go_here hs.failure ⟨_, rfl, ?_⟩)
    exact ⟨fun h => (by cases h), fun _ _ h => absurd h not_readsPage_nil,
      fun h => ⟨h, fun _ h => absurd h not_readsPage_nil⟩, fun h => (by cases h)⟩
  | succ pages ih =>
    unfold readPages
    refine wp_answered_bind (by simp) (fun body => ?_) fun error reply => ?_
    · cases hread : readPage step (cursor = 0) cursor body with
      | error e =>
        refine wp_run_bind_error (reading_error hread) (.push_error ⟨rfl, by simp⟩ fun h => ?_)
        have hok := h step hstep
        rw [hread] at hok
        cases hok
      | ok page =>
        refine wp_push_good ⟨rfl, by simp⟩ (fun step' hstep' => ?_) ⟨body, rfl⟩ ?_
        · cases hstep.symm.trans hstep'
          rw [hread]
          rfl
        refine wp_run_bind (reading_ok hread) ?_
        by_cases hmatched : page.matched.isSome
        · -- the record that matches ends the loop
          rw [if_pos hmatched]
          refine wp_pure (.go_here hs.failure ⟨_, rfl, ?_⟩)
          exact pagesRead_last hread fun h => (by cases h)
        · rw [if_neg hmatched]
          have hnone : page.matched = none := by simpa using hmatched
          by_cases hcomplete : page.complete
          · rw [if_pos hcomplete]
            refine wp_pure (.go_here hs.failure ⟨_, rfl, ?_⟩)
            have hlast := @pagesRead_last body page index step cursor level dropped true hread fun _ => hcomplete
            rwa [hnone] at hlast
          · rw [if_neg hcomplete]
            have hrest := ih page.next (dropped || page.dropped) (hs.push (.called (some index)
              (.readOutput cursor level) (.answer body)))
            rw [decide_eq_false (next_ne_zero hread hnone (by simpa using hcomplete))] at hrest
            refine wp_mono hrest fun _ _ => .mono fun a events s' ha => ?_
            obtain ⟨output, rfl, hpages⟩ := ha
            exact ⟨output, rfl, hpages.cons hread hnone⟩
    · exact wp_fail_bind (hs.push _) fun s₁ hfail hun => stops_pure rfl hfail hun

/-- The outcome of a finished step is set, and the step goes on with `b`. -/
theorem wp_finish {α : Type} {go : α → List Event → RunState → Prop} {stop : α → Prop} {outcome : Outcome} {b : α}
    (hs : Begun index s) (hgo : ∀ s', (outcomes s')[index]? = some outcome → go b [] s') :
    (setOutcome index outcome >>= fun _ => pure b).wp (Post spec index go stop s) s := by
  have hi : index < s.steps.length := by simpa [outcomes] using hs.entry
  refine wp_run_bind rfl (wp_pure ?_)
  refine ⟨[], by simp, by simp, sameBut_modify index s _, by simp, .inl ⟨hs.failure, by simp, hgo _ ?_⟩⟩
  simp [outcomes, hi]

theorem outputFails_wp {go : Bool → List Event → RunState → Prop} (hs : Begun index s) :
    (outputFails index reason message).wp (Post spec index go (· = false) s) s := by
  unfold outputFails
  refine wp_fail_bind hs fun s₁ hfail hun => ?_
  refine stops_quiet_bind (quiet_setAtFrame _) hfail hun fun s₂ hfail hun => ?_
  exact stops_pure rfl hfail hun

theorem isAssertion_of_kind (hkind : step.kind = .assertOutput ∨ step.kind = .assertValue) :
    finishedOutcome step = .held := by
  rcases hkind with h | h <;> simp [finishedOutcome, ScenarioStep.isAssertion, h]

theorem checkOutput_wp (hstep : spec.steps[index]? = some step) (hkind : step.kind = .assertOutput)
    (hs : Begun index s) : (checkOutput driver index step).wp (Post spec index
      (fun b events s' => b = true ∧ Finished s' index step ∧ Holds step index events) (· = false) s) s := by
  unfold checkOutput
  refine wp_bind_post hs (readPages_wp hstep kMaxPages 0 false hs) (fun a events s' hs' ha => ?_) fun a ha => ?_
  · obtain ⟨output, rfl, hpages⟩ := ha
    refine wp_quiet_bind (quiet_forM (fun _ => quiet_setMember _ _ _) _) hs' fun s₁ hs₁ _ => ?_
    refine wp_quiet_bind (quiet_setMember _ _ _) hs₁ fun s₂ hs₂ _ => ?_
    have hheld : ∀ s', (outcomes s')[index]? = some .held → Finished s' index step := fun s' h => by
      rw [Finished, h, isAssertion_of_kind (.inl hkind)]
    cases habsent : step.absent with
    | false =>
      cases hmatched : output.matched with
      | none => exact outputFails_wp hs₂
      | some matched =>
        refine wp_finish hs₂ fun s' hs' => ⟨rfl, hheld s' hs', ?_⟩
        simp only [Holds, hkind, habsent, List.append_nil]
        exact hpages.seen (by simp [hmatched])
    | true =>
      cases hmatched : output.matched with
      | some matched => exact outputFails_wp hs₂
      | none =>
        refine wp_ite (fun _ => outputFails_wp hs₂) fun hread => ?_
        simp only [Bool.true_and, Bool.not_eq_true, Bool.or_eq_false_iff, Bool.not_eq_false'] at hread
        refine wp_finish hs₂ fun s' hs' => ⟨rfl, hheld s' hs', ?_⟩
        simp only [Holds, hkind, habsent, List.append_nil]
        have hkept := (hpages.kept hread.1).2
        exact ⟨fun page h => ⟨hpages.unseen hmatched page h, hkept page h⟩, hpages.complete hread.2⟩
  · rw [ha]
    exact ⟨false, rfl, rfl⟩

/-- A step that asserts nothing is finished when it is done. -/
theorem wp_done (events : List Event) {stop : Bool → Prop} (hkind : step.isAssertion = false) (hs : Begun index s) :
    (setOutcome index .done >>= fun _ => pure true).wp (Post spec index
      (fun b events' s' => b = true ∧ Finished s' index step ∧ Holds step index (events ++ events')) stop s) s := by
  refine wp_finish hs fun s' h => ⟨rfl, ?_, ?_⟩
  · rw [Finished, h]
    simp [finishedOutcome, hkind]
  · simp only [ScenarioStep.isAssertion, Bool.or_eq_false_iff, decide_eq_false_iff_not] at hkind
    unfold Holds
    cases hk : step.kind with
    | assertValue => exact absurd hk hkind.1
    | assertOutput => exact absurd hk hkind.2
    | wait => trivial
    | waitUntil => trivial
    | press => trivial
    | capture => trivial

/-- What a step does that its kind decides: when it goes on it is finished, and what it asserts holds. -/
theorem runKind_wp (hstep : spec.steps[index]? = some step) (hs : Begun index s) :
    (runKind driver spec index step).wp (Post spec index
      (fun b events s' => b = true ∧ Finished s' index step ∧ Holds step index events) (· = false) s) s := by
  unfold runKind
  cases hkind : step.kind with
  | assertOutput => exact checkOutput_wp hstep hkind hs
  | wait =>
    refine wp_bind_post hs (driveFrames_wp _ hs) (fun b events s' hs' hb => ?_) fun b hb => ?_
    · rw [hb]
      exact wp_done _ (by simp [ScenarioStep.isAssertion, hkind]) hs'
    · rw [hb]
      exact ⟨false, rfl, rfl⟩
  | press =>
    have hassert : step.isAssertion = false := by simp [ScenarioStep.isAssertion, hkind]
    refine wp_answered_bind (by simp) (fun body => ?_) fun error reply => ?_
    · refine wp_push_good ⟨rfl, by simp⟩ trivial ⟨body, rfl⟩ ?_
      refine wp_bind_post (hs.push _) (driveFrames_wp _ (hs.push _)) (fun b events s' hs' hb => ?_) fun b hb => ?_
      · rw [hb]
        refine wp_answered_bind (by simp) (fun body' => ?_) fun error reply => ?_
        · refine wp_push_good ⟨rfl, by simp⟩ trivial ⟨body', rfl⟩ ?_
          refine wp_quiet_bind (quiet_setMember _ _ _) (hs'.push _) fun s₁ hs₁ _ => ?_
          refine wp_mono (wp_done [] hassert hs₁) fun _ _ => .mono fun b _ s'' h => ⟨h.1, h.2.1, ?_⟩
          simp [Holds, hkind]
        · exact wp_fail_bind (hs'.push _) fun s₁ hfail hun => stops_pure rfl hfail hun
      · rw [hb]
        exact ⟨false, rfl, rfl⟩
    · exact wp_fail_bind (hs.push _) fun s₁ hfail hun => stops_pure rfl hfail hun
  | waitUntil =>
    refine wp_bind_post hs (waitLoop_wp _ hs) (fun a events s' hs' ha => ?_) fun a ha => ?_
    · obtain ⟨waited, rfl⟩ := Option.isSome_iff_exists.mp ha
      refine wp_quiet_bind (quiet_setMember _ _ _) hs' fun s₁ hs₁ _ => ?_
      exact wp_done _ (by simp [ScenarioStep.isAssertion, hkind]) hs₁
    · rw [ha]
      exact ⟨false, rfl, rfl⟩
  | assertValue =>
    refine wp_bind_post hs (judge_wp hs) (fun a events s' hs' ha => ?_) fun a ha => ?_
    · obtain ⟨judged, rfl, body, evaluated, hmem, hread, hjudged⟩ := ha
      refine wp_ite (fun hheld => ?_) fun _ => ?_
      · refine wp_finish hs' fun s'' h => ⟨rfl, ?_, ?_⟩
        · rw [Finished, h, isAssertion_of_kind (.inr hkind)]
        · simp only [Holds, hkind, List.append_nil]
          exact ⟨body, evaluated, hmem, hread, hjudged ▸ hheld⟩
      · refine wp_fetch_bind (wp_fail_bind hs' fun s₁ hfail hun => ?_)
        refine stops_quiet_bind (quiet_setAtFrame _) hfail hun fun s₂ hfail hun => ?_
        exact stops_pure rfl hfail hun
    · rw [ha]
      exact ⟨false, rfl, rfl⟩
  | capture =>
    refine wp_answered_bind (by simp) (fun body => ?_) fun error reply => ?_
    · refine wp_push_good ⟨rfl, by simp⟩ trivial ⟨body, rfl⟩ ?_
      refine wp_quiet_bind (quiet_setMember _ _ _) (hs.push _) fun s₁ hs₁ _ => ?_
      refine wp_quiet_bind (quiet_update fun _ => ⟨rfl, rfl, rfl⟩) hs₁ fun s₂ hs₂ _ => ?_
      exact wp_done [_] (by simp [ScenarioStep.isAssertion, hkind]) hs₂
    · exact wp_fail_bind (hs.push _) fun s₁ hfail hun => stops_pure rfl hfail hun

/-- A step, once its start is noted. -/
theorem runStep_wp (hstep : spec.steps[index]? = some step) (hs : Begun index s) :
    (runStep driver spec index step).wp (Post spec index
      (fun _ events s' => Finished s' index step ∧ Holds step index events) (fun _ => True)
      (push s (.started index))) s := by
  unfold runStep
  have hrun : (note (.started index)).run s = (.ok (), push s (.started index)) := rfl
  refine wp_run_bind hrun (wp_fetch_bind ?_)
  have hbegun := hs.push (.started index)
  refine wp_bind_post hbegun (runKind_wp hstep hbegun) (fun b events s' hs' hb => ?_) fun b hb => ?_
  · obtain ⟨rfl, hfinished, hholds⟩ := hb
    refine wp_fetch_bind ?_
    refine wp_quiet_bind (quiet_ite (quiet_setMember _ _ _) quiet_pure) hs' fun s₁ hs₁ hsilent₁ => ?_
    obtain ⟨s₂, hrun, hsilent₂⟩ := quiet_setAtFrame index s₁
    unfold wp
    rw [hrun]
    refine .of_silent hsilent₂ (.go_here (hs₁.of_silent hsilent₂).failure ⟨?_, ?_⟩)
    · rwa [Finished, (hsilent₁.trans hsilent₂).outcomes]
    · simpa using hholds
  · rw [hb]
    exact ⟨(), rfl, trivial⟩

end Kinds

end Didi.Scenario
