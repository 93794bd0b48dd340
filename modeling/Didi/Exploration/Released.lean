import Didi.Lib.Run
import Didi.Exploration.Callbacks

/-!
# What an exploration holds comes up

* `Standing` : what may be down and what is on record, by where the innermost callback is;
* `HeldInv` : this, and those around it only sample;
* `Recorded` : an accepted press is recorded, and nothing reads the schedule or ends the run before;
* `heldInv_step`, `heldInv_run` : the acts keep the invariant as long as the presses are recorded;
* `none_left_down` : what is down then.
-/

namespace Didi.Exploration
open World

namespace PendingSceneExploration

/-- The action of a slot. -/
def action (p : PendingSceneExploration) (slot : Int) : String :=
  p.request.actions.getD (actionForSlot p.request slot) ""

/-- The action on record as held. -/
def held (p : PendingSceneExploration) : Finset String :=
  match p.heldName with
  | some name => {name}
  | none => ∅

/-- What is on record as held is the action of the slot on record. -/
structure Ok (p : PendingSceneExploration) : Prop where
  actions : p.request.actions ≠ []
  held : ∀ i, p.heldAction = some i → i = actionForSlot p.request p.heldSlot

end PendingSceneExploration

theorem observe_request (s : SceneExploration) (elapsed : Int) (sample : ExplorationSample) :
    (s.observe elapsed sample).2.request = s.request := by
  unfold SceneExploration.observe SceneExploration.closeInterval SceneExploration.clock SceneExploration.count
  dsimp only
  split_ifs <;> rfl

theorem actionForSlot_lt {request : SceneExplorationRequest} (h : request.actions ≠ []) (slot : Int) :
    actionForSlot request slot < request.actions.length := by
  have hpos := List.length_pos_iff.mpr h
  unfold actionForSlot
  split_ifs
  · exact hpos
  · exact Nat.mod_lt _ hpos

/-! ## What may be down -/

section World
variable {w : World} {p completed : PendingSceneExploration} {c : Callback} {outer : List Callback}

def heldBy (pending : Option PendingSceneExploration) : Finset String :=
  match pending with
  | some p => p.held
  | none => ∅

/-- What a callback noted of its run. -/
structure Notes (p : PendingSceneExploration) (c : Callback) : Prop where
  slot : c.slot = slotAt p.request c.elapsed
  actionNow : c.actionNow = actionForSlot p.request c.slot
  actionNowName : c.actionNowName = p.action c.slot

/-- A callback that is about to press read the schedule last, and what it noted is true of the run still. -/
def Noted (w : World) (c : Callback) : Prop := c.elapsed = w.clock ∧ ∀ p, w.pending = some p → Notes p c

/-- Only what is on record is down, in the slot that was read last. -/
def Settled (w : World) : Prop :=
  w.down ⊆ heldBy w.pending ∧ ∀ p, w.pending = some p → p.heldAction ≠ none → p.heldSlot = slotAt p.request w.clock

/-- A run that was finished and is to be answered. -/
structure Over (w : World) (completed : PendingSceneExploration) : Prop where
  none : w.pending = none
  ok : completed.Ok
  lt : completed.id < w.scheduled
  notMem : completed.id ∉ w.ended
  heldSlot : completed.heldAction ≠ Option.none → completed.heldSlot = slotAt completed.request w.clock

/-- What holds while the innermost callback is at a stage. -/
def Standing (w : World) (c : Callback) : Stage → Prop
  | .release => Noted w c ∧ w.down ⊆ heldBy w.pending ∧ ∀ p, w.pending = some p → c.previouslyHeld = p.heldAction
  | .record .accepted => Noted w c ∧ w.pending ≠ none ∧ w.down ⊆ {c.actionNowName}
  | .press | .releaseQueued | .record _ => Noted w c ∧ w.down = ∅
  | .sample => Settled w
  | .releaseLast completed => Over w completed ∧ w.down ⊆ completed.held
  | .answer completed => Over w completed ∧ w.down = ∅

/-- What holds by where the callbacks are. -/
def Inside (w : World) : List Callback → Prop
  | [] => Settled w
  | c :: _ => Standing w c c.stage

theorem inside_cons (w : World) (c : Callback) (outer : List Callback) : Inside w (c :: outer) = Standing w c c.stage := rfl

structure HeldInv (w : World) : Prop where
  ended : ∀ id ∈ w.ended, id < w.scheduled
  pending : ∀ p, w.pending = some p → p.Ok ∧ p.id < w.scheduled ∧ p.id ∉ w.ended
  run : ∀ c ∈ w.callbacks, ∀ p, w.pending = some p → p.id = c.runningFor
  outer : ∀ c ∈ w.callbacks.tail, c.stage = .sample
  inside : Inside w w.callbacks

/-- Between the section that reads the schedule and the one that records the press. -/
def Callback.pressing (c : Callback) : Bool := c.stage matches .release | .press | .releaseQueued | .record _

/-- An accepted press is recorded: its run is pending when it is sent, and no shutdown comes before the record. And no
callback reads the schedule of a run while another one is pressing. -/
def Recorded (w : World) (act : Act) : Prop :=
  ∀ c ∈ w.callbacks,
    (act = .press .accepted → c.stage = .press → ∃ p, w.pending = some p ∧ p.id = c.runningFor) ∧
      (act = .shutdown → c.stage ≠ .record .accepted) ∧
      ∀ elapsed, act = .begin elapsed → c.pressing = true → w.pending = none

theorem recorded_of_ne {act : Act} (hpress : act ≠ .press .accepted) (hshutdown : act ≠ .shutdown)
    (hbegin : ∀ elapsed, act ≠ .begin elapsed) : Recorded w act :=
  fun _ _ => ⟨fun h => absurd h hpress, fun h => absurd h hshutdown, fun elapsed h => absurd h (hbegin elapsed)⟩

theorem recorded_press (hp : w.pending = some p) (hrun : ∀ c ∈ w.callbacks, p.id = c.runningFor) :
    Recorded w (.press .accepted) :=
  fun c hc => ⟨fun _ _ => ⟨p, hp, hrun c hc⟩, Act.noConfusion, fun _ => Act.noConfusion⟩

theorem recorded_begin {elapsed : Int} (h : ∀ c ∈ w.callbacks, c.pressing = false) : Recorded w (.begin elapsed) :=
  fun c hc => ⟨Act.noConfusion, Act.noConfusion, fun _ _ hpressing =>
    absurd ((h c hc).symm.trans hpressing) Bool.noConfusion⟩

theorem heldInv_start : HeldInv {} := by
  refine ⟨?_, ?_, ?_, ?_, Finset.Subset.refl _, ?_⟩
  · exact fun id hid => absurd hid List.not_mem_nil
  · exact fun p hp => by cases hp
  · exact fun c hc => absurd hc List.not_mem_nil
  · exact fun c hc => absurd hc List.not_mem_nil
  · exact fun p hp => by cases hp

theorem held_eq_empty (h : p.heldAction = none) : p.held = ∅ := by
  rw [PendingSceneExploration.held, PendingSceneExploration.heldName, h]
  rfl

theorem getElem?_action (h : p.request.actions ≠ []) (slot : Int) :
    p.request.actions[actionForSlot p.request slot]? = some (p.action slot) := by
  have hlt := actionForSlot_lt h slot
  rw [PendingSceneExploration.action, List.getD_eq_getElem?_getD, List.getElem?_eq_getElem hlt]
  rfl

theorem held_observed {exploration : SceneExploration} (h : exploration.request = p.exploration.request) :
    PendingSceneExploration.held { p with exploration } = p.held := by
  have hrequest : PendingSceneExploration.request { p with exploration } = p.request := h
  unfold PendingSceneExploration.held PendingSceneExploration.heldName
  rw [hrequest]

theorem PendingSceneExploration.Ok.observed {exploration : SceneExploration} (hok : p.Ok)
    (h : exploration.request = p.exploration.request) : PendingSceneExploration.Ok { p with exploration } := by
  have hrequest : PendingSceneExploration.request { p with exploration } = p.request := h
  exact ⟨by rw [hrequest]; exact hok.actions, by rw [hrequest]; exact hok.held⟩

/-! ## Bringing up -/

theorem bringUp_subset (down : Finset String) (name : Option String) : bringUp down name ⊆ down := by
  cases name with
  | none => exact Finset.Subset.refl _
  | some name => exact Finset.erase_subset _ _

theorem bringUp_held {down : Finset String} (h : down ⊆ p.held) : bringUp down p.heldName ⊆ ∅ := by
  intro name hname
  have hmem := h (bringUp_subset _ _ hname)
  rw [PendingSceneExploration.held] at hmem
  cases hheld : p.heldName with
  | none => rwa [hheld] at hmem
  | some held =>
    rw [hheld] at hmem hname
    exact absurd (Finset.mem_singleton.mp hmem) (Finset.ne_of_mem_erase hname)

/-! ## The acts -/

theorem heldInv_schedule {w' : World} {request : SceneExplorationRequest} (h : HeldInv w) (hidle : w.callbacks = [])
    (hw' : w.schedule request = some w') : HeldInv w' := by
  unfold schedule at hw'
  split_ifs at hw' with hactions
  split at hw'
  · cases hw'
    exact h
  · rename_i hnone
    cases hw'
    have hsettled := h.inside
    rw [hidle] at hsettled
    have hnew : PendingSceneExploration.held { id := w.scheduled, exploration := .new request } = ∅ := held_eq_empty rfl
    refine ⟨fun id hid => Nat.lt_succ_of_lt (h.ended id hid), ?_, ?_, h.outer, ?_⟩
    · intro p hp
      cases hp
      exact ⟨⟨hactions, fun i hi => by cases hi⟩, Nat.lt_succ_self _, fun hid => Nat.lt_irrefl _ (h.ended _ hid)⟩
    · dsimp only
      rw [hidle]
      exact fun c hc => absurd hc List.not_mem_nil
    · dsimp only
      rw [hidle]
      refine ⟨?_, ?_⟩
      · have hdown := hsettled.1
        rw [hnone] at hdown
        rwa [show heldBy (some { id := w.scheduled, exploration := .new request }) = heldBy none from hnew]
      · intro p hp hheld
        cases hp
        exact absurd rfl hheld

/-- A run that ends while nothing is down. -/
theorem heldInv_end (h : HeldInv w) (hp : w.pending = some p) {callbacks : List Callback}
    (hsub : callbacks.Sublist w.callbacks) {down : Finset String}
    (hinside : Inside { w with pending := none, down, callbacks, ended := w.ended ++ [p.id] } callbacks) :
    HeldInv { w with pending := none, down, callbacks, ended := w.ended ++ [p.id] } := by
  refine ⟨?_, fun p hp => (by cases hp), fun c _ p hp => (by cases hp), ?_, hinside⟩
  · intro id hid
    rcases List.mem_append.mp hid with hid | hid
    · exact h.ended id hid
    · rw [List.mem_singleton.mp hid]
      exact (h.pending p hp).2.1
  · exact fun c hc => h.outer c (hsub.tail.subset hc)

theorem heldInv_shutdown (h : HeldInv w) (hrecorded : Recorded w .shutdown) : HeldInv w.cancelPendingCommands := by
  unfold cancelPendingCommands
  split
  · exact h
  · rename_i p hp
    refine heldInv_end h hp (List.Sublist.refl _) ?_
    have hinside := h.inside
    have hup : w.down ⊆ heldBy w.pending → bringUp w.down p.heldName ⊆ ∅ := by
      rw [hp]
      exact bringUp_held
    have hempty : w.down = ∅ → bringUp w.down p.heldName = ∅ := fun hdown =>
      Finset.subset_empty.mp ((bringUp_subset _ _).trans hdown.subset)
    cases hc : w.callbacks with
    | nil =>
      rw [hc] at hinside
      exact ⟨hup hinside.1, fun p hp => by cases hp⟩
    | cons c outer =>
      rw [hc, inside_cons] at hinside
      rw [inside_cons]
      have hstage := (hrecorded c (hc ▸ List.mem_cons_self)).2.1 rfl
      cases hs : c.stage with
      | release =>
        rw [hs] at hinside
        exact ⟨⟨hinside.1.1, fun p hp => by cases hp⟩, hup hinside.2.1, fun p hp => by cases hp⟩
      | sample =>
        rw [hs] at hinside
        exact ⟨hup hinside.1, fun p hp => by cases hp⟩
      | press | releaseQueued =>
        rw [hs] at hinside
        exact ⟨⟨hinside.1.1, fun p hp => by cases hp⟩, hempty hinside.2⟩
      | record answer =>
        rw [hs] at hinside
        cases answer with
        | accepted => exact absurd hs hstage
        | queued | refused => exact ⟨⟨hinside.1.1, fun p hp => by cases hp⟩, hempty hinside.2⟩
      | releaseLast completed | answer completed =>
        rw [hs] at hinside
        cases hp.symm.trans hinside.1.none

/-- A callback begins in a world in which only what is on record is down. -/
theorem settled_of_recorded {elapsed : Int} (h : HeldInv w) (hrecorded : Recorded w (.begin elapsed))
    (hp : w.pending = some p) :
    Settled w ∧ ∀ c ∈ w.callbacks, c.stage = .sample := by
  have hinside := h.inside
  have houter := h.outer
  cases hc : w.callbacks with
  | nil =>
    rw [hc] at hinside
    exact ⟨hinside, fun c hc => absurd hc List.not_mem_nil⟩
  | cons c outer =>
    rw [hc] at hinside houter
    have hpressing : c.pressing ≠ true := fun hpressing => by
      cases hp.symm.trans ((hrecorded c (hc ▸ List.mem_cons_self)).2.2 elapsed rfl hpressing)
    have hstage : c.stage = .sample := by
      rw [inside_cons] at hinside
      unfold Callback.pressing at hpressing
      cases hs : c.stage with
      | sample => rfl
      | release | press | releaseQueued | record => simp [hs] at hpressing
      | releaseLast completed | answer completed =>
        rw [hs] at hinside
        cases hp.symm.trans hinside.1.none
    rw [inside_cons, hstage] at hinside
    exact ⟨hinside, List.forall_mem_cons.mpr ⟨hstage, houter⟩⟩

theorem heldInv_begin {elapsed : Int} (h : HeldInv w) (hrecorded : Recorded w (.begin elapsed)) :
    HeldInv (w.begin elapsed) := by
  unfold World.begin
  split
  · exact h
  · rename_i p hp
    obtain ⟨hok, hlt, hnot⟩ := h.pending p hp
    obtain ⟨⟨hdown, hslot⟩, hsample⟩ := settled_of_recorded h hrecorded hp
    rw [hp] at hdown
    split_ifs with hawaiting
    · refine ⟨h.ended, ?_, ?_, h.outer, ?_⟩
      · intro p' hp'
        cases hp'
        exact ⟨⟨hok.actions, hok.held⟩, hlt, hnot⟩
      · intro c hc p' hp'
        cases hp'
        exact h.run c hc p hp
      · have hsettled : Settled { w with pending := some { p with awaitingNextCallback := false } } := by
          refine ⟨hdown, fun p' hp' hheld => ?_⟩
          cases hp'
          exact hslot p hp hheld
        dsimp only
        cases hc : w.callbacks with
        | nil => exact hsettled
        | cons c outer =>
          rw [inside_cons, hsample c (hc ▸ List.mem_cons_self)]
          exact hsettled
    · refine ⟨h.ended, h.pending, ?_, hsample, ?_⟩
      · refine List.forall_mem_cons.mpr ⟨fun p' hp' => ?_, h.run⟩
        rw [hp] at hp'
        cases hp'
        rfl
      · rw [inside_cons]
        dsimp only
        split_ifs with hheld
        · refine ⟨by rwa [hp], fun p' hp' _ => ?_⟩
          rw [hp] at hp'
          cases hp'
          exact hheld.symm
        · refine ⟨⟨rfl, fun p' hp' => ?_⟩, by rwa [hp], fun p' hp' => ?_⟩
          · rw [hp] at hp'
            cases hp'
            exact ⟨rfl, rfl, rfl⟩
          · rw [hp] at hp'
            cases hp'
            rfl

section Innermost
variable (h : HeldInv w) (hc : w.callbacks = c :: outer)
include h hc

theorem standing {stage : Stage} (hstage : c.stage = stage) : Standing w c stage := by
  have hinside := h.inside
  rw [hc] at hinside
  exact hstage ▸ hinside

/-- The callback goes on, with the run that is pending as it was. -/
theorem heldInv_next {down : Finset String} {stage : Stage}
    (hstanding : Standing { w with down, callbacks := { c with stage } :: outer } { c with stage } stage) :
    HeldInv { w with down, callbacks := { c with stage } :: outer } := by
  have hrun := h.run
  have houter := h.outer
  rw [hc] at hrun houter
  obtain ⟨hown, hothers⟩ := List.forall_mem_cons.mp hrun
  exact ⟨h.ended, h.pending, List.forall_mem_cons.mpr ⟨hown, hothers⟩, houter, hstanding⟩

/-- Where the callback leaves, those around it sample. -/
theorem inside_outer {w' : World} (hsettled : Settled w') : Inside w' outer := by
  have houter := h.outer
  rw [hc] at houter
  cases houter' : outer with
  | nil => exact hsettled
  | cons d rest =>
    rw [inside_cons, houter d (by rw [houter']; exact List.mem_cons_self)]
    exact hsettled

theorem heldInv_leave (hsettled : Settled w) : HeldInv (w.leave outer) := by
  have hrun := h.run
  have houter := h.outer
  rw [hc] at hrun houter
  exact ⟨h.ended, h.pending, (List.forall_mem_cons.mp hrun).2, fun d hd => houter d (List.mem_of_mem_tail hd),
    inside_outer h hc hsettled⟩

omit h hc in
/-- The notes of a callback that goes on. -/
theorem Noted.next (hnoted : Noted w c) (down : Finset String) (callbacks : List Callback) (stage : Stage) :
    Noted { w with down, callbacks } { c with stage } :=
  ⟨hnoted.1, fun p hp => ⟨(hnoted.2 p hp).slot, (hnoted.2 p hp).actionNow, (hnoted.2 p hp).actionNowName⟩⟩

theorem heldInv_release (hstage : c.stage = .release) : HeldInv (w.release c outer) := by
  obtain ⟨hnoted, hdown, hheld⟩ := standing h hc hstage
  have hup : ∃ down, down ⊆ ∅ ∧ w.release c outer = next c outer .press { w with down } := by
    unfold World.release
    rcases Option.eq_none_or_eq_some w.pending with hp | ⟨p, hp⟩
    · rw [hp] at hdown
      have hsame : ∀ i, w.releaseExplorationAction i = w := fun i => by
        unfold releaseExplorationAction
        rw [hp]
      refine ⟨w.down, hdown, ?_⟩
      cases c.previouslyHeld with
      | none => rfl
      | some i => exact congrArg _ (hsame i)
    · rw [hp] at hdown
      cases hprevious : c.previouslyHeld with
      | none =>
        have hnone : p.heldAction = none := (hheld p hp).symm.trans hprevious
        exact ⟨w.down, hdown.trans (held_eq_empty hnone).subset, rfl⟩
      | some i =>
        have hname : p.heldName = p.request.actions[i]? := by
          rw [PendingSceneExploration.heldName, ← hheld p hp, hprevious]
          rfl
        refine ⟨bringUp w.down p.request.actions[i]?, hname ▸ bringUp_held hdown, congrArg _ ?_⟩
        unfold releaseExplorationAction
        rw [hp]
  obtain ⟨down, hempty, heq⟩ := hup
  rw [heq]
  exact heldInv_next h hc ⟨hnoted.next _ _ _, Finset.subset_empty.mp hempty⟩

theorem heldInv_press {answer : Press} (hstage : c.stage = .press) (hrecorded : Recorded w (.press answer)) :
    HeldInv (w.press c outer answer) := by
  obtain ⟨hnoted, hdown⟩ := standing h hc hstage
  cases answer with
  | accepted =>
    obtain ⟨p, hp, -⟩ := (hrecorded c (hc ▸ List.mem_cons_self)).1 rfl hstage
    refine heldInv_next h hc ⟨hnoted.next _ _ _, fun hnone => (by cases hp.symm.trans hnone), ?_⟩
    change insert c.actionNowName w.down ⊆ {c.actionNowName}
    rw [hdown]
    exact Finset.Subset.refl _
  | queued | refused => exact heldInv_next h hc ⟨hnoted.next _ _ _, hdown⟩

theorem heldInv_releaseQueued (hstage : c.stage = .releaseQueued) : HeldInv (w.releaseQueued c outer) := by
  obtain ⟨hnoted, hdown⟩ := standing h hc hstage
  refine heldInv_next h hc ⟨hnoted.next _ _ _, ?_⟩
  exact Finset.subset_empty.mp ((bringUp_subset _ _).trans hdown.subset)

theorem heldInv_record {answer : Press} (hstage : c.stage = .record answer) : HeldInv (w.record c outer answer) := by
  have hstanding := standing h hc hstage
  unfold World.record
  split
  · rename_i hnone
    refine heldInv_leave h hc ⟨?_, fun p hp => by cases hnone.symm.trans hp⟩
    cases answer with
    | accepted => exact absurd hnone hstanding.2.1
    | queued | refused => exact hstanding.2.subset.trans (Finset.empty_subset _)
  · rename_i p hp
    rw [if_neg (not_not_intro (h.run c (hc ▸ List.mem_cons_self) p hp))]
    obtain ⟨hok, hlt, hnot⟩ := h.pending p hp
    cases answer with
    | accepted =>
      obtain ⟨⟨hclock, hnotes⟩, -, hdown⟩ := hstanding
      have hown := hnotes p hp
      refine ⟨h.ended, ?_, ?_, ?_, ?_, ?_⟩
      · intro p' hp'
        cases hp'
        refine ⟨⟨hok.actions, fun i hi => ?_⟩, hlt, hnot⟩
        cases hi
        exact hown.actionNow
      · intro d hd p' hp'
        cases hp'
        rcases List.mem_cons.mp hd with rfl | hd
        · exact h.run c (hc ▸ List.mem_cons_self) p hp
        · exact h.run d (hc ▸ List.mem_cons_of_mem c hd) p hp
      · have houter := h.outer
        rwa [hc] at houter
      · have hname : PendingSceneExploration.heldName { p with heldAction := some c.actionNow, heldSlot := c.slot } =
            some c.actionNowName := by
          rw [hown.actionNow, hown.actionNowName]
          exact getElem?_action hok.actions c.slot
        change w.down ⊆ PendingSceneExploration.held { p with heldAction := some c.actionNow, heldSlot := c.slot }
        rw [PendingSceneExploration.held, hname]
        exact hdown
      · intro p' hp' _
        cases hp'
        exact hown.slot.trans (congrArg _ hclock)
    | queued | refused =>
      refine heldInv_end h hp (hc ▸ List.sublist_cons_self c outer) (inside_outer h hc ⟨?_, fun p hp => by cases hp⟩)
      exact hstanding.2.subset.trans (Finset.empty_subset _)

theorem heldInv_observe {sample : ExplorationSample} (hstage : c.stage = .sample) : HeldInv (w.observe c outer sample) := by
  obtain ⟨hdown, hslot⟩ := standing h hc hstage
  unfold World.observe
  split
  · exact heldInv_leave h hc ⟨hdown, hslot⟩
  · rename_i p hp
    rw [if_neg (not_not_intro (h.run c (hc ▸ List.mem_cons_self) p hp))]
    obtain ⟨hok, hlt, hnot⟩ := h.pending p hp
    have hrequest := observe_request p.exploration c.elapsed sample
    generalize p.exploration.observe c.elapsed sample = observed at hrequest
    obtain ⟨finished, exploration⟩ := observed
    have hheld : PendingSceneExploration.held { p with exploration } = p.held := held_observed hrequest
    have hslot' : p.heldAction ≠ none → p.heldSlot = slotAt exploration.request w.clock := by
      rw [hrequest]
      exact hslot p hp
    rw [hp, heldBy, ← hheld] at hdown
    have hrun := h.run
    have houter := h.outer
    rw [hc] at hrun houter
    cases finished with
    | true =>
      exact ⟨h.ended, fun p hp => (by cases hp), fun c _ p hp => (by cases hp), houter,
        ⟨rfl, hok.observed hrequest, hlt, hnot, hslot'⟩, hdown⟩
    | false =>
      refine ⟨h.ended, ?_, ?_, fun d hd => houter d (List.mem_of_mem_tail hd), inside_outer h hc ⟨hdown, ?_⟩⟩
      · intro p' hp'
        cases hp'
        exact ⟨hok.observed hrequest, hlt, hnot⟩
      · intro d hd p' hp'
        cases hp'
        exact hrun d (List.mem_cons_of_mem c hd) p hp
      · intro p' hp' hne
        cases hp'
        exact hslot' hne

theorem heldInv_releaseLast (hstage : c.stage = .releaseLast completed) : HeldInv (w.releaseLast c outer completed) := by
  obtain ⟨hover, hdown⟩ := standing h hc hstage
  exact heldInv_next h hc ⟨⟨hover.none, hover.ok, hover.lt, hover.notMem, hover.heldSlot⟩,
    Finset.subset_empty.mp (bringUp_held hdown)⟩

theorem heldInv_answer (hstage : c.stage = .answer completed) : HeldInv (w.answer outer completed) := by
  obtain ⟨hover, hdown⟩ := standing h hc hstage
  have houter := h.outer
  rw [hc] at houter
  have hnone : ∀ p, w.pending ≠ some p := fun p hp => by cases hover.none.symm.trans hp
  refine ⟨?_, fun p hp => absurd hp (hnone p), fun d _ p hp => absurd hp (hnone p),
    fun d hd => houter d (List.mem_of_mem_tail hd), inside_outer h hc ⟨?_, fun p hp => absurd hp (hnone p)⟩⟩
  · intro id hmem
    rcases List.mem_append.mp hmem with hmem | hmem
    · exact h.ended id hmem
    · rw [List.mem_singleton.mp hmem]
      exact hover.lt
  · exact hdown.subset.trans (Finset.empty_subset _)

end Innermost

/-- An act of a callback is one that its stage asks for. -/
theorem step_cases {w' : World} {act : Act} (hstep : w.step act = some w') :
    (∃ request, act = .schedule request ∧ w.callbacks = [] ∧ w.schedule request = some w') ∨
      (act = .shutdown ∧ w' = w.cancelPendingCommands) ∨
      (∃ elapsed, act = .begin elapsed ∧ w' = w.begin elapsed) ∨
      ∃ c outer, w.callbacks = c :: outer ∧
        ((act = .release ∧ c.stage = .release ∧ w' = w.release c outer) ∨
          (∃ answer, act = .press answer ∧ c.stage = .press ∧ w' = w.press c outer answer) ∨
          (act = .releaseQueued ∧ c.stage = .releaseQueued ∧ w' = w.releaseQueued c outer) ∨
          (∃ answer, act = .record ∧ c.stage = .record answer ∧ w' = w.record c outer answer) ∨
          (∃ sample, act = .observe sample ∧ c.stage = .sample ∧ w' = w.observe c outer sample) ∨
          (∃ completed, act = .releaseLast ∧ c.stage = .releaseLast completed ∧ w' = w.releaseLast c outer completed) ∨
          ∃ completed, act = .answer ∧ c.stage = .answer completed ∧ w' = w.answer outer completed) := by
  unfold World.step at hstep
  split at hstep
  · exact .inl ⟨_, rfl, ‹_›, hstep⟩
  · cases hstep
    exact .inr (.inl ⟨rfl, rfl⟩)
  · cases hstep
    exact .inr (.inr (.inl ⟨_, rfl, rfl⟩))
  · rename_i _ c outer _ _ hc
    refine .inr (.inr (.inr ⟨c, outer, hc, ?_⟩))
    split at hstep
    · cases hstep
      exact .inl ⟨rfl, ‹_›, rfl⟩
    · cases hstep
      exact .inr (.inl ⟨_, rfl, ‹_›, rfl⟩)
    · cases hstep
      exact .inr (.inr (.inl ⟨rfl, ‹_›, rfl⟩))
    · cases hstep
      exact .inr (.inr (.inr (.inl ⟨_, rfl, ‹_›, rfl⟩)))
    · cases hstep
      exact .inr (.inr (.inr (.inr (.inl ⟨_, rfl, ‹_›, rfl⟩))))
    · cases hstep
      exact .inr (.inr (.inr (.inr (.inr (.inl ⟨_, rfl, ‹_›, rfl⟩)))))
    · cases hstep
      exact .inr (.inr (.inr (.inr (.inr (.inr ⟨_, rfl, ‹_›, rfl⟩)))))
    · cases hstep
  · cases hstep

theorem heldInv_step {w' : World} {act : Act} (h : HeldInv w) (hrecorded : Recorded w act) (hstep : w.step act = some w') :
    HeldInv w' := by
  rcases step_cases hstep with ⟨request, -, hidle, hw'⟩ | ⟨rfl, rfl⟩ | ⟨elapsed, rfl, rfl⟩ | ⟨c, outer, hc, hact⟩
  · exact heldInv_schedule h hidle hw'
  · exact heldInv_shutdown h hrecorded
  · exact heldInv_begin h hrecorded
  · rcases hact with ⟨-, hstage, rfl⟩ | ⟨answer, rfl, hstage, rfl⟩ | ⟨-, hstage, rfl⟩ | ⟨answer, -, hstage, rfl⟩ |
      ⟨sample, -, hstage, rfl⟩ | ⟨completed, -, hstage, rfl⟩ | ⟨completed, -, hstage, rfl⟩
    · exact heldInv_release h hc hstage
    · exact heldInv_press h hc hstage hrecorded
    · exact heldInv_releaseQueued h hc hstage
    · exact heldInv_record h hc hstage
    · exact heldInv_observe h hc hstage
    · exact heldInv_releaseLast h hc hstage
    · exact heldInv_answer h hc hstage

end World

/-! ## Runs -/

theorem heldInv_perform {w : World} {act : Act} (h : HeldInv w) (hrecorded : Recorded w act) :
    HeldInv (w.perform act).2 := by
  unfold World.perform
  cases hstep : w.step act with
  | none => exact h
  | some w' => exact heldInv_step h hrecorded hstep

theorem heldInv_run {acts : List Act} (h : Run.Along World.perform Recorded {} acts) :
    HeldInv (Run.exec World.perform {} acts) :=
  Run.exec_of_along (fun _ _ hrecorded hinv => heldInv_perform hinv hrecorded) h heldInv_start

/-- The action of the slot that the last callback came to, or, until that callback has brought it up, of the slot on
record. -/
def InSlot (w : World) (run : PendingSceneExploration) (name : String) : Prop :=
  name = run.action (slotAt run.request w.clock) ∨
    (∃ c ∈ w.callbacks, c.stage = .release) ∧ name = run.action run.heldSlot

theorem eq_action_of_held {p : PendingSceneExploration} {name : String} (hok : p.Ok) (h : name ∈ p.held) :
    p.heldAction ≠ none ∧ name = p.action p.heldSlot := by
  cases hheld : p.heldAction with
  | none =>
    rw [held_eq_empty hheld] at h
    cases Finset.notMem_empty _ h
  | some i =>
    refine ⟨Option.some_ne_none i, ?_⟩
    have hname : p.heldName = some (p.action p.heldSlot) := by
      rw [PendingSceneExploration.heldName, hheld, hok.held i hheld]
      exact getElem?_action hok.actions p.heldSlot
    rw [PendingSceneExploration.held, hname] at h
    exact Finset.mem_singleton.mp h

theorem held_subsingleton (p : PendingSceneExploration) : ∀ a ∈ p.held, ∀ b ∈ p.held, a = b := by
  intro a ha b hb
  rw [PendingSceneExploration.held] at ha hb
  cases hname : p.heldName with
  | none =>
    rw [hname] at ha
    cases Finset.notMem_empty _ ha
  | some name =>
    rw [hname] at ha hb
    rw [Finset.mem_singleton.mp ha, Finset.mem_singleton.mp hb]

/-- One run has what is down, as the action on record or as the one that was pressed just now. -/
theorem down_inSlot {w : World} (h : HeldInv w) (hne : w.down.Nonempty) : ∃ run : PendingSceneExploration,
    run.id < w.scheduled ∧ run.id ∉ w.ended ∧ (∀ name ∈ w.down, InSlot w run name) ∧
      ∀ a ∈ w.down, ∀ b ∈ w.down, a = b := by
  have hsubsingleton : ∀ {names : Finset String}, w.down ⊆ names → (∀ a ∈ names, ∀ b ∈ names, a = b) →
      ∀ a ∈ w.down, ∀ b ∈ w.down, a = b := fun hsub hall a ha b hb => hall a (hsub ha) b (hsub hb)
  have hempty : w.down ≠ ∅ := hne.ne_empty
  have hpending : w.down ⊆ heldBy w.pending → ∃ p, w.pending = some p ∧ p.id < w.scheduled ∧ p.id ∉ w.ended ∧
      p.heldAction ≠ none ∧ (∀ name ∈ w.down, name = p.action p.heldSlot) ∧ ∀ a ∈ w.down, ∀ b ∈ w.down, a = b := by
    intro hdown
    cases hp : w.pending with
    | none =>
      rw [hp] at hdown
      exact absurd (Finset.subset_empty.mp hdown) hempty
    | some p =>
      rw [hp] at hdown
      obtain ⟨hok, hlt, hnot⟩ := h.pending p hp
      obtain ⟨name, hname⟩ := hne
      exact ⟨p, rfl, hlt, hnot, (eq_action_of_held hok (hdown hname)).1,
        fun name hname => (eq_action_of_held hok (hdown hname)).2, hsubsingleton hdown (held_subsingleton p)⟩
  have hsettled : Settled w → ∃ run : PendingSceneExploration, run.id < w.scheduled ∧ run.id ∉ w.ended ∧
      (∀ name ∈ w.down, InSlot w run name) ∧ ∀ a ∈ w.down, ∀ b ∈ w.down, a = b := by
    rintro ⟨hdown, hslot⟩
    obtain ⟨p, hp, hlt, hnot, hheld, hnames, hall⟩ := hpending hdown
    exact ⟨p, hlt, hnot, fun name hname => .inl (hslot p hp hheld ▸ hnames name hname), hall⟩
  have hinside := h.inside
  cases hc : w.callbacks with
  | nil =>
    rw [hc] at hinside
    exact hsettled hinside
  | cons c outer =>
    rw [hc, inside_cons] at hinside
    cases hs : c.stage with
    | release =>
      rw [hs] at hinside
      obtain ⟨p, hp, hlt, hnot, hheld, hnames, hall⟩ := hpending hinside.2.1
      exact ⟨p, hlt, hnot, fun name hname => .inr ⟨⟨c, hc ▸ List.mem_cons_self, hs⟩, hnames name hname⟩, hall⟩
    | sample =>
      rw [hs] at hinside
      exact hsettled hinside
    | record answer =>
      rw [hs] at hinside
      cases answer with
      | accepted =>
        obtain ⟨⟨hclock, hnotes⟩, hsome, hdown⟩ := hinside
        obtain ⟨p, hp⟩ := Option.ne_none_iff_exists'.mp hsome
        obtain ⟨-, hlt, hnot⟩ := h.pending p hp
        have hown := hnotes p hp
        refine ⟨p, hlt, hnot, fun name hname => .inl ?_, hsubsingleton hdown fun a ha b hb => ?_⟩
        · rw [Finset.mem_singleton.mp (hdown hname), hown.actionNowName, hown.slot, hclock]
        · rw [Finset.mem_singleton.mp ha, Finset.mem_singleton.mp hb]
      | queued | refused => exact absurd hinside.2 hempty
    | releaseLast completed =>
      rw [hs] at hinside
      obtain ⟨hover, hdown⟩ := hinside
      refine ⟨completed, hover.lt, hover.notMem, fun name hname => .inl ?_,
        hsubsingleton hdown (held_subsingleton completed)⟩
      obtain ⟨hheld, hslot⟩ := eq_action_of_held hover.ok (hdown hname)
      rw [hslot, hover.heldSlot hheld]
    | press | releaseQueued | answer =>
      rw [hs] at hinside
      exact absurd hinside.2 hempty

/-- Slots of 250 ms, which the seed gives to "right", "left" and "right". -/
def pacing : SceneExplorationRequest := {
  durationMs := 500
  seed := 3
  actions := ["left", "right"]
  probes := [{ name := "x", expression := "position.x" }] }

/-- A probe of one frame, which could not be read. -/
def unread : ExplorationSample := { readings := [{ readError := "expression failed" }] }

end Didi.Exploration
