import Didi.Engine.Life

/-!
# What the answer of a command says of its body

* `Barred` : the body has not run and will not; `Silent` : it was parked, and no frame of it has done anything or
  will; `Told` : what each answer says of the body;
* `Sound` : every answer that is given or under way says the truth;
* `Step.sound`, `Step.told` : every atomic operation keeps it, and what an answer said stays true.
-/

namespace Didi.Engine
namespace Command

/-- The body has not run, and no party can start it. -/
def Barred (c : Command) : Prop := c.starts = 0 ∧ (c.control.state ≠ .pending ∨ c.place = .gone)

/-- The body started, and no frame that it waits for has done anything or can. -/
structure Silent (c : Command) : Prop where
  starts : c.starts = 1
  works : c.works = 0
  slot : c.slot = none
  body : c.body ≠ .plain

/-- What an answer says of the body. -/
def Told (c : Command) : Answer → Prop
  | .bridgeNotReady | .sessionRejected | .commandCancelled | .notStarted | .sessionEnded => c.Barred
  | .notSampled => c.Silent
  | .interrupted | .result => c.starts = 1
  | .unknownOutcome => True

/-- An answer that is given, or under way. -/
def Gives (c : Command) (answer : Answer) : Prop :=
  c.promise = some answer ∨ (∃ f ∈ c.fulfils, f.stage.answer = some answer) ∨
    (c.requester = .claimingNotStarted ∨ c.requester = .settingNotStarted) ∧ answer = .notStarted

structure Sound (c : Command) : Prop where
  untaken : c.place ≠ .gone → c.Untaken
  once : c.starts ≤ 1
  pending : c.starts ≠ 0 → c.control.state ≠ .pending
  body : c.body ≠ .none → c.starts ≠ 0
  slot : c.slot ≠ none → c.starts ≠ 0
  plain : c.body = .plain → c.slot = none ∧ c.works = 0
  unsampled : ∀ slot, c.slot = some slot → slot.sampled = false → c.works = 0
  told : ∀ answer, c.Gives answer → c.Told answer

/-- The body is left as it is, or ended, and so is the slot. -/
structure Frame (c c' : Command) : Prop where
  starts : c'.starts = c.starts
  works : c'.works = c.works
  body : c'.body = c.body ∨ c'.body = .none
  slot : c'.slot = c.slot ∨ c'.slot = none
  state : c.control.state ≠ .pending → c'.control.state ≠ .pending
  place : c.place = .gone → c'.place = .gone

theorem Frame.refl (c : Command) : Frame c c := ⟨rfl, rfl, .inl rfl, .inl rfl, id, id⟩

section Frame
variable {c c' : Command}

theorem Frame.told (h : Frame c c') {answer : Answer} (ht : c.Told answer) : c'.Told answer := by
  have hbarred : c.Barred → c'.Barred := fun hb => ⟨h.starts.trans hb.1, hb.2.imp h.state h.place⟩
  have hstarts : c.starts = 1 → c'.starts = 1 := fun hs => h.starts.trans hs
  have hsilent : c.Silent → c'.Silent := fun hs => by
    refine ⟨hstarts hs.starts, h.works.trans hs.works, ?_, fun hp => ?_⟩
    · rcases h.slot with heq | hnone
      · rw [heq, hs.slot]
      · exact hnone
    · rcases h.body with heq | hnone
      · exact hs.body (heq.symm.trans hp)
      · rw [hnone] at hp
        cases hp
  cases answer with
  | bridgeNotReady => exact hbarred ht
  | sessionRejected => exact hbarred ht
  | commandCancelled => exact hbarred ht
  | notStarted => exact hbarred ht
  | sessionEnded => exact hbarred ht
  | notSampled => exact hsilent ht
  | interrupted => exact hstarts ht
  | result => exact hstarts ht
  | unknownOutcome => trivial

/-- Only the answers that are new are to be checked. -/
theorem Frame.sound (h : Frame c c') (hs : c.Sound) (huntaken : c'.place ≠ .gone → c'.Untaken)
    (hnew : ∀ answer, c'.Gives answer → c.Gives answer ∨ c'.Told answer) : c'.Sound where
  untaken := huntaken
  once := by
    rw [h.starts]
    exact hs.once
  pending hne := h.state (hs.pending (h.starts ▸ hne))
  body hne := by
    rw [h.starts]
    exact hs.body (h.body.elim (fun heq => heq ▸ hne) fun hnone => absurd hnone hne)
  slot hne := by
    rw [h.starts]
    exact hs.slot (h.slot.elim (fun heq => heq ▸ hne) fun hnone => absurd hnone hne)
  plain hp := by
    have hplain : c.body = .plain := by
      rcases h.body with heq | hnone
      · exact heq.symm.trans hp
      · rw [hnone] at hp
        cases hp
    obtain ⟨hslot, hworks⟩ := hs.plain hplain
    refine ⟨h.slot.elim (fun heq => heq.trans hslot) id, h.works.trans hworks⟩
  unsampled slot hslot hsampled := by
    rw [h.works]
    rcases h.slot with heq | hnone
    · exact hs.unsampled slot (heq.symm.trans hslot) hsampled
    · rw [hnone] at hslot
      cases hslot
  told answer hg := (hnew answer hg).elim (fun hold => h.told (hs.told answer hold)) id

end Frame

theorem gives_push {c : Command} {f : Fulfil} {answer : Answer} (h : (c.push f).Gives answer) :
    c.Gives answer ∨ f.stage.answer = some answer := by
  rcases h with hp | ⟨g, hg, ha⟩ | hr
  · exact .inl (.inl hp)
  · rcases List.mem_append.mp hg with hg | hg
    · exact .inl (.inr (.inl ⟨g, hg, ha⟩))
    · rw [List.mem_singleton.mp hg] at ha
      exact .inr ha
  · exact .inl (.inr (.inr hr))

/-- The same answers are given after a step that leaves the promise, the answers under way and the requester. -/
theorem gives_congr {c c' : Command} {answer : Answer} (hpromise : c'.promise = c.promise)
    (hfulfils : c'.fulfils = c.fulfils) (hrequester : c'.requester = c.requester) (h : c'.Gives answer) :
    c.Gives answer := by
  unfold Gives at h ⊢
  rwa [hpromise, hfulfils, hrequester] at h

section Step
variable {c : Command}

theorem tryCancelPending_state {control : CommandControl} (h : control.state ≠ .pending) :
    control.tryCancelPending.2.state ≠ .pending := by
  rw [CommandControl.tryCancelPending, if_neg h]
  exact h

theorem tryCancelRunning_state {control : CommandControl} (h : control.state ≠ .pending) :
    control.tryCancelRunning.2.state ≠ .pending := by
  unfold CommandControl.tryCancelRunning
  split
  · simp
  · exact h

theorem claim_frame (party : Party) : Frame c (c.claim party).2 := by
  cases hc : c.control.responseClaimed with
  | true => rw [claim_of_claimed _ hc]; exact .refl c
  | false => rw [claim_of_unclaimed _ hc]; exact ⟨rfl, rfl, .inl rfl, .inl rfl, id, id⟩

theorem fulfil_frame (i : Nat) : Frame c (c.fulfil i) := by
  unfold Command.fulfil
  split
  · exact .refl c
  · rename_i f hf
    cases f.stage with
    | cancelling answer => exact ⟨rfl, rfl, .inl rfl, .inl rfl, tryCancelRunning_state, id⟩
    | marking answer => exact ⟨rfl, rfl, .inl rfl, .inl rfl, fun _ => by simp [CommandControl.markCompleted], id⟩
    | claiming answer =>
      have hclaim := claim_frame (c := c) f.party
      exact ⟨hclaim.starts, hclaim.works, hclaim.body, hclaim.slot, hclaim.state, hclaim.place⟩
    | setting answer => exact ⟨rfl, rfl, .inl rfl, .inl rfl, id, id⟩

/-- An answer under way that moves on is the same answer. -/
theorem gives_fulfil {i : Nat} {answer : Answer} (h : (c.fulfil i).Gives answer) : c.Gives answer := by
  unfold Command.fulfil at h
  split at h
  · exact h
  · rename_i f hf
    have hrest : ∀ g ∈ c.fulfils.eraseIdx i, g.stage.answer = some answer → c.Gives answer := fun g hg ha =>
      .inr (.inl ⟨g, (mem_fulfils hf).mpr (.inr hg), ha⟩)
    have hself : f.stage.answer = some answer → c.Gives answer := fun ha =>
      .inr (.inl ⟨f, (mem_fulfils hf).mpr (.inl rfl), ha⟩)
    cases hstage : f.stage with
    | cancelling a =>
      simp only [hstage] at h
      rcases h with hp | ⟨g, hg, ha⟩ | hr
      · exact .inl hp
      · simp only at hg
        split at hg
        · rcases List.mem_append.mp hg with hg | hg
          · exact hrest g hg ha
          · rw [List.mem_singleton.mp hg] at ha
            exact hself (by rw [hstage]; exact ha)
        · exact hrest g hg ha
      · exact .inr (.inr hr)
    | marking a =>
      simp only [hstage] at h
      rcases h with hp | ⟨g, hg, ha⟩ | hr
      · exact .inl hp
      · rcases List.mem_append.mp hg with hg | hg
        · exact hrest g hg ha
        · cases a with
          | none => cases hg
          | some a =>
            rw [List.mem_singleton.mp hg] at ha
            exact hself (by rw [hstage]; exact ha)
      · exact .inr (.inr hr)
    | claiming a =>
      simp only [hstage] at h
      cases hc : c.control.responseClaimed with
      | true =>
        rw [claim_of_claimed _ hc] at h
        rcases h with hp | ⟨g, hg, ha⟩ | hr
        · exact .inl hp
        · exact hrest g hg ha
        · exact .inr (.inr hr)
      | false =>
        rw [claim_of_unclaimed _ hc] at h
        rcases h with hp | ⟨g, hg, ha⟩ | hr
        · exact .inl hp
        · rcases List.mem_append.mp hg with hg | hg
          · exact hrest g hg ha
          · rw [List.mem_singleton.mp hg] at ha
            exact hself (by rw [hstage]; exact ha)
        · exact .inr (.inr hr)
    | setting a =>
      simp only [hstage] at h
      rcases h with hp | ⟨g, hg, ha⟩ | hr
      · simp only [setPromise, Option.or_eq_some_iff] at hp
        rcases hp with hp | ⟨-, hp⟩
        · exact .inl hp
        · exact hself (by rw [hstage]; exact hp)
      · exact hrest g hg ha
      · exact .inr (.inr hr)

theorem Sound.starts_of_slot (hs : c.Sound) {slot : Slot} (hslot : c.slot = some slot) : c.starts = 1 := by
  have hne := hs.slot (by simp [hslot])
  have hle := hs.once
  omega

/-- What ends a slot says what its frames have done. -/
theorem told_slotAnswer (hs : c.Sound) {slot : Slot} (hslot : c.slot = some slot) {failed : Bool} {base answer : Answer}
    (hbase : base = .result ∨ base = .interrupted) (ha : slotAnswer slot failed base = some answer) {f : Fulfil} :
    ({ c with slot := none }.push f).Told answer := by
  have hstarts := hs.starts_of_slot hslot
  unfold slotAnswer at ha
  split at ha
  · cases ha
  · split at ha
    · rename_i hprofiler
      cases ha
      refine ⟨hstarts, hs.unsampled slot hslot hprofiler.2.1, rfl, fun hp => ?_⟩
      rw [(hs.plain hp).1] at hslot
      cases hslot
    · cases ha
      rcases hbase with rfl | rfl <;> exact hstarts

theorem dropSlot_frame : Frame c { c with slot := none } := ⟨rfl, rfl, .inl rfl, .inr rfl, id, id⟩

/-- A slot is taken, and its answer is under way. -/
theorem Sound.takeSlot (hs : c.Sound) {slot : Slot} (hslot : c.slot = some slot) {f : Fulfil}
    (hnew : ∀ answer, f.stage.answer = some answer → ({ c with slot := none }.push f).Told answer) :
    ({ c with slot := none }.push f).Sound := by
  have hframe : Frame c ({ c with slot := none }.push f) := ⟨rfl, rfl, .inl rfl, .inr rfl, id, id⟩
  refine hframe.sound hs (fun hp => ?_) fun answer hg => ?_
  · rw [(hs.untaken hp).slot] at hslot
    cases hslot
  · rcases gives_push hg with hold | hnow
    · exact .inl (gives_congr rfl rfl rfl hold)
    · exact .inr (hnew answer hnow)

theorem Sound.dropSlot (hs : c.Sound) {slot : Slot} (hslot : c.slot = some slot) : Sound { c with slot := none } := by
  refine dropSlot_frame.sound hs (fun hp => ?_) fun answer hg => .inl (gives_congr rfl rfl rfl hg)
  rw [(hs.untaken hp).slot] at hslot
  cases hslot

theorem Sound.finish (hs : c.Sound) (failed : Bool) : (c.finish failed).Sound := by
  unfold Command.finish
  split
  · rename_i slot hslot
    split
    · exact hs.dropSlot hslot
    · exact hs.takeSlot hslot fun answer ha => told_slotAnswer hs hslot (.inl rfl) ha
  · exact hs

theorem Sound.endSlot (hs : c.Sound) : c.endSlot.Sound := by
  unfold Command.endSlot
  split
  · exact hs
  · rename_i slot hslot
    have hinterrupted : ∀ answer, some ((slotAnswer slot true .interrupted).getD .interrupted) = some answer →
        ∀ f, ({ c with slot := none }.push f).Told answer := fun answer ha f => by
      cases hgiven : slotAnswer slot true .interrupted with
      | some given =>
        rw [hgiven] at ha
        exact told_slotAnswer hs hslot (.inr rfl) (hgiven.trans ha)
      | none =>
        rw [hgiven] at ha
        cases ha
        exact hs.starts_of_slot hslot
    split
    · exact hs
    · exact hs
    · exact hs.takeSlot hslot fun answer ha => told_slotAnswer hs hslot (.inl rfl) ha
    · exact hs.takeSlot hslot fun answer ha => told_slotAnswer hs hslot (.inl rfl) ha
    · split
      · exact hs.dropSlot hslot
      · refine hs.takeSlot hslot fun answer ha => ?_
        cases ha
        exact hs.starts_of_slot hslot
    · exact hs.takeSlot hslot fun answer ha => hinterrupted answer ha _

/-- A step of the requester, which takes nothing and starts nothing. -/
theorem Sound.setRequester (hs : c.Sound) {c' : Command} (hframe : Frame c c') (hplace : c'.place = c.place)
    (hbody : c'.body = c.body) (hslot : c'.slot = c.slot) (hfulfils : c'.fulfils = c.fulfils)
    (hnew : ∀ answer, c'.Gives answer → c.Gives answer ∨ c'.Told answer) : c'.Sound := by
  refine hframe.sound hs (fun hp => ?_) hnew
  have h := hs.untaken (hplace ▸ hp)
  exact ⟨hframe.starts.trans h.starts, hframe.works.trans h.works, hbody.trans h.body, hslot.trans h.slot,
    hfulfils.trans h.fulfils⟩

/-- A requester that does not answer by itself gives what was given. -/
theorem gives_setRequester {c' : Command} {answer : Answer} (h : c'.Gives answer) (hpromise : c'.promise = c.promise)
    (hfulfils : c'.fulfils = c.fulfils)
    (hrequester : ¬ (c'.requester = .claimingNotStarted ∨ c'.requester = .settingNotStarted)) : c.Gives answer := by
  rcases h with hp | hf | hr
  · exact .inl (hpromise ▸ hp)
  · exact .inr (.inl (hfulfils ▸ hf))
  · exact absurd hr.1 hrequester

/-- The requester goes on without an answer of its own. -/
theorem Sound.turn (hs : c.Sound) {requester : Requester}
    (hrequester : ¬ (requester = .claimingNotStarted ∨ requester = .settingNotStarted)) :
    Sound { c with requester } :=
  hs.setRequester ⟨rfl, rfl, .inl rfl, .inl rfl, id, id⟩ rfl rfl rfl rfl fun _ hg =>
    .inl (gives_setRequester hg rfl rfl hrequester)

theorem Sound.await (hs : c.Sound) : c.await.Sound := by
  unfold Command.await
  cases hr : c.requester with
  | idle => exact hs
  | answered answer => exact hs
  | waiting | lastWait | getting =>
    simp only
    split
    · exact hs.turn (by simp)
    · exact hs
  | timedOut =>
    refine hs.setRequester ⟨rfl, rfl, .inl rfl, .inl rfl, tryCancelPending_state, id⟩ rfl rfl rfl rfl fun answer hg => ?_
    by_cases hp : c.control.state = .pending
    · rcases hg with hold | hold | ⟨-, rfl⟩
      · exact .inl (.inl hold)
      · exact .inl (.inr (.inl hold))
      · refine .inr ⟨?_, .inl ?_⟩
        · by_contra hne
          exact hs.pending hne hp
        · simp [CommandControl.tryCancelPending, hp]
    · exact .inl (gives_setRequester hg rfl rfl (by simp [CommandControl.tryCancelPending, hp]))
  | cancellingRunning =>
    exact hs.setRequester ⟨rfl, rfl, .inl rfl, .inl rfl, tryCancelRunning_state, id⟩ rfl rfl rfl rfl fun answer hg =>
      .inl (gives_setRequester hg rfl rfl (by simp))
  | claimingNotStarted =>
    have hclaim := claim_frame (c := c) .requester
    refine hs.setRequester ⟨hclaim.starts, hclaim.works, hclaim.body, hclaim.slot, hclaim.state, hclaim.place⟩
      rfl rfl rfl rfl fun answer hg => .inl ?_
    rcases hg with hold | hold | ⟨-, rfl⟩
    · exact .inl hold
    · exact .inr (.inl hold)
    · exact .inr (.inr ⟨.inl hr, rfl⟩)
  | claimingUnknown =>
    have hclaim := claim_frame (c := c) .requester
    refine hs.setRequester ⟨hclaim.starts, hclaim.works, hclaim.body, hclaim.slot, hclaim.state, hclaim.place⟩
      rfl rfl rfl rfl fun answer hg => .inl (gives_setRequester hg rfl rfl ?_)
    simp only
    split <;> simp
  | settingNotStarted =>
    refine hs.setRequester ⟨rfl, rfl, .inl rfl, .inl rfl, id, id⟩ rfl rfl rfl rfl fun answer hg => .inl ?_
    rcases hg with hp | hold | ⟨hnow, -⟩
    · simp only [setPromise, Option.or_eq_some_iff] at hp
      rcases hp with hp | ⟨-, hp⟩
      · exact .inl hp
      · cases hp
        exact .inr (.inr ⟨.inr hr, rfl⟩)
    · exact .inr (.inl hold)
    · simp at hnow
  | settingUnknown =>
    refine hs.setRequester ⟨rfl, rfl, .inl rfl, .inl rfl, id, id⟩ rfl rfl rfl rfl fun answer hg => ?_
    rcases hg with hp | hold | ⟨hnow, -⟩
    · simp only [setPromise, Option.or_eq_some_iff] at hp
      rcases hp with hp | ⟨-, hp⟩
      · exact .inl (.inl hp)
      · cases hp
        exact .inr trivial
    · exact .inl (.inr (.inl hold))
    · simp at hnow

/-! ### The main thread and shutdown -/

theorem sound_initial : ({} : Command).Sound where
  untaken _ := ⟨rfl, rfl, rfl, rfl, rfl⟩
  once := Nat.zero_le 1
  pending h := absurd rfl h
  body h := absurd rfl h
  slot h := absurd rfl h
  plain h := by cases h
  unsampled _ h := by cases h
  told answer h := by simp [Gives] at h

theorem sound_accept (method : String) : (accept method).Sound where
  untaken _ := ⟨rfl, rfl, rfl, rfl, rfl⟩
  once := Nat.zero_le 1
  pending h := absurd rfl h
  body h := absurd rfl h
  slot h := absurd rfl h
  plain h := by cases h
  unsampled _ h := by cases h
  told answer h := by simp [Gives, accept] at h

theorem sound_refuse (method : String) : (refuse method).Sound where
  untaken h := absurd rfl h
  once := Nat.zero_le 1
  pending h := absurd rfl h
  body h := absurd rfl h
  slot h := absurd rfl h
  plain h := by cases h
  unsampled _ h := by cases h
  told answer h := by
    simp [Gives, refuse] at h
    cases h
    exact ⟨rfl, .inl (by simp [refuse])⟩

/-- From one list of commands into another. -/
theorem Sound.setPlace (hs : c.Sound) (hc : c.place ≠ .gone) (place : Place) : Sound { c with place } := by
  have h := hs.untaken hc
  have hframe : Frame c { c with place } := ⟨rfl, rfl, .inl rfl, .inl rfl, id, fun hg => absurd hg hc⟩
  exact hframe.sound hs (fun _ => ⟨h.starts, h.works, h.body, h.slot, h.fulfils⟩) fun answer hg =>
    .inl (gives_congr rfl rfl rfl hg)

/-- The command is answered without a start. -/
theorem Sound.endUntaken (hs : c.Sound) (hc : c.place ≠ .gone) {control : CommandControl} {f : Fulfil}
    (hstate : c.control.state ≠ .pending → control.state ≠ .pending) {answer : Answer}
    (ha : f.stage.answer = some answer) (hbefore : answer.beforeExecution) :
    Sound ({ c with place := .gone, control }.push f) := by
  have h := hs.untaken hc
  have hframe : Frame c ({ c with place := .gone, control }.push f) :=
    ⟨rfl, rfl, .inl rfl, .inl rfl, hstate, fun _ => rfl⟩
  refine hframe.sound hs (fun hp => absurd rfl hp) fun given hg => ?_
  refine (gives_push hg).imp (fun hold => gives_congr rfl rfl rfl hold) fun hnow => ?_
  rw [ha] at hnow
  cases hnow
  have hbarred : ({ c with place := .gone, control }.push f).Barred := ⟨h.starts, .inr rfl⟩
  cases answer with
  | bridgeNotReady => exact hbarred
  | sessionRejected => exact hbarred
  | commandCancelled => exact hbarred
  | notStarted => exact hbarred
  | sessionEnded => exact hbarred
  | _ => cases hbefore

/-- No answer but `unknown_outcome` is told of a command that may start. -/
theorem told_of_pending (hs : c.Sound) (hc : c.place ≠ .gone) (hp : c.control.state = .pending) {answer : Answer}
    (ht : c.Told answer) : answer = .unknownOutcome := by
  have hbarred : ¬ c.Barred := fun hb => hb.2.elim (fun hne => hne hp) hc
  have hstarts : c.starts ≠ 1 := by simp [(hs.untaken hc).starts]
  cases answer with
  | bridgeNotReady => exact absurd ht hbarred
  | sessionRejected => exact absurd ht hbarred
  | commandCancelled => exact absurd ht hbarred
  | notStarted => exact absurd ht hbarred
  | sessionEnded => exact absurd ht hbarred
  | notSampled => exact absurd ht.starts hstarts
  | interrupted => exact absurd ht hstarts
  | result => exact absurd ht hstarts
  | unknownOutcome => rfl

theorem told_start (hs : c.Sound) (hc : c.place = .taken false) {answer : Answer} (ht : c.Told answer) :
    c.start.Told answer := by
  simp only [Command.start, CommandControl.tryStart]
  split
  · rename_i hp
    rw [told_of_pending hs (by simp [hc]) hp ht]
    trivial
  · have hframe : Frame c ({ c with place := .gone }.push ⟨.main, .claiming .commandCancelled⟩) :=
      ⟨rfl, rfl, .inl rfl, .inl rfl, id, fun _ => rfl⟩
    exact hframe.told ht

theorem Sound.start (hs : c.Sound) (hc : c.place = .taken false) : c.start.Sound := by
  have hgone : c.place ≠ .gone := by simp [hc]
  have h := hs.untaken hgone
  simp only [Command.start, CommandControl.tryStart]
  split
  · rename_i hp
    exact {
      untaken := fun hne => absurd rfl hne
      once := by simp [h.starts]
      pending := fun _ => by simp
      body := fun _ => Nat.succ_ne_zero _
      slot := fun _ => Nat.succ_ne_zero _
      plain := fun _ => ⟨h.slot, h.works⟩
      unsampled := fun slot hslot => by
        simp only [h.slot] at hslot
        cases hslot
      told := fun answer hg => by
        rw [told_of_pending hs hgone hp (hs.told answer (gives_congr rfl rfl rfl hg))]
        trivial }
  · exact hs.endUntaken hgone id rfl rfl

theorem complete_frame (unpark : Bool) : Frame c (c.complete unpark) := by
  refine ⟨rfl, rfl, .inr rfl, ?_, id, id⟩
  cases unpark with
  | true => exact .inr rfl
  | false => exact .inl rfl

theorem Sound.complete (hs : c.Sound) (hc : c.body ≠ .none) (unpark : Bool) : (c.complete unpark).Sound := by
  refine (complete_frame unpark).sound hs (fun hp => absurd (hs.untaken hp).body hc) fun answer hg => ?_
  refine (gives_push hg).imp (fun hold => gives_congr rfl rfl rfl hold) fun hnow => ?_
  cases hnow
  have hne := hs.body hc
  have hle := hs.once
  change c.starts = 1
  omega

/-- Only a command whose body has not come to a slot can be parked, and no answer rests on that. -/
theorem told_park (kind : SlotKind) (detached : Bool) {answer : Answer} (ht : c.Told answer) :
    (c.park kind detached).Told answer := by
  unfold Command.park
  split
  · rename_i hbody
    cases answer with
    | notSampled => exact absurd hbody ht.body
    | _ => exact ht
  · exact ht

theorem Sound.park (hs : c.Sound) (kind : SlotKind) (detached : Bool) : (c.park kind detached).Sound := by
  have htold := fun answer => @told_park c kind detached answer
  unfold Command.park at htold ⊢
  split
  · rename_i hbody
    have hstarts := hs.body (by simp [hbody])
    simp only [hbody] at htold
    exact {
      untaken := fun hne => absurd (hs.untaken hne).body (by simp [hbody])
      once := hs.once
      pending := hs.pending
      body := fun _ => hstarts
      slot := fun _ => hstarts
      plain := fun hp => by cases hp
      unsampled := fun _ _ _ => (hs.plain hbody).2
      told := fun answer hg => htold answer (hs.told answer (gives_congr rfl rfl rfl hg)) }
  · exact hs

theorem told_work {answer : Answer} (ht : c.Told answer) : c.work.Told answer := by
  unfold Command.work
  split
  · rename_i slot hslot
    cases answer with
    | notSampled =>
      have hnone := ht.slot
      rw [hslot] at hnone
      cases hnone
    | _ => exact ht
  · exact ht

theorem Sound.work (hs : c.Sound) : c.work.Sound := by
  have htold := fun answer => @told_work c answer
  unfold Command.work at htold ⊢
  split
  · rename_i slot hslot
    have hstarts := hs.slot (by simp [hslot])
    simp only [hslot] at htold
    exact {
      untaken := fun hne => absurd (hs.untaken hne).slot (by simp [hslot])
      once := hs.once
      pending := hs.pending
      body := hs.body
      slot := fun _ => hstarts
      plain := fun hp => by
        have hnone := (hs.plain hp).1
        rw [hslot] at hnone
        cases hnone
      unsampled := fun slot' hs' hsampled => by
        cases hs'
        cases hsampled
      told := fun answer hg => htold answer (hs.told answer (gives_congr rfl rfl rfl hg)) }
  · exact hs

theorem leave_frame : Frame c c.leave := by
  unfold Command.leave
  split
  · exact ⟨rfl, rfl, .inr rfl, .inl rfl, id, id⟩
  · exact .refl c

theorem finish_frame (failed : Bool) : Frame c (c.finish failed) := by
  unfold Command.finish
  split
  · split <;> exact ⟨rfl, rfl, .inl rfl, .inr rfl, id, id⟩
  · exact .refl c

theorem endQueued_frame : Frame c c.endQueued := by
  simp only [Command.endQueued]
  split <;> exact ⟨rfl, rfl, .inl rfl, .inl rfl, tryCancelPending_state, fun _ => rfl⟩

theorem endSlot_frame : Frame c c.endSlot := by
  have hdrop : ∀ f, Frame c ({ c with slot := none }.push f) := fun f =>
    ⟨rfl, rfl, .inl rfl, .inr rfl, id, id⟩
  unfold Command.endSlot
  split
  · exact .refl c
  · split
    · exact .refl c
    · exact .refl c
    · exact hdrop _
    · exact hdrop _
    · split
      · exact dropSlot_frame
      · exact hdrop _
    · exact hdrop _

theorem deadline_frame : Frame c c.deadline := by
  unfold Command.deadline
  split <;> exact ⟨rfl, rfl, .inl rfl, .inl rfl, id, id⟩

theorem giveUp_frame : Frame c c.giveUp := by
  unfold Command.giveUp
  split <;> exact ⟨rfl, rfl, .inl rfl, .inl rfl, id, id⟩

theorem await_frame : Frame c c.await := by
  have hclaim := claim_frame (c := c) .requester
  have hclaimed : ∀ requester, Frame c { (c.claim .requester).2 with requester } := fun requester =>
    ⟨hclaim.starts, hclaim.works, hclaim.body, hclaim.slot, hclaim.state, hclaim.place⟩
  unfold Command.await
  cases c.requester with
  | idle => exact .refl c
  | answered answer => exact .refl c
  | waiting | lastWait | getting =>
    simp only
    split
    · exact ⟨rfl, rfl, .inl rfl, .inl rfl, id, id⟩
    · exact .refl c
  | timedOut => exact ⟨rfl, rfl, .inl rfl, .inl rfl, tryCancelPending_state, id⟩
  | cancellingRunning => exact ⟨rfl, rfl, .inl rfl, .inl rfl, tryCancelRunning_state, id⟩
  | claimingNotStarted => exact hclaimed _
  | claimingUnknown => exact hclaimed _
  | settingNotStarted => exact ⟨rfl, rfl, .inl rfl, .inl rfl, id, id⟩
  | settingUnknown => exact ⟨rfl, rfl, .inl rfl, .inl rfl, id, id⟩

/-- What was said of the command stays true of it. -/
theorem Step.told {c' : Command} (hstep : Step c c') (hs : c.Sound) {answer : Answer} (ht : c.Told answer) :
    c'.Told answer := by
  have hplace : ∀ place, c.place ≠ .gone → Frame c { c with place } := fun place hc =>
    ⟨rfl, rfl, .inl rfl, .inl rfl, id, fun hg => absurd hg hc⟩
  cases hstep with
  | accept method =>
    rw [told_of_pending sound_initial (by simp) rfl ht]
    trivial
  | refuse method =>
    rw [told_of_pending sound_initial (by simp) rfl ht]
    trivial
  | take rejected h => exact (hplace _ (by simp [h])).told ht
  | reject h =>
    have hframe : Frame c c.reject := ⟨rfl, rfl, .inl rfl, .inl rfl, id, fun _ => rfl⟩
    exact hframe.told ht
  | start h => exact told_start hs h ht
  | complete unpark _ => exact (complete_frame unpark).told ht
  | park _ kind detached => exact told_park kind detached ht
  | leave _ => exact leave_frame.told ht
  | work _ => exact told_work ht
  | finish _ failed => exact (finish_frame failed).told ht
  | fulfil _ i => exact (fulfil_frame i).told ht
  | toEnding h => exact (hplace _ (by simp [h])).told ht
  | endQueued _ => exact endQueued_frame.told ht
  | endSlot _ => exact endSlot_frame.told ht
  | deadline _ => exact deadline_frame.told ht
  | giveUp _ => exact giveUp_frame.told ht
  | await _ => exact await_frame.told ht

theorem Step.sound {c' : Command} (hstep : Step c c') (hs : c.Sound) : c'.Sound := by
  cases hstep with
  | accept method => exact sound_accept method
  | refuse method => exact sound_refuse method
  | take rejected h => exact hs.setPlace (by simp [h]) _
  | reject h => exact hs.endUntaken (by simp [h]) id rfl rfl
  | start h => exact hs.start h
  | complete unpark h => exact hs.complete h unpark
  | park _ kind detached => exact hs.park kind detached
  | leave _ =>
    have hframe := @leave_frame c
    unfold Command.leave at hframe ⊢
    split at hframe
    · rename_i hbody
      refine hframe.sound hs (fun hp => ?_) fun answer hg => .inl (gives_congr rfl rfl rfl hg)
      exact absurd (hs.untaken hp).body (by simp [hbody])
    · exact hs
  | work _ => exact hs.work
  | finish _ failed => exact hs.finish failed
  | fulfil _ i =>
    refine (fulfil_frame i).sound hs (fun hp => ?_) fun answer hg => .inl (gives_fulfil hg)
    have hplace : c.place ≠ .gone := fun hg => hp ((fulfil_frame i).place hg)
    have h := hs.untaken hplace
    have hnone : c.fulfils[i]? = none := by simp [h.fulfils]
    have hsame : c.fulfil i = c := by simp only [Command.fulfil, hnone]
    rw [hsame]
    exact h
  | toEnding h => exact hs.setPlace (by simp [h]) _
  | endQueued h =>
    have hgone : c.place ≠ .gone := by simp [h]
    simp only [Command.endQueued]
    split
    · exact hs.endUntaken hgone tryCancelPending_state rfl rfl
    · have hframe : Frame c { c with place := .gone, control := c.control.tryCancelPending.2 } :=
        ⟨rfl, rfl, .inl rfl, .inl rfl, tryCancelPending_state, fun _ => rfl⟩
      exact hframe.sound hs (fun hp => absurd rfl hp) fun answer hg => .inl (gives_congr rfl rfl rfl hg)
  | endSlot _ => exact hs.endSlot
  | deadline _ =>
    unfold Command.deadline
    split
    · exact hs.turn (by simp)
    · exact hs
  | giveUp _ =>
    unfold Command.giveUp
    split
    · exact hs.turn (by simp)
    · exact hs
  | await _ => exact hs.await

end Step

end Command
end Didi.Engine
