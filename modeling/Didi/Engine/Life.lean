import Mathlib.Data.List.Perm.Basic
import Mathlib.Tactic.SplitIfs
import Didi.Engine.Command

/-!
# What the life of a command keeps

* `Counted` : the response is claimed at most once, by one party, and the promise is set once for it;
* `Kept` : a command that is not claimed is in the hands of a party that will claim it;
* `Step.counted`, `Step.kept` : every atomic operation keeps both.
-/

namespace Didi.Engine
variable {c c' : Command} {f : Fulfil}

/-- The promise is about to be set. -/
def Requester.isSetting : Requester → Bool
  | .settingNotStarted | .settingUnknown => true
  | _ => false

/-- The answer will be claimed, if it is not by then. -/
def Stage.willClaim : Stage → Bool
  | .marking answer => answer.isSome
  | .claiming _ | .setting _ => true
  | .cancelling _ => false

/-- The wait is past its claim. -/
def Requester.isPastClaim : Requester → Bool
  | .settingNotStarted | .settingUnknown | .lastWait | .getting | .answered _ => true
  | _ => false

/-- The requester is about to claim. -/
def Requester.isClaiming : Requester → Bool
  | .claimingNotStarted | .claimingUnknown => true
  | _ => false

namespace Command

/-- How many calls are between the claim and the promise. -/
def settings (c : Command) : Nat := c.fulfils.countP (·.stage.isSetting) + c.requester.isSetting.toNat

structure Counted (c : Command) : Prop where
  claims : c.claims.length = c.control.responseClaimed.toNat
  sets : c.settings + c.sets = c.claims.length
  promise : c.promise = none ↔ c.sets = 0
  past : c.requester.isPastClaim → c.control.responseClaimed
  answered : ∀ answer, c.requester = .answered answer → c.promise = some answer ∨ answer = .unknownOutcome

theorem Counted.claimed_of_sets (h : c.Counted) (hs : 0 < c.settings + c.sets) :
    c.control.responseClaimed = true := by
  cases hc : c.control.responseClaimed with
  | true => rfl
  | false =>
    have hclaims := h.claims
    rw [hc] at hclaims
    have hsets := h.sets
    simp only [Bool.toNat_false] at hclaims
    omega

theorem Counted.sets_le_one (h : c.Counted) : c.sets ≤ 1 := by
  have hclaims := h.claims
  have hsets := h.sets
  have hle := Bool.toNat_le c.control.responseClaimed
  omega

/-- Nothing that is counted changes. -/
theorem Counted.congr (h : c.Counted) (hclaimed : c'.control.responseClaimed = c.control.responseClaimed)
    (hclaims : c'.claims = c.claims) (hsettings : c'.settings = c.settings) (hsets : c'.sets = c.sets)
    (hpromise : c'.promise = c.promise) (hrequester : c'.requester = c.requester) : c'.Counted where
  claims := by rw [hclaims, hclaimed, h.claims]
  sets := by rw [hsettings, hsets, hclaims, h.sets]
  promise := by rw [hpromise, hsets, h.promise]
  past := by
    rw [hrequester, hclaimed]
    exact h.past
  answered := by
    rw [hrequester, hpromise]
    exact h.answered

/-- The requester goes on, and neither claims nor sets. -/
theorem Counted.setRequester (h : c.Counted) {control : CommandControl} {requester : Requester}
    (hclaimed : control.responseClaimed = c.control.responseClaimed)
    (hsetting : requester.isSetting = c.requester.isSetting) (hpast : requester.isPastClaim → c.control.responseClaimed)
    (hanswered : ∀ answer, requester = .answered answer → c.promise = some answer ∨ answer = .unknownOutcome) :
    Counted { c with control, requester } where
  claims := by rw [hclaimed, h.claims]
  sets := by rw [← h.sets, settings, settings, hsetting]
  promise := h.promise
  past hp := hclaimed.trans (hpast hp)
  answered := hanswered

theorem tryStart_claimed (control : CommandControl) :
    control.tryStart.2.responseClaimed = control.responseClaimed := by
  unfold CommandControl.tryStart
  split <;> rfl

theorem tryCancelPending_claimed (control : CommandControl) :
    control.tryCancelPending.2.responseClaimed = control.responseClaimed := by
  unfold CommandControl.tryCancelPending
  split <;> rfl

theorem tryCancelRunning_claimed (control : CommandControl) :
    control.tryCancelRunning.2.responseClaimed = control.responseClaimed := by
  unfold CommandControl.tryCancelRunning
  split <;> rfl

theorem settings_push (hf : f.stage.isSetting = false) : (c.push f).settings = c.settings := by
  simp [settings, push, hf]

theorem Counted.push (h : c.Counted) (hf : f.stage.isSetting = false) : (c.push f).Counted :=
  h.congr rfl rfl (settings_push hf) rfl rfl rfl

/-- A claim that is won is one more answer to set. -/
theorem claim_of_unclaimed (party : Party) (hc : c.control.responseClaimed = false) :
    c.claim party = (true, { c with
      control := { c.control with responseClaimed := true }
      claims := c.claims ++ [party] }) := by
  simp [claim, CommandControl.tryClaimResponse, hc]

theorem claim_of_claimed (party : Party) (hc : c.control.responseClaimed = true) :
    c.claim party = (false, c) := by
  simp [claim, CommandControl.tryClaimResponse, hc]

theorem counted_of_won (h : c.Counted) (hc : c.control.responseClaimed = false) {party : Party}
    (hclaimed : c'.control.responseClaimed = true) (hclaims : c'.claims = c.claims ++ [party])
    (hsettings : c'.settings = c.settings + 1) (hsets : c'.sets = c.sets) (hpromise : c'.promise = c.promise)
    (hanswered : ∀ answer, c'.requester = .answered answer → c'.promise = some answer ∨ answer = .unknownOutcome) :
    c'.Counted where
  claims := by
    have hnone := h.claims
    rw [hc, Bool.toNat_false] at hnone
    rw [hclaims, List.length_append, hnone, hclaimed]
    rfl
  sets := by
    have hsum := h.sets
    rw [hsettings, hsets, hclaims, List.length_append, List.length_singleton]
    omega
  promise := by rw [hpromise, hsets, h.promise]
  past _ := hclaimed
  answered := hanswered

theorem counted_of_set (h : c.Counted) (hclaimed : c'.control = c.control) (hclaims : c'.claims = c.claims)
    (hsettings : c'.settings + 1 = c.settings) (hsets : c'.sets = c.sets + 1) (hpromise : c'.promise.isSome)
    (hanswered : ∀ answer, c'.requester = .answered answer → c'.promise = some answer ∨ answer = .unknownOutcome) :
    c'.Counted where
  claims := by rw [hclaims, hclaimed, h.claims]
  sets := by
    have hsum := h.sets
    rw [hsets, hclaims]
    omega
  promise := by
    rw [hsets]
    exact iff_of_false (Option.isSome_iff_ne_none.mp hpromise) (Nat.succ_ne_zero _)
  past _ := by
    rw [hclaimed]
    exact h.claimed_of_sets (by omega)
  answered := hanswered

/-- The fulfilments, with the one at `i` in front. -/
theorem fulfils_perm {i : Nat} (hf : c.fulfils[i]? = some f) :
    (f :: c.fulfils.eraseIdx i).Perm c.fulfils := by
  obtain ⟨hi, rfl⟩ := List.getElem?_eq_some_iff.mp hf
  exact List.getElem_cons_eraseIdx_perm hi

theorem settings_erase {i : Nat} (hf : c.fulfils[i]? = some f) :
    c.settings = (c.fulfils.eraseIdx i).countP (·.stage.isSetting) + f.stage.isSetting.toNat +
      c.requester.isSetting.toNat := by
  rw [settings, ← (fulfils_perm hf).countP_eq, List.countP_cons]
  cases f.stage.isSetting <;> rfl

theorem Counted.fulfil (h : c.Counted) (i : Nat) : (c.fulfil i).Counted := by
  unfold Command.fulfil
  split
  · exact h
  · rename_i f hf
    have hsettings := settings_erase hf
    cases hstage : f.stage with
    | cancelling answer =>
      rw [hstage] at hsettings
      refine h.congr (tryCancelRunning_claimed _) rfl ?_ rfl rfl rfl
      rw [hsettings]
      simp only
      split <;> simp [settings, Stage.isSetting]
    | marking answer =>
      rw [hstage] at hsettings
      refine h.congr rfl rfl ?_ rfl rfl rfl
      rw [hsettings]
      cases answer <;> simp [settings, Stage.isSetting]
    | claiming answer =>
      rw [hstage] at hsettings
      cases hc : c.control.responseClaimed with
      | true =>
        simp only [claim_of_claimed f.party hc]
        refine h.congr rfl rfl ?_ rfl rfl rfl
        rw [hsettings]
        simp [settings, Stage.isSetting]
      | false =>
        simp only [claim_of_unclaimed f.party hc]
        refine counted_of_won h hc rfl rfl ?_ rfl rfl h.answered
        rw [hsettings]
        simp [settings, Stage.isSetting, Nat.add_right_comm]
    | setting answer =>
      rw [hstage] at hsettings
      refine counted_of_set h rfl rfl ?_ rfl (by simp [setPromise]) fun a ha => ?_
      · rw [hsettings]
        simp [settings, setPromise, Stage.isSetting, Nat.add_right_comm]
      · refine (h.answered a ha).imp_left fun hp => ?_
        simp [setPromise, hp]

theorem Counted.await (h : c.Counted) : c.await.Counted := by
  have hclaim : ∀ won lost : Requester, won.isSetting = true → won.isPastClaim = true → lost.isSetting = false →
      c.requester.isSetting = false → (∀ answer, won ≠ .answered answer ∧ lost ≠ .answered answer) →
      Counted { (c.claim .requester).2 with requester := if (c.claim .requester).1 then won else lost } := by
    intro won lost hwon hpast hlost hnow hno
    cases hc : c.control.responseClaimed with
    | true =>
      rw [claim_of_claimed _ hc, if_neg Bool.false_ne_true]
      exact h.setRequester rfl (hlost.trans hnow.symm) (fun _ => hc) fun answer ha => absurd ha (hno answer).2
    | false =>
      rw [claim_of_unclaimed _ hc, if_pos rfl]
      exact counted_of_won h hc rfl rfl (by simp [settings, hwon, hnow]) rfl rfl
        fun answer ha => absurd ha (hno answer).1
  have hset : ∀ answer, c.requester.isSetting = true →
      Counted { c.setPromise answer with requester := .getting } := fun answer hnow =>
    have hget : Requester.getting.isSetting = false := rfl
    counted_of_set h rfl rfl (by simp [settings, setPromise, hnow, hget]) rfl (by simp [setPromise])
      fun _ ha => (by cases ha)
  have hanswered : ∀ answer, c.promise = some answer → c.requester.isSetting = false →
      Counted { c with requester := .answered answer } := by
    intro answer hp hnow
    have hsets : c.sets ≠ 0 := fun hs => by
      rw [h.promise.mpr hs] at hp
      cases hp
    exact h.setRequester rfl hnow.symm (fun _ => h.claimed_of_sets (by omega)) fun a ha => by
      cases ha
      exact .inl hp
  unfold Command.await
  cases hr : c.requester with
  | idle => exact h
  | answered answer => exact h
  | waiting | lastWait | getting =>
    cases hp : c.promise with
    | some answer =>
      have hget := hanswered answer hp (by rw [hr]; rfl)
      rwa [hp] at hget
    | none => exact h
  | timedOut =>
    simp only
    refine h.setRequester (tryCancelPending_claimed _) ?_ ?_ ?_ <;> split <;> simp [hr, Requester.isSetting,
      Requester.isPastClaim]
  | cancellingRunning =>
    exact h.setRequester (tryCancelRunning_claimed _) (by rw [hr]; rfl) (fun hp => by cases hp) fun _ ha => (by cases ha)
  | claimingNotStarted => exact hclaim _ _ rfl rfl rfl (by rw [hr]; rfl) fun _ => by simp
  | claimingUnknown => exact hclaim _ _ rfl rfl rfl (by rw [hr]; rfl) fun _ => by simp
  | settingNotStarted => exact hset _ (by rw [hr]; rfl)
  | settingUnknown => exact hset _ (by rw [hr]; rfl)

theorem counted_initial : ({} : Command).Counted := ⟨rfl, rfl, by simp, fun h => (by cases h), fun _ h => (by cases h)⟩

theorem Step.counted (hstep : Step c c') (h : c.Counted) : c'.Counted := by
  cases hstep with
  | accept method => exact ⟨rfl, rfl, by simp [Command.accept], fun h => (by cases h), fun _ h => (by cases h)⟩
  | refuse method => exact ⟨rfl, rfl, by simp [Command.refuse], fun _ => rfl, fun _ h => (by cases h)⟩
  | take rejected _ => exact h.congr rfl rfl rfl rfl rfl rfl
  | reject _ => exact (h.congr rfl rfl rfl rfl rfl rfl : Counted { c with place := .gone }).push rfl
  | start _ =>
    unfold Command.start
    simp only
    split
    · exact h.congr (tryStart_claimed _) rfl rfl rfl rfl rfl
    · exact (h.congr rfl rfl rfl rfl rfl rfl : Counted { c with place := .gone }).push rfl
  | complete unpark _ =>
    exact (h.congr rfl rfl rfl rfl rfl rfl :
      Counted { c with body := .none, slot := if unpark then none else c.slot }).push rfl
  | park _ kind detached =>
    unfold Command.park
    split
    · exact h.congr rfl rfl rfl rfl rfl rfl
    · exact h
  | leave _ =>
    unfold Command.leave
    split
    · exact h.congr rfl rfl rfl rfl rfl rfl
    · exact h
  | work _ =>
    unfold Command.work
    split
    · exact h.congr rfl rfl rfl rfl rfl rfl
    · exact h
  | finish _ failed =>
    have hslot : Counted { c with slot := none } := h.congr rfl rfl rfl rfl rfl rfl
    unfold Command.finish
    split
    · split
      · exact hslot
      · exact hslot.push rfl
    · exact h
  | fulfil _ i => exact h.fulfil i
  | toEnding _ => exact h.congr rfl rfl rfl rfl rfl rfl
  | endQueued _ =>
    have hgone : Counted { c with place := .gone, control := c.control.tryCancelPending.2 } :=
      h.congr (tryCancelPending_claimed _) rfl rfl rfl rfl rfl
    unfold Command.endQueued
    simp only
    split
    · exact hgone.push rfl
    · exact hgone
  | endSlot _ =>
    have hslot : Counted { c with slot := none } := h.congr rfl rfl rfl rfl rfl rfl
    unfold Command.endSlot
    split
    · exact h
    · split
      · exact h
      · exact h
      · exact hslot.push rfl
      · exact hslot.push rfl
      · split
        · exact hslot
        · exact hslot.push rfl
      · exact hslot.push rfl
  | deadline _ =>
    unfold Command.deadline
    split
    · rename_i hr
      exact h.setRequester rfl (by rw [hr.1]; rfl) (fun hp => by cases hp) fun _ ha => (by cases ha)
    · exact h
  | giveUp _ =>
    unfold Command.giveUp
    split
    · rename_i hr
      refine h.setRequester rfl (by rw [hr.1]; rfl) (fun _ => h.past (by rw [hr.1]; rfl)) fun answer ha => ?_
      cases ha
      exact .inr rfl
    · exact h
  | await _ => exact h.await

/-! ### A command is not lost -/

/-- No party has done anything for the command yet. -/
structure Untaken (c : Command) : Prop where
  starts : c.starts = 0
  works : c.works = 0
  body : c.body = .none
  slot : c.slot = none
  fulfils : c.fulfils = []

/-- The response is claimed, or an answer is under way that will claim it. -/
def Secured (c : Command) : Prop := c.control.responseClaimed ∨ ∃ f ∈ c.fulfils, f.stage.willClaim

theorem Secured.push (h : c.Secured) (f : Fulfil) : (c.push f).Secured :=
  h.imp_right fun ⟨g, hg, hwill⟩ => ⟨g, List.mem_append_left _ hg, hwill⟩

theorem secured_push (hf : f.stage.willClaim) : (c.push f).Secured :=
  .inr ⟨f, List.mem_append_right _ List.mem_cons_self, hf⟩

theorem Secured.congr (h : c.Secured) (hclaimed : c'.control.responseClaimed = c.control.responseClaimed)
    (hfulfils : c'.fulfils = c.fulfils) : c'.Secured := by
  rw [Secured, hclaimed, hfulfils]
  exact h

theorem mem_fulfils {i : Nat} {f g : Fulfil} (hf : c.fulfils[i]? = some f) :
    g ∈ c.fulfils ↔ g = f ∨ g ∈ c.fulfils.eraseIdx i := by
  rw [← (fulfils_perm hf).mem_iff, List.mem_cons]

theorem claim_claimed (c : Command) (party : Party) : (c.claim party).2.control.responseClaimed = true := by
  cases hc : c.control.responseClaimed with
  | true => rw [claim_of_claimed _ hc, hc]
  | false => rw [claim_of_unclaimed _ hc]

/-- An answer under way moves on, and the others stay. -/
theorem Secured.fulfil (hcount : c.Counted) (h : c.Secured) (i : Nat) : (c.fulfil i).Secured := by
  unfold Command.fulfil
  split
  · exact h
  · rename_i f hf
    have hrest : (∃ g ∈ c.fulfils, g.stage.willClaim) → f.stage.willClaim = false →
        ∃ g ∈ c.fulfils.eraseIdx i, g.stage.willClaim := fun ⟨g, hg, hwill⟩ hnot => by
      rcases (mem_fulfils hf).mp hg with rfl | hg
      · rw [hnot] at hwill
        cases hwill
      · exact ⟨g, hg, hwill⟩
    cases hstage : f.stage with
    | cancelling answer =>
      refine h.imp (fun hc => (tryCancelRunning_claimed _).trans hc) fun hex => ?_
      obtain ⟨g, hg, hwill⟩ := hrest hex (by rw [hstage]; rfl)
      refine ⟨g, ?_, hwill⟩
      simp only
      split
      · exact List.mem_append_left _ hg
      · exact hg
    | marking answer =>
      refine h.imp_right fun hex => ?_
      cases answer with
      | some answer => exact ⟨⟨f.party, .claiming answer⟩, by simp, rfl⟩
      | none =>
        obtain ⟨g, hg, hwill⟩ := hrest hex (by rw [hstage]; rfl)
        exact ⟨g, List.mem_append_left _ hg, hwill⟩
    | claiming answer => exact .inl (claim_claimed c f.party)
    | setting answer =>
      refine .inl (hcount.claimed_of_sets ?_)
      rw [settings_erase hf, hstage]
      simp only [Stage.isSetting, Bool.toNat_true]
      omega

theorem Secured.await (h : c.Secured) : c.await.Secured := by
  unfold Command.await
  cases c.requester with
  | idle => exact h
  | answered answer => exact h
  | timedOut => exact h.congr (tryCancelPending_claimed _) rfl
  | cancellingRunning => exact h.congr (tryCancelRunning_claimed _) rfl
  | claimingNotStarted => exact .inl (claim_claimed c .requester)
  | claimingUnknown => exact .inl (claim_claimed c .requester)
  | settingNotStarted => exact h.congr rfl rfl
  | settingUnknown => exact h.congr rfl rfl
  | waiting | lastWait | getting =>
    simp only
    split
    · exact h.congr rfl rfl
    · exact h

theorem Step.secured (hstep : Step c c') (hcount : c.Counted) (h : c.Secured) : c'.Secured := by
  have hgone : Secured { c with place := .gone } := h.congr rfl rfl
  have hslot : Secured { c with slot := none } := h.congr rfl rfl
  cases hstep with
  | accept method => exact absurd h (by simp [Secured])
  | refuse method => exact .inl rfl
  | take rejected _ => exact h.congr rfl rfl
  | reject _ => exact hgone.push _
  | start _ =>
    unfold Command.start
    simp only
    split
    · exact h.congr (tryStart_claimed _) rfl
    · exact hgone.push _
  | complete unpark _ => exact secured_push rfl
  | park _ kind detached =>
    unfold Command.park
    split
    · exact h.congr rfl rfl
    · exact h
  | leave _ =>
    unfold Command.leave
    split
    · exact h.congr rfl rfl
    · exact h
  | work _ =>
    unfold Command.work
    split
    · exact h.congr rfl rfl
    · exact h
  | finish _ failed =>
    unfold Command.finish
    split
    · split
      · exact hslot
      · exact hslot.push _
    · exact h
  | fulfil _ i => exact h.fulfil hcount i
  | toEnding _ => exact h.congr rfl rfl
  | endQueued _ =>
    have hended : Secured { c with place := .gone, control := c.control.tryCancelPending.2 } :=
      h.congr (tryCancelPending_claimed _) rfl
    unfold Command.endQueued
    simp only
    split
    · exact hended.push _
    · exact hended
  | endSlot _ =>
    unfold Command.endSlot
    split
    · exact h
    · split
      · exact h
      · exact h
      · exact hslot.push _
      · exact hslot.push _
      · split
        · exact hslot
        · exact hslot.push _
      · exact hslot.push _
  | deadline _ =>
    unfold Command.deadline
    split
    · exact h.congr rfl rfl
    · exact h
  | giveUp _ =>
    unfold Command.giveUp
    split
    · exact h.congr rfl rfl
    · exact h
  | await _ => exact h.await

/-- Nobody has the answer of the command yet, but somebody has the command. -/
structure Waiting (c : Command) : Prop where
  pending : c.control.state = .pending → c.place ≠ .gone
  running : c.control.state = .running → c.body = .plain ∨ c.body = .parked true ∨
    (∃ slot, c.slot = some slot ∧ slot.detached = false) ∨ ∃ f ∈ c.fulfils, f.stage.isCancelling
  cancelled : c.control.state = .cancelled → c.requester.isClaiming
  completed : c.control.state = .completed → c.body = .parked true
  slotDetached : (∃ slot, c.slot = some slot ∧ slot.detached) → c.body = .parked true
  onlyMarks : (∃ f ∈ c.fulfils, f.stage = .marking none) → c.body = .parked true

/-- The command is answered, or will be by who has it. -/
def Kept (c : Command) : Prop := c.Secured ∨ c.Waiting

theorem kept_initial : ({} : Command).Kept :=
  .inr ⟨by simp, by simp, by simp, by simp, by simp, by simp⟩

section Waiting

/-- A requester that was not about to claim goes on. -/
theorem Waiting.congr (h : c.Waiting) (hr : c.requester.isClaiming = false) {c' : Command}
    (hcontrol : c'.control = c.control) (hplace : c'.place = c.place) (hbody : c'.body = c.body)
    (hslot : c'.slot = c.slot) (hfulfils : c'.fulfils = c.fulfils) : c'.Waiting where
  pending := by
    rw [hcontrol, hplace]
    exact h.pending
  running := by
    rw [hcontrol, hbody, hslot, hfulfils]
    exact h.running
  cancelled hc := by
    rw [hcontrol] at hc
    rw [h.cancelled hc] at hr
    cases hr
  completed := by
    rw [hcontrol, hbody]
    exact h.completed
  slotDetached := by
    rw [hslot, hbody]
    exact h.slotDetached
  onlyMarks := by
    rw [hfulfils, hbody]
    exact h.onlyMarks

/-- A detached slot may go: the body still answers. -/
theorem Waiting.dropSlot (h : c.Waiting) {slot : Slot} (hs : c.slot = some slot) (hd : slot.detached = true) :
    Waiting { c with slot := none } where
  pending := h.pending
  running _ := .inr (.inl (h.slotDetached ⟨slot, hs, hd⟩))
  cancelled := h.cancelled
  completed := h.completed
  slotDetached := by simp
  onlyMarks := h.onlyMarks

theorem Waiting.pushMark (h : c.Waiting) (hbody : c.body = .parked true) (party : Party) :
    Waiting (c.push ⟨party, .marking none⟩) where
  pending := h.pending
  running _ := .inr (.inl hbody)
  cancelled := h.cancelled
  completed := h.completed
  slotDetached := h.slotDetached
  onlyMarks _ := hbody

theorem Waiting.pushCancelling (h : c.Waiting) (party : Party) (answer : Answer) :
    Waiting ({ c with slot := none }.push ⟨party, .cancelling answer⟩) where
  pending := h.pending
  running _ := .inr (.inr (.inr ⟨_, List.mem_append_right _ List.mem_cons_self, rfl⟩))
  cancelled := h.cancelled
  completed := h.completed
  slotDetached := by simp [push]
  onlyMarks hex := by
    obtain ⟨f, hf, hmark⟩ := hex
    rcases List.mem_append.mp hf with hf | hf
    · exact h.onlyMarks ⟨f, hf, hmark⟩
    · rw [List.mem_singleton.mp hf] at hmark
      cases hmark

/-- A slot is taken for its answer, or for the mark of a detached command. -/
theorem Waiting.takeSlot (h : c.Waiting) {slot : Slot} (hs : c.slot = some slot) (party : Party) (failed : Bool)
    (answer : Answer) : Kept ({ c with slot := none }.push ⟨party, .marking (slotAnswer slot failed answer)⟩) := by
  cases hd : slot.detached with
  | true =>
    have hnone : slotAnswer slot failed answer = none := by simp [slotAnswer, hd]
    rw [hnone]
    exact .inr ((h.dropSlot hs hd).pushMark (h.slotDetached ⟨slot, hs, hd⟩) party)
  | false =>
    refine .inl (secured_push ?_)
    simp only [Stage.willClaim, slotAnswer, hd]
    split_ifs <;> first | rfl | contradiction

theorem Waiting.fulfil (h : c.Waiting) (hnot : ¬ c.Secured) (i : Nat) : (c.fulfil i).Kept := by
  unfold Command.fulfil
  split
  · exact .inr h
  · rename_i f hf
    have hmem : f ∈ c.fulfils := (mem_fulfils hf).mpr (.inl rfl)
    have hsub : ∀ g ∈ c.fulfils.eraseIdx i, g ∈ c.fulfils := fun g hg => (mem_fulfils hf).mpr (.inr hg)
    have hno : f.stage.willClaim = false := by
      by_contra hwill
      exact hnot (.inr ⟨f, hmem, Bool.not_eq_false _ ▸ hwill⟩)
    cases hstage : f.stage with
    | claiming answer => rw [hstage] at hno; cases hno
    | setting answer => rw [hstage] at hno; cases hno
    | marking answer =>
      rw [hstage] at hno
      cases answer with
      | some answer => cases hno
      | none =>
        have hbody := h.onlyMarks ⟨f, hmem, hstage⟩
        exact .inr ⟨fun hc => (by cases hc), fun _ => .inr (.inl hbody), fun hc => (by cases hc), fun _ => hbody,
          h.slotDetached, fun _ => hbody⟩
    | cancelling answer =>
      simp only [CommandControl.tryCancelRunning]
      split
      · exact .inl (.inr ⟨_, List.mem_append_right _ List.mem_cons_self, rfl⟩)
      · rename_i hc
        exact .inr { h with
          running := fun hrun => absurd hrun (by simpa using hc)
          onlyMarks := fun ⟨g, hg, hmark⟩ => h.onlyMarks ⟨g, hsub g hg, hmark⟩ }

theorem Waiting.await (h : c.Waiting) : c.await.Kept := by
  unfold Command.await
  cases hr : c.requester with
  | idle => exact .inr h
  | answered answer => exact .inr h
  | claimingNotStarted => exact .inl (.inl (claim_claimed c .requester))
  | claimingUnknown => exact .inl (.inl (claim_claimed c .requester))
  | settingNotStarted => exact .inr (h.congr (by rw [hr]; rfl) rfl rfl rfl rfl rfl)
  | settingUnknown => exact .inr (h.congr (by rw [hr]; rfl) rfl rfl rfl rfl rfl)
  | waiting | lastWait | getting =>
    simp only
    split
    · exact .inr (h.congr (by rw [hr]; rfl) rfl rfl rfl rfl rfl)
    · exact .inr h
  | timedOut =>
    simp only [CommandControl.tryCancelPending]
    split
    · exact .inr { h with
        pending := fun hc => by cases hc
        running := fun hc => by cases hc
        cancelled := fun _ => rfl
        completed := fun hc => by cases hc }
    · exact .inr (h.congr (by rw [hr]; rfl) rfl rfl rfl rfl rfl)
  | cancellingRunning =>
    simp only [CommandControl.tryCancelRunning]
    split
    · exact .inr { h with
        pending := fun hc => by cases hc
        running := fun hc => by cases hc
        cancelled := fun _ => rfl
        completed := fun hc => by cases hc }
    · exact .inr (h.congr (by rw [hr]; rfl) rfl rfl rfl rfl rfl)

end Waiting

theorem Step.kept (hstep : Step c c') (hcount : c.Counted) (huntaken : c.place ≠ .gone → c.Untaken)
    (h : c.Kept) : c'.Kept := by
  by_cases hsecured : c.Secured
  · exact .inl (hstep.secured hcount hsecured)
  have h := h.resolve_left hsecured
  cases hstep with
  | accept method =>
    exact .inr ⟨by simp [Command.accept], by simp [Command.accept], by simp [Command.accept], by simp [Command.accept],
      by simp [Command.accept], by simp [Command.accept]⟩
  | refuse method => exact .inl (.inl rfl)
  | take rejected _ => exact .inr { h with pending := fun _ => by simp [Command.take] }
  | reject _ => exact .inl (secured_push rfl)
  | start hplace =>
    have hfresh := huntaken (by simp [hplace])
    simp only [Command.start, CommandControl.tryStart]
    split
    · exact .inr ⟨fun hc => (by cases hc), fun _ => .inl rfl, fun hc => (by cases hc), fun hc => (by cases hc),
        by simp [hfresh.slot], by simp [hfresh.fulfils]⟩
    · exact .inl (secured_push rfl)
  | complete unpark _ => exact .inl (secured_push rfl)
  | park _ kind detached =>
    unfold Command.park
    split
    · rename_i hbody
      have hno : c.body ≠ .parked true := by simp [hbody]
      refine .inr ⟨h.pending, fun _ => ?_, h.cancelled, fun hc => absurd (h.completed hc) hno, ?_,
        fun hm => absurd (h.onlyMarks hm) hno⟩
      · cases detached with
        | true => exact .inr (.inl rfl)
        | false => exact .inr (.inr (.inl ⟨_, rfl, rfl⟩))
      · rintro ⟨_, ⟨⟩, hd⟩
        exact congrArg Body.parked hd
    · exact .inr h
  | leave _ =>
    unfold Command.leave
    split
    · rename_i hbody
      have hno : c.body ≠ .parked true := by simp [hbody]
      have hplain : c.body ≠ .plain := by simp [hbody]
      exact .inr ⟨h.pending,
        fun hc => .inr (.inr (((h.running hc).resolve_left hplain).resolve_left hno)), h.cancelled,
        fun hc => absurd (h.completed hc) hno, fun hs => absurd (h.slotDetached hs) hno,
        fun hm => absurd (h.onlyMarks hm) hno⟩
    · exact .inr h
  | work _ =>
    unfold Command.work
    split
    · rename_i slot hs
      refine .inr ⟨h.pending, fun hc => ?_, h.cancelled, h.completed, ?_, h.onlyMarks⟩
      · refine (h.running hc).imp_right fun hr => hr.imp_right fun hr => hr.imp_left ?_
        rintro ⟨slot', hs', hd⟩
        rw [hs] at hs'
        cases hs'
        exact ⟨_, rfl, hd⟩
      · rintro ⟨_, ⟨⟩, hd⟩
        exact h.slotDetached ⟨slot, hs, hd⟩
    · exact .inr h
  | finish _ failed =>
    unfold Command.finish
    split
    · rename_i slot hs
      split
      · rename_i hscan
        exact .inr (h.dropSlot hs hscan.1)
      · exact h.takeSlot hs _ _ _
    · exact .inr h
  | fulfil _ i => exact h.fulfil hsecured i
  | toEnding _ => exact .inr { h with pending := fun _ => by simp [Command.toEnding] }
  | endQueued _ =>
    simp only [Command.endQueued, CommandControl.tryCancelPending]
    split
    · exact .inl (secured_push rfl)
    · rename_i hc
      exact .inr { h with pending := fun hp => absurd hp (by simpa using hc) }
  | endSlot _ =>
    unfold Command.endSlot
    split
    · exact .inr h
    · rename_i slot hs
      split
      · exact .inr h
      · exact .inr h
      · exact h.takeSlot hs _ _ _
      · exact h.takeSlot hs _ _ _
      · split
        · exact .inr (h.dropSlot hs ‹_›)
        · exact .inr (h.pushCancelling _ _)
      · exact .inr (h.pushCancelling _ _)
  | deadline _ =>
    unfold Command.deadline
    split
    · rename_i hr
      exact .inr (h.congr (by rw [hr.1]; rfl) rfl rfl rfl rfl rfl)
    · exact .inr h
  | giveUp _ =>
    unfold Command.giveUp
    split
    · rename_i hr
      exact .inr (h.congr (by rw [hr.1]; rfl) rfl rfl rfl rfl rfl)
    · exact .inr h
  | await _ => exact h.await

end Command

end Didi.Engine
