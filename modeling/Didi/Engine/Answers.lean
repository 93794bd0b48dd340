import Didi.Engine.Queue

/-!
# A queued command is answered once and truthfully

* `Held` : a command is in the hands of a party that will claim it;
* `Answered` : what every state that a run reaches keeps;
* `answered_of_run` : it keeps it, whatever the parties do in whatever order, and what an answer said of a body stays
  true in every later state.
-/

namespace Didi.Engine
variable {s : State} {answer : Answer}
namespace Command

/-- A promise that is set stays. -/
theorem Step.promise {c c' : Command} (hstep : Step c c') (h : c.promise = some answer) :
    c'.promise = some answer := by
  cases hstep with
  | accept method => cases h
  | refuse method => cases h
  | take rejected _ => exact h
  | reject _ => exact h
  | start _ =>
    simp only [Command.start]
    split <;> exact h
  | complete unpark _ => exact h
  | park _ kind detached =>
    unfold Command.park
    split <;> exact h
  | leave _ =>
    unfold Command.leave
    split <;> exact h
  | work _ =>
    unfold Command.work
    split <;> exact h
  | finish _ failed =>
    unfold Command.finish
    split
    · split <;> exact h
    · exact h
  | fulfil _ i =>
    unfold Command.fulfil
    split
    · exact h
    · split
      case h_4 => simp [setPromise, h]
      all_goals exact h
  | toEnding _ => exact h
  | endQueued _ =>
    simp only [Command.endQueued]
    split <;> exact h
  | endSlot _ =>
    unfold Command.endSlot
    split
    · exact h
    · split
      case h_5 => split <;> exact h
      all_goals exact h
  | deadline _ =>
    unfold Command.deadline
    split <;> exact h
  | giveUp _ =>
    unfold Command.giveUp
    split <;> exact h
  | await _ =>
    unfold Command.await
    cases c.requester with
    | waiting | lastWait | getting =>
      simp only
      split <;> exact h
    | settingNotStarted => simp [setPromise, h]
    | settingUnknown => simp [setPromise, h]
    | _ => exact h

/-- The requester of a command that was posted has begun. -/
theorem Step.begun {c c' : Command} (hstep : Step c c') (h : c.place ≠ .new → c.requester ≠ .idle) :
    c'.place ≠ .new → c'.requester ≠ .idle := by
  cases hstep with
  | accept method => exact fun _ => by simp [Command.accept]
  | refuse method => exact fun _ => by simp [Command.refuse]
  | take rejected hplace => exact fun _ => h (by simp [hplace])
  | reject hplace => exact fun _ => h (by simp [hplace])
  | start hplace =>
    have hr := h (by simp [hplace])
    simp only [Command.start]
    split <;> exact fun _ => hr
  | complete unpark _ => exact h
  | park _ kind detached =>
    unfold Command.park
    split <;> exact h
  | leave _ =>
    unfold Command.leave
    split <;> exact h
  | work _ =>
    unfold Command.work
    split <;> exact h
  | finish _ failed =>
    unfold Command.finish
    split
    · split <;> exact h
    · exact h
  | fulfil _ i =>
    unfold Command.fulfil
    split
    · exact h
    · split <;> exact h
  | toEnding hplace => exact fun _ => h (by simp [hplace])
  | endQueued hplace =>
    have hr := h (by simp [hplace])
    simp only [Command.endQueued]
    split <;> exact fun _ => hr
  | endSlot _ =>
    unfold Command.endSlot
    split
    · exact h
    · split
      case h_5 => split <;> exact h
      all_goals exact h
  | deadline _ =>
    unfold Command.deadline
    split
    · exact fun _ => by simp
    · exact h
  | giveUp _ =>
    unfold Command.giveUp
    split
    · exact fun _ => by simp
    · exact h
  | await _ =>
    unfold Command.await
    cases hr : c.requester with
    | idle => exact fun hplace => h hplace
    | answered answer => exact fun hplace => h hplace
    | waiting | lastWait | getting =>
      simp only
      split
      · exact fun _ => by simp
      · exact fun hplace => h hplace
    | timedOut =>
      simp only
      split <;> exact fun _ => by simp
    | claimingNotStarted =>
      simp only
      split <;> exact fun _ => by simp
    | claimingUnknown =>
      simp only
      split <;> exact fun _ => by simp
    | _ => exact fun _ => by simp

/-- What the life of a command keeps. -/
structure Alive (c : Command) : Prop where
  counted : c.Counted
  kept : c.Kept
  sound : c.Sound
  begun : c.place ≠ .new → c.requester ≠ .idle

theorem alive_initial : ({} : Command).Alive :=
  ⟨counted_initial, kept_initial, sound_initial, fun h => absurd rfl h⟩

theorem Step.alive {c c' : Command} (hstep : Step c c') (h : c.Alive) : c'.Alive :=
  ⟨hstep.counted h.counted, hstep.kept h.counted h.sound.untaken h.kept, hstep.sound h.sound, hstep.begun h.begun⟩

/-- A response that is claimed is claimed by one party. -/
theorem Counted.claimed_iff {c : Command} (h : c.Counted) :
    c.control.responseClaimed = true ↔ ∃ party, c.claims = [party] := by
  rw [← List.length_eq_one_iff, h.claims]
  cases c.control.responseClaimed <;> simp

end Command

/-- The command is in the hands of a party that will claim it. -/
def Held (s : State) (c : Nat) : Prop :=
  c ∈ s.queue ∨ (∃ rejected, (c, rejected) ∈ s.batch) ∨ c ∈ s.ending ∨ s.main = .body c ∨
    (∃ slot, (s.commands c).slot = some slot ∧ slot.detached = false) ∨
    (∃ f ∈ (s.commands c).fulfils, f.stage.willClaim ∨ f.stage.isCancelling) ∨ (s.commands c).requester.isClaiming

/-- What every state keeps. -/
structure Inv (s : State) : Prop where
  linked : Linked s
  alive : ∀ c, (s.commands c).Alive

theorem inv_initial : Inv {} := ⟨linked_initial, fun _ => Command.alive_initial⟩

theorem Inv.next (h : Inv s) (rejects : String → Bool) (act : Act) : Inv (s.next rejects act) where
  linked := h.linked.next rejects act
  alive c := by
    rcases commands_next h.linked rejects act c with hsame | hstep
    · rw [hsame]
      exact h.alive c
    · exact hstep.alive (h.alive c)

theorem inv_of_run (rejects : String → Bool) (h : Inv s) (acts : List Act) :
    Inv (Run.exec (step rejects) s acts) :=
  Run.exec_of_step (fun _ act h => h.next rejects act) acts h

/-- The command was answered, and what the answer says of its body is so. -/
structure Given (c : Nat) (answer : Answer) (s : State) : Prop where
  inv : Inv s
  promise : (s.commands c).promise = some answer
  told : (s.commands c).Told answer

theorem Inv.given (h : Inv s) {c : Nat} (hp : (s.commands c).promise = some answer) :
    Given c answer s := ⟨h, hp, (h.alive c).sound.told answer (.inl hp)⟩

theorem Given.next {c : Nat} (h : Given c answer s) (rejects : String → Bool) (act : Act) :
    Given c answer (s.next rejects act) := by
  rcases commands_next h.inv.linked rejects act c with hsame | hstep
  · refine ⟨h.inv.next rejects act, ?_, ?_⟩ <;> rw [hsame]
    · exact h.promise
    · exact h.told
  · exact ⟨h.inv.next rejects act, hstep.promise h.promise, hstep.told (h.inv.alive c).sound h.told⟩

theorem given_of_run (rejects : String → Bool) {c : Nat} (h : Given c answer s)
    (acts : List Act) : Given c answer (Run.exec (step rejects) s acts) :=
  Run.exec_of_step (fun _ act h => h.next rejects act) acts h

/-- A command that was posted is claimed, or in the hands of a party that will claim it. -/
theorem Inv.claimed_or_held (h : Inv s) {c : Nat} (hc : c ∈ s.posted) :
    (∃ party, (s.commands c).claims = [party]) ∨ Held s c := by
  obtain ⟨hcounted, hkept, -, -⟩ := h.alive c
  rw [← hcounted.claimed_iff]
  rcases hkept with (hclaimed | ⟨f, hf, hwill⟩) | hwaiting
  · exact .inl hclaimed
  · exact .inr (.inr (.inr (.inr (.inr (.inr (.inl ⟨f, hf, .inl hwill⟩))))))
  · refine .inr ?_
    have hbody : (s.commands c).body ≠ .none → Held s c := fun hne =>
      .inr (.inr (.inr (.inl ((h.linked.body c).mpr hne))))
    cases hstate : (s.commands c).control.state with
    | pending =>
      have hgone := hwaiting.pending hstate
      have hnew := h.linked.known c hc
      cases hplace : (s.commands c).place with
      | new => exact absurd hplace hnew
      | gone => exact absurd hplace hgone
      | queued => exact .inl ((h.linked.queuePlace c).mpr hplace)
      | taken rejected => exact .inr (.inl ⟨rejected, (h.linked.batchPlace c rejected).mpr hplace⟩)
      | ending => exact .inr (.inr (.inl ((h.linked.endingPlace c).mpr hplace)))
    | running =>
      rcases hwaiting.running hstate with hplain | hparked | hslot | ⟨f, hf, hcancel⟩
      · exact hbody (by simp [hplain])
      · exact hbody (by simp [hparked])
      · exact .inr (.inr (.inr (.inr (.inl hslot))))
      · exact .inr (.inr (.inr (.inr (.inr (.inl ⟨f, hf, .inr hcancel⟩)))))
    | cancelled => exact .inr (.inr (.inr (.inr (.inr (.inr (hwaiting.cancelled hstate))))))
    | completed => exact hbody (by simp [hwaiting.completed hstate])

/-! ### The requester alone -/

/-- What the requester does when nobody else does anything: its wait runs out, and it goes on. -/
def requesterActs (c : Nat) : List Act := [.deadline c, .await c, .await c, .await c]

section Requester
open Command
variable {c : Command}

theorem claimed_await (h : c.control.responseClaimed = true) : c.await.control.responseClaimed = true := by
  unfold Command.await
  cases c.requester with
  | waiting | lastWait | getting =>
    simp only
    split <;> exact h
  | timedOut => exact (tryCancelPending_claimed _).trans h
  | cancellingRunning => exact (tryCancelRunning_claimed _).trans h
  | claimingNotStarted => exact claim_claimed c .requester
  | claimingUnknown => exact claim_claimed c .requester
  | _ => exact h

theorem claimed_of_claiming (hr : c.requester.isClaiming = true) : c.await.control.responseClaimed = true := by
  unfold Command.await
  cases hc : c.requester with
  | claimingNotStarted => exact claim_claimed c .requester
  | claimingUnknown => exact claim_claimed c .requester
  | _ =>
    rw [hc] at hr
    cases hr

theorem claimed_of_cancelling (hr : c.requester = .cancellingRunning) :
    c.await.await.control.responseClaimed = true := by
  have hnext : c.await.requester = .claimingUnknown := by simp only [Command.await, hr]
  exact claimed_of_claiming (by rw [hnext]; rfl)

theorem claimed_of_timedOut (hr : c.requester = .timedOut) : c.await.await.await.control.responseClaimed = true := by
  by_cases hp : c.control.state = .pending
  · have hnext : c.await.requester = .claimingNotStarted := by
      simp only [Command.await, hr, CommandControl.tryCancelPending, hp, if_true]
    exact claimed_await (claimed_of_claiming (by rw [hnext]; rfl))
  · have hnext : c.await.requester = .cancellingRunning := by
      simp [Command.await, hr, CommandControl.tryCancelPending, hp]
    exact claimed_of_cancelling hnext

/-- The wait runs out, and the requester claims the response unless it is claimed by then. -/
theorem claimed_of_requester (h : c.Counted) (hr : c.requester ≠ .idle) :
    c.deadline.await.await.await.control.responseClaimed = true := by
  have hclaimed : c.control.responseClaimed = true →
      c.deadline.await.await.await.control.responseClaimed = true := fun hc => by
    refine claimed_await (claimed_await (claimed_await ?_))
    unfold Command.deadline
    split <;> exact hc
  have hother : c.requester ≠ .waiting → c.deadline = c := fun hne => if_neg fun hw => hne hw.1
  cases hc : c.requester with
  | idle => exact absurd hc hr
  | waiting =>
    cases hp : c.promise with
    | none => exact claimed_of_timedOut (by simp [Command.deadline, hc, hp])
    | some answer =>
      have hsets : c.sets ≠ 0 := fun hs => by
        rw [h.promise.mpr hs] at hp
        cases hp
      exact hclaimed (h.claimed_of_sets (by omega))
  | timedOut =>
    rw [hother (by simp [hc])]
    exact claimed_of_timedOut hc
  | cancellingRunning =>
    rw [hother (by simp [hc])]
    exact claimed_await (claimed_of_cancelling hc)
  | claimingNotStarted =>
    rw [hother (by simp [hc])]
    exact claimed_await (claimed_await (claimed_of_claiming (by rw [hc]; rfl)))
  | claimingUnknown =>
    rw [hother (by simp [hc])]
    exact claimed_await (claimed_await (claimed_of_claiming (by rw [hc]; rfl)))
  | _ => exact hclaimed (h.past (by rw [hc]; rfl))

end Requester

theorem exec_requesterActs (rejects : String → Bool) (s : State) (c : Nat) :
    (Run.exec (step rejects) s (requesterActs c)).commands c = (s.commands c).deadline.await.await.await := by
  simp [requesterActs, step, State.next]

/-! ### Every run -/

/-- What every state that a run reaches keeps. -/
structure Answered (s : State) : Prop where
  once : ∀ c, (s.commands c).sets ≤ 1 ∧ (s.commands c).claims.length ≤ 1
  claimed : ∀ c ∈ s.posted, (∃ party, (s.commands c).claims = [party]) ∨ Held s c
  awaited : ∀ c answer, (s.commands c).requester = .answered answer →
    (∃ party, (s.commands c).claims = [party]) ∧ ((s.commands c).promise = some answer ∨ answer = .unknownOutcome)
  order : s.started.Sublist s.posted

/-- What an answer says of the body of its command. -/
structure Truthful (answer : Answer) (c : Command) : Prop where
  promise : c.promise = some answer
  beforeExecution : answer.beforeExecution → c.starts = 0
  notSampled : answer = .notSampled → c.works = 0
  result : answer = .result → c.starts = 1

theorem Given.truthful {c : Nat} (h : Given c answer s) :
    Truthful answer (s.commands c) := by
  have ht := h.told
  refine ⟨h.promise, fun hb => ?_, fun he => ?_, fun he => ?_⟩
  · cases answer with
    | bridgeNotReady => exact ht.1
    | sessionRejected => exact ht.1
    | commandCancelled => exact ht.1
    | notStarted => exact ht.1
    | sessionEnded => exact ht.1
    | _ => cases hb
  · subst he
    exact ht.works
  · subst he
    exact ht

theorem Inv.answered (h : Inv s) : Answered s where
  once c := by
    have hcounted := (h.alive c).counted
    refine ⟨hcounted.sets_le_one, ?_⟩
    rw [hcounted.claims]
    exact Bool.toNat_le _
  claimed _ hc := h.claimed_or_held hc
  awaited c answer hr := by
    have hcounted := (h.alive c).counted
    exact ⟨hcounted.claimed_iff.mp (hcounted.past (by rw [hr]; rfl)), hcounted.answered answer hr⟩
  order := (List.sublist_append_left _ _).trans h.linked.order

/-- In every state that a run reaches, a command is answered at most once and in its turn, by the one party that
claimed it; its requester alone can bring that about; and what the answer says of the body stays true. -/
theorem answered_of_run (rejects : String → Bool) (acts : List Act) :
    Answered (Run.exec (step rejects) {} acts) ∧
      (∀ c ∈ (Run.exec (step rejects) {} acts).posted,
        ∃ party, ((Run.exec (step rejects) {} (acts ++ requesterActs c)).commands c).claims = [party]) ∧
      ∀ c answer, ((Run.exec (step rejects) {} acts).commands c).promise = some answer →
        ∀ later, Truthful answer ((Run.exec (step rejects) {} (acts ++ later)).commands c) := by
  have h : Inv (Run.exec (step rejects) {} acts) := inv_of_run rejects inv_initial acts
  refine ⟨h.answered, fun c hc => ?_, fun c answer hp later => ?_⟩
  · have hafter := inv_of_run rejects inv_initial (acts ++ requesterActs c)
    have hbegun := (h.alive c).begun (h.linked.known c hc)
    rw [← (hafter.alive c).counted.claimed_iff, Run.exec_append, exec_requesterActs]
    exact claimed_of_requester (h.alive c).counted hbegun
  · rw [Run.exec_append]
    exact (given_of_run rejects (h.given hp) later).truthful

/-! ### Where the commands are -/

/-- A body starts when its command is taken out of the batch, and by nothing else. -/
theorem Command.Step.starts {c c' : Command} (hstep : Step c c') :
    c'.starts = c.starts ∨ c.place = .taken false ∧ c'.place = .gone := by
  cases hstep with
  | start hplace =>
    refine .inr ⟨hplace, ?_⟩
    simp only [Command.start]
    split <;> rfl
  | fulfil _ i => exact .inl (fulfil_frame i).starts
  | endQueued _ => exact .inl endQueued_frame.starts
  | endSlot _ => exact .inl endSlot_frame.starts
  | finish _ failed => exact .inl (finish_frame failed).starts
  | leave _ => exact .inl leave_frame.starts
  | deadline _ => exact .inl deadline_frame.starts
  | giveUp _ => exact .inl giveUp_frame.starts
  | await _ => exact .inl await_frame.starts
  | park _ kind detached =>
    apply Or.inl
    unfold Command.park
    split <;> rfl
  | work _ =>
    apply Or.inl
    unfold Command.work
    split <;> rfl
  | _ => exact .inl rfl

/-- Only the main thread's next command leaves the batch or starts; a frame fills the batch when it is empty. -/
theorem lists_next (rejects : String → Bool) (s : State) {act : Act} (h : act ≠ .next) :
    (s.next rejects act).started = s.started ∧
      ((s.next rejects act).batch = s.batch ∨
        s.main = .idle ∧ (s.next rejects act).batch.length ≤ kMaxCommandsPerFrame) := by
  cases act with
  | next => exact absurd rfl h
  | dequeue starting settling =>
    simp only [State.next, State.dequeue]
    split
    · rename_i hmain
      refine ⟨rfl, .inr ⟨hmain, ?_⟩⟩
      show ((s.front starting settling).map _).length ≤ _
      rw [List.length_map]
      exact List.length_take_le ..
    · exact ⟨rfl, .inl rfl⟩
  | post c method ready =>
    simp only [State.next, State.post]
    split
    · exact ⟨rfl, .inl rfl⟩
    · split <;> exact ⟨rfl, .inl rfl⟩
  | leave | resume | endResume =>
    simp only [State.next, State.leave, State.resume, State.endResume]
    split
    · split <;> exact ⟨rfl, .inl rfl⟩
    · exact ⟨rfl, .inl rfl⟩
  | complete | park | endNext | endSlot =>
    simp only [State.next, State.complete, State.park, State.endNext, State.endSlot]
    split <;> exact ⟨rfl, .inl rfl⟩
  | _ => exact ⟨rfl, .inl rfl⟩

/-- The starts are counted, and a frame takes no more than it may. -/
structure Filed (s : State) : Prop where
  inv : Inv s
  batch : s.batch.length ≤ kMaxCommandsPerFrame
  counted : ∀ c, s.started.count c = (s.commands c).starts

theorem Filed.nextCommand (h : Filed s) :
    s.nextCommand.batch.length ≤ kMaxCommandsPerFrame ∧
      ∀ d, s.nextCommand.started.count d = (s.nextCommand.commands d).starts := by
  have hsame : ∀ (c : Nat) {f : Command → Command}, (f (s.commands c)).starts = (s.commands c).starts →
      ∀ d, s.started.count d = ((s.modify c f).commands d).starts := fun c f hf d =>
    (h.counted d).trans (modify_congr s c f hf d).symm
  have htail : ∀ {p : Nat × Bool} {batch}, s.batch = p :: batch → batch.length ≤ kMaxCommandsPerFrame := by
    intro p batch hb
    have hle := h.batch
    rw [hb, List.length_cons] at hle
    omega
  unfold State.nextCommand
  split
  · exact ⟨h.batch, h.counted⟩
  · rename_i c batch hmain hbatch
    exact ⟨htail hbatch, hsame c rfl⟩
  · rename_i c batch hmain hbatch
    split
    · rename_i hwon
      refine ⟨htail hbatch, fun d => ?_⟩
      have hcount := h.counted d
      show (s.started ++ [c]).count d = ((s.modify c .start).commands d).starts
      rw [List.count_append, hcount]
      by_cases hd : d = c
      · subst hd
        simp [Command.start, hwon]
      · rw [modify_other s _ hd, List.count_eq_zero.mpr (by simpa using hd), Nat.add_zero]
    · rename_i hlost
      exact ⟨htail hbatch, hsame c (by simp [Command.start, hlost, Command.push])⟩
  · exact ⟨h.batch, h.counted⟩

theorem Filed.next (h : Filed s) (rejects : String → Bool) (act : Act) : Filed (s.next rejects act) := by
  have hinv := h.inv.next rejects act
  by_cases hact : act = .next
  · subst hact
    exact ⟨hinv, h.nextCommand.1, h.nextCommand.2⟩
  · obtain ⟨hstarted, hbatch⟩ := lists_next rejects s hact
    refine ⟨hinv, hbatch.elim (fun hb => hb ▸ h.batch) And.right, fun c => ?_⟩
    rw [hstarted, h.counted c]
    rcases commands_next h.inv.linked rejects act c with hsame | hstep
    · rw [hsame]
    · rcases hstep.starts with hstarts | ⟨htaken, hgone⟩
      · exact hstarts.symm
      · -- the command is still in the batch, so no act but `next` took it out
        have hmem := (h.inv.linked.batchPlace c false).mpr htaken
        rcases hbatch with hb | ⟨hidle, -⟩
        · have hstill := (hinv.linked.batchPlace c false).mp (hb ▸ hmem)
          rw [hgone] at hstill
          cases hstill
        · rw [h.inv.linked.idle hidle] at hmem
          cases hmem

/-- Where the commands of a state are. -/
structure Conserved (s : State) : Prop where
  parted : s.posted.Perm (s.batch.map Prod.fst ++ s.queue ++ s.ending ++
    s.posted.filter fun c => (s.commands c).place = .gone)
  batch : s.batch.length ≤ kMaxCommandsPerFrame
  alone : ∀ c d, (s.commands c).body ≠ .none → (s.commands d).body ≠ .none → c = d
  counted : ∀ c, s.started.count c = (s.commands c).starts
  once : s.started.Nodup

theorem Linked.parted (h : Linked s) :
    s.posted.Perm (s.batch.map Prod.fst ++ s.queue ++ s.ending ++
      s.posted.filter fun c => (s.commands c).place = .gone) := by
  have hmem : ∀ c, c ∈ s.batch.map Prod.fst ↔ ∃ rejected, (s.commands c).place = .taken rejected := fun c => by
    simp only [← h.batchPlace, List.mem_map, Prod.exists, exists_and_right, exists_eq_right]
  have hplaced : ∀ c, (s.commands c).place ≠ .new → c ∈ s.posted := fun c hc => h.mem_posted fun he => hc (by rw [he])
  have hnodup : (s.batch.map Prod.fst ++ s.queue ++ s.ending ++
      s.posted.filter fun c => (s.commands c).place = .gone).Nodup := by
    refine List.nodup_append.mpr ⟨List.nodup_append.mpr ⟨h.batch_nodup, h.ending, ?_⟩, h.posted.filter _, ?_⟩
    · rintro c hc d hd rfl
      have hending := (h.endingPlace c).mp hd
      rw [List.mem_append, hmem, h.queuePlace, hending] at hc
      simp at hc
    · rintro c hc d hd rfl
      have hgone : (s.commands c).place = .gone := by simpa using (List.mem_filter.mp hd).2
      rw [List.mem_append, List.mem_append, hmem, h.queuePlace, h.endingPlace, hgone] at hc
      simp at hc
  apply (List.perm_ext_iff_of_nodup h.posted hnodup).mpr
  intro c
  simp only [List.mem_append, List.mem_filter, hmem, h.queuePlace, h.endingPlace, decide_eq_true_eq]
  constructor
  · intro hc
    have hknown := h.known c hc
    cases hplace : (s.commands c).place with
    | new => exact absurd hplace hknown
    | _ => simp [hc]
  · rintro (((⟨rejected, hc⟩ | hc) | hc) | hc)
    · exact hplaced c (by simp [hc])
    · exact hplaced c (by simp [hc])
    · exact hplaced c (by simp [hc])
    · exact hc.1

/-- In every state that a run reaches, each posted command is in one of the lists or has left them, no frame has taken
more than it may, one body runs at most, and each body started as often as it is counted, which is once or never. -/
theorem conserved_of_run (rejects : String → Bool) (acts : List Act) :
    Conserved (Run.exec (step rejects) {} acts) := by
  have h : Filed (Run.exec (step rejects) {} acts) :=
    Run.exec_of_step (fun _ act hs => hs.next rejects act) acts ⟨inv_initial, Nat.zero_le _, fun _ => rfl⟩
  exact {
    parted := h.inv.linked.parted
    batch := h.batch
    alone := fun c d hc hd => by
      have hmain := ((h.inv.linked.body c).mpr hc).symm.trans ((h.inv.linked.body d).mpr hd)
      exact Main.body.inj hmain
    counted := h.counted
    once := ((List.sublist_append_left _ _).trans h.inv.linked.order).nodup h.inv.linked.posted }

/-- A command that runs, after one that its requester took back in time. -/
example :
    let s := Run.exec (step fun _ => false) {} [.post 0 "scene.open" true, .post 1 "scene.save" true, .deadline 0,
      .await 0, .dequeue false false, .next, .await 0, .fulfil 0 0, .resume, .next, .complete false, .fulfil 1 0,
      .fulfil 1 0, .fulfil 1 0, .await 0, .await 0, .await 1]
    s.started = [1] ∧ (s.commands 0).requester = .answered .notStarted ∧
      (s.commands 1).requester = .answered .result := by decide

end Didi.Engine
