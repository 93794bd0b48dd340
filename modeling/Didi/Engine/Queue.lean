import Mathlib.Data.List.Sublists
import Mathlib.Logic.Function.Basic
import Didi.Engine.Truth
import Didi.Lib.Run

/-!
# The queue of engine commands and its parties

* `Act` : one atomic operation of a requester, of the main thread, of a frame of a parked command or of shutdown;
* `State.next` : what it does to the queue and to its command;
* `Linked` : each command is in at most one list, and each list in the order of the posts;
* `Linked.next`, `commands_next` : every act keeps that, and is for each command one step of its life or none.
-/

namespace Didi.Engine
variable {f : Command → Command}

/-- Where the loop of `processQueue` is: outside it, between two commands, in a body, or in the `fulfillCommand` that
ends one. -/
inductive Main
  | idle
  | loop
  | body (c : Nat)
  | answering (c : Nat)

structure State where
  commands : Nat → Command := fun _ => {}
  queue : List Nat := []
  -- taken from the queue and not begun, with whether the session kind rejects the method
  batch : List (Nat × Bool) := []
  -- taken from the queue by shutdown
  ending : List Nat := []
  main : Main := .idle
  -- the command that shutdown answers
  shutdown : Option Nat := none
  posted : List Nat := []
  started : List Nat := []

inductive Act
  | post (c : Nat) (method : String) (ready : Bool)
  -- the main thread
  | dequeue (starting settling : Bool)
  | next
  | complete (unpark : Bool)
  | park (kind : SlotKind) (detached : Bool)
  | leave
  | resume
  -- a frame of a parked command
  | work (c : Nat)
  | finish (c : Nat) (failed : Bool)
  -- fulfillCommand
  | fulfil (c i : Nat)
  -- shutdown
  | swap
  | endNext
  | endSlot (c : Nat)
  | endResume
  -- the requester
  | deadline (c : Nat)
  | giveUp (c : Nat)
  | await (c : Nat)

def kMaxCommandsPerFrame : Nat := 64

/-- The scene writers wait at the front of the queue until the editor has started, and until its scan is applied. -/
def waitsAtFront (starting settling : Bool) (method : String) : Bool :=
  (starting && (method = "scene.open" || method = "scene.create")) ||
    (settling && (method = "scene.create" || method = "scene.packBranch"))

namespace State

def modify (s : State) (c : Nat) (f : Command → Command) : State :=
  { s with commands := Function.update s.commands c (f (s.commands c)) }

/-- The party is in `fulfillCommand` for the command. -/
def isBusy (s : State) (party : Party) (c : Nat) : Bool := (s.commands c).fulfils.any fun f => f.party = party

def post (s : State) (c : Nat) (method : String) (ready : Bool) : State :=
  if c ∈ s.posted then s
  else if ready then
    { s with posted := s.posted ++ [c], queue := s.queue ++ [c] }.modify c fun _ => .accept method
  else { s with posted := s.posted ++ [c] }.modify c fun _ => .refuse method

/-- What one frame takes. -/
def front (s : State) (starting settling : Bool) : List Nat :=
  (s.queue.takeWhile fun c => !waitsAtFront starting settling (s.commands c).method).take kMaxCommandsPerFrame

/-- The commands of a list go elsewhere. -/
def moveAll (s : State) (l : List Nat) (f : Command → Command) : State :=
  { s with commands := fun c => if c ∈ l then f (s.commands c) else s.commands c }

/-- The frames of a nested pump and of an import pass take nothing. -/
def dequeue (rejects : String → Bool) (s : State) (starting settling : Bool) : State :=
  match s.main with
  | .idle =>
    let front := s.front starting settling
    { s with
      main := .loop
      queue := s.queue.drop front.length
      batch := front.map fun c => (c, rejects (s.commands c).method) }.moveAll front
        fun command => command.take (rejects command.method)
  | _ => s

/-- The next command of the batch. -/
def nextCommand (s : State) : State :=
  match s.main, s.batch with
  | .loop, [] => { s with main := .idle }
  | .loop, (c, true) :: batch => { s with batch, main := .answering c }.modify c .reject
  | .loop, (c, false) :: batch =>
    if (s.commands c).control.tryStart.1 then
      { s with batch, main := .body c, started := s.started ++ [c] }.modify c .start
    else { s with batch, main := .answering c }.modify c .start
  | _, _ => s

def complete (s : State) (unpark : Bool) : State :=
  match s.main with
  | .body c => { s with main := .answering c }.modify c (.complete unpark)
  | _ => s

def park (s : State) (kind : SlotKind) (detached : Bool) : State :=
  match s.main with
  | .body c => s.modify c (.park kind detached)
  | _ => s

def leave (s : State) : State :=
  match s.main with
  | .body c => if (s.commands c).body = .parked false then { s with main := .loop }.modify c .leave else s
  | _ => s

def resume (s : State) : State :=
  match s.main with
  | .answering c => if s.isBusy .main c then s else { s with main := .loop }
  | _ => s

def swap (s : State) : State :=
  { s with queue := [], ending := s.ending ++ s.queue }.moveAll s.queue .toEnding

def endNext (s : State) : State :=
  match s.shutdown, s.ending with
  | none, c :: ending => { s with ending, shutdown := some c }.modify c .endQueued
  | _, _ => s

def endSlot (s : State) (c : Nat) : State :=
  match s.shutdown with
  | none => { s with shutdown := some c }.modify c .endSlot
  | some _ => s

def endResume (s : State) : State :=
  match s.shutdown with
  | some c => if s.isBusy .shutdown c then s else { s with shutdown := none }
  | none => s

def next (rejects : String → Bool) (s : State) : Act → State
  | .post c method ready => s.post c method ready
  | .dequeue starting settling => s.dequeue rejects starting settling
  | .next => s.nextCommand
  | .complete unpark => s.complete unpark
  | .park kind detached => s.park kind detached
  | .leave => s.leave
  | .resume => s.resume
  | .work c => s.modify c .work
  | .finish c failed => s.modify c (.finish failed)
  | .fulfil c i => s.modify c (.fulfil i)
  | .swap => s.swap
  | .endNext => s.endNext
  | .endSlot c => s.endSlot c
  | .endResume => s.endResume
  | .deadline c => s.modify c .deadline
  | .giveUp c => s.modify c .giveUp
  | .await c => s.modify c .await

end State

/-- An act, which answers nothing by itself. -/
def step (rejects : String → Bool) (s : State) (act : Act) : Unit × State := ((), s.next rejects act)

/-! ### Each command is in one place -/

structure Linked (s : State) : Prop where
  posted : s.posted.Nodup
  order : (s.started ++ (s.batch.map Prod.fst ++ s.queue)).Sublist s.posted
  ending : s.ending.Nodup
  idle : s.main = .idle → s.batch = []
  queuePlace : ∀ c, c ∈ s.queue ↔ (s.commands c).place = .queued
  batchPlace : ∀ c rejected, (c, rejected) ∈ s.batch ↔ (s.commands c).place = .taken rejected
  endingPlace : ∀ c, c ∈ s.ending ↔ (s.commands c).place = .ending
  fresh : ∀ c, c ∉ s.posted → s.commands c = {}
  known : ∀ c ∈ s.posted, (s.commands c).place ≠ .new
  body : ∀ c, s.main = .body c ↔ (s.commands c).body ≠ .none

theorem linked_initial : Linked {} where
  posted := List.nodup_nil
  order := List.Sublist.refl _
  ending := List.nodup_nil
  idle _ := rfl
  queuePlace _ := by simp
  batchPlace _ _ := by simp
  endingPlace _ := by simp
  fresh _ _ := rfl
  known := List.forall_mem_nil _
  body _ := by simp

/-- A command moves through none of the lists, and nothing happens to one that was not posted. -/
structure Quiet (f : Command → Command) : Prop where
  place : ∀ c, (f c).place = c.place
  body : ∀ c, (f c).body = c.body
  fresh : f {} = {}

section Linked
variable {s : State}

@[simp] theorem modify_same (s : State) (c : Nat) (f : Command → Command) :
    (s.modify c f).commands c = f (s.commands c) := Function.update_self ..

theorem modify_other (s : State) {c d : Nat} (f : Command → Command) (h : d ≠ c) :
    (s.modify c f).commands d = s.commands d := Function.update_of_ne h ..

/-- What `f` leaves of a command it leaves of all. -/
theorem modify_congr {α : Type} (s : State) (c : Nat) (f : Command → Command) {view : Command → α}
    (h : view (f (s.commands c)) = view (s.commands c)) (d : Nat) :
    view ((s.modify c f).commands d) = view (s.commands d) := by
  by_cases hd : d = c
  · rw [hd, modify_same, h]
  · rw [modify_other s f hd]

theorem Linked.quiet (h : Linked s) (hf : Quiet f) (c : Nat) : Linked (s.modify c f) := by
  have hplace := modify_congr s c f (hf.place _)
  have hbody := modify_congr s c f (hf.body _)
  exact {
    posted := h.posted
    order := h.order
    ending := h.ending
    idle := h.idle
    queuePlace := fun d => by
      rw [hplace d]
      exact h.queuePlace d
    batchPlace := fun d rejected => by
      rw [hplace d]
      exact h.batchPlace d rejected
    endingPlace := fun d => by
      rw [hplace d]
      exact h.endingPlace d
    fresh := fun d hd => by
      by_cases hdc : d = c
      · subst hdc
        rw [modify_same, h.fresh d hd, hf.fresh]
      · rw [modify_other s f hdc, h.fresh d hd]
    known := fun d hd => by
      rw [hplace d]
      exact h.known d hd
    body := fun d => by
      rw [hbody d]
      exact h.body d }

theorem quiet_work : Quiet .work := by
  refine ⟨fun c => ?_, fun c => ?_, rfl⟩ <;> unfold Command.work <;> split <;> rfl

theorem quiet_finish (failed : Bool) : Quiet (.finish failed) := by
  refine ⟨fun c => ?_, fun c => ?_, rfl⟩
  all_goals
    unfold Command.finish
    split
    · split <;> rfl
    · rfl

theorem quiet_fulfil (i : Nat) : Quiet (.fulfil i) := by
  refine ⟨fun c => ?_, fun c => ?_, rfl⟩
  all_goals
    unfold Command.fulfil
    split
    · rfl
    · split <;> rfl

theorem quiet_endSlot : Quiet .endSlot := by
  refine ⟨fun c => ?_, fun c => ?_, rfl⟩
  all_goals
    unfold Command.endSlot
    split
    · rfl
    · split
      case h_5 => split <;> rfl
      all_goals rfl

theorem quiet_deadline : Quiet .deadline := by
  refine ⟨fun c => ?_, fun c => ?_, rfl⟩ <;> unfold Command.deadline <;> split <;> rfl

theorem quiet_giveUp : Quiet .giveUp := by
  refine ⟨fun c => ?_, fun c => ?_, rfl⟩ <;> unfold Command.giveUp <;> split <;> rfl

theorem quiet_await : Quiet .await := by
  refine ⟨fun c => ?_, fun c => ?_, rfl⟩
  all_goals
    unfold Command.await
    cases c.requester with
    | waiting | lastWait | getting =>
      simp only
      split <;> rfl
    | _ => rfl

/-- One command moves, from one list into another or into the hands of the main thread. -/
theorem Linked.move (h : Linked s) {s₁ : State} {c : Nat} (hcommands : s₁.commands = s.commands)
    (hposted : s₁.posted.Nodup) (hgrows : ∀ d ∈ s.posted, d ∈ s₁.posted) (hc : c ∈ s₁.posted)
    (hfew : ∀ d ∈ s₁.posted, d = c ∨ d ∈ s.posted) (hnew : (f (s.commands c)).place ≠ .new)
    (horder : (s₁.started ++ (s₁.batch.map Prod.fst ++ s₁.queue)).Sublist s₁.posted) (hending : s₁.ending.Nodup)
    (hidle : s₁.main = .idle → s₁.batch = [])
    (hqueue : ∀ d, d ∈ s₁.queue ↔ if d = c then (f (s.commands c)).place = .queued else d ∈ s.queue)
    (hbatch : ∀ d rejected, (d, rejected) ∈ s₁.batch ↔
      if d = c then (f (s.commands c)).place = .taken rejected else (d, rejected) ∈ s.batch)
    (hends : ∀ d, d ∈ s₁.ending ↔ if d = c then (f (s.commands c)).place = .ending else d ∈ s.ending)
    (hbody : ∀ d, s₁.main = .body d ↔ if d = c then (f (s.commands c)).body ≠ .none else s.main = .body d) :
    Linked (s₁.modify c f) := by
  have hview : ∀ d, (s₁.modify c f).commands d = if d = c then f (s.commands c) else s.commands d := fun d => by
    by_cases hd : d = c
    · rw [if_pos hd, hd, modify_same, hcommands]
    · rw [if_neg hd, modify_other s₁ f hd, hcommands]
  refine ⟨hposted, horder, hending, hidle, fun d => ?_, fun d rejected => ?_, fun d => ?_, fun d hd => ?_,
    fun d hd => ?_, fun d => ?_⟩
  · rw [hview d]
    refine (hqueue d).trans ?_
    split_ifs
    · exact Iff.rfl
    · exact h.queuePlace d
  · rw [hview d]
    refine (hbatch d rejected).trans ?_
    split_ifs
    · exact Iff.rfl
    · exact h.batchPlace d rejected
  · rw [hview d]
    refine (hends d).trans ?_
    split_ifs
    · exact Iff.rfl
    · exact h.endingPlace d
  · have hdc : d ≠ c := by
      rintro rfl
      exact hd hc
    rw [hview d, if_neg hdc]
    exact h.fresh d fun hold => hd (hgrows d hold)
  · rw [hview d]
    split_ifs with hdc
    · exact hnew
    · exact h.known d ((hfew d hd).resolve_left hdc)
  · rw [hview d]
    refine (hbody d).trans ?_
    split_ifs
    · exact Iff.rfl
    · exact h.body d

theorem Linked.post (h : Linked s) (c : Nat) (method : String) (ready : Bool) : Linked (s.post c method ready) := by
  unfold State.post
  split
  · exact h
  · rename_i hc
    have hnew := h.fresh c hc
    have hqueue : c ∉ s.queue := by simp [h.queuePlace, hnew]
    have hbatch : ∀ rejected, (c, rejected) ∉ s.batch := by simp [h.batchPlace, hnew]
    have hends : c ∉ s.ending := by simp [h.endingPlace, hnew]
    have hbody : s.main ≠ .body c := by simp [h.body, hnew]
    have hnodup : (s.posted ++ [c]).Nodup := List.nodup_append.mpr ⟨h.posted, List.nodup_singleton c, by
      rintro a ha b hb rfl
      exact hc (List.mem_singleton.mp hb ▸ ha)⟩
    have hfew : ∀ d ∈ s.posted ++ [c], d = c ∨ d ∈ s.posted := by simp [or_comm]
    split
    · refine h.move rfl hnodup (fun d hd => List.mem_append_left _ hd) (by simp) hfew (by simp [Command.accept]) ?_
        h.ending h.idle ?_ ?_ ?_ ?_
      · simpa [List.append_assoc] using h.order.append (List.Sublist.refl [c])
      · intro d
        by_cases hd : d = c <;> simp [hd, Command.accept]
      · intro d rejected
        by_cases hd : d = c <;> simp [hd, hbatch, Command.accept]
      · intro d
        by_cases hd : d = c <;> simp [hd, hends, Command.accept]
      · intro d
        by_cases hd : d = c <;> simp [hd, hbody, Command.accept]
    · refine h.move rfl hnodup (fun d hd => List.mem_append_left _ hd) (by simp) hfew (by simp [Command.refuse]) ?_
        h.ending h.idle ?_ ?_ ?_ ?_
      · exact h.order.trans (List.sublist_append_left _ _)
      · intro d
        by_cases hd : d = c <;> simp [hd, hqueue, Command.refuse]
      · intro d rejected
        by_cases hd : d = c <;> simp [hd, hbatch, Command.refuse]
      · intro d
        by_cases hd : d = c <;> simp [hd, hends, Command.refuse]
      · intro d
        by_cases hd : d = c <;> simp [hd, hbody, Command.refuse]

/-- A command that was posted. -/
theorem Linked.mem_posted (h : Linked s) {c : Nat} (hc : s.commands c ≠ {}) : c ∈ s.posted := by
  by_contra hno
  exact hc (h.fresh c hno)

theorem Linked.batch_nodup (h : Linked s) : (s.batch.map Prod.fst ++ s.queue).Nodup :=
  ((List.sublist_append_right _ _).trans h.order).nodup h.posted

/-- The head of the batch leaves it, without a start or with one. -/
theorem Linked.pop (h : Linked s) {c : Nat} {rejected : Bool} {batch : List (Nat × Bool)} (hmain : s.main = .loop)
    (hbatch : s.batch = (c, rejected) :: batch) {main : Main} {started : List Nat}
    (hplace : (f (s.commands c)).place = .gone) (hidle : main ≠ .idle)
    (hstarted : started = s.started ∨ started = s.started ++ [c])
    (hbody : ∀ d, main = .body d ↔ d = c ∧ (f (s.commands c)).body ≠ .none) :
    Linked ({ s with batch, main, started }.modify c f) := by
  have hnodup := h.batch_nodup
  have horder := h.order
  rw [hbatch, List.map_cons, List.cons_append] at hnodup horder
  obtain ⟨hrest, -⟩ := List.nodup_cons.mp hnodup
  have hq : c ∉ s.queue := fun hc => hrest (List.mem_append_right _ hc)
  have hb : ∀ r, (c, r) ∉ batch := fun r hc =>
    hrest (List.mem_append_left _ (List.mem_map.mpr ⟨(c, r), hc, rfl⟩))
  have hplaced := (h.batchPlace c rejected).mp (hbatch ▸ List.mem_cons_self)
  have hends : c ∉ s.ending := by simp [h.endingPlace, hplaced]
  refine h.move rfl h.posted (fun _ hd => hd) (horder.subset (by simp)) (fun _ hd => .inr hd) (by simp [hplace]) ?_
    h.ending (fun hi => absurd hi hidle) ?_ ?_ ?_ ?_
  · rcases hstarted with rfl | rfl
    · exact ((List.sublist_cons_self c _).append_left _).trans horder
    · rw [List.append_assoc]
      exact horder
  · intro d
    by_cases hd : d = c <;> simp [hd, hq, hplace]
  · intro d r
    by_cases hd : d = c
    · simp [hd, hb, hplace]
    · simp [hd, hbatch]
  · intro d
    by_cases hd : d = c <;> simp [hd, hends, hplace]
  · intro d
    refine (hbody d).trans ?_
    by_cases hd : d = c <;> simp [hd, hmain]

theorem Linked.nextCommand (h : Linked s) : Linked s.nextCommand := by
  unfold State.nextCommand
  split
  · rename_i hmain hbatch
    exact { h with
      idle := fun _ => hbatch
      body := fun d => by
        have hd := h.body d
        rw [hmain] at hd
        exact (iff_of_false (by simp) fun hne => by simpa using hd.mpr hne) }
  · rename_i c batch hmain hbatch
    have hnone := h.body c
    rw [hmain] at hnone
    refine h.pop hmain hbatch rfl (by simp) (.inl rfl) fun d => ?_
    have hbody : (s.commands c).body = .none := by simpa using hnone
    simp [Command.reject, Command.push, hbody]
  · rename_i c batch hmain hbatch
    have hnone := h.body c
    rw [hmain] at hnone
    split
    · rename_i hwon
      refine h.pop hmain hbatch ?_ (by simp) (.inr rfl) fun d => ?_
      · simp [Command.start, hwon]
      · simp [Command.start, hwon, eq_comm]
    · rename_i hlost
      refine h.pop hmain hbatch ?_ (by simp) (.inl rfl) fun d => ?_
      · simp [Command.start, hlost, Command.push]
      · have hbody : (s.commands c).body = .none := by simpa using hnone
        simp [Command.start, hlost, Command.push, hbody]
  · exact h

/-- The body that is running goes on, or ends. -/
theorem Linked.setBody (h : Linked s) {c : Nat} (hmain : s.main = .body c) {main : Main}
    (hplace : (f (s.commands c)).place = (s.commands c).place) (hidle : main ≠ .idle)
    (hbody : ∀ d, main = .body d ↔ d = c ∧ (f (s.commands c)).body ≠ .none) :
    Linked ({ s with main }.modify c f) := by
  have hc : s.commands c ≠ {} := fun hc => (h.body c).mp hmain (by rw [hc])
  have hposted := h.mem_posted hc
  refine h.move rfl h.posted (fun _ hd => hd) hposted (fun _ hd => .inr hd) (hplace ▸ h.known c hposted) h.order
    h.ending (fun hi => absurd hi hidle) ?_ ?_ ?_ ?_
  · intro d
    rw [hplace]
    by_cases hd : d = c <;> simp [hd, h.queuePlace]
  · intro d r
    rw [hplace]
    by_cases hd : d = c <;> simp [hd, h.batchPlace]
  · intro d
    rw [hplace]
    by_cases hd : d = c <;> simp [hd, h.endingPlace]
  · intro d
    refine (hbody d).trans ?_
    by_cases hd : d = c
    · simp [hd]
    · simp only [hd, false_and, if_false, hmain, Main.body.injEq, false_iff]
      exact fun hcd => hd hcd.symm

theorem Linked.complete (h : Linked s) (unpark : Bool) : Linked (s.complete unpark) := by
  unfold State.complete
  split
  · rename_i c hmain
    exact h.setBody hmain rfl (by simp) fun d => by simp [Command.complete, Command.push]
  · exact h

theorem Linked.park (h : Linked s) (kind : SlotKind) (detached : Bool) : Linked (s.park kind detached) := by
  unfold State.park
  split
  · rename_i c hmain
    have hne := (h.body c).mp hmain
    refine h.setBody hmain ?_ (by simp [hmain]) fun d => ?_
    · unfold Command.park
      split <;> rfl
    · have hparked : ((s.commands c).park kind detached).body ≠ .none := by
        unfold Command.park
        split
        · simp
        · exact hne
      simp [hparked, hmain, eq_comm]
  · exact h

theorem Linked.leave (h : Linked s) : Linked s.leave := by
  unfold State.leave
  split
  · rename_i c hmain
    split
    · rename_i hbody
      refine h.setBody hmain ?_ (by simp) fun d => ?_
      · simp [Command.leave, hbody]
      · simp [Command.leave, hbody]
    · exact h
  · exact h

theorem Linked.resume (h : Linked s) : Linked s.resume := by
  unfold State.resume
  split
  · rename_i c hmain
    split
    · exact h
    · exact { h with
        idle := fun hi => by cases hi
        body := fun d => by
          have hd := h.body d
          rw [hmain] at hd
          exact iff_of_false (by simp) fun hne => by simpa using hd.mpr hne }
  · exact h

theorem Linked.endNext (h : Linked s) : Linked s.endNext := by
  unfold State.endNext
  split
  · rename_i c ending hshutdown hends
    have hplaced := (h.endingPlace c).mp (hends ▸ List.mem_cons_self)
    have hnodup := h.ending
    rw [hends] at hnodup
    obtain ⟨hrest, hnodup⟩ := List.nodup_cons.mp hnodup
    have hq : c ∉ s.queue := by simp [h.queuePlace, hplaced]
    have hb : ∀ r, (c, r) ∉ s.batch := by simp [h.batchPlace, hplaced]
    have hgone : (s.commands c).endQueued.place = .gone := by
      simp only [Command.endQueued]
      split <;> rfl
    have hbody : (s.commands c).endQueued.body = (s.commands c).body := by
      simp only [Command.endQueued]
      split <;> rfl
    refine h.move rfl h.posted (fun _ hd => hd) (h.mem_posted fun hc => ?_) (fun _ hd => .inr hd) (by simp [hgone])
      h.order hnodup h.idle ?_ ?_ ?_ ?_
    · rw [hc] at hplaced
      cases hplaced
    · intro d
      by_cases hd : d = c <;> simp [hd, hq, hgone]
    · intro d r
      by_cases hd : d = c <;> simp [hd, hb, hgone]
    · intro d
      by_cases hd : d = c
      · simp [hd, hrest, hgone]
      · simp [hd, hends]
    · intro d
      rw [hbody]
      by_cases hd : d = c <;> simp [hd, h.body]
  · exact h

theorem front_le_queue (s : State) (starting settling : Bool) : s.front starting settling <+: s.queue := by
  unfold State.front
  generalize hwaits : (fun c => !waitsAtFront starting settling (s.commands c).method) = waits
  have htake := List.take_prefix kMaxCommandsPerFrame (s.queue.takeWhile waits)
  exact htake.trans <| List.takeWhile_prefix waits

/-- The front of the queue and what stays in it. -/
theorem front_append_drop (s : State) (starting settling : Bool) :
    s.front starting settling ++ s.queue.drop (s.front starting settling).length = s.queue := by
  obtain ⟨rest, hrest⟩ := front_le_queue s starting settling
  generalize s.front starting settling = front at hrest ⊢
  rw [← hrest, List.drop_left]

theorem Linked.dequeue (h : Linked s) (rejects : String → Bool) (starting settling : Bool) :
    Linked (s.dequeue rejects starting settling) := by
  unfold State.dequeue
  split
  · rename_i hmain
    have hsplit := front_append_drop s starting settling
    have hbatch := h.idle hmain
    have hnodup : s.queue.Nodup := by
      have hall := h.batch_nodup
      rwa [hbatch, List.map_nil, List.nil_append] at hall
    have hfront : ∀ c ∈ s.front starting settling, c ∈ s.queue := fun c hc =>
      (front_le_queue s starting settling).subset hc
    generalize s.front starting settling = front at hsplit hfront ⊢
    have hdrop : ∀ c, c ∈ s.queue.drop front.length ↔ c ∈ s.queue ∧ c ∉ front := fun c => by
      generalize s.queue.drop front.length = rest at hsplit
      rw [← hsplit, List.mem_append]
      rw [← hsplit] at hnodup
      have hdisjoint := (List.nodup_append.mp hnodup).2.2
      constructor
      · exact fun hc => ⟨.inr hc, fun hf => hdisjoint c hf c hc rfl⟩
      · rintro ⟨hf | hc, hno⟩
        · exact absurd hf hno
        · exact hc
    exact {
      posted := h.posted
      order := by
        have horder := h.order
        rw [hbatch, List.map_nil, List.nil_append, ← hsplit] at horder
        simpa [Function.comp_def, State.moveAll] using horder
      ending := h.ending
      idle := fun hi => by cases hi
      queuePlace := fun c => by
        refine (hdrop c).trans ?_
        by_cases hc : c ∈ front
        · simp [State.moveAll, hc, Command.take]
        · simp [State.moveAll, hc, h.queuePlace]
      batchPlace := fun c rejected => by
        by_cases hc : c ∈ front
        · simp [State.moveAll, hc, Command.take]
        · have hnone := h.batchPlace c rejected
          rw [hbatch] at hnone
          simpa [State.moveAll, hc] using hnone
      endingPlace := fun c => by
        by_cases hc : c ∈ front
        · have hplaced := (h.queuePlace c).mp (hfront c hc)
          simp [State.moveAll, hc, Command.take, h.endingPlace, hplaced]
        · simp [State.moveAll, hc, h.endingPlace]
      fresh := fun c hno => by
        have hc : c ∉ front := fun hc => by
          have hplaced := (h.queuePlace c).mp (hfront c hc)
          rw [h.fresh c hno] at hplaced
          cases hplaced
        simpa [State.moveAll, hc] using h.fresh c hno
      known := fun c hposted => by
        by_cases hc : c ∈ front
        · simp [State.moveAll, hc, Command.take]
        · simpa [State.moveAll, hc] using h.known c hposted
      body := fun c => by
        have hnone := h.body c
        rw [hmain] at hnone
        by_cases hc : c ∈ front <;> simpa [State.moveAll, hc, Command.take] using hnone }
  · exact h

theorem Linked.swap (h : Linked s) : Linked s.swap := by
  have hqueue : s.queue.Nodup := (List.nodup_append.mp h.batch_nodup).2.1
  exact {
    posted := h.posted
    order := by
      refine List.Sublist.trans ?_ h.order
      simp only [State.swap, State.moveAll, List.append_nil]
      exact (List.sublist_append_left _ _).append_left _
    ending := List.nodup_append.mpr ⟨h.ending, hqueue, by
      rintro c hc d hd rfl
      have hplaced := (h.endingPlace c).mp hc
      rw [(h.queuePlace c).mp hd] at hplaced
      cases hplaced⟩
    idle := h.idle
    queuePlace := fun c => by
      by_cases hc : c ∈ s.queue
      · simp [State.swap, State.moveAll, hc, Command.toEnding]
      · simp [State.swap, State.moveAll, hc, ← h.queuePlace]
    batchPlace := fun c rejected => by
      by_cases hc : c ∈ s.queue
      · have hplaced := (h.queuePlace c).mp hc
        simp [State.swap, State.moveAll, hc, Command.toEnding, h.batchPlace, hplaced]
      · simp [State.swap, State.moveAll, hc, h.batchPlace]
    endingPlace := fun c => by
      by_cases hc : c ∈ s.queue
      · simp [State.swap, State.moveAll, hc, Command.toEnding]
      · simp [State.swap, State.moveAll, hc, h.endingPlace]
    fresh := fun c hno => by
      have hc : c ∉ s.queue := fun hc => by
        have hplaced := (h.queuePlace c).mp hc
        rw [h.fresh c hno] at hplaced
        cases hplaced
      simpa [State.swap, State.moveAll, hc] using h.fresh c hno
    known := fun c hposted => by
      by_cases hc : c ∈ s.queue
      · simp [State.swap, State.moveAll, hc, Command.toEnding]
      · simpa [State.swap, State.moveAll, hc] using h.known c hposted
    body := fun c => by
      by_cases hc : c ∈ s.queue <;> simpa [State.swap, State.moveAll, hc, Command.toEnding] using h.body c }

theorem Linked.next (h : Linked s) (rejects : String → Bool) (act : Act) : Linked (s.next rejects act) := by
  cases act with
  | post c method ready => exact h.post c method ready
  | dequeue starting settling => exact h.dequeue rejects starting settling
  | next => exact h.nextCommand
  | complete unpark => exact h.complete unpark
  | park kind detached => exact h.park kind detached
  | leave => exact h.leave
  | resume => exact h.resume
  | work c => exact h.quiet quiet_work c
  | finish c failed => exact h.quiet (quiet_finish failed) c
  | fulfil c i => exact h.quiet (quiet_fulfil i) c
  | swap => exact h.swap
  | endNext => exact h.endNext
  | endSlot c =>
    simp only [State.next, State.endSlot]
    split
    · have hshutdown : Linked { s with shutdown := some c } := { h with }
      exact hshutdown.quiet quiet_endSlot c
    · exact h
  | endResume =>
    simp only [State.next, State.endResume]
    split
    · split
      · exact h
      · exact { h with }
    · exact h
  | deadline c => exact h.quiet quiet_deadline c
  | giveUp c => exact h.quiet quiet_giveUp c
  | await c => exact h.quiet quiet_await c

/-! ### Each act is a step of the life of a command -/

theorem modify_step {c : Nat} (hf : Command.Step (s.commands c) (f (s.commands c))) (d : Nat) :
    (s.modify c f).commands d = s.commands d ∨ Command.Step (s.commands d) ((s.modify c f).commands d) := by
  by_cases hd : d = c
  · rw [hd, modify_same]
    exact .inr hf
  · exact .inl (modify_other s f hd)

theorem moveAll_step {l : List Nat} (hf : ∀ c ∈ l, Command.Step (s.commands c) (f (s.commands c)))
    (d : Nat) : (s.moveAll l f).commands d = s.commands d ∨
      Command.Step (s.commands d) ((s.moveAll l f).commands d) := by
  by_cases hd : d ∈ l
  · simpa [State.moveAll, hd] using .inr (hf d hd)
  · simp [State.moveAll, hd]

theorem commands_next (h : Linked s) (rejects : String → Bool) (act : Act) (d : Nat) :
    (s.next rejects act).commands d = s.commands d ∨
      Command.Step (s.commands d) ((s.next rejects act).commands d) := by
  cases act with
  | post c method ready =>
    simp only [State.next, State.post]
    split
    · exact .inl rfl
    · rename_i hc
      split
      · exact modify_step (s := { s with posted := _, queue := _ }) (by simpa [h.fresh c hc] using .accept method) d
      · exact modify_step (s := { s with posted := _ }) (by simpa [h.fresh c hc] using .refuse method) d
  | dequeue starting settling =>
    simp only [State.next, State.dequeue]
    split
    · refine moveAll_step (s := { s with main := _, queue := _, batch := _ }) (fun c hc => ?_) d
      exact .take _ ((h.queuePlace c).mp ((front_le_queue s starting settling).subset hc))
    · exact .inl rfl
  | next =>
    simp only [State.next, State.nextCommand]
    split
    · exact .inl rfl
    · rename_i c batch hmain hbatch
      have hplace := (h.batchPlace c true).mp (hbatch ▸ List.mem_cons_self)
      exact modify_step (s := { s with batch := _, main := _ }) (.reject hplace) d
    · rename_i c batch hmain hbatch
      have hplace := (h.batchPlace c false).mp (hbatch ▸ List.mem_cons_self)
      split
      · exact modify_step (s := { s with batch := _, main := _, started := _ }) (.start hplace) d
      · exact modify_step (s := { s with batch := _, main := _ }) (.start hplace) d
    · exact .inl rfl
  | complete unpark =>
    simp only [State.next, State.complete]
    split
    · rename_i c hmain
      exact modify_step (s := { s with main := _ }) (.complete unpark ((h.body c).mp hmain)) d
    · exact .inl rfl
  | park kind detached =>
    simp only [State.next, State.park]
    split
    · exact modify_step (.park _ kind detached) d
    · exact .inl rfl
  | leave =>
    simp only [State.next, State.leave]
    split
    · split
      · exact modify_step (s := { s with main := _ }) (.leave _) d
      · exact .inl rfl
    · exact .inl rfl
  | resume =>
    simp only [State.next, State.resume]
    split
    · split <;> exact .inl rfl
    · exact .inl rfl
  | work c => exact modify_step (.work _) d
  | finish c failed => exact modify_step (.finish _ failed) d
  | fulfil c i => exact modify_step (.fulfil _ i) d
  | swap =>
    exact moveAll_step (s := { s with queue := _, ending := _ }) (fun c hc => .toEnding ((h.queuePlace c).mp hc)) d
  | endNext =>
    simp only [State.next, State.endNext]
    split
    · rename_i c ending hshutdown hends
      have hplace := (h.endingPlace c).mp (hends ▸ List.mem_cons_self)
      exact modify_step (s := { s with ending := _, shutdown := _ }) (.endQueued hplace) d
    · exact .inl rfl
  | endSlot c =>
    simp only [State.next, State.endSlot]
    split
    · exact modify_step (s := { s with shutdown := _ }) (.endSlot _) d
    · exact .inl rfl
  | endResume =>
    simp only [State.next, State.endResume]
    split
    · split <;> exact .inl rfl
    · exact .inl rfl
  | deadline c => exact modify_step (.deadline _) d
  | giveUp c => exact modify_step (.giveUp _) d
  | await c => exact modify_step (.await _) d

end Linked

end Didi.Engine
