import Didi.Lib.Run
import Didi.Recovery.Managed

/-!
# An unsettled edit blocks the next one

* `Call` : one operation of the supervisor, or what happens to its editor between two of them;
* `Supervised` : the supervisor, with the session that ran the edit not settled so far;
* `Settles` : the edit was reported not started, or a checkpoint made after it is in a published receipt;
* `OnDisk`, `Sound` : while an edit is unsettled the published receipt says so, no other is admitted, and only what
  settles it clears the flag, an accepting checkpoint not before the editor that ran it has stopped;
* `blocks_of_meets` : so it is in every run whose restores publish what they clear, and in which the launched process
  ends after the editor it runs.
-/

namespace Didi.Recovery

inductive Call
  | start (o : StartOutcome)
  | ensureEditor (o : EnsureOutcome)
  | beforeMutation (tool : String) (scenePath : Option String) (o : BeforeOutcome)
  -- the call of the tool itself
  | dispatch
  | afterMutation (tool : String) (scenePath : Option String) (failed notStarted : Bool) (o : AfterOutcome)
  | checkpoint (accept : Bool) (saved : Except Error String) (written : Except String Unit)
  | restore (id : String) (o : RestoreOutcome)
  -- the launched process ends, or can be told about no longer; an editor process ends
  | childEnds (code : Int)
  | childLost
  | editorEnds (session : String)

def Managed.call (m : Managed) : Call → Managed × Except Error Unit
  | .start o => m.start o
  | .ensureEditor o => m.ensureEditor o
  | .beforeMutation tool scenePath o => m.beforeMutation tool scenePath o
  | .dispatch => (m, .ok ())
  | .afterMutation tool scenePath failed notStarted o =>
    ((m.afterMutation tool scenePath failed notStarted o).1, .ok ())
  | .checkpoint accept saved written => m.checkpoint accept saved written
  | .restore id o => m.restore id o
  | .childEnds code => (if m.child = .running then { m with child := .exited code } else m, .ok ())
  | .childLost => (if m.child = .running then { m with child := .unverified } else m, .ok ())
  | .editorEnds session => ({ m with living := m.living.filter (· ≠ session) }, .ok ())

def Event.isPublished : Event → Bool
  | .published _ => true
  | .checkpointed _ => false

/-- A checkpoint was made, and a receipt published after it. -/
def checkpointPublished : List Event → Bool
  | [] => false
  | .checkpointed _ :: rest => rest.any Event.isPublished
  | .published _ :: rest => checkpointPublished rest

/-- The operation settles an edit: it is told that the edit did not start, or makes a checkpoint after it. -/
def Settles (c : Call) (events : List Event) : Bool :=
  match c with
  | .afterMutation _ _ true notStarted _ => notStarted && events.any Event.isPublished
  | .afterMutation _ _ false _ _ => checkpointPublished events
  | .checkpoint accept _ _ => accept && checkpointPublished events
  | .restore _ _ => checkpointPublished events
  | _ => false

structure Supervised where
  managed : Managed := {}
  -- the editor session that ran the edit
  unsettled : Option String := none

def Supervised.step (w : Supervised) (c : Call) : Except Error Unit × Supervised :=
  let (m, result) := { w.managed with events := [] }.call c
  let unsettled :=
    match c, result with
    | .beforeMutation _ _ _, .ok _ => some m.attachedSession
    | _, _ => if Settles c m.events then none else w.unsettled
  (result, { managed := m, unsettled })

/-- The session's process has ended, and of the session attached now the launched process is known to have. -/
def KnownStopped (m : Managed) (session : String) : Prop :=
  session ∉ m.living ∧ (session = m.attachedSession → m.child.exitCode.isSome = true)

/-- While an edit is unsettled, so does the last published receipt say. -/
def OnDisk (w : Supervised) : Prop :=
  w.unsettled.isSome = true → ∃ r, w.managed.published = some r ∧ r.requiresReconciliation = true

/-- What a step does about an unsettled edit. -/
structure Sound (w : Supervised) (c : Call) : Prop where
  admitted : ∀ tool scenePath o, c = .beforeMutation tool scenePath o → (w.step c).1.isOk = true →
    w.managed.needsReconciliation = false ∧ w.unsettled = none
  clears : w.managed.needsReconciliation = true → (w.step c).2.managed.needsReconciliation = false →
    Settles c (w.step c).2.managed.events = true
  accepts : ∀ saved written, c = .checkpoint true saved written → w.managed.needsReconciliation = true →
    (w.step c).2.managed.needsReconciliation = false →
    ∀ session, w.unsettled = some session → KnownStopped w.managed session

/-- The restore gets as far as clearing the flag. -/
def RestoreOutcome.Clears (m : Managed) (o : RestoreOutcome) : Prop :=
  o.nonce.isOk ∧ o.staged.isOk ∧ o.written.isOk ∧ (m.stop o.stopped).child.exitCode.isSome ∧ o.replaced.isOk ∧
  o.saved.isOk

/-- A restore that clears the flag publishes the receipt of its launch. -/
def RestorePublishes (w : Supervised) (c : Call) : Prop :=
  match c with
  | .restore _ o => o.Clears w.managed → o.launchWritten.isOk
  | _ => True

/-- The launched process does not end before the editor of the session attached under it. -/
def EditorEndsFirst (w : Supervised) (c : Call) : Prop :=
  match c with
  | .childEnds _ => w.managed.child = .running → w.managed.attachedSession ∉ w.managed.living
  | _ => True

def Meets (w : Supervised) (c : Call) : Prop := RestorePublishes w c ∧ EditorEndsFirst w c

/-! ## What a launch leaves -/

namespace Managed
variable {m m₁ m₂ m' : Managed}

/-- Nothing changes of the attached editor, or, where no child was running, another is launched. -/
inductive Editor (m m' : Managed) : Prop
  | same (hchild : m'.child = m.child) (hattached : m'.attachedSession = m.attachedSession)
      (hliving : m'.living = m.living)
  | launched (hidle : m.child.isRunning = false) (hchild : m'.child = .running)
      (hattached : m'.attachedSession = m.attachedSession) (hliving : m'.living = m.living)
  | attached (hidle : m.child.isRunning = false) (hchild : m'.child = .running)
      (hliving : m'.living = m'.attachedSession :: m.living)

/-- The flag and the operation are what they were, and what is published since says so. -/
structure Kept (m m' : Managed) : Prop where
  flag : m'.needsReconciliation = m.needsReconciliation
  operation : m'.operation = m.operation
  published : m'.published = m.published ∨
    ∃ r, m'.published = some r ∧ r.requiresReconciliation = m.needsReconciliation
  editor : Editor m m'

theorem Kept.refl (m : Managed) : Kept m m := ⟨rfl, rfl, Or.inl rfl, .same rfl rfl rfl⟩

theorem Editor.congr (h : Editor m m₁) (hchild : m₂.child = m₁.child)
    (hattached : m₂.attachedSession = m₁.attachedSession) (hliving : m₂.living = m₁.living) : Editor m m₂ := by
  cases h with
  | same hc ha hl => exact .same (hchild.trans hc) (hattached.trans ha) (hliving.trans hl)
  | launched hidle hc ha hl => exact .launched hidle (hchild.trans hc) (hattached.trans ha) (hliving.trans hl)
  | attached hidle hc hl => exact .attached hidle (hchild.trans hc) (by rw [hliving, hattached, hl])

theorem Editor.base (h : Editor m₁ m₂) (hchild : m₁.child = m.child)
    (hattached : m₁.attachedSession = m.attachedSession) (hliving : m₁.living = m.living) : Editor m m₂ := by
  cases h with
  | same hc ha hl => exact .same (hc.trans hchild) (ha.trans hattached) (hl.trans hliving)
  | launched hidle hc ha hl => exact .launched (hchild ▸ hidle) hc (ha.trans hattached) (hl.trans hliving)
  | attached hidle hc hl => exact .attached (hchild ▸ hidle) hc (hliving ▸ hl)

theorem Kept.journal (h : Kept m m₁) (written : Except String Unit) : Kept m (m₁.journal written).1 := by
  cases written with
  | error what => exact h
  | ok _ => exact ⟨h.flag, h.operation, Or.inr ⟨_, rfl, h.flag⟩, h.editor.congr rfl rfl rfl⟩

theorem Kept.snapshot (h : Kept m m₁) (saved : Except Error String) : Kept m (m₁.snapshot saved) := by
  cases saved with
  | error _ => exact h
  | ok _ => exact ⟨h.flag, h.operation, h.published, h.editor.congr rfl rfl rfl⟩

/-- What is done before a launch changes nothing of the editor. -/
theorem Kept.trans (h : Kept m m₁) (hchild : m₁.child = m.child) (hattached : m₁.attachedSession = m.attachedSession)
    (hliving : m₁.living = m.living) (h' : Kept m₁ m₂) : Kept m m₂ where
  flag := h'.flag.trans h.flag
  operation := h'.operation.trans h.operation
  published := by
    rcases h'.published with heq | ⟨r, hr, hflag⟩
    · rw [heq]
      exact h.published
    · exact Or.inr ⟨r, hr, hflag.trans h.flag⟩
  editor := h'.editor.base hchild hattached hliving

/-- Every path of a launch ends in one publication. -/
theorem launchAndAttach_eq (m : Managed) (launch : LaunchOutcome) (written : Except String Unit) :
    ∃ x, Kept m x ∧ (∃ l, x.events = m.events ++ l) ∧ (m.launchAndAttach launch written).1 = (x.journal written).1 := by
  have hnil : ∃ l, m.events = m.events ++ l := ⟨[], (List.append_nil _).symm⟩
  cases hidle : m.child.isRunning with
  | true =>
    refine ⟨{ m with launchCount := m.launchCount + 1, state := .launchFailed },
      ⟨rfl, rfl, Or.inl rfl, .same rfl rfl rfl⟩, hnil, ?_⟩
    simp [launchAndAttach, childStarts, hidle]
  | false =>
    cases launch with
    | startFails error =>
      refine ⟨{ m with launchCount := m.launchCount + 1, state := .launchFailed },
        ⟨rfl, rfl, Or.inl rfl, .same rfl rfl rfl⟩, hnil, ?_⟩
      simp [launchAndAttach, childStarts, hidle]
    | identityFails error =>
      refine ⟨{ m with launchCount := m.launchCount + 1, state := .identityUnavailable, child := .running },
        ⟨rfl, rfl, Or.inl rfl, .launched hidle rfl rfl rfl⟩, hnil, ?_⟩
      simp [launchAndAttach, childStarts, hidle]
    | attachFails error =>
      refine ⟨{ m with launchCount := m.launchCount + 1, state := .attachFailed, child := .running },
        ⟨rfl, rfl, Or.inl rfl, .launched hidle rfl rfl rfl⟩, hnil, ?_⟩
      simp [launchAndAttach, childStarts, hidle]
    | readinessFails session pid error =>
      let launched : Managed := { m with launchCount := m.launchCount + 1 }
      refine ⟨{ launched.attach session pid with state := .readinessFailed },
        ⟨rfl, rfl, Or.inl rfl, .attached hidle rfl rfl⟩, hnil, ?_⟩
      simp [launchAndAttach, childStarts, hidle, launched]
    | settles session pid point reopened =>
      let launched : Managed := { m with launchCount := m.launchCount + 1 }
      let ready : Managed := { (launched.attach session pid).snapshot (.ok point) with state := .ready }
      have hready : Kept m ready := ⟨rfl, rfl, Or.inl rfl, .attached hidle rfl rfl⟩
      have hlast : (m.launchAndAttach (.settles session pid point reopened) written).1 = (ready.journal written).1 ∨
          (m.launchAndAttach (.settles session pid point reopened) written).1 =
            (({ ready with state := .sceneReopenFailed } : Managed).journal written).1 := by
        cases reopened with
        | ok _ =>
          left
          simp [launchAndAttach, childStarts, hidle, ready, launched]
        | error error =>
          cases hscene : m.lastScene.isEmpty with
          | true =>
            left
            simp [launchAndAttach, childStarts, hidle, ready, launched, attach, snapshot, hscene]
          | false =>
            right
            simp [launchAndAttach, childStarts, hidle, ready, launched, attach, snapshot, hscene]
      rcases hlast with hlast | hlast
      · exact ⟨ready, hready, ⟨_, rfl⟩, hlast⟩
      · exact ⟨{ ready with state := .sceneReopenFailed }, ⟨rfl, rfl, Or.inl rfl, .attached hidle rfl rfl⟩, ⟨_, rfl⟩,
          hlast⟩

theorem launchAndAttach_kept (m : Managed) (launch : LaunchOutcome) (written : Except String Unit) :
    Kept m (m.launchAndAttach launch written).1 := by
  obtain ⟨x, hx, -, heq⟩ := launchAndAttach_eq m launch written
  rw [heq]
  exact hx.journal written

theorem start_kept (m : Managed) (o : StartOutcome) : Kept m (m.start o).1 := by
  rw [start]
  split_ifs
  · exact .refl m
  · cases o.baseline with
    | error error => exact .refl m
    | ok id =>
      have hsaved : Kept m (m.snapshot (.ok id)) := (Kept.refl m).snapshot _
      cases hw : o.written with
      | error what => exact hsaved
      | ok _ =>
        have hpublished := hsaved.journal (.ok ())
        exact hpublished.trans rfl rfl rfl (launchAndAttach_kept _ _ _)

theorem state_kept (m : Managed) (state : ManagedState) : Kept m { m with state } :=
  ⟨rfl, rfl, Or.inl rfl, .same rfl rfl rfl⟩

theorem ensureEditor_kept (m : Managed) (o : EnsureOutcome) : Kept m (m.ensureEditor o).1 := by
  rw [ensureEditor]
  split_ifs with hfailed hrunning hready hactive hstopped hused hexit
  · exact .refl m
  · exact .refl m
  · exact .refl m
  · exact .refl m
  · exact (state_kept m .restartLimitReached).journal _
  · exact (state_kept m .editorClosed).journal _
  · exact .refl m
  · have hrestarting : Kept m { m with restartUsed := true, state := .restarting } :=
      ⟨rfl, rfl, Or.inl rfl, .same rfl rfl rfl⟩
    cases hw : o.written with
    | error what => exact hrestarting
    | ok _ =>
      have hpublished := hrestarting.journal (.ok ())
      exact hpublished.trans rfl rfl rfl (launchAndAttach_kept _ _ _)

/-- What an admitted mutation leaves: its operation, under the session attached now, and the flag; if its receipt is
published, that says so. -/
structure Begun (m m' : Managed) (ok : Bool) : Prop where
  flag : m'.needsReconciliation = true
  operation : ∃ operation, m'.operation = some operation ∧ operation.editorSession = some m'.attachedSession
  published : ok = true → ∃ r, m'.published = some r ∧ r.requiresReconciliation = true
  editor : Editor m m'

/-- A mutation that is not admitted leaves what is required as it is; one that is starts from a settled supervisor. -/
theorem beforeMutation_cases (m : Managed) (tool : String) (scenePath : Option String) (o : BeforeOutcome) :
    (Kept m (m.beforeMutation tool scenePath o).1 ∧ (m.beforeMutation tool scenePath o).2.isOk = false) ∨
    (m.needsReconciliation = false ∧
      Begun m (m.beforeMutation tool scenePath o).1 (m.beforeMutation tool scenePath o).2.isOk) := by
  rw [beforeMutation]
  by_cases hneeds : m.needsReconciliation = true
  · rw [if_pos hneeds]
    exact Or.inl ⟨.refl m, rfl⟩
  · rw [if_neg hneeds]
    have hkept := ensureEditor_kept m o.ensure
    rcases hensure : m.ensureEditor o.ensure with ⟨m₁, error | _⟩
    · rw [hensure] at hkept
      exact Or.inl ⟨hkept, rfl⟩
    · rw [hensure] at hkept
      simp only
      split_ifs with hmissing
      · exact Or.inl ⟨hkept, rfl⟩
      · cases o.saved with
        | error error => exact Or.inl ⟨hkept, rfl⟩
        | ok before =>
          have hsaved : Kept m (m₁.snapshot (.ok before)) := hkept.snapshot _
          cases o.id with
          | error error => exact Or.inl ⟨hsaved, rfl⟩
          | ok id =>
            refine Or.inr ⟨by simpa using hneeds, ?_⟩
            cases o.written with
            | error what => exact ⟨rfl, ⟨_, rfl, rfl⟩, nofun, hsaved.editor.congr rfl rfl rfl⟩
            | ok _ => exact ⟨rfl, ⟨_, rfl, rfl⟩, fun _ => ⟨_, rfl, rfl⟩, hsaved.editor.congr rfl rfl rfl⟩

/-! ## What settles an edit -/

/-- What an operation that may settle the edit leaves: it names no other session, clears the flag only where it settles,
and publishes nothing else otherwise. -/
structure Settling (m m' : Managed) (settles : Bool) : Prop where
  session : ∀ operation session, m'.operation = some operation → operation.editorSession = some session →
    ∃ operation₀, m.operation = some operation₀ ∧ operation₀.editorSession = some session
  clears : m.needsReconciliation = true → m'.needsReconciliation = false → settles = true
  published : m.needsReconciliation = true → settles = false → m'.published = m.published ∨
    ∃ r, m'.published = some r ∧ r.requiresReconciliation = true

/-- The operation with another outcome names the same session. -/
theorem names_withOutcome (outcome : OperationOutcome) {changed : Operation} (hm' : m'.operation = some changed)
    (hchanged : changed.editorSession = (withOutcome m.operation outcome).editorSession)
    (operation : Operation) (session : String) (h : m'.operation = some operation)
    (hsession : operation.editorSession = some session) :
    ∃ operation₀, m.operation = some operation₀ ∧ operation₀.editorSession = some session := by
  obtain rfl := Option.some.inj (hm'.symm.trans h)
  rw [hchanged] at hsession
  cases hm : m.operation with
  | none =>
    rw [hm] at hsession
    cases hsession
  | some operation₀ =>
    rw [hm] at hsession
    exact ⟨operation₀, rfl, hsession⟩

theorem Kept.settling (h : Kept m m') (settles : Bool) : Settling m m' settles where
  session operation _ hm' hsession := ⟨operation, h.operation ▸ hm', hsession⟩
  clears hflag hflag' := Bool.noConfusion ((h.flag.trans hflag).symm.trans hflag')
  published hflag _ := h.published.imp_right fun ⟨r, hr, heq⟩ => ⟨r, hr, heq.trans hflag⟩

variable (m)

theorem afterFailure_settling (notStarted : Bool) (written : Except String Unit) :
    Editor m (m.afterFailure notStarted written).1 ∧ Settling m (m.afterFailure notStarted written).1
      (notStarted && (m.afterFailure notStarted written).1.events.any Event.isPublished) := by
  cases written with
  | error what => exact ⟨.same rfl rfl rfl, names_withOutcome _ rfl rfl, nofun, fun _ _ => Or.inl rfl⟩
  | ok _ =>
    refine ⟨.same rfl rfl rfl, names_withOutcome _ rfl rfl, fun _ hflag => ?_, fun _ hsettles => Or.inr ⟨_, rfl, ?_⟩⟩
    · have hnot : (!notStarted) = false := hflag
      simpa [afterFailure, journal, Event.isPublished] using hnot
    · show (!notStarted) = true
      simpa [afterFailure, journal, Event.isPublished] using hsettles

theorem applied_settling (outcome : OperationOutcome) (error : Error) (written : Except String Unit)
    (whatFailed : String) (settles : Bool) :
    Editor m (m.applied outcome error written whatFailed).1 ∧
    Settling m (m.applied outcome error written whatFailed).1 settles := by
  cases written with
  | error what =>
    exact ⟨.same rfl rfl rfl, names_withOutcome _ rfl rfl, fun h h' => Bool.noConfusion (h.symm.trans h'),
      fun _ _ => Or.inl rfl⟩
  | ok _ =>
    exact ⟨.same rfl rfl rfl, names_withOutcome _ rfl rfl, fun h h' => Bool.noConfusion (h.symm.trans h'),
      fun h _ => Or.inr ⟨_, rfl, h⟩⟩

theorem afterChange_settling (tool : String) (scenePath : Option String) (o : AfterOutcome) (hevents : m.events = []) :
    Editor m (m.afterChange tool scenePath o).1 ∧ Settling m (m.afterChange tool scenePath o).1
      (checkpointPublished (m.afterChange tool scenePath o).1.events) := by
  have happlied : ∀ outcome error whatFailed settles,
      Editor m ((m.noteChange tool scenePath).applied outcome error o.written whatFailed).1 ∧
      Settling m ((m.noteChange tool scenePath).applied outcome error o.written whatFailed).1 settles := by
    intro outcome error whatFailed settles
    obtain ⟨heditor, hsettling⟩ :=
      applied_settling (m.noteChange tool scenePath) outcome error o.written whatFailed settles
    exact ⟨heditor.base rfl rfl rfl, hsettling.session, hsettling.clears, hsettling.published⟩
  unfold afterChange
  split
  · exact happlied _ _ _ _
  · cases hsaved : o.saved with
    | error error => exact happlied _ _ _ _
    | ok after =>
      cases o.written with
      | error what =>
        exact ⟨.same rfl rfl rfl, names_withOutcome .completedSavedFilesCheckpointed rfl rfl, nofun,
          fun _ _ => Or.inl rfl⟩
      | ok _ =>
        have hsettles : ∀ r, checkpointPublished ((m.events ++ [.checkpointed after]) ++ [.published r]) = true := by
          rw [hevents]
          exact fun _ => rfl
        exact ⟨.same rfl rfl rfl, names_withOutcome .completedSavedFilesCheckpointed rfl rfl,
          fun _ _ => hsettles _, fun _ h => Bool.noConfusion (h.symm.trans (hsettles _))⟩

theorem afterMutation_settling (tool : String) (scenePath : Option String) (failed notStarted : Bool) (o : AfterOutcome)
    (hevents : m.events = []) :
    Editor m (m.afterMutation tool scenePath failed notStarted o).1 ∧
    Settling m (m.afterMutation tool scenePath failed notStarted o).1
      (Settles (.afterMutation tool scenePath failed notStarted o)
        (m.afterMutation tool scenePath failed notStarted o).1.events) := by
  cases failed with
  | true => exact afterFailure_settling m notStarted o.written
  | false => exact afterChange_settling m tool scenePath o hevents

theorem checkpoint_settling (accept : Bool) (saved : Except Error String) (written : Except String Unit)
    (hevents : m.events = []) :
    Editor m (m.checkpoint accept saved written).1 ∧ Settling m (m.checkpoint accept saved written).1
      (Settles (.checkpoint accept saved written) (m.checkpoint accept saved written).1.events) := by
  have hrefl : ∀ settles, Editor m m ∧ Settling m m settles := fun settles =>
    ⟨.same rfl rfl rfl, (Kept.refl m).settling settles⟩
  unfold checkpoint
  by_cases hneeds : m.needsReconciliation = true ∧ (!accept) = true
  · rw [if_pos hneeds]
    exact hrefl _
  · rw [if_neg hneeds]
    split_ifs with hcurrent
    · exact hrefl _
    · cases saved with
      | error error => exact hrefl _
      | ok id =>
        have hnames : ∀ operation session, m.operation.map (fun operation => withOutcome (some operation)
            .currentSavedFilesAccepted) = some operation → operation.editorSession = some session →
            ∃ operation₀, m.operation = some operation₀ ∧ operation₀.editorSession = some session := by
          intro operation session h hsession
          obtain ⟨operation₀, hm, rfl⟩ := Option.map_eq_some_iff.mp h
          exact ⟨operation₀, hm, hsession⟩
        cases written with
        | error what => exact ⟨.same rfl rfl rfl, hnames, nofun, fun _ _ => Or.inl rfl⟩
        | ok _ =>
          have hsettles : ∀ r, m.needsReconciliation = true → Settles (.checkpoint accept (.ok id) (.ok ()))
              ((m.events ++ [.checkpointed id]) ++ [.published r]) = true := by
            intro r h
            have haccept : accept = true := by simpa [h] using hneeds
            rw [hevents, haccept]
            rfl
          exact ⟨.same rfl rfl rfl, hnames, fun h _ => hsettles _ h,
            fun h h' => Bool.noConfusion (h'.symm.trans (hsettles _ h))⟩

/-- Stopping the child depends on nothing else. -/
theorem stop_congr (m m₁ : Managed) (hchild : m₁.child = m.child) (hattached : m₁.attachedSession = m.attachedSession)
    (hliving : m₁.living = m.living) (stopped : StopOutcome) :
    (m₁.stop stopped).child = (m.stop stopped).child ∧
    (m₁.stop stopped).attachedSession = (m.stop stopped).attachedSession ∧
    (m₁.stop stopped).living = (m.stop stopped).living := by
  unfold stop
  rw [hchild]
  split_ifs
  · cases stopped with
    | exits code => exact ⟨rfl, hattached, rfl⟩
    | survives => exact ⟨hchild, hattached, hliving⟩
    | lost => exact ⟨rfl, hattached, hliving⟩
  · exact ⟨hchild, hattached, hliving⟩

theorem any_isPublished_append {l l' : List Event} (h : l'.any Event.isPublished = true) :
    (l ++ l').any Event.isPublished = true := by
  rw [List.any_append, h, Bool.or_true]

/-- A launch whose receipt is published, after a checkpoint. -/
theorem launchAndAttach_publishes {id : String} {l : List Event} (hevents : m.events = l ++ [.checkpointed id])
    (hl : ∀ e ∈ l, e.isPublished = true) (launch : LaunchOutcome) :
    checkpointPublished (m.launchAndAttach launch (.ok ())).1.events = true := by
  obtain ⟨x, -, ⟨l', hx⟩, heq⟩ := launchAndAttach_eq m launch (.ok ())
  have hall : (m.launchAndAttach launch (.ok ())).1.events =
      l ++ .checkpointed id :: (l' ++ [.published x.receipt]) := by
    rw [heq]
    show x.events ++ _ = _
    rw [hx, hevents]
    simp
  rw [hall]
  clear hall heq hx hevents
  induction l with
  | nil => exact any_isPublished_append rfl
  | cons e l ih =>
    cases e with
    | checkpointed id' => exact Bool.noConfusion (hl _ List.mem_cons_self)
    | published r => exact ih fun e he => hl e (List.mem_cons_of_mem _ he)

theorem restored_settling (id nonce : String) (settles : Bool) :
    Editor m (m.restored id nonce) ∧ Settling m (m.restored id nonce) settles := by
  refine ⟨.same rfl rfl rfl, ?_, fun h h' => Bool.noConfusion (h.symm.trans h'), fun _ _ => Or.inl rfl⟩
  intro operation session h hsession
  obtain rfl := Option.some.inj h
  cases hsession

/-- Once the editor has stopped: the flag goes only with a published receipt. -/
theorem replaceWorkspace_settling (id nonce : String) (o : RestoreOutcome) {r : Receipt}
    (hevents : m.events = [.published r]) (hclears : o.replaced.isOk → o.saved.isOk → o.launchWritten.isOk) :
    Editor m (m.replaceWorkspace id nonce o).1 ∧
    Settling m (m.replaceWorkspace id nonce o).1 (checkpointPublished (m.replaceWorkspace id nonce o).1.events) := by
  unfold replaceWorkspace
  rcases hreplaced : o.replaced with what | _
  · have hkept := (state_kept m .restoreFailed).journal o.failureWritten
    exact ⟨hkept.editor, hkept.settling _⟩
  · rcases hsaved : o.saved with error | point
    · exact restored_settling m id nonce _
    · have hwritten := hclears (by rw [hreplaced]; rfl) (by rw [hsaved]; rfl)
      rcases hw : o.launchWritten with what | _
      · rw [hw] at hwritten
        cases hwritten
      · let cleared : Managed := { (m.restored id nonce).snapshot (.ok point) with needsReconciliation := false }
        have hlaunch := launchAndAttach_kept cleared o.launch (.ok ())
        have hsettles : checkpointPublished (cleared.launchAndAttach o.launch (.ok ())).1.events = true := by
          apply launchAndAttach_publishes cleared (l := [.published r])
          · show m.events ++ _ = _
            rw [hevents]
          · simp [Event.isPublished]
        refine ⟨hlaunch.editor.base rfl rfl rfl, ?_, fun _ _ => hsettles,
          fun _ h => Bool.noConfusion (h.symm.trans hsettles)⟩
        intro operation session h hsession
        exact (restored_settling m id nonce true).2.session operation session (hlaunch.operation.symm.trans h) hsession

/-- The receipt of a restore that began is published, and says what is required. -/
structure Prepared (m : Managed) : Prop where
  flag : m.needsReconciliation = true
  session : ∀ operation session, m.operation = some operation → operation.editorSession ≠ some session
  published : ∃ r, m.published = some r ∧ r.requiresReconciliation = true
  events : ∃ r, m.events = [.published r]

theorem prepared_journal (id nonce : String) (hevents : m.events = []) :
    Prepared ((m.prepareRestore id nonce).journal (.ok ())).1 where
  flag := rfl
  session operation session h hsession := by
    obtain rfl := Option.some.inj h
    cases hsession
  published := ⟨_, rfl, rfl⟩
  events := ⟨_, by
    show m.events ++ _ = _
    rw [hevents]
    rfl⟩

variable {m}

theorem Prepared.stop (h : Prepared m) (stopped : StopOutcome) : Prepared (m.stop stopped) := by
  unfold Managed.stop
  split_ifs
  · cases stopped with
    | exits code => exact ⟨h.flag, h.session, h.published, h.events⟩
    | survives => exact h
    | lost => exact ⟨h.flag, h.session, h.published, h.events⟩
  · exact h

theorem Prepared.settling (h : Prepared m₁) {settles : Bool} (hsettling : Settling m₁ m' settles) :
    Settling m m' settles where
  session operation session hm' hsession := by
    obtain ⟨operation₀, h₀, hsession₀⟩ := hsettling.session operation session hm' hsession
    exact absurd hsession₀ (h.session operation₀ session h₀)
  clears _ := hsettling.clears h.flag
  published _ hnot := by
    rcases hsettling.published h.flag hnot with hsame | htrue
    · rw [hsame]
      exact Or.inr h.published
    · exact Or.inr htrue

theorem replaceStopped_settling (h : Prepared m) (id nonce : String) (o : RestoreOutcome)
    (hclears : m.child.exitCode.isSome → o.replaced.isOk → o.saved.isOk → o.launchWritten.isOk) :
    Editor m (m.replaceStopped id nonce o).1 ∧
    Settling m (m.replaceStopped id nonce o).1 (checkpointPublished (m.replaceStopped id nonce o).1.events) := by
  unfold replaceStopped
  split_ifs with hrunning
  · have hkept := (state_kept m .restoreFailed).journal o.failureWritten
    exact ⟨hkept.editor, hkept.settling _⟩
  · obtain ⟨r, hevents⟩ := h.events
    have hexit : m.child.exitCode.isSome := Option.isSome_iff_ne_none.mpr fun h => hrunning (Or.inr h)
    exact replaceWorkspace_settling m id nonce o hevents (hclears hexit)

/-- A restore clears the flag only with a published receipt, where the launch it ends in publishes one. -/
theorem restore_settling (id : String) (o : RestoreOutcome) (hevents : m.events = [])
    (hclears : o.Clears m → o.launchWritten.isOk) :
    (Editor m (m.restore id o).1 ∨ Editor (m.stop o.stopped) (m.restore id o).1) ∧
    Settling m (m.restore id o).1 (checkpointPublished (m.restore id o).1.events) := by
  unfold restore
  rcases hnonce : o.nonce with error | nonce
  · exact ⟨Or.inl (.same rfl rfl rfl), (Kept.refl m).settling _⟩
  rcases hstaged : o.staged with error | staged
  · exact ⟨Or.inl (.same rfl rfl rfl), (Kept.refl m).settling _⟩
  rcases hwritten : o.written with what | _
  · refine ⟨Or.inl (.same rfl rfl rfl), ?_, nofun, fun _ _ => Or.inl rfl⟩
    intro operation session h hsession
    obtain rfl := Option.some.inj h
    cases hsession
  let published : Managed := ((m.prepareRestore id nonce).journal (.ok ())).1
  obtain ⟨hchild, hattached, hliving⟩ := stop_congr m published rfl rfl rfl o.stopped
  have hprepared : Prepared (published.stop o.stopped) := (prepared_journal m id nonce hevents).stop o.stopped
  have hclears : (published.stop o.stopped).child.exitCode.isSome → o.replaced.isOk → o.saved.isOk →
      o.launchWritten.isOk := by
    intro hexit hreplaced hsaved
    refine hclears ⟨?_, ?_, ?_, ?_, hreplaced, hsaved⟩
    · rw [hnonce]
      rfl
    · rw [hstaged]
      rfl
    · rw [hwritten]
      rfl
    · rw [← hchild]
      exact hexit
  obtain ⟨heditor, hsettling⟩ := replaceStopped_settling hprepared id nonce o hclears
  exact ⟨Or.inr (heditor.base hchild hattached hliving), hprepared.settling hsettling⟩

/-! ## The editor that ran an edit -/

/-- Another editor is attached only after the one that ran the edit has ended. -/
structure Traced (m : Managed) (unsettled : Option String) : Prop where
  moved : ∀ session, unsettled = some session → session ≠ m.attachedSession → session ∉ m.living
  ended : m.child.exitCode.isSome = true → m.attachedSession ∉ m.living
  idle : m.child = .idle → m.living = []

variable {unsettled : Option String}

theorem Traced.editor (h : Traced m unsettled) (heditor : Editor m m') : Traced m' unsettled := by
  cases heditor with
  | same hchild hattached hliving =>
    exact ⟨hattached ▸ hliving ▸ h.moved, hchild ▸ hattached ▸ hliving ▸ h.ended, hchild ▸ hliving ▸ h.idle⟩
  | launched hidle hchild hattached hliving =>
    refine ⟨hattached ▸ hliving ▸ h.moved, ?_, ?_⟩
    · rw [hchild]
      nofun
    · rw [hchild]
      nofun
  | attached hidle hchild hliving =>
    refine ⟨?_, ?_, ?_⟩
    · intro session hsession hne
      rw [hliving, List.mem_cons, not_or]
      refine ⟨hne, ?_⟩
      by_cases hold : session = m.attachedSession
      · rw [hold]
        cases hchild : m.child with
        | idle =>
          rw [h.idle hchild]
          exact List.not_mem_nil
        | exited code => exact h.ended (by rw [hchild]; rfl)
        | running =>
          rw [hchild] at hidle
          cases hidle
        | unverified =>
          rw [hchild] at hidle
          cases hidle
      · exact h.moved session hsession hold
    · rw [hchild]
      nofun
    · rw [hchild]
      nofun

theorem Traced.stop (h : Traced m unsettled) (stopped : StopOutcome) : Traced (m.stop stopped) unsettled := by
  unfold Managed.stop
  split_ifs
  · cases stopped with
    | exits code => exact ⟨fun _ _ _ => List.not_mem_nil, fun _ => List.not_mem_nil, nofun⟩
    | survives => exact h
    | lost => exact ⟨h.moved, nofun, nofun⟩
  · exact h

/-- An accepting checkpoint that clears the flag has the edit of another session, or a child that is known to have
stopped. -/
theorem checkpoint_accepts {saved : Except Error String} {written : Except String Unit}
    (hflag : m.needsReconciliation = true)
    (hcleared : (m.checkpoint true saved written).1.needsReconciliation = false) :
    m.child.exitCode.isSome = true ∨
    ∃ operation session, m.operation = some operation ∧ operation.editorSession = some session ∧
      session ≠ m.attachedSession := by
  unfold checkpoint at hcleared
  rw [if_neg (by simp)] at hcleared
  split_ifs at hcleared with hcurrent
  · exact Bool.noConfusion (hflag.symm.trans hcleared)
  · by_cases hsame : m.uncertainEditorIsCurrent = true
    · left
      rw [Option.isSome_iff_ne_none]
      exact fun hnone => hcurrent ⟨hflag, hsame, Or.inr hnone⟩
    · right
      unfold uncertainEditorIsCurrent at hsame
      cases hoperation : m.operation with
      | none => simp [hoperation] at hsame
      | some operation =>
        rw [hoperation] at hsame
        cases hsession : operation.editorSession with
        | none => simp [hsession] at hsame
        | some session => exact ⟨operation, session, rfl, hsession, by simpa [hsession] using hsame⟩

end Managed

/-! ## Every step, and every run -/

/-- What the supervisor knows of the unsettled edit. -/
structure Guarded (w : Supervised) : Prop where
  flag : ∀ session, w.unsettled = some session → w.managed.needsReconciliation = true
  onDisk : OnDisk w
  session : ∀ session, w.unsettled = some session → ∀ operation named, w.managed.operation = some operation →
    operation.editorSession = some named → named = session
  traced : w.managed.Traced w.unsettled

variable {w : Supervised} {c : Call} {m' : Managed}

theorem Managed.Traced.settled (settles : Bool) (h : m'.Traced w.unsettled) :
    m'.Traced (if settles then none else w.unsettled) := by
  cases settles with
  | true => exact ⟨nofun, h.ended, h.idle⟩
  | false => exact h

theorem Guarded.settling (hw : Guarded w) {settles : Bool} (hsettling : w.managed.Settling m' settles)
    (htraced : m'.Traced w.unsettled) :
    Guarded { managed := m', unsettled := if settles then none else w.unsettled } := by
  cases settles with
  | true => exact ⟨nofun, nofun, nofun, htraced.settled true⟩
  | false =>
    refine ⟨?_, ?_, ?_, htraced⟩
    · intro session hsession
      by_contra hflag
      have := hsettling.clears (hw.flag session hsession) (by simpa using hflag)
      cases this
    · intro hsome
      obtain ⟨session, hsession⟩ := Option.isSome_iff_exists.mp hsome
      rcases hsettling.published (hw.flag session hsession) rfl with hsame | htrue
      · obtain ⟨r, hr, htrue⟩ := hw.onDisk hsome
        exact ⟨r, hsame.trans hr, htrue⟩
      · exact htrue
    · intro session hsession operation named hoperation hnamed
      obtain ⟨operation₀, h₀, hnamed₀⟩ := hsettling.session operation named hoperation hnamed
      exact hw.session session hsession operation₀ named h₀ hnamed₀

/-- The supervisor as an operation finds it. -/
def Supervised.entered (w : Supervised) : Managed := { w.managed with events := [] }

theorem Guarded.entered (hw : Guarded w) : w.entered.Traced w.unsettled :=
  ⟨hw.traced.moved, hw.traced.ended, hw.traced.idle⟩

/-- What happens to the editor settles nothing. -/
theorem Managed.settling_editor (m : Managed) (child : Child) (living : List String) (settles : Bool) :
    m.Settling { m with child, living } settles :=
  ⟨fun operation _ h hsession => ⟨operation, h, hsession⟩, fun h h' => Bool.noConfusion (h.symm.trans h'),
    fun _ _ => Or.inl rfl⟩

/-- What every operation but the admission of an edit leaves. -/
theorem call_settling (hw : Guarded w) (hc : Meets w c)
    (hother : ∀ tool scenePath o, c ≠ .beforeMutation tool scenePath o) :
    w.entered.Settling (w.entered.call c).1 (Settles c (w.entered.call c).1.events) ∧
    (w.entered.call c).1.Traced w.unsettled := by
  have htraced := hw.entered
  cases c with
  | start o =>
    have hkept := w.entered.start_kept o
    exact ⟨hkept.settling _, htraced.editor hkept.editor⟩
  | ensureEditor o =>
    have hkept := w.entered.ensureEditor_kept o
    exact ⟨hkept.settling _, htraced.editor hkept.editor⟩
  | beforeMutation tool scenePath o => exact absurd rfl (hother tool scenePath o)
  | dispatch => exact ⟨(Managed.Kept.refl _).settling _, htraced⟩
  | afterMutation tool scenePath failed notStarted o =>
    obtain ⟨heditor, hsettling⟩ := w.entered.afterMutation_settling tool scenePath failed notStarted o rfl
    exact ⟨hsettling, htraced.editor heditor⟩
  | checkpoint accept saved written =>
    obtain ⟨heditor, hsettling⟩ := w.entered.checkpoint_settling accept saved written rfl
    exact ⟨hsettling, htraced.editor heditor⟩
  | restore id o =>
    have hclears : o.Clears w.entered → o.launchWritten.isOk := by
      rintro ⟨hnonce, hstaged, hwritten, hexit, hrest⟩
      have hchild := (Managed.stop_congr w.managed w.entered rfl rfl rfl o.stopped).1
      exact hc.1 ⟨hnonce, hstaged, hwritten, hchild ▸ hexit, hrest⟩
    obtain ⟨heditor, hsettling⟩ := Managed.restore_settling (m := w.entered) id o rfl hclears
    refine ⟨hsettling, ?_⟩
    rcases heditor with heditor | heditor
    · exact htraced.editor heditor
    · exact (htraced.stop o.stopped).editor heditor
  | childEnds code =>
    simp only [Managed.call]
    split_ifs with hrunning
    · exact ⟨w.entered.settling_editor _ _ _, htraced.moved, fun _ => hc.2 hrunning, nofun⟩
    · exact ⟨w.entered.settling_editor _ _ _, htraced⟩
  | childLost =>
    simp only [Managed.call]
    split_ifs with hrunning
    · exact ⟨w.entered.settling_editor _ _ _, htraced.moved, nofun, nofun⟩
    · exact ⟨w.entered.settling_editor _ _ _, htraced⟩
  | editorEnds session =>
    refine ⟨w.entered.settling_editor _ _ _, ?_, ?_, ?_⟩
    · intro ran hran hne h
      exact htraced.moved ran hran hne (List.mem_of_mem_filter h)
    · intro hexit h
      exact htraced.ended hexit (List.mem_of_mem_filter h)
    · intro hidle
      show w.entered.living.filter _ = []
      rw [htraced.idle hidle]
      rfl

theorem step_eq (hother : ∀ tool scenePath o, c ≠ .beforeMutation tool scenePath o) :
    (w.step c).2 = {
      managed := (w.entered.call c).1
      unsettled := if Settles c (w.entered.call c).1.events then none else w.unsettled } := by
  cases c with
  | beforeMutation tool scenePath o => exact absurd rfl (hother tool scenePath o)
  | _ => rfl

theorem guarded_other (hw : Guarded w) (hc : Meets w c)
    (hother : ∀ tool scenePath o, c ≠ .beforeMutation tool scenePath o) :
    Guarded (w.step c).2 ∧ Sound w c := by
  obtain ⟨hsettling, htraced⟩ := call_settling hw hc hother
  have hentered : w.managed.Settling (w.entered.call c).1 (Settles c (w.entered.call c).1.events) :=
    ⟨hsettling.session, hsettling.clears, hsettling.published⟩
  refine ⟨step_eq hother ▸ hw.settling hentered htraced, ?_, ?_, ?_⟩
  · intro tool scenePath o heq
    exact absurd heq (hother tool scenePath o)
  · rw [step_eq hother]
    exact hsettling.clears
  · rintro saved written rfl hflag hcleared session hsession
    rw [step_eq hother] at hcleared
    rcases Managed.checkpoint_accepts (m := w.entered) hflag hcleared with hexit | ⟨operation, named, hop, hnamed, hne⟩
    · refine ⟨?_, fun _ => hexit⟩
      by_cases hsame : session = w.managed.attachedSession
      · rw [hsame]
        exact hw.traced.ended hexit
      · exact hw.traced.moved session hsession hsame
    · obtain rfl := hw.session session hsession operation named hop hnamed
      exact ⟨hw.traced.moved named hsession hne, fun h => absurd h hne⟩

theorem Guarded.unsettled_eq_none (hw : Guarded w) (hflag : w.managed.needsReconciliation = false) :
    w.unsettled = none := by
  by_contra hsome
  obtain ⟨session, hsession⟩ := Option.ne_none_iff_exists'.mp hsome
  exact Bool.noConfusion (hflag.symm.trans (hw.flag session hsession))

theorem guarded_admitted (hw : Guarded w) (tool : String) (scenePath : Option String) (o : BeforeOutcome) :
    Guarded (w.step (.beforeMutation tool scenePath o)).2 ∧ Sound w (.beforeMutation tool scenePath o) := by
  have hcases := Managed.beforeMutation_cases w.entered tool scenePath o
  have htraced := hw.entered
  rcases hresult : w.entered.beforeMutation tool scenePath o with ⟨m', error | _⟩
  · rw [hresult] at hcases
    have hcall : ({ w.managed with events := [] } : Managed).call (.beforeMutation tool scenePath o) =
      (m', .error error) := hresult
    have hstep : w.step (.beforeMutation tool scenePath o) = (.error error, ⟨m', w.unsettled⟩) := by
      simp only [Supervised.step, hcall]
      rfl
    have hguarded : Guarded ⟨m', w.unsettled⟩ ∧
        (w.managed.needsReconciliation = true → m'.needsReconciliation = true) := by
      rcases hcases with ⟨hkept, -⟩ | ⟨hflag, hbegun⟩
      · have hsettling := hkept.settling false
        have hmanaged : w.managed.Settling m' false := ⟨hsettling.session, hsettling.clears, hsettling.published⟩
        exact ⟨hw.settling hmanaged (htraced.editor hkept.editor), fun h => hkept.flag.trans h⟩
      · have hnone := hw.unsettled_eq_none hflag
        rw [hnone] at htraced ⊢
        exact ⟨⟨nofun, nofun, nofun, htraced.editor hbegun.editor⟩, fun _ => hbegun.flag⟩
    rw [hstep]
    refine ⟨hguarded.1, ?_, ?_, nofun⟩
    · intro _ _ _ _ h
      rw [hstep] at h
      cases h
    · intro h h'
      rw [hstep] at h'
      exact Bool.noConfusion ((hguarded.2 h).symm.trans h')
  · rw [hresult] at hcases
    have hcall : ({ w.managed with events := [] } : Managed).call (.beforeMutation tool scenePath o) =
      (m', .ok ()) := hresult
    have hstep : w.step (.beforeMutation tool scenePath o) = (.ok (), ⟨m', some m'.attachedSession⟩) := by
      simp only [Supervised.step, hcall]
    rcases hcases with ⟨-, hrefused⟩ | ⟨hflag, hbegun⟩
    · cases hrefused
    have hnone := hw.unsettled_eq_none hflag
    have hmoved := htraced.editor hbegun.editor
    obtain ⟨operation, hoperation, hnamed⟩ := hbegun.operation
    rw [hstep]
    refine ⟨⟨fun _ _ => hbegun.flag, fun _ => hbegun.published rfl, ?_, ?_, hmoved.ended, hmoved.idle⟩, ?_, ?_, nofun⟩
    · intro session hsession operation' named hoperation' hnamed'
      obtain rfl := Option.some.inj (hoperation.symm.trans hoperation')
      exact (Option.some.inj (hnamed'.symm.trans hnamed)).trans (Option.some.inj hsession)
    · intro session hsession hne
      exact absurd (Option.some.inj hsession).symm hne
    · intro _ _ _ _ _
      exact ⟨hflag, hnone⟩
    · intro h
      exact Bool.noConfusion (hflag.symm.trans h)

theorem guarded_step (hw : Guarded w) (hc : Meets w c) : Guarded (w.step c).2 ∧ Sound w c := by
  by_cases hbefore : ∃ tool scenePath o, c = .beforeMutation tool scenePath o
  · obtain ⟨tool, scenePath, o, rfl⟩ := hbefore
    exact guarded_admitted hw tool scenePath o
  · exact guarded_other hw hc fun tool scenePath o heq => hbefore ⟨tool, scenePath, o, heq⟩

theorem guarded_start : Guarded {} := ⟨nofun, nofun, nofun, nofun, nofun, fun _ => rfl⟩

theorem blocks_of_guarded (hw : Guarded w) {calls : List Call} (h : Run.Along Supervised.step Meets w calls) :
    Run.Along Supervised.step (fun w c => Sound w c ∧ OnDisk (w.step c).2) w calls := by
  induction calls generalizing w with
  | nil => trivial
  | cons c calls ih =>
    obtain ⟨hnext, hsound⟩ := guarded_step hw h.1
    exact ⟨⟨hsound, hnext.onDisk⟩, ih hnext h.2⟩

/-- An unsettled edit blocks the next one, on disk too, in every run whose restores publish what they clear and in
which the launched process ends after the editor it runs. -/
theorem blocks_of_meets (calls : List Call) (h : Run.Along Supervised.step Meets {} calls) :
    Run.Along Supervised.step (fun w c => Sound w c ∧ OnDisk (w.step c).2) {} calls :=
  blocks_of_guarded guarded_start h

/-- An edit whose outcome is not known, up to the restore that follows it. -/
def lostEdit : List Call := [
  .start { baseline := .ok "cp-1", launch := .settles "session-1" 7 "cp-2" (.ok ()) },
  .beforeMutation "scene_set_property" none {
    ensure := { active := some "session-1", launch := .attachFails (.internal "") }
    saved := .ok "cp-3", id := .ok "0a" },
  .dispatch,
  .afterMutation "scene_set_property" none true false { saved := .ok "cp-4" }]

def restoreThen (launch : LaunchOutcome) (launchWritten : Except String Unit) : Call :=
  .restore "cp-1" {
    nonce := .ok "0b", staged := .ok "", stopped := .exits 137, saved := .ok "cp-5", launch, launchWritten }

theorem blocks_lostEdit : Run.Along Supervised.step (fun w c => Sound w c ∧ OnDisk (w.step c).2) {}
    (lostEdit ++ [restoreThen (.settles "session-2" 8 "cp-6" (.ok ())) (.ok ())]) :=
  blocks_of_meets _ ⟨⟨trivial, trivial⟩, ⟨trivial, trivial⟩, ⟨trivial, trivial⟩, ⟨trivial, trivial⟩,
    ⟨fun _ => rfl, trivial⟩, trivial⟩

/-- A restore clears the flag, its launch fails, and no receipt is published after it; and a launched process that ends
before its editor has a checkpoint accept the files while that editor lives. -/
theorem not_blocks :
    (∃ calls, Run.Along Supervised.step EditorEndsFirst {} calls ∧
      ¬ Run.Along Supervised.step (fun w c => Sound w c ∧ OnDisk (w.step c).2) {} calls) ∧
    ∃ calls, Run.Along Supervised.step RestorePublishes {} calls ∧
      ¬ Run.Along Supervised.step (fun w c => Sound w c ∧ OnDisk (w.step c).2) {} calls := by
  constructor
  · refine ⟨lostEdit ++ [restoreThen (.startFails (.internal "")) (.error "disk full")],
      ⟨trivial, trivial, trivial, trivial, trivial, trivial⟩, fun h => ?_⟩
    have hclears := h.2.2.2.2.1.1.clears
    exact absurd (hclears (by decide) (by decide)) (by decide)
  · refine ⟨lostEdit ++ ([.childEnds 1, .checkpoint true (.ok "cp-5") (.ok ())] : List Call),
      ⟨trivial, trivial, trivial, trivial, trivial, trivial, trivial⟩, fun h => ?_⟩
    have haccepts := h.2.2.2.2.2.1.1.accepts (.ok "cp-5") (.ok ()) rfl (by decide) (by decide) "session-1" (by decide)
    exact absurd haccepts.1 (by decide)

end Didi.Recovery
