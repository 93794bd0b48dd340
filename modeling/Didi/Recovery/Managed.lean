import Didi.Common

/-!
# The supervisor of an owned editor

* `Managed` : the members of `ManagedRecovery`, the receipt last published beside the project, and what the launched
  process is known to do;
* `launchAndAttach`, `ensureEditor`, `beforeMutation`, `afterMutation`, `checkpoint`, `restore` : its operations. Each
  snapshot, publication, save, launch, attach and stop ends as an argument says;
* `Event` : what an operation left outside the process, in order.
-/

namespace Didi.Recovery

/-- The launched process, as `running()` and `exitCode()` see it. -/
inductive Child
  | idle
  | running
  | exited (code : Int)
  -- its state cannot be told any more; it counts as running
  | unverified
  deriving DecidableEq

def Child.isRunning : Child → Bool
  | .idle => false
  | .running => true
  | .exited _ => false
  | .unverified => true

def Child.exitCode : Child → Option Int
  | .exited code => some code
  | _ => none

inductive ManagedState
  | starting
  | launchFailed
  | identityUnavailable
  | readinessFailed
  | ready
  | sceneReopenFailed
  | attachFailed
  | restartLimitReached
  | editorClosed
  | restarting
  | restoring
  | restoreFailed
  deriving DecidableEq

inductive OperationOutcome
  | pending
  | notStarted
  | failedOrUnknown
  | appliedPersistenceFailed
  | appliedCheckpointFailed
  | appliedJournalFailed
  | completedSavedFilesCheckpointed
  | currentSavedFilesAccepted
  | restorePrepared
  | restored
  deriving DecidableEq

/-- The members `m_operation` may have. -/
structure Operation where
  outcome : OperationOutcome
  id : Option String := none
  tool : Option String := none
  editorSession : Option String := none
  beforeCheckpoint : Option String := none
  afterCheckpoint : Option String := none
  persistenceError : Option String := none
  checkpointId : Option String := none
  stagedWorkspace : Option String := none
  preservedWorkspace : Option String := none
  deriving DecidableEq

/-- `m_operation["outcome"] = outcome`, which makes an object of a null. -/
def withOutcome (operation : Option Operation) (outcome : OperationOutcome) : Operation :=
  { operation.getD { outcome } with outcome }

/-- What `journal` writes. -/
structure Receipt where
  state : ManagedState
  operation : Option Operation
  checkpoint : Option String
  requiresReconciliation : Bool
  automaticRestartUsed : Bool
  lastScene : String
  unprotectedChanges : List String
  deriving DecidableEq

inductive Event
  | checkpointed (id : String)
  | published (receipt : Receipt)
  deriving DecidableEq

structure Managed where
  lastCheckpoint : Option String := none
  operation : Option Operation := none
  unprotected : List String := []
  state : ManagedState := .starting
  lastScene : String := ""
  attachedSession : String := ""
  restartUsed : Bool := false
  needsReconciliation : Bool := false
  launchCount : Nat := 0
  editorPid : Nat := 0
  child : Child := .idle
  -- the receipt in `recovery.json`
  published : Option Receipt := none
  -- the editor sessions attached so far whose process has not ended
  living : List String := []
  -- of the present operation
  events : List Event := []

namespace Managed

def receipt (m : Managed) : Receipt where
  state := m.state
  operation := m.operation
  checkpoint := m.lastCheckpoint
  requiresReconciliation := m.needsReconciliation
  automaticRestartUsed := m.restartUsed
  lastScene := m.lastScene
  unprotectedChanges := m.unprotected

/-- The receipt is written beside the last one and put in its place, or the last one stays. -/
def journal (m : Managed) (written : Except String Unit) : Managed × Except Error Unit :=
  match written with
  | .ok _ => ({ m with published := some m.receipt, events := m.events ++ [.published m.receipt] }, .ok ())
  | .error what => (m, .error (.internal what))

def snapshot (m : Managed) (saved : Except Error String) : Managed :=
  match saved with
  | .ok id => { m with lastCheckpoint := some id, events := m.events ++ [.checkpointed id] }
  | .error _ => m

end Managed

/-! ## The owned editor -/

/-- How a launch ends. -/
inductive LaunchOutcome
  | startFails (error : Error)
  | identityFails (error : Error)
  | attachFails (error : Error)
  -- a session of the workspace is attached, and its files do not settle
  | readinessFails (session : String) (pid : Nat) (error : Error)
  | settles (session : String) (pid : Nat) (point : String) (reopened : Except Error Unit)

namespace Managed

/-- `m_child.start`, which refuses while the child it has may be running. -/
def childStarts (m : Managed) (launch : LaunchOutcome) : LaunchOutcome :=
  if m.child.isRunning then
    .startFails (.invalidArgument "Managed child is already running or its state cannot be verified")
  else launch

def attach (m : Managed) (session : String) (pid : Nat) : Managed :=
  { m with child := .running, attachedSession := session, editorPid := pid, living := session :: m.living }

/-- Every path publishes one receipt; only the last one looks at whether it was published. -/
def launchAndAttach (m : Managed) (launch : LaunchOutcome) (written : Except String Unit) :
    Managed × Except Error Unit :=
  let m := { m with launchCount := m.launchCount + 1 }
  match m.childStarts launch with
  | .startFails error => (({ m with state := .launchFailed }.journal written).1, .error error)
  | .identityFails error =>
    (({ m with state := .identityUnavailable, child := .running }.journal written).1, .error error)
  | .attachFails error => (({ m with state := .attachFailed, child := .running }.journal written).1, .error error)
  | .readinessFails session pid error =>
    (({ m.attach session pid with state := .readinessFailed }.journal written).1, .error error)
  | .settles session pid point reopened =>
    let m := { (m.attach session pid).snapshot (.ok point) with state := .ready }
    match reopened, m.lastScene.isEmpty with
    | .error error, false => (({ m with state := .sceneReopenFailed }.journal written).1, .error error)
    | _, _ => m.journal written

end Managed

/-- What `start` and `ensureEditor` find. -/
structure StartOutcome where
  sessions : Bool := true
  baseline : Except Error String
  written : Except String Unit := .ok ()
  launch : LaunchOutcome
  launchWritten : Except String Unit := .ok ()

structure EnsureOutcome where
  active : Option String
  written : Except String Unit := .ok ()
  launch : LaunchOutcome
  launchWritten : Except String Unit := .ok ()

def recoveryError (message : String) : Error := { code := 409, message }

namespace Managed

def start (m : Managed) (o : StartOutcome) : Managed × Except Error Unit :=
  if o.sessions = false then
    (m, .error { code := 503, message := "Managed mode requires runtime sessions" })
  else
    match o.baseline with
    | .error error => (m, .error error)
    | .ok id =>
      let m := m.snapshot (.ok id)
      match m.journal o.written with
      | (m, .error error) => (m, .error error)
      | (m, .ok _) => m.launchAndAttach o.launch o.launchWritten

def ensureEditor (m : Managed) (o : EnsureOutcome) : Managed × Except Error Unit :=
  if m.state = .restoreFailed then
    (m, .error (recoveryError
      "Workspace restore is incomplete; inspect runtime_recovery_status. Ordinary tools are blocked."))
  else if m.child.isRunning then
    if m.state ≠ .ready then
      (m, .error (recoveryError ("Owned editor recovery did not reach ready state. Inspect " ++
        "runtime_recovery_status or restore a checkpoint; edits are blocked.")))
    else if o.active = some m.attachedSession then (m, .ok ())
    else
      (m, .error (recoveryError
        "Managed route unavailable; inspect runtime_recovery_status. No mutation was replayed."))
  else if m.restartUsed ∨ m.child.exitCode = some 0 then
    (({ m with state := if m.restartUsed then .restartLimitReached else .editorClosed }.journal o.written).1,
      .error (recoveryError
        "Owned editor stopped; automatic restart unavailable. Inspect status or restore a checkpoint."))
  else if m.child.exitCode = none then
    (m, .error (recoveryError "Editor state is unverified; refusing duplicate launch"))
  else
    match { m with restartUsed := true, state := .restarting }.journal o.written with
    | (m, .error error) => (m, .error error)
    | (m, .ok _) => m.launchAndAttach o.launch o.launchWritten

end Managed

/-! ## Mutations -/

/-- What `beforeMutation` finds. -/
structure BeforeOutcome where
  ensure : EnsureOutcome
  -- the file under `res://` is known not to be a scene there
  sceneMissing : Bool := false
  saved : Except Error String
  id : Except Error String
  written : Except String Unit := .ok ()

/-- What `afterMutation` finds. -/
structure AfterOutcome where
  sceneSaved : Except Error Unit := .ok ()
  saved : Except Error String
  written : Except String Unit := .ok ()

def scenePersistence (tool : String) : Bool :=
  tool ∈ ["scene_instantiate_node", "scene_remove_node", "scene_reparent_node", "scene_set_property",
    "scene_duplicate_node", "scene_add_to_group", "scene_remove_from_group", "script_attach_to_node",
    "script_detach_from_node", "signal_connect", "signal_disconnect", "editor_undo", "editor_redo", "tilemap_set_cells",
    "gridmap_set_cells", "viewport_set_camera_transform", "anim_add_library"]

def memoryOnly (tool : String) : Bool :=
  tool ∈ ["shader_set_uniform", "audio_configure_bus", "signal_emit", "viewport_toggle_debug_draw"]

/-- What the answer of a mutation is given: the receipt as it stands, and what failed of a change that applied. -/
structure RecoveryNote where
  state : ManagedState
  requiresReconciliation : Bool
  operation : Option Operation
  checkpointId : String
  unprotectedChanges : List String
  error : Option String := none

namespace Managed

def note (m : Managed) : RecoveryNote where
  state := m.state
  requiresReconciliation := m.needsReconciliation
  operation := m.operation
  checkpointId := m.lastCheckpoint.getD ""
  unprotectedChanges := m.unprotected

def appliedButUnprotected (m : Managed) (whatFailed : String) : RecoveryNote :=
  { m.note with error := some ("The change was applied, and " ++ whatFailed ++ ". Do not send it again.") }

def beforeMutation (m : Managed) (tool : String) (scenePath : Option String) (o : BeforeOutcome) :
    Managed × Except Error Unit :=
  if m.needsReconciliation then
    (m, .error (recoveryError
      "Previous operation requires reconciliation; call runtime_recovery_status. Mutation not started."))
  else
    match m.ensureEditor o.ensure with
    | (m, .error error) => (m, .error error)
    | (m, .ok _) =>
      if tool = "scene_open" ∧ scenePath.any (·.startsWith "res://") ∧ o.sceneMissing then
        (m, .error (.notFound "Scene does not exist; mutation not started"))
      else
        match o.saved with
        | .error error => (m, .error error)
        | .ok before =>
          let m := m.snapshot (.ok before)
          match o.id with
          | .error error => (m, .error error)
          | .ok id =>
            { m with
              operation := some {
                outcome := .pending, id := some id, tool := some tool, editorSession := some m.attachedSession,
                beforeCheckpoint := some before }
              needsReconciliation := true }.journal o.written

/-- The scene that is reopened with the editor, and the changes no checkpoint holds. -/
def noteChange (m : Managed) (tool : String) (scenePath : Option String) : Managed :=
  let opened := if tool = "scene_open" ∨ tool = "scene_create" then scenePath else none
  { m with
    lastScene := if tool = "scene_close" then "" else opened.getD m.lastScene
    unprotected := if memoryOnly tool ∧ tool ∉ m.unprotected then m.unprotected ++ [tool] else m.unprotected }

def afterFailure (m : Managed) (notStarted : Bool) (written : Except String Unit) : Managed × RecoveryNote :=
  let m := { m with
    operation := some (withOutcome m.operation (if notStarted then .notStarted else .failedOrUnknown))
    needsReconciliation := !notStarted }
  match m.journal written with
  | (m, .ok _) => (m, m.note)
  | (m, .error _) =>
    let m := { m with needsReconciliation := true }
    (m, m.note)

/-- The change is in, and what should have protected it failed. -/
def applied (m : Managed) (outcome : OperationOutcome) (error : Error) (written : Except String Unit)
    (whatFailed : String) : Managed × RecoveryNote :=
  let operation := { withOutcome m.operation outcome with persistenceError := some error.message }
  let m := ({ m with operation := some operation }.journal written).1
  (m, m.appliedButUnprotected whatFailed)

def afterChange (m : Managed) (tool : String) (scenePath : Option String) (o : AfterOutcome) :
    Managed × RecoveryNote :=
  let m := m.noteChange tool scenePath
  match scenePersistence tool, o.sceneSaved with
  | true, .error error =>
    m.applied .appliedPersistenceFailed error o.written
      "saving the scene failed, so the saved files and the recovery checkpoint do not have it"
  | _, _ =>
    match o.saved with
    | .error error =>
      m.applied .appliedCheckpointFailed error o.written
        "it was saved, and the checkpoint after it failed, so a restore cannot return to this state"
    | .ok after =>
      let m := m.snapshot (.ok after)
      let operation := { withOutcome m.operation .completedSavedFilesCheckpointed with afterCheckpoint := some after }
      let m := { m with operation := some operation, needsReconciliation := false }
      match m.journal o.written with
      | (m, .ok _) => (m, m.note)
      | (m, .error _) =>
        let m := { m with
          needsReconciliation := true
          operation := some (withOutcome m.operation .appliedJournalFailed) }
        (m, m.appliedButUnprotected "it was saved and checkpointed, and the recovery journal could not be written")

def afterMutation (m : Managed) (tool : String) (scenePath : Option String) (failed notStarted : Bool)
    (o : AfterOutcome) : Managed × RecoveryNote :=
  if failed then m.afterFailure notStarted o.written else m.afterChange tool scenePath o

end Managed

/-! ## Reconciliation -/

inductive StopOutcome
  | exits (code : Int)
  | survives
  | lost

/-- How `restore` goes on, step by step. -/
structure RestoreOutcome where
  nonce : Except Error String
  staged : Except Error String
  written : Except String Unit := .ok ()
  stopped : StopOutcome
  -- both renames; on a failure the text of the exception
  replaced : Except String Unit := .ok ()
  failureWritten : Except String Unit := .ok ()
  saved : Except Error String
  launch : LaunchOutcome
  launchWritten : Except String Unit := .ok ()

namespace Managed

def uncertainEditorIsCurrent (m : Managed) : Bool :=
  match m.operation with
  | none => true
  | some operation => operation.editorSession.getD m.attachedSession = m.attachedSession

def checkpoint (m : Managed) (accept : Bool) (saved : Except Error String) (written : Except String Unit) :
    Managed × Except Error Unit :=
  if m.needsReconciliation ∧ !accept then
    (m, .error {
      code := 409
      message := "An operation needs reconciliation. Inspect files, then explicitly set " ++
        "accept_current_files=true or restore a checkpoint."
      data := .object [("code", .string "needs_reconciliation"),
        ("retry_with", .object [("accept_current_files", .boolean true)])] })
  else if m.needsReconciliation ∧ m.uncertainEditorIsCurrent ∧ (m.child.isRunning ∨ m.child.exitCode = none) then
    (m, .error (recoveryError ("The old editor may still finish an operation or hold unsaved changes. Restore a " ++
      "checkpoint to stop it and reload known files; accepting files cannot settle a live operation.")))
  else
    match saved with
    | .error error => (m, .error error)
    | .ok id =>
      let m := m.snapshot (.ok id)
      let m := { m with
        needsReconciliation := false
        operation := m.operation.map fun operation => withOutcome (some operation) .currentSavedFilesAccepted }
      match m.journal written with
      | (m, .ok _) => (m, .ok ())
      | (m, .error error) => ({ m with needsReconciliation := true }, .error error)

/-- `m_child.stop()`. When the child is known to have stopped, so has every process this server started. -/
def stop (m : Managed) (stopped : StopOutcome) : Managed :=
  if m.child.isRunning then
    match stopped with
    | .exits code => { m with child := .exited code, living := [] }
    | .survives => m
    | .lost => { m with child := .unverified }
  else m

def prepareRestore (m : Managed) (id nonce : String) : Managed :=
  { m with
    state := .restoring
    needsReconciliation := true
    operation := some {
      outcome := .restorePrepared, checkpointId := some id, stagedWorkspace := some ("restore-" ++ nonce),
      preservedWorkspace := some ("preserved-" ++ nonce) } }

/-- The workspace is the one of the checkpoint. -/
def restored (m : Managed) (id nonce : String) : Managed :=
  { m with
    lastScene := ""
    unprotected := []
    operation := some {
      outcome := .restored, checkpointId := some id, preservedWorkspace := some ("preserved-" ++ nonce) } }

/-- What `restore` does once the editor is known to have stopped. -/
def replaceWorkspace (m : Managed) (id nonce : String) (o : RestoreOutcome) : Managed × Except Error Unit :=
  match o.replaced with
  | .error what =>
    (({ m with state := .restoreFailed }.journal o.failureWritten).1,
      .error (.internal ("Restore stopped; original retained at preserved-" ++ nonce ++ ": " ++ what)))
  | .ok _ =>
    let m := m.restored id nonce
    match o.saved with
    | .error error => (m, .error error)
    | .ok point =>
      let m := m.snapshot (.ok point)
      let m := { m with needsReconciliation := false }
      m.launchAndAttach o.launch o.launchWritten

/-- The workspace is replaced once the editor is known to have stopped. -/
def replaceStopped (m : Managed) (id nonce : String) (o : RestoreOutcome) : Managed × Except Error Unit :=
  if m.child.isRunning ∨ m.child.exitCode = none then
    (({ m with state := .restoreFailed }.journal o.failureWritten).1,
      .error (recoveryError "Could not prove the owned editor stopped; workspace was not replaced"))
  else m.replaceWorkspace id nonce o

def restore (m : Managed) (id : String) (o : RestoreOutcome) : Managed × Except Error Unit :=
  match o.nonce, o.staged with
  | .error error, _ => (m, .error error)
  | .ok _, .error error => (m, .error error)
  | .ok nonce, .ok _ =>
    match (m.prepareRestore id nonce).journal o.written with
    | (m, .error error) => (m, .error error)
    | (m, .ok _) => (m.stop o.stopped).replaceStopped id nonce o

end Managed
end Didi.Recovery
