import Didi.Json.Pointer
import Didi.Common
import Didi.Lib.Locked

/-!
# The gate before a mutation

`isMutation`, `canRequireConfirmation` and `requiresConfirmation` say of a tool, or of one call on it,
whether it changes anything and whether it is confirmed first. What a call would write over is read from
the file system: `occupied path` says that the path cannot be resolved or has a file behind it.

* `Call.begin` : what a call does before it touches the table of confirmations;
* `mint`, `lookUp`, `spend` : the three sections under the table's lock;
* `checkTarget` : the second look at the target, between the last two, without the lock;
* `step` : the sections of any number of calls, in any order.

A call carries what it reads from outside: its clock, the token its generator draws, what its probe
answers, and which paths are occupied. A preview's text is not cut to the response limit here.
-/

namespace Didi.Safety

/-- The names that a tool goes by. -/
structure ResolvedToolBinding where
  invokedName : String
  canonicalName : String
  policySource : String

structure MutationContext where
  projectRoot : String
  executionMode : String
  sessionId : Option String
  routeGeneration : Nat
  deriving DecidableEq

def kMutations : List String :=
  ["scene_instantiate_node", "scene_remove_node", "scene_reparent_node", "scene_set_property",
    "scene_duplicate_node", "scene_add_to_group", "scene_remove_from_group", "scene_create",
    "scene_open", "scene_close", "scene_pack_branch", "signal_connect", "signal_disconnect",
    "signal_emit", "scene_call_method", "script_patch_method", "patch_script_symbols", "script_create",
    "script_attach_to_node", "script_detach_from_node", "physics_simulate_step", "nav_bake_mesh",
    "anim_play_track", "anim_state_set", "tilemap_set_cells", "tilemap_set_region",
    "gridmap_set_cells", "resource_create", "instantiate_asset", "mutate_scene_tree", "asset_reimport",
    "project_rename_references", "project_apply_changes", "runtime_launch", "execute_test_session",
    "runtime_set_paused", "runtime_checkpoint", "runtime_restore_checkpoint", "runtime_recover_editor",
    "runtime_step", "runtime_stop", "runtime_inject_input", "input_map_set_action",
    "runtime_watch_invariants", "runtime_explore_scene", "runtime_run_scenario", "shader_set_uniform",
    "anim_add_library", "project_add_export_preset", "editor_undo", "editor_redo", "editor_save_scene",
    "editor_reload_project", "project_set_autoload", "project_remove_autoload",
    "project_set_input_action", "project_remove_input_action", "project_set_setting",
    "viewport_set_camera_transform", "viewport_create_test_lab", "create_visual_test_lab",
    "viewport_toggle_debug_draw", "project_export", "gridmap_export_mesh_library",
    "audio_configure_bus", "audio_add_bus", "asset_configure_import", "blackboard_write",
    "blackboard_patch", "blackboard_clear", "blackboard_task_create", "blackboard_task_claim",
    "blackboard_task_update", "blackboard_task_complete"]

def kAlwaysConfirmed : List String :=
  ["runtime_restore_checkpoint", "editor_reload_project", "script_patch_method",
    "patch_script_symbols", "signal_emit", "scene_call_method", "project_rename_references",
    "project_apply_changes", "blackboard_clear"]

def kVisualTestLabScenePath : String := "res://didi_test_lab.tscn"

/-- Where a tool that takes an overwrite flag writes: the argument that names the path, or one fixed
path. -/
structure OverwriteTarget where
  argument : String := ""
  fixedPath : String := ""

def kOverwriteConfirmed : List (String × OverwriteTarget) :=
  [("resource_create", { argument := "save_path" }),
    ("script_create", { argument := "script_path" }),
    ("viewport_create_test_lab", { fixedPath := kVisualTestLabScenePath }),
    ("create_visual_test_lab", { fixedPath := kVisualTestLabScenePath }),
    ("project_export", { argument := "output_path" }),
    ("gridmap_export_mesh_library", { argument := "output_path" })]

def isMutation (binding : ResolvedToolBinding) : Bool := kMutations.contains binding.policySource

def canRequireConfirmation (binding : ResolvedToolBinding) : Bool :=
  kAlwaysConfirmed.contains binding.policySource || (kOverwriteConfirmed.lookup binding.policySource).isSome

def overwriteTargetExists (occupied : String → Bool) (binding : ResolvedToolBinding)
    (arguments : JsonObject) : Bool :=
  match kOverwriteConfirmed.lookup binding.policySource with
  | none => true
  | some target =>
    if target.fixedPath ≠ "" then occupied target.fixedPath
    else
      match arguments.lookup target.argument with
      | some (.string path) => occupied path
      | _ => true

def requiresConfirmation (occupied : String → Bool) (binding : ResolvedToolBinding)
    (arguments : JsonObject) : Except JsonException Bool :=
  if kAlwaysConfirmed.contains binding.policySource then .ok true
  else if (kOverwriteConfirmed.lookup binding.policySource).isNone then .ok false
  else do
    if ← (Json.object arguments).valueBoolean "overwrite" false then
      return overwriteTargetExists occupied binding arguments
    else return false

/-- Every tool that is ever confirmed is a mutation. -/
theorem isMutation_of_canRequire {binding : ResolvedToolBinding} (h : canRequireConfirmation binding = true) :
    isMutation binding = true := by
  have hall : ∀ name ∈ kAlwaysConfirmed ++ kOverwriteConfirmed.map Prod.fst, kMutations.contains name = true := by
    decide
  apply hall
  rw [List.mem_append]
  rcases Bool.or_eq_true_iff.mp h with h | h
  · exact .inl (List.contains_iff_mem.mp h)
  · obtain ⟨target, htarget⟩ := Option.isSome_iff_exists.mp h
    exact .inr (List.mem_map.mpr ⟨_, List.mem_of_lookup htarget, rfl⟩)

theorem canRequire_of_requires {occupied : String → Bool} {binding : ResolvedToolBinding}
    {arguments : JsonObject} (h : requiresConfirmation occupied binding arguments = .ok true) :
    canRequireConfirmation binding = true := by
  unfold requiresConfirmation at h
  unfold canRequireConfirmation
  split_ifs at h with halways hoverwrite
  · rw [halways]
    rfl
  · cases h
  · rw [Bool.not_eq_true, Option.isNone_eq_false_iff] at hoverwrite
    rw [hoverwrite, Bool.or_true]

/-! ## The gate before a mutation -/

def kConfirmationTtlMs : Int := 120000

/-- The hash of a text, in hexadecimal. -/
def fnv1a (text : String) : String :=
  let hash := text.toUTF8.toList.foldl
    (fun hash byte => (Nat.xor hash byte.toNat * 1099511628211) % 2 ^ 64) 1469598103934665603
  String.ofList ((List.range 16).reverse.map fun i => Json.hexDigit (hash / 16 ^ i % 16))

structure Confirmation where
  invokedName : String
  arguments : JsonObject
  context : MutationContext
  expiresAtMs : Int
  targetFingerprint : String

abbrev Confirmations := OrderedMap String Confirmation

structure Call where
  binding : ResolvedToolBinding
  arguments : Json
  context : MutationContext
  /-- What the probe answers when this call asks it, if the call comes with one: an error, or what it
  read and what that is about. -/
  probe : Option (Except Error (Json × Json)) := none
  occupied : String → Bool := fun _ => true
  nowMs : Int
  drawn : String := ""

def sanitized (arguments : JsonObject) : JsonObject :=
  (arguments.eraseKey "dry_run").eraseKey "confirmation_token"

/-- The arguments of a preview, with what looks like a secret taken out. -/
def previewArguments (arguments : JsonObject) : JsonObject :=
  arguments.map fun e =>
    let key := e.1.toLower
    if key.contains "token" || key.contains "secret" || key.contains "password" then
      (e.1, .string "[redacted]")
    else e

def bindingHash (binding : ResolvedToolBinding) (arguments : JsonObject) (context : MutationContext) :
    String :=
  fnv1a (binding.invokedName ++ "\n" ++ (Json.object arguments).dump ++ "\n" ++ context.projectRoot ++
    "\n" ++ context.executionMode ++ "\n" ++ context.sessionId.getD "" ++ "\n" ++
    toString context.routeGeneration)

/-- What a confirm compares: nothing where nothing was read or the target is not there. -/
def targetFingerprint (before : Json) : Except JsonException String :=
  match before with
  | .null => .ok ""
  | .object _ => do
    if ← before.valueBoolean "exists" true then return fnv1a before.dump else return ""
  | _ => .ok (fnv1a before.dump)

/-! ## Before the table -/

structure Change where
  kind : String
  target : Json
  before : Json

structure Preview where
  tool : String
  context : MutationContext
  arguments : JsonObject
  bindingHash : String
  previewKind : String
  targetRead : Bool
  targetCheckedOnConfirm : Bool
  change : Change
  requiresConfirmation : Bool
  /-- The token and when it expires, where one was drawn. -/
  confirmation : Option (String × Int) := none

inductive Decision
  | execute (arguments : JsonObject)
  | preview (preview : Preview)
  | error (e : Error)

/-- What a call does next. -/
inductive Stage
  | decided (decision : Decision)
  | mint (token : String) (confirmation : Confirmation) (preview : Preview)
  | lookUp (token : String) (arguments : JsonObject)

def invalidControl (parameter message : String) : Error where
  code := 400
  message := message
  data := .object [("code", .string "invalid_arguments"), ("parameter", .string parameter),
    ("retryable", .boolean false)]

def confirmationRequired : Error where
  code := 428
  message := "This mutation requires a dry-run preview and the confirmation token " ++
    "it returns, spent on the same arguments. The preview reads the " ++
    "target where it can, and says so with target_read when it could not."
  data := .object [("confirmation_argument", .string "confirmation_token"),
    ("dry_run_argument", .string "dry_run")]

def changeOf (before subject : Json) : Except JsonException Change := do
  let target := match subject with
    | .null => .string ("see mutation_preview.arguments: this tool names no subject of " ++
        "its own beyond the arguments it was given")
    | subject => subject
  match before with
  | .null => return {
      kind := "unverified_mutation"
      target := target
      before := .string ("not read: this tool has no preview probe, so the arguments were bound to a " ++
        "token without opening the target") }
  | before =>
    let kind ← match before with
      | .object _ => before.valueString "probe_kind" ""
      | _ => .ok ""
    let resolvedOnly := kind = "node_resolved"
    return { kind := if resolvedOnly then "resolved_target" else "planned_mutation", target, before }

/-- The dry run of a call, once its target was read. -/
def Call.dryRun (call : Call) (arguments : JsonObject) (requires : Bool) (before subject : Json) :
    Except JsonException Stage := do
  let fingerprint ← targetFingerprint before
  let targetRead := match before with
    | .null => false
    | _ => true
  let preview : Preview := {
    tool := call.binding.invokedName
    context := call.context
    arguments := previewArguments arguments
    bindingHash := bindingHash call.binding arguments call.context
    previewKind := if targetRead then "target_state" else "argument_binding"
    targetRead := targetRead
    targetCheckedOnConfirm := fingerprint ≠ ""
    change := ← changeOf before subject
    requiresConfirmation := requires }
  if requires then
    if call.drawn.utf8ByteSize ≠ 64 then
      return .decided (.error (.internal "Unable to create a secure confirmation token"))
    let expiresAtMs := call.nowMs + kConfirmationTtlMs
    return .mint call.drawn
      { invokedName := call.binding.invokedName, arguments, context := call.context, expiresAtMs,
        targetFingerprint := fingerprint }
      { preview with confirmation := some (call.drawn, expiresAtMs) }
  return .decided (.preview preview)

/-- A call on a tool that mutates, with its two controls read. -/
def Call.controlled (call : Call) (arguments : JsonObject) (dryRun : Bool) (token : Option String) :
    Except JsonException Stage := do
  let requires ← requiresConfirmation call.occupied call.binding arguments
  if dryRun then
    if token.isSome then
      return .decided (.error (.invalidArgument "dry_run and confirmation_token cannot be combined"))
    match call.probe with
    | none => call.dryRun arguments requires .null .null
    | some (.error problem) => return .decided (.error problem)
    | some (.ok (before, subject)) => call.dryRun arguments requires before subject
  else
    match token with
    | none =>
      if requires then return .decided (.error confirmationRequired)
      else return .decided (.execute arguments)
    | some token =>
      if !requires && !canRequireConfirmation call.binding then
        return .decided (.error (.invalidArgument "This mutation does not require a confirmation token"))
      else if token = "" then return .decided (.error confirmationRequired)
      else return .lookUp token arguments

def Call.begin (call : Call) : Except JsonException Stage :=
  match call.arguments with
  | .object arguments =>
    if !isMutation call.binding then
      if (arguments.lookup "dry_run").isSome || (arguments.lookup "confirmation_token").isSome then
        .ok (.decided (.error
          (.invalidArgument "Mutation safety controls are not valid for a read-only tool")))
      else .ok (.decided (.execute arguments))
    else
      match arguments.lookup "dry_run", arguments.lookup "confirmation_token" with
      | none, none => call.controlled (sanitized arguments) false none
      | none, some (.string token) => call.controlled (sanitized arguments) false (some token)
      | some (.boolean dryRun), none => call.controlled (sanitized arguments) dryRun none
      | some (.boolean dryRun), some (.string token) =>
        call.controlled (sanitized arguments) dryRun (some token)
      | some (.boolean _), some _ | none, some _ =>
        .ok (.decided (.error
          (invalidControl "confirmation_token" "confirmation_token must be a string")))
      | some v, _ =>
        .ok (.decided (.error (invalidControl "dry_run"
          ("Argument 'dry_run' must be a boolean, true or false, not " ++ v.typeName ++ "."))))
  | _ => .ok (.decided (.error (.invalidArgument "Tool arguments must be an object")))

/-! ## Under the lock -/

section Prune
-- The confirmation that expires first. The order of a hash table decides among equals, so any choice
-- may stand here.
variable (oldest : Confirmations → Option String)

/-- Drops the oldest confirmations while the table is full; each round drops one. -/
def dropOldest (confirmations : Confirmations) : Nat → Confirmations
  | 0 => confirmations
  | rounds + 1 =>
    if 128 ≤ confirmations.size then
      match oldest confirmations with
      | none => confirmations
      | some token => dropOldest (confirmations.erase token) rounds
    else confirmations

def prune (nowMs : Int) (confirmations : Confirmations) : Confirmations :=
  let live := confirmations.filter fun _ confirmation => nowMs ≤ confirmation.expiresAtMs
  dropOldest oldest live live.size

def mint (nowMs : Int) (token : String) (confirmation : Confirmation) (confirmations : Confirmations) :
    Confirmations :=
  (prune oldest nowMs confirmations).insert token confirmation

end Prune

inductive TokenVerdict
  | unknown
  | expired
  | mismatch
  | drifted
  | spendable
  deriving DecidableEq

def sameContext (left right : MutationContext) : Bool :=
  left.projectRoot = right.projectRoot && left.executionMode = right.executionMode &&
    left.sessionId = right.sessionId && left.routeGeneration = right.routeGeneration

/-- The second section: what the token is good for, and what its preview read of the target. -/
def lookUp (call : Call) (token : String) (arguments : JsonObject) (confirmations : Confirmations) :
    TokenVerdict × String × Confirmations :=
  match confirmations.get token with
  | none => (.unknown, "", confirmations)
  | some found =>
    if found.expiresAtMs < call.nowMs then (.expired, "", confirmations.erase token)
    else if found.invokedName ≠ call.binding.invokedName ||
        !Json.equals (.object found.arguments) (.object arguments) ||
        !sameContext found.context call.context then
      (.mismatch, "", confirmations)
    else (.spendable, found.targetFingerprint, confirmations)

/-- The target again, against what the preview saw: an error of the probe, or the verdict so far. -/
def checkTarget (call : Call) (previewed : String) : Except JsonException (Except Error TokenVerdict) :=
  if previewed = "" then .ok (.ok .spendable)
  else
    match call.probe with
    | none => .ok (.ok .spendable)
    | some (.error problem) => .ok (.error { problem with data := .null })
    | some (.ok (before, _)) => do
      let current ← targetFingerprint before
      return .ok (if current ≠ "" && current ≠ previewed then .drifted else .spendable)

/-- The third section: a token that is still there is used up. -/
def spend (token : String) (confirmations : Confirmations) : TokenVerdict × Confirmations :=
  match confirmations.get token with
  | none => (.unknown, confirmations)
  | some _ => (.spendable, confirmations.erase token)

def decisionOf (verdict : TokenVerdict) (arguments : JsonObject) : Decision :=
  match verdict with
  | .unknown => .error { code := 409, message := "Confirmation token is unknown or already used" }
  | .expired => .error { code := 410, message := "Confirmation token has expired" }
  | .mismatch => .error
      { code := 409
        message := "Confirmation token does not match this tool, arguments, project, or session. " ++
          "The token is still valid; retry with the arguments you previewed." }
  | .drifted => .error
      { code := 409
        message := "The target has changed since you previewed it, so this confirmation is for a " ++
          "state that is no longer there. Dry-run again and read the new preview before " ++
          "confirming."
        data := .object [("dry_run_argument", .string "dry_run"), ("target_changed", .boolean true)] }
  | .spendable => .execute arguments

/-! ## Calls side by side -/

/-- A call that found its token spendable and has not spent it yet. -/
structure Pending where
  id : Nat
  call : Call
  token : String
  arguments : JsonObject
  previewed : String

structure Gate where
  confirmations : Confirmations := ∅
  pending : List Pending := []

/-- The call with the number `id` begins, with its first section if it takes one; or, after its look-up,
it ends. -/
inductive Event
  | open (id : Nat) (call : Call)
  | close (id : Nat)

/-- What an event ends with: an answer to a call, an exception out of it, or neither. -/
inductive Outcome
  | none
  | decided (call : Call) (decision : Decision)
  | threw (call : Call) (e : JsonException)

/-- The end of a call whose token was spendable: its second look at the target, and its spending. -/
def finish (p : Pending) (gate : Gate) : Outcome × Gate :=
  match checkTarget p.call p.previewed with
  | .error e => (.threw p.call e, gate)
  | .ok (.error problem) => (.decided p.call (.error problem), gate)
  | .ok (.ok verdict) =>
    if verdict = .spendable then
      let (spent, confirmations) := spend p.token gate.confirmations
      (.decided p.call (decisionOf spent p.arguments), { gate with confirmations })
    else (.decided p.call (decisionOf verdict p.arguments), gate)

def step (oldest : Confirmations → Option String) (gate : Gate) : Event → Outcome × Gate
  | .open id call =>
    match call.begin with
    | .error e => (.threw call e, gate)
    | .ok (.decided decision) => (.decided call decision, gate)
    | .ok (.mint token confirmation preview) =>
      (.decided call (.preview preview),
        { gate with confirmations := mint oldest call.nowMs token confirmation gate.confirmations })
    | .ok (.lookUp token arguments) =>
      let (verdict, previewed, confirmations) := lookUp call token arguments gate.confirmations
      if verdict = .spendable then
        (.none, { confirmations, pending := { id, call, token, arguments, previewed } :: gate.pending })
      else (.decided call (decisionOf verdict arguments), { gate with confirmations })
  | .close id =>
    match gate.pending.find? fun p => p.id = id with
    | none => (.none, gate)
    | some p => finish p { gate with pending := gate.pending.eraseP fun p => p.id = id }

end Didi.Safety
