import Didi.Safety.Gate
import Didi.Jobs.Store

/-!
# Requests to call a tool

* `resolveAliasBinding` : the names that a call goes by;
* `dispatchTool` : what the registry does with a call before the gate: it settles the spelling of the
  arguments and takes its own out of them;
* `Request.read` : what a `tools/call` request names;
* `route` : which way it goes: it is answered, it is handed to the registry as it stands, or a person is
  asked first;
* `step` : requests, the registry's calls they lead to and the sections of these, in any order.

What the registry's other checks (the schema, the tool's own, the route) refuse a call with is read from
`Surroundings`, with the rest that a call reads from outside.

A request that is handed over becomes a `Relay`; whether it runs at once or on the thread of a job, its
call reaches the registry later. The text of a request's state is read by `Config.decode`. Left out are a
server that skips confirmations, and requests to normalize arguments: only three tools take these, and
they change nothing.
-/

namespace Didi.Mcp
open Safety
open Json (find)

def directAliases : List (String × String) :=
  [("get_scene_hierarchy", "scene_get_hierarchy"), ("capture_viewport", "viewport_capture_frame"),
    ("analyze_script_diagnostics", "script_check_syntax"), ("patch_script_symbols", "script_patch_method"),
    ("create_visual_test_lab", "viewport_create_test_lab"),
    ("query_project_resources", "project_list_resources"), ("execute_test_session", "runtime_launch"),
    ("inject_input_event", "runtime_inject_input")]

/-- The policy of a `mutate_scene_tree` call. -/
def sceneTreePolicy (action : String) : String :=
  if action = "instantiate" then "scene_instantiate_node"
  else if action = "remove" then "scene_remove_node"
  else if action = "reparent" then "scene_reparent_node"
  else if action = "set_property" then "scene_set_property"
  else if action = "duplicate" then "scene_duplicate_node"
  else "mutate_scene_tree"

def resolveAliasBinding (invokedName : String) (arguments : JsonObject) :
    Except JsonException ResolvedToolBinding :=
  match directAliases.lookup invokedName with
  | some canonical => .ok ⟨invokedName, canonical, canonical⟩
  | none =>
    if invokedName = "mutate_scene_tree" then do
      let policy := sceneTreePolicy (← (Json.object arguments).valueString "action" "")
      return ⟨invokedName, policy, policy⟩
    else .ok ⟨invokedName, invokedName, invokedName⟩

/-- What the registry holds of a tool, as far as the way to the gate depends on it. -/
structure Tool where
  canonicalName : String
  /-- Whether `fields` is an argument of the registry's. -/
  sections : Bool := false

structure Registry where
  getTool : String → Option Tool
  inProfile : String → Bool := fun _ => true

/-- What a call reads from outside on its way through the registry. -/
structure Surroundings where
  /-- What the registry's own checks refuse the call with. -/
  refusal : Option Error := none
  context : MutationContext
  probe : Option (Except Error (Json × Json)) := none
  occupied : String → Bool := fun _ => true
  nowMs : Int
  drawn : String := ""

/-- How a call ends before the gate. -/
inductive Refusal
  | error (e : Error)
  | threw (e : JsonException)

def takesEmitterAsTargetNode (canonicalName : String) : Bool :=
  canonicalName = "signal_list_connections" || canonicalName = "signal_emit"

def errorBothEmitters (binding : ResolvedToolBinding) : Error :=
  .invalidArgument ("Arguments 'emitter_node' and 'target_node' both name the emitting node " ++
    "on " ++ binding.canonicalName ++ ". Send one.")

def errorNoEmitter : Error :=
  .invalidArgument ("Missing required argument 'emitter_node', the node that emits the " ++
    "signal. 'target_node' is accepted for it too.")

/-- The arguments with the emitting node under one name. -/
def emitterAsTarget (binding : ResolvedToolBinding) (arguments : JsonObject) : Except Refusal JsonObject :=
  if takesEmitterAsTargetNode binding.canonicalName then
    match arguments.lookup "emitter_node" with
    | none => .ok arguments
    | some emitter =>
      if (arguments.lookup "target_node").isSome then .error (.error (errorBothEmitters binding))
      else .ok ((arguments.insertKey "target_node" emitter).eraseKey "emitter_node")
  else .ok arguments

/-- A call on its way to the gate. Both rewritings dispatch the call again under the same name, and none
of the names it goes by depends on what they change. -/
def dispatchTool (tool : Tool) (name : String) (arguments : JsonObject) (s : Surroundings) :
    Except Refusal Call := do
  let binding ← (resolveAliasBinding name arguments).mapError .threw
  let arguments ← emitterAsTarget binding arguments
  match s.refusal with
  | some e => .error (.error e)
  | none =>
    let arguments := if tool.sections then arguments.eraseKey "fields" else arguments
    if takesEmitterAsTargetNode binding.canonicalName && (arguments.lookup "target_node").isNone then
      .error (.error errorNoEmitter)
    else
      .ok {
        binding
        arguments := .object arguments
        context := s.context
        probe := s.probe
        occupied := s.occupied
        nowMs := s.nowMs
        drawn := s.drawn }

/-! ## Requests to call a tool -/

def kConfirmationRequestKey : String := "didi_confirm_mutation"
def kClientCapabilitiesMetaKey : String := "io.modelcontextprotocol/clientCapabilities"
def kTasksExtension : String := "io.modelcontextprotocol/tasks"

structure Config where
  registry : Registry
  /-- What a request state says: its text out of base64, parsed. -/
  decode : String → Option Json
  oldest : Confirmations → Option String

structure Request where
  params : JsonObject
  /-- Whether the request marked itself modern. -/
  modern : Bool := false
  /-- The conversation that the request belongs to. -/
  conversation : String := "legacy"

/-- What the server answers a request with, where it does not hand it over. -/
inductive Answer
  | invalidParams (message : String)
  | refused (e : Error)
  | job (view : Jobs.JobView)
  | inputRequired (state : Json) (message : String) (preview : Preview)

inductive Provenance
  | agent
  | human
  deriving DecidableEq

/-- A call that the server has handed to the registry. -/
structure Relay where
  name : String
  tool : Tool
  arguments : JsonObject
  provenance : Option Provenance

/-! ## What a request says -/

def clientCapabilities (params : JsonObject) : Option Json := do
  let info ← params.lookup "_meta"
  find info kClientCapabilitiesMetaKey

def requestDeclaresTasks (params : JsonObject) : Bool :=
  match clientCapabilities params with
  | none => false
  | some capabilities =>
    match find capabilities "extensions" with
    | none => false
    | some extensions => (find extensions kTasksExtension).isSome

def clientCanElicitForms (params : JsonObject) : Bool :=
  match clientCapabilities params with
  | none => false
  | some capabilities =>
    match find capabilities "elicitation" with
    | some (.object elicitation) => elicitation.isEmpty || (elicitation.lookup "form").isSome
    | _ => false

def isRequestIdByte (b : UInt8) : Bool :=
  let c := Char.ofNat b.toNat
  c.isAlphanum || c = '.' || c = '_' || c = ':' || c = '-'

def validRequestId : Json → Bool
  | .string text => 8 ≤ text.utf8ByteSize && text.utf8ByteSize ≤ 64 && text.toUTF8.toList.all isRequestIdByte
  | _ => false

def toolRunsAsJob (canonical : String) : Bool :=
  canonical = "project_export" || canonical = "csharp_check_build" || canonical = "asset_reimport" ||
    canonical = "editor_reload_project" || canonical = "runtime_run_scenario" ||
    canonical = "project_run_tests" || canonical = "runtime_launch"

def jobFingerprint (tool : String) (arguments : JsonObject) : String :=
  let kept := ((arguments.eraseKey "request_id").eraseKey "confirmation_token").eraseKey "dry_run"
  tool ++ "\n" ++ (Json.object kept).dump

def isPreviewing (arguments : JsonObject) : Bool :=
  match arguments.lookup "dry_run" with
  | some (.boolean dryRun) => dryRun
  | _ => false

/-- A call as a request names it, without the id that names its work. -/
structure Named where
  name : String
  tool : Tool
  arguments : JsonObject
  requestId : Option String

def errorRequestId : Error where
  code := 400
  message := "request_id must be 8 to 64 letters, digits, '.', '_', ':' or " ++
    "'-'. It names this work, so pick one that will not be reused " ++
    "for different work."
  data := .object [("code", .string "invalid_arguments"), ("field", .string "request_id")]

/-- The id that names the work of a call, taken out of its arguments. -/
def takeRequestId (tool : Tool) (arguments : JsonObject) : Except Answer (Option String × JsonObject) :=
  if toolRunsAsJob tool.canonicalName then
    match arguments.lookup "request_id" with
    | none => .ok (none, arguments)
    | some (.string text) =>
      if validRequestId (.string text) then .ok (some text, arguments.eraseKey "request_id")
      else .error (.refused errorRequestId)
    | some _ => .error (.refused errorRequestId)
  else .ok (none, arguments)

def Request.name (request : Request) : Except Answer String :=
  match request.params.lookup "name" with
  | some (.string name) => .ok name
  | _ => .error (.invalidParams "Tool name must be a string")

def Request.supplied (request : Request) : Except Answer JsonObject :=
  match request.params.lookup "arguments" with
  | none => .ok []
  | some (.object arguments) => .ok arguments
  | some _ => .error (.invalidParams "Tool arguments must be a JSON object")

def Request.read (registry : Registry) (request : Request) : Except Answer Named := do
  let name ← request.name
  let supplied ← request.supplied
  if name = "" then
    throw (.invalidParams "Tool name is required")
  match registry.getTool name with
  | none => throw (.invalidParams ("Unknown tool: " ++ name))
  | some tool =>
    if !registry.inProfile name then
      throw (.invalidParams ("Unknown tool in this session: " ++ name ++
        " is not in the core tool profile this server was started with. " ++
        "Restart the server with --tools full to list and call it."))
    let (requestId, arguments) ← takeRequestId tool supplied
    return { name, tool, arguments, requestId }

/-! ## Long work -/

/-- How the work of a call runs: at once, or as a job with this id and fingerprint. -/
def Request.asJob (request : Request) (named : Named) : Bool :=
  toolRunsAsJob named.tool.canonicalName && !isPreviewing named.arguments &&
    (named.requestId.isSome || request.modern && requestDeclaresTasks request.params)

def errorRequestIdConflict (requestId canonical : String) (existing : Jobs.JobView) : Error where
  code := 409
  message := "request_id " ++ requestId ++ " already names a " ++ canonical ++
    " job started with different arguments, so this call was " ++
    "not run. Send the arguments that job was started with to " ++
    "read it, or a new request_id to start this work."
  data := .object [("code", .string "request_id_conflict"), ("field", .string "request_id"),
    ("job_id", .string existing.id), ("retryable", .boolean false)]

/-- The answer to a call whose work is kept already. -/
def answerExisting (jobs : Jobs.JobStore) (request : Request) (named : Named) (nowMs : Int) : Option Answer :=
  match named.requestId with
  | none => none
  | some requestId =>
    match jobs.findByRequest request.conversation named.tool.canonicalName requestId nowMs with
    | none => none
    | some existing =>
      if !named.arguments.isEmpty &&
          existing.fingerprint ≠ jobFingerprint named.tool.canonicalName named.arguments then
        some (.refused (errorRequestIdConflict requestId named.tool.canonicalName existing))
      else some (.job existing)

/-! ## A person's decision -/

def encodeRequestState (tool token : String) : Json :=
  .object [("token", .string token), ("tool", .string tool)]

def Config.decodeRequestState (config : Config) : Json → Option (String × String)
  | .string text =>
    match config.decode text with
    | some parsed =>
      match find parsed "tool", find parsed "token" with
      | some (.string tool), some (.string token) => some (tool, token)
      | _, _ => none
    | none => none
  | _ => none

def errorNotApproved (action : String) : Error where
  code := 403
  message := "Mutation was not approved"
  data := .object [("action", .string action), ("code", .string "not_approved"),
    ("retryable", .boolean (action = "cancel"))]

def typeMismatch (_ : JsonException) : Answer := .invalidParams "Invalid JSON parameter types"

/-- The token that an approved request goes on with. -/
def approvedToken (config : Config) (request : Request) (named : Named) (responses : JsonObject) :
    Except Answer String :=
  match config.decodeRequestState ((request.params.lookup "requestState").getD .null),
      responses.lookup kConfirmationRequestKey with
  | some (tool, token), some (.object reply) =>
    if tool ≠ named.name then .error (.invalidParams "requestState does not belong to this tool")
    else do
      let action ← ((Json.object reply).valueString "action" "cancel").mapError typeMismatch
      if action ≠ "accept" then .error (.refused (errorNotApproved action))
      else return token
  | _, _ => .error (.invalidParams "inputResponses must answer the request this server issued")

/-! ## The ways a request goes -/

inductive Route
  | relay (relay : Relay)
  | offer

/-- The gate's rule, as the server asks it of the arguments that it was given. -/
def Named.requiresConfirmation (named : Named) (occupied : String → Bool) : Except Answer Bool :=
  (do
    let binding ← resolveAliasBinding named.name named.arguments
    Safety.requiresConfirmation occupied binding named.arguments).mapError typeMismatch

def Named.relay (named : Named) (provenance : Option Provenance) : Relay :=
  { name := named.name, tool := named.tool, arguments := named.arguments, provenance }

/-- The arguments with a token for them. -/
def Named.approve (named : Named) (token : String) (provenance : Provenance) : Relay :=
  { named.relay (some provenance) with
    arguments := named.arguments.insertKey "confirmation_token" (.string token) }

/-- A call that answers no offer. -/
def plainRoute (request : Request) (named : Named) (occupied : String → Bool) :
    Except Answer Route := do
  let alreadyConfirmed := (named.arguments.lookup "confirmation_token").isSome
  let plain := named.relay (if alreadyConfirmed then some .agent else none)
  if alreadyConfirmed || isPreviewing named.arguments then return .relay plain
  if clientCanElicitForms request.params then
    if ← named.requiresConfirmation occupied then return .offer
  return .relay plain

def route (config : Config) (jobs : Jobs.JobStore) (request : Request) (named : Named)
    (occupied : String → Bool) (nowMs : Int) : Except Answer Route :=
  match if request.asJob named then answerExisting jobs request named nowMs else none with
  | some answer => .error answer
  | none =>
    match request.params.lookup "inputResponses" with
    | some (.object responses) => do
      let token ← approvedToken config request named responses
      return .relay (named.approve token .human)
    | _ => plainRoute request named occupied

/-! ## Requests and calls side by side -/

structure McpServer where
  gate : Gate := {}
  jobs : Jobs.JobStore
  /-- The calls that were handed over and have not reached the registry, by the request's number. -/
  relays : List (Nat × Relay) := []

/-- The request with the number `id` is read; the call that it was handed over as reaches the registry;
the call ends, after its look-up; or something happens to the jobs. -/
inductive Event
  | request (id : Nat) (request : Request) (s : Surroundings) (jobId : String)
  | dispatch (id : Nat) (s : Surroundings)
  | close (id : Nat)
  | jobs (event : Jobs.Event)

inductive Outcome
  | none
  | answered (answer : Answer)
  | gate (outcome : Safety.Outcome)

def Refusal.answer : Refusal → Answer
  | .error e => .refused e
  | .threw e => typeMismatch e

/-- Hands a call over, as a job where it runs as one. -/
def McpServer.respond (server : McpServer) (id : Nat) (request : Request) (named : Named) (relay : Relay)
    (jobId : String) (nowMs : Int) : Outcome × McpServer :=
  if request.asJob named then
    let start : Jobs.JobStore.StartRequest := {
      conversation := request.conversation
      tool := named.tool.canonicalName
      requestId := named.requestId.getD ""
      fingerprint := jobFingerprint named.tool.canonicalName named.arguments }
    match server.jobs.reap.start jobId start nowMs with
    | (.error e, jobs) => (.answered (.refused e), { server with jobs })
    | (.ok _, jobs) => (.none, { server with jobs, relays := (id, relay) :: server.relays })
  else (.none, { server with relays := (id, relay) :: server.relays })

def describeMutationTarget (arguments : JsonObject) : String :=
  let keys := ["save_path", "file_path", "target_node", "emitter_node", "resource_path", "scene_path",
    "output_path", "node_path"]
  let named := keys.filterMap fun key =>
    match arguments.lookup key with
    | some (.string target) => some target
    | _ => none
  named.headD "this project"

/-- The dry run behind an offer. -/
def Named.dryRun (named : Named) (s : Surroundings) : Except Refusal Call :=
  dispatchTool named.tool named.name (named.arguments.insertKey "dry_run" (.boolean true)) s

/-- Asks a person about a call, with the token that its dry run minted. -/
def McpServer.offer (config : Config) (server : McpServer) (id : Nat) (request : Request) (named : Named)
    (s : Surroundings) (jobId : String) : Outcome × McpServer :=
  match named.dryRun s with
  | .error refusal => (.answered refusal.answer, server)
  | .ok call =>
    let (outcome, gate) := Safety.step config.oldest server.gate (.open id call)
    let server := { server with gate }
    match outcome with
    | .decided _ (.preview preview) =>
      match preview.confirmation with
      | some (token, _) =>
        let message := "Didi wants to run " ++ named.name ++ " on " ++ describeMutationTarget named.arguments ++
          ". This changes your project. Approve?"
        (.answered (.inputRequired (encodeRequestState named.name token) message preview), server)
      | none => server.respond id request named (named.relay none) jobId s.nowMs
    | .decided _ (.error e) => (.answered (.refused e), server)
    | .threw _ e => (.answered (typeMismatch e), server)
    -- no dry run ends otherwise
    | outcome => (.gate outcome, server)

def step (config : Config) (server : McpServer) : Event → Outcome × McpServer
  | .request id request s jobId =>
    match request.read config.registry with
    | .error answer => (.answered answer, server)
    | .ok named =>
      match route config server.jobs request named s.occupied s.nowMs with
      | .error answer => (.answered answer, server)
      | .ok (.relay relay) => server.respond id request named relay jobId s.nowMs
      | .ok .offer => server.offer config id request named s jobId
  | .dispatch id s =>
    match server.relays.lookup id with
    | none => (.none, server)
    | some relay =>
      let server := { server with relays := server.relays.eraseP fun e => e.1 = id }
      match dispatchTool relay.tool relay.name relay.arguments s with
      | .error refusal => (.answered refusal.answer, server)
      | .ok call =>
        let (outcome, gate) := Safety.step config.oldest server.gate (.open id call)
        (.gate outcome, { server with gate })
  | .close id =>
    let (outcome, gate) := Safety.step config.oldest server.gate (.close id)
    (.gate outcome, { server with gate })
  | .jobs event => (.none, { server with jobs := (Jobs.step server.jobs event).2 })

end Didi.Mcp
