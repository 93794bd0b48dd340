import Didi.Mcp.Requests
import Didi.Safety.Runs

/-!
# Consent

* `gateEvents` : what a run of the server does at the gate, which is a run of the gate (`exec_gate`);
* `HandsOver` : the calls that a request is handed over as;
* `Consented` : who consented to a call that executes.
-/

namespace Didi.Mcp
open Safety
variable {named : Named} {s : Surroundings} {server : McpServer} {request : Request}

variable {config : Config}

/-! ## The gate's part of a run -/

/-- What an event does at the gate. -/
def gateEvent (config : Config) (server : McpServer) : Event → Option Safety.Event
  | .request id request s _ =>
    match request.read config.registry with
    | .error _ => none
    | .ok named =>
      match route config server.jobs request named s.occupied s.nowMs with
      | .ok .offer => (named.dryRun s).toOption.map (.open id)
      | _ => none
  | .dispatch id s => do
    let relay ← server.relays.lookup id
    (dispatchTool relay.tool relay.name relay.arguments s).toOption.map (.open id)
  | .close id => some (.close id)
  | .jobs _ => none

def gateEvents (config : Config) : McpServer → List Event → List Safety.Event
  | _, [] => []
  | server, event :: events =>
    (gateEvent config server event).toList ++ gateEvents config (step config server event).2 events

theorem gateEvents_append (server : McpServer) (events events' : List Event) :
    gateEvents config server (events ++ events') =
      gateEvents config server events ++ gateEvents config (Run.exec (step config) server events) events' := by
  induction events generalizing server with
  | nil => rfl
  | cons event events ih => simp only [List.cons_append, gateEvents, ih, Run.exec_cons, List.append_assoc]

theorem mem_gateEvents {events : List Event} {e : Safety.Event} (h : e ∈ gateEvents config server events) :
    ∃ before event after, events = before ++ event :: after ∧
      gateEvent config (Run.exec (step config) server before) event = some e := by
  induction events generalizing server with
  | nil => cases h
  | cons event events ih =>
    rcases List.mem_append.mp h with h | h
    · exact ⟨[], event, events, rfl, Option.mem_toList.mp h⟩
    · obtain ⟨before, event', after, rfl, hevent'⟩ := ih h
      exact ⟨event :: before, event', after, rfl, hevent'⟩

theorem gateEvents_mem {before after : List Event} {event : Event} {e : Safety.Event}
    (h : gateEvent config (Run.exec (step config) server before) event = some e) :
    e ∈ gateEvents config server (before ++ event :: after) := by
  rw [gateEvents_append, gateEvents, h]
  exact List.mem_append_right _ List.mem_cons_self

theorem respond_gate (server : McpServer) (id : Nat) (request : Request) (named : Named) (relay : Relay)
    (jobId : String) (nowMs : Int) :
    (server.respond id request named relay jobId nowMs).2.gate = server.gate := by
  unfold McpServer.respond
  split
  · dsimp only
    split <;> rfl
  · rfl

theorem respond_outcome (server : McpServer) (id : Nat) (request : Request) (named : Named) (relay : Relay)
    (jobId : String) (nowMs : Int) (o : Safety.Outcome) :
    (server.respond id request named relay jobId nowMs).1 ≠ .gate o := by
  intro h
  unfold McpServer.respond at h
  split at h
  · dsimp only at h
    split at h <;> cases h
  · cases h

theorem respond_inputRequired {id : Nat} {relay : Relay} {jobId : String} {nowMs : Int} {state : Json}
    {message : String} {preview : Preview} :
    (server.respond id request named relay jobId nowMs).1 ≠ .answered (.inputRequired state message preview) := by
  intro h
  unfold McpServer.respond at h
  split at h
  · dsimp only at h
    split at h <;> cases h
  · cases h

theorem offer_gate {id : Nat} {jobId : String} {call : Call} (hcall : named.dryRun s = .ok call) :
    (server.offer config id request named s jobId).2.gate =
      (Safety.step config.oldest server.gate (.open id call)).2 := by
  unfold McpServer.offer
  simp only [hcall]
  split
  · split
    · rfl
    · exact respond_gate ..
  · rfl
  · rfl
  · rfl

theorem offer_outcome {id : Nat} {jobId : String} {call : Call} (hcall : named.dryRun s = .ok call) {o : Safety.Outcome}
    (h : (server.offer config id request named s jobId).1 = .gate o) :
    (Safety.step config.oldest server.gate (.open id call)).1 = o := by
  unfold McpServer.offer at h
  simp only [hcall] at h
  split at h
  · split at h
    · cases h
    · exact (respond_outcome _ _ _ _ _ _ _ o h).elim
  · cases h
  · cases h
  · cases h
    rfl

/-- What an event does to the gate. -/
theorem step_gate (server : McpServer) (event : Event) :
    (step config server event).2.gate =
      Run.exec (Safety.step config.oldest) server.gate (gateEvent config server event).toList := by
  cases event with
  | request id request s jobId =>
    simp only [step, gateEvent]
    cases request.read config.registry with
    | error answer => rfl
    | ok named =>
      dsimp only
      cases route config server.jobs request named s.occupied s.nowMs with
      | error answer => rfl
      | ok way =>
        cases way with
        | relay relay => exact respond_gate ..
        | offer =>
          cases hcall : named.dryRun s with
          | error refusal =>
            simp only [McpServer.offer, hcall]
            rfl
          | ok call => exact offer_gate hcall
  | dispatch id s =>
    simp only [step, gateEvent]
    cases server.relays.lookup id with
    | none => rfl
    | some relay =>
      dsimp only [Option.bind_eq_bind, Option.bind_some]
      cases dispatchTool relay.tool relay.name relay.arguments s with
      | error refusal => rfl
      | ok call => rfl
  | close id => rfl
  | jobs event => rfl

/-- **A run of the server is a run of the gate.** -/
theorem exec_gate (server : McpServer) (events : List Event) :
    (Run.exec (step config) server events).gate =
      Run.exec (Safety.step config.oldest) server.gate (gateEvents config server events) := by
  induction events generalizing server with
  | nil => rfl
  | cons event events ih => rw [Run.exec_cons, ih, gateEvents, Run.exec_append, step_gate]

/-- An event that ends as the gate does was an event of the gate. -/
theorem step_outcome {event : Event} {o : Safety.Outcome} (h : (step config server event).1 = .gate o) :
    ∃ e, gateEvent config server event = some e ∧ (Safety.step config.oldest server.gate e).1 = o := by
  cases event with
  | request id request s jobId =>
    simp only [step, gateEvent] at h ⊢
    cases hread : request.read config.registry with
    | error answer =>
      simp only [hread] at h
      cases h
    | ok named =>
      simp only [hread] at h ⊢
      cases hroute : route config server.jobs request named s.occupied s.nowMs with
      | error answer =>
        simp only [hroute] at h
        cases h
      | ok way =>
        simp only [hroute] at h ⊢
        cases way with
        | relay relay => exact (respond_outcome _ _ _ _ _ _ _ o h).elim
        | offer =>
          cases hcall : named.dryRun s with
          | error refusal =>
            simp only [McpServer.offer, hcall] at h
            cases h
          | ok call => exact ⟨.open id call, rfl, offer_outcome hcall h⟩
  | dispatch id s =>
    simp only [step, gateEvent] at h ⊢
    cases hrelay : server.relays.lookup id with
    | none =>
      simp only [hrelay] at h
      cases h
    | some relay =>
      simp only [hrelay] at h
      cases hcall : dispatchTool relay.tool relay.name relay.arguments s with
      | error refusal =>
        simp only [hcall] at h
        cases h
      | ok call =>
        simp only [hcall] at h
        exact ⟨.open id call, by simp [hcall, Except.toOption], Outcome.gate.inj h⟩
  | close id => exact ⟨.close id, rfl, Outcome.gate.inj h⟩
  | jobs event => cases h

/-! ## Where a call comes from -/

/-- The request is handed over as `relay`, or would be after an offer that comes to nothing. -/
def HandsOver (config : Config) (server : McpServer) (request : Request) (s : Surroundings) (relay : Relay) :
    Prop :=
  ∃ named, request.read config.registry = .ok named ∧
    (route config server.jobs request named s.occupied s.nowMs = .ok (.relay relay) ∨
      route config server.jobs request named s.occupied s.nowMs = .ok .offer ∧ relay = named.relay none)

theorem respond_relays {id : Nat} {relay : Relay} {jobId : String} {nowMs : Int} {e : Nat × Relay}
    (h : e ∈ (server.respond id request named relay jobId nowMs).2.relays) :
    e ∈ server.relays ∨ e.2 = relay := by
  unfold McpServer.respond at h
  split at h
  · dsimp only at h
    split at h
    · exact .inl h
    · rcases List.mem_cons.mp h with rfl | h
      · exact .inr rfl
      · exact .inl h
  · rcases List.mem_cons.mp h with rfl | h
    · exact .inr rfl
    · exact .inl h

/-- A call is handed over by a request, or it was before. -/
theorem step_relays {event : Event} {e : Nat × Relay} (h : e ∈ (step config server event).2.relays) :
    e ∈ server.relays ∨
      ∃ id request s jobId, event = .request id request s jobId ∧ HandsOver config server request s e.2 := by
  cases event with
  | request id request s jobId =>
    simp only [step] at h
    cases hread : request.read config.registry with
    | error answer =>
      simp only [hread] at h
      exact .inl h
    | ok named =>
      simp only [hread] at h
      cases hroute : route config server.jobs request named s.occupied s.nowMs with
      | error answer =>
        simp only [hroute] at h
        exact .inl h
      | ok way =>
        simp only [hroute] at h
        cases way with
        | relay relay =>
          rcases respond_relays h with h | rfl
          · exact .inl h
          · exact .inr ⟨id, request, s, jobId, rfl, named, hread, .inl hroute⟩
        | offer =>
          dsimp only at h
          unfold McpServer.offer at h
          split at h
          · exact .inl h
          · dsimp only at h
            split at h
            · split at h
              · exact .inl h
              · rcases respond_relays h with h | h
                · exact .inl h
                · exact .inr ⟨id, request, s, jobId, rfl, named, hread, .inr ⟨hroute, h⟩⟩
            · exact .inl h
            · exact .inl h
            · exact .inl h
  | dispatch id s =>
    refine .inl ?_
    simp only [step] at h
    split at h
    · exact h
    · split at h
      · exact List.mem_of_mem_eraseP h
      · exact List.mem_of_mem_eraseP h
  | close id => exact .inl h
  | jobs event => exact .inl h

theorem relays_run {events : List Event} {e : Nat × Relay} (h : e ∈ (Run.exec (step config) server events).relays) :
    e ∈ server.relays ∨
      ∃ before id request s jobId after, events = before ++ .request id request s jobId :: after ∧
        HandsOver config (Run.exec (step config) server before) request s e.2 := by
  induction events generalizing server with
  | nil => exact .inl h
  | cons event events ih =>
    rcases ih h with h | ⟨before, id, request, s, jobId, after, rfl, hover⟩
    · rcases step_relays h with h | ⟨id, request, s, jobId, rfl, hover⟩
      · exact .inl h
      · exact .inr ⟨[], id, request, s, jobId, events, rfl, hover⟩
    · exact .inr ⟨event :: before, id, request, s, jobId, after, rfl, hover⟩

/-! ## What a request is handed over as -/

theorem plainRoute_spec {occupied : String → Bool} {way : Route} (h : plainRoute request named occupied = .ok way) :
    (∃ provenance, way = .relay (named.relay provenance)) ∨
      way = .offer ∧ named.arguments.lookup "confirmation_token" = none := by
  unfold plainRoute at h
  dsimp only at h
  by_cases hcontrol :
      ((named.arguments.lookup "confirmation_token").isSome || isPreviewing named.arguments) = true
  · rw [if_pos hcontrol] at h
    cases h
    exact .inl ⟨_, rfl⟩
  · rw [if_neg hcontrol] at h
    by_cases hform : clientCanElicitForms request.params = true
    · rw [if_pos hform] at h
      obtain ⟨requires, -, h⟩ := Except.bind_eq_ok.mp h
      cases requires with
      | false =>
        cases h
        exact .inl ⟨_, rfl⟩
      | true =>
        cases h
        refine .inr ⟨rfl, ?_⟩
        rw [Bool.or_eq_true, not_or, Option.not_isSome_iff_eq_none] at hcontrol
        exact hcontrol.1
    · rw [if_neg hform] at h
      cases h
      exact .inl ⟨_, rfl⟩

/-- A request that answers an offer, and the token of its state. -/
def AnswersWith (config : Config) (request : Request) (named : Named) (token : String) : Prop :=
  ∃ responses, request.params.lookup "inputResponses" = some (.object responses) ∧
    approvedToken config request named responses = .ok token

/-- **Which way a request goes.** -/
theorem route_spec {jobs : Jobs.JobStore} {occupied : String → Bool} {nowMs : Int} {way : Route}
    (h : route config jobs request named occupied nowMs = .ok way) :
    (∃ token, AnswersWith config request named token ∧ way = .relay (named.approve token .human)) ∨
      (∃ provenance, way = .relay (named.relay provenance)) ∨
      way = .offer ∧ named.arguments.lookup "confirmation_token" = none := by
  unfold route at h
  split at h
  · cases h
  · split at h
    · rename_i responses hresponses
      obtain ⟨token, htoken, h⟩ := Except.bind_eq_ok.mp h
      cases h
      exact .inl ⟨token, ⟨responses, hresponses, htoken⟩, rfl⟩
    · exact .inr (plainRoute_spec h)

theorem resolveAliasBinding_invokedName {name : String} {arguments : JsonObject} {binding : ResolvedToolBinding}
    (h : resolveAliasBinding name arguments = .ok binding) : binding.invokedName = name := by
  unfold resolveAliasBinding at h
  split at h
  · cases h
    rfl
  · split_ifs at h
    · obtain ⟨action, -, h⟩ := Except.bind_eq_ok.mp h
      cases h
      rfl
    · cases h
      rfl

theorem emitterAsTarget_lookup {binding : ResolvedToolBinding} {arguments spelled : JsonObject}
    (h : emitterAsTarget binding arguments = .ok spelled) {key : String} (hemitter : key ≠ "emitter_node")
    (htarget : key ≠ "target_node") : spelled.lookup key = arguments.lookup key := by
  unfold emitterAsTarget at h
  split at h
  · split at h
    · cases h
      rfl
    · split at h
      · cases h
      · cases h
        rw [List.lookup_eraseKey, if_neg hemitter, List.lookup_insertKey, if_neg htarget]
  · cases h
    rfl

/-- A dispatched call has the members of its arguments, the ones of the emitting node and `fields` apart. -/
theorem dispatchTool_spec {tool : Tool} {name : String} {arguments : JsonObject} {call : Call}
    (h : dispatchTool tool name arguments s = .ok call) :
    call.binding.invokedName = name ∧ ∀ key, key ≠ "emitter_node" → key ≠ "target_node" → key ≠ "fields" →
      call.members.lookup key = arguments.lookup key := by
  unfold dispatchTool at h
  obtain ⟨binding, hbinding, h⟩ := Except.bind_eq_ok.mp h
  obtain ⟨spelled, hspelled, h⟩ := Except.bind_eq_ok.mp h
  rw [Except.mapError_eq_ok] at hbinding
  cases hrefusal : s.refusal with
  | some e =>
    simp only [hrefusal] at h
    cases h
  | none =>
    simp only [hrefusal] at h
    split_ifs at h with hsections
    all_goals
      cases h
      refine ⟨resolveAliasBinding_invokedName hbinding, ?_⟩
      intro key hemitter htarget hfields
      simp only [Call.members]
    · rw [List.lookup_eraseKey, if_neg hfields, emitterAsTarget_lookup hspelled hemitter htarget]
    · rw [emitterAsTarget_lookup hspelled hemitter htarget]

/-- What a call is handed over with: the arguments of its request, or these with the token of an answered
offer. -/
theorem handsOver_spec {relay : Relay} (h : HandsOver config server request s relay) :
    ∃ named, request.read config.registry = .ok named ∧
      (relay.arguments = named.arguments ∨ ∃ token, AnswersWith config request named token ∧
        relay.arguments = named.arguments.insertKey "confirmation_token" (.string token)) := by
  obtain ⟨named, hread, hroute | ⟨-, rfl⟩⟩ := h
  · refine ⟨named, hread, ?_⟩
    rcases route_spec hroute with ⟨token, hanswers, hway⟩ | ⟨_, hway⟩ | ⟨hway, -⟩
    · cases hway
      exact .inr ⟨token, hanswers, rfl⟩
    · cases hway
      exact .inl rfl
    · cases hway
  · exact ⟨named, hread, .inl rfl⟩

theorem approvedToken_spec {responses : JsonObject} {token : String}
    (h : approvedToken config request named responses = .ok token) :
    config.decodeRequestState ((request.params.lookup "requestState").getD .null) = some (named.name, token) := by
  unfold approvedToken at h
  split at h
  · rename_i tool t reply hdecode _
    by_cases htool : tool ≠ named.name
    · rw [if_pos htool] at h
      cases h
    · rw [if_neg htool] at h
      obtain ⟨action, -, h⟩ := Except.bind_eq_ok.mp h
      split_ifs at h
      obtain rfl : t = token := Except.ok.inj h
      rw [hdecode, not_not.mp htool]
  · cases h

/-! ## Who consented -/

/-- The request carries a confirmation token among its own arguments. -/
def CarriesToken (config : Config) (request : Request) : Prop :=
  ∃ named token, request.read config.registry = .ok named ∧
    named.arguments.lookup "confirmation_token" = some (.string token)

/-- The request accepts an offer, in a form whose `confirm` is true. -/
def ConfirmsInForm (request : Request) : Prop :=
  ∃ responses reply content, request.params.lookup "inputResponses" = some (.object responses) ∧
    responses.lookup kConfirmationRequestKey = some (.object reply) ∧
    reply.lookup "action" = some (.string "accept") ∧ reply.lookup "content" = some (.object content) ∧
    content.lookup "confirm" = some (.boolean true)

/-- The server offered, in one of the events `past`, a call whose dry run is `elicited`, with this request
state. -/
def OfferedIn (config : Config) (server : McpServer) (past : List Event) (tool token : String)
    (elicited : Call) : Prop :=
  ∃ before event after id message preview, past = before ++ event :: after ∧
    gateEvent config (Run.exec (step config) server before) event = some (.open id elicited) ∧
    (step config (Run.exec (step config) server before) event).1 =
      .answered (.inputRequired (encodeRequestState tool token) message preview)

/-- The request state is one that the server offered in the events `past`. -/
def ReturnsOffer (config : Config) (server : McpServer) (past : List Event) (request : Request) : Prop :=
  ∃ tool token elicited, config.decodeRequestState ((request.params.lookup "requestState").getD .null) =
    some (tool, token) ∧ OfferedIn config server past tool token elicited

/-- **What a reply has to be.** A request that answers with accept confirms in the form, and returns a
state that the server issued. -/
def RepliesInForm (config : Config) (server : McpServer) (past : List Event) (event : Event) : Prop :=
  ∀ id request s jobId named token, event = .request id request s jobId →
    request.read config.registry = .ok named → AnswersWith config request named token →
    ConfirmsInForm request ∧ ReturnsOffer config server past request

/-- The token that an offered request state carries is the one its dry run minted. -/
theorem offeredIn_minted {past : List Event} {tool token : String} {elicited : Call}
    (h : OfferedIn config server past tool token elicited) :
    ∃ confirmation, elicited.minted = some (token, confirmation) := by
  obtain ⟨before, event, after, id, message, preview, -, hevent, hanswer⟩ := h
  cases event with
  | request id' request s jobId =>
    simp only [step, gateEvent] at hanswer hevent
    cases hread : request.read config.registry with
    | error answer =>
      simp only [hread] at hevent
      cases hevent
    | ok named =>
      simp only [hread] at hanswer hevent
      split at hevent
      · rename_i hroute
        simp only [hroute] at hanswer
        cases hcall : named.dryRun s with
        | error refusal =>
          rw [hcall] at hevent
          cases hevent
        | ok call =>
          rw [hcall] at hevent
          cases hevent
          simp only [McpServer.offer, hcall] at hanswer
          split at hanswer
          · rename_i hpreview
            split at hanswer
            · rename_i hconfirmation
              cases hanswer
              exact step_preview hpreview hconfirmation
            · exact (respond_inputRequired hanswer).elim
          · cases hanswer
          · cases hanswer
          · cases hanswer
      · cases hevent
  | dispatch id' s =>
    simp only [step, gateEvent] at hanswer hevent
    split at hanswer
    · cases hanswer
    · split at hanswer
      · rename_i refusal _
        cases refusal <;> cases hanswer
      · cases hanswer
  | close id' => cases hanswer
  | jobs event => cases hanswer

/-- The call came from a request that carries its token, or from one that confirms, in the form, an offer
of this call. -/
def Consented (config : Config) (server : McpServer) (past : List Event) (call : Call) : Prop :=
  ∃ before id request s jobId after, past = before ++ .request id request s jobId :: after ∧
    (∃ relay s', HandsOver config (Run.exec (step config) server before) request s relay ∧
      dispatchTool relay.tool relay.name relay.arguments s' = .ok call) ∧
    (CarriesToken config request ∨
      ConfirmsInForm request ∧ ∃ tool token elicited,
        config.decodeRequestState ((request.params.lookup "requestState").getD .null) = some (tool, token) ∧
        OfferedIn config server before tool token elicited ∧
        elicited.binding.invokedName = call.binding.invokedName ∧ SameArguments elicited.own call.own)

/-- A call at the gate is the dry run of an offer or was handed over. -/
theorem open_origin (hserver : server.relays = []) {events : List Event} {id : Nat} {call : Call}
    (h : .open id call ∈ gateEvents config server events) :
    call.token = none ∨
      ∃ before id request s jobId after relay s', events = before ++ .request id request s jobId :: after ∧
        HandsOver config (Run.exec (step config) server before) request s relay ∧
        dispatchTool relay.tool relay.name relay.arguments s' = .ok call := by
  obtain ⟨before, event, after, rfl, hevent⟩ := mem_gateEvents h
  cases event with
  | request id' request s jobId =>
    refine .inl ?_
    simp only [gateEvent] at hevent
    split at hevent
    · cases hevent
    · rename_i named hread
      split at hevent
      · rename_i hroute
        cases hcall : named.dryRun s with
        | error refusal =>
          rw [hcall] at hevent
          cases hevent
        | ok c =>
          rw [hcall] at hevent
          cases hevent
          have hlookup := (dispatchTool_spec hcall).2 "confirmation_token" (by decide) (by decide) (by decide)
          rcases route_spec hroute with ⟨_, -, hway⟩ | ⟨_, hway⟩ | ⟨-, hnone⟩
          · cases hway
          · cases hway
          · rw [List.lookup_insertKey, if_neg (by decide), hnone] at hlookup
            rw [Call.token, hlookup]
      · cases hevent
  | dispatch id' s' =>
    refine .inr ?_
    simp only [gateEvent] at hevent
    obtain ⟨relay, hrelay, hevent⟩ := Option.bind_eq_some_iff.mp hevent
    obtain ⟨c, hc, hopen⟩ := Option.map_eq_some_iff.mp hevent
    cases hopen
    rcases relays_run (List.mem_of_lookup hrelay) with hmem | ⟨earlier, i, request, s, jobId, later, hbefore, hover⟩
    · rw [hserver] at hmem
      cases hmem
    · refine ⟨earlier, i, request, s, jobId, later ++ .dispatch id s' :: after, relay, s', ?_, hover, ?_⟩
      · rw [hbefore, List.append_assoc, List.cons_append]
      · exact Except.toOption_eq_some.mp hc
  | close id' =>
    simp only [gateEvent] at hevent
    cases hevent
  | jobs event => cases hevent

/-- A server that has just started. -/
def McpServer.start (limits : Jobs.Limits) : McpServer where
  jobs := { limits }

/-- **No call runs without consent**, where every accepting reply confirms in its form and returns a state
that the server issued, and no call offers a token for arguments that are not its own. -/
theorem executes_consented {limits : Jobs.Limits} {events : List Event}
    (hfresh : ((gateEvents config (.start limits) events).filterMap Safety.Event.minted).Nodup)
    (happart : Run.Along (Safety.step config.oldest) (TellsApart SameArguments) {}
      (gateEvents config (.start limits) events))
    (hforms : ∀ before event after, events = before ++ event :: after →
      RepliesInForm config (.start limits) before event)
    {before after : List Event} {event : Event} {call : Call} {arguments : JsonObject}
    (hevents : events = before ++ event :: after)
    (hexec : (step config (Run.exec (step config) (.start limits) before) event).1 =
      .gate (.decided call (.execute arguments)))
    (hneeds : call.NeedsConfirmation) : Consented config (.start limits) before call := by
  obtain ⟨e, he, houtcome⟩ := step_outcome hexec
  rw [exec_gate] at houtcome
  have hsplit : ∃ rest, gateEvents config (.start limits) events =
      gateEvents config (.start limits) before ++ e :: rest := by
    refine ⟨gateEvents config (step config (Run.exec (step config) (.start limits) before) event).2 after, ?_⟩
    rw [hevents, gateEvents_append, gateEvents, he]
    rfl
  obtain ⟨rest, hsplit⟩ := hsplit
  rw [hsplit] at happart
  obtain ⟨token, confirmation, htoken,
    ⟨earlier, id, later, hbefore, -, _, preview, hmem, -, hminted, hname, hsame, -⟩, -⟩ :=
    executes_spec (Run.along_append.mp happart).1 ⟨arguments, houtcome⟩ (.inr hneeds)
  have hopen : .open id call ∈ gateEvents config (.start limits) before := by
    rw [hbefore]
    exact List.mem_append_right _ List.mem_cons_self
  rcases open_origin rfl hopen with hnone | ⟨b, i, request, s, jobId, aft, relay, s', hb, hover, hdispatch⟩
  · rw [htoken] at hnone
    cases hnone
  refine ⟨b, i, request, s, jobId, aft, hb, ⟨relay, s', hover, hdispatch⟩, ?_⟩
  obtain ⟨named, hread, hways⟩ := handsOver_spec hover
  have hlookup : relay.arguments.lookup "confirmation_token" = some (.string token) := by
    rw [← (dispatchTool_spec hdispatch).2 "confirmation_token" (by decide) (by decide) (by decide)]
    unfold Call.token at htoken
    split at htoken
    · rename_i t h
      cases htoken
      exact h
    · cases htoken
  rcases hways with harguments | ⟨t, hanswers, harguments⟩
  · rw [harguments] at hlookup
    exact .inl ⟨named, token, hread, hlookup⟩
  · rw [harguments, List.lookup_insertKey, if_pos rfl] at hlookup
    cases hlookup
    have hposition : events = b ++ .request i request s jobId :: (aft ++ event :: after) := by
      rw [hevents, hb, List.append_assoc, List.cons_append]
    obtain ⟨hconfirms, tool, t, elicited, hdecode, hoffered⟩ :=
      hforms b _ _ hposition i request s jobId named token rfl hread hanswers
    refine .inr ⟨hconfirms, tool, t, elicited, hdecode, hoffered, ?_⟩
    obtain ⟨responses, -, happroved⟩ := hanswers
    rw [approvedToken_spec happroved] at hdecode
    cases hdecode
    obtain ⟨confirmation', hminted'⟩ := offeredIn_minted hoffered
    obtain ⟨b', event', aft', id', message, shown, hb', hevent', -⟩ := hoffered
    have helicited : Safety.Event.open id' elicited ∈ gateEvents config (.start limits) events := by
      rw [hposition, hb', List.append_assoc]
      exact gateEvents_mem hevent'
    have hpreview : ∀ {e}, e ∈ earlier → e ∈ gateEvents config (.start limits) events := by
      intro e h
      rw [hsplit, hbefore]
      exact List.mem_append_left _ (List.mem_append_left _ h)
    have := minted_inj hfresh helicited (hpreview hmem) (by rw [Safety.Event.minted, hminted']; rfl)
      (by rw [Safety.Event.minted, hminted]; rfl)
    cases this
    exact ⟨hname, hsame⟩

/-! ## A form that says no -/

def sampleState : String :=
  "eyJ0b2tlbiI6ImFhYWFhYWFhYWFhYWFhYWFhYWFhYWFhYWFhYWFhYWFhYWFhYWFhYWFhYWFhYWFhYWFhYWFhYWFhYWFhYWFhYWEiLCJ0b29sIjoic2lnbmFsX2VtaXQifQ=="

/-- The one request state that is read below is `sampleState`. -/
def sampleConfig : Config where
  registry := { getTool := fun name => some { canonicalName := name } }
  decode _ := some (encodeRequestState "signal_emit" sampleToken)
  oldest := sampleOldest

def sampleArguments : JsonObject := [("signal_name", .string "pressed"), ("target_node", .string "Button")]

def sampleSurroundings : Surroundings where
  context := sampleContext
  nowMs := 0
  drawn := sampleToken

/-- A call from a client that can show a form. -/
def sampleRequest : Request where
  params := [("_meta", .object [(kClientCapabilitiesMetaKey, .object [("elicitation", .object [])])]),
    ("arguments", .object sampleArguments), ("name", .string "signal_emit")]

/-- The same call, approved with a form that says `confirm`. -/
def sampleReply (confirm : Bool) : Request where
  params := [("arguments", .object sampleArguments),
    ("inputResponses", .object [(kConfirmationRequestKey,
      .object [("action", .string "accept"), ("content", .object [("confirm", .boolean confirm)])])]),
    ("name", .string "signal_emit"), ("requestState", .string sampleState)]

def sampleEvents (confirm : Bool) : List Event :=
  [.request 0 sampleRequest sampleSurroundings "", .request 1 (sampleReply confirm) sampleSurroundings "",
    .dispatch 1 sampleSurroundings]

/-- The dry run behind the offer. -/
def sampleElicited : Call where
  binding := ⟨"signal_emit", "signal_emit", "signal_emit"⟩
  arguments := .object (sampleArguments.insertKey "dry_run" (.boolean true))
  context := sampleContext
  nowMs := 0
  drawn := sampleToken

/-- The call that the reply is handed over as. -/
def sampleApproved : Call where
  binding := ⟨"signal_emit", "signal_emit", "signal_emit"⟩
  arguments := .object (sampleArguments.insertKey "confirmation_token" (.string sampleToken))
  context := sampleContext
  nowMs := 0
  drawn := sampleToken

theorem sample_executes (confirm : Bool) :
    (step sampleConfig (Run.exec (step sampleConfig) (.start {}) (sampleEvents confirm)) (.close 1)).1 =
      .gate (.decided sampleApproved (.execute sampleArguments)) := rfl

theorem sample_gateEvents (confirm : Bool) :
    gateEvents sampleConfig (.start {}) (sampleEvents confirm ++ [.close 1]) =
      [.open 0 sampleElicited, .open 1 sampleApproved, .close 1] := rfl

theorem sample_offered :
    OfferedIn sampleConfig (.start {}) [.request 0 sampleRequest sampleSurroundings ""] "signal_emit"
      sampleToken sampleElicited :=
  ⟨[], _, [], 0, _, _, rfl, rfl, rfl⟩

theorem executes_consented_sample :
    Consented sampleConfig (.start {}) (sampleEvents true) sampleApproved := by
  have hevents : sampleEvents true ++ [.close 1] = sampleEvents true ++ .close 1 :: [] := rfl
  refine executes_consented ?_ ?_ ?_ hevents (sample_executes true) rfl
  · rw [sample_gateEvents]
    exact List.nodup_singleton sampleToken
  · rw [sample_gateEvents]
    refine Run.along_cons ?_ (Run.along_cons ?_ (Run.along_cons ?_ (Run.along_nil _ _)))
    · intro id call token confirmation hevent htoken
      cases hevent
      cases htoken
    · intro id call token confirmation hevent htoken hget
      cases hevent
      cases htoken
      cases hget
      intro
      rfl
    · intro id call token confirmation hevent
      cases hevent
  · intro before event after hevents id request s jobId named token hevent hread hanswers
    subst hevent
    rcases before with - | ⟨first, - | ⟨second, - | ⟨third, - | ⟨fourth, rest⟩⟩⟩⟩
    · cases hevents
      obtain ⟨responses, hresponses, -⟩ := hanswers
      cases hresponses
    · cases hevents
      exact ⟨⟨_, _, _, rfl, rfl, rfl, rfl, rfl⟩, _, _, _, rfl, sample_offered⟩
    · cases hevents
    · cases hevents
    · have hlength := congrArg List.length hevents
      simp [sampleEvents] at hlength

/-- The form says no, and the call executes: neither request carries a token or says yes. -/
theorem refused_form_executes :
    (step sampleConfig (Run.exec (step sampleConfig) (.start {}) (sampleEvents false)) (.close 1)).1 =
        .gate (.decided sampleApproved (.execute sampleArguments)) ∧
      sampleApproved.NeedsConfirmation ∧
      ∀ id request s jobId, .request id request s jobId ∈ sampleEvents false →
        ¬ CarriesToken sampleConfig request ∧ ¬ ConfirmsInForm request := by
  refine ⟨sample_executes false, rfl, ?_⟩
  intro id request s jobId hmem
  rcases List.mem_cons.mp hmem with h | hmem
  · cases h
    constructor
    · rintro ⟨named, token, hread, htoken⟩
      cases hread
      cases htoken
    · rintro ⟨responses, reply, content, hresponses, -⟩
      cases hresponses
  · rcases List.mem_cons.mp hmem with h | hmem
    · cases h
      constructor
      · rintro ⟨named, token, hread, htoken⟩
        cases hread
        cases htoken
      · rintro ⟨responses, reply, content, hresponses, hreply, -, hcontent, hconfirm⟩
        cases hresponses
        cases hreply
        cases hcontent
        cases hconfirm
    · cases List.mem_singleton.mp hmem

end Didi.Mcp
