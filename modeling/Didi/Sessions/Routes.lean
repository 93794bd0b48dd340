import Mathlib.Data.String.Basic
import Didi.Lib.OrderedMap

/-!
# The routes that a client holds to runtime sessions

* `SessionClient` : the routes, the selection and the counters, all under one lock;
* `World` : the client and the calls that are under way, each of them between two of its sections;
* `step` : one section of one call.

Connecting and the handshake run outside the lock: a section carries what was found there, and what the processes
and the connections answer while it runs (`Engines`). A counter of 64 bits is a natural number.
-/

namespace Didi.Sessions

/-- What a descriptor says of a session. -/
structure SessionDescriptor where
  sessionId : String
  projectPath : String := ""
  kind : String := ""
  pid : Nat := 0
  startedAtMs : Int := 0
deriving DecidableEq

/-- One held route. The connection and the lock are known by their addresses. -/
structure Route where
  client : Nat
  lock : Nat
  descriptor : SessionDescriptor
  generation : Nat
deriving DecidableEq

structure RuntimeRouteLease where
  client : Nat
  descriptor : Option SessionDescriptor
  generation : Nat

/-- What the connections and the processes answer. -/
structure Engines where
  isConnected : Nat → Bool
  provenStale : SessionDescriptor → Bool

def kMaxHeldRoutes : Nat := 8

structure SessionClient where
  routes : OrderedMap String Route := ∅
  selectedSessionId : String := ""
  explicitSessionId : Option String := none
  autoAttachEnabled : Bool := true
  autoAttachInProgress : Bool := false
  releaseEpoch : Nat := 0
  teardowns : OrderedMap String Nat := ∅
  nextGeneration : Nat := 1

/-- An attach that has read the counters and is connecting. -/
structure Attach where
  descriptor : SessionDescriptor
  makeSelected : Bool
  explicitSelection : Bool
  releaseEpoch : Nat
  teardowns : Nat
  -- the lock of a route that was held already
  sessionLock : Option Nat

namespace SessionClient

def teardownsLocked (c : SessionClient) (sessionId : String) : Nat := (c.teardowns.get sessionId).getD 0

/-- The selection, unless it is gone. -/
def deselect (c : SessionClient) (sessionId : String) : SessionClient :=
  if c.selectedSessionId = sessionId then { c with selectedSessionId := "" } else c

/-- `takeRouteLocked`. -/
def takeRoute (c : SessionClient) (sessionId : String) : SessionClient :=
  if c.routes.contains sessionId then
    { c.deselect sessionId with
      routes := c.routes.erase sessionId
      teardowns := c.teardowns.insert sessionId (c.teardownsLocked sessionId + 1) }
  else c

def disconnect (c : SessionClient) : SessionClient :=
  { c with
    routes := ∅
    selectedSessionId := ""
    explicitSessionId := none
    autoAttachEnabled := false
    releaseEpoch := c.releaseEpoch + 1 }

def detachSession (c : SessionClient) : SessionClient :=
  let c := { c with autoAttachEnabled := false, explicitSessionId := none }
  if c.selectedSessionId = "" || !c.routes.contains c.selectedSessionId then c
  else c.takeRoute c.selectedSessionId

def closeSessionRoute (c : SessionClient) (sessionId : String) : SessionClient :=
  if c.routes.contains sessionId && c.explicitSessionId = some sessionId then
    { c.takeRoute sessionId with explicitSessionId := none }
  else c.takeRoute sessionId

def quarantineRoute (c : SessionClient) (lease : RuntimeRouteLease) : Bool × SessionClient :=
  match lease.descriptor with
  | none => (false, c)
  | some descriptor =>
    match c.routes.get descriptor.sessionId with
    | none => (false, c)
    | some route =>
      if route.generation ≠ lease.generation || route.client ≠ lease.client then (false, c)
      else (true, { c.takeRoute descriptor.sessionId with autoAttachEnabled := false })

def quarantineIfCurrent (c : SessionClient) (client : Nat) : SessionClient :=
  match c.routes.entries.find? fun e => e.2.client = client with
  | none => c
  | some (owner, _) => if owner = "" then c else { c.takeRoute owner with autoAttachEnabled := false }

/-- The routes for which `keep` answers true stay. -/
def reap (c : SessionClient) (keep : Route → Bool) : SessionClient :=
  let routes := c.routes.filter fun _ route => keep route
  { c with
    routes
    selectedSessionId :=
      if c.routes.contains c.selectedSessionId && !routes.contains c.selectedSessionId then ""
      else c.selectedSessionId }

def releaseDeadRoutes (c : SessionClient) (engines : Engines) : SessionClient :=
  c.reap fun route => engines.isConnected route.client && !engines.provenStale route.descriptor

def releaseExitedRoutes (c : SessionClient) (engines : Engines) : SessionClient :=
  c.reap fun route => !engines.provenStale route.descriptor

def leaseFor (c : SessionClient) (sessionId : String) (engines : Engines) : Option RuntimeRouteLease :=
  match c.routes.get sessionId with
  | none => none
  | some route =>
    if engines.isConnected route.client then some ⟨route.client, some route.descriptor, route.generation⟩ else none

/-- Whether there is room for a route to this session. -/
def hasRoom (c : SessionClient) (sessionId : String) : Bool :=
  c.routes.contains sessionId || c.routes.size < kMaxHeldRoutes

/-- The first section of an attach. -/
def beginAttach (c : SessionClient) (descriptor : SessionDescriptor) (makeSelected explicitSelection : Bool) :
    Attach :=
  { descriptor, makeSelected, explicitSelection,
    releaseEpoch := c.releaseEpoch
    teardowns := c.teardownsLocked descriptor.sessionId
    sessionLock := (c.routes.get descriptor.sessionId).map Route.lock }

def select (c : SessionClient) (attach : Attach) : SessionClient :=
  { c with
    selectedSessionId := if attach.makeSelected then attach.descriptor.sessionId else c.selectedSessionId
    explicitSessionId := if attach.explicitSelection then some attach.descriptor.sessionId else c.explicitSessionId }

/-- Whether something was released since the attach began. -/
def superseded (c : SessionClient) (attach : Attach) : Bool :=
  c.releaseEpoch ≠ attach.releaseEpoch || c.teardownsLocked attach.descriptor.sessionId ≠ attach.teardowns

/-- The last section of an attach, with its new connection and with the lock that it acquired if it had to:
the route that it installs, if it installs one. -/
def commitAttach (c : SessionClient) (attach : Attach) (candidate acquired : Nat) (engines : Engines) :
    Option Route × SessionClient :=
  let sessionId := attach.descriptor.sessionId
  if c.superseded attach then (none, c)
  else if (c.routes.get sessionId).any fun existing => engines.isConnected existing.client then
    (none, c.select attach)
  else
    let route : Route :=
      { client := candidate, lock := attach.sessionLock.getD acquired, descriptor := attach.descriptor,
        generation := c.nextGeneration }
    (some route, { c with
      routes := c.routes.insert sessionId route, nextGeneration := c.nextGeneration + 1 }.select attach)

end SessionClient

/-! ## Calls under way -/

/-- Where a call stands between two of its sections. -/
inductive Phase
  -- `openRoute` has begun; dead routes are released next
  | opening (sessionId : String) (makeSelected : Bool)
  -- the room is looked at next
  | released (sessionId : String) (makeSelected : Bool)
  -- there was room; the session is looked for
  | admitted (sessionId : String) (makeSelected : Bool)
  -- an automatic attach looks for the session
  | guessing
  | connecting (attach : Attach) (automatic : Bool)
  -- an automatic attach is over
  | guessed

structure World where
  client : SessionClient := {}
  calls : OrderedMap Nat Phase := ∅

inductive SessionCall
  | disconnect
  | detachSession
  | closeSessionRoute (sessionId : String)
  | quarantineRoute (lease : RuntimeRouteLease)
  | quarantineIfCurrent (client : Nat)
  | releaseExitedRoutes (engines : Engines)
  -- the sections of the call `id`
  | openRoute (id : Nat) (sessionId : String) (makeSelected : Bool) (engines : Engines)
  | releaseDeadRoutes (id : Nat) (engines : Engines)
  | checkRoom (id : Nat)
  | tryAutoAttach (id : Nat)
  | attach (id : Nat) (descriptor : SessionDescriptor)
  | commit (id : Nat) (candidate acquired : Nat) (engines : Engines)
  -- the call answers an error from where it stands, and an automatic one ends
  | giveUp (id : Nat)

namespace World

def put (w : World) (id : Nat) (phase : Phase) : World := { w with calls := w.calls.insert id phase }

def drop (w : World) (id : Nat) : World := { w with calls := w.calls.erase id }

/-- After its attach an automatic call has a section left. -/
def afterAttach (w : World) (id : Nat) (automatic : Bool) : World :=
  if automatic then w.put id .guessed else w.drop id

/-- One section. It answers the route that it installs, if it installs one. -/
def step (w : World) : SessionCall → Option Route × World
  | .disconnect => (none, { w with client := w.client.disconnect })
  | .detachSession => (none, { w with client := w.client.detachSession })
  | .closeSessionRoute sessionId => (none, { w with client := w.client.closeSessionRoute sessionId })
  | .quarantineRoute lease => (none, { w with client := (w.client.quarantineRoute lease).2 })
  | .quarantineIfCurrent client => (none, { w with client := w.client.quarantineIfCurrent client })
  | .releaseExitedRoutes engines => (none, { w with client := w.client.releaseExitedRoutes engines })
  | .openRoute id sessionId makeSelected engines =>
    (none,
      if sessionId = "" || w.calls.contains id then w
      else if makeSelected then
        { w with client := { w.client with autoAttachEnabled := false } }.put id (.opening sessionId makeSelected)
      else if (w.client.leaseFor sessionId engines).isSome then w
      else w.put id (.opening sessionId makeSelected))
  | .releaseDeadRoutes id engines =>
    (none, match w.calls.get id with
      | some (.opening sessionId makeSelected) =>
        { w with client := w.client.releaseDeadRoutes engines }.put id (.released sessionId makeSelected)
      | _ => w)
  | .checkRoom id =>
    (none, match w.calls.get id with
      | some (.released sessionId makeSelected) =>
        if w.client.hasRoom sessionId then w.put id (.admitted sessionId makeSelected) else w.drop id
      | _ => w)
  | .tryAutoAttach id =>
    (none,
      if w.calls.contains id || w.client.routes.contains w.client.selectedSessionId ||
          !w.client.autoAttachEnabled || w.client.autoAttachInProgress then w
      else { w with client := { w.client with autoAttachInProgress := true } }.put id .guessing)
  | .attach id descriptor =>
    (none, match w.calls.get id with
      | some (.admitted sessionId makeSelected) =>
        if descriptor.sessionId = sessionId then
          w.put id (.connecting (w.client.beginAttach descriptor makeSelected makeSelected) false)
        else w
      | some .guessing => w.put id (.connecting (w.client.beginAttach descriptor true false) true)
      | _ => w)
  | .commit id candidate acquired engines =>
    match w.calls.get id with
    | some (.connecting attach automatic) =>
      let (installed, client) := w.client.commitAttach attach candidate acquired engines
      (installed, { w with client }.afterAttach id automatic)
    | _ => (none, w)
  | .giveUp id =>
    (none, match w.calls.get id with
      | some .guessing => w.put id .guessed
      | some (.connecting _ automatic) => w.afterAttach id automatic
      | some .guessed => { w with client := { w.client with autoAttachInProgress := false } }.drop id
      | _ => w.drop id)

end World

end Didi.Sessions
