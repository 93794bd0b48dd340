import Didi.Common

/-!
# Long work as jobs

* `JobStore` : the jobs that are kept, and the threads behind them;
* `start`, `find`, `findByRequest`, `waitFor`, `cancel`, `shutdown` : the calls on the store;
* `finish` : a thread records how its work ended.

Each of them is one section under the store's lock, except that `start` first takes the threads to
join in a section of its own (`reap`), and that `waitFor` takes the lock again for each look. A
section carries the reading of the clock it takes.
-/

namespace Didi.Jobs

inductive JobState
  | working
  | completed
  | cancelled
  | abandoned
  deriving DecidableEq

structure JobView where
  id : String
  conversation : String
  tool : String
  requestId : String
  fingerprint : String
  state : JobState := .working
  cancelRequested : Bool := false
  abandonedReason : String := ""
  createdAtMs : Int
  updatedAtMs : Int
  ttlMs : Int
  pollIntervalMs : Int
  result : Option Json := none

structure Limits where
  maxWorking : Nat := 4
  maxRetained : Nat := 64
  ttlMs : Int := 60 * 60 * 1000
  pollIntervalMs : Int := 2000

/-- A kept job: what a reader is shown, the flag its work looks at, and whether its thread is still
to be joined by the store. -/
structure Entry where
  view : JobView
  cancelled : Bool := false
  joinable : Bool := true

structure JobStore where
  limits : Limits
  jobs : OrderedMap String Entry := ∅
  /-- The jobs that were dropped and whose threads are still to be joined. -/
  orphans : List String := []
  shuttingDown : Bool := false
  /-- The jobs whose threads have not recorded yet how their work ended. -/
  running : List String := []

def Entry.working (entry : Entry) : Bool := entry.view.state = .working

/-- Whether a job has an answer and has outlived its ttl. -/
def JobView.lapsed (nowMs : Int) (view : JobView) : Bool :=
  view.state ≠ .working && view.ttlMs ≤ nowMs - view.createdAtMs

namespace JobStore

def workingCount (store : JobStore) : Nat := store.jobs.entries.countP fun e => e.2.working

/-- Drops the jobs for which `p` holds. -/
def drop (store : JobStore) (p : String → Entry → Bool) : JobStore :=
  { store with
    jobs := store.jobs.filter fun id entry => !p id entry
    orphans := store.orphans ++ ((store.jobs.filter fun id entry => p id entry && entry.joinable).keys) }

def expireLocked (store : JobStore) (nowMs : Int) : JobStore :=
  store.drop fun _ entry => entry.view.lapsed nowMs

/-- The older of the finished job found so far and the next job. -/
def olderFinished (oldest : Option (String × Entry)) (e : String × Entry) : Option (String × Entry) :=
  if e.2.working then oldest
  else
    match oldest with
    | none => some e
    | some o => if e.2.view.createdAtMs < o.2.view.createdAtMs then some e else some o

/-- The finished job that was created first, and among equals the one whose id comes first. -/
def oldestFinished (jobs : List (String × Entry)) : Option (String × Entry) :=
  jobs.foldl olderFinished none

/-- Drops finished jobs, oldest first, while the store is full. Each round drops one, so as many
rounds as there are jobs are enough (`evictRounds_room`). -/
def evictRounds (store : JobStore) : Nat → JobStore
  | 0 => store
  | rounds + 1 =>
    if store.limits.maxRetained ≤ store.jobs.size then
      match oldestFinished store.jobs.entries with
      | none => store
      | some oldest => evictRounds (store.drop fun id _ => id = oldest.1) rounds
    else store

def evictLocked (store : JobStore) : JobStore := store.evictRounds store.jobs.size

/-! ## The calls -/

/-- The first section of a start: the threads of dropped jobs, which it then joins. -/
def reap (store : JobStore) : JobStore := { store with orphans := [] }

def errorShuttingDown : Error where
  code := 503
  message := "The server is shutting down, so no new job was started."
  data := .object [("code", .string "not_connected"), ("retryable", .boolean false)]

def errorTooManyWorking (working : Nat) (limits : Limits) : Error where
  code := 429
  message := toString working ++ " jobs are already running, which is as many as " ++
    "this server runs at once. Nothing was started; wait for one to finish."
  data := .object [("code", .string "rate_limited"), ("max_working_jobs", .integer limits.maxWorking),
    ("retry_after_ms", .integer limits.pollIntervalMs), ("retryable", .boolean true),
    ("working_jobs", .integer working)]

structure StartRequest where
  conversation : String
  tool : String
  requestId : String
  fingerprint : String

def startedView (limits : Limits) (id : String) (request : StartRequest) (created : Int) : JobView where
  id := id
  conversation := request.conversation
  tool := request.tool
  requestId := request.requestId
  fingerprint := request.fingerprint
  createdAtMs := created
  updatedAtMs := created
  ttlMs := limits.ttlMs
  pollIntervalMs := limits.pollIntervalMs

/-- The second section of a start, under the id it drew. -/
def start (store : JobStore) (id : String) (request : StartRequest) (nowMs : Int) :
    Except Error JobView × JobStore :=
  if store.shuttingDown then (.error errorShuttingDown, store)
  else
    let store := store.expireLocked nowMs
    if store.limits.maxWorking ≤ store.workingCount then
      (.error (errorTooManyWorking store.workingCount store.limits), store)
    else
      let store := store.evictLocked
      let view := startedView store.limits id request nowMs
      (.ok view, { store with
        jobs := store.jobs.insert id { view := view }
        running := id :: store.running })

def find (store : JobStore) (id : String) (nowMs : Int) : Option JobView :=
  match store.jobs.get id with
  | none => none
  | some entry => if entry.view.lapsed nowMs then none else some entry.view

def findByRequest (store : JobStore) (conversation tool requestId : String) (nowMs : Int) :
    Option JobView :=
  match store.jobs.entries.find? fun e => e.2.view.requestId ≠ "" && e.2.view.requestId = requestId &&
      e.2.view.tool = tool && e.2.view.conversation = conversation with
  | none => none
  | some e => if e.2.view.lapsed nowMs then none else some e.2.view

/-- What one look of a wait ends with. -/
inductive Look
  | done (view : Option JobView)
  | again

/-- One look of a wait, and whether its time was over when it took the lock. -/
def waitFor (store : JobStore) (id : String) (timedOut : Bool) : Look :=
  match store.jobs.get id with
  | none => .done none
  | some entry => if timedOut || !entry.working then .done (some entry.view) else .again

/-- Changes the job `id` in place. -/
def update (store : JobStore) (id : String) (change : Entry → Entry) : JobStore :=
  { store with jobs := store.jobs.mapVal fun k entry => if k = id then change entry else entry }

def requestCancel (nowMs : Int) (entry : Entry) : Entry :=
  if entry.working then
    { entry with
      cancelled := true
      view := { entry.view with cancelRequested := true, updatedAtMs := nowMs } }
  else entry

def cancel (store : JobStore) (id : String) (nowMs : Int) : Option JobView × JobStore :=
  let store := store.update id (requestCancel nowMs)
  ((store.jobs.get id).map Entry.view, store)

/-- The section of a shutdown; the threads it takes are joined after it. -/
def shutdown (store : JobStore) : JobStore :=
  { store with
    shuttingDown := true
    jobs := store.jobs.mapVal fun _ entry => { entry with cancelled := true, joinable := false }
    orphans := [] }

/-- How a job's work ended. -/
inductive Outcome
  | answered (result : Json)
  | threw (what : String)
  | threwOther

/-- The failure of a work, empty where it answered. -/
def Outcome.failure : Outcome → String
  | .answered _ => ""
  | .threw what => "the work threw: " ++ what
  | .threwOther => "the work threw something that is not an exception"

def Outcome.result : Outcome → Option Json
  | .answered result => some result
  | _ => none

def recordEnd (outcome : Outcome) (nowMs : Int) (entry : Entry) : Entry :=
  let done := { entry.view with updatedAtMs := nowMs }
  if outcome.failure ≠ "" then
    { entry with view := { done with state := .abandoned, abandonedReason := outcome.failure } }
  else if entry.cancelled then { entry with view := { done with state := .cancelled } }
  else { entry with view := { done with state := .completed, result := outcome.result } }

/-- The thread of the job `id` records how its work ended, which it does once. -/
def finish (store : JobStore) (id : String) (outcome : Outcome) (nowMs : Int) : JobStore :=
  if id ∈ store.running then
    { store.update id (recordEnd outcome nowMs) with running := store.running.erase id }
  else store

end JobStore

/-! ## Sections in any order -/

inductive Event
  | reap
  | start (id : String) (request : JobStore.StartRequest) (nowMs : Int)
  | find (id : String) (nowMs : Int)
  | findByRequest (conversation tool requestId : String) (nowMs : Int)
  | waitFor (id : String) (timedOut : Bool)
  | cancel (id : String) (nowMs : Int)
  | shutdown
  | finish (id : String) (outcome : JobStore.Outcome) (nowMs : Int)

inductive Answer
  | none
  | started (result : Except Error JobView)
  | view (view : Option JobView)
  | look (look : JobStore.Look)

def step (store : JobStore) : Event → Answer × JobStore
  | .reap => (.none, store.reap)
  | .start id request nowMs =>
    let (result, store) := store.start id request nowMs
    (.started result, store)
  | .find id nowMs => (.view (store.find id nowMs), store)
  | .findByRequest conversation tool requestId nowMs =>
    (.view (store.findByRequest conversation tool requestId nowMs), store)
  | .waitFor id timedOut => (.look (store.waitFor id timedOut), store)
  | .cancel id nowMs =>
    let (view, store) := store.cancel id nowMs
    (.view view, store)
  | .shutdown => (.none, store.shutdown)
  | .finish id outcome nowMs => (.none, store.finish id outcome nowMs)

/-- The id that a section draws for a new job. -/
def Event.drawn : Event → Option String
  | .start id _ _ => some id
  | _ => .none

end Didi.Jobs
