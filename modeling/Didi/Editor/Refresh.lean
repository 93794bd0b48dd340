import Didi.Common
import Didi.Json.Value

/-!
# The editor's copies of written files

* `readTab`, `readResult` : what one path's answer leaves of the refresh;
* `firstRequests` : every path asked about once, in requests of a bounded number of paths;
* `pendingTabs` : the tabs that the bridge did not get to, asked about again until the deadline;
* `refreshEditorCopies` : the whole refresh, with a record of the requests it sent.

`answers` holds what the bridge answers, request by request; `rounds` is how often the pending tabs can be asked about
before the deadline, and `back` answers the request that opens the scene the caller was on.
-/

namespace Didi.Editor
open Json (find)

def kPathsPerRequest : Nat := 256

def kStaleTab : String :=
  " It still holds the scene from before the write, and saving it would put that back over " ++
    "the file. Close it with scene_close and discard_unsaved: true to keep the file as written."

def flag (result : Json) (key : String) : Bool :=
  match find result key with
  | some (.boolean b) => b
  | _ => false

def text (result : Json) (key : String) : String :=
  match find result key with
  | some (.string s) => s
  | _ => ""

structure EditorCopyRefresh where
  answered : Bool := false
  reloaded : List String := []
  scenesReloaded : List String := []
  scenesDiscardedUnsaved : JsonObject := []
  failed : List (String × String) := []
  indexPending : List String := []
  engineDiagnostics : List Json := []
  engineDiagnosticsOmitted : Nat := 0

/-- The scene the editor had current before a rebuild moved it. -/
structure EditedSceneRestore where
  needed : Bool := false
  scene : String := ""
  rebuilt : String := ""

/-- A request and its answer. -/
structure Exchange where
  asked : List String
  params : Json
  tabOnly : Bool
  answer : Except Error Json

structure Refreshing where
  refresh : EditorCopyRefresh := {}
  pending : List String := []
  restore : EditedSceneRestore := {}
  sent : List Exchange := []

namespace Refreshing

def fail (s : Refreshing) (path reason : String) : Refreshing :=
  { s with refresh := { s.refresh with failed := s.refresh.failed ++ [(path, reason)] } }

def failAll (s : Refreshing) (paths : List String) (reason : String) : Refreshing :=
  { s with refresh := { s.refresh with failed := s.refresh.failed ++ paths.map (·, reason) } }

end Refreshing

/-! ## Reading an answer -/

/-- The tab half of one path's answer. A pending tab is asked about again. -/
def readTab (s : Refreshing) (path : String) (result : Json) : Refreshing :=
  if !flag result "scene_open" then s
  else if flag result "scene_reloaded" then
    let discarded := match find result "scene_discarded_unsaved" with
      | some (.boolean b) => s.refresh.scenesDiscardedUnsaved.insertKey path (.boolean b)
      | some .null => s.refresh.scenesDiscardedUnsaved.insertKey path .null
      | _ => s.refresh.scenesDiscardedUnsaved
    let restore := match s.restore.needed, find result "edited_scene_moved_from" with
      | false, some (.string scene) => ⟨true, scene, path⟩
      | _, _ => s.restore
    { s with
      restore
      refresh := { s.refresh with
        scenesReloaded := s.refresh.scenesReloaded ++ [path]
        scenesDiscardedUnsaved := discarded } }
  else if flag result "scene_reload_pending" then { s with pending := s.pending ++ [path] }
  else
    let reason := text result "scene_reload_error"
    s.fail path (if reason = "" then "The editor did not reload the scene's tab." ++ kStaleTab else reason)

/-- The copy half of one path's answer. -/
def readCopy (s : Refreshing) (path : String) (result : Json) : Refreshing :=
  let s := if flag result "index_pending" then
    { s with refresh := { s.refresh with indexPending := s.refresh.indexPending ++ [path] } } else s
  if flag result "reloaded" then { s with refresh := { s.refresh with reloaded := s.refresh.reloaded ++ [path] } }
  else if !flag result "cached" then s
  else s.fail path (match find result "reload_error" with
    | some (.string reason) => reason
    | _ => "The editor did not reload its copy.")

def readResult (tabOnly : Bool) (s : Refreshing) (result : Json) : Refreshing :=
  match find result "path" with
  | some (.string path) =>
    let s := readTab s path result
    if tabOnly then s else readCopy s path result
  | _ => s

def refreshParams (paths : List String) (discardUnsaved : Bool) : Json :=
  let params : JsonObject := match paths with
    | [path] => [("path", .string path)]
    | paths => [("paths", .array (paths.map .string))]
  .object (if discardUnsaved then params.insertKey "discard_unsaved" (.boolean true) else params)

def kMaxRefreshDiagnostics : Nat := 16

def collectDiagnostics (refresh : EditorCopyRefresh) (answer : Except Error Json) : EditorCopyRefresh :=
  let body := match answer with
    | .error e => e.data
    | .ok v => v
  let lines := match find body "engine_diagnostics" with
    | some (.array lines) => lines
    | _ => []
  let room := kMaxRefreshDiagnostics - refresh.engineDiagnostics.length
  let omitted := match find body "engine_diagnostics_omitted" with
    | some (.integer i) => i.toNat
    | _ => 0
  { refresh with
    engineDiagnostics := refresh.engineDiagnostics ++ lines.take room
    engineDiagnosticsOmitted := refresh.engineDiagnosticsOmitted + (lines.length - room) + omitted }

/-- The results of an answer that can be read: a list of them for several paths, and else the answer itself. -/
def readableAnswer (answer : Except Error Json) (batch : Bool) : Option (List Json) :=
  match answer with
  | .ok (.object members) =>
    if batch then
      match members.lookup "results" with
      | some (.array results) => some results
      | _ => none
    else some [.object members]
  | _ => none

/-- How the reason for a request that was not answered ends. -/
def noAnswer (answer : Except Error Json) : String :=
  match answer with
  | .error e => ": " ++ e.message
  | .ok _ => "."

/-! ## The refresh -/

section Requests
variable (answers : Nat → Except Error Json) (discardUnsaved : Bool)

def ask (tabOnly : Bool) (asked : List String) (s : Refreshing) : Except Error Json × Refreshing :=
  let answer := answers s.sent.length
  (answer, { s with
    refresh := collectDiagnostics s.refresh answer
    sent := s.sent ++ [⟨asked, refreshParams asked discardUnsaved, tabOnly, answer⟩] })

/-- The paths of each of the first requests. -/
def requestsOf (paths : List String) : List (List String) :=
  if paths = [] then [] else paths.take kPathsPerRequest :: requestsOf (paths.drop kPathsPerRequest)
termination_by paths.length
decreasing_by
  rename_i h
  have hpos := List.length_pos_iff.mpr h
  rw [List.length_drop, kPathsPerRequest]
  omega

/-- The first requests. Where the editor has not answered at all, nothing is known, and the refresh ends. -/
def firstRequests : List (List String) → Refreshing → Refreshing × Bool
  | [], s => (s, true)
  | asked :: rest, s =>
    let (answer, s) := ask answers discardUnsaved false asked s
    match readableAnswer answer (1 < asked.length) with
    | none =>
      if !s.refresh.answered then (s, false)
      else firstRequests rest (s.failAll asked ("The editor did not answer the reload request" ++ noAnswer answer))
    | some results =>
      let s := { s with refresh := { s.refresh with answered := true } }
      firstRequests rest (results.foldl (readResult false) s)

def pendingTabs : Nat → Refreshing → Refreshing
  | 0, s => s
  | rounds + 1, s =>
    if s.pending = [] then s
    else
      let asked := s.pending
      let (answer, s) := ask answers discardUnsaved true asked { s with pending := [] }
      match readableAnswer answer (1 < asked.length) with
      | none => s.failAll asked
        ("The editor did not answer the request to reload the scene's tab" ++ noAnswer answer ++ kStaleTab)
      | some results => pendingTabs rounds (results.foldl (readResult true) s)

end Requests

/-- The tabs that are pending still. -/
def stillPending (s : Refreshing) : Refreshing :=
  s.failAll s.pending
    ("The editor was still switching scenes and did not reload the scene's tab." ++ kStaleTab)

/-- The scene that the caller was on is opened again. One never saved has no path to open it by. -/
def restoreEdited (back : Except Error Json) (s : Refreshing) : Refreshing :=
  if !s.restore.needed then s
  else
    let back : Except Error Json :=
      if s.restore.scene = "" then .error ⟨409, "it was never saved, so it has no path to open", .null⟩ else back
    let s := { s with refresh := collectDiagnostics s.refresh back }
    match back with
    | .ok _ => s
    | .error e => s.fail s.restore.rebuilt ("Rebuilding the tab left it the edited scene in place of " ++
      (if s.restore.scene = "" then "an unsaved scene" else s.restore.scene) ++ ", and switching back failed: " ++
      e.message ++ ". Open the scene you were editing with scene_open.")

def refreshEditorCopies (connected : Bool) (answers : Nat → Except Error Json) (back : Except Error Json) (rounds : Nat)
    (paths : List String) (discardUnsaved : Bool) : Refreshing :=
  if !connected || paths.isEmpty then {}
  else
    match firstRequests answers discardUnsaved (requestsOf paths) {} with
    | (s, false) => s
    | (s, true) => restoreEdited back (stillPending (pendingTabs answers discardUnsaved rounds s))

end Didi.Editor
