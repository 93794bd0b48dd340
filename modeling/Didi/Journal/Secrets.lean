import Mathlib.Data.List.Infix
import Didi.Common
import Didi.Json.Pointer
import Mathlib.Data.Bool.AllAny

/-!
# The entry that a call becomes

* `redactSecrets` : a value with every secret taken out;
* `boundedValue` : a value, or the beginning of its text where that is long;
* `entryFor` : the entry of a call;
* `Alike` : two values that differ only in what is held under a key that names a secret, or beside a name that
  names one;
* `redactSecrets_alike` : with their secrets taken out they are the same;
* `redactSecrets_redactSecrets` : nothing more is taken out of what has none left;
* `entryFor_alike` : so the entry of a call tells nothing of them.

Texts are well-formed UTF-8 here: what is dumped has nothing to replace.
-/

namespace Didi.Journal

def kMaxValueBytes : Nat := 512
def kMaxEntryBytes : Nat := 4096

/-! ## Keys -/

def kEnvelopeKeys : List String :=
  ["execution_mode", "is_live_engine", "session", "follow_up", "transport", "offline_reason", "status", "_meta",
    "limitation", "warnings", "confirmation", "recovery"]

def kSteeringArguments : List String := ["confirmation_token", "dry_run", "_meta", "request_id", "fields"]

def kTargetKeys : List String :=
  ["target_node", "node_path", "parent_path", "scene_path", "script_path", "path", "file_path", "save_path",
    "resource_path", "asset_path", "setting", "name", "action", "bus_name", "bus", "preset", "library_name", "group",
    "signal", "method_name", "property_name", "journal_entry"]

def kWrittenFileKeys : List String :=
  ["resource_file", "layout_path", "project_layout_path", "library_path", "written_to", "save_path", "output_path",
    "asset_path", "script_path", "file_path"]

/-- The values beside a setting or property name that the name governs. -/
def kGovernedValueKeys : List String :=
  ["value", "old_value", "previous", "previous_value", "before", "after", "new", "old", "requested_value", "current",
    "default"]

def kNameKeys : List String := ["setting", "name", "property", "property_name", "key"]

def kSecretWords : List String :=
  ["password", "passwd", "passphrase", "secret", "token", "apikey", "api_key", "api-key", "privatekey", "private_key",
    "private-key", "credential", "authorization", "access_key"]

def isSecretKey (key : String) : Bool := kSecretWords.any fun word => decide (word.toList <:+: key.toLower.toList)

/-! ## Secrets -/

def namesSecret : Option Json → Bool
  | some (.string name) => isSecretKey name
  | _ => false

/-- Whether a name in the object names a secret, so that the values beside it are governed. -/
def governedSecret (members : JsonObject) : Bool := kNameKeys.any fun key => namesSecret (members.lookup key)

/-- Whether the value at a key is taken out. -/
def hides (governed : Bool) (key : String) : Bool := isSecretKey key || (governed && kGovernedValueKeys.contains key)

mutual

def redactSecrets : Json → Json
  | .array elements => .array (redactElements elements)
  | .object members => .object (redactMembers (governedSecret members) members)
  | value => value

def redactElements : List Json → List Json
  | [] => []
  | item :: items => redactSecrets item :: redactElements items

def redactMembers (governed : Bool) : JsonObject → JsonObject
  | [] => []
  | (key, item) :: members =>
    (key, if hides governed key then .string "[redacted]" else redactSecrets item) :: redactMembers governed members

end

def withoutKeys (keys : List String) : Json → Json
  | .object members => .object (members.filter fun e => !keys.contains e.1)
  | value => value

/-! ## Bounds -/

def boundedValue (max : Nat) (value : Json) : Json :=
  if value.dump.utf8ByteSize ≤ max then value
  else .object [("bytes", .integer value.dump.utf8ByteSize), ("preview", .string (utf8Prefix value.dump max)),
    ("truncated", .boolean true)]

def boundedMembers (max : Nat) : Json → Json
  | .object members => .object (members.map fun e => (e.1, boundedValue max e.2))
  | value => boundedValue max value

/-! ## What the answer reports -/

/-- One write of a batch: the value before it, and what it was aimed at. -/
def writeBefore : Json → Option Json
  | .object write =>
    (write.lookup "old_value").map fun old =>
      .object (["target_node", "property"].foldl
        (fun item key => match write.lookup key with
          | some value => item.insertKey key value
          | none => item)
        [("old_value", old)])
  | _ => none

def beforeOf : Json → Json
  | .object answer =>
    let batch := match answer.lookup "writes" with
      | some (.array writes) => writes.filterMap writeBefore
      | _ => []
    if batch.isEmpty then
      (["old_value", "before", "previous_value", "previous", "old"].findSome? fun key => answer.lookup key).getD .null
    else .array batch
  | _ => .null

def sceneWritten (answer : JsonObject) : Except JsonException Bool := do
  if ← (Json.object answer).valueBoolean "scene_saved" false then return true
  else if (answer.lookup "file_bytes").isSome then return true
  else if ← (Json.object answer).valueBoolean "saved" false then return true
  else (Json.object answer).valueBoolean "created" false

def addFile (files : List String) : Option Json → List String
  | some (.string file) => if file = "" || files.contains file then files else files ++ [file]
  | _ => files

/-- The file that an item of a list of files names. -/
def listedFile : Json → Option Json
  | .object item => item.lookup "path"
  | item => some item

def filesOf : Json → Except JsonException (List String)
  | .object answer => do
    let files := kWrittenFileKeys.foldl (fun files key => addFile files (answer.lookup key)) []
    let files := if ← sceneWritten answer then addFile files (answer.lookup "scene_path") else files
    return ["updated_files", "written"].foldl
      (fun files key => match answer.lookup key with
        | some (.array items) => items.foldl (fun files item => addFile files (listedFile item)) files
        | _ => files)
      files
  | _ => .ok []

/-! ## The entry -/

structure Call where
  tool : String
  arguments : Json := .object []
  /-- The structured answer of a call that succeeded, or its error object. -/
  answer : Json := .object []
  succeeded : Bool := true
  undoSteps : Json := .array []
  executionMode : String := ""
  sessionId : String := ""

def targetOf : Json → JsonObject
  | .object arguments =>
    let named := kTargetKeys.filterMap fun key =>
      match arguments.lookup key with
      | none => none
      | some value => if value.isStructured then none else some (key, boundedValue 200 value)
    let target := (named.take 3).foldl (fun target e => target.insertKey e.1 e.2) []
    match arguments.lookup "writes" with
    | some (.array writes) => target.insertKey "writes" (.integer writes.length)
    | _ => target
  | _ => []

def failureOf (answer : Json) : Json :=
  let error := match answer with
    | .object members => members
    | _ => []
  let failure : JsonObject := [("code", (error.lookup "code").getD .null),
    ("message", boundedValue 300 ((error.lookup "message").getD .null))]
  match error.lookup "data" with
  | some (.object data) =>
    match data.lookup "code" with
    | some reason => .object (failure.insertKey "reason" reason)
    | none => .object failure
  | _ => .object failure

/-- The scene that an undo step names, or an answer. -/
def namedScene : Json → Option Json
  | .object members =>
    match members.lookup "scene_path" with
    | some (.string scene) => some (.string scene)
    | _ => none
  | _ => none

/-- The number of the entry that a call undoes. -/
def undoneEntry : Json → Option Json
  | .object arguments =>
    match arguments.lookup "journal_entry" with
    | some (.integer undone) => some (.integer undone)
    | _ => none
  | _ => none

def undoNote (call : Call) : String :=
  if call.tool = "editor_undo" || call.tool = "editor_redo" then
    "An undo or redo moves the editor's history; the other one reverses it."
  else if call.executionMode = "live" then "The call registered no step in the editor's undo history."
  else "Written without an editor, so no undo history holds it."

def put (entry : JsonObject) (key : String) : Option Json → JsonObject
  | some value => entry.insertKey key value
  | none => entry

/-- What the call did, or why it failed. -/
def withOutcome (call : Call) (answer : Json) (entry : JsonObject) : Except JsonException JsonObject :=
  if call.succeeded then do
    let entry := match beforeOf answer with
      | .null => entry
      | before => entry.insertKey "before" (boundedValue kMaxValueBytes before)
    let entry := entry.insertKey "after" (boundedMembers kMaxValueBytes (withoutKeys kEnvelopeKeys answer))
    return entry.insertKey "files" (.array ((← filesOf answer).map .string))
  else .ok ((entry.insertKey "error" (failureOf answer)).insertKey "files" (.array []))

/-- How the call is undone, or why nothing is said of it. -/
def withUndo (call : Call) (entry : JsonObject) : JsonObject :=
  match call.undoSteps with
  | .array (step :: steps) =>
    put (entry.insertKey "undo" call.undoSteps) "scene" ((step :: steps).findSome? namedScene)
  | _ => (entry.insertKey "undo" .null).insertKey "undo_note" (.string (undoNote call))

/-- A save writes the scene it names, so it is that entry's scene as much as an edit's. -/
def withScene (call : Call) (answer : Json) (entry : JsonObject) : Except JsonException JsonObject :=
  match answer with
  | .object members => do
    if (entry.lookup "scene").isSome then return entry
    else if !(← sceneWritten members) || call.tool = "editor_save_scene" then
      return put entry "scene" (namedScene answer)
    else return entry
  | _ => .ok entry

/-- A last bound on the whole entry: its largest values are cut harder, one after the other, until it fits. -/
def boundEntry (entry : JsonObject) : List String → JsonObject
  | [] => entry
  | key :: keys =>
    let entry := put entry key ((entry.lookup key).map (boundedValue 600))
    if (Json.object entry).dump.utf8ByteSize ≤ kMaxEntryBytes then entry else boundEntry entry keys

def entryFor (call : Call) : Except JsonException JsonObject := do
  let entry : JsonObject := ([] : JsonObject).insertKey "tool" (.string call.tool)
  let entry := entry.insertKey "outcome" (.string (if call.succeeded then "applied" else "failed"))
  let entry := if call.executionMode = "" then entry
    else entry.insertKey "execution_mode" (.string call.executionMode)
  let entry := if call.sessionId = "" then entry else entry.insertKey "session" (.string call.sessionId)
  let arguments := redactSecrets (withoutKeys kSteeringArguments call.arguments)
  let entry := entry.insertKey "target" (.object (targetOf arguments))
  let entry := entry.insertKey "arguments" (boundedMembers kMaxValueBytes arguments)
  let answer := redactSecrets call.answer
  let entry ← withOutcome call answer entry
  let entry ← withScene call answer (withUndo call entry)
  let entry := if call.succeeded && call.tool = "editor_undo" then put entry "undoes" (undoneEntry call.arguments)
    else entry
  if kMaxEntryBytes < (Json.object entry).dump.utf8ByteSize then
    return boundEntry entry ["after", "arguments", "before"]
  else return entry

/-! ## Values that differ in secrets -/

mutual

def Alike : Json → Json → Prop
  | .array vs, .array ws => AlikeElements vs ws
  | .object ms, .object ns => AlikeMembers (governedSecret ms) ms ns
  | v, w => v = w

def AlikeElements : List Json → List Json → Prop
  | [], [] => True
  | v :: vs, w :: ws => Alike v w ∧ AlikeElements vs ws
  | _, _ => False

def AlikeMembers (governed : Bool) : JsonObject → JsonObject → Prop
  | [], [] => True
  | (j, v) :: ms, (k, w) :: ns => j = k ∧ (hides governed k = true ∨ Alike v w) ∧ AlikeMembers governed ms ns
  | _, _ => False

end

/-- A name is neither a secret nor a value that one governs. -/
theorem hides_nameKey {key : String} (h : key ∈ kNameKeys) (governed : Bool) : hides governed key = false := by
  have hall : ∀ key ∈ kNameKeys, hides true key = false := by
    simp only [← List.all_iff_forall_prop]
    decide +kernel
  have hsecret := hall key h
  unfold hides at hsecret ⊢
  rw [Bool.or_eq_false_iff] at hsecret ⊢
  refine ⟨hsecret.1, ?_⟩
  rw [Bool.true_and] at hsecret
  rw [hsecret.2, Bool.and_false]

theorem namesSecret_alike {v w : Json} (h : Alike v w) : namesSecret (some v) = namesSecret (some w) := by
  cases v <;> cases w <;> simp_all [Alike, namesSecret]

/-- What two objects hold at a key that is not hidden. -/
theorem lookup_alike {governed : Bool} {key : String} (hkey : hides governed key = false) {ms ns : JsonObject}
    (h : AlikeMembers governed ms ns) : (ms.lookup key = none ∧ ns.lookup key = none) ∨
      ∃ v w, ms.lookup key = some v ∧ ns.lookup key = some w ∧ Alike v w := by
  induction ms generalizing ns with
  | nil =>
    cases ns with
    | nil => exact .inl ⟨rfl, rfl⟩
    | cons e ns => cases h
  | cons e ms ih =>
    cases ns with
    | nil => cases h
    | cons e' ns =>
      obtain ⟨j, v⟩ := e
      obtain ⟨k, w⟩ := e'
      obtain ⟨rfl, hitem, hrest⟩ := h
      rw [List.lookup_cons_eq, List.lookup_cons_eq]
      by_cases hhere : key = j
      · rw [if_pos hhere, if_pos hhere]
        subst hhere
        exact .inr ⟨v, w, rfl, rfl, hitem.resolve_left (by rw [hkey]; exact Bool.false_ne_true)⟩
      · rw [if_neg hhere, if_neg hhere]
        exact ih hrest

theorem namesSecret_lookup {governed : Bool} {key : String} (hkey : hides governed key = false) {ms ns : JsonObject}
    (h : AlikeMembers governed ms ns) : namesSecret (ms.lookup key) = namesSecret (ns.lookup key) := by
  rcases lookup_alike hkey h with ⟨hms, hns⟩ | ⟨v, w, hms, hns, hvw⟩
  · rw [hms, hns]
  · rw [hms, hns]
    exact namesSecret_alike hvw

/-- Alike objects have the same names, so the same values are governed in them. -/
theorem governedSecret_alike {governed : Bool} {ms ns : JsonObject} (h : AlikeMembers governed ms ns) :
    governedSecret ms = governedSecret ns := by
  unfold governedSecret
  rw [Bool.eq_iff_iff, List.any_eq_true, List.any_eq_true]
  constructor
  · rintro ⟨key, hmem, hnames⟩
    exact ⟨key, hmem, by rw [← namesSecret_lookup (hides_nameKey hmem governed) h]; exact hnames⟩
  · rintro ⟨key, hmem, hnames⟩
    exact ⟨key, hmem, by rw [namesSecret_lookup (hides_nameKey hmem governed) h]; exact hnames⟩

mutual

/-- **Alike values are the same with their secrets taken out.** -/
theorem redactSecrets_alike : ∀ (v : Json) {w : Json}, Alike v w → redactSecrets v = redactSecrets w
  | .array vs, w, h => by
    cases w with
    | array ws => rw [redactSecrets, redactSecrets, redactElements_alike vs h]
    | _ => rw [show Json.array vs = _ from h]
  | .object ms, w, h => by
    cases w with
    | object ns =>
      rw [redactSecrets, redactSecrets, ← governedSecret_alike h]
      rw [redactMembers_alike ms h]
    | _ => rw [show Json.object ms = _ from h]
  | .null, w, h => by
    cases w <;> rw [show Json.null = _ from h]
  | .boolean b, w, h => by
    cases w <;> rw [show Json.boolean b = _ from h]
  | .integer i, w, h => by
    cases w <;> rw [show Json.integer i = _ from h]
  | .real value text, w, h => by
    cases w <;> rw [show Json.real value text = _ from h]
  | .string s, w, h => by
    cases w <;> rw [show Json.string s = _ from h]

theorem redactElements_alike : ∀ (vs : List Json) {ws : List Json}, AlikeElements vs ws →
    redactElements vs = redactElements ws
  | [], ws, h => by
    cases ws with
    | nil => rfl
    | cons w ws => cases h
  | v :: vs, ws, h => by
    cases ws with
    | nil => cases h
    | cons w ws => rw [redactElements, redactElements, redactSecrets_alike v h.1, redactElements_alike vs h.2]

theorem redactMembers_alike {governed : Bool} : ∀ (ms : JsonObject) {ns : JsonObject}, AlikeMembers governed ms ns →
    redactMembers governed ms = redactMembers governed ns
  | [], ns, h => by
    cases ns with
    | nil => rfl
    | cons e ns => cases h
  | (j, v) :: ms, ns, h => by
    cases ns with
    | nil => cases h
    | cons e ns =>
      obtain ⟨k, w⟩ := e
      obtain ⟨rfl, hitem, hrest⟩ := h
      rw [redactMembers, redactMembers, redactMembers_alike ms hrest]
      by_cases hhides : hides governed j = true
      · rw [if_pos hhides, if_pos hhides]
      · rw [if_neg hhides, if_neg hhides, redactSecrets_alike v (hitem.resolve_left hhides)]

end

/-! ## Values without secrets -/

mutual

/-- A value and the same with its secrets taken out. -/
theorem alike_redactSecrets : ∀ v : Json, Alike v (redactSecrets v)
  | .array vs => by
    rw [redactSecrets, Alike]
    exact alike_redactElements vs
  | .object ms => by
    rw [redactSecrets, Alike]
    exact alike_redactMembers (governedSecret ms) ms
  | .null | .boolean _ | .integer _ | .real _ _ | .string _ => by
    rw [redactSecrets, Alike] <;> first | rfl | simp

theorem alike_redactElements : ∀ vs : List Json, AlikeElements vs (redactElements vs)
  | [] => by
    rw [redactElements, AlikeElements]
    exact True.intro
  | v :: vs => by
    rw [redactElements, AlikeElements]
    exact ⟨alike_redactSecrets v, alike_redactElements vs⟩

theorem alike_redactMembers (governed : Bool) : ∀ ms : JsonObject, AlikeMembers governed ms (redactMembers governed ms)
  | [] => by
    rw [redactMembers, AlikeMembers]
    exact True.intro
  | (key, item) :: ms => by
    rw [redactMembers, AlikeMembers]
    refine ⟨rfl, ?_, alike_redactMembers governed ms⟩
    by_cases hhides : hides governed key = true
    · exact .inl hhides
    · rw [if_neg hhides]
      exact .inr (alike_redactSecrets item)

end

/-- **Nothing more is taken out of a value whose secrets are.** -/
theorem redactSecrets_redactSecrets (v : Json) : redactSecrets (redactSecrets v) = redactSecrets v :=
  (redactSecrets_alike v (alike_redactSecrets v)).symm

/-! ## The arguments that are kept -/

/-- A name is not an argument that only steers the call. -/
theorem not_steering_of_nameKey {key : String} (h : key ∈ kNameKeys) : !kSteeringArguments.contains key := by
  have hall : ∀ key ∈ kNameKeys, (!kSteeringArguments.contains key) = true := by
    simp only [← List.all_iff_forall_prop]
    decide
  exact hall key h

theorem governedSecret_withoutSteering (ms : JsonObject) :
    governedSecret (ms.filter fun e => !kSteeringArguments.contains e.1) = governedSecret ms := by
  have hlookup : ∀ key ∈ kNameKeys,
      (ms.filter fun e => !kSteeringArguments.contains e.1).lookup key = ms.lookup key := by
    intro key hkey
    rw [List.lookup_filter (fun key => !kSteeringArguments.contains key), if_pos (not_steering_of_nameKey hkey)]
  unfold governedSecret
  rw [Bool.eq_iff_iff, List.any_eq_true, List.any_eq_true]
  constructor
  · rintro ⟨key, hmem, hnames⟩
    exact ⟨key, hmem, by rw [← hlookup key hmem]; exact hnames⟩
  · rintro ⟨key, hmem, hnames⟩
    exact ⟨key, hmem, by rw [hlookup key hmem]; exact hnames⟩

theorem alikeMembers_filter {governed : Bool} (p : String → Bool) {ms ns : JsonObject}
    (h : AlikeMembers governed ms ns) :
    AlikeMembers governed (ms.filter fun e => p e.1) (ns.filter fun e => p e.1) := by
  induction ms generalizing ns with
  | nil =>
    cases ns with
    | nil => exact h
    | cons e ns => cases h
  | cons e ms ih =>
    cases ns with
    | nil => cases h
    | cons e' ns =>
      obtain ⟨j, v⟩ := e
      obtain ⟨k, w⟩ := e'
      obtain ⟨rfl, hitem, hrest⟩ := h
      by_cases hp : p j = true
      · rw [List.filter_cons, List.filter_cons, if_pos hp, if_pos hp]
        exact ⟨rfl, hitem, ih hrest⟩
      · rw [List.filter_cons, List.filter_cons, if_neg hp, if_neg hp]
        exact ih hrest

/-- Alike arguments are alike without those that only steer the call. -/
theorem alike_withoutSteering {v w : Json} (h : Alike v w) :
    Alike (withoutKeys kSteeringArguments v) (withoutKeys kSteeringArguments w) := by
  cases v with
  | object ms =>
    cases w with
    | object ns =>
      have hmembers := alikeMembers_filter (fun key => !kSteeringArguments.contains key) h
      rw [withoutKeys, withoutKeys, Alike, governedSecret_withoutSteering]
      exact hmembers
    | _ => cases (show Json.object ms = _ from h)
  | array vs =>
    cases w with
    | array ws => exact h
    | _ => cases (show Json.array vs = _ from h)
  | _ =>
    cases (show _ = w from h)
    exact h

/-- The entry to undo is no secret: alike arguments name the same. -/
theorem undoneEntry_alike {v w : Json} (h : Alike v w) : undoneEntry v = undoneEntry w := by
  cases v with
  | object ms =>
    cases w with
    | object ns =>
      have hkey : hides (governedSecret ms) "journal_entry" = false := by
        have hsecret : isSecretKey "journal_entry" = false := by decide +kernel
        have hgoverned : kGovernedValueKeys.contains "journal_entry" = false := by decide
        rw [hides, hsecret, hgoverned, Bool.and_false, Bool.or_false]
      unfold undoneEntry
      rcases lookup_alike hkey h with ⟨hms, hns⟩ | ⟨v, w, hms, hns, hvw⟩
      · simp only [hms, hns]
      · simp only [hms, hns]
        cases v <;> cases w <;> simp_all [Alike]
    | _ => cases (show Json.object ms = _ from h)
  | array vs =>
    cases w with
    | array ws => rfl
    | _ => cases (show Json.array vs = _ from h)
  | _ => rw [show _ = w from h]

/-- **The entry of a call tells nothing of its secrets**, and nothing more is taken out of what has none. -/
theorem entryFor_alike (call : Call) {arguments answer : Json} (harguments : Alike call.arguments arguments)
    (hanswer : Alike call.answer answer) :
    entryFor { call with arguments := arguments, answer := answer } = entryFor call ∧
      ∀ v : Json, redactSecrets (redactSecrets v) = redactSecrets v := by
  refine ⟨?_, redactSecrets_redactSecrets⟩
  have hkept := redactSecrets_alike _ (alike_withoutSteering harguments)
  have hanswered := redactSecrets_alike _ hanswer
  have hundone := undoneEntry_alike harguments
  unfold entryFor
  simp only [← hkept, ← hanswered, ← hundone]
  rfl

/-- Two calls that set different passwords. -/
theorem entryFor_alike_sample :
    entryFor { tool := "project_set_setting",
               arguments := .object [("api_token", .string "b"), ("setting", .string "db_password"),
                 ("value", .string "two")] } =
      entryFor { tool := "project_set_setting",
                 arguments := .object [("api_token", .string "a"), ("setting", .string "db_password"),
                   ("value", .string "one")] } ∧
      ∀ v : Json, redactSecrets (redactSecrets v) = redactSecrets v := by
  refine entryFor_alike { tool := "project_set_setting",
                          arguments := .object [("api_token", .string "a"), ("setting", .string "db_password"),
                            ("value", .string "one")] } ?_ ?_
  · have htoken : isSecretKey "api_token" = true := by decide +kernel
    have hgoverned : governedSecret [("api_token", .string "a"), ("setting", .string "db_password"),
        ("value", .string "one")] = true := by decide +kernel
    refine ⟨rfl, .inl ?_, rfl, .inr ?_, rfl, .inl ?_, True.intro⟩
    · rw [hides, htoken, Bool.true_or]
    · exact rfl
    · rw [hgoverned]
      decide +kernel
  · exact True.intro

end Didi.Journal
