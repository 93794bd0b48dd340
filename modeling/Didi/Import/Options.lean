import Didi.Config.Strings
import Didi.Json.Doubles

/-!
# The options of an import

* `importParamValue` : a value of a sidecar as JSON;
* `planImportChanges` : the options of a call, checked against the sidecar and against the stream.

`Platform` holds what the C library makes of doubles. How an imported scene's animations are planned is a parameter:
no rule of another importer reaches it.
-/

namespace Didi.Import
open Didi.Config

inductive OptionKind
  | boolean
  | seconds
  | loopMode
  | frames
  | animationLoops
deriving DecidableEq

structure OptionRule where
  importer : String
  key : String
  kind : OptionKind

def kRules : List OptionRule :=
  [⟨"wav", "edit/loop_mode", .loopMode⟩, ⟨"wav", "edit/loop_begin", .frames⟩, ⟨"wav", "edit/loop_end", .frames⟩,
    ⟨"oggvorbisstr", "loop", .boolean⟩, ⟨"oggvorbisstr", "loop_offset", .seconds⟩, ⟨"mp3", "loop", .boolean⟩,
    ⟨"mp3", "loop_offset", .seconds⟩, ⟨"scene", "_subresources", .animationLoops⟩]

/-- The importer's modes in their declared order. A window applies only under the last three. -/
def kLoopModeLabels : List String := ["Detect From WAV", "Disabled", "Forward", "Ping-Pong", "Backward"]

def ruleFor (importer key : String) : Option OptionRule :=
  kRules.find? fun rule => importer = rule.importer && key = rule.key

def configurableImporter (importer : String) : Bool := kRules.any fun rule => importer = rule.importer

def configurableKeys (importer : String) : List String :=
  kRules.filterMap fun rule => if importer = rule.importer then some rule.key else none

def joined : List String → String
  | [] => ""
  | [item] => item
  | [item, last] => item ++ " and " ++ last
  | item :: items => item ++ ", " ++ joined items

/-! ## Values -/

/-- What the C library makes of doubles. -/
structure Platform where
  /-- The finite double that is all of a text, if it is one. -/
  strtod : Text → Option Rat
  /-- The text of a double in JSON. -/
  dumpReal : Rat → String
  /-- The shortest text that reads back as the same double, with a decimal point. -/
  numberText : Rat → String
  /-- The frames of a length at a rate, `llround` of their product. -/
  llround : Rat → Int → Int

/-- `strtoll` of digits after a sign, in decimal; `none` is `ERANGE`. -/
def strtoll (text : Text) : Option Int :=
  let digits := if text.head? = some '-' || text.head? = some '+' then text.drop 1 else text
  let number : Int := digits.foldl (fun n c => n * 10 + (c.toNat - 48)) (0 : Nat)
  let number := if text.head? = some '-' then -number else number
  if -(2 ^ 63) ≤ number ∧ number < 2 ^ 63 then some number else none

section Sidecars
variable (platform : Platform)

def importParamValue (valueText : Text) : Json :=
  let text := stringsTrim valueText
  if text = "true".toList then .boolean true
  else if text = "false".toList then .boolean false
  else if text = "null".toList then .null
  else
    let body := if text.head? = some '-' || text.head? = some '+' then text.drop 1 else text
    let whole := if !body.isEmpty && body.all Char.isDigit then strtoll text else none
    let real := if body.head?.any fun c => c.isDigit || c = '.' then platform.strtod text else none
    match whole, real, stringValue text with
    | some i, _, _ => .integer i
    | none, some x, _ => .real x (platform.dumpReal x)
    | none, none, some ⟨quoted, none⟩ => .string (String.ofList quoted)
    | none, none, _ => .string (String.ofList text)

/-- An unsigned value is an integer too, and it wraps. -/
def integerOf : Json → Option Int
  | .integer i => some (toInt64 i)
  | _ => none

structure ImportSidecar where
  scan : Scan
  importer : String

/-- The `[params]` entries of a key; the engine keeps the last. -/
def paramsEntries (sidecar : ImportSidecar) (key : String) : List Entry :=
  sidecar.scan.entries.filter fun entry => entry.sectionName = "params".toList && entry.key = key.toList

def currentInteger (sidecar : ImportSidecar) (key : String) : Option Int :=
  (paramsEntries sidecar key).getLast?.bind fun entry => integerOf (importParamValue platform entry.valueText)

end Sidecars

/-- What the running engine says about the imported stream. -/
structure ImportedStreamFacts where
  lengthSeconds : Option Rat := none
  mixRate : Option Int := none
  animations : Option (List (String × Int)) := none

structure ImportOptionChange where
  key : String
  animation : String := ""
  value : Json
  text : String
  previous : Json
  previousText : Text

/-! ## Refusals -/

def refuse (parameter message : String) (extra : JsonObject) : Error :=
  { code := 400
    message := message
    data := .object (extra.foldl (fun data e => data.insertKey e.1 e.2)
      [("code", .string "invalid_arguments"), ("parameter", .string parameter), ("retryable", .boolean false)]) }

def notConfigurable (importer : String) : Error :=
  { code := 400
    message := "asset_configure_import sets the loop options of WAV, OGG and MP3 imports and of an imported scene's " ++
      "animations, and this asset is imported by the \"" ++ importer ++
      "\" importer. resource_inspect lists every option it has."
    data := .object [("code", .string "invalid_arguments"),
      ("configurable_importers", .array [.string "wav", .string "oggvorbisstr", .string "mp3", .string "scene"]),
      ("importer", .string importer), ("parameter", .string "asset_path"), ("retryable", .boolean false)] }

/-- What to send instead of an option that the importer does not have. -/
def retryOf (importer key : String) : String × JsonObject :=
  if importer = "wav" && key = "loop" then
    (" A WAV loops by edit/loop_mode: 2 is Forward.",
      [("retry_with", .object [("options", .object [("edit/loop_mode", .integer 2)])])])
  else if importer ≠ "wav" && key = "edit/loop_mode" then
    (" An " ++ (if importer = "mp3" then "MP3" else "OGG") ++ " loops by loop: true.",
      [("retry_with", .object [("options", .object [("loop", .boolean true)])])])
  else ("", [])

def refuseOption (importer key : String) : Error :=
  let keys := configurableKeys importer
  refuse "options" ("\"" ++ key ++ "\" is not an option this tool sets on a \"" ++ importer ++ "\" import. It sets " ++
      joined keys ++ "." ++ (retryOf importer key).1)
    ([("key", .string key), ("configurable_keys", .array (keys.map .string))] ++ (retryOf importer key).2)

def refuseMissing (key : String) : Error :=
  refuse "options" ("This sidecar has no " ++ key ++ " line under [params], so the engine that wrote it does not " ++
    "have that option. Reimport the asset once in the editor, which writes every option it has.")
    [("key", .string key)]

def refuseValue (key message : String) : Error := refuse "options" (key ++ message) [("key", .string key)]

/-! ## One option -/

def modeOf (value : Json) : Option Int :=
  match value with
  | .string wanted =>
    -- the last label that matches, and no two of them are alike
    (kLoopModeLabels.map String.toLower).idxOf? wanted.toLower |>.map Int.ofNat
  | value => integerOf value

/-- The value to write and its text. -/
def checkValue (platform : Platform) (kind : OptionKind) (key : String) (value : Json)
    (stream : Option ImportedStreamFacts) : Except Error (Json × String) :=
  match kind with
  | .boolean =>
    match value with
    | .boolean b => .ok (.boolean b, if b then "true" else "false")
    | _ => .error (refuseValue key (" must be true or false. Godot would read any other value as one of them " ++
        "without saying which."))
  | .seconds =>
    match value.double with
    | none => .error (refuseValue key " must be a number of seconds.")
    | some seconds =>
      if seconds < 0 then
        .error (refuseValue key " must be at least 0. Godot stores a negative offset without complaint.")
      else match stream.bind ImportedStreamFacts.lengthSeconds with
        | none => .ok (.real seconds (platform.dumpReal seconds), platform.numberText seconds)
        | some length =>
          if length ≤ seconds then
            .error (refuse "options" (key ++ " must be below the track's length, " ++ platform.numberText length ++
                " seconds. Godot stores an offset past the end without complaint.")
              [("key", .string key), ("length_seconds", .real length (platform.dumpReal length))])
          else .ok (.real seconds (platform.dumpReal seconds), platform.numberText seconds)
  | .loopMode =>
    match modeOf value with
    | some mode =>
      if mode < 0 ∨ 4 < mode then
        .error (refuseValue key (" must be an integer from 0 to 4: Detect From WAV, Disabled, Forward, Ping-Pong or " ++
          "Backward. Godot loads 5 or more as a loop mode it has no name for."))
      else .ok (.integer mode, toString mode)
    | none =>
      .error (refuseValue key (if value.isString then
          " must be 0 to 4 or one of Detect From WAV, Disabled, Forward, Ping-Pong and Backward. Godot reads any " ++
            "other word as 0 without saying so."
        else " must be an integer from 0 to 4: Detect From WAV, Disabled, Forward, Ping-Pong or Backward. Godot " ++
          "loads 5 or more as a loop mode it has no name for."))
  | .frames =>
    match integerOf value with
    | none => .error (refuseValue key " must be a whole number of frames.")
    | some frames =>
      if key = "edit/loop_begin" ∧ frames < 0 then
        .error (refuseValue key (" must be at least 0. Godot counts a negative begin back from the end, which " ++
          "nothing declares."))
      else if key = "edit/loop_end" ∧ frames < 1 ∧ frames ≠ -1 then
        .error (refuseValue key " must be at least 1, or -1 for the last frame.")
      else .ok (.integer frames, toString frames)
  | .animationLoops => .ok (value, "")

/-- The changes of an animation plan, after the changes before it. -/
abbrev AnimationPlan := Entry → Json → Option ImportedStreamFacts → List ImportOptionChange →
  Except Error (List ImportOptionChange)

def planOption (platform : Platform) (planAnimationLoops : AnimationPlan) (sidecar : ImportSidecar)
    (stream : Option ImportedStreamFacts) (changes : List ImportOptionChange) (option : String × Json) :
    Except Error (List ImportOptionChange) :=
  match ruleFor sidecar.importer option.1 with
  | none => .error (refuseOption sidecar.importer option.1)
  | some rule =>
    match (paramsEntries sidecar option.1).getLast? with
    | none => .error (refuseMissing option.1)
    | some entry =>
      if rule.kind = .animationLoops then planAnimationLoops entry option.2 stream changes
      else do
        let (value, text) ← checkValue platform rule.kind option.1 option.2 stream
        return changes ++ [{ key := option.1, value := value, text := text,
                             previous := importParamValue platform entry.valueText,
                             previousText := stringsTrim entry.valueText }]

/-! ## The window -/

section Window
variable (platform : Platform) (sidecar : ImportSidecar) (stream : Option ImportedStreamFacts)
  (changes : List ImportOptionChange)

def changed (key : String) : Option ImportOptionChange := changes.find? fun change => change.key = key

/-- The integer at a key with the changes applied: the new one, or what the sidecar holds. -/
def applied (key : String) : Option Int :=
  match changed changes key with
  | some change => integerOf change.value
  | none => currentInteger platform sidecar key

def framesOf : Option Int := do
  let facts ← stream
  let length ← facts.lengthSeconds
  let rate ← facts.mixRate
  if 0 < rate then some (platform.llround length rate) else none

def noWindow (key : String) : Error :=
  refuse "options" ("A loop window applies only under edit/loop_mode 2, 3 or 4, Forward, Ping-Pong or Backward. " ++
      "Godot ignores it under Detect From WAV and Disabled. Set edit/loop_mode in the same call.")
    [("key", .string key), ("retry_with", .object [("options", .object [("edit/loop_mode", .integer 2)])])]

def refuseInside (key message : String) (frames : Int) : Error :=
  refuse "options" (key ++ " must be inside the stream, which has " ++ toString frames ++ " frames." ++ message)
    [("key", .string key), ("frames", .integer frames)]

/-- The window taken as a whole: the mode it runs under and both ends, whichever of them the call changes. -/
def checkWindow : Except Error Unit :=
  if (changed changes "edit/loop_begin").isNone && (changed changes "edit/loop_end").isNone then .ok ()
  else
    let key := if (changed changes "edit/loop_begin").isSome then "edit/loop_begin" else "edit/loop_end"
    let begins := applied platform sidecar changes "edit/loop_begin"
    let ends := applied platform sidecar changes "edit/loop_end"
    let frames := framesOf platform stream
    -- an end of -1 is the last frame where the frames are known
    let last := if ends = some (-1) then frames.or ends else ends
    if (applied platform sidecar changes "edit/loop_mode").all fun mode => mode < 2 then .error (noWindow key)
    else if frames.any fun frames => begins.any fun b => frames ≤ b then
      .error (refuseInside "edit/loop_begin" "" (frames.getD 0))
    else if frames.any fun frames => ends.any fun e => frames < e then
      .error (refuseInside "edit/loop_end" " Godot stores an end past the stream without complaint." (frames.getD 0))
    else if begins.any fun b => last.any fun e => e ≠ -1 && e ≤ b then
      .error (refuse "options" ("edit/loop_begin must be below edit/loop_end. Godot stores a begin after the end " ++
        "without complaint.") [("key", .string key)])
    else .ok ()

end Window

def changeLe (a b : ImportOptionChange) : Bool := if a.key ≠ b.key then a.key ≤ b.key else a.animation ≤ b.animation

def planImportChanges (platform : Platform) (planAnimationLoops : AnimationPlan) (sidecar : ImportSidecar)
    (options : JsonObject) (stream : Option ImportedStreamFacts) : Except Error (List ImportOptionChange) :=
  if !configurableImporter sidecar.importer then .error (notConfigurable sidecar.importer)
  else do
    let changes ← options.foldlM (planOption platform planAnimationLoops sidecar stream) []
    if sidecar.importer = "wav" then checkWindow platform sidecar stream changes
    return changes.mergeSort changeLe

end Didi.Import
