import Didi.Common
import Didi.Config.Settings
import Didi.Config.Scan
import Didi.Export.Strings

/-!
# What an export_presets.cfg declares

`readExportPresets` : the presets of a file, in the order of their sections, and which of them the engine
detects; or the first cause for which the engine does not load them (`Cause`).

Of a scan only the names of its headers and its settings say what the presets are (`declaredPresets`).
-/

namespace Didi.Export
open Didi.Config

/-! ## Sections -/

/-- A preset as its section declares it. -/
structure Preset where
  sectionName : Text
  index : Nat
  /-- whether the section is spelled as the engine asks for it -/
  canonical : Bool
  name : Text := []
  platform : Text := []
  runnable : Bool := false
  exportFilter : Text := []
  exportPath : Text := []
  excludeFilter : Text := []

/-- The digits of a section `preset.N`. -/
def presetDigits (sectionName : Text) : Option Text :=
  let digits := sectionName.drop "preset.".toList.length
  if "preset.".toList.isPrefixOf sectionName && !digits.isEmpty && digits.all Char.isDigit then some digits else none

/-- The presets with the section of one more header. -/
def declare (presets : List Preset) (sectionName : Text) : List Preset :=
  match presetDigits sectionName with
  | none => presets
  | some digits =>
    if (presets.any fun p => p.sectionName = sectionName) || 9 < digits.length then presets
    else
      let index := Nat.ofDigitChars 10 digits 0
      presets ++ [{ sectionName, index, canonical := digits = (toString index).toList }]

def declaredSections (headers : List Text) : List Preset := headers.foldl declare []

/-! ## Keys -/

def Preset.set (p : Preset) (key valueText : Text) : Preset :=
  if key = "name".toList then { p with name := unquote valueText }
  else if key = "platform".toList then { p with platform := unquote valueText }
  else if key = "export_filter".toList then { p with exportFilter := unquote valueText }
  else if key = "export_path".toList then { p with exportPath := unquote valueText }
  else if key = "exclude_filter".toList then { p with excludeFilter := unquote valueText }
  else if key = "runnable".toList then { p with runnable := booleanize valueText }
  else p

/-- A preset with the keys of its section. -/
def Preset.read (settings : List (Text × Text × Text)) (p : Preset) : Preset :=
  (settings.filter fun s => s.1 = p.sectionName).foldl (fun p s => p.set s.2.1 s.2.2) p

/-! ## The addon in a build -/

/-- The walk of a pattern along a text; `back` is what follows the last `*`, and the text that it has not passed over
yet. No walk takes more steps than `wildcardMatch` gives: a step back leaves less of that text. -/
def wildcardWalk : Nat → Text → Text → Option (Text × Text) → Bool
  | 0, _, _, _ => false
  | _ + 1, [], pattern, _ => pattern.all (· = '*')
  | fuel + 1, c :: text, pattern, back =>
    let goBack := match back with
      | some (after, _ :: mark) => wildcardWalk fuel mark after (some (after, mark))
      | _ => false
    match pattern with
    | [] => goBack
    | p :: rest =>
      if p = '?' || p.toLower = c.toLower then wildcardWalk fuel text rest back
      else if p = '*' then wildcardWalk fuel (c :: text) rest (some (rest, c :: text))
      else goBack

def wildcardMatch (text pattern : Text) : Bool :=
  wildcardWalk ((text.length + 2) * (text.length + pattern.length + 2)) text pattern none

def kExtension : Text := "addons/didi/didi.gdextension".toList

/-- Whether a build from the preset carries the addon; judged only for a preset that exports everything. -/
def presetShipsDidiAddon (exportFilter excludeFilter : Text) : Option Bool :=
  if !exportFilter.isEmpty && exportFilter ≠ "all_resources".toList then none
  else
    let patterns := ((excludeFilter.splitOn ',').map stringsTrim).filter fun pattern => !pattern.isEmpty
    some !(patterns.any fun pattern =>
      wildcardMatch kExtension pattern || wildcardMatch ("res://".toList ++ kExtension) pattern)

example : presetShipsDidiAddon [] "*.txt, ADDONS/*/didi.?dextension".toList = some false := by decide

/-! ## Runnable presets -/

def runnablePresets : Text := "runnable_presets".toList

/-- The preset that the `[runnable_presets]` section names for a platform. -/
def namedToRun (settings : List (Text × Text × Text)) (platform : Text) : Option Text :=
  (settings.reverse.find? fun s => s.1 = runnablePresets && unquote s.2.1 = platform).map fun s => unquote s.2.2

/-- The platform by the name it has since 4.3. -/
def Preset.platformName (p : Preset) : Text := if p.platform = "Linux/X11".toList then "Linux".toList else p.platform

def Preset.claims (settings : List (Text × Text × Text)) (p : Preset) : Bool :=
  namedToRun settings p.platformName = some p.name || p.runnable

def insertByIndex (sorted : List Preset) (p : Preset) : List Preset :=
  (sorted.takeWhile fun q => q.index ≤ p.index) ++ p :: sorted.dropWhile fun q => q.index ≤ p.index

/-- The presets by their index; those of one index keep their order. -/
def byIndex (presets : List Preset) : List Preset := presets.foldl insertByIndex []

/-- The preset that a platform runs: the last in that order that is its runnable preset. -/
def running (settings : List (Text × Text × Text)) (presets : List Preset) (platform : Text) : Option Preset :=
  ((byIndex presets).filter fun p => p.platformName = platform && p.claims settings).getLast?

/-- The runnable flags, which a `[runnable_presets]` section takes out of the presets. -/
def settleRunnable (headers : List Text) (settings : List (Text × Text × Text)) (presets : List Preset) :
    List Preset :=
  if headers.contains runnablePresets then
    presets.map fun p =>
      { p with runnable := (running settings presets p.platformName).any (·.sectionName = p.sectionName) }
  else presets

def declaredPresets (headers : List Text) (settings : List (Text × Text × Text)) : List Preset :=
  settleRunnable headers settings ((declaredSections headers).map (Preset.read settings))

/-! ## Files that declare none -/

/-- Why the engine does not load the presets of a file. -/
structure Cause where
  reason : String
  detail : String
  line : Nat

def byteOrderCause (contents : Text) : Option Cause :=
  if kByteOrderMark.isPrefixOf contents then some
    { reason := "byte_order_mark"
      detail := "export_presets.cfg starts with a UTF-8 byte-order mark, and Godot does not skip " ++
        "one in this file: it reads the first section header as part of a key and detects " ++
        "no presets at all. Save the file as UTF-8 without a byte-order mark."
      line := 1 }
  else none

def truncatedCause (scanned : Scan) : Option Cause :=
  if scanned.complete then none
  else
    let line := (scanned.entries.getLast?.map Entry.line).getD 0
    some
      { reason := "truncated_value"
        detail := "export_presets.cfg ends part-way through a value" ++
          (if 0 < line then ", starting on line " ++ toString line else "") ++
          ", so Godot answers ERR_PARSE_ERROR for the whole file and the editor " ++
          "detects no presets at all. That is a truncated write rather than a preset " ++
          "to correct, so repair the line or delete the file and export once from the " ++
          "editor to write a new one."
        line }

def unloadableCause (scanned : Scan) : Option Cause :=
  scanned.entries.findSome? fun e => (valueProblem e.valueText).map fun problem =>
    { reason := "unloadable_value"
      detail := "Godot's parser refuses the value of \"" ++ String.ofList e.key ++ "\" on line " ++
        toString e.line ++ ", because " ++ problem ++
        ". It answers ERR_PARSE_ERROR for the whole file, so the editor detects no " ++
        "presets even though the keys ahead of this one are fine."
      line := e.line }

def headerlessCause (scanned : Scan) : Option Cause :=
  if scanned.headers.isEmpty && (!scanned.entries.isEmpty || scanned.trailingKey) then some
    { reason := "no_section_header"
      detail := "export_presets.cfg has content and no section header the engine honours, so it " ++
        "is not the file Godot writes. Delete it and export once from the editor to " ++
        "write a new one."
      line := 0 }
  else none

def strayCause (scanned : Scan) : Option Cause :=
  (scanned.entries.find? fun e => e.sectionName.isEmpty).map fun e =>
    { reason := "key_before_section"
      detail := "Line " ++ toString e.line ++ " carries the key \"" ++ String.ofList e.key ++
        "\" before any section header, so nothing owns it. That is also where " ++
        "a [preset.N] header swallowed by the line above it leaves its keys."
      line := e.line }

/-- The first preset that the engine cannot detect or reach, after presets of the names `seen`. -/
def presetCause (seen : List Text) : List Preset → Option Cause
  | [] => none
  | p :: presets =>
    if p.name.isEmpty || p.platform.isEmpty then some
      { reason := "incomplete_preset"
        detail := "[preset." ++ toString p.index ++ "] declares no " ++
          (if p.name.isEmpty then "name" else "platform") ++
          ", and Godot needs both to detect a preset. Add it in the editor's " ++
          "Export dialog."
        line := 0 }
    else if seen.contains p.name then some
      { reason := "duplicate_preset_name"
        detail := "[preset." ++ toString p.index ++ "] is named \"" ++ String.ofList p.name ++
          "\", and so is an earlier preset. Godot addresses a preset by name, so " ++
          "the second one cannot be reached. Rename one in the editor's Export " ++
          "dialog."
        line := 0 }
    else presetCause (p.name :: seen) presets

def causeOf (contents : Text) (scanned : Scan) (presets : List Preset) : Option Cause :=
  (byteOrderCause contents).or <| (truncatedCause scanned).or <| (unloadableCause scanned).or <|
    (headerlessCause scanned).or <| (strayCause scanned).or <| presetCause [] presets

/-! ## Detection -/

def shippedExportPlatforms : List Text :=
  ["Windows Desktop", "Linux", "macOS", "Android", "iOS", "Web", "visionOS"].map String.toList

/-- The names of a platform that Godot 4 ships under another name. -/
def otherNames : List (Text × Text) :=
  [("windows", "Windows Desktop"), ("html5", "Web"), ("linux/x11", "Linux"), ("x11", "Linux"), ("osx", "macOS"),
    ("mac osx", "macOS")].map fun (other, name) => (other.toList, name.toList)

def shippedPlatformFor (written : Text) : Option Text :=
  if written = "Linux/X11".toList then none
  else
    let folded := (stringsTrim written).map Char.toLower
    (shippedExportPlatforms.find? fun name => name.map Char.toLower = folded && name ≠ written).or
      (otherNames.lookup folded)

/-- Why a preset is not detected: the reason, a member that goes with it, and a sentence. -/
structure NotDetected where
  reason : String
  extra : Option (String × Json) := none
  detail : String

/-- The section the engine asks for. -/
def sectionHeader (index : Nat) : String := "[preset." ++ toString index ++ "]"

def notDetected (firstMissing : Nat) (p : Preset) : Option NotDetected :=
  let written := "[" ++ String.ofList p.sectionName ++ "]"
  let platform := String.ofList p.platform
  if !p.canonical then some
    { reason := "section_not_read"
      extra := some ("section", .string written)
      detail := "Godot asks for the section " ++ sectionHeader p.index ++
        ", spelled with no leading zero, so it never reads " ++ written ++ ". Rename it " ++ sectionHeader p.index ++
        ", and its .options section with it." }
  else if firstMissing < p.index then some
    { reason := "numbering_gap"
      extra := some ("missing_index", .integer firstMissing)
      detail := "Godot reads [preset.0], [preset.1] and so on and stops at the " ++
        "first number that is missing, which is " ++ sectionHeader firstMissing ++
        ", so it never reaches this preset. Renumber the sections so " ++
        "they run from 0 with no gap, and the .options sections with " ++
        "them. The Export dialog cannot do it, because it only shows " ++
        "the presets Godot detected." }
  else if p.platform = "Linux/X11".toList || shippedExportPlatforms.contains p.platform then none
  else
    match shippedPlatformFor p.platform with
    | some meant => some
      { reason := "misspelled_platform"
        extra := some ("did_you_mean", .string (String.ofList meant))
        detail := "Godot has no export platform named \"" ++ platform ++
          "\", and it matches the name exactly, so the editor skips this " ++
          "preset without a word. The platform it ships is \"" ++ String.ofList meant ++ "\"." }
    | none => some
      { reason := "platform_not_shipped"
        detail := "Godot ships no export platform named \"" ++ platform ++
          "\". The editor skips this preset without a word unless an " ++
          "editor plugin or a GDExtension registers a platform by exactly " ++
          "that name, which is why project_export still hands it to " ++
          "Godot." }

/-- The first number that is not among them. -/
def firstMissing (numbers : List Nat) : Nat :=
  ((List.range (numbers.length + 1)).find? fun n => !numbers.contains n).getD 0

/-! ## The file -/

/-- A preset as it is listed. -/
structure ExportPreset where
  index : Nat
  name : Text
  platform : Text
  runnable : Bool
  exportFilter : Text
  exportPath : Text
  includesDidiAddon : Option Bool
  notDetected : Option NotDetected

def ExportPreset.detected (p : ExportPreset) : Bool := p.notDetected.isNone

def Preset.listed (firstMissing : Nat) (p : Preset) : ExportPreset :=
  { index := p.index, name := p.name, platform := p.platform, runnable := p.runnable,
    exportFilter := p.exportFilter, exportPath := p.exportPath,
    includesDidiAddon := presetShipsDidiAddon p.exportFilter p.excludeFilter,
    notDetected := notDetected firstMissing p }

structure ExportPresetsFile where
  presets : List ExportPreset := []
  sectionCount : Nat
  cause : Option Cause := none
  firstMissingIndex : Nat := 0
  sectionNames : List Text

def ExportPresetsFile.malformed (file : ExportPresetsFile) : Bool := file.cause.isSome

def readExportPresets (contents : Text) : ExportPresetsFile :=
  let scanned := scan contents
  let headers := scanned.headers.map Header.name
  let presets := declaredPresets headers (scanned.entries.map Entry.setting)
  match causeOf contents scanned presets with
  | some cause => { sectionCount := presets.length, cause := some cause, sectionNames := headers }
  | none =>
    let missing := firstMissing ((presets.filter Preset.canonical).map Preset.index)
    { presets := presets.map (Preset.listed missing), sectionCount := presets.length, firstMissingIndex := missing,
      sectionNames := headers }

end Didi.Export
