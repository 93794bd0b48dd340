import Mathlib.Data.List.Infix
import Didi.Export.Section

/-!
# Adding an export preset

The file with the section that is added begins with the file before it. It lists one more preset, of the name, the
platform and the path that were asked for, exactly when the file is `Addable` for them:

* it ends neither in the text of a key nor in a value that awaits its call;
* the number that is missing has at most nine digits;
* the preset does not take the place of the one that its platform runs (`Displaces`);
* the engine's decode leaves the name and the path as they are.

`adds_iff` : so for every file and all arguments for which a plan is answered.
-/

namespace Didi.Export
open Didi.Config
variable {text : Text} {p : Preset}

/-! ## What a file declares -/

def rawPresets (text : Text) : List Preset :=
  (declaredSections (sectionNames text)).map (Preset.read (sectionSettings text))

def presetsIn (text : Text) : List Preset := declaredPresets (sectionNames text) (sectionSettings text)

def missingIn (text : Text) : Nat := firstMissing (((presetsIn text).filter Preset.canonical).map Preset.index)

theorem readExportPresets_eq : readExportPresets text =
    match causeOf text (scan text) (presetsIn text) with
    | some cause =>
      { sectionCount := (presetsIn text).length, cause := some cause, sectionNames := sectionNames text }
    | none =>
      { presets := (presetsIn text).map (Preset.listed (missingIn text)), sectionCount := (presetsIn text).length,
        firstMissingIndex := missingIn text, sectionNames := sectionNames text } := rfl

theorem readExportPresets_of_sound (h : (readExportPresets text).malformed = false) :
    causeOf text (scan text) (presetsIn text) = none ∧
      (readExportPresets text).presets = (presetsIn text).map (Preset.listed (missingIn text)) ∧
      (readExportPresets text).firstMissingIndex = missingIn text := by
  rw [readExportPresets_eq] at h ⊢
  cases hcause : causeOf text (scan text) (presetsIn text) with
  | some cause =>
    rw [hcause] at h
    cases h
  | none => exact ⟨rfl, rfl, rfl⟩

/-- What a preset keeps of its section. -/
structure SameSection (p q : Preset) : Prop where
  sectionName : p.sectionName = q.sectionName
  index : p.index = q.index
  canonical : p.canonical = q.canonical

theorem SameSection.refl (p : Preset) : SameSection p p := ⟨rfl, rfl, rfl⟩

theorem sameSection_set (p : Preset) (key valueText : Text) : SameSection (p.set key valueText) p := by
  unfold Preset.set
  split_ifs <;> exact ⟨rfl, rfl, rfl⟩

theorem sameSection_read (settings : List (Text × Text × Text)) (p : Preset) : SameSection (p.read settings) p := by
  unfold Preset.read
  generalize settings.filter _ = own
  induction own using List.reverseRecOn with
  | nil => exact .refl p
  | append_singleton own s ih =>
    rw [List.foldl_append]
    have hset := sameSection_set (own.foldl (fun p s => p.set s.2.1 s.2.2) p) s.2.1 s.2.2
    exact ⟨hset.sectionName.trans ih.sectionName, hset.index.trans ih.index, hset.canonical.trans ih.canonical⟩

/-- The runnable flag of a preset among all. -/
def runnableIn (names : List Text) (settings : List (Text × Text × Text)) (presets : List Preset) (p : Preset) : Bool :=
  if names.contains runnablePresets then
    (running settings presets p.platformName).any (·.sectionName = p.sectionName)
  else p.runnable

theorem presetsIn_eq (text : Text) : presetsIn text = (rawPresets text).map fun p =>
    { p with runnable := runnableIn (sectionNames text) (sectionSettings text) (rawPresets text) p } := by
  unfold presetsIn declaredPresets settleRunnable runnableIn
  split_ifs
  · rfl
  · exact (List.map_id _).symm

/-- A preset stands in a section whose name says its number. -/
theorem blank_of_mem (h : p ∈ rawPresets text) :
    p.sectionName ∈ sectionNames text ∧ ∃ digits, presetDigits p.sectionName = some digits ∧
      SameSection p (blankPreset p.sectionName digits) := by
  obtain ⟨q, hq, rfl⟩ := List.mem_map.mp h
  obtain ⟨hmem, digits, hdigits, heq⟩ := mem_declaredSections hq
  have hsame := sameSection_read (sectionSettings text) q
  rw [hsame.sectionName]
  refine ⟨hmem, digits, hdigits, hsame.sectionName, ?_, ?_⟩
  · rw [hsame.index]
    conv_lhs => rw [heq]
  · rw [hsame.canonical]
    conv_lhs => rw [heq]

theorem mem_presetsIn (h : p ∈ rawPresets text) :
    { p with runnable := runnableIn (sectionNames text) (sectionSettings text) (rawPresets text) p } ∈ presetsIn text := by
  rw [presetsIn_eq]
  exact List.mem_map.mpr ⟨p, h, rfl⟩

theorem index_eq_of_sectionName {p q : Preset} (hp : p ∈ rawPresets text) (hq : q ∈ rawPresets text)
    (h : p.sectionName = q.sectionName) : p.index = q.index := by
  obtain ⟨-, digits, hdigits, hsame⟩ := blank_of_mem hp
  obtain ⟨-, digits', hdigits', hsame'⟩ := blank_of_mem hq
  rw [h, hdigits'] at hdigits
  cases hdigits
  rw [hsame.index, hsame'.index]
  rfl

/-- The number that is missing has no section, whatever its digits. -/
theorem sectionName_ne (h : p ∈ rawPresets text) :
    p.sectionName ≠ presetSection (missingIn text) ∧ p.sectionName ≠ optionsSection (missingIn text) := by
  obtain ⟨-, digits, hdigits, hsame⟩ := blank_of_mem h
  constructor
  · intro hname
    rw [hname, presetDigits_presetSection] at hdigits
    cases hdigits
    rw [hname, blankPreset_presetSection] at hsame
    apply (firstMissing_spec (((presetsIn text).filter Preset.canonical).map Preset.index)).1
    exact List.mem_map.mpr ⟨_, List.mem_filter.mpr ⟨mem_presetsIn h, hsame.canonical⟩, hsame.index⟩
  · intro hname
    rw [hname, presetDigits_optionsSection] at hdigits
    cases hdigits

/-- The new preset takes the place of the one that its platform runs: the `[runnable_presets]` section names it for the
platform already, and the one that runs has no greater index. -/
structure Displaces (before name platform : Text) : Prop where
  mapped : runnablePresets ∈ sectionNames before
  named : namedToRun (sectionSettings before) platform = some name
  holder : ∃ p ∈ presetsIn before, p.runnable = true ∧ p.platformName = platform ∧ p.index ≤ missingIn before

theorem running_congr {settings settings' : List (Text × Text × Text)}
    (h : ∀ platform, namedToRun settings platform = namedToRun settings' platform) (presets : List Preset)
    (platform : Text) : running settings presets platform = running settings' presets platform := by
  unfold running Preset.claims
  simp only [h]

/-! ## One more section -/

section Added
variable {before name platform exportPath : Text} {includeDidiAddon : Bool}

/-- The file with the section of the number that is missing. -/
def withPreset (before name platform exportPath : Text) (includeDidiAddon : Bool) : Text :=
  withLines before (writtenSection (missingIn before) name platform exportPath includeDidiAddon)

/-- The preset that is added, as its section declares it. -/
def addedPreset (index : Nat) (name platform exportPath : Text) (includeDidiAddon : Bool) : Preset :=
  { sectionName := presetSection index, index, canonical := true,
    name := decodeUtf8TheWayGodotDoes name, platform, exportFilter := "all_resources".toList,
    exportPath := decodeUtf8TheWayGodotDoes exportPath,
    excludeFilter := if includeDidiAddon then [] else "addons/didi/*".toList }

/-- No key stands in the section of the number that is missing. -/
theorem sectionName_ne_of_setting (hindex : missingIn before < 10 ^ 9) {s : Text × Text × Text}
    (h : s ∈ sectionSettings before) : s.1 ≠ presetSection (missingIn before) := by
  obtain ⟨e, hmem, rfl⟩ := List.mem_map.mp h
  intro hname
  have hname : e.sectionName = presetSection (missingIn before) := hname
  rcases owned_scan before e hmem with hempty | hheader
  · rw [hempty] at hname
    cases hname
  · rw [hname] at hheader
    obtain ⟨p, hp, hsection⟩ := exists_declaredSection hheader (presetDigits_presetSection _) (digits_length.mpr hindex)
    have hraw : p.read (sectionSettings before) ∈ rawPresets before := List.mem_map.mpr ⟨p, hp, rfl⟩
    exact (sectionName_ne hraw).1 ((sameSection_read _ p).sectionName.trans hsection)

theorem section_of_settings {index : Nat} {s : Text × Text × Text}
    (h : s ∈ Written.settings [] (writtenSection index name platform exportPath includeDidiAddon)) :
    s.1 = presetSection index ∨ s.1 = optionsSection index := by
  simp only [writtenSection, Written.settings, List.mem_cons, List.not_mem_nil, or_false] at h
  rcases h with rfl | rfl | rfl | rfl | rfl | rfl | rfl | rfl
  all_goals
    first
      | exact .inl rfl
      | exact .inr rfl

theorem presetSection_ne_optionsSection (index : Nat) : presetSection index ≠ optionsSection index := by
  intro h
  have := presetDigits_presetSection index
  rw [h, presetDigits_optionsSection] at this
  cases this

theorem runnablePresets_ne (index : Nat) :
    runnablePresets ≠ presetSection index ∧ runnablePresets ≠ optionsSection index := by
  constructor <;> exact fun heq => by cases heq

section Keys
variable (p) (valueText : Text)

theorem set_name : p.set "name".toList valueText = { p with name := unquote valueText } := if_pos rfl

theorem set_platform : p.set "platform".toList valueText = { p with platform := unquote valueText } := by
  rw [Preset.set, if_neg (by decide), if_pos rfl]

theorem set_exportFilter : p.set "export_filter".toList valueText = { p with exportFilter := unquote valueText } := by
  rw [Preset.set, if_neg (by decide), if_neg (by decide), if_pos rfl]

theorem set_exportPath : p.set "export_path".toList valueText = { p with exportPath := unquote valueText } := by
  rw [Preset.set, if_neg (by decide), if_neg (by decide), if_neg (by decide), if_pos rfl]

theorem set_excludeFilter : p.set "exclude_filter".toList valueText = { p with excludeFilter := unquote valueText } := by
  rw [Preset.set, if_neg (by decide), if_neg (by decide), if_neg (by decide), if_neg (by decide), if_pos rfl]

theorem set_runnable : p.set "runnable".toList valueText = { p with runnable := booleanize valueText } := by
  rw [Preset.set, if_neg (by decide), if_neg (by decide), if_neg (by decide), if_neg (by decide), if_neg (by decide),
    if_pos rfl]

theorem set_includeFilter : p.set "include_filter".toList valueText = p := by
  rw [Preset.set, if_neg (by decide), if_neg (by decide), if_neg (by decide), if_neg (by decide), if_neg (by decide),
    if_neg (by decide)]

end Keys

/-- The preset of the new section. -/
theorem read_added (h : Accepted name platform exportPath) (index : Nat) :
    (blankPreset (presetSection index) (toString index).toList).read
      (Written.settings [] (writtenSection index name platform exportPath includeDidiAddon)) =
      addedPreset index name platform exportPath includeDidiAddon := by
  have hown : ((Written.settings [] (writtenSection index name platform exportPath includeDidiAddon)).filter
      fun s => s.1 = presetSection index).map (fun s => s.2) =
        [("name".toList, configFileString name), ("platform".toList, configFileString platform),
          ("runnable".toList, "false".toList), ("export_filter".toList, quotedLiteral "all_resources".toList),
          ("include_filter".toList, quotedLiteral []),
          ("exclude_filter".toList, quotedLiteral (if includeDidiAddon then [] else "addons/didi/*".toList)),
          ("export_path".toList, configFileString exportPath)] := by
    have hother : (optionsSection index = presetSection index) = False :=
      eq_false (presetSection_ne_optionsSection index).symm
    simp only [writtenSection, Written.settings, List.filter_cons, List.filter_nil, decide_true, if_true, hother,
      decide_false, Bool.false_eq_true, if_false, List.map_cons, List.map_nil]
  have hexclude : unquote (quotedLiteral (if includeDidiAddon then [] else "addons/didi/*".toList)) =
      if includeDidiAddon then [] else "addons/didi/*".toList := by
    cases includeDidiAddon <;> decide +kernel
  have hread : ∀ p : Preset, p.sectionName = presetSection index →
      p.read (Written.settings [] (writtenSection index name platform exportPath includeDidiAddon)) =
        (((Written.settings [] (writtenSection index name platform exportPath includeDidiAddon)).filter
          fun s => s.1 = presetSection index).map (fun s => s.2)).foldl (fun p s => p.set s.1 s.2) p := by
    intro p hp
    unfold Preset.read
    rw [List.foldl_map, hp]
  rw [blankPreset_presetSection, hread _ rfl, hown]
  simp only [List.foldl_cons, List.foldl_nil]
  have hfilter : unquote (quotedLiteral "all_resources".toList) = "all_resources".toList := by decide +kernel
  have hrunnable : booleanize "false".toList = false := by decide
  have hplatform : unquote (configFileString platform) = platform :=
    (unquote_configFileString platform).trans (plain_of_shipped h.shipped).2.2
  simp only [set_name, set_platform, set_runnable, set_exportFilter, set_includeFilter, set_excludeFilter,
    set_exportPath, hplatform, hrunnable, hfilter, hexclude, unquote_configFileString]
  rfl

theorem declaredSections_next (hindex : missingIn before < 10 ^ 9) :
    declaredSections (sectionNames before ++ [presetSection (missingIn before), optionsSection (missingIn before)]) =
      declaredSections (sectionNames before) ++
        [blankPreset (presetSection (missingIn before)) (toString (missingIn before)).toList] := by
  have hnew : ((declaredSections (sectionNames before)).any fun p => p.sectionName = presetSection (missingIn before)) =
      false := by
    rw [List.any_eq_false]
    intro p hp hname
    have hraw : p.read (sectionSettings before) ∈ rawPresets before := List.mem_map.mpr ⟨p, hp, rfl⟩
    exact (sectionName_ne hraw).1 ((sameSection_read _ p).sectionName.trans (of_decide_eq_true hname))
  have hshort : ¬ 9 < (toString (missingIn before)).toList.length := by
    have := digits_length.mpr hindex
    omega
  rw [show [presetSection (missingIn before), optionsSection (missingIn before)] =
    [presetSection (missingIn before)] ++ [optionsSection (missingIn before)] from rfl, ← List.append_assoc,
    declaredSections_append (by simp only [List.mem_singleton]; rintro name rfl; exact presetDigits_optionsSection _),
    declaredSections_concat, declare, presetDigits_presetSection]
  dsimp only
  rw [hnew, Bool.false_or, if_neg (by simpa using hshort)]
  rfl

variable (h : Accepted name platform exportPath) (hcomplete : (scan before).complete = true)
  (hclosed : EndsClosed before) (hindex : missingIn before < 10 ^ 9)
include h hcomplete hclosed

theorem sectionNames_added : sectionNames (withPreset before name platform exportPath includeDidiAddon) =
    sectionNames before ++ [presetSection (missingIn before), optionsSection (missingIn before)] :=
  (scan_closed (sound_section h) hcomplete hclosed).2.1

theorem sectionSettings_added : sectionSettings (withPreset before name platform exportPath includeDidiAddon) =
    sectionSettings before ++
      Written.settings [] (writtenSection (missingIn before) name platform exportPath includeDidiAddon) :=
  (scan_closed (sound_section h) hcomplete hclosed).2.2

include hindex

/-- **The section declares one more preset, and the others are as they were.** -/
theorem rawPresets_added : rawPresets (withPreset before name platform exportPath includeDidiAddon) =
    rawPresets before ++ [addedPreset (missingIn before) name platform exportPath includeDidiAddon] := by
  unfold rawPresets
  rw [sectionNames_added h hcomplete hclosed, sectionSettings_added h hcomplete hclosed, declaredSections_next hindex,
    List.map_append, List.map_singleton]
  congr 1
  · apply List.map_congr_left
    intro p hp
    have hraw : p.read (sectionSettings before) ∈ rawPresets before := List.mem_map.mpr ⟨p, hp, rfl⟩
    obtain ⟨hne, hne'⟩ := sectionName_ne hraw
    rw [(sameSection_read _ p).sectionName] at hne hne'
    have hnone : (Written.settings [] (writtenSection (missingIn before) name platform exportPath
        includeDidiAddon)).filter (fun s => s.1 = p.sectionName) = [] := by
      rw [List.filter_eq_nil_iff]
      intro s hs hsection
      rcases section_of_settings hs with hs | hs
      · exact hne ((of_decide_eq_true hsection).symm.trans hs)
      · exact hne' ((of_decide_eq_true hsection).symm.trans hs)
    unfold Preset.read
    rw [List.filter_append, hnone, List.append_nil]
  · have hnone : (sectionSettings before).filter
        (fun s => s.1 = (blankPreset (presetSection (missingIn before)) (toString (missingIn before)).toList).sectionName) =
          [] := by
      rw [List.filter_eq_nil_iff]
      intro s hs hsection
      exact sectionName_ne_of_setting hindex hs (of_decide_eq_true hsection)
    rw [← read_added h]
    unfold Preset.read
    rw [List.filter_append, hnone, List.nil_append]

omit hindex in
theorem namedToRun_added (platform' : Text) :
    namedToRun (sectionSettings (withPreset before name platform exportPath includeDidiAddon)) platform' =
      namedToRun (sectionSettings before) platform' := by
  unfold namedToRun
  rw [sectionSettings_added h hcomplete hclosed, List.reverse_append, List.find?_append]
  have hnone : (Written.settings [] (writtenSection (missingIn before) name platform exportPath
      includeDidiAddon)).reverse.find? (fun s => s.1 = runnablePresets && unquote s.2.1 = platform') = none := by
    rw [List.find?_eq_none]
    intro s hs hfound
    have hsection := of_decide_eq_true (Bool.and_eq_true_iff.mp hfound).1
    rcases section_of_settings (List.mem_reverse.mp hs) with hs | hs
    · exact (runnablePresets_ne (missingIn before)).1 (hsection.symm.trans hs)
    · exact (runnablePresets_ne (missingIn before)).2 (hsection.symm.trans hs)
  rw [hnone, Option.none_or]

/-- **The runnable flags change only where the new preset takes a place.** -/
theorem runnableIn_added (p : Preset) :
    runnableIn (sectionNames (withPreset before name platform exportPath includeDidiAddon))
      (sectionSettings (withPreset before name platform exportPath includeDidiAddon))
      (rawPresets (withPreset before name platform exportPath includeDidiAddon)) p =
    if runnablePresets ∈ sectionNames before ∧ platform = p.platformName ∧
        namedToRun (sectionSettings before) platform = some (decodeUtf8TheWayGodotDoes name) ∧
        (running (sectionSettings before) (rawPresets before) p.platformName).all (·.index ≤ missingIn before) = true
    then decide (presetSection (missingIn before) = p.sectionName)
    else runnableIn (sectionNames before) (sectionSettings before) (rawPresets before) p := by
  have hmapped : (sectionNames (withPreset before name platform exportPath includeDidiAddon)).contains runnablePresets =
      (sectionNames before).contains runnablePresets := by
    rw [sectionNames_added h hcomplete hclosed]
    simp [(runnablePresets_ne (missingIn before)).1, (runnablePresets_ne (missingIn before)).2]
  have hplatform : (addedPreset (missingIn before) name platform exportPath includeDidiAddon).platformName = platform := by
    have hne : platform ≠ "Linux/X11".toList := by
      rintro rfl
      exact absurd h.shipped (by decide)
    exact if_neg hne
  have hclaims : (addedPreset (missingIn before) name platform exportPath includeDidiAddon).claims
      (sectionSettings (withPreset before name platform exportPath includeDidiAddon)) =
        decide (namedToRun (sectionSettings before) platform = some (decodeUtf8TheWayGodotDoes name)) := by
    unfold Preset.claims
    rw [hplatform, namedToRun_added h hcomplete hclosed]
    exact Bool.or_false _
  unfold runnableIn
  rw [hmapped, rawPresets_added h hcomplete hclosed hindex, running_append, hplatform, hclaims,
    running_congr (namedToRun_added h hcomplete hclosed)]
  by_cases hmem : runnablePresets ∈ sectionNames before
  · have hcontains : (sectionNames before).contains runnablePresets = true := by simpa using hmem
    rw [if_pos hcontains, if_pos hcontains]
    by_cases htaken : platform = p.platformName ∧
        namedToRun (sectionSettings before) platform = some (decodeUtf8TheWayGodotDoes name) ∧
        (running (sectionSettings before) (rawPresets before) p.platformName).all (·.index ≤ missingIn before) = true
    · rw [if_pos, if_pos ⟨hmem, htaken⟩]
      · rfl
      · rw [Bool.and_eq_true, Bool.and_eq_true, decide_eq_true_eq, decide_eq_true_eq]
        exact ⟨⟨htaken.1, htaken.2.1⟩, htaken.2.2⟩
    · rw [if_neg, if_neg (fun hall => htaken hall.2)]
      rw [Bool.and_eq_true, Bool.and_eq_true, decide_eq_true_eq, decide_eq_true_eq]
      exact fun hall => htaken ⟨hall.1.1, hall.1.2, hall.2⟩
  · have hcontains : ¬ (sectionNames before).contains runnablePresets = true := by simpa using hmem
    rw [if_neg hcontains, if_neg hcontains, if_neg (fun hall => hmem hall.1)]

/-- Where the new preset takes no place, every other keeps its flag. -/
theorem runnableIn_kept (hname : decodeUtf8TheWayGodotDoes name = name) (hdisplaces : ¬ Displaces before name platform)
    (hp : p ∈ rawPresets before) :
    runnableIn (sectionNames (withPreset before name platform exportPath includeDidiAddon))
      (sectionSettings (withPreset before name platform exportPath includeDidiAddon))
      (rawPresets (withPreset before name platform exportPath includeDidiAddon)) p =
    runnableIn (sectionNames before) (sectionSettings before) (rawPresets before) p := by
  rw [runnableIn_added h hcomplete hclosed hindex, hname]
  split_ifs with htaken
  · obtain ⟨hmem, hplatform, hnamed, hall⟩ := htaken
    rw [decide_eq_false (sectionName_ne hp).1.symm]
    symm
    by_contra hrunnable
    have hcontains : (sectionNames before).contains runnablePresets = true := by simpa using hmem
    rw [Bool.not_eq_false, runnableIn, if_pos hcontains] at hrunnable
    obtain ⟨r, hr, hsection⟩ := (Option.any_eq_true _ _).mp hrunnable
    obtain ⟨hrmem, hrplatform, -⟩ := mem_of_running hr
    refine hdisplaces ⟨hmem, hnamed, _, mem_presetsIn hrmem, ?_, hrplatform.trans hplatform.symm, ?_⟩
    · rw [runnableIn, if_pos hcontains, hrplatform, hr]
      simp
    · rw [hr] at hall
      simpa using hall
  · rfl

/-- Where it takes a place, the preset that had it is runnable no more. -/
theorem exists_displaced (hname : decodeUtf8TheWayGodotDoes name = name) (hdisplaces : Displaces before name platform) :
    ∃ p ∈ rawPresets before,
      runnableIn (sectionNames before) (sectionSettings before) (rawPresets before) p = true ∧
      runnableIn (sectionNames (withPreset before name platform exportPath includeDidiAddon))
        (sectionSettings (withPreset before name platform exportPath includeDidiAddon))
        (rawPresets (withPreset before name platform exportPath includeDidiAddon)) p = false := by
  obtain ⟨hmem, hnamed, q, hq, hrunnable, hplatform, hle⟩ := hdisplaces
  rw [presetsIn_eq] at hq
  obtain ⟨p, hp, rfl⟩ := List.mem_map.mp hq
  have hplatform : p.platformName = platform := hplatform
  refine ⟨p, hp, hrunnable, ?_⟩
  have hcontains : (sectionNames before).contains runnablePresets = true := by simpa using hmem
  dsimp only at hrunnable
  rw [runnableIn, if_pos hcontains] at hrunnable
  obtain ⟨r, hr, hsection⟩ := (Option.any_eq_true _ _).mp hrunnable
  have hindexed : r.index = p.index := index_eq_of_sectionName (mem_of_running hr).1 hp (of_decide_eq_true hsection)
  rw [runnableIn_added h hcomplete hclosed hindex, hname, if_pos]
  · exact decide_eq_false (sectionName_ne hp).1.symm
  · refine ⟨hmem, hplatform.symm, hnamed, ?_⟩
    rw [hr]
    simpa [hindexed] using hle

end Added

/-! ## The file after the addition -/

/-- A file that the engine loads, with presets that it can reach. -/
structure Loads (text : Text) : Prop where
  mark : ¬ kByteOrderMark <+: text
  complete : (scan text).complete = true
  values : ∀ s ∈ sectionSettings text, valueProblem s.2.2 = none
  sections : ∀ s ∈ sectionSettings text, s.1 ≠ []
  headers : sectionNames text ≠ [] ∨ (scan text).entries = [] ∧ (scan text).trailingKey = false
  presets : presetCause [] (presetsIn text) = none

theorem loads_iff : causeOf text (scan text) (presetsIn text) = none ↔ Loads text := by
  have hmark : byteOrderCause text = none ↔ ¬ kByteOrderMark <+: text := by
    unfold byteOrderCause
    split_ifs with hprefix <;> simp [← List.isPrefixOf_iff_prefix, hprefix]
  have hcomplete : truncatedCause (scan text) = none ↔ (scan text).complete = true := by
    unfold truncatedCause
    split_ifs with hcomplete <;> simp [hcomplete]
  have hvalues : unloadableCause (scan text) = none ↔ ∀ s ∈ sectionSettings text, valueProblem s.2.2 = none := by
    unfold unloadableCause sectionSettings
    simp [Entry.setting]
  have hsections : strayCause (scan text) = none ↔ ∀ s ∈ sectionSettings text, s.1 ≠ [] := by
    unfold strayCause sectionSettings
    simp [Entry.setting]
  have hheaders : headerlessCause (scan text) = none ↔
      (sectionNames text ≠ [] ∨ (scan text).entries = [] ∧ (scan text).trailingKey = false) := by
    unfold headerlessCause sectionNames
    split_ifs with hheaderless
    · simp_all
      exact fun hnone => hheaderless.2.resolve_left fun hsome => hsome hnone
    · simp_all
      tauto
  unfold causeOf
  simp only [Option.or_eq_none_iff, hmark, hcomplete, hvalues, hsections, hheaders]
  constructor
  · rintro ⟨h1, h2, h3, h4, h5, h6⟩
    exact ⟨h1, h2, h3, h5, h4, h6⟩
  · rintro ⟨h1, h2, h3, h4, h5, h6⟩
    exact ⟨h1, h2, h3, h5, h4, h6⟩

section Sound
variable {before name platform exportPath : Text} {includeDidiAddon : Bool}

theorem not_mark_added (hclosed : EndsClosed before) (hmark : ¬ kByteOrderMark <+: before) :
    ¬ kByteOrderMark <+: withPreset before name platform exportPath includeDidiAddon := by
  intro hprefix
  have hbefore : before <+: withPreset before name platform exportPath includeDidiAddon := by
    unfold withPreset withLines
    rw [List.append_assoc]
    exact List.prefix_append _ _
  rcases List.prefix_or_prefix_of_prefix hprefix hbefore with h | h
  · exact hmark h
  · -- what is left of the mark is text of a key, so the file does not end closed
    have hinits : before ∈ kByteOrderMark.inits := (List.mem_inits _ _).mpr h
    have hinits : before = [] ∨ before = ['\xEF'] ∨ before = ['\xEF', '\xBB'] ∨ before = kByteOrderMark := by
      simpa [kByteOrderMark] using hinits
    rcases hinits with rfl | rfl | rfl | rfl
    · obtain ⟨rest, hrest⟩ := hprefix
      cases congrArg List.head? hrest
    · exact absurd hclosed.1 (by decide)
    · exact absurd hclosed.1 (by decide)
    · exact hmark List.prefix_rfl

/-- No preset of a file that something is added to is stranded, and none has the name. -/
theorem of_fileRefusal (hrefusal : fileRefusal (readExportPresets before) name = none) :
    Loads before ∧ (∀ p ∈ presetsIn before, p.canonical = true → p.index ≤ missingIn before) ∧
      ∀ p ∈ presetsIn before, p.name ≠ name := by
  cases hcause : (readExportPresets before).cause with
  | some cause =>
    unfold fileRefusal at hrefusal
    rw [hcause] at hrefusal
    cases hrefusal
  | none =>
    have hsound : (readExportPresets before).malformed = false := by
      unfold ExportPresetsFile.malformed
      rw [hcause]
      rfl
    obtain ⟨hcauses, hpresets, -⟩ := readExportPresets_of_sound hsound
    unfold fileRefusal at hrefusal
    rw [hcause] at hrefusal
    dsimp only at hrefusal
    have hstranded : (readExportPresets before).stranded = [] := by
      by_contra hstranded
      rw [if_pos (by simpa using hstranded)] at hrefusal
      cases hrefusal
    have hnames : (readExportPresets before).presets.find? (fun p => p.name = name) = none := by
      cases hfound : (readExportPresets before).presets.find? (fun p => p.name = name) with
      | none => rfl
      | some p =>
        rw [if_neg (by simp [hstranded]), hfound] at hrefusal
        cases hrefusal
    refine ⟨loads_iff.mp hcauses, ?_, ?_⟩
    · intro p hp hcanonical
      by_contra hgreater
      have hlisted : p.listed (missingIn before) ∈ (readExportPresets before).presets := by
        rw [hpresets]
        exact List.mem_map.mpr ⟨p, hp, rfl⟩
      have hgap : ((p.listed (missingIn before)).notDetected.any (·.reason = "numbering_gap")) = true := by
        show (notDetected (missingIn before) p).any _ = true
        unfold notDetected
        dsimp only
        rw [if_neg (by simp [hcanonical]), if_pos (by omega)]
        rfl
      have hmem : p.listed (missingIn before) ∈ (readExportPresets before).stranded :=
        List.mem_filter.mpr ⟨hlisted, hgap⟩
      rw [hstranded] at hmem
      cases hmem
    · intro p hp hname
      have := List.find?_eq_none.mp hnames (p.listed (missingIn before)) (by
        rw [hpresets]
        exact List.mem_map.mpr ⟨p, hp, rfl⟩)
      exact this (decide_eq_true hname)

theorem firstMissingIndex_eq (hrefusal : fileRefusal (readExportPresets before) name = none) :
    (readExportPresets before).firstMissingIndex = missingIn before := by
  refine (readExportPresets_of_sound ?_).2.2
  by_contra hmalformed
  obtain ⟨cause, hcause⟩ := Option.isSome_iff_exists.mp (Bool.not_eq_false _ ▸ hmalformed)
  unfold fileRefusal at hrefusal
  rw [hcause] at hrefusal
  cases hrefusal

/-- What the plan of an addition is. -/
theorem plan_spec {existing : Option Text} {plan : ExportPresetAddition}
    (h : planExportPresetAddition existing name platform exportPath includeDidiAddon = .ok plan) :
    Accepted name platform exportPath ∧ fileRefusal (readExportPresets (existing.getD [])) name = none ∧
      plan.contents = withPreset (existing.getD []) name platform exportPath includeDidiAddon := by
  have hempty : readExportPresets [] = { sectionCount := 0, sectionNames := [] } := by rfl
  unfold planExportPresetAddition at h
  split at h
  · cases h
  · rename_i harguments
    dsimp only at h
    split at h
    · cases h
    · rename_i hrefusal
      have hrefusal' : fileRefusal (readExportPresets (existing.getD [])) name = none := by
        cases existing with
        | none =>
          rw [Option.getD_none, hempty]
          rfl
        | some before => exact hrefusal
      refine ⟨accepted_of_refusal harguments, hrefusal', ?_⟩
      have hindex : ((existing.map readExportPresets).map ExportPresetsFile.firstMissingIndex).getD 0 =
          missingIn (existing.getD []) := by
        cases existing with
        | none => rfl
        | some before => exact firstMissingIndex_eq hrefusal'
      rw [← Except.ok.inj h]
      dsimp only
      rw [hindex, sectionLines_eq]
      rfl

end Sound

section Listing
variable {before name platform exportPath : Text} {includeDidiAddon : Bool} (h : Accepted name platform exportPath)
  (hloads : Loads before) (hclosed : EndsClosed before) (hindex : missingIn before < 10 ^ 9)
  (hname : decodeUtf8TheWayGodotDoes name = name) (hdisplaces : ¬ Displaces before name platform)
include h hloads hclosed hindex hname hdisplaces

/-- The presets of the file, and the one that is added. -/
theorem presetsIn_added : ∃ runnable, presetsIn (withPreset before name platform exportPath includeDidiAddon) =
    presetsIn before ++
      [{ addedPreset (missingIn before) name platform exportPath includeDidiAddon with runnable }] := by
  refine ⟨runnableIn (sectionNames (withPreset before name platform exportPath includeDidiAddon))
    (sectionSettings (withPreset before name platform exportPath includeDidiAddon))
    (rawPresets (withPreset before name platform exportPath includeDidiAddon))
    (addedPreset (missingIn before) name platform exportPath includeDidiAddon), ?_⟩
  rw [presetsIn_eq, presetsIn_eq]
  conv_lhs => rw [rawPresets_added h hloads.complete hclosed hindex]
  rw [List.map_append, List.map_singleton]
  congr 1
  · apply List.map_congr_left
    intro p hp
    rw [← rawPresets_added h hloads.complete hclosed hindex,
      runnableIn_kept h hloads.complete hclosed hindex hname hdisplaces hp]
  · rw [← rawPresets_added h hloads.complete hclosed hindex]

theorem missingIn_added (hreached : ∀ p ∈ presetsIn before, p.canonical = true → p.index ≤ missingIn before) :
    missingIn (withPreset before name platform exportPath includeDidiAddon) = missingIn before + 1 := by
  obtain ⟨runnable, hpresets⟩ := @presetsIn_added before name platform exportPath includeDidiAddon h hloads hclosed
    hindex hname hdisplaces
  have hnumbers : ((presetsIn (withPreset before name platform exportPath includeDidiAddon)).filter
      Preset.canonical).map Preset.index =
        ((presetsIn before).filter Preset.canonical).map Preset.index ++ [missingIn before] := by
    rw [hpresets, List.filter_append, List.map_append]
    rfl
  rw [missingIn, hnumbers]
  apply firstMissing_eq
  · intro hmem
    rcases List.mem_append.mp hmem with hmem | hmem
    · obtain ⟨p, hp, hnext⟩ := List.mem_map.mp hmem
      obtain ⟨hp, hcanonical⟩ := List.mem_filter.mp hp
      have := hreached p hp hcanonical
      omega
    · have := List.mem_singleton.mp hmem
      omega
  · intro m hm
    rcases Nat.lt_succ_iff_lt_or_eq.mp hm with hlt | rfl
    · exact List.mem_append_left _ ((firstMissing_spec _).2 m hlt)
    · exact List.mem_append_right _ List.mem_cons_self

omit h hloads hclosed hindex hname hdisplaces in
theorem listed_next {n : Nat} (hreached : p.canonical = true → p.index ≤ n) :
    p.listed (n + 1) = p.listed n := by
  have hdetected : notDetected (n + 1) p = notDetected n p := by
    unfold notDetected
    dsimp only
    cases hcanonical : p.canonical with
    | false => rfl
    | true =>
      have hnext : ¬ n + 1 < p.index := by
        have := hreached hcanonical
        omega
      have hnow : ¬ n < p.index := by
        have := hreached hcanonical
        omega
      simp only [if_neg hnext, if_neg hnow]
  unfold Preset.listed
  rw [hdetected]

theorem loads_added (hnew : ∀ p ∈ presetsIn before, p.name ≠ name) :
    Loads (withPreset before name platform exportPath includeDidiAddon) := by
  obtain ⟨runnable, hpresets⟩ := @presetsIn_added before name platform exportPath includeDidiAddon h hloads hclosed
    hindex hname hdisplaces
  have hsettings := @sectionSettings_added before name platform exportPath includeDidiAddon h hloads.complete hclosed
  refine ⟨not_mark_added hclosed hloads.mark, (scan_closed (sound_section h) hloads.complete hclosed).1, ?_, ?_, ?_, ?_⟩
  · intro s hs
    rw [hsettings] at hs
    rcases List.mem_append.mp hs with hs | hs
    · exact hloads.values s hs
    · exact loads_section h s hs
  · intro s hs
    rw [hsettings] at hs
    rcases List.mem_append.mp hs with hs | hs
    · exact hloads.sections s hs
    · rcases section_of_settings hs with hs | hs
      all_goals
        rw [hs]
        exact fun hnil => by cases hnil
  · left
    rw [sectionNames_added h hloads.complete hclosed]
    simp
  · rw [hpresets]
    refine presetCause_append hloads.presets ?_ (plain_of_shipped h.shipped).1 List.not_mem_nil ?_
    · show decodeUtf8TheWayGodotDoes name ≠ []
      rw [hname]
      exact h.name_ne
    · intro p hp
      show p.name ≠ decodeUtf8TheWayGodotDoes name
      rw [hname]
      exact hnew p hp

end Listing

/-! ## The law -/

/-- The file after an addition lists one more preset, which is detected, and the others as they were. -/
def AddsOnePreset (before contents name platform exportPath : Text) : Prop :=
  before <+: contents ∧ (readExportPresets contents).malformed = false ∧
    ∃ added, (readExportPresets contents).presets = (readExportPresets before).presets ++ [added] ∧
      added.name = name ∧ added.platform = platform ∧ added.exportPath = exportPath ∧ added.detected = true

/-- A file to which the preset can be added. -/
structure Addable (before name platform exportPath : Text) : Prop where
  closed : EndsClosed before
  index : (readExportPresets before).firstMissingIndex < 10 ^ 9
  displaces : ¬ Displaces before name platform
  name : decodeUtf8TheWayGodotDoes name = name
  exportPath : decodeUtf8TheWayGodotDoes exportPath = exportPath

section Law
variable {before name platform exportPath : Text} {includeDidiAddon : Bool}

theorem readExportPresets_of_loads (h : Loads text) : (readExportPresets text).malformed = false ∧
    (readExportPresets text).presets = (presetsIn text).map (Preset.listed (missingIn text)) := by
  have hsound : (readExportPresets text).malformed = false := by
    rw [readExportPresets_eq, loads_iff.mpr h]
    rfl
  exact ⟨hsound, (readExportPresets_of_sound hsound).2.1⟩

/-- A file without another section of a preset lists no more presets. -/
theorem not_adds_of_sections {contents : Text} (hloads : Loads before)
    (hsections : declaredSections (sectionNames contents) = declaredSections (sectionNames before)) :
    ¬ AddsOnePreset before contents name platform exportPath := by
  rintro ⟨-, hsound, added, hlisted, -⟩
  rw [(readExportPresets_of_sound hsound).2.1, (readExportPresets_of_loads hloads).2, presetsIn_eq, presetsIn_eq] at hlisted
  have hlength := congrArg List.length hlisted
  simp only [rawPresets, List.length_map, List.length_append, hsections, List.length_singleton] at hlength
  omega

theorem prefix_added : before <+: withPreset before name platform exportPath includeDidiAddon := by
  unfold withPreset withLines
  rw [List.append_assoc]
  exact List.prefix_append _ _

/-- **To a file that the preset can be added to, one preset is added.** -/
theorem adds_of_addable (h : Accepted name platform exportPath)
    (hrefusal : fileRefusal (readExportPresets before) name = none) (haddable : Addable before name platform exportPath) :
    AddsOnePreset before (withPreset before name platform exportPath includeDidiAddon) name platform exportPath := by
  obtain ⟨hloads, hreached, hnew⟩ := of_fileRefusal hrefusal
  obtain ⟨hclosed, hindex, hdisplaces, hname, hpath⟩ := haddable
  rw [firstMissingIndex_eq hrefusal] at hindex
  have hloads' := @loads_added before name platform exportPath includeDidiAddon h hloads hclosed hindex hname
    hdisplaces hnew
  obtain ⟨hsound, hlisted⟩ := readExportPresets_of_loads hloads'
  obtain ⟨runnable, hpresets⟩ := @presetsIn_added before name platform exportPath includeDidiAddon h hloads hclosed
    hindex hname hdisplaces
  have hdetected : notDetected (missingIn before + 1)
      { addedPreset (missingIn before) name platform exportPath includeDidiAddon with runnable } = none := by
    have hcontains : shippedExportPlatforms.contains platform = true := by simpa using h.shipped
    have hreach : ¬ missingIn before + 1 < missingIn before := by omega
    show (if missingIn before + 1 < missingIn before then _
      else if (decide (platform = "Linux/X11".toList) || shippedExportPlatforms.contains platform) = true then none
      else _) = none
    rw [if_neg hreach, hcontains, Bool.or_true, if_pos rfl]
  refine ⟨prefix_added, hsound,
    ({ addedPreset (missingIn before) name platform exportPath includeDidiAddon with runnable } : Preset).listed
      (missingIn before + 1), ?_, hname, rfl, hpath, ?_⟩
  · rw [hlisted, missingIn_added h hloads hclosed hindex hname hdisplaces hreached, hpresets, List.map_append,
      (readExportPresets_of_loads hloads).2]
    congr 1
    exact List.map_congr_left fun p hp => listed_next (hreached p hp)
  · exact Option.isNone_iff_eq_none.mpr hdetected

/-- **Where one preset is added, the preset could be added.** -/
theorem addable_of_adds (h : Accepted name platform exportPath)
    (hrefusal : fileRefusal (readExportPresets before) name = none)
    (hadds : AddsOnePreset before (withPreset before name platform exportPath includeDidiAddon) name platform exportPath) :
    Addable before name platform exportPath := by
  obtain ⟨hloads, hreached, hnew⟩ := of_fileRefusal hrefusal
  have hclosed : EndsClosed before := by
    by_contra hclosed
    obtain ⟨names, hoptions, hnames⟩ := @scan_unclosed before (missingIn before) name platform exportPath
      includeDidiAddon h hloads.complete hclosed
    refine not_adds_of_sections hloads ?_ hadds
    rw [withPreset, hnames]
    apply declaredSections_append
    intro sectionName hmem
    rw [hoptions sectionName hmem]
    exact presetDigits_optionsSection _
  have hindex : missingIn before < 10 ^ 9 := by
    by_contra hindex
    refine not_adds_of_sections hloads ?_ hadds
    rw [sectionNames_added h hloads.complete hclosed]
    exact declaredSections_long hindex
  obtain ⟨-, hsound, added, hlisted, haddedName, -, haddedPath, -⟩ := hadds
  rw [(readExportPresets_of_sound hsound).2.1, (readExportPresets_of_loads hloads).2, presetsIn_eq, presetsIn_eq] at hlisted
  conv_lhs at hlisted => arg 2; rw [rawPresets_added h hloads.complete hclosed hindex]
  rw [List.map_append, List.map_append, List.map_singleton, List.map_singleton, List.map_map, List.map_map] at hlisted
  obtain ⟨hold, hlast⟩ := List.append_inj' hlisted rfl
  have hlast := List.singleton_inj.mp hlast
  have hname : decodeUtf8TheWayGodotDoes name = name := (congrArg ExportPreset.name hlast).trans haddedName
  have hpath : decodeUtf8TheWayGodotDoes exportPath = exportPath :=
    (congrArg ExportPreset.exportPath hlast).trans haddedPath
  refine ⟨hclosed, ?_, ?_, hname, hpath⟩
  · rw [firstMissingIndex_eq hrefusal]
    exact hindex
  · intro hdisplaces
    obtain ⟨p, hp, hbefore, hafter⟩ := @exists_displaced before name platform exportPath includeDidiAddon h
      hloads.complete hclosed hindex hname hdisplaces
    rw [rawPresets_added h hloads.complete hclosed hindex] at hafter
    have hflag := congrArg ExportPreset.runnable (List.map_inj_left.mp hold p hp)
    rw [show ExportPreset.runnable _ = _ from hafter] at hflag
    rw [show ExportPreset.runnable _ = _ from hbefore] at hflag
    cases hflag

end Law

/-- **Exactly to the files that the preset can be added to, one preset is added.** -/
theorem adds_iff {existing : Option Text} {name platform exportPath : Text} {includeDidiAddon : Bool}
    {plan : ExportPresetAddition}
    (h : planExportPresetAddition existing name platform exportPath includeDidiAddon = .ok plan) :
    AddsOnePreset (existing.getD []) plan.contents name platform exportPath ↔
      Addable (existing.getD []) name platform exportPath := by
  obtain ⟨haccepted, hrefusal, hcontents⟩ := plan_spec h
  rw [hcontents]
  exact ⟨addable_of_adds haccepted hrefusal, adds_of_addable haccepted hrefusal⟩

theorem exists_plan {existing : Option Text} {name platform exportPath : Text} {includeDidiAddon : Bool}
    (h : (planExportPresetAddition existing name platform exportPath includeDidiAddon).toOption.isSome = true) :
    ∃ plan, planExportPresetAddition existing name platform exportPath includeDidiAddon = .ok plan := by
  cases hplan : planExportPresetAddition existing name platform exportPath includeDidiAddon with
  | error e =>
    rw [hplan] at h
    cases h
  | ok plan => exact ⟨plan, rfl⟩

/-- Two presets, the second of the platform that another is added for. -/
def twoPresets : Text :=
  "[preset.0]\n\nname=\"Web\"\nplatform=\"Web\"\n\n[preset.1]\n\nname=\"Host\"\nplatform=\"Linux\"\n".toList

theorem adds_third : ∃ plan,
    planExportPresetAddition (some twoPresets) "Desk".toList "Linux".toList "out/desk".toList false = .ok plan ∧
      AddsOnePreset twoPresets plan.contents "Desk".toList "Linux".toList "out/desk".toList := by
  obtain ⟨plan, hplan⟩ :=
    @exists_plan (some twoPresets) "Desk".toList "Linux".toList "out/desk".toList false (by decide +kernel)
  refine ⟨plan, hplan, (adds_iff hplan).mpr ?_⟩
  have hunmapped : runnablePresets ∉ sectionNames twoPresets := by decide +kernel
  exact ⟨⟨by decide +kernel, by decide +kernel⟩, by decide +kernel, fun h => hunmapped h.mapped, by decide, by decide⟩

/-- A file that loads, with a note in its last line. -/
def notedPresets : Text := "[preset.0]\n\nname=\"Web\"\nplatform=\"Web\"\n# done\n".toList

/-- The note takes the header of the section that is added. -/
theorem not_adds_noted : (readExportPresets notedPresets).malformed = false ∧
    ∃ plan, planExportPresetAddition (some notedPresets) "Desk".toList "Linux".toList [] false = .ok plan ∧
      ¬ AddsOnePreset notedPresets plan.contents "Desk".toList "Linux".toList [] := by
  obtain ⟨plan, hplan⟩ := @exists_plan (some notedPresets) "Desk".toList "Linux".toList [] false (by decide +kernel)
  refine ⟨by decide +kernel, plan, hplan, ?_⟩
  rw [(plan_spec hplan).2.2]
  rintro ⟨-, -, added, hlisted, -⟩
  have hlength := congrArg List.length hlisted
  rw [List.length_append] at hlength
  have hcount : (readExportPresets (withPreset notedPresets "Desk".toList "Linux".toList [] false)).presets.length = 1 ∧
      (readExportPresets notedPresets).presets.length = 1 := by decide +kernel
  rw [Option.getD_some, hcount.1, hcount.2] at hlength
  cases hlength

end Didi.Export
