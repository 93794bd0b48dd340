import Didi.Export.Presets

/-!
# The addition of an export preset

`planExportPresetAddition` : what is written for a preset that is added to an export_presets.cfg, or why none is.

* `firstMissing_spec` : the number that is missing;
* `running_append` : the preset that a platform runs, with one more that may take its place;
* `presetCause_append` : one more preset that is complete, and of a name that is new.
-/

namespace Didi.Export
open Didi.Config

def kMaxPresetNameCharacters : Nat := 256

def hasControlCharacter (text : Text) : Bool := text.any fun c => c.toNat < 0x20 || c.toNat = 0x7f

/-- Whether `part` stands somewhere in a text. -/
def contains (part : Text) (text : Text) : Bool := text.tails.any part.isPrefixOf

def presetNameCommandLineProblem (name : Text) : Option String :=
  if contains "%20".toList name then
    some ("Godot turns %20 on its command line into a space, and nothing there escapes a " ++
      "percent sign, so it would look for a different name")
  else none

def invalidPresetArgument (parameter message : String) (extra : List (String × Json) := []) : Error :=
  { code := 400
    message
    data := .object ([("code", .string "invalid_arguments"), ("parameter", .string parameter),
      ("retryable", .boolean false)] ++ extra) }

def platformRefusal (platform : Text) : Option Error :=
  if shippedExportPlatforms.contains platform then none
  else
    let names := shippedExportPlatforms.map String.ofList
    let meant := if platform = "Linux/X11".toList then some "Linux".toList else shippedPlatformFor platform
    let message := "platform must be one of the seven export platforms Godot ships, " ++
      "spelled exactly: " ++ ", ".intercalate names ++ "."
    let platforms := ("platforms", Json.array (names.map Json.string))
    some <| match meant with
      | none => invalidPresetArgument "platform" message [platforms]
      | some meant =>
        invalidPresetArgument "platform"
          (message ++ " \"" ++ String.ofList platform ++ "\" is \"" ++ String.ofList meant ++ "\" to Godot.")
          [platforms, ("did_you_mean", .string (String.ofList meant)),
            ("retry_with", .object [("platform", .string (String.ofList meant))])]

/-- What is wrong with a name, whatever the file holds. -/
def nameRefusal (name : Text) : Option Error :=
  if name.isEmpty then some (invalidPresetArgument "name" "name must not be empty")
  else if kMaxPresetNameCharacters < codePointCount name then
    some (invalidPresetArgument "name"
      ("name must be at most " ++ toString kMaxPresetNameCharacters ++ " characters"))
  else if hasControlCharacter name then
    some (invalidPresetArgument "name" ("name must not contain a line break or another control character, because " ++
      "export_presets.cfg keeps it on one line"))
  else
    match presetNameCommandLineProblem name with
    | some problem =>
      some (invalidPresetArgument "name" ("name must not contain %20, because project_export asks Godot for the preset " ++
        "by name on its command line: " ++ problem ++ "."))
    | none =>
      if name.head? = some '-' then
        some (invalidPresetArgument "name" ("name must not start with -, because project_export asks Godot for the " ++
          "preset by name on its command line, and Godot reads an argument that starts " ++
          "with - as one of its own options when it has one by that name, such as " ++
          "--headless, -e or --verbose."))
      else none

/-- What is wrong with the arguments, whatever the file holds. -/
def argumentRefusal (name platform exportPath : Text) : Option Error :=
  (nameRefusal name).or <| (platformRefusal platform).or <|
    if hasControlCharacter exportPath then
      some (invalidPresetArgument "export_path" "export_path must not contain a control character")
    else none

/-! ## The file before it -/

def malformedPresetsMessage (cause : Cause) : String :=
  "export_presets.cfg is there and could not be parsed. " ++ cause.detail

def malformedPresetsData (file : ExportPresetsFile) (cause : Cause) : List (String × Json) :=
  [("presets_file_exists", .boolean true), ("declared_preset_sections", .integer file.sectionCount),
    ("reason", .string cause.reason)] ++ (if 0 < cause.line then [("line", .integer cause.line)] else [])

def optionsSection (index : Nat) : Text := "preset.".toList ++ (toString index).toList ++ ".options".toList

/-- The presets that the engine never reaches. -/
def ExportPresetsFile.stranded (file : ExportPresetsFile) : List ExportPreset :=
  file.presets.filter fun p => p.notDetected.any (·.reason = "numbering_gap")

/-- Why nothing is added to a file that is there. -/
def fileRefusal (file : ExportPresetsFile) (name : Text) : Option Error :=
  match file.cause with
  | some cause => some
    { code := 422
      message := malformedPresetsMessage cause
      data := .object (malformedPresetsData file cause ++ [("code", .string "unprocessable")]) }
  | none =>
    if !file.stranded.isEmpty then some
      { code := 409
        message := "export_presets.cfg has no " ++ sectionHeader file.firstMissingIndex ++
          ", and Godot stops reading at the first number that is missing, so it " ++
          "never reads the presets after it. A preset added here would either be " ++
          "stranded with them or bring them all back, and this call adds one preset. " ++
          "Renumber the sections so they run from 0 with no gap, and the .options " ++
          "sections with them, then add it."
        data := .object [("code", .string "conflict"), ("reason", .string "numbering_gap"),
          ("missing_index", .integer file.firstMissingIndex),
          ("stranded_presets", .array (file.stranded.map fun p => .string (String.ofList p.name))),
          ("retryable", .boolean false)] }
    else
      match file.presets.find? fun p => p.name = name with
      | some p => some
        { code := 409
          message := "export_presets.cfg already has a preset named \"" ++ String.ofList name ++ "\""
          data := .object [("code", .string "already_exists"), ("preset", .string (String.ofList name)),
            ("existing", .object [("index", .integer p.index), ("platform", .string (String.ofList p.platform)),
              ("detected", .boolean p.detected)]), ("retryable", .boolean false)] }
      | none =>
        let options := optionsSection file.firstMissingIndex
        if file.sectionNames.contains options then some
          { code := 409
            message := "export_presets.cfg already has a [" ++ String.ofList options ++
              "] section with no preset above it, and Godot would read its " ++
              "options as the new preset's. Remove that section first."
            data := .object [("code", .string "conflict"), ("reason", .string "orphan_options_section"),
              ("section", .string ("[" ++ String.ofList options ++ "]")), ("retryable", .boolean false)] }
        else none

/-! ## The text -/

def sectionLines (index : Nat) (name platform exportPath : Text) (includeDidiAddon : Bool) : List Text :=
  ["[preset.".toList ++ (toString index).toList ++ [']'],
    [],
    "name=".toList ++ configFileString name,
    "platform=".toList ++ configFileString platform,
    "runnable=false".toList,
    "export_filter=\"all_resources\"".toList,
    "include_filter=\"\"".toList,
    if includeDidiAddon then "exclude_filter=\"\"".toList else "exclude_filter=\"addons/didi/*\"".toList,
    "export_path=".toList ++ configFileString exportPath,
    [],
    "[preset.".toList ++ (toString index).toList ++ ".options]".toList,
    [],
    "custom_template/debug=\"\"".toList]

/-- What stands between the text that is there and the section, which a blank line comes before. -/
def separatorOf (before : Text) : Text :=
  if before.isEmpty then []
  else
    let blankLast := "\n\n".toList.isSuffixOf before || "\n\r\n".toList.isSuffixOf before
    (if before.getLast? ≠ some '\n' then newlineOf before else []) ++ (if blankLast then [] else newlineOf before)

structure ExportPresetAddition where
  fileCreated : Bool
  presetsBefore : Nat
  index : Nat
  sectionText : Text
  contents : Text

def planExportPresetAddition (existing : Option Text) (name platform exportPath : Text) (includeDidiAddon : Bool) :
    Except Error ExportPresetAddition :=
  match argumentRefusal name platform exportPath with
  | some e => .error e
  | none =>
    let before := existing.getD []
    let file := existing.map readExportPresets
    match file.bind (fileRefusal · name) with
    | some e => .error e
    | none =>
      let index := (file.map ExportPresetsFile.firstMissingIndex).getD 0
      let sectionText := textOfLines (newlineOf before) (sectionLines index name platform exportPath includeDidiAddon)
      .ok
        { fileCreated := existing.isNone
          presetsBefore := (file.map fun file => file.presets.length).getD 0
          index
          sectionText
          contents := before ++ separatorOf before ++ sectionText }

/-! ## Sections -/

def presetSection (index : Nat) : Text := "preset.".toList ++ (toString index).toList

theorem toString_toList (n : Nat) : (toString n).toList = Nat.toDigits 10 n := Nat.toList_repr

theorem presetDigits_presetSection (n : Nat) : presetDigits (presetSection n) = some (toString n).toList := by
  have hdigits : (toString n).toList.all Char.isDigit = true := by
    rw [List.all_eq_true, toString_toList]
    exact fun c hc => Nat.isDigit_of_mem_toDigits (by decide) (by decide) hc
  unfold presetDigits presetSection
  rw [List.drop_left]
  dsimp only
  rw [hdigits, if_pos]
  simp

theorem presetDigits_optionsSection (n : Nat) : presetDigits (optionsSection n) = none := by
  unfold presetDigits optionsSection
  rw [List.append_assoc, List.drop_left]
  dsimp only
  rw [if_neg]
  simp [show ¬ Char.isDigit '.' = true by decide]

/-- The preset of a section that no key has been read of. -/
def blankPreset (sectionName digits : Text) : Preset :=
  let index := Nat.ofDigitChars 10 digits 0
  { sectionName, index, canonical := digits = (toString index).toList }

theorem declare_eq {presets : List Preset} {sectionName : Text} : declare presets sectionName = presets ∨
    ∃ digits, presetDigits sectionName = some digits ∧ digits.length ≤ 9 ∧
      declare presets sectionName = presets ++ [blankPreset sectionName digits] := by
  unfold declare
  split
  · exact .inl rfl
  · rename_i digits hdigits
    split_ifs with h
    · exact .inl rfl
    · refine .inr ⟨digits, hdigits, ?_, rfl⟩
      simp only [Bool.or_eq_true, decide_eq_true_eq, not_or, not_lt] at h
      exact h.2

theorem declaredSections_concat (headers : List Text) (sectionName : Text) :
    declaredSections (headers ++ [sectionName]) = declare (declaredSections headers) sectionName := by
  unfold declaredSections
  rw [List.foldl_append]
  rfl

theorem mem_declaredSections {headers : List Text} {p : Preset} (h : p ∈ declaredSections headers) :
    p.sectionName ∈ headers ∧ ∃ digits, presetDigits p.sectionName = some digits ∧
      p = blankPreset p.sectionName digits := by
  induction headers using List.reverseRecOn with
  | nil => cases h
  | append_singleton headers sectionName ih =>
    rw [declaredSections_concat] at h
    have hbefore : p ∈ declaredSections headers → _ := fun hmem =>
      And.imp_left (fun hname => List.mem_append_left [sectionName] hname) (ih hmem)
    rcases @declare_eq (declaredSections headers) sectionName with hsame | ⟨digits, hdigits, -, hmore⟩
    · rw [hsame] at h
      exact hbefore h
    · rw [hmore] at h
      rcases List.mem_append.mp h with h | h
      · exact hbefore h
      · rw [List.mem_singleton.mp h]
        exact ⟨List.mem_append_right _ List.mem_cons_self, digits, hdigits, rfl⟩

theorem exists_declaredSection {headers : List Text} {sectionName digits : Text} (h : sectionName ∈ headers)
    (hdigits : presetDigits sectionName = some digits) (hlength : digits.length ≤ 9) :
    ∃ p ∈ declaredSections headers, p.sectionName = sectionName := by
  induction headers using List.reverseRecOn with
  | nil => cases h
  | append_singleton headers sectionName' ih =>
    rw [declaredSections_concat]
    rcases List.mem_append.mp h with h | h
    · obtain ⟨p, hmem, hname⟩ := ih h
      rcases @declare_eq (declaredSections headers) sectionName' with hsame | ⟨_, _, _, hmore⟩
      · exact ⟨p, by rw [hsame]; exact hmem, hname⟩
      · exact ⟨p, by rw [hmore]; exact List.mem_append_left _ hmem, hname⟩
    · obtain rfl := List.mem_singleton.mp h
      unfold declare
      rw [hdigits]
      dsimp only
      split_ifs with hseen
      · have hany : (declaredSections headers).any (fun p => p.sectionName = sectionName) = true := by
          rcases Bool.or_eq_true_iff.mp hseen with hany | hlong
          · exact hany
          · exact absurd (of_decide_eq_true hlong) (by omega)
        obtain ⟨p, hmem, hname⟩ := List.any_eq_true.mp hany
        exact ⟨p, hmem, of_decide_eq_true hname⟩
      · exact ⟨_, List.mem_append_right _ List.mem_cons_self, rfl⟩

/-- Sections that are no presets declare none. -/
theorem declaredSections_append {headers names : List Text} (h : ∀ name ∈ names, presetDigits name = none) :
    declaredSections (headers ++ names) = declaredSections headers := by
  induction names using List.reverseRecOn with
  | nil => rw [List.append_nil]
  | append_singleton names name ih =>
    rw [← List.append_assoc, declaredSections_concat, ih fun name' hmem => h name' (List.mem_append_left _ hmem)]
    unfold declare
    rw [h name (List.mem_append_right _ List.mem_cons_self)]

theorem digits_length {n : Nat} : (toString n).toList.length ≤ 9 ↔ n < 10 ^ 9 := by
  rw [toString_toList]
  exact Nat.length_toDigits_le_iff (by decide) (by decide)

theorem blankPreset_presetSection (n : Nat) : blankPreset (presetSection n) (toString n).toList =
    { sectionName := presetSection n, index := n, canonical := true } := by
  unfold blankPreset
  have hindex : Nat.ofDigitChars 10 (toString n).toList 0 = n := by
    rw [toString_toList, Nat.ofDigitChars_ten_toDigits]
  dsimp only
  rw [hindex]
  simp

/-- A number with too many digits declares no preset. -/
theorem declaredSections_long {headers : List Text} {n : Nat} (h : ¬ n < 10 ^ 9) :
    declaredSections (headers ++ [presetSection n, optionsSection n]) = declaredSections headers := by
  have hlong : 9 < (toString n).toList.length := by
    by_contra hle
    exact h (digits_length.mp (Nat.le_of_not_lt hle))
  rw [show [presetSection n, optionsSection n] = [presetSection n] ++ [optionsSection n] from rfl, ← List.append_assoc,
    declaredSections_append (by simp [presetDigits_optionsSection]), declaredSections_concat]
  unfold declare
  rw [presetDigits_presetSection]
  dsimp only
  rw [if_pos (Bool.or_eq_true_iff.mpr (.inr (decide_eq_true hlong)))]

/-! ## The number that is missing -/

theorem firstMissing_spec (numbers : List Nat) :
    firstMissing numbers ∉ numbers ∧ ∀ m < firstMissing numbers, m ∈ numbers := by
  have hexists : ∃ n, (List.range (numbers.length + 1)).find? (fun n => !numbers.contains n) = some n := by
    by_contra hnone
    have hall : ∀ n < numbers.length + 1, n ∈ numbers := by
      simpa [List.find?_range_eq_none] using Option.eq_none_iff_forall_not_mem.mpr fun n hn => hnone ⟨n, hn⟩
    have hsubset : List.range (numbers.length + 1) ⊆ numbers := fun n hn => hall n (List.mem_range.mp hn)
    have := (List.subperm_of_subset List.nodup_range hsubset).length_le
    rw [List.length_range] at this
    omega
  obtain ⟨n, hn⟩ := hexists
  unfold firstMissing
  rw [hn, Option.getD_some]
  obtain ⟨hmissing, -, hbelow⟩ := List.find?_range_eq_some.mp hn
  exact ⟨by simpa using hmissing, by simpa using hbelow⟩

theorem firstMissing_eq {numbers : List Nat} {n : Nat} (hmissing : n ∉ numbers) (hbelow : ∀ m < n, m ∈ numbers) :
    firstMissing numbers = n := by
  obtain ⟨hnot, hall⟩ := firstMissing_spec numbers
  rcases Nat.lt_trichotomy (firstMissing numbers) n with h | h | h
  · exact absurd (hbelow _ h) hnot
  · exact h
  · exact absurd (hall n h) hmissing

/-! ## The preset that a platform runs -/

theorem byIndex_concat (presets : List Preset) (p : Preset) :
    byIndex (presets ++ [p]) = insertByIndex (byIndex presets) p := by
  unfold byIndex
  rw [List.foldl_append]
  rfl

theorem insertByIndex_perm (sorted : List Preset) (p : Preset) : (insertByIndex sorted p).Perm (p :: sorted) := by
  unfold insertByIndex
  have := @List.perm_middle _ p (sorted.takeWhile fun q => q.index ≤ p.index)
    (sorted.dropWhile fun q => q.index ≤ p.index)
  rwa [List.takeWhile_append_dropWhile] at this

theorem byIndex_perm (presets : List Preset) : (byIndex presets).Perm presets := by
  induction presets using List.reverseRecOn with
  | nil => exact .refl _
  | append_singleton presets p ih =>
    rw [byIndex_concat]
    exact (insertByIndex_perm _ p).trans ((ih.cons p).trans (List.perm_append_singleton p presets).symm)

theorem lt_of_mem_dropWhile {sorted : List Preset} (h : sorted.Pairwise fun p q => p.index ≤ q.index) {n : Nat}
    {q : Preset} (hq : q ∈ sorted.dropWhile fun q => q.index ≤ n) : n < q.index := by
  induction sorted with
  | nil => cases hq
  | cons p sorted ih =>
    rw [List.pairwise_cons] at h
    rw [List.dropWhile_cons] at hq
    split_ifs at hq with hle
    · exact ih h.2 hq
    · have hp : n < p.index := by simpa using hle
      rcases List.mem_cons.mp hq with rfl | hq
      · exact hp
      · exact hp.trans_le (h.1 q hq)

theorem byIndex_sorted (presets : List Preset) : (byIndex presets).Pairwise fun p q => p.index ≤ q.index := by
  induction presets using List.reverseRecOn with
  | nil => exact .nil
  | append_singleton presets p ih =>
    rw [byIndex_concat, insertByIndex]
    refine List.pairwise_append.mpr ⟨ih.sublist (List.takeWhile_sublist _), ?_, ?_⟩
    · refine List.pairwise_cons.mpr ⟨fun q hq => (lt_of_mem_dropWhile ih hq).le, ih.sublist (List.dropWhile_sublist _)⟩
    · intro q hq r hr
      have hle : q.index ≤ p.index := by simpa using List.mem_takeWhile_imp hq
      rcases List.mem_cons.mp hr with rfl | hr
      · exact hle
      · exact hle.trans (lt_of_mem_dropWhile ih hr).le

/-- **One more preset takes the place of the one that its platform runs, unless that one has a greater index.** -/
theorem running_append (settings : List (Text × Text × Text)) (presets : List Preset) (p : Preset) (platform : Text) :
    running settings (presets ++ [p]) platform =
      if (p.platformName = platform && p.claims settings) && (running settings presets platform).all (·.index ≤ p.index)
      then some p
      else running settings presets platform := by
  let matching : Preset → Bool := fun q => q.platformName = platform && q.claims settings
  let before := ((byIndex presets).takeWhile fun q => q.index ≤ p.index).filter matching
  let after := ((byIndex presets).dropWhile fun q => q.index ≤ p.index).filter matching
  have hold : running settings presets platform = (before ++ after).getLast? := by
    unfold running
    rw [← List.filter_append, List.takeWhile_append_dropWhile]
  have hnew : running settings (presets ++ [p]) platform =
      (before ++ ((if matching p then [p] else []) ++ after)).getLast? := by
    unfold running
    rw [byIndex_concat, insertByIndex, List.filter_append, List.filter_cons]
    split_ifs <;> rfl
  have hafter : ∀ q ∈ after, p.index < q.index := by
    intro q hq
    exact lt_of_mem_dropWhile (byIndex_sorted presets) (List.mem_filter.mp hq).1
  have hbefore : ∀ q ∈ before, q.index ≤ p.index := by
    intro q hq
    simpa using List.mem_takeWhile_imp (List.mem_filter.mp hq).1
  rw [hold, hnew]
  by_cases hnil : after = []
  · rw [hnil, List.append_nil, List.append_nil]
    have hall : before.getLast?.all (·.index ≤ p.index) = true := by
      cases hlast : before.getLast? with
      | none => rfl
      | some q => simpa using hbefore q (List.mem_of_getLast? hlast)
    rw [hall, Bool.and_true]
    show _ = if matching p = true then some p else before.getLast?
    split_ifs
    · simp
    · rw [List.append_nil]
  · rw [List.getLast?_append_of_ne_nil _ hnil, ← List.append_assoc, List.getLast?_append_of_ne_nil _ hnil]
    obtain ⟨q, hq⟩ := Option.ne_none_iff_exists'.mp (mt List.getLast?_eq_none_iff.mp hnil)
    have hgreater := hafter q (List.mem_of_getLast? hq)
    rw [hq, if_neg]
    simp [hgreater]

theorem mem_of_running {settings : List (Text × Text × Text)} {presets : List Preset} {platform : Text} {p : Preset}
    (h : running settings presets platform = some p) :
    p ∈ presets ∧ p.platformName = platform ∧ p.claims settings = true := by
  obtain ⟨hmem, hmatch⟩ := List.mem_filter.mp (List.mem_of_getLast? h)
  refine ⟨(byIndex_perm presets).mem_iff.mp hmem, ?_⟩
  simpa using hmatch

/-! ## Presets that can be reached -/

theorem presetCause_append {seen : List Text} {presets : List Preset} {p : Preset} (h : presetCause seen presets = none)
    (hname : p.name ≠ []) (hplatform : p.platform ≠ []) (hseen : p.name ∉ seen)
    (hnew : ∀ q ∈ presets, q.name ≠ p.name) : presetCause seen (presets ++ [p]) = none := by
  induction presets generalizing seen with
  | nil =>
    rw [List.nil_append, presetCause, if_neg (by simp [hname, hplatform]), if_neg (by simpa using hseen)]
    rfl
  | cons q presets ih =>
    rw [presetCause] at h
    rw [List.cons_append, presetCause]
    split_ifs at h ⊢ with hincomplete hdouble
    apply ih h
    · simp only [List.mem_cons, not_or]
      exact ⟨(hnew q List.mem_cons_self).symm, hseen⟩
    · exact fun r hr => hnew r (List.mem_cons_of_mem q hr)

end Didi.Export
