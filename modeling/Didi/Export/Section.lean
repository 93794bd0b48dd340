import Mathlib.Data.Bool.AllAny
import Didi.Config.Rendered
import Didi.Export.Appended
import Didi.Export.Addition

/-!
# The scan of the section that is added

* `sound_section`, `loads_section` : the lines of the section are registered as they are written, and their values load;
* `scan_closed` : so they are after a file that ends closed (`EndsClosed`);
* `scan_unclosed` : after any other file the first header is not read.
-/

namespace Didi.Export
open Didi.Config

/-! ## The lines of the section -/

def writtenSection (index : Nat) (name platform exportPath : Text) (includeDidiAddon : Bool) : List Written :=
  [.header (presetSection index),
    .blank,
    .assignment "name".toList (configFileString name),
    .assignment "platform".toList (configFileString platform),
    .assignment "runnable".toList "false".toList,
    .assignment "export_filter".toList (quotedLiteral "all_resources".toList),
    .assignment "include_filter".toList (quotedLiteral []),
    .assignment "exclude_filter".toList (quotedLiteral (if includeDidiAddon then [] else "addons/didi/*".toList)),
    .assignment "export_path".toList (configFileString exportPath),
    .blank,
    .header (optionsSection index),
    .blank,
    .assignment "custom_template/debug".toList (quotedLiteral [])]

theorem sectionLines_eq (index : Nat) (name platform exportPath : Text) (includeDidiAddon : Bool) :
    sectionLines index name platform exportPath includeDidiAddon =
      (writtenSection index name platform exportPath includeDidiAddon).map Written.text := by
  have hassigned : ∀ (start key literal : Text), start = key ++ ['='] → start ++ literal = assignmentLine key literal := by
    rintro _ key literal rfl
    simp [assignmentLine]
  have hheader : "[preset.".toList ++ (toString index).toList ++ [']'] = '[' :: presetSection index ++ [']'] := rfl
  have hoptions : "[preset.".toList ++ (toString index).toList ++ ".options]".toList =
      '[' :: optionsSection index ++ [']'] := by
    rw [show ".options]".toList = ".options".toList ++ [']'] from rfl]
    unfold optionsSection
    simp only [← List.append_assoc]
    rfl
  have hrunnable : "runnable=false".toList = assignmentLine "runnable".toList "false".toList := by decide +kernel
  have hfilter : "export_filter=\"all_resources\"".toList =
      assignmentLine "export_filter".toList (quotedLiteral "all_resources".toList) := by decide +kernel
  have hinclude : "include_filter=\"\"".toList = assignmentLine "include_filter".toList (quotedLiteral []) := by
    decide +kernel
  have hexclude : (if includeDidiAddon then "exclude_filter=\"\"".toList
      else "exclude_filter=\"addons/didi/*\"".toList) = assignmentLine "exclude_filter".toList
        (quotedLiteral (if includeDidiAddon then [] else "addons/didi/*".toList)) := by
    cases includeDidiAddon <;> decide +kernel
  have htemplate : "custom_template/debug=\"\"".toList =
      assignmentLine "custom_template/debug".toList (quotedLiteral []) := by decide +kernel
  unfold sectionLines writtenSection
  simp only [List.map_cons, List.map_nil, Written.text]
  rw [hassigned "name=".toList "name".toList _ rfl, hassigned "platform=".toList "platform".toList _ rfl,
    hassigned "export_path=".toList "export_path".toList _ rfl, hheader, hoptions, hrunnable, hfilter, hinclude, hexclude,
    htemplate]

theorem isPlain_presetSection (n : Nat) : ∀ c ∈ presetSection n, isPlain c = true := by
  have hplain : ∀ c ∈ "preset.".toList, isPlain c = true := List.all_eq_true.mp (by decide)
  intro c hc
  rcases List.mem_append.mp hc with hc | hc
  · exact hplain c hc
  · rw [toString_toList] at hc
    exact isPlain_of_isDigit (Nat.isDigit_of_mem_toDigits (by decide) (by decide) hc)

theorem isPlain_optionsSection (n : Nat) : ∀ c ∈ optionsSection n, isPlain c = true := by
  have hplain : ∀ c ∈ ".options".toList, isPlain c = true := List.all_eq_true.mp (by decide)
  intro c hc
  rcases List.mem_append.mp hc with hc | hc
  · exact isPlain_presetSection n c hc
  · exact hplain c hc

theorem sound_header {name : Text} (h : ∀ c ∈ name, isPlain c = true) : (Written.header name).Sound := by
  refine ⟨?_, fun hmem => absurd (h _ hmem) (by decide)⟩
  apply trimmedView_eq_self
  · exact fun c hc => not_isSpace_of_isPlain (h c (List.mem_of_head? hc))
  · exact fun c hc => not_isSpace_of_isPlain (h c (List.mem_of_getLast? hc))

/-- A text of no control characters is written as a value that is read. -/
theorem configFileString_quoted {text : Text} (h : hasControlCharacter text = false) :
    configFileString text = quotedLiteral text := by
  apply configFileString_eq
  intro c hc
  have := List.any_eq_false.mp h c hc
  simp only [Bool.or_eq_true, decide_eq_true_eq, not_or, not_lt] at this
  exact this.1

theorem contained_false : Contained "false".toList := by
  refine ⟨by decide, ?_, ?_, by decide, ⟨{ seen := true, identifier := true }, by decide +kernel⟩⟩
  · rintro c ⟨⟩
    decide
  · rintro c ⟨⟩
    decide

/-- What the arguments of a plan are checked for. -/
structure Accepted (name platform exportPath : Text) : Prop where
  name_ne : name ≠ []
  name_plain : hasControlCharacter name = false
  shipped : platform ∈ shippedExportPlatforms
  exportPath_plain : hasControlCharacter exportPath = false

theorem accepted_of_refusal {name platform exportPath : Text} (h : argumentRefusal name platform exportPath = none) :
    Accepted name platform exportPath := by
  unfold argumentRefusal at h
  obtain ⟨hname, h⟩ := Option.or_eq_none_iff.mp h
  obtain ⟨hplatform, hpath⟩ := Option.or_eq_none_iff.mp h
  have hchecked : name.isEmpty = false ∧ hasControlCharacter name = false := by
    unfold nameRefusal at hname
    split_ifs at hname <;> simp_all
  unfold platformRefusal at hplatform
  split_ifs at hplatform with hshipped
  split_ifs at hpath with hpathControl
  refine ⟨?_, hchecked.2, ?_, ?_⟩
  · simpa using hchecked.1
  · simpa using hshipped
  · simpa using hpathControl

variable {index : Nat} {name platform exportPath : Text} {includeDidiAddon : Bool}

theorem plain_of_shipped (h : platform ∈ shippedExportPlatforms) :
    platform ≠ [] ∧ hasControlCharacter platform = false ∧ decodeUtf8TheWayGodotDoes platform = platform := by
  have hall : ∀ platform ∈ shippedExportPlatforms,
      platform ≠ [] ∧ hasControlCharacter platform = false ∧ decodeUtf8TheWayGodotDoes platform = platform := by
    decide +kernel
  exact hall platform h

theorem sound_assignment {key literal : Text} (hne : key ≠ [])
    (hkey : ∀ c ∈ key, isPlain c = true ∨ c = '/') (hliteral : Contained literal) :
    (Written.assignment key literal).Sound := by
  have hchar : ∀ c ∈ key, isSpace c = false ∧ c ≠ '=' ∧ c ≠ '"' ∧ c ≠ ';' ∧ c ≠ '[' := by
    intro c hc
    rcases hkey c hc with h | rfl
    · exact ⟨not_isSpace_of_isPlain h, ne_of_isPlain h (by decide), ne_of_isPlain h (by decide),
        ne_of_isPlain h (by decide), ne_of_isPlain h (by decide)⟩
    · decide
  refine ⟨⟨hne, ?_, ?_, ?_⟩, hliteral⟩
  · exact fun c hc => ⟨(hchar c hc).1, (hchar c hc).2.1, (hchar c hc).2.2.1⟩
  · exact fun hhead => (hchar _ (List.mem_of_head? hhead)).2.2.2.1 rfl
  · exact fun hhead => absurd rfl (hchar _ (List.mem_of_head? hhead)).2.2.2.2

/-- The keys of the section. -/
def writtenKeys : List Text :=
  ["name", "platform", "runnable", "export_filter", "include_filter", "exclude_filter", "export_path",
    "custom_template/debug"].map String.toList

theorem sound_key {key literal : Text} (h : key ∈ writtenKeys) (hliteral : Contained literal) :
    (Written.assignment key literal).Sound := by
  have hall : ∀ key ∈ writtenKeys, key ≠ [] ∧ ∀ c ∈ key, isPlain c = true ∨ c = '/' := by
    simp only [← List.all_iff_forall_prop]
    decide +kernel
  exact sound_assignment (hall key h).1 (hall key h).2 hliteral

theorem sound_section (h : Accepted name platform exportPath) :
    ∀ line ∈ writtenSection index name platform exportPath includeDidiAddon, line.Sound := by
  have hplatform := configFileString_quoted (plain_of_shipped h.shipped).2.1
  unfold writtenSection
  rw [configFileString_quoted h.name_plain, configFileString_quoted h.exportPath_plain, hplatform]
  intro line hline
  simp only [List.mem_cons, List.not_mem_nil, or_false] at hline
  rcases hline with rfl | rfl | rfl | rfl | rfl | rfl | rfl | rfl | rfl | rfl | rfl | rfl | rfl
  · exact sound_header (isPlain_presetSection index)
  · trivial
  · exact sound_key (by decide) (contained_quoted name)
  · exact sound_key (by decide) (contained_quoted platform)
  · exact sound_key (by decide) contained_false
  · exact sound_key (by decide) (contained_quoted _)
  · exact sound_key (by decide) (contained_quoted _)
  · exact sound_key (by decide) (contained_quoted _)
  · exact sound_key (by decide) (contained_quoted exportPath)
  · trivial
  · exact sound_header (isPlain_optionsSection index)
  · trivial
  · exact sound_key (by decide) (contained_quoted _)

/-- Every value of the section is one that the engine loads. -/
theorem loads_section (h : Accepted name platform exportPath) :
    ∀ s ∈ Written.settings [] (writtenSection index name platform exportPath includeDidiAddon),
      valueProblem s.2.2 = none := by
  have hreads : ∀ {literal : Text}, Reads literal → valueProblem literal = none := by
    intro literal hreads
    unfold valueProblem
    have := hreads (2 * literal.length + 1) 0 [] (by simp [Follows])
    rw [List.append_nil] at this
    rcases this with hread | hread
    all_goals rw [hread]
  have hplatform := configFileString_quoted (plain_of_shipped h.shipped).2.1
  unfold writtenSection
  rw [configFileString_quoted h.name_plain, configFileString_quoted h.exportPath_plain, hplatform]
  intro s hs
  simp only [Written.settings, List.mem_cons, List.not_mem_nil, or_false] at hs
  rcases hs with rfl | rfl | rfl | rfl | rfl | rfl | rfl | rfl
  all_goals
    apply hreads
    first
      | exact reads_quoted _
      | exact @reads_keyword "false".toList (by decide)

/-! ## The scan of the whole file -/

/-- A text that ends neither in the text of a key nor in a value that awaits its call. -/
def EndsClosed (text : Text) : Prop :=
  (scanLines {} (linesOf text)).pending = [] ∧ (scanLines {} (linesOf text)).inValue = false

def sectionNames (text : Text) : List Text := (scan text).headers.map Header.name

def sectionSettings (text : Text) : List (Text × Text × Text) := (scan text).entries.map Entry.setting

theorem sectionNames_eq (text : Text) :
    sectionNames text = ((scanLines {} (linesOf text)).headers.map Header.name).reverse := by
  unfold sectionNames
  rw [← List.map_reverse]
  rfl

theorem sectionSettings_eq (text : Text) : sectionSettings text = (scanLines {} (linesOf text)).settings.reverse := by
  unfold sectionSettings ScanState.settings
  rw [← List.map_reverse]
  rfl

/-- The text with lines that are added. -/
def withLines (before : Text) (lines : List Written) : Text :=
  before ++ separatorOf before ++ textOfLines (newlineOf before) (lines.map Written.text)

variable {before : Text} {lines : List Written}

theorem scan_withLines (hsound : ∀ line ∈ lines, line.Sound) (hcomplete : (scan before).complete = true) :
    ∃ st, Alike st (scanLines {} (linesOf before)) ∧
      scanLines {} (linesOf (withLines before lines)) = scanLines st ((lines ++ [Written.blank]).map Written.text) := by
  obtain ⟨st, halike, hscan⟩ := @scan_appended before (lines.map Written.text)
    (by
      intro line hline
      obtain ⟨written, hmem, rfl⟩ := List.mem_map.mp hline
      exact (hsound written hmem).newline)
    (by
      intro line hline
      obtain ⟨written, hmem, rfl⟩ := List.mem_map.mp hline
      exact (hsound written hmem).carriageReturn)
    hcomplete
  refine ⟨st, halike, ?_⟩
  rw [List.map_append]
  exact hscan

/-- **After a file that ends closed the lines are registered as they are written.** -/
theorem scan_closed (hsound : ∀ line ∈ lines, line.Sound) (hcomplete : (scan before).complete = true)
    (hclosed : EndsClosed before) : (scan (withLines before lines)).complete = true ∧
      sectionNames (withLines before lines) = sectionNames before ++ Written.names lines ∧
      sectionSettings (withLines before lines) =
        sectionSettings before ++ Written.settings (scanLines {} (linesOf before)).sectionName lines := by
  obtain ⟨st, halike, hscan⟩ := scan_withLines hsound hcomplete
  have hsound' : ∀ line ∈ lines ++ [Written.blank], line.Sound := by
    intro line hline
    rcases List.mem_append.mp hline with hline | hline
    · exact hsound line hline
    · rw [List.mem_singleton.mp hline]
      trivial
  obtain ⟨hvalue, -, hheaders, hentries⟩ := scan_written hsound' (halike.inValue.trans hclosed.2)
    (halike.pending.trans hclosed.1)
  refine ⟨?_, ?_, ?_⟩
  · show (scanLines {} (linesOf (withLines before lines))).complete = true
    rw [hscan, ScanState.complete, hvalue]
    rfl
  · rw [sectionNames_eq, sectionNames_eq, hscan, hheaders, Written.names_blank, halike.names]
    simp
  · rw [sectionSettings_eq, sectionSettings_eq, hscan, hentries, Written.settings_blank, halike.settings,
      halike.sectionName]
    simp

theorem not_opens_assignment {key literal name : Text} {c : Char} (hlast : literal.getLast? = some c)
    (hspace : isSpace c = false) (hc : c ≠ ']') : ¬ Opens (Written.assignment key literal).text name := by
  have hne : literal ≠ [] := by
    rintro rfl
    cases hlast
  apply not_opens_of_getLast? (c := c) _ hspace hc
  rw [Written.text, assignmentLine, List.getLast?_append_of_ne_nil _ (by simp), List.getLast?_cons_of_ne_nil hne, hlast]

theorem getLast?_quotedLiteral (text : Text) : (quotedLiteral text).getLast? = some '"' := by
  rw [quotedLiteral, List.getLast?_append_of_ne_nil _ (by simp)]
  rfl

/-- The lines after the first open no section but that of the options. -/
theorem eq_of_opens_section {index : Nat} {name platform exportPath : Text} {includeDidiAddon : Bool}
    (h : Accepted name platform exportPath) {line : Written} {sectionName : Text}
    (hline : line ∈ (writtenSection index name platform exportPath includeDidiAddon).tail ++ [Written.blank])
    (hopens : Opens line.text sectionName) : sectionName = optionsSection index := by
  have hblank : ¬ Opens Written.blank.text sectionName := by
    rintro ⟨text, hsuffix, hheader, -⟩
    rw [List.suffix_nil.mp hsuffix] at hheader
    cases hheader
  have hquoted : ∀ key text, ¬ Opens (Written.assignment key (quotedLiteral text)).text sectionName := fun key text =>
    not_opens_assignment (getLast?_quotedLiteral text) (by decide) (by decide)
  have hplatform := configFileString_quoted (plain_of_shipped h.shipped).2.1
  unfold writtenSection at hline
  rw [configFileString_quoted h.name_plain, configFileString_quoted h.exportPath_plain, hplatform] at hline
  simp only [List.tail_cons, List.cons_append, List.nil_append, List.mem_cons, List.not_mem_nil, or_false] at hline
  rcases hline with rfl | rfl | rfl | rfl | rfl | rfl | rfl | rfl | rfl | rfl | rfl | rfl | rfl
  · exact absurd hopens hblank
  · exact absurd hopens (hquoted _ _)
  · exact absurd hopens (hquoted _ _)
  · exact absurd hopens (not_opens_assignment (c := 'e') (by decide) (by decide) (by decide))
  · exact absurd hopens (hquoted _ _)
  · exact absurd hopens (hquoted _ _)
  · exact absurd hopens (hquoted _ _)
  · exact absurd hopens (hquoted _ _)
  · exact absurd hopens hblank
  · have hplain := isPlain_optionsSection index
    exact eq_of_opens_header (sound_header hplain).1 (fun hmem => absurd (hplain _ hmem) (by decide)) hopens
  · exact absurd hopens hblank
  · exact absurd hopens (hquoted _ _)
  · exact absurd hopens hblank

/-- **After any other file the first header is not read.** -/
theorem scan_unclosed {index : Nat} {name platform exportPath : Text} {includeDidiAddon : Bool}
    (h : Accepted name platform exportPath) (hcomplete : (scan before).complete = true) (hclosed : ¬ EndsClosed before) :
    ∃ names, (∀ name ∈ names, name = optionsSection index) ∧
      sectionNames (withLines before (writtenSection index name platform exportPath includeDidiAddon)) =
        sectionNames before ++ names := by
  obtain ⟨st, halike, hscan⟩ :=
    @scan_withLines before (writtenSection index name platform exportPath includeDidiAddon) (sound_section h) hcomplete
  have hplain := isPlain_presetSection index
  have hunread : (scanLine st (Written.header (presetSection index)).text).headers = st.headers := by
    cases hvalue : st.inValue with
    | true =>
      have hawait : st.value.awaitingCall = true := by
        have : st.complete = true := halike.complete.trans hcomplete
        simpa [ScanState.complete, hvalue] using this
      exact scanLine_header_awaiting hvalue hawait fun hmem => absurd (hplain _ hmem) (by decide)
    | false =>
      have hpending : st.pending ≠ [] := fun hpending =>
        hclosed ⟨halike.pending.symm.trans hpending, halike.inValue.symm.trans hvalue⟩
      rw [Written.text, scanLine_header_pending hvalue hpending hplain]
      rfl
  obtain ⟨Q, hQ, hopens⟩ := scanLines_opens (scanLine st (Written.header (presetSection index)).text)
    (((writtenSection index name platform exportPath includeDidiAddon).tail ++ [Written.blank]).map Written.text)
  refine ⟨(Q.map Header.name).reverse, ?_, ?_⟩
  · intro sectionName hmem
    obtain ⟨header, hheader, rfl⟩ := List.mem_map.mp (List.mem_reverse.mp hmem)
    obtain ⟨text, htext, hopen⟩ := hopens header hheader
    obtain ⟨line, hline, rfl⟩ := List.mem_map.mp htext
    exact eq_of_opens_section h hline hopen
  · have hheaders : (scanLines {} (linesOf (withLines before (writtenSection index name platform exportPath
        includeDidiAddon)))).headers = Q ++ st.headers := by
      rw [hscan, ← hunread]
      exact hQ
    rw [sectionNames_eq, sectionNames_eq, hheaders, List.map_append, List.reverse_append, halike.names]

end Didi.Export
