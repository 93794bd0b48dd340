import Didi.Reports.Verdict

/-!
# What a pass is proof of

* `RecordsUnloaded` : a line of the output records a script that did not load;
* `Proven` : what a pass is to be proof of;
* `listUnloaded_files` : the scan lists the first 32 of the scripts that the lines name;
* `pass_proven_iff` : a pass is proof, unless every one of these is an addon's and a later one is not.
-/

namespace Didi.Reports
open Config (Text bytesOf fileLines)

/-! ## The scripts that are listed -/

/-- A line records a failed load, or it is the place of the parse error on the line before it. -/
def RecordsUnloaded (lines : List Text) (file : Text) : Prop :=
  (∃ line ∈ lines, search failedLoad line = some file) ∨
    ∃ before line place rest digits, lines = before ++ line :: place :: rest ∧ isParseError line = true ∧
      search atLocation place = some (file, digits)

/-- The script that a line names when no parse error is on it, `pending` when one is on the line before it. -/
def nameOn (pending : Bool) (line : Text) : Option Text :=
  (if pending then (search atLocation line).map Prod.fst else none) <|> search failedLoad line

/-- The scripts that the lines name, one on a line. -/
def namesOn (pending : Bool) : List Text → List Text
  | [] => []
  | line :: lines =>
    if isParseError line then namesOn true lines else (nameOn pending line).toList ++ namesOn false lines

theorem eraseDups_append_singleton (names : List Text) (name : Text) :
    (names ++ [name]).eraseDups = if name ∈ names then names.eraseDups else names.eraseDups ++ [name] := by
  rw [List.eraseDups_append]
  split_ifs with h <;> simp [List.removeAll, h, List.eraseDups_cons]

theorem any_file {listed : List UnloadedScript} {names : List Text}
    (h : listed.map UnloadedScript.file = names.eraseDups) (file : Text) :
    listed.any (fun script => script.file = file) = true ↔ file ∈ names := by
  rw [← List.mem_eraseDups, ← h, List.mem_map, List.any_eq_true]
  simp

/-- The files that are listed once one more is named. -/
theorem files_append {listed : List UnloadedScript} {names : List Text}
    (h : listed.map UnloadedScript.file = names.eraseDups) (script : UnloadedScript) :
    (listOnce listed script).map UnloadedScript.file = (names ++ [script.file]).eraseDups := by
  rw [eraseDups_append_singleton]
  unfold listOnce
  split_ifs with hany hmem hmem
  · exact h
  · exact absurd ((any_file h script.file).mp hany) hmem
  · exact absurd ((any_file h script.file).mpr hmem) hany
  · rw [List.map_append, h]
    rfl

theorem length_listOnce (listed : List UnloadedScript) (script : UnloadedScript) :
    (listOnce listed script).length ≤ listed.length + 1 := by
  unfold listOnce
  split_ifs
  · exact Nat.le_succ _
  · rw [List.length_append]
    rfl

/-- **The scan lists the first of the scripts that the lines name.** -/
theorem listUnloaded_files {lines : List Text} {listed result : List UnloadedScript} {pending : Option Text}
    {names : List Text} (hlisted : listed.map UnloadedScript.file = names.eraseDups)
    (hlength : listed.length ≤ kMaxUnloaded) (h : listUnloaded listed pending lines = some result) :
    result.map UnloadedScript.file = (names ++ namesOn pending.isSome lines).eraseDups.take kMaxUnloaded := by
  have hnames : names.eraseDups.length = listed.length := by rw [← hlisted, List.length_map]
  induction lines generalizing listed pending names with
  | nil =>
    cases h
    rw [namesOn, List.append_nil, List.take_of_length_le (by omega), hlisted]
  | cons line lines ih =>
    unfold listUnloaded at h
    by_cases hfull : kMaxUnloaded ≤ listed.length
    · rw [if_pos hfull] at h
      cases h
      rw [List.eraseDups_append, List.take_append_of_le_length (by omega),
        List.take_of_length_le (by omega), hlisted]
    rw [if_neg hfull] at h
    rw [namesOn]
    by_cases hparse : isParseError line = true
    · rw [if_pos hparse] at h ⊢
      exact ih hlisted hlength h hnames
    rw [if_neg hparse] at h ⊢
    -- one more script is listed, or it stood there already
    have hone : ∀ script, nameOn pending.isSome line = some script.file →
        listUnloaded (listOnce listed script) none lines = some result →
        result.map UnloadedScript.file =
          (names ++ ((nameOn pending.isSome line).toList ++ namesOn false lines)).eraseDups.take kMaxUnloaded := by
      intro script hname hrest
      have hmore := length_listOnce listed script
      have hfiles := files_append hlisted script
      rw [hname, Option.toList_some, ← List.append_assoc]
      exact ih hfiles (by omega) hrest (by rw [← hfiles, List.length_map])
    have hload : nameOn pending.isSome line = search failedLoad line →
        (∀ file, search failedLoad line = some file →
          listUnloaded (listOnce listed ⟨file, 0, bytesOf "Failed to load script"⟩) none lines = some result) →
        (search failedLoad line = none → listUnloaded listed none lines = some result) →
        result.map UnloadedScript.file =
          (names ++ ((nameOn pending.isSome line).toList ++ namesOn false lines)).eraseDups.take kMaxUnloaded := by
      intro hname hsome hnone
      cases hfound : search failedLoad line with
      | some file => exact hone _ (hname.trans hfound) (hsome file hfound)
      | none =>
        rw [hname, hfound]
        exact ih hlisted hlength (hnone hfound) hnames
    cases pending with
    | none =>
      refine hload (by simp [nameOn]) (fun file hfile => ?_) fun hnone => ?_
      · rw [Option.bind_none, hfile] at h
        exact h
      · rw [Option.bind_none, hnone] at h
        exact h
    | some message =>
      cases hplace : search atLocation line with
      | none =>
        rw [Option.bind_some, hplace] at h
        refine hload (by simp [nameOn, hplace]) (fun file hfile => ?_) fun hnone => ?_
        · rw [Option.map_none, hfile] at h
          exact h
        · rw [Option.map_none, hnone] at h
          exact h
      | some place =>
        obtain ⟨file, digits⟩ := place
        rw [Option.bind_some, hplace] at h
        dsimp only [Option.map_some] at h
        have hname : nameOn (some message).isSome line = some file := by simp [nameOn, hplace]
        by_cases hany : listed.any (fun script => script.file = file) = true
        · rw [if_pos hany] at h
          refine hone ⟨file, 0, message⟩ hname ?_
          rw [listOnce, if_pos hany]
          exact h
        · rw [if_neg hany] at h
          obtain ⟨number, -, hrest⟩ := Option.bind_eq_some_iff.mp h
          refine hone ⟨file, number, message⟩ hname ?_
          rw [listOnce, if_neg hany]
          exact hrest

/-- The scripts that the output names, each once, as far as they are listed. -/
def firstNamed (output : Text) : List Text := (namesOn false (fileLines output)).eraseDups.take kMaxUnloaded

theorem scriptsThatDidNotLoad_files {output : Text} {result : List UnloadedScript}
    (h : scriptsThatDidNotLoad output = some result) : result.map UnloadedScript.file = firstNamed output :=
  @listUnloaded_files _ [] _ none [] rfl (Nat.zero_le _) h

/-! ## A pass -/

section
variable {ρ : Type} [Zero ρ] {stod : Text → Option ρ} {facts : TestRunFacts}

/-- What a pass is to be proof of, apart from the scripts. -/
structure Evidence (stod : Text → Option ρ) (facts : TestRunFacts) : Prop where
  finished : facts.cancelled = false ∧ facts.timedOut = false
  complete : facts.outputTruncated = false
  reported : ∃ xml cases, facts.reportXml = some xml ∧ parseJUnitReport stod xml = .ok cases ∧
    (∃ test ∈ cases, test.outcome = .passed) ∧
    ∀ test ∈ cases, test.outcome ≠ .failed ∧ test.outcome ≠ .error
  exits : exitSaysFailed facts = some false

/-- What a pass is to be proof of: no script is recorded that is under a tested path or outside the addons. -/
structure Proven (stod : Text → Option ρ) (facts : TestRunFacts) : Prop where
  evidence : Evidence stod facts
  loaded : ∀ file, RecordsUnloaded (fileLines facts.output) file → tested facts file = false ∧ isAddon file = true

theorem concerns_eq_false {file : Text} :
    concerns facts file = false ↔ tested facts file = false ∧ isAddon file = true := by
  unfold concerns
  cases tested facts file <;> cases isAddon file <;> simp

omit [Zero ρ] in
theorem countOf_eq_zero {cases : List (TestCaseResult ρ)} {outcome : Outcome} :
    countOf cases outcome = 0 ↔ ∀ test ∈ cases, test.outcome ≠ outcome := by
  simp [countOf, List.countP_eq_zero]

omit [Zero ρ] in
theorem countOf_pos {cases : List (TestCaseResult ρ)} {outcome : Outcome} :
    0 < countOf cases outcome ↔ ∃ test ∈ cases, test.outcome = outcome := by
  simp [countOf, List.countP_pos_iff]

omit [Zero ρ] in
/-- A report that was read is judged a pass on these grounds and on no others. -/
theorem judgeReported_pass {cases : List (TestCaseResult ρ)} {didNotLoad : List UnloadedScript} :
    (judgeReported facts (countsOf cases) (failedOf cases) didNotLoad).verdict = .pass ↔
      didNotLoad = [] ∧ exitSaysFailed facts = some false ∧ facts.outputTruncated = false ∧
        (∃ test ∈ cases, test.outcome = .passed) ∧
        ∀ test ∈ cases, test.outcome ≠ .failed ∧ test.outcome ≠ .error := by
  have hbad : (countsOf cases).bad = 0 ↔ ∀ test ∈ cases, test.outcome ≠ .failed ∧ test.outcome ≠ .error := by
    unfold Counts.bad countsOf
    rw [Nat.add_eq_zero_iff, countOf_eq_zero, countOf_eq_zero]
    exact ⟨fun h test htest => ⟨h.1 test htest, h.2 test htest⟩,
      fun h => ⟨fun test htest => (h test htest).1, fun test htest => (h test htest).2⟩⟩
  have hpassed : (countsOf cases).passed ≠ 0 ↔ ∃ test ∈ cases, test.outcome = .passed := by
    rw [← Nat.pos_iff_ne_zero]
    exact countOf_pos
  have htotal : (countsOf cases).passed ≠ 0 → (countsOf cases).total ≠ 0 := by
    intro hne hzero
    have hle : (countsOf cases).passed ≤ (countsOf cases).total := List.countP_le_length
    omega
  rw [← hbad, ← hpassed]
  unfold judgeReported
  dsimp only
  by_cases hloaded : didNotLoad = []
  · rw [if_neg (not_not.mpr hloaded)]
    by_cases hzero : (countsOf cases).total = 0
    · rw [if_pos hzero]
      refine ⟨nofun, fun h => absurd hzero (htotal h.2.2.2.1)⟩
    · rw [if_neg hzero]
      cases hexit : exitSaysFailed facts with
      | none => exact ⟨nofun, fun h => nomatch h.2.1⟩
      | some saysFailed =>
        dsimp only
        by_cases hdiffers : saysFailed ≠ decide (0 < (countsOf cases).bad)
        · rw [if_pos hdiffers]
          refine ⟨nofun, fun h => ?_⟩
          cases h.2.1
          simp [h.2.2.2.2] at hdiffers
        rw [if_neg hdiffers]
        by_cases hbadly : 0 < (countsOf cases).bad
        · rw [if_pos hbadly]
          refine ⟨nofun, fun h => ?_⟩
          omega
        have hgood : (countsOf cases).bad = 0 := by omega
        rw [if_neg hbadly]
        by_cases hnone : (countsOf cases).passed = 0
        · rw [if_pos hnone]
          exact ⟨nofun, fun h => absurd hnone h.2.2.2.1⟩
        rw [if_neg hnone]
        by_cases htruncated : facts.outputTruncated = true
        · rw [if_pos htruncated]
          refine ⟨nofun, fun h => ?_⟩
          rw [htruncated] at h
          exact nomatch h.2.2.1
        rw [if_neg htruncated]
        refine ⟨fun _ => ⟨hloaded, ?_, by simpa using htruncated, hnone, hgood⟩, fun _ => rfl⟩
        rw [hgood] at hdiffers
        simpa using hdiffers
  · rw [if_pos hloaded]
    refine ⟨fun h => ?_, fun h => absurd h.1 hloaded⟩
    dsimp only at h
    split_ifs at h

theorem judgeUnreported_error (didNotLoad : List UnloadedScript) :
    (judgeUnreported facts didNotLoad).verdict = .error := by
  unfold judgeUnreported
  dsimp only
  split_ifs <;> rfl

/-- A pass is given on the evidence, and when every script that is listed is left aside. -/
theorem judgeTestRun_pass {report : TestRunReport ρ} (h : judgeTestRun stod facts = some report) :
    report.judgement.verdict = .pass ↔
      Evidence stod facts ∧ ∀ file ∈ firstNamed facts.output, concerns facts file = false := by
  obtain ⟨read, hread, h⟩ := Option.bind_eq_some_iff.mp h
  obtain ⟨unloaded, hunloaded, h⟩ := Option.bind_eq_some_iff.mp h
  cases h
  have hloaded : (unloaded.filter fun script => concerns facts script.file) = [] ↔
      ∀ file ∈ firstNamed facts.output, concerns facts file = false := by
    rw [← scriptsThatDidNotLoad_files hunloaded]
    simp [List.filter_eq_nil_iff]
  rw [← hloaded]
  show (judge facts read _).verdict = .pass ↔ _
  unfold judge
  by_cases hcancelled : facts.cancelled = true
  · rw [if_pos hcancelled]
    refine ⟨nofun, fun h => ?_⟩
    rw [h.1.finished.1] at hcancelled
    cases hcancelled
  rw [if_neg hcancelled]
  by_cases htimedOut : facts.timedOut = true
  · rw [if_pos htimedOut]
    refine ⟨nofun, fun h => ?_⟩
    rw [h.1.finished.2] at htimedOut
    cases htimedOut
  rw [if_neg htimedOut]
  have hfinished : facts.cancelled = false ∧ facts.timedOut = false :=
    ⟨Bool.eq_false_of_not_eq_true hcancelled, Bool.eq_false_of_not_eq_true htimedOut⟩
  unfold readReport at hread
  cases hxml : facts.reportXml with
  | none =>
    rw [hxml] at hread
    cases hread
    dsimp only
    rw [judgeUnreported_error]
    refine ⟨nofun, fun h => ?_⟩
    obtain ⟨xml, cases, hsome, -⟩ := h.1.reported
    rw [hxml] at hsome
    cases hsome
  | some xml =>
    rw [hxml] at hread
    dsimp only at hread
    cases hparse : parseJUnitReport stod xml with
    | error failure =>
      have hunreported : ¬ Evidence stod facts := by
        intro h
        obtain ⟨xml', cases, hsome, hok, -⟩ := h.reported
        rw [hxml] at hsome
        cases hsome
        rw [hparse] at hok
        cases hok
      rw [hparse] at hread
      cases failure with
      | thrown => cases hread
      | refused e =>
        cases hread
        exact ⟨nofun, fun h => absurd h.1 hunreported⟩
    | ok cases =>
      rw [hparse] at hread
      cases hread
      dsimp only [ReportRead.cases]
      rw [judgeReported_pass]
      constructor
      · rintro ⟨hall, hexits, hcomplete, hpassed, hgood⟩
        exact ⟨⟨hfinished, hcomplete, ⟨xml, cases, hxml, hparse, hpassed, hgood⟩, hexits⟩, hall⟩
      · rintro ⟨hevidence, hall⟩
        obtain ⟨xml', cases', hsome, hok, hgrounds⟩ := hevidence.reported
        rw [hxml] at hsome
        cases hsome
        rw [hparse] at hok
        cases hok
        exact ⟨hall, hevidence.exits, hevidence.complete, hgrounds⟩

/-- **A pass is proof, unless a script that was tested or is not an addon's stands behind the first that are
listed, and none of its kind among these.** -/
theorem pass_proven_iff {report : TestRunReport ρ} (h : judgeTestRun stod facts = some report) :
    (report.judgement.verdict = .pass → Proven stod facts) ↔
      (Evidence stod facts → (∃ file, RecordsUnloaded (fileLines facts.output) file ∧ concerns facts file = true) →
        ∃ file ∈ firstNamed facts.output, concerns facts file = true) := by
  have hpass := judgeTestRun_pass h
  constructor
  · rintro hproven hevidence ⟨file, hrecorded, hconcerns⟩
    by_contra hnone
    have hverdict := hpass.mpr ⟨hevidence, fun file hfile => by
      by_contra hne
      exact hnone ⟨file, hfile, by simpa using hne⟩⟩
    have hleft := concerns_eq_false.mpr ((hproven hverdict).loaded file hrecorded)
    rw [hconcerns] at hleft
    cases hleft
  · intro hlisted hverdict
    obtain ⟨hevidence, hall⟩ := hpass.mp hverdict
    refine ⟨hevidence, fun file hrecorded => concerns_eq_false.mp ?_⟩
    by_contra hne
    obtain ⟨file', hfile', hconcerns⟩ := hlisted hevidence ⟨file, hrecorded, by simpa using hne⟩
    rw [hall file' hfile'] at hconcerns
    cases hconcerns

end

/-! ## Too many scripts -/

/-- A passing report with one case, and the output of a run in which the scripts did not load. -/
def runWith (scripts : List Text) : TestRunFacts where
  framework := { framework := .gut, entry := bytesOf "res://addons/gut/gut_cmdln.gd", version := bytesOf "9.7.1" }
  paths := [bytesOf "res://test"]
  reportXml := some (bytesOf "<testsuites><testsuite name='s'><testcase name='t'></testcase></testsuite></testsuites>")
  output := scripts.flatMap fun script => bytesOf "Failed to load script \"" ++ script ++ bytesOf "\"\n"

def stodOfNothing : Text → Option Nat := fun _ => none

/-- The verdict when no case names its time. -/
def verdictOn (facts : TestRunFacts) : Option Verdict :=
  (judgeTestRun stodOfNothing facts).map fun report => report.judgement.verdict

/-- An addon's script alone does not stop a pass. -/
theorem pass_proven_iff_addon :
    verdictOn (runWith [bytesOf "res://addons/a.gd"]) = some .pass ∧
      Proven stodOfNothing (runWith [bytesOf "res://addons/a.gd"]) := by
  have hpass : verdictOn (runWith [bytesOf "res://addons/a.gd"]) = some .pass := by decide +kernel
  obtain ⟨report, hreport, hverdict⟩ := Option.map_eq_some_iff.mp hpass
  refine ⟨hpass, (pass_proven_iff hreport).mpr ?_ hverdict⟩
  have hlines : fileLines (runWith [bytesOf "res://addons/a.gd"]).output =
      [bytesOf "Failed to load script \"res://addons/a.gd\""] := by decide +kernel
  have hnamed : search failedLoad (bytesOf "Failed to load script \"res://addons/a.gd\"") =
      some (bytesOf "res://addons/a.gd") := by decide +kernel
  rintro - ⟨file, hrecorded, hconcerns⟩
  rw [RecordsUnloaded, hlines] at hrecorded
  rcases hrecorded with ⟨line, hline, hload⟩ | ⟨before, line, place, rest, digits, hshape, -⟩
  · rw [List.mem_singleton.mp hline, hnamed] at hload
    cases hload
    exact absurd hconcerns (by decide +kernel)
  · have hlength := congrArg List.length hshape
    simp only [List.length_append, List.length_cons, List.length_nil] at hlength
    omega

/-- Thirty-two scripts of an addon, and then one of the project. -/
def crowded : TestRunFacts :=
  runWith ((List.range 32).map (fun n => bytesOf "res://addons/" ++ [Char.ofNat (65 + n)]) ++
    [bytesOf "res://test/broken.gd"])

theorem pass_unproven :
    verdictOn crowded = some .pass ∧
      RecordsUnloaded (fileLines crowded.output) (bytesOf "res://test/broken.gd") ∧
      tested crowded (bytesOf "res://test/broken.gd") = true := by
  refine ⟨by decide +kernel, .inl ⟨bytesOf "Failed to load script \"res://test/broken.gd\"", ?_, ?_⟩, ?_⟩
  · decide +kernel
  · decide +kernel
  · decide +kernel

end Didi.Reports
