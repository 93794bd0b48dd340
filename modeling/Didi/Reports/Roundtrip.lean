import Mathlib.Data.Bool.AllAny
import Didi.Reports.Rendered

/-!
# The cases of a report

* `scanFrom_results`, `scanFrom_case`, `scanFrom_body` : each part of a report adds to the scanner what it tells;
* `parseJUnitReport_document` : a report answers the cases of its tree, in their order.
-/

namespace Didi.Reports
open Config (Text bytesOf isSpace)

/-! ## Attributes and outcomes -/

theorem attr_readOf (tag : Tag) (key : String) : attr (readOf tag.attributes) key = tag.value key := by
  unfold attr readOf Tag.value
  congr 1
  rw [← List.map_reverse]
  induction tag.attributes.reverse with
  | nil => rfl
  | cons a attributes ih =>
    rw [List.map_cons, List.lookup_cons, List.find?_cons]
    by_cases hkey : key.toList = a.key
    · simp [hkey]
    · have hne : (key.toList == a.key) = false := beq_eq_false_iff_ne.mpr hkey
      simp [hne, Ne.symm hkey, ih]

theorem suiteName_readOf (tag : Tag) : suiteName (readOf tag.attributes) = tag.suiteName := by
  unfold suiteName Tag.suiteName
  simp only [attr_readOf]

/-- What the results of a case make of its outcome. -/
theorem foldl_raised (kinds : List ResultKind) (outcome : Outcome) :
    (kinds.map ResultKind.outcome).foldl raised outcome =
      if .error ∈ kinds ∨ outcome = .error then .error
      else if .failure ∈ kinds ∨ outcome = .failed then .failed
      else if .skipped ∈ kinds ∨ outcome = .skipped then .skipped
      else outcome := by
  induction kinds generalizing outcome with
  | nil => cases outcome <;> rfl
  | cons kind kinds ih =>
    rw [List.map_cons, List.foldl_cons, ih]
    cases kind <;> cases outcome <;> simp [raised, ResultKind.outcome, Outcome.rank]

section
variable {ρ : Type}

/-- A case with one more of its results. -/
def withResult (test : TestCaseResult ρ) (r : CaseResult) : TestCaseResult ρ :=
  { test with outcome := raised test.outcome r.kind.outcome, message := r.message }

/-- What a case that was read tells. -/
def TestCaseResult.told (test : TestCaseResult ρ) : ToldCase where
  suite := test.suite
  name := test.name
  outcome := test.outcome
  message := test.message

theorem told_withResults (results : List CaseResult) (test : TestCaseResult ρ) :
    (results.foldl withResult test).told =
      { test.told with
        outcome := ((results.map CaseResult.kind).map ResultKind.outcome).foldl raised test.outcome
        message := (results.getLast?.map CaseResult.message).getD test.message } := by
  induction results generalizing test with
  | nil => rfl
  | cons r results ih =>
    rw [List.foldl_cons, ih, List.getLast?_cons]
    cases results.getLast? <;> rfl

variable [Zero ρ] (stod : Text → Option ρ)

/-- A case as the scanner reads it. -/
def Case.read (suite : Text) (test : Case) : TestCaseResult ρ :=
  test.results.foldl withResult (caseOf stod suite (readOf test.tag.attributes))

theorem told_read (suite : Text) (test : Case) : (test.read stod suite).told = test.told suite := by
  unfold Case.read
  rw [told_withResults, foldl_raised]
  unfold Case.told Case.outcome Case.message caseOf TestCaseResult.told
  simp only [attr_readOf]
  by_cases hstatus : test.tag.value "status" = bytesOf "no asserts" ∨ test.tag.value "status" = bytesOf "risky"
  · simp [hstatus]
  · simp [hstatus]

/-- The cases of a body as the scanner reads them: behind a suite it knows of no suite. -/
def Body.read (suite : Text) : Body → List (TestCaseResult ρ)
  | .last _ => []
  | .case _ test rest => test.read stod suite :: rest.read suite
  | .suite _ tag inner rest => inner.read tag.suiteName ++ rest.read []

theorem cases_of_named {body : Body} (h : body.Named) (suite suite' : Text) : body.cases suite = body.cases suite' := by
  induction body with
  | last gap => rfl
  | case gap test rest ih =>
    rw [Body.cases, Body.cases, ih h.2]
    unfold Case.told
    rw [if_neg h.1, if_neg h.1]
  | suite gap tag inner rest _ ih => rw [Body.cases, Body.cases, ih h]

theorem ordered_nil {body : Body} {suite : Text} (h : body.Ordered suite) : body.Ordered [] := by
  induction body with
  | last gap => trivial
  | case gap test rest ih => exact ih h
  | suite gap tag inner rest _ ih => exact ⟨h.1, .inl rfl, ih h.2.2⟩

/-- In a body that is ordered the scanner's suites are those of the tree. -/
theorem told_body {body : Body} {suite : Text} (h : body.Ordered suite) :
    (body.read stod suite).map TestCaseResult.told = body.cases suite := by
  induction body generalizing suite with
  | last gap => rfl
  | case gap test rest ih =>
    rw [Body.read, Body.cases, List.map_cons, told_read, ih h]
  | suite gap tag inner rest ihInner ih =>
    obtain ⟨hinner, hnamed, hrest⟩ := h
    have hsame : rest.cases suite = rest.cases [] := by
      rcases hnamed with rfl | hnamed
      · rfl
      · exact cases_of_named hnamed _ _
    rw [Body.read, Body.cases, List.map_append, ihInner hinner, ih (ordered_nil hrest), hsame]

end

/-! ## The scan -/

theorem isName_testcase : IsName (bytesOf "testcase") := ⟨by decide, List.all_iff_forall_prop.mp (by decide)⟩

theorem isName_testsuite : IsName (bytesOf "testsuite") := ⟨by decide, List.all_iff_forall_prop.mp (by decide)⟩

theorem isName_kind (kind : ResultKind) : IsName kind.name := by
  cases kind <;> exact ⟨by decide, List.all_iff_forall_prop.mp (by decide)⟩

theorem isName_root (d : Document) : IsName d.rootName := by
  unfold Document.rootName
  split_ifs
  · exact ⟨by decide, List.all_iff_forall_prop.mp (by decide)⟩
  · exact isName_testsuite

theorem outcomeNamed_kind (kind : ResultKind) : kind.name ≠ bytesOf "testsuite" ∧ kind.name ≠ bytesOf "testcase" ∧
    outcomeNamed kind.name = some kind.outcome := by
  cases kind <;> decide

section
variable {ρ : Type} [Zero ρ] {stod : Text → Option ρ} {s : JUnitScanner ρ}
namespace JUnitScanner

/-- A result of a case is read. -/
theorem scanFrom_result {r : CaseResult} (h : r.WellFormed) {test : TestCaseResult ρ} (hcase : s.case = some test)
    (hcapture : s.capture = false) (hdepth : s.stack.length < 32) (rest : Text) :
    ∃ text, scanFrom stod s (r.text ++ rest) =
      scanFrom stod { s with case := some (withResult test r), text } rest := by
  obtain ⟨hsuite, htestcase, houtcome⟩ := outcomeNamed_kind r.kind
  have hname := isName_kind r.kind
  have hstart : s.start stod r.kind.name (readOf r.tag.attributes) =
      { s with
        case := some { test with outcome := raised test.outcome r.kind.outcome, message := r.tag.value "message" }
        capture := true
        text := [] } := by
    unfold start
    rw [if_neg hsuite, if_neg htestcase, hcase, houtcome, attr_readOf]
  refine ⟨r.content.value, ?_⟩
  rw [CaseResult.text]
  simp only [List.append_assoc]
  rw [scanFrom_gap h.gap rfl, keep_of_capture hcapture, scanFrom_opens h.tag hname hdepth, hstart,
    scanFrom_gap h.content rfl]
  dsimp only [keep, Option.isSome_some, Bool.and_self, if_true, List.nil_append]
  rw [@scanFrom_closes ρ _ stod _ r.tag h.tag _ hname s.stack rfl, finish, houtcome]
  dsimp only
  rw [← hcapture]
  rfl

/-- The results of a case are read. -/
theorem scanFrom_results {results : List CaseResult} (h : ∀ r ∈ results, r.WellFormed) {test : TestCaseResult ρ}
    (hcase : s.case = some test) (hcapture : s.capture = false) (hdepth : results ≠ [] → s.stack.length < 32)
    (rest : Text) : ∃ text, scanFrom stod s (results.flatMap CaseResult.text ++ rest) =
      scanFrom stod { s with case := some (results.foldl withResult test), text } rest := by
  induction results generalizing s test with
  | nil => exact ⟨s.text, by rw [List.foldl_nil, ← hcase]; rfl⟩
  | cons r results ih =>
    obtain ⟨text, hread⟩ := scanFrom_result (h r List.mem_cons_self) hcase hcapture (hdepth (List.cons_ne_nil r results))
      (results.flatMap CaseResult.text ++ rest)
    obtain ⟨text', hrest⟩ := @ih { s with case := some (withResult test r), text }
      (fun r hr => h r (List.mem_cons_of_mem _ hr)) (withResult test r) rfl hcapture
      (fun _ => hdepth (List.cons_ne_nil _ _))
    refine ⟨text', ?_⟩
    rw [List.flatMap_cons, List.append_assoc, hread, hrest]
    rfl

/-- A case is read, and it is reported. -/
theorem scanFrom_case {test : Case} (h : test.WellFormed) (hcase : s.case = none) (hcapture : s.capture = false)
    (hdepth : s.stack.length + test.depth ≤ 32) (rest : Text) :
    ∃ text, scanFrom stod s (test.text ++ rest) =
      scanFrom stod { s with report := s.report ++ [test.read stod s.suite], text } rest := by
  have hstart : s.start stod (bytesOf "testcase") (readOf test.tag.attributes) =
      { s with case := some (caseOf stod s.suite (readOf test.tag.attributes)) } := by
    unfold start
    rw [if_neg (by decide), if_pos rfl]
  have hpos : 1 ≤ test.depth := by
    unfold Case.depth
    split_ifs <;> omega
  have hresults : test.results ≠ [] → s.stack.length + 1 < 32 := by
    intro hne
    rw [Case.depth, if_neg hne] at hdepth
    omega
  let opened : JUnitScanner ρ :=
    { s with
      stack := bytesOf "testcase" :: s.stack
      case := some (caseOf stod s.suite (readOf test.tag.attributes)) }
  obtain ⟨text, hread⟩ := @scanFrom_results ρ _ stod opened test.results h.results _ rfl hcapture hresults
    (test.last.text ++ (test.tag.closeText (bytesOf "testcase") ++ rest))
  refine ⟨text, ?_⟩
  rw [Case.text]
  simp only [List.append_assoc]
  rw [scanFrom_opens h.tag isName_testcase (by omega), hstart, hread, scanFrom_gap h.last rfl]
  have hkept := @keep_of_capture ρ { opened with case := some (test.read stod s.suite), text } hcapture test.last.value
  show scanFrom stod (JUnitScanner.keep { opened with case := some (test.read stod s.suite), text } test.last.value) _ = _
  rw [hkept, @scanFrom_closes ρ _ stod _ test.tag h.tag _ isName_testcase s.stack rfl, finish]
  dsimp only [opened]
  rw [show outcomeNamed (bytesOf "testcase") = none by decide]
  dsimp only
  rw [if_pos rfl, ← hcase]

/-- What stands inside of a suite is read, and its cases are reported. -/
theorem scanFrom_body {body : Body} (h : body.WellFormed) (hcase : s.case = none) (hcapture : s.capture = false)
    (hdepth : s.stack.length + body.depth ≤ 32) {markup : Text} (hmarkup : markup.head? = some '<') :
    ∃ suite text, scanFrom stod s (body.text ++ markup) =
      scanFrom stod { s with report := s.report ++ body.read stod s.suite, suite, text } markup := by
  induction body generalizing s markup with
  | last gap =>
    refine ⟨s.suite, s.text, ?_⟩
    rw [Body.text, scanFrom_gap h hmarkup, keep_of_capture hcapture, Body.read, List.append_nil]
  | case gap test rest ih =>
    obtain ⟨hgap, htest, hrest⟩ := h
    rw [Body.depth] at hdepth
    obtain ⟨text, hread⟩ := @scanFrom_case ρ _ stod s test htest hcase hcapture (by omega) (rest.text ++ markup)
    obtain ⟨suite, text', hread'⟩ := @ih { s with report := s.report ++ [test.read stod s.suite], text } hrest hcase
      hcapture (by dsimp only; omega) markup hmarkup
    refine ⟨suite, text', ?_⟩
    rw [Body.text]
    simp only [List.append_assoc]
    rw [scanFrom_gap hgap rfl, keep_of_capture hcapture, hread, hread', Body.read]
    simp only [List.append_assoc, List.singleton_append]
  | suite gap tag inner rest ihInner ih =>
    obtain ⟨hgap, htag, hinner, hrest⟩ := h
    rw [Body.depth] at hdepth
    have hstart : s.start stod (bytesOf "testsuite") (readOf tag.attributes) = { s with suite := tag.suiteName } := by
      unfold start
      rw [if_pos rfl, suiteName_readOf]
    let opened : JUnitScanner ρ := { s with stack := bytesOf "testsuite" :: s.stack, suite := tag.suiteName }
    obtain ⟨suite, text, hread⟩ := @ihInner opened hinner hcase hcapture
      (by dsimp only [opened, List.length_cons]; omega) (tag.closeText (bytesOf "testsuite") ++ (rest.text ++ markup)) rfl
    obtain ⟨suite', text', hread'⟩ := @ih
      { s with report := s.report ++ inner.read stod tag.suiteName, suite := [], text } hrest hcase hcapture
      (by dsimp only; omega) markup hmarkup
    refine ⟨suite', text', ?_⟩
    rw [Body.text]
    simp only [List.append_assoc]
    rw [scanFrom_gap hgap rfl, keep_of_capture hcapture, scanFrom_opens htag isName_testsuite (by omega), hstart, hread,
      @scanFrom_closes ρ _ stod _ tag htag _ isName_testsuite s.stack rfl, finish]
    dsimp only [opened]
    rw [hcase]
    dsimp only
    rw [if_pos rfl, ← hcase, hread', Body.read]
    simp only [List.append_assoc]

/-- A declaration is skipped. -/
theorem readMarkup_declaration {words : Text} (h : '>' ∉ words) (rest : Text) :
    s.readMarkup stod (bytesOf "<?" ++ words ++ bytesOf "?>" ++ rest) = .ok (s, rest) := by
  obtain ⟨hcomment, hcdata, hdeclaration, -⟩ := markup_words
  have hend : bytesOf "?>" = ['?', '>'] := by decide
  have hbefore : '>' ∉ '<' :: '?' :: (words ++ ['?']) := by simp [h]
  have hcut := cut_char hbefore rest
  have htext : ['<', '?'] ++ words ++ ['?', '>'] ++ rest = '<' :: '?' :: (words ++ ['?']) ++ '>' :: rest := by simp
  rw [readMarkup, hcomment, hcdata, hdeclaration, hend, htext]
  have hcomment' : ['<', '!', '-', '-'].isPrefixOf ('<' :: '?' :: (words ++ ['?']) ++ '>' :: rest) = false := rfl
  have hcdata' : ['<', '!', '[', 'C', 'D', 'A', 'T', 'A', '['].isPrefixOf
      ('<' :: '?' :: (words ++ ['?']) ++ '>' :: rest) = false := rfl
  have hdeclaration' : ['<', '?'].isPrefixOf ('<' :: '?' :: (words ++ ['?']) ++ '>' :: rest) = true := rfl
  rw [hcomment', if_neg Bool.false_ne_true, hcdata', if_neg Bool.false_ne_true, hdeclaration', Bool.true_or, if_pos rfl,
    hcut]

/-- Text outside of a case's results is passed over. -/
theorem scanFrom_outside {run markup : Text} (hrun : '<' ∉ run) (hmarkup : markup.head? = some '<')
    (hcapture : s.capture = false) : scanFrom stod s (run ++ markup) = scanFrom stod s markup := by
  obtain ⟨rest, rfl⟩ := List.head?_eq_some_iff.mp hmarkup
  rw [scanFrom_run hrun, keep_of_capture hcapture]

/-- A declaration is passed over, and the text around it. -/
theorem scanFrom_declaration {d : Document} (h : d.WellFormed) {markup : Text} (hmarkup : markup.head? = some '<')
    (hcapture : s.capture = false) :
    scanFrom stod s (d.first ++ (d.declaration.elim [] fun words => bytesOf "<?" ++ words ++ bytesOf "?>") ++
      d.second ++ markup) = scanFrom stod s markup := by
  have houtside := h.outside
  simp only [List.mem_append, not_or] at houtside
  cases hdeclaration : d.declaration with
  | none =>
    rw [Option.elim_none, List.append_nil]
    apply scanFrom_outside ?_ hmarkup hcapture
    simp [houtside]
  | some words =>
    have hread := @readMarkup_declaration ρ _ stod s words (h.declaration words hdeclaration) (d.second ++ markup)
    have hstart : bytesOf "<?" = '<' :: bytesOf "?" := by decide
    rw [hstart] at hread
    simp only [Option.elim_some, List.append_assoc, hstart, List.cons_append] at hread ⊢
    rw [scanFrom_outside houtside.1.1 rfl hcapture, scanFrom_markup hread, scanFrom_outside houtside.1.2 hmarkup hcapture]

/-- A report is scanned. -/
theorem scan_document {d : Document} (h : d.WellFormed) (hdepth : d.depth ≤ 32) :
    scan stod d.text = .ok (d.body.read stod d.suite) := by
  have hname := isName_root d
  have hlast : '<' ∉ d.last := fun hmem => h.outside (List.mem_append_right _ hmem)
  have hstart : (({} : JUnitScanner ρ).start stod d.rootName (readOf d.tag.attributes)) = { suite := d.suite } := by
    unfold start Document.rootName Document.suite
    by_cases hsuites : d.suites = true
    · rw [if_pos hsuites, if_pos hsuites, if_neg (by decide), if_neg (by decide)]
    · rw [if_neg hsuites, if_neg hsuites, if_pos rfl, suiteName_readOf]
  let opened : JUnitScanner ρ := { stack := [d.rootName], suite := d.suite }
  obtain ⟨suite, text, hread⟩ := @scanFrom_body ρ _ stod opened d.body h.body rfl rfl
    (by dsimp only [opened]; rw [Document.depth] at hdepth; simp only [List.length_singleton]; omega)
    (d.tag.closeText d.rootName ++ d.last) rfl
  have hfinish : ∀ s : JUnitScanner ρ, s.case = none → ∃ suite, s.finish d.rootName = { s with suite } := by
    intro s hcase
    unfold finish
    rw [hcase]
    dsimp only
    split_ifs
    · exact ⟨[], by rw [← hcase]⟩
    · exact ⟨s.suite, by rw [← hcase]⟩
  obtain ⟨suite', hfinished⟩ := hfinish { report := d.body.read stod d.suite, suite, text } rfl
  unfold scan Document.text
  simp only [List.append_assoc] at hread ⊢
  have hdeclared := @scanFrom_declaration ρ _ stod {} d h
    (d.tag.openText d.rootName ++ (d.body.text ++ (d.tag.closeText d.rootName ++ d.last))) rfl rfl
  simp only [List.append_assoc] at hdeclared
  have hopened := @scanFrom_opens ρ _ stod {} d.tag h.tag _ hname (Nat.succ_pos 31)
    (d.body.text ++ (d.tag.closeText d.rootName ++ d.last))
  rw [hdeclared, hopened, hstart, hread, @scanFrom_closes ρ _ stod _ d.tag h.tag _ hname [] rfl]
  dsimp only [opened, List.nil_append]
  rw [hfinished, scanFrom_end hlast]
  rfl

end JUnitScanner

/-! ## The report -/

/-- The digits that a case's line is read from. -/
def lineDigits (message : Text) : Option Text :=
  match search resLine message with
  | some (_, digits) => some digits
  | none => search atLine message

/-- The line that a message names is an `int`. -/
def LineFits (message : Text) : Prop := ∀ digits ∈ lineDigits message, numberOf 10 digits < 2 ^ 31

omit [Zero ρ] in
theorem locate_told {test : TestCaseResult ρ} (h : LineFits test.message) :
    ∃ located, locate test = some located ∧ located.told = test.told := by
  unfold LineFits lineDigits at h
  have hstoi : ∀ digits, numberOf 10 digits < 2 ^ 31 → stoi digits = some (numberOf 10 digits) := fun digits hlt =>
    if_pos hlt
  unfold locate
  cases hres : search resLine test.message with
  | some found =>
    obtain ⟨file, digits⟩ := found
    rw [hres] at h
    exact ⟨_, Option.bind_eq_some_iff.mpr ⟨_, hstoi digits (h digits rfl), rfl⟩, rfl⟩
  | none =>
    rw [hres] at h
    cases hline : search atLine test.message with
    | some digits => exact ⟨_, Option.bind_eq_some_iff.mpr ⟨_, hstoi digits (h digits hline), rfl⟩, rfl⟩
    | none => exact ⟨_, rfl, rfl⟩

omit [Zero ρ] in
theorem locate_all {cases : List (TestCaseResult ρ)} (h : ∀ test ∈ cases, LineFits test.message) :
    ∃ located, cases.mapM locate = some located ∧
      located.map TestCaseResult.told = cases.map TestCaseResult.told := by
  induction cases with
  | nil => exact ⟨[], rfl, rfl⟩
  | cons test cases ih =>
    obtain ⟨first, hfirst, htold⟩ := locate_told (h test List.mem_cons_self)
    obtain ⟨others, hothers, htolds⟩ := ih fun test htest => h test (List.mem_cons_of_mem _ htest)
    refine ⟨first :: others, ?_, ?_⟩
    · rw [List.mapM_cons, hfirst, hothers]
      rfl
    · rw [List.map_cons, List.map_cons, htold, htolds]

/-- **A report is read as its tree, whatever its spelling.** -/
theorem parseJUnitReport_document {d : Document} (h : d.WellFormed) (hdepth : d.depth ≤ 32)
    (hsize : d.text.length ≤ kMaxReportBytes) (hordered : d.Ordered) (hlines : ∀ test ∈ d.cases, LineFits test.message) :
    ∃ cases, parseJUnitReport stod d.text = .ok cases ∧ cases.map TestCaseResult.told = d.cases := by
  have hscan := @JUnitScanner.scan_document ρ _ stod d h hdepth
  have htold := told_body stod hordered
  have hfits : ∀ test ∈ d.body.read stod d.suite, LineFits test.message := by
    intro test htest
    apply hlines test.told
    rw [Document.cases, ← htold]
    exact List.mem_map_of_mem htest
  obtain ⟨located, hlocated, htolds⟩ := locate_all hfits
  refine ⟨located, ?_, htolds.trans htold⟩
  unfold parseJUnitReport
  rw [if_neg (by omega), hscan]
  dsimp only
  rw [hlocated]

end

/-! ## A report of one case -/

def blank : Content := ⟨[], []⟩

theorem blank_wellFormed : blank.WellFormed := ⟨by simp [blank], by simp [blank], by simp [blank]⟩

/-- A tag whose attributes are written without an entity. -/
def tagWith (attributes : List (String × String)) : Tag where
  attributes := attributes.map fun e => ⟨[' '], e.1.toList, [], [], '"', e.2.toList.map Glyph.plain⟩
  spaces := []
  endSpaces := []

theorem tagWith_wellFormed {attributes : List (String × String)}
    (h : ∀ e ∈ attributes, (e.1.toList ≠ [] ∧ ∀ c ∈ e.1.toList, isSpace c = false ∧ c ∉ ['=', '>', '/']) ∧
      ∀ c ∈ e.2.toList, c ∉ ['<', '&', '"']) : (tagWith attributes).WellFormed := by
  refine ⟨fun a ha => ?_, by simp [tagWith], by simp [tagWith]⟩
  obtain ⟨e, he, rfl⟩ := List.mem_map.mp ha
  refine ⟨⟨List.cons_ne_nil _ _, by simp [isSpace]⟩, (h e he).1, by simp, .inl rfl, fun glyph hglyph => ?_⟩
  obtain ⟨c, hc, rfl⟩ := List.mem_map.mp hglyph
  exact (h e he).2 c hc

/-- One suite with one case, and the results of the case. -/
def reportOf (suite test : List (String × String)) (results : List CaseResult) : Document where
  first := []
  declaration := some (bytesOf "xml version='1.0' ")
  second := ['\n']
  suites := true
  tag := tagWith []
  body := .suite blank (tagWith suite) (.case blank ⟨tagWith test, results, blank⟩ (.last blank)) (.last blank)
  last := []

theorem reportOf_wellFormed {suite test : List (String × String)} {results : List CaseResult}
    (hsuite : (tagWith suite).WellFormed) (htest : (tagWith test).WellFormed) (h : ∀ r ∈ results, r.WellFormed) :
    (reportOf suite test results).WellFormed := by
  have hroot : (tagWith []).WellFormed := tagWith_wellFormed (by simp)
  have hblank := blank_wellFormed
  refine ⟨by simp [reportOf], ?_, hroot, hblank, hsuite, ⟨hblank, ⟨htest, h, hblank⟩, hblank⟩, hblank⟩
  intro words hwords
  cases hwords
  decide

/-- A case that failed, with a message in a CDATA section. -/
theorem parseJUnitReport_failed :
    ∃ cases, parseJUnitReport (fun _ => none : Text → Option Nat) (reportOf [("name", "a.gd")] [("name", "t")]
        [⟨blank, .failure, tagWith [], ⟨[([.named .amp], bytesOf "1 < 2")], []⟩⟩]).text = .ok cases ∧
      cases.map TestCaseResult.told = [⟨bytesOf "a.gd", bytesOf "t", .failed, bytesOf "&1 < 2"⟩] := by
  have hname : ∀ value : String, (∀ c ∈ value.toList, c ∉ ['<', '&', '"']) → (tagWith [("name", value)]).WellFormed := by
    intro value hvalue
    apply tagWith_wellFormed
    intro e he
    rw [List.mem_singleton.mp he]
    have hkey : "name".toList ≠ [] ∧ ∀ c ∈ "name".toList, isSpace c = false ∧ c ∉ ['=', '>', '/'] :=
      ⟨by decide, List.all_iff_forall_prop.mp (by decide)⟩
    exact ⟨hkey, hvalue⟩
  have hresult : CaseResult.WellFormed
      ⟨blank, .failure, tagWith [], ⟨[([.named .amp], bytesOf "1 < 2")], []⟩⟩ := by
    refine ⟨blank_wellFormed, tagWith_wellFormed (by simp), ⟨?_, ?_, by simp⟩⟩
    · intro e he glyph hglyph
      rw [List.mem_singleton.mp he, List.mem_singleton] at hglyph
      rw [hglyph]
      trivial
    · intro e he
      rw [List.mem_singleton.mp he]
      decide
  refine parseJUnitReport_document (reportOf_wellFormed (hname "a.gd" (List.all_iff_forall_prop.mp (by decide)))
    (hname "t" (List.all_iff_forall_prop.mp (by decide))) ?_)
    (by decide) (by decide +kernel) ⟨trivial, .inl rfl, trivial⟩ ?_
  · intro r hr
    rw [List.mem_singleton.mp hr]
    exact hresult
  · intro test htest digits hdigits
    have hnone : lineDigits (bytesOf "&1 < 2") = none := by decide
    rw [List.mem_singleton.mp htest] at hdigits
    have hdigits : digits ∈ lineDigits (bytesOf "&1 < 2") := hdigits
    rw [hnone] at hdigits
    cases hdigits

/-- The suite of a case is called by its package as well. -/
theorem parseJUnitReport_package :
    (reportOf [("name", "s"), ("package", "p")] [("name", "t")] []).WellFormed ∧
      (tagWith [("name", "s"), ("package", "p")]).value "name" = bytesOf "s" ∧
      (parseJUnitReport (fun _ => none : Text → Option Nat)
        (reportOf [("name", "s"), ("package", "p")] [("name", "t")] []).text).toOption.map
          (List.map TestCaseResult.suite) = some [bytesOf "p/s"] ∧
      bytesOf "p/s" ≠ bytesOf "s" := by
  refine ⟨reportOf_wellFormed (tagWith_wellFormed ?_) (tagWith_wellFormed ?_) (by simp), ?_, ?_, ?_⟩
  · simp only [← List.all_iff_forall_prop]
    decide
  · simp only [← List.all_iff_forall_prop]
    decide
  · decide
  · decide +kernel
  · decide

end Didi.Reports
