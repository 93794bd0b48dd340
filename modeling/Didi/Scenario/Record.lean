import Didi.Scenario.Files

/-!
# A record that is unchanged

* `Recorded` : what the files of a collection are, by what is reached;
* `SameContents` : what an unchanged record says of a later project;
* `record_stands_iff` : an unchanged record is the whole record of the later project exactly when the classes its
  scripts name lead into it, and to all of it.
-/

namespace Didi.Scenario
open Config Worklist
variable {path : Text} {index : List (Text × Text)}

/-! ## The files of a collection -/

section Collection
variable {project : Project} {seeds : List Text}

/-- What the starting files of a project reach, with the classes of an index. -/
def Reached (project : Project) (seeds : List Text) (index : List (Text × Text)) : Text → Prop :=
  Reaches (admits project seeds) (refersTo project index) (startingFiles project seeds)

def visitedFiles (project : Project) (seeds : List Text) : Collected Text :=
  collect (admits project seeds) (refersTo project (classNameIndex project)) kMaxScenarioFiles []
    (startingFiles project seeds)

instance : Std.Total fun left right : Text => left ≤ right := ⟨le_total⟩

instance : IsTrans Text fun left right => left ≤ right := ⟨fun _ _ _ => le_trans⟩

/-- The paths of a collection are those it visited, in order. -/
theorem files_eq (project : Project) (seeds : List Text) :
    (collectProofFiles project seeds).files =
      ((visitedFiles project seeds).visited.insertionSort (· ≤ ·)).map fun path =>
        { path, sha256 := currentDigest project path } :=
  (List.map_insertionSort (fun left right : Text => left ≤ right)
    (fun left right : ScenarioFile => left.path ≤ right.path) _ _ fun _ _ _ _ => Iff.rfl).symm

theorem mem_files {file : ScenarioFile} : file ∈ (collectProofFiles project seeds).files ↔
    file.path ∈ (visitedFiles project seeds).visited ∧ file.sha256 = currentDigest project file.path := by
  rw [files_eq, List.mem_map]
  constructor
  · rintro ⟨path, hpath, rfl⟩
    exact ⟨(List.perm_insertionSort _ _).mem_iff.mp hpath, rfl⟩
  · rintro ⟨hpath, hdigest⟩
    refine ⟨file.path, (List.perm_insertionSort _ _).mem_iff.mpr hpath, ?_⟩
    rw [← hdigest]

/-- A path that a collection recorded. -/
def Recorded (project : Project) (seeds : List Text) (path : Text) : Prop :=
  ∃ file ∈ (collectProofFiles project seeds).files, file.path = path

theorem recorded_iff_visited :
    Recorded project seeds path ↔ path ∈ (visitedFiles project seeds).visited := by
  constructor
  · rintro ⟨file, hfile, rfl⟩
    exact (mem_files.mp hfile).1
  · intro hpath
    exact ⟨⟨path, currentDigest project path⟩, mem_files.mpr ⟨hpath, rfl⟩, rfl⟩

/-- A collection that is not cut short records what is reached. -/
theorem recorded_iff (h : (collectProofFiles project seeds).truncated = false) :
    Recorded project seeds path ↔ Reached project seeds (classNameIndex project) path := by
  rw [recorded_iff_visited]
  exact mem_collect_iff h

/-- Every collection records the project's own file. -/
theorem recorded_projectGodot (h : (collectProofFiles project seeds).truncated = false) :
    Recorded project seeds projectGodot := by
  refine (recorded_iff h).mpr (.root List.mem_cons_self ?_)
  have hunder : fileUnder projectGodot = some projectGodot := if_pos rfl
  have haddons : "res://addons/".toList.isPrefixOf projectGodot = false := by decide
  rw [admits, hunder, haddons]
  simp

end Collection

/-! ## An unchanged record -/

section Unchanged
variable {earlier later : Project} {seeds : List Text}

/-- The recorded files hold what they held. -/
def SameContents (earlier later : Project) (seeds : List Text) : Prop :=
  ∀ path, Recorded earlier seeds path → later.bytesOf path = earlier.bytesOf path

/-- No two texts that a recorded file holds have one digest. -/
def DigestsTell (earlier later : Project) (seeds : List Text) : Prop :=
  ∀ path bytes bytes', Recorded earlier seeds path → earlier.bytesOf path = some bytes →
    later.bytesOf path = some bytes' → sha256Hex bytes = sha256Hex bytes' → bytes = bytes'

/-- **A record without a changed digest is one of files that hold what they held.** -/
theorem sameContents_of_unchanged (htell : DigestsTell earlier later seeds)
    (h : changedScenarioFiles later (collectProofFiles earlier seeds).files = []) :
    SameContents earlier later seeds := by
  rintro path ⟨file, hfile, rfl⟩
  have hsame : currentDigest later file.path = currentDigest earlier file.path := by
    have hnone := List.filterMap_eq_nil_iff.mp h file hfile
    dsimp only at hnone
    rw [(mem_files.mp hfile).2] at hnone
    by_contra hne
    rw [if_pos hne] at hnone
    cases hnone
  unfold currentDigest at hsame
  cases hearlier : earlier.bytesOf file.path with
  | none =>
    rw [hearlier] at hsame
    cases hlater : later.bytesOf file.path with
    | none => rfl
    | some bytes' =>
      rw [hlater] at hsame
      exact absurd hsame (sha256Hex_ne_nil bytes')
  | some bytes =>
    rw [hearlier] at hsame
    cases hlater : later.bytesOf file.path with
    | none =>
      rw [hlater] at hsame
      exact absurd hsame.symm (sha256Hex_ne_nil bytes)
    | some bytes' =>
      rw [hlater] at hsame
      rw [htell file.path bytes bytes' ⟨file, hfile, rfl⟩ hearlier hlater hsame.symm]

theorem unchanged_of_sameContents (h : SameContents earlier later seeds) :
    changedScenarioFiles later (collectProofFiles earlier seeds).files = [] := by
  refine List.filterMap_eq_nil_iff.mpr fun file hfile => ?_
  have hdigest : currentDigest later file.path = file.sha256 := by
    rw [(mem_files.mp hfile).2, currentDigest, currentDigest, h file.path ⟨file, hfile, rfl⟩]
  dsimp only
  rw [if_neg (not_not.mpr hdigest)]

variable (hwhole : (collectProofFiles earlier seeds).truncated = false) (hsame : SameContents earlier later seeds)
include hwhole hsame

theorem startingFiles_eq : startingFiles later seeds = startingFiles earlier seeds := by
  have hgodot := hsame projectGodot (recorded_projectGodot hwhole)
  have hunder : fileUnder projectGodot = some projectGodot := if_pos rfl
  rw [Project.bytesOf, Project.bytesOf, hunder] at hgodot
  have hread : later.read projectGodot = earlier.read projectGodot := hgodot
  rw [startingFiles, startingFiles, readProjectAutoloads, readProjectAutoloads, hread]

theorem admits_eq : admits later seeds = admits earlier seeds := by
  have hautoloads : readProjectAutoloads later = readProjectAutoloads earlier := by
    have hstarting := startingFiles_eq hwhole hsame
    exact List.append_cancel_right (List.cons.inj hstarting).2
  funext path
  rw [admits, admits, hautoloads]

omit hwhole in
/-- What a recorded file refers to in the later project, by the classes of an index. -/
theorem refersTo_eq (index : List (Text × Text)) (h : Recorded earlier seeds path) :
    refersTo later index path = refersTo earlier index path := by
  rw [refersTo, refersTo, hsame path h]

end Unchanged

/-! ## The whole record -/

/-- The classes of an index that the text of a file names, when it is a script. -/
def classesOf (project : Project) (index : List (Text × Text)) (path : Text) : List Text :=
  match project.bytesOf path with
  | none => []
  | some bytes => if lowerExtension path = "gd".toList then classesUsedIn bytes index else []

/-- The scripts of a later index that the record's files name lead nowhere but into the record, and to all of it:
every recorded file is reached when the classes are those of the index. -/
structure Leads (project : Project) (seeds : List Text) (index : List (Text × Text)) : Prop where
  into : ∀ path, Recorded project seeds path → ∀ target ∈ classesOf project index path,
    admits project seeds target = true → Recorded project seeds target
  all : ∀ path, Recorded project seeds path → Reached project seeds index path

theorem mem_refersTo {project : Project} {path target : Text} :
    target ∈ refersTo project index path ↔
      (∃ bytes, project.bytesOf path = some bytes ∧ target ∈ referencesIn path bytes) ∨
        target ∈ classesOf project index path := by
  rw [refersTo, classesOf]
  cases project.bytesOf path with
  | none => simp
  | some bytes => simp

section Whole
variable {earlier later : Project} {seeds : List Text}

/-- A recorded file refers to what is recorded, where the classes of an index lead into the record. -/
theorem recorded_of_refersTo (hwhole : (collectProofFiles earlier seeds).truncated = false)
    (hinto : ∀ path, Recorded earlier seeds path → ∀ target ∈ classesOf earlier index path,
      admits earlier seeds target = true → Recorded earlier seeds target)
    {path target : Text} (hpath : Recorded earlier seeds path) (htarget : target ∈ refersTo earlier index path)
    (hadmits : admits earlier seeds target = true) : Recorded earlier seeds target := by
  rcases mem_refersTo.mp htarget with ⟨bytes, hbytes, hrefers⟩ | hclass
  · have hreached := (recorded_iff hwhole).mp hpath
    exact (recorded_iff hwhole).mpr (.step hreached (mem_refersTo.mpr (.inl ⟨bytes, hbytes, hrefers⟩)) hadmits)
  · exact hinto path hpath target hclass hadmits

/-- Where the classes of an index lead into the record, nothing else is reached with them. -/
theorem recorded_of_reached (hwhole : (collectProofFiles earlier seeds).truncated = false)
    (hinto : ∀ path, Recorded earlier seeds path → ∀ target ∈ classesOf earlier index path,
      admits earlier seeds target = true → Recorded earlier seeds target)
    (h : Reached earlier seeds index path) : Recorded earlier seeds path := by
  induction h with
  | root ha hadmits => exact (recorded_iff hwhole).mpr (.root ha hadmits)
  | step _ htarget hadmits ih => exact recorded_of_refersTo hwhole hinto ih htarget hadmits

/-- What is reached in the later project is reached in the earlier one, as long as all of it is recorded. -/
theorem reached_of_later (hwhole : (collectProofFiles earlier seeds).truncated = false)
    (hsame : SameContents earlier later seeds)
    (hrecorded : ∀ path, Reached later seeds index path → Recorded earlier seeds path)
    (h : Reached later seeds index path) : Reached earlier seeds index path := by
  have hcongr : Reaches (admits later seeds) (refersTo earlier index) (startingFiles later seeds) path :=
    h.congr fun b hb => (refersTo_eq hsame index (hrecorded b hb)).symm
  rw [admits_eq hwhole hsame, startingFiles_eq hwhole hsame] at hcongr
  exact hcongr

/-- What is reached in the earlier project is reached in the later one, as long as all of it is recorded. -/
theorem reached_of_earlier (hwhole : (collectProofFiles earlier seeds).truncated = false)
    (hsame : SameContents earlier later seeds)
    (hrecorded : ∀ path, Reached earlier seeds index path → Recorded earlier seeds path)
    (h : Reached earlier seeds index path) : Reached later seeds index path := by
  rw [Reached, admits_eq hwhole hsame, startingFiles_eq hwhole hsame]
  exact Reaches.congr h fun b hb => refersTo_eq hsame index (hrecorded b hb)

/-- What leads into the record, read in the later project, leads into it as well. -/
theorem recorded_of_later (hwhole : (collectProofFiles earlier seeds).truncated = false)
    (hsame : SameContents earlier later seeds)
    (hinto : ∀ path, Recorded earlier seeds path → ∀ target ∈ classesOf earlier index path,
      admits earlier seeds target = true → Recorded earlier seeds target)
    (h : Reached later seeds index path) : Recorded earlier seeds path := by
  unfold Reached at h
  rw [admits_eq hwhole hsame, startingFiles_eq hwhole hsame] at h
  induction h with
  | root ha hadmits => exact (recorded_iff hwhole).mpr (.root ha hadmits)
  | @step path target _ htarget hadmits ih =>
    rw [refersTo_eq hsame index ih] at htarget
    exact recorded_of_refersTo hwhole hinto ih htarget hadmits

/-- A later collection that reaches what the earlier one recorded is not cut short. -/
theorem truncated_of_reached
    (hreached : ∀ path, Reached later seeds (classNameIndex later) path ↔ Recorded earlier seeds path) :
    (collectProofFiles later seeds).truncated = false := by
  by_contra htruncated
  have hcut : (visitedFiles later seeds).truncated = true := Bool.not_eq_false _ ▸ htruncated
  obtain ⟨hlength, extra, hextra, -, hnot⟩ := exists_reaches_of_truncated hcut
  -- one more than a collection can visit would have been visited before
  have hnodup : (extra :: (visitedFiles later seeds).visited).Nodup := List.nodup_cons.mpr ⟨hnot, nodup_collect.1⟩
  have hsub : extra :: (visitedFiles later seeds).visited ⊆ (visitedFiles earlier seeds).visited := by
    intro path hpath
    refine recorded_iff_visited.mp ((hreached path).mp ?_)
    rcases List.mem_cons.mp hpath with rfl | hpath
    · exact hextra
    · exact reaches_of_mem_collect hpath
  have hle := (List.subperm_of_subset hnodup hsub).length_le
  have hmax : (visitedFiles earlier seeds).visited.length ≤ kMaxScenarioFiles := length_collect_le
  rw [List.length_cons, visitedFiles, hlength] at hle
  omega

/-- Two collections that record the same paths, of files that hold what they held, answer the same list. -/
theorem files_of_recorded (hsame : SameContents earlier later seeds)
    (hrecorded : ∀ path, Recorded later seeds path ↔ Recorded earlier seeds path) :
    (collectProofFiles later seeds).files = (collectProofFiles earlier seeds).files := by
  have hperm : (visitedFiles later seeds).visited.Perm (visitedFiles earlier seeds).visited := by
    refine (List.perm_ext_iff_of_nodup nodup_collect.1 nodup_collect.1).mpr fun path => ?_
    exact recorded_iff_visited.symm.trans ((hrecorded path).trans recorded_iff_visited)
  have hsorted : (visitedFiles later seeds).visited.insertionSort (· ≤ ·) =
      (visitedFiles earlier seeds).visited.insertionSort (· ≤ ·) :=
    ((List.perm_insertionSort _ _).trans (hperm.trans (List.perm_insertionSort _ _).symm)).eq_of_pairwise
      (fun _ _ _ _ => le_antisymm) (List.pairwise_insertionSort _ _) (List.pairwise_insertionSort _ _)
  rw [files_eq, files_eq, hsorted]
  refine List.map_congr_left fun path hpath => ?_
  have hheld := recorded_iff_visited.mpr ((List.perm_insertionSort _ _).mem_iff.mp hpath)
  rw [currentDigest, currentDigest, hsame path hheld]

/-- **An unchanged record is the whole record of the later project exactly when the classes its scripts name lead
nowhere but into it, and to all of it.** -/
theorem record_stands_iff (earlier later : Project) (seeds : List Text)
    (hwhole : (collectProofFiles earlier seeds).truncated = false)
    (hunchanged : changedScenarioFiles later (collectProofFiles earlier seeds).files = [])
    (htell : DigestsTell earlier later seeds) :
    collectProofFiles later seeds = collectProofFiles earlier seeds ↔
      Leads earlier seeds (classNameIndex later) := by
  have hsame := sameContents_of_unchanged htell hunchanged
  constructor
  · intro heq
    have hreached : ∀ {path}, Recorded earlier seeds path ↔ Reached later seeds (classNameIndex later) path := by
      intro path
      rw [← recorded_iff (show (collectProofFiles later seeds).truncated = false by rw [heq]; exact hwhole), Recorded,
        Recorded, heq]
    refine ⟨fun path hpath target htarget hadmits => ?_, fun path hpath => ?_⟩
    · refine hreached.mpr (.step (hreached.mp hpath) ?_ (by rwa [admits_eq hwhole hsame]))
      rw [refersTo_eq hsame _ hpath]
      exact mem_refersTo.mpr (.inr htarget)
    · exact reached_of_later hwhole hsame (fun _ => hreached.mpr) (hreached.mp hpath)
  · intro hleads
    have hreached : ∀ path, Reached later seeds (classNameIndex later) path ↔ Recorded earlier seeds path := fun path =>
      ⟨recorded_of_later hwhole hsame hleads.into, fun hpath =>
        reached_of_earlier hwhole hsame (fun _ => recorded_of_reached hwhole hleads.into) (hleads.all path hpath)⟩
    have hlater := truncated_of_reached hreached
    refine ScenarioFiles.ext (files_of_recorded hsame fun path => ?_) (hlater.trans hwhole.symm)
    rw [recorded_iff hlater, hreached]

end Whole

/-! A new script can declare a class that a recorded script already names. -/

/-- A project of the scripts in a list, with an empty file of its own. -/
def projectOf (scripts : List (Text × Text)) : Project where
  walk := scripts.map fun script => [script.1]
  read path := if path = projectGodot then some [] else scripts.lookup path

def lone : Project := projectOf [("a.gd".toList, "Foo.new()".toList)]

def joined : Project := projectOf [("a.gd".toList, "Foo.new()".toList), ("b.gd".toList, "class_name Foo".toList)]

def startAtA : List Text := ["res://a.gd".toList]

theorem visited_lone : (visitedFiles lone startAtA).visited = [projectGodot, "res://a.gd".toList] := by
  decide

/-- A project that reads the two recorded files as they were. -/
theorem sameContents_lone {later : Project} (hgodot : later.bytesOf projectGodot = lone.bytesOf projectGodot)
    (ha : later.bytesOf "res://a.gd".toList = lone.bytesOf "res://a.gd".toList) :
    SameContents lone later startAtA := by
  intro path hpath
  rw [recorded_iff_visited, visited_lone] at hpath
  rcases List.mem_cons.mp hpath with rfl | hpath
  · exact hgodot
  · cases List.mem_singleton.mp hpath
    exact ha

theorem not_record_stands : ¬ ∀ (earlier later : Project) (seeds : List Text),
    (collectProofFiles earlier seeds).truncated = false →
      changedScenarioFiles later (collectProofFiles earlier seeds).files = [] →
        (collectProofFiles later seeds).files = (collectProofFiles earlier seeds).files := by
  intro h
  have hfiles := h lone joined startAtA (by decide)
    (unchanged_of_sameContents (sameContents_lone (by decide) (by decide)))
  have hjoined : Recorded joined startAtA "res://b.gd".toList :=
    recorded_iff_visited.mpr (by decide)
  have hlone : Recorded lone startAtA "res://b.gd".toList := by
    rw [Recorded] at hjoined ⊢
    rwa [hfiles] at hjoined
  rw [recorded_iff_visited, visited_lone] at hlone
  revert hlone
  decide

def apart : Project := projectOf [("a.gd".toList, "Foo.new()".toList), ("b.gd".toList, "class_name Bar".toList)]

theorem record_stands_apart : collectProofFiles apart startAtA = collectProofFiles lone startAtA := by
  have hwhole : (collectProofFiles lone startAtA).truncated = false := by
    decide
  have hsame : SameContents lone apart startAtA := sameContents_lone (by decide) (by decide)
  refine (record_stands_iff lone apart startAtA hwhole (unchanged_of_sameContents hsame)
    fun path bytes bytes' hpath hbytes hbytes' _ => ?_).mpr ⟨fun path hpath target htarget _ => ?_, fun path hpath => ?_⟩
  · rw [hsame path hpath, hbytes] at hbytes'
    exact Option.some.inj hbytes'
  · rw [recorded_iff_visited, visited_lone] at hpath
    have hnone : ∀ path ∈ [projectGodot, "res://a.gd".toList], classesOf lone (classNameIndex apart) path = [] := by
      decide
    rw [hnone path hpath] at htarget
    cases htarget
  · rw [recorded_iff_visited, visited_lone] at hpath
    have hroots : ∀ path ∈ [projectGodot, "res://a.gd".toList],
        path ∈ startingFiles lone startAtA ∧ admits lone startAtA path = true := by
      decide
    exact .root (hroots path hpath).1 (hroots path hpath).2

end Didi.Scenario
