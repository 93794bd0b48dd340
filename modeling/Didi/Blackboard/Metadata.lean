import Didi.Blackboard.Pins

/-!
# What the metadata describes

* `Described` : every path of the metadata resolves in the tree;
* `KeepsDescribed` : a call neither writes a value that lacks what the metadata describes below its
  path, nor drops a lapsed member above metadata that has not lapsed;
* `metadata_describes` : boards reached by calls that do neither are described.
-/

namespace Didi.Blackboard
open Locked

/-- The path is the dotted form of its segments, and resolves in the tree. -/
def Resolves (state : JsonObject) (path : String) : Prop :=
  ∃ parts w, blackboardSplitPath path = .ok parts ∧ joinPath parts = path ∧
    (Json.object state).resolve parts = some w

/-- Every path of the metadata resolves in the tree. -/
def Described (board : Board) : Prop := ∀ path entry, board.meta.get path = some entry → Resolves board.state path

/-- A lapsed member of the tree lies at or above these segments. -/
def UnderLapsed (board : Board) (nowMs : Int) (parts : List String) : Prop :=
  ∃ path above, LapsedMember board nowMs path ∧ blackboardSplitPath path = .ok above ∧ above <+: parts

/-- What an operation would leave dangling at these segments, where metadata that has not lapsed is. -/
def Spares (board : Board) (nowMs : Int) (parts : List String) : Operation → Prop
  | .write request => request.dryRun = false → ∀ written, blackboardSplitPath request.path = .ok written →
      (∀ rest, parts = written ++ rest → ∃ w, request.value.resolve rest = some w) ∧
      (¬ written <+: parts → ¬ parts <+: written → ¬ UnderLapsed board nowMs parts)
  | .clear request => request.dryRun = false → ∀ cleared, splitOptionalPath request.path = .ok cleared →
      ¬ cleared <+: parts → ¬ UnderLapsed board nowMs parts
  | .read _ | .listKeys _ | .readResource _ _ => ¬ UnderLapsed board nowMs parts
  | _ => True

/-- The call spares every path of the metadata that has not lapsed. -/
def KeepsDescribed (file : File) (call : Call) : Prop :=
  ∀ path entry parts, (boardOf file).meta.get path = some entry → entry.lapsed call.nowMs = false →
    blackboardSplitPath path = .ok parts → Spares (boardOf file) call.nowMs parts call.operation

/-! ## Sweeps -/

/-- What does not lie under a lapsed member still resolves after a sweep. -/
theorem resolves_of_sweep {board swept : Board} {nowMs : Int} {dropped : Bool} {parts : List String} {w : Json}
    (h : sweepExpired board nowMs = .ok (dropped, swept)) (hres : (Json.object board.state).resolve parts = some w)
    (hnot : ¬ UnderLapsed board nowMs parts) : ∃ w', (Json.object swept.state).resolve parts = some w' := by
  refine sweep_induct (P := fun state => ∃ w', (Json.object state).resolve parts = some w') h ⟨w, hres⟩ ?_
  rintro path hlapsed above s s' habove ⟨u, hu⟩ herase
  exact Json.resolves_eraseMember herase (legalPath_of_split habove).ne_nil
    (fun _ hunder => hnot ⟨path, above, hlapsed, habove, hunder⟩) hu

theorem meta_of_sweep_some {board swept : Board} {nowMs : Int} {dropped : Bool} {path : String} {entry : Meta}
    (h : sweepExpired board nowMs = .ok (dropped, swept)) (hentry : swept.meta.get path = some entry) :
    board.meta.get path = some entry ∧ entry.lapsed nowMs = false := by
  rw [get_meta_of_sweep h, Option.filter_eq_some_iff] at hentry
  simpa using hentry

/-! ## What the calls leave described -/

section Steps
variable {loaded swept board : Board} {nowMs : Int} {dropped : Bool}

/-- A sweep keeps a board described that has nothing unlapsed under a lapsed member. -/
theorem Described.sweep (h : Described loaded) (hsweep : sweepExpired loaded nowMs = .ok (dropped, swept))
    (hnot : ∀ path entry parts, loaded.meta.get path = some entry → entry.lapsed nowMs = false →
      blackboardSplitPath path = .ok parts → ¬ UnderLapsed loaded nowMs parts) : Described swept := by
  intro path entry hentry
  obtain ⟨hloaded, hlapsed⟩ := meta_of_sweep_some hsweep hentry
  obtain ⟨parts, w, hparts, hjoin, hres⟩ := h path entry hloaded
  obtain ⟨w', hw'⟩ := resolves_of_sweep hsweep hres (hnot path entry parts hloaded hlapsed hparts)
  exact ⟨parts, w', hparts, hjoin, hw'⟩

theorem Described.write {request : BlackboardWriteRequest} {written : List String} {plan : WritePlan}
    (h : Described loaded) (hreal : request.dryRun = false)
    (hwritten : blackboardSplitPath request.path = .ok written)
    (hsweep : sweepExpired loaded nowMs = .ok (dropped, swept))
    (hplan : WritePlanned request written nowMs swept plan)
    (hspares : ∀ path entry parts, loaded.meta.get path = some entry → entry.lapsed nowMs = false →
      blackboardSplitPath path = .ok parts → Spares loaded nowMs parts (.write request)) :
    Described plan.board := by
  obtain ⟨⟨state, hstate, hboard⟩, -, -⟩ := hplan
  rw [hboard]
  intro path entry hentry
  have hwrote := (holds_writeAt (legalPath_of_split hwritten).ne_nil hstate).resolve
  rw [OrderedMap.get_insert] at hentry
  split_ifs at hentry with hpath
  · exact ⟨written, _, by rw [hpath]; exact splitPath_joinPath hwritten, hpath.symm, hwrote⟩
  · obtain ⟨hloaded, hlapsed⟩ := meta_of_sweep_some hsweep hentry
    obtain ⟨parts, w, hparts, hjoin, hres⟩ := h path entry hloaded
    obtain ⟨hinside, hbeside⟩ := hspares path entry parts hloaded hlapsed hparts hreal written hwritten
    have hresolves : ∃ w', (Json.object state).resolve parts = some w' := by
      by_cases hbelow : written <+: parts
      · obtain ⟨rest, rfl⟩ := hbelow
        obtain ⟨w', hw'⟩ := hinside rest rfl
        exact ⟨w', by rw [Json.resolve_append, hwrote, Option.bind_some, hw']⟩
      · by_cases habove : parts <+: written
        · obtain ⟨rest, rfl⟩ := habove
          obtain ⟨w', hw', -⟩ := Json.resolve_prefix hwrote
          exact ⟨w', hw'⟩
        · obtain ⟨w', hw'⟩ := resolves_of_sweep hsweep hres (hbeside hbelow habove)
          exact ⟨w', (resolve_writeAt_of_unrelated hbelow habove hstate).trans hw'⟩
    obtain ⟨w', hw'⟩ := hresolves
    exact ⟨parts, w', hparts, hjoin, hw'⟩

/-- What a patch leaves of the metadata resolves in the patched tree. -/
theorem Described.patch {request : BlackboardPatchRequest} {operations : List Json} {plan : Board}
    (h : Described loaded) (hsweep : sweepExpired loaded nowMs = .ok (dropped, swept))
    (hplan : PatchPlanned request operations swept plan) : Described plan := by
  intro path entry hentry
  rw [OrderedMap.get_filterM hplan.described, Option.filter_eq_some_iff] at hentry
  obtain ⟨hentry, hdescribes⟩ := hentry
  obtain ⟨parts, w, hparts, hjoin, -⟩ := h path entry (meta_of_sweep_some hsweep hentry).1
  have hcontains : (Json.object plan.state).contains parts = .ok true := by
    have hdescribed : describes (.object plan.state) path = (Json.object plan.state).contains parts := by
      unfold describes
      rw [hparts]
      dsimp only
      rw [pointerFor_eq]
      rfl
    rw [hdescribed] at hdescribes
    split at hdescribes
    · assumption
    · cases hdescribes
  obtain ⟨w', hw'⟩ := Json.contains_eq_true.mp hcontains
  exact ⟨parts, w', hparts, hjoin, hw'⟩

theorem Described.clear {request : BlackboardClearRequest} {cleared : List String} {plan : ClearEvent × Board}
    (h : Described loaded) (hreal : request.dryRun = false)
    (hcleared : splitOptionalPath request.path = .ok cleared)
    (hsweep : sweepExpired loaded nowMs = .ok (dropped, swept))
    (hplan : ClearPlanned request nowMs swept cleared plan)
    (hspares : ∀ path entry parts, loaded.meta.get path = some entry → entry.lapsed nowMs = false →
      blackboardSplitPath path = .ok parts → Spares loaded nowMs parts (.clear request)) :
    Described plan.2 := by
  cases hplan with
  | all =>
    intro path entry hentry
    cases hentry
  | path hne hremoved hleft =>
    obtain ⟨herased, -, hgone, -⟩ := clearPath_ok (hleft hreal)
    intro path entry hentry
    rw [recordClear, hgone, get_eraseAll] at hentry
    split_ifs at hentry with hdead
    obtain ⟨hloaded, hlapsed⟩ := meta_of_sweep_some hsweep hentry
    obtain ⟨parts, w, hparts, hjoin, hres⟩ := h path entry hloaded
    have hlegal := legalPath_of_split (split_of_splitOptional hcleared hne)
    have houtside : ¬ cleared <+: parts := by
      rintro ⟨rest, hrest⟩
      refine hdead (OrderedMap.mem_keys.mpr ⟨entry, ?_⟩)
      rw [OrderedMap.get_filter, hentry, Option.filter_eq_some_iff]
      refine ⟨rfl, ?_⟩
      rw [← hjoin]
      cases rest with
      | nil =>
        rw [List.append_nil] at hrest
        simp [hrest]
      | cons k ks =>
        have hunder := (underPath_joinPath hlegal (legalPath_of_split hparts)).mpr ⟨k :: ks, List.cons_ne_nil k ks,
          hrest.symm⟩
        simp [hunder]
    obtain ⟨w', hw'⟩ := resolves_of_sweep hsweep hres
      (hspares path entry parts hloaded hlapsed hparts hreal cleared hcleared houtside)
    obtain ⟨w'', hw''⟩ := Json.resolves_alterAt_erase herased (by rwa [Json.concat_of_ne_nil hne]) hw'
    exact ⟨parts, w'', hparts, hjoin, hw''⟩

end Steps

/-- **A call that spares what the metadata describes leaves the board described.** -/
theorem step_described {file : File} {call : Call} (hkeeps : KeepsDescribed file call)
    (h : Described (boardOf file)) : Described (boardOf (step file call).2) := by
  obtain ⟨operation, nowMs⟩ := call
  have hmove := step_keyMove file ⟨operation, nowMs⟩
  generalize boardOf (step file ⟨operation, nowMs⟩).2 = board at hmove
  dsimp only at hmove
  cases hmove with
  | kept => exact h
  | swept hsaves hsweep =>
    refine h.sweep hsweep fun path entry parts hentry hlapsed hparts => ?_
    have hspares := hkeeps path entry parts hentry hlapsed hparts
    cases operation <;> first | exact hspares | cases hsaves
  | wrote hreal hparts hsweep hplan => exact h.write hreal hparts hsweep hplan hkeeps
  | patched hreal hoperations hsweep hplan => exact h.patch hsweep hplan
  | cleared hreal hparts hsweep hplan => exact h.clear hreal hparts hsweep hplan hkeeps

/-- **Metadata describes only what exists**, in every board that is reached from the empty one by
calls that spare what the metadata describes. -/
theorem metadata_describes {calls : List Call} (hkeeps : Run.Along step KeepsDescribed none calls)
    {path : String} {entry : Meta} (hentry : (boardOf (Run.exec step none calls)).meta.get path = some entry) :
    ∃ parts w, blackboardSplitPath path = .ok parts ∧
      (Json.object (boardOf (Run.exec step none calls)).state).resolve parts = some w := by
  have hdescribed : Described (boardOf (Run.exec step none calls)) :=
    Run.exec_of_along (P := fun file => Described (boardOf file)) (fun _ _ => step_described) hkeeps
      fun path entry h => by cases h
  obtain ⟨parts, w, hparts, -, hres⟩ := hdescribed path entry hentry
  exact ⟨parts, w, hparts, hres⟩

/-! A value written over a container leaves the metadata of what was in it. -/

def sampleNested : Call := ⟨.write { path := "a.b", value := .integer 1 }, 0⟩
def sampleFlat : Call := ⟨.write { path := "a", value := .integer 2 }, 1⟩
def sampleEntry : Meta := { updatedAtMs := 0, author := none, reason := none, expiresAtMs := none }
def sampleBeside : Call := ⟨.write { path := "a.c", value := .integer 3 }, 1⟩

theorem metadata_dangles :
    ∃ entry, (boardOf (Run.exec step none [sampleNested, sampleFlat])).meta.get "a.b" = some entry ∧
      blackboardSplitPath "a.b" = .ok ["a", "b"] ∧
      (Json.object (boardOf (Run.exec step none [sampleNested, sampleFlat])).state).resolve ["a", "b"] = none := by
  have hentry : ((boardOf (Run.exec step none [sampleNested, sampleFlat])).meta.get "a.b").isSome = true := by
    decide +kernel
  obtain ⟨entry, hentry⟩ := Option.isSome_iff_exists.mp hentry
  exact ⟨entry, hentry, rfl, by decide +kernel⟩

/-- A value written beside it leaves the board described. -/
theorem metadata_describes_beside :
    ∃ parts w, blackboardSplitPath "a.b" = .ok parts ∧
      (Json.object (boardOf (Run.exec step none [sampleNested, sampleBeside])).state).resolve parts = some w := by
  have hfirst : KeepsDescribed none sampleNested := fun path entry parts h => by cases h
  have hkept : (lapsedEntries (boardOf (step none sampleNested).2) sampleBeside.nowMs).isEmpty = true := by
    decide +kernel
  have hsecond : KeepsDescribed (step none sampleNested).2 sampleBeside := by
    intro path entry parts hentry _ hparts _ written hwritten
    have hentries : (boardOf (step none sampleNested).2).meta.entries = [("a.b", sampleEntry)] := by decide +kernel
    have hmem := OrderedMap.get_eq_some.mp hentry
    rw [hentries] at hmem
    obtain ⟨rfl, rfl⟩ := Prod.mk.inj (List.mem_singleton.mp hmem)
    obtain rfl : ["a", "b"] = parts := Except.ok.inj hparts
    obtain rfl : ["a", "c"] = written := Except.ok.inj hwritten
    refine ⟨fun rest h => absurd h (by simp), fun _ _ => ?_⟩
    rintro ⟨q, above, hlapsed, -⟩
    exact not_lapsedMember hkept q hlapsed
  have hentry : (boardOf (Run.exec step none [sampleNested, sampleBeside])).meta.get "a.b" = some sampleEntry := by
    decide +kernel
  exact metadata_describes (Run.along_cons hfirst (Run.along_cons hsecond (Run.along_nil _ _))) hentry

end Didi.Blackboard
