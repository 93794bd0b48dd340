import Didi.Blackboard.Size
import Didi.Blackboard.Pins

/-!
# Values without an expiry

* `Kept` : the tree holds a value at a path whose own metadata has no expiry;
* `LeavesAlone` : an operation names neither the path nor what lies above or below it;
* `SparesPath` : the sweep that a call stores finds no lapsed member above or below the path;
* `unexpiring_value_is_read` : after calls of both kinds, a read of the path finds the value.
-/

namespace Didi.Blackboard
open Locked JsonPointer

/-- The tree holds the value, and the metadata of its path has no expiry. -/
structure Kept (parts : List String) (value : Json) (board : Board) : Prop where
  held : (Json.object board.state).Holds parts value
  unexpiring : ∀ entry, board.meta.get (joinPath parts) = some entry → entry.expiresAtMs = none

/-- The operation changes nothing, or names neither the path nor what lies above or below it. -/
def LeavesAlone (parts : List String) : Operation → Prop
  | .write request => request.dryRun = false → ∀ q, blackboardSplitPath request.path = .ok q → Unrelated q parts
  | .patch request => request.dryRun = false → ∀ operations, elementsOf request.operations = some operations →
      ∀ operation ∈ operations, ∀ ptr, Json.NamedBy operation ptr → Unrelated ptr parts
  | .clear request => request.dryRun = false → ∀ q, splitOptionalPath request.path = .ok q → Unrelated q parts
  | _ => True

/-- At this time, no lapsed member of the tree but the path itself lies above or below it. -/
def SparesAt (parts : List String) (board : Board) (nowMs : Int) : Prop :=
  ∀ path lapsed, LapsedMember board nowMs path → path ≠ joinPath parts →
    blackboardSplitPath path = .ok lapsed → Unrelated lapsed parts

/-- Whether an operation can store the board that its sweep leaves. -/
def Operation.storesSweep (operation : Operation) : Bool :=
  operation.savesSweep || operation.sweeps && !operation.isLook

/-- The sweep that the call stores spares the path. -/
def SparesPath (parts : List String) (file : File) (call : Call) : Prop :=
  call.operation.storesSweep = true → SparesAt parts (boardOf file) call.nowMs

section Steps
variable {parts : List String} {value : Json} {loaded swept : Board} {nowMs : Int} {dropped : Bool}

theorem not_lapsed_of_unexpiring {entry : Meta} (h : entry.expiresAtMs = none) : entry.lapsed nowMs = false := by
  rw [Meta.lapsed, h]

/-- A sweep that spares the path keeps its value: the metadata of the path itself does not lapse. -/
theorem Kept.sweep (h : Kept parts value loaded) (hspares : SparesAt parts loaded nowMs)
    (hsweep : sweepExpired loaded nowMs = .ok (dropped, swept)) : Kept parts value swept := by
  refine ⟨?_, fun entry hentry => ?_⟩
  · refine sweep_induct (P := fun state => (Json.object state).Holds parts value) hsweep h.held ?_
    intro path hlapsed above s s' habove hs herase
    refine hs.eraseMember herase (legalPath_of_split habove).ne_nil fun _ => ?_
    refine hspares path above hlapsed ?_ habove
    rintro rfl
    obtain ⟨⟨entry, hentry, hexpired⟩, -⟩ := hlapsed
    rw [not_lapsed_of_unexpiring (h.unexpiring entry hentry)] at hexpired
    cases hexpired
  · rw [get_meta_of_sweep hsweep, Option.filter_eq_some_iff] at hentry
    exact h.unexpiring entry hentry.1

theorem Kept.write (h : Kept parts value swept) (hlegal : LegalPath parts) {request : BlackboardWriteRequest}
    {written : List String} {plan : WritePlan} (hwritten : blackboardSplitPath request.path = .ok written)
    (hplan : WritePlanned request written nowMs swept plan) (hunrelated : Unrelated written parts) :
    Kept parts value plan.board := by
  obtain ⟨⟨state, hstate, hboard⟩, -, -⟩ := hplan
  rw [hboard]
  refine ⟨holds_of_writeAt hunrelated hstate h.held, fun entry hentry => ?_⟩
  have hne : joinPath parts ≠ joinPath written := by
    intro heq
    have hsame := joinPath_injective hlegal (legalPath_of_split hwritten) heq
    exact hunrelated.1 (hsame ▸ List.prefix_refl _)
  rw [OrderedMap.get_insert_of_ne _ _ hne] at hentry
  exact h.unexpiring entry hentry

theorem holds_of_applyOperations {patched patched' : Json} {index : Nat} {operations : List Json}
    (hheld : patched.Holds parts value) (h : applyOperations patched index operations = .ok patched')
    (halone : ∀ operation ∈ operations, ∀ ptr, Json.NamedBy operation ptr → Unrelated ptr parts) :
    patched'.Holds parts value := by
  induction operations generalizing patched index with
  | nil =>
    cases h
    exact hheld
  | cons operation operations ih =>
    rw [applyOperations] at h
    split at h
    · cases h
    · split at h
      · rename_i next hnext
        exact ih (hheld.patchOne hnext (halone operation List.mem_cons_self)) h
          fun other hother => halone other (List.mem_cons_of_mem _ hother)
      · cases h

theorem Kept.patch (h : Kept parts value swept) {request : BlackboardPatchRequest} {operations : List Json}
    {plan : Board} (hplan : PatchPlanned request operations swept plan)
    (halone : ∀ operation ∈ operations, ∀ ptr, Json.NamedBy operation ptr → Unrelated ptr parts) :
    Kept parts value plan := by
  refine ⟨holds_of_applyOperations h.held hplan.applied halone, fun entry hentry => ?_⟩
  rw [OrderedMap.get_filterM hplan.described, Option.filter_eq_some_iff] at hentry
  exact h.unexpiring entry hentry.1

theorem Kept.clear (h : Kept parts value swept) {request : BlackboardClearRequest} {cleared : List String}
    {plan : ClearEvent × Board} (hreal : request.dryRun = false)
    (hplan : ClearPlanned request nowMs swept cleared plan) (hunrelated : Unrelated cleared parts) :
    Kept parts value plan.2 := by
  cases hplan with
  | all => exact absurd List.nil_prefix hunrelated.1
  | path hne hremoved hleft =>
    obtain ⟨herased, -, hgone, -⟩ := clearPath_ok (hleft hreal)
    refine ⟨?_, fun entry hentry => ?_⟩
    · refine h.held.alterAt_member herased (Json.keepsOthers_erase _) ?_
      rw [Json.concat_of_ne_nil hne]
      exact hunrelated
    · rw [recordClear, hgone, get_eraseAll] at hentry
      split_ifs at hentry
      exact h.unexpiring entry hentry

end Steps

/-- **A call that leaves the path alone and spares it keeps its value.** -/
theorem step_kept {parts : List String} {value : Json} (hlegal : LegalPath parts) {file : File} {call : Call}
    (halone : LeavesAlone parts call.operation) (hspares : SparesPath parts file call)
    (h : Kept parts value (boardOf file)) : Kept parts value (boardOf (step file call).2) := by
  obtain ⟨operation, nowMs⟩ := call
  have hmove := step_keyMove file ⟨operation, nowMs⟩
  generalize boardOf (step file ⟨operation, nowMs⟩).2 = board at hmove
  dsimp only at hmove
  have real : ∀ dropped swept, operation.sweeps = true → operation.isLook = false →
      sweepExpired (boardOf file) nowMs = .ok (dropped, swept) → Kept parts value swept := by
    intro dropped swept hsweeps hreal hsweep
    exact h.sweep (hspares (by simp [Operation.storesSweep, hsweeps, hreal])) hsweep
  cases hmove with
  | kept => exact ⟨h.held, h.unexpiring⟩
  | swept hsaves hsweep => exact h.sweep (hspares (by simp [Operation.storesSweep, hsaves])) hsweep
  | wrote hreal hparts hsweep hplan =>
    exact (real _ _ rfl hreal hsweep).write hlegal hparts hplan (halone hreal _ hparts)
  | patched hreal hoperations hsweep hplan =>
    exact (real _ _ rfl hreal hsweep).patch hplan (halone hreal _ hoperations)
  | cleared hreal hparts hsweep hplan =>
    exact (real _ _ rfl hreal hsweep).clear hreal hplan (halone hreal _ hparts)

/-- A write that succeeds keeps its value, when it has no ttl. -/
theorem kept_of_write {file : File} {request : BlackboardWriteRequest} {nowMs : Int} {parts : List String}
    (hparts : blackboardSplitPath request.path = .ok parts) (hreal : request.dryRun = false)
    (httl : request.ttlSeconds = none) (hok : succeeded (step file ⟨.write request, nowMs⟩).1 = true) :
    Kept parts request.value (boardOf (step file ⟨.write request, nowMs⟩).2) ∧
      isLegalBoardName request.board = true ∧ Loads (step file ⟨.write request, nowMs⟩).2 := by
  have hspec : ((Operation.write request).perform nowMs).wp (fun r file' => succeeded r = true →
      Kept parts request.value (boardOf file') ∧ isLegalBoardName request.board = true ∧ Loads file') file := by
    refine wp_perform (wp_mono (blackboardWrite_spec request nowMs file) fun r file' h hok => ?_)
    rcases h with ⟨⟨e, rfl⟩, -⟩ | ⟨parts', dropped, swept, plan, hparts', hallowed, -, -, hplan, -, h⟩
    · cases hok
    · obtain rfl : parts = parts' := Except.ok.inj (hparts.symm.trans hparts')
      obtain ⟨⟨state, hwritten, hboard⟩, -, hentry⟩ := planWrite_ok hplan
      rcases h with ⟨hdry, -⟩ | ⟨-, hsize, rfl⟩
      · rw [hdry] at hreal
        cases hreal
      · refine ⟨⟨?_, fun entry hget => ?_⟩, hallowed.board, fun board h => by cases h; exact hsize⟩
        · change (Json.object plan.board.state).Holds parts request.value
          rw [hboard]
          exact holds_writeAt (legalPath_of_split hparts).ne_nil hwritten
        · change plan.board.meta.get _ = _ at hget
          rw [hboard, OrderedMap.get_insert_self] at hget
          cases hget
          rw [hentry, httl]
          rfl
  exact hspec hok

/-- A read of a path whose value is held finds it. -/
theorem read_finds {file : File} {request : BlackboardReadRequest} {nowMs : Int} {parts : List String}
    {value : Json} {dropped : Bool} {swept : Board} (hparts : splitOptionalPath request.path = .ok parts)
    (hname : isLegalBoardName request.board = true) (hloads : Loads file)
    (hsweep : sweepExpired (boardOf file) nowMs = .ok (dropped, swept)) (hkept : Kept parts value swept) :
    foundValue (step file ⟨.read request, nowMs⟩).1 =
      some (if request.deep then value else shallowView value) := by
  have hstep : (step file ⟨.read request, nowMs⟩).1 = ((blackboardRead request nowMs).run file).1.map .read :=
    congrArg Prod.fst (run_perform _ _ _)
  have hcontains := Json.contains_eq_true.mpr ⟨value, hkept.held.resolve⟩
  have hat := Json.atPointer_of_resolve hkept.held.resolve
  rw [hstep, run_read request hparts hname hloads, hsweep]
  change foundValue (((readSwept request parts swept).mapError Failure.exception).map Answer.read) = _
  unfold readSwept
  rw [pointerFor_eq]
  change foundValue ((((Json.object swept.state).contains parts >>= _).mapError Failure.exception).map Answer.read) = _
  rw [hcontains]
  change foundValue ((((Json.object swept.state).atPointer parts >>= _).mapError Failure.exception).map Answer.read) = _
  rw [hat]
  rfl

/-- **Expiry removes only what was asked to expire.** After a write without a ttl that stored a value,
and any calls that name neither its path nor what lies above or below it, a read of the path at any
clock reading finds the value, as long as no sweep that is stored, and not that of the read, drops a
lapsed member above or below the path, and the sweep of the read does not throw. -/
theorem unexpiring_value_is_read {file : File} {write : BlackboardWriteRequest} {writeMs readMs : Int}
    {parts : List String} {between : List Call} {read : BlackboardReadRequest}
    (hparts : blackboardSplitPath write.path = .ok parts) (hreal : write.dryRun = false)
    (httl : write.ttlSeconds = none) (hok : succeeded (step file ⟨.write write, writeMs⟩).1 = true)
    (halone : ∀ call ∈ between, LeavesAlone parts call.operation)
    (hspares : Run.Along step (SparesPath parts) (step file ⟨.write write, writeMs⟩).2 between)
    (hread : splitOptionalPath read.path = .ok parts) (hboard : read.board = write.board)
    (hlast : SparesAt parts (boardOf (Run.exec step file ([⟨.write write, writeMs⟩] ++ between))) readMs)
    (hsweep : ∃ sweep, sweepExpired (boardOf (Run.exec step file ([⟨.write write, writeMs⟩] ++ between))) readMs =
      .ok sweep) :
    foundValue (step (Run.exec step file ([⟨.write write, writeMs⟩] ++ between)) ⟨.read read, readMs⟩).1 =
      some (if read.deep then write.value else shallowView write.value) := by
  obtain ⟨hkept, hname, hloads⟩ := kept_of_write hparts hreal httl hok
  have hlegal := legalPath_of_split hparts
  have hcalls : Run.Along step (fun file call => LeavesAlone parts call.operation ∧ SparesPath parts file call)
      (step file ⟨.write write, writeMs⟩).2 between := hspares.and (Run.along_of_forall halone)
  have hrun := Run.exec_of_along (P := fun file => Kept parts write.value (boardOf file) ∧ Loads file)
    (fun _ _ hcall h => ⟨step_kept hlegal hcall.1 hcall.2 h.1, step_loads h.2⟩) hcalls ⟨hkept, hloads⟩
  obtain ⟨⟨dropped, swept⟩, hswept⟩ := hsweep
  exact read_finds hread (hboard ▸ hname) hrun.2 hswept (hrun.1.sweep hlast hswept)

/-! A value that was written into a container with a ttl goes with the container. -/

def sampleLapsing : Call := ⟨.write { path := "a", value := .object [], ttlSeconds := some 1 }, 0⟩
def sampleLasting : BlackboardWriteRequest := { path := "a.b", value := .integer 1 }
def sampleElsewhere : Call := ⟨.write { path := "a.c", value := .integer 2, ttlSeconds := some 1 }, 2⟩

theorem unexpiring_value_lapses :
    let file := Run.exec step none [sampleLapsing]
    let write : Call := ⟨.write sampleLasting, 1⟩
    let read := step (step file write).2 ⟨.read sampleInnerRead, 2000⟩
    sampleLasting.ttlSeconds = none ∧ succeeded (step file write).1 = true ∧
      succeeded read.1 = true ∧ foundValue read.1 = none :=
  ⟨rfl, by decide +kernel, by decide +kernel, by decide +kernel⟩

/-- What lapses beside it leaves it there. -/
theorem unexpiring_value_is_read_beside :
    foundValue (step (Run.exec step none ([⟨.write sampleLasting, 1⟩] ++ [sampleElsewhere]))
      ⟨.read sampleInnerRead, 2000⟩).1 = some (.integer 1) := by
  have halone : ∀ call ∈ [sampleElsewhere], LeavesAlone ["a", "b"] call.operation := by
    intro call hcall
    obtain rfl := List.mem_singleton.mp hcall
    intro _ q hq
    obtain rfl : ["a", "c"] = q := Except.ok.inj hq
    exact ⟨by decide, by decide⟩
  have hunlapsed : (lapsedEntries (boardOf (step none ⟨.write sampleLasting, 1⟩).2) sampleElsewhere.nowMs).isEmpty
      = true := by
    decide +kernel
  have hspares : SparesPath ["a", "b"] (step none ⟨.write sampleLasting, 1⟩).2 sampleElsewhere :=
    fun _ path _ hlapsed => (not_lapsedMember hunlapsed path hlapsed).elim
  have hsweep : (sweepExpired (boardOf (Run.exec step none ([⟨.write sampleLasting, 1⟩] ++ [sampleElsewhere])))
      2000).toOption.isSome = true := by
    decide +kernel
  obtain ⟨sweep, hsweep⟩ := Option.isSome_iff_exists.mp hsweep
  refine unexpiring_value_is_read rfl rfl rfl (by decide +kernel) halone
    (Run.along_cons hspares (Run.along_nil _ _)) rfl rfl ?_ ⟨sweep, Except.toOption_eq_some.mp hsweep⟩
  rintro path lapsed ⟨⟨entry, hentry, hexpired⟩, -⟩ hne hsplit
  have hmem := OrderedMap.get_eq_some.mp hentry
  have hpaths : ((boardOf (Run.exec step none ([⟨.write sampleLasting, 1⟩] ++ [sampleElsewhere]))).meta.entries.map
      Prod.fst) = ["a.b", "a.c"] := by
    decide +kernel
  have hpath : path ∈ ["a.b", "a.c"] := hpaths ▸ List.mem_map_of_mem hmem
  rcases List.mem_cons.mp hpath with rfl | hpath
  · exact absurd rfl hne
  · obtain rfl := List.mem_singleton.mp hpath
    obtain rfl : ["a", "c"] = lapsed := Except.ok.inj hsplit
    exact ⟨by decide, by decide⟩

end Didi.Blackboard
