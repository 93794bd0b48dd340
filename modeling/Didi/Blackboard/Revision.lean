import Didi.Blackboard.Pins

/-!
# The revision as a version of the tree

Each call that stores what it was asked for moves the revision on. A sweep that a look stores does
not, so the revision is a version of the tree only as long as no look drops a lapsed member.

* `Since` : the board has not gone behind a revision, and at that revision it has the tree;
* `KeepsTree`, `since_of_run` : calls that keep the board so;
* `revisions_of_run` : the stored changes of a run are answered one revision after another;
* `patch_applies_to_read` : a patch pinned to the revision of a read applies to the tree that was read.
-/

namespace Didi.Blackboard
open Locked
variable {file : File} {state : JsonObject}

/-- The board is at the revision or later, and at that revision it has this tree. -/
structure Since (revision : Int) (state : JsonObject) (board : Board) : Prop where
  le : revision ≤ board.revision
  same : board.revision = revision → board.state = state

/-- A board that moved the revision on may have any tree. -/
theorem Since.of_succ {revision before : Int} {board : Board} (hle : revision ≤ before)
    (hboard : board.revision = before + 1) : Since revision state board :=
  ⟨by omega, fun he => by omega⟩

theorem Since.of_eq {revision : Int} {board board' : Board} (h : Since revision state board)
    (hrevision : board'.revision = board.revision)
    (hstate : board'.state = board.state) : Since revision state board' :=
  ⟨by rw [hrevision]; exact h.le, fun he => by rw [hstate]; exact h.same (by rw [← he, hrevision])⟩

/-- A look, which stores its sweep, finds no lapsed member of the tree. -/
def KeepsTree (file : File) (call : Call) : Prop :=
  call.operation.savesSweep = true → ∀ path, ¬ LapsedMember (boardOf file) call.nowMs path

/-- **A call that keeps the tree keeps the revision a version of it.** -/
theorem step_since {call : Call} {revision : Int} (hkeeps : KeepsTree file call)
    (hsince : Since revision state (boardOf file)) :
    Since revision state (boardOf (step file call).2) := by
  obtain ⟨operation, nowMs⟩ := call
  have hmove := step_keyMove file ⟨operation, nowMs⟩
  generalize boardOf (step file ⟨operation, nowMs⟩).2 = board at hmove
  have hle := hsince.le
  dsimp only at hmove
  cases hmove with
  | kept => exact hsince.of_eq rfl rfl
  | swept hsaves hsweep =>
    exact hsince.of_eq (sweepExpired_frame hsweep).revision (state_of_sweep hsweep (hkeeps hsaves))
  | wrote hreal hparts hsweep hplan =>
    obtain ⟨⟨written, -, hboard⟩, -, -⟩ := hplan
    rw [← (sweepExpired_frame hsweep).revision] at hle
    rw [hboard]
    exact .of_succ hle rfl
  | patched hreal hoperations hsweep hplan =>
    rw [← (sweepExpired_frame hsweep).revision] at hle
    rw [hplan.board]
    exact .of_succ hle rfl
  | cleared hreal hparts hsweep hplan =>
    rw [← (sweepExpired_frame hsweep).revision] at hle
    cases hplan with
    | all => exact .of_succ hle rfl
    | path hne hremoved hleft =>
      rw [(clearPath_ok (hleft hreal)).board]
      exact .of_succ hle rfl

theorem since_of_run {calls : List Call} {revision : Int} (hkeeps : Run.Along step KeepsTree file calls)
    (hsince : Since revision state (boardOf file)) :
    Since revision state (boardOf (Run.exec step file calls)) :=
  Run.exec_of_along (fun _ _ => step_since) hkeeps hsince

/-- The revision that a read answered. -/
def reportedRevision (r : Except Failure Answer) : Option Int :=
  match r with
  | .ok (.read answer) => some answer.revision
  | _ => none

/-- A read answers the revision of the board that it leaves. -/
theorem revision_read {request : BlackboardReadRequest} {nowMs revision : Int}
    (h : reportedRevision (step file ⟨.read request, nowMs⟩).1 = some revision) :
    (boardOf (step file ⟨.read request, nowMs⟩).2).revision = revision := by
  have hspec : ((Operation.read request).perform nowMs).wp
      (fun r file' => reportedRevision r = some revision → (boardOf file').revision = revision) file := by
    refine wp_perform (wp_mono (blackboardRead_spec request nowMs file) fun r file' h hreport => ?_)
    rcases h with ⟨⟨e, rfl⟩, -⟩ | ⟨parts, swept, -, -, hswept, rfl⟩
    · cases hreport
    · cases hread : readSwept request parts swept with
      | error e =>
        rw [hread] at hreport
        cases hreport
      | ok answer =>
        rw [hread] at hreport
        rw [hswept.boardOf, ← (readSwept_ok hread).revision]
        exact Option.some.inj hreport
  exact hspec h

/-! ### Each stored change takes the next revision -/

/-- The revision that a change was stored at, as its answer says. -/
def storedRevision : Except Failure Answer → Option Int
  | .ok (.write answer) => if answer.dryRun then none else some answer.revision
  | .ok (.patch answer) => if answer.dryRun then none else some answer.revision
  | .ok (.clear answer) => if answer.dryRun then none else answer.revision
  | _ => none

/-- A change is stored at the next revision, or the revision is left. -/
def Counts (revision : Int) (r : Except Failure Answer) (file' : File) : Prop :=
  storedRevision r = none ∧ (boardOf file').revision = revision ∨
    storedRevision r = some (revision + 1) ∧ (boardOf file').revision = revision + 1

theorem step_counts (file : File) (call : Call) :
    Counts (boardOf file).revision (step file call).1 (step file call).2 := by
  obtain ⟨operation, nowMs⟩ := call
  have hmove := step_keyMove file ⟨operation, nowMs⟩
  have hquiet : ∀ {α : Type} (m : BoardM α) (f : α → Answer), (∀ a, storedRevision (.ok (f a)) = none) →
      storedRevision ((do return f (← m) : BoardM Answer).run file).1 = none := by
    intro α m f hf
    rw [run_perform]
    cases (m.run file).1 with
    | ok a => exact hf a
    | error e => rfl
  cases operation with
  | write request =>
    show ((Operation.write request).perform nowMs).wp (Counts _) file
    apply wp_perform
    refine wp_mono (blackboardWrite_spec request nowMs file) fun r file' h => ?_
    rcases h with ⟨⟨e, rfl⟩, rfl⟩ | ⟨parts, dropped, swept, plan, -, -, -, hsweep, hplan, rfl, h⟩
    · exact .inl ⟨rfl, rfl⟩
    · rcases h with ⟨hdry, rfl⟩ | ⟨hreal, -, rfl⟩
      · exact .inl ⟨if_pos hdry, rfl⟩
      · obtain ⟨⟨written, -, hboard⟩, -, -⟩ := planWrite_ok hplan
        rw [← (sweepExpired_frame hsweep).revision]
        refine .inr ⟨by simp [storedRevision, Except.map, writeAnswer, hreal], ?_⟩
        rw [boardOf, hboard]
        rfl
  | patch request =>
    show ((Operation.patch request).perform nowMs).wp (Counts _) file
    apply wp_perform
    refine wp_mono (blackboardPatch_spec request nowMs file) fun r file' h => ?_
    rcases h with ⟨⟨e, rfl⟩, rfl⟩ | ⟨operations, dropped, swept, plan, -, -, hsweep, hplan, rfl, h⟩
    · exact .inl ⟨rfl, rfl⟩
    · rcases h with ⟨hdry, rfl⟩ | ⟨hreal, -, rfl⟩
      · exact .inl ⟨if_pos hdry, rfl⟩
      · have hboard : plan.revision = swept.revision + 1 := by rw [(planPatch_ok hplan).board]
        rw [← (sweepExpired_frame hsweep).revision]
        exact .inr ⟨by simp [storedRevision, Except.map, patchAnswer, hreal, hboard], hboard⟩
  | clear request =>
    show ((Operation.clear request).perform nowMs).wp (Counts _) file
    apply wp_perform
    refine wp_mono (blackboardClear_spec request nowMs file) fun r file' h => ?_
    rcases h with ⟨⟨e, rfl⟩, rfl⟩ | ⟨parts, dropped, swept, plan, -, -, hsweep, hplan, h⟩
    · exact .inl ⟨rfl, rfl⟩
    · rcases h with ⟨-, rfl, rfl⟩ | ⟨event, left, rfl, rfl, ⟨hdry, rfl⟩ | ⟨hreal, -, rfl⟩⟩
      · exact .inl ⟨ite_self _, rfl⟩
      · exact .inl ⟨if_pos hdry, rfl⟩
      · rw [← (sweepExpired_frame hsweep).revision]
        refine .inr ⟨by simp [storedRevision, Except.map, clearAnswer, hreal], ?_⟩
        cases planClear_some hplan with
        | all => rfl
        | path hne hremoved hleft => rw [boardOf, (clearPath_ok (hleft hreal)).board]; rfl
  | _ =>
    refine .inl ⟨hquiet _ _ fun _ => rfl, ?_⟩
    generalize boardOf (step _ _).2 = board at hmove ⊢
    cases hmove with
    | kept => rfl
    | swept hsaves hsweep => exact (sweepExpired_frame hsweep).revision

/-- **No change is lost and none counts twice.** The changes that a run of calls stores are answered one revision after
another, with none left out and none twice, and the board ends at the last. -/
theorem revisions_of_run (file : File) (calls : List Call) :
    let told := (Run.answers step file calls).filterMap storedRevision
    told = (List.range told.length).map (fun n : Nat => (boardOf file).revision + 1 + n) ∧
      (boardOf (Run.exec step file calls)).revision = (boardOf file).revision + told.length := by
  induction calls generalizing file with
  | nil => exact ⟨rfl, (Int.add_zero _).symm⟩
  | cons call calls ih =>
    obtain ⟨htold, hlast⟩ := ih (step file call).2
    rw [Run.answers, Run.exec_cons]
    rcases step_counts file call with ⟨hnone, hsame⟩ | ⟨hsome, hnext⟩
    · rw [List.filterMap_cons_none hnone]
      rw [hsame] at htold hlast
      exact ⟨htold, hlast⟩
    · rw [List.filterMap_cons_some hsome]
      rw [hnext] at htold hlast
      refine ⟨?_, ?_⟩
      · rw [List.length_cons, List.range_succ_eq_map, List.map_cons, List.map_map]
        refine congrArg₂ List.cons (Int.add_zero _).symm (htold.trans (List.map_congr_left fun n _ => ?_))
        show (_ : Int) = _ + ((n + 1 : Nat) : Int)
        omega
      · rw [hlast, List.length_cons]
        omega

/-- The patch applied its operations to this tree: what they make of it is stored, or answered by a
dry run. -/
def PatchedFrom (state : JsonObject) (request : BlackboardPatchRequest) (answer : PatchAnswer) (file' : File) :
    Prop :=
  ∃ operations patched, elementsOf request.operations = some operations ∧
    applyOperations (.object state) 0 operations = .ok (.object patched) ∧
    (request.dryRun = true → answer.resultingValue = some (.object patched)) ∧
    (request.dryRun = false → (boardOf file').state = patched)

/-- What a patch that goes ahead does to a tree that its own sweep keeps. -/
theorem patch_from_tree {request : BlackboardPatchRequest} {nowMs revision : Int} {answer : PatchAnswer}
    (hpin : request.expectedRevision = some revision) (hkeeps : ∀ path, ¬ LapsedMember (boardOf file) nowMs path)
    (hok : (step file ⟨.patch request, nowMs⟩).1 = .ok (.patch answer)) :
    (boardOf file).revision = revision ∧
      PatchedFrom (boardOf file).state request answer (step file ⟨.patch request, nowMs⟩).2 := by
  have hspec : ((Operation.patch request).perform nowMs).wp (fun r file' => r = .ok (.patch answer) →
      (boardOf file).revision = revision ∧ PatchedFrom (boardOf file).state request answer file') file := by
    refine wp_perform (wp_mono (blackboardPatch_spec request nowMs file) fun r file' h hanswer => ?_)
    rcases h with ⟨⟨e, rfl⟩, -⟩ | ⟨operations, dropped, swept, plan, hoperations, -, hsweep, hplan, rfl, h⟩
    · cases hanswer
    · cases hanswer
      have hplanned := planPatch_ok hplan
      have hstate := state_of_sweep hsweep hkeeps
      refine ⟨?_, operations, plan.state, hoperations, ?_, fun hdry => ?_, fun hreal => ?_⟩
      · rw [← (sweepExpired_frame hsweep).revision]
        exact hplanned.pinned revision hpin
      · rw [← hstate]
        exact hplanned.applied
      · rw [patchAnswer]
        simp [hdry]
      · rcases h with ⟨hdry, -⟩ | ⟨-, -, rfl⟩
        · rw [hdry] at hreal
          cases hreal
        · rfl
  exact hspec hok

/-- **The revision is a version of the tree.** After a read that answered a revision, and any calls
in which no look drops a lapsed member of the tree, a patch pinned to that revision that goes ahead
applies its operations to the tree that the read left, if its own sweep drops no member of it. -/
theorem patch_applies_to_read {file : File} {read : BlackboardReadRequest} {readMs nowMs revision : Int}
    {between : List Call} {request : BlackboardPatchRequest} {answer : PatchAnswer}
    (hread : reportedRevision (step file ⟨.read read, readMs⟩).1 = some revision)
    (hkeeps : Run.Along step KeepsTree (step file ⟨.read read, readMs⟩).2 between)
    (hpin : request.expectedRevision = some revision)
    (hsweep : ∀ path, ¬ LapsedMember (boardOf (Run.exec step file ([⟨.read read, readMs⟩] ++ between))) nowMs path)
    (hok : (step (Run.exec step file ([⟨.read read, readMs⟩] ++ between)) ⟨.patch request, nowMs⟩).1 =
      .ok (.patch answer)) :
    PatchedFrom (boardOf (step file ⟨.read read, readMs⟩).2).state request answer
      (step (Run.exec step file ([⟨.read read, readMs⟩] ++ between)) ⟨.patch request, nowMs⟩).2 := by
  have hfirst : Since revision (boardOf (step file ⟨.read read, readMs⟩).2).state
      (boardOf (step file ⟨.read read, readMs⟩).2) :=
    ⟨(revision_read hread).ge, fun _ => rfl⟩
  have hlast := since_of_run hkeeps hfirst
  obtain ⟨hrevision, hpatched⟩ := patch_from_tree hpin hsweep hok
  rw [← hlast.same hrevision]
  exact hpatched

/-- A patch that goes ahead is answered as one. -/
theorem patch_of_succeeded {request : BlackboardPatchRequest} {nowMs : Int}
    (h : succeeded (step file ⟨.patch request, nowMs⟩).1 = true) :
    ∃ answer, (step file ⟨.patch request, nowMs⟩).1 = .ok (.patch answer) := by
  have hrun : (step file ⟨.patch request, nowMs⟩).1 = ((blackboardPatch request nowMs).run file).1.map .patch :=
    congrArg Prod.fst (run_perform _ _ _)
  rw [hrun] at h ⊢
  cases hanswer : ((blackboardPatch request nowMs).run file).1 with
  | error e =>
    rw [hanswer] at h
    cases h
  | ok answer => exact ⟨answer, rfl⟩

/-! The sweep of a look, or of the patch itself, changes the tree and not the revision. -/

def sampleLease : Call := ⟨.write { path := "k", value := .integer 0, ttlSeconds := some 1 }, 0⟩
def sampleBoardRead : BlackboardReadRequest := { path := "" }
def samplePatch : BlackboardPatchRequest :=
  { expectedRevision := some 1
    operations := .array [.object [("op", .string "add"), ("path", .string "/z"), ("value", .integer 1)]] }

/-- A key lapses between the read and the patch, which is applied to a tree without it. -/
theorem patch_misses_expiry :
    let read := step (Run.exec step none [sampleLease]) ⟨.read sampleBoardRead, 1⟩
    let patched := step read.2 ⟨.patch samplePatch, 2000⟩
    reportedRevision read.1 = some 1 ∧ (∃ answer, patched.1 = .ok (.patch answer)) ∧
      ¬ ∃ answer, PatchedFrom (boardOf read.2).state samplePatch answer patched.2 := by
  refine ⟨by decide +kernel, patch_of_succeeded (by decide +kernel), ?_⟩
  rintro ⟨answer, operations, tree, hoperations, happlied, -, hstored⟩
  cases hoperations
  have hmade : ((applyOperations (.object (boardOf (step (Run.exec step none [sampleLease])
      ⟨.read sampleBoardRead, 1⟩).2).state) 0
      [.object [("op", .string "add"), ("path", .string "/z"), ("value", .integer 1)]]).toOption.map Json.dumpSize) =
        some 13 := by
    decide +kernel
  have hleft : Json.dumpSize (.object (boardOf (step (step (Run.exec step none [sampleLease])
      ⟨.read sampleBoardRead, 1⟩).2 ⟨.patch samplePatch, 2000⟩).2).state) = 7 := by
    decide +kernel
  rw [hstored rfl] at hleft
  rw [happlied] at hmade
  exact absurd (hleft.symm.trans (Option.some.inj hmade)) (by decide)

/-- Before the key lapses, the patch is applied to the tree that was read. -/
theorem patch_applies_before_expiry :
    ∃ answer, PatchedFrom (boardOf (step (Run.exec step none [sampleLease]) ⟨.read sampleBoardRead, 1⟩).2).state
      samplePatch answer (step (Run.exec step (Run.exec step none [sampleLease]) ([⟨.read sampleBoardRead, 1⟩] ++ []))
        ⟨.patch samplePatch, 999⟩).2 := by
  have hkept : (lapsedEntries (boardOf (Run.exec step (Run.exec step none [sampleLease])
      ([⟨.read sampleBoardRead, 1⟩] ++ []))) 999).isEmpty = true := by
    decide +kernel
  have hok : succeeded (step (Run.exec step (Run.exec step none [sampleLease])
      ([⟨.read sampleBoardRead, 1⟩] ++ [])) ⟨.patch samplePatch, 999⟩).1 = true := by
    decide +kernel
  obtain ⟨answer, hanswer⟩ := patch_of_succeeded hok
  exact ⟨answer, patch_applies_to_read (by decide +kernel) (Run.along_nil _ _) rfl (not_lapsedMember hkept) hanswer⟩

end Didi.Blackboard
