import Didi.Blackboard.Causes
import Didi.Blackboard.Expiry

/-!
# The reason a read gives

* `Tellable` : the calls after which the tombstones tell the last causes;
* `Ledger.step_tells` : such a call keeps what they tell true;
* `names_latest_cause` : in a run of such calls, a read that finds nothing names the last cause.
-/

namespace Didi.Blackboard
open Locked
variable {operation : Operation}

/-! ## The calls that can be told of -/

/-- What a call removes is not so much that a tombstone is dropped for it. -/
structure Untrimmed (file : File) (call : Call) : Prop where
  sweep : call.operation.storesSweep = true → SweepFits (boardOf file) call.nowMs
  clear : ∀ request parts dropped swept removed, call.operation = .clear request → request.dryRun = false →
    blackboardSplitPath request.path = .ok parts → sweepExpired (boardOf file) call.nowMs = .ok (dropped, swept) →
      (Json.object swept.state).resolve parts = some removed →
        (recordCleared request parts call.nowMs swept).size ≤ kBlackboardMaxClearedRecords

/-- The tombstones tell of what an operation takes from a swept board: a write or a patch takes nothing that a
tombstone tells of, a clear of the board nothing that lapsed before, and what lies below a path that is cleared
carries metadata or was cleared by the same author. -/
def OperationTells (held : List String → Prop) (swept : Board) (nowMs : Int) : Operation → Prop
  | .write request => request.dryRun = false → ∀ parts plan, blackboardSplitPath request.path = .ok parts →
      WritePlanned request parts nowMs swept plan → ∀ p rest, LegalPath p → held p → parts ++ rest <+: p →
        request.value.resolve rest = none → (∃ u, (Json.object swept.state).resolve (parts ++ rest) = some u) →
          Untold swept (joinPath p)
  | .patch request => request.dryRun = false → ∀ operations plan, elementsOf request.operations = some operations →
      PatchPlanned request operations swept plan → ∀ p, LegalPath p → held p →
        takesFrom swept.state plan.state p = true → Untold swept (joinPath p)
  | .clear request => request.dryRun = false →
      if request.path = "" then ∀ p, LegalPath p → held p → swept.expired.get (joinPath p) = none
      else ∀ parts removed, blackboardSplitPath request.path = .ok parts →
        (Json.object swept.state).resolve parts = some removed →
          ∀ p, LegalPath p → held p → parts <+: p → p ≠ parts → ToldOf request swept (joinPath p)
  | _ => True

structure Tellable (ledger : Ledger) (call : Call) : Prop where
  sweep : call.operation.storesSweep = true → SweepTells ledger.Held (boardOf ledger.file) call.nowMs
  operation : ∀ dropped swept, sweepExpired (boardOf ledger.file) call.nowMs = .ok (dropped, swept) →
    OperationTells ledger.Held swept call.nowMs call.operation

/-! ## What a call keeps told -/

theorem takesFrom_self (state : JsonObject) (p : List String) : takesFrom state state p = false := by
  rw [← Bool.not_eq_true, takesFrom_iff]
  rintro ⟨q, -, ⟨w, hw⟩, hnone⟩
  rw [hw] at hnone
  cases hnone

theorem sweptState_of_sweep {board swept : Board} {nowMs : Int} {dropped : Bool}
    (h : sweepExpired board nowMs = .ok (dropped, swept)) : sweptState board nowMs = swept.state := by
  rw [sweptState, h]

theorem cause_of_savesSweep (h : operation.savesSweep = true) : operation.cause = none := by
  cases operation <;> first | rfl | cases h

theorem storesSweep_of_savesSweep (h : operation.savesSweep = true) :
    operation.storesSweep = true := by
  rw [Operation.storesSweep, h, Bool.true_or]

theorem storesSweep_of_real (hsweeps : operation.sweeps = true)
    (hreal : operation.isLook = false) : operation.storesSweep = true := by
  rw [Operation.storesSweep, hsweeps, hreal]
  exact Bool.or_true _

theorem removalsBetween_stored {loaded stored swept : Board} {nowMs : Int} {dropped : Bool} {cause : Cause}
    {whole : Bool} (hcause : operation.cause = some (cause, whole))
    (hsweep : sweepExpired loaded nowMs = .ok (dropped, swept)) (hrevision : stored.revision = swept.revision + 1) :
    removalsBetween loaded stored nowMs operation =
      [{ before := swept.state, after := stored.state, cause := cause, whole := whole },
        { before := loaded.state, after := swept.state, cause := .sweep }] := by
  have hframe := (sweepExpired_frame hsweep).revision
  rw [removalsBetween, hcause]
  dsimp only
  rw [if_neg (by omega), sweptState_of_sweep hsweep]

/-- **A change of the keys that can be told of keeps what the tombstones tell true.** -/
theorem KeyMove.tells {ledger : Ledger} {nowMs : Int} {stored : Board}
    (hmove : KeyMove (boardOf ledger.file) nowMs operation stored)
    (huntrimmed : Untrimmed ledger.file ⟨operation, nowMs⟩) (htellable : Tellable ledger ⟨operation, nowMs⟩)
    (h : Tells ledger.removals ledger.Held (boardOf ledger.file)) :
    Tells (removalsBetween (boardOf ledger.file) stored nowMs operation ++ ledger.removals) ledger.Held stored := by
  obtain ⟨hfits, hclearFits⟩ := huntrimmed
  obtain ⟨htells, hoperation⟩ := htellable
  cases hmove with
  | kept operation tasks =>
    have hkept : Tells ledger.removals ledger.Held { boardOf ledger.file with tasks := tasks } := h.kept rfl rfl rfl
    rw [removalsBetween]
    cases operation.cause with
    | none =>
      refine hkept.removal rfl rfl fun p _ _ _ => ?_
      rw [if_neg (by rw [Removal.takes, Bool.false_or, takesFrom_self]; decide)]
    | some cause =>
      dsimp only
      rwa [if_pos rfl]
  | swept hsaves hsweep =>
    have hstores := storesSweep_of_savesSweep hsaves
    rw [removalsBetween, cause_of_savesSweep hsaves]
    exact h.sweep (htells hstores) (hfits hstores) hsweep
  | wrote hreal hparts hsweep hplan =>
    rename_i request parts dropped swept plan
    have hstores : (Operation.write request).storesSweep = true := storesSweep_of_real rfl hreal
    have hrevision : plan.board.revision = swept.revision + 1 := by
      obtain ⟨⟨state, -, hboard⟩, -, -⟩ := hplan
      rw [hboard]
    rw [removalsBetween_stored rfl hsweep hrevision]
    exact (h.sweep (htells hstores) (hfits hstores) hsweep).write (legalPath_of_split hparts) hplan
      (hoperation _ _ hsweep hreal _ _ hparts hplan)
  | patched hreal hoperations hsweep hplan =>
    rename_i request operations dropped swept
    have hstores : (Operation.patch request).storesSweep = true := storesSweep_of_real rfl hreal
    have hrevision : stored.revision = swept.revision + 1 := by rw [hplan.board]
    rw [removalsBetween_stored rfl hsweep hrevision]
    exact (h.sweep (htells hstores) (hfits hstores) hsweep).patch hplan
      (hoperation _ _ hsweep hreal _ _ hoperations hplan)
  | cleared hreal hparts hsweep hplan =>
    rename_i request parts dropped swept plan
    have hstores : (Operation.clear request).storesSweep = true := storesSweep_of_real rfl hreal
    have hswept := h.sweep (htells hstores) (hfits hstores) hsweep
    have htold := hoperation _ _ hsweep hreal
    cases hplan with
    | all =>
      have hpath : request.path = "" := by
        by_contra hne
        rw [splitOptionalPath, if_neg hne] at hparts
        exact (legalPath_of_split hparts).ne_nil rfl
      rw [if_pos hpath] at htold
      have hcause : (Operation.clear request).cause = some (.other, true) := by rw [Operation.cause, if_pos hpath]
      rw [removalsBetween_stored hcause hsweep rfl]
      exact hswept.clearAll htold
    | path hne hremoved hleft =>
      have hsplit := split_of_splitOptional hparts hne
      have hpath : request.path ≠ "" := by
        intro hempty
        rw [splitOptionalPath, if_pos hempty] at hparts
        cases hparts
        exact hne rfl
      rw [if_neg hpath] at htold
      have hcause : (Operation.clear request).cause = some (.clear request.author, false) := by
        rw [Operation.cause, if_neg hpath]
      replace hleft := hleft hreal
      have hcleared := hswept.clearPath (legalPath_of_split hsplit) hremoved
        (hclearFits request parts _ swept _ rfl hreal hsplit hsweep hremoved) hleft (htold _ _ hsplit hremoved)
      rename_i removed left
      have hrevision : (recordClear (clearEvent request parts nowMs (1 + countKeys removed)) left).revision =
          swept.revision + 1 := by
        rw [recordClear, (clearPath_ok hleft).board]
      rw [removalsBetween_stored hcause hsweep hrevision]
      exact hcleared.kept rfl rfl rfl

/-! ## Runs and reads -/

/-- The tombstones of a ledger's board tell the last causes. -/
def Ledger.Tells (ledger : Ledger) : Prop :=
  Blackboard.Tells ledger.removals ledger.Held (boardOf ledger.file)

/-- **A call that can be told of keeps what the tombstones tell true.** -/
theorem Ledger.step_tells {ledger : Ledger} {call : Call} (huntrimmed : Untrimmed ledger.file call)
    (htellable : Tellable ledger call) (h : ledger.Tells) : (ledger.step call).2.Tells := by
  obtain ⟨operation, nowMs⟩ := call
  have htells := (step_keyMove ledger.file ⟨operation, nowMs⟩).tells huntrimmed htellable h
  rintro p hp ⟨tree, htree, w, hw⟩ hgone
  refine htells p hp ?_ hgone
  rcases List.mem_cons.mp htree with rfl | htree
  · cases hw.symm.trans hgone
  · exact ⟨tree, htree, w, hw⟩

theorem Ledger.run_tells {calls : List Call}
    (huntrimmed : Run.Along Ledger.step (fun ledger => Untrimmed ledger.file) {} calls)
    (htellable : Run.Along Ledger.step Tellable {} calls) : (Run.exec Ledger.step {} calls).Tells :=
  Run.exec_of_along (fun _ _ h htells => Ledger.step_tells h.1 h.2 htells) (htellable.and huntrimmed)
    (by rintro p - ⟨tree, htree, -⟩ -; cases htree)

/-- What a read that finds nothing says. -/
def missingOf : Except Failure Answer → Option ReadContent
  | .ok (.read answer) => if answer.content.value.isNone then some answer.content else none
  | _ => none

/-- What a read says names the last cause: it says that the path expired when a sweep took it, and that it was
cleared, and by whom, when a clear of a path did. -/
structure NamesCause (removals : List Removal) (p : List String) (content : ReadContent) : Prop where
  expired : (∃ record, content = .expired record) ↔ lastCause removals p = some .sweep
  cleared : ∀ author, (∃ record, content = .cleared record ∧ record.author = author) ↔
    lastCause removals p = some (.clear author)

theorem namesCause_of_told {removals : List Removal} {p : List String} {board : Board}
    (h : lastCause removals p = some (told board (joinPath p))) :
    NamesCause removals p (missingContent board (joinPath p)) := by
  constructor
  · rw [h, told, missingContent]
    cases board.expired.get (joinPath p) with
    | some record => simp
    | none => cases board.cleared.get (joinPath p) <;> simp
  · intro author
    rw [h, told, missingContent]
    cases board.expired.get (joinPath p) with
    | some record => simp
    | none => cases board.cleared.get (joinPath p) <;> simp

theorem missing_of_readSwept {request : BlackboardReadRequest} {parts : List String} {swept : Board}
    {answer : ReadAnswer} (h : readSwept request parts swept = .ok answer) (hnothing : answer.content.value = none) :
    (Json.object swept.state).resolve parts = none ∧ answer.content = missingContent swept (joinPath parts) := by
  cases hres : (Json.object swept.state).resolve parts with
  | some w =>
    obtain ⟨answer', hanswer', hvalue⟩ := readSwept_value.mpr ⟨w, hres, rfl⟩
    rw [h] at hanswer'
    cases hanswer'
    rw [hnothing] at hvalue
    cases hvalue
  | none =>
    unfold readSwept at h
    obtain ⟨pointer, hpointer, h⟩ := Except.bind_eq_ok.mp h
    rw [pointerFor_eq] at hpointer
    cases hpointer
    obtain ⟨there, hthere, h⟩ := Except.bind_eq_ok.mp h
    cases there with
    | false =>
      cases h
      exact ⟨rfl, rfl⟩
    | true =>
      obtain ⟨w, hw⟩ := Json.contains_eq_true.mp hthere
      rw [hres] at hw
      cases hw

/-- **In a run of calls that can be told of, a read that finds nothing where something was names the last cause.** -/
theorem names_latest_cause (calls : List Call) (request : BlackboardReadRequest) (nowMs : Int)
    {parts : List String} {content : ReadContent}
    (huntrimmed : Run.Along Ledger.step (fun ledger => Untrimmed ledger.file) {} (calls ++ [⟨.read request, nowMs⟩]))
    (htellable : Run.Along Ledger.step Tellable {} (calls ++ [⟨.read request, nowMs⟩]))
    (hparts : splitOptionalPath request.path = .ok parts) (hheld : (Run.exec Ledger.step {} calls).Held parts)
    (hmissing : missingOf (step (Run.exec step none calls) ⟨.read request, nowMs⟩).1 = some content) :
    NamesCause (Run.exec Ledger.step {} (calls ++ [⟨.read request, nowMs⟩])).removals parts content := by
  have htells := Ledger.run_tells huntrimmed htellable
  have hfile : (Run.exec Ledger.step {} calls).file = Run.exec step none calls := Ledger.file_exec {} calls
  rw [Run.exec_append] at htells ⊢
  generalize Run.exec Ledger.step {} calls = ledger at hheld hfile htells ⊢
  rw [← hfile] at hmissing
  have hstep := run_perform (blackboardRead request nowMs) .read ledger.file
  change step ledger.file ⟨.read request, nowMs⟩ = _ at hstep
  have hspec := blackboardRead_spec request nowMs ledger.file
  unfold wp at hspec
  generalize (blackboardRead request nowMs).run ledger.file = outcome at hspec hstep
  obtain ⟨r, file'⟩ := outcome
  rw [hstep] at hmissing
  rcases hspec with ⟨⟨e, rfl⟩, -⟩ | ⟨parts', swept, hparts', -, hswept, rfl⟩
  · cases hmissing
  · rw [hparts] at hparts'
    cases hparts'
    cases hread : readSwept request parts swept with
    | error e =>
      rw [hread] at hmissing
      cases hmissing
    | ok answer =>
      rw [hread] at hmissing
      change (if answer.content.value.isNone = true then some answer.content else none) = some content at hmissing
      split_ifs at hmissing with hnothing
      cases hmissing
      obtain ⟨hgone, hcontent⟩ := missing_of_readSwept hread (Option.isNone_iff_eq_none.mp hnothing)
      rw [hcontent]
      have hne : parts ≠ [] := by
        rintro rfl
        rw [Json.resolve_nil] at hgone
        cases hgone
      have hboard : boardOf (ledger.step ⟨.read request, nowMs⟩).2.file = swept := by
        change boardOf (step ledger.file ⟨.read request, nowMs⟩).2 = swept
        rw [hstep]
        exact hswept.boardOf
      refine namesCause_of_told ?_
      rw [← hboard] at hgone ⊢
      refine htells parts (legalPath_of_split (split_of_splitOptional hparts hne)) ?_ hgone
      obtain ⟨tree, htree, w, hw⟩ := hheld
      exact ⟨tree, List.mem_cons_of_mem _ htree, w, hw⟩

/-! The tombstone of a clear outlives a later write, and a later patch that removes the value. -/

def rewritten : List Call :=
  [⟨.write { path := "a", value := .integer 1 }, 0⟩, ⟨.clear { path := "a" }, 1⟩,
    ⟨.write { path := "a", value := .integer 2 }, 2⟩,
    ⟨.patch { operations := .array [.object [("op", .string "remove"), ("path", .string "/a")]] }, 3⟩]

/-- Whether a call is seen to keep every tombstone. -/
def fits (file : File) (call : Call) : Bool :=
  decide ((recordExpired call.nowMs (boardOf file).expired (lapsedEntries (boardOf file) call.nowMs)).size ≤
    kBlackboardMaxExpiredRecords) &&
  match call.operation with
  | .clear request =>
    match blackboardSplitPath request.path, sweepExpired (boardOf file) call.nowMs with
    | .ok parts, .ok (_, swept) =>
      decide ((recordCleared request parts call.nowMs swept).size ≤ kBlackboardMaxClearedRecords)
    | _, _ => true
  | _ => true

theorem untrimmed_of_fits {file : File} {call : Call} (h : fits file call = true) : Untrimmed file call := by
  rw [fits, Bool.and_eq_true] at h
  refine ⟨fun _ => show _ ≤ _ from of_decide_eq_true h.1,
    fun request parts dropped swept removed hclear _ hparts hsweep _ => ?_⟩
  have hrecords := h.2
  rw [hclear] at hrecords
  dsimp only at hrecords
  rw [hparts, hsweep] at hrecords
  exact of_decide_eq_true hrecords

theorem untrimmed_of_along {calls : List Call}
    (h : Run.Along Ledger.step (fun ledger call => fits ledger.file call = true) {} calls) :
    Run.Along Ledger.step (fun ledger => Untrimmed ledger.file) {} calls :=
  h.mono_mem fun _ _ _ => untrimmed_of_fits

/-- Whether a read says that what it looked for was cleared. -/
def saysCleared (r : Except Failure Answer) : Bool :=
  match missingOf r with
  | some (.cleared _) => true
  | _ => false

theorem not_names_latest_cause : ¬ ∀ (calls : List Call) (request : BlackboardReadRequest) (nowMs : Int)
    (parts : List String) (content : ReadContent),
    ((calls ++ [(⟨.read request, nowMs⟩ : Call)]).map Call.nowMs).Pairwise (· < ·) →
      Run.Along Ledger.step (fun ledger => Untrimmed ledger.file) {} (calls ++ [⟨.read request, nowMs⟩]) →
        splitOptionalPath request.path = .ok parts → (Run.exec Ledger.step {} calls).Held parts →
          missingOf (step (Run.exec step none calls) ⟨.read request, nowMs⟩).1 = some content →
            NamesCause (Run.exec Ledger.step {} (calls ++ [⟨.read request, nowMs⟩])).removals parts content := by
  intro h
  have hcleared : saysCleared (step (Run.exec step none rewritten) ⟨.read { path := "a" }, 4⟩).1 = true := by
    decide +kernel
  rw [saysCleared] at hcleared
  split at hcleared
  · rename_i record hmissing
    have hheld : (Run.exec Ledger.step {} rewritten).Held ["a"] := by
      have htree : (Run.exec Ledger.step {} rewritten).trees.any
          (fun tree => ((Json.object tree).resolve ["a"]).isSome) = true := by
        decide +kernel
      obtain ⟨tree, htree, hsome⟩ := List.any_eq_true.mp htree
      exact ⟨tree, htree, Option.isSome_iff_exists.mp hsome⟩
    have hnames := h rewritten { path := "a" } 4 ["a"] _ (by decide) (untrimmed_of_along (by decide +kernel)) rfl hheld
      hmissing
    have hlast : lastCause (Run.exec Ledger.step {} (rewritten ++ [⟨.read { path := "a" }, 4⟩])).removals ["a"] =
        some .other := by
      decide +kernel
    have hsays := (hnames.cleared record.author).mp ⟨record, rfl, rfl⟩
    rw [hlast] at hsays
    cases hsays
  · cases hcleared

def lapsing : List Call := [⟨.write { path := "a", value := .integer 1, ttlSeconds := some 1 }, 0⟩]

/-- Whether a read says that what it looked for has expired. -/
def saysExpired (r : Except Failure Answer) : Bool :=
  match missingOf r with
  | some (.expired _) => true
  | _ => false

theorem names_latest_cause_lapsed :
    lastCause (Run.exec Ledger.step {} (lapsing ++ [⟨.read { path := "a" }, 1000⟩])).removals ["a"] = some .sweep := by
  have hexpired : saysExpired (step (Run.exec step none lapsing) ⟨.read { path := "a" }, 1000⟩).1 = true := by
    decide +kernel
  rw [saysExpired] at hexpired
  split at hexpired
  · rename_i record hmissing
    have hheld : (Run.exec Ledger.step {} lapsing).Held ["a"] := ⟨[("a", .integer 1)], List.mem_cons_self, _, rfl⟩
    refine (names_latest_cause lapsing { path := "a" } 1000 (untrimmed_of_along (by decide +kernel)) ?_ rfl hheld
      hmissing).expired.mp ⟨record, rfl⟩
    refine ⟨⟨fun _ p _ hheld => ?_, fun _ _ _ _ _ _ _ _ p _ _ hheld => ?_⟩,
      ⟨fun _ p hp hheld _ => ?_, fun _ _ _ => trivial⟩,
      trivial⟩
    · obtain ⟨tree, htree, -⟩ := hheld
      cases htree
    · obtain ⟨tree, htree, -⟩ := hheld
      cases htree
    · obtain ⟨tree, htree, w, hw⟩ := hheld
      cases List.mem_singleton.mp htree
      obtain ⟨k, ks, rfl⟩ := List.exists_cons_of_ne_nil hp.ne_nil
      change (Json.object [("a", Json.integer 1)]).resolve (k :: ks) = some w at hw
      rw [Json.resolve_object_cons] at hw
      by_cases hk : k = "a"
      · subst hk
        cases ks with
        | nil => exact ⟨fun _ => ⟨_, rfl, rfl⟩, fun _ => .inr ⟨w, hw⟩⟩
        | cons j js => cases hw
      · rw [List.lookup_cons_eq, if_neg hk] at hw
        cases hw
  · cases hexpired

end Didi.Blackboard
