import Didi.Blackboard.Tasks
import Didi.Json.Holds
import Didi.Blackboard.Sweep

/-!
# What one call can do

* one `_spec` theorem for each tool: how the call ends and what its file then is;
* `Tidies`, `Stores` : every way in which a call can store a board, by the board it loaded;
* `step_leaves` : a call leaves the file as it is, tidied, or with what it was asked to store.
-/

namespace Didi.Blackboard
open Locked
variable {board : Board} {request : BlackboardClearRequest} {m : JsonObject} {swept : Board} {nowMs : Int}
  {parts : List String} {w : Option Json × JsonObject}

/-- Whether the file is within the limit that `loadBoard` checks. -/
def Loads (file : File) : Prop := ∀ board, file = some board → board.byteSize ≤ kBlackboardMaxBoardBytes

instance (file : File) : Decidable (Loads file) :=
  inferInstanceAs (Decidable (∀ board ∈ file, board.byteSize ≤ kBlackboardMaxBoardBytes))

/-- The board that a file holds. -/
def boardOf (file : File) : Board := file.getD {}

section Rules
variable {α β : Type} {P : Except Failure β → File → Prop} {file : File}

theorem wp_liftResult_bind {r : Except Error α} {f : α → BoardM β}
    (hok : ∀ a, r = .ok a → (f a).wp P file) (herr : ∀ e, r = .error e → P (.error (.error e)) file) :
    (liftResult r >>= f).wp P file := by
  unfold liftResult
  cases r with
  | ok a => exact wp_ofExcept_bind (fun b hb => by cases hb; exact hok a rfl) (fun e he => by cases he)
  | error e => exact wp_ofExcept_bind (fun b hb => by cases hb) (fun e' he => by cases he; exact herr e rfl)

theorem wp_liftThrows_bind {r : Except JsonException α} {f : α → BoardM β}
    (hok : ∀ a, r = .ok a → (f a).wp P file)
    (herr : ∀ e, r = .error e → P (.error (.exception e)) file) :
    (liftThrows r >>= f).wp P file := by
  unfold liftThrows
  cases r with
  | ok a => exact wp_ofExcept_bind (fun b hb => by cases hb; exact hok a rfl) (fun e he => by cases he)
  | error e => exact wp_ofExcept_bind (fun b hb => by cases hb) (fun e' he => by cases he; exact herr e rfl)

theorem wp_withBoardLock {board : String} {operation : BoardM β}
    (hok : isLegalBoardName board = true → operation.wp P file) (herr : ∀ e, P (.error e) file) :
    (withBoardLock board operation).wp P file :=
  wp_require_bind hok fun _ => herr _

theorem wp_loadBoard_bind {f : Board → BoardM β} (hok : Loads file → (f (boardOf file)).wp P file)
    (herr : ¬ Loads file → ∀ e, P (.error e) file) : (loadBoard >>= f).wp P file := by
  refine wp_bind ?_
  unfold loadBoard
  refine wp_fetch_bind ?_
  cases file with
  | none => exact wp_pure (hok fun board h => by cases h)
  | some board =>
    refine wp_require_bind (fun h => ?_) fun h => herr (fun hloads => h (hloads board rfl)) _
    exact wp_pure (hok fun board' h' => by cases h'; exact h)

/-- A call begins with the board that it locks. -/
theorem wp_loadLocked_bind {board : String} {f : Board → BoardM β} (hok : Loads file → (f (boardOf file)).wp P file)
    (herr : ∀ e, P (.error e) file) : (withBoardLock board (loadBoard >>= f)).wp P file :=
  wp_withBoardLock (fun _ => wp_loadBoard_bind hok fun _ => herr) herr

theorem wp_saveBoard_bind {f : Unit → BoardM β}
    (hok : board.byteSize ≤ kBlackboardMaxBoardBytes → (f ()).wp P (some board))
    (herr : ∀ e, P (.error e) file) : (saveBoard board >>= f).wp P file := by
  refine wp_bind ?_
  unfold saveBoard
  refine wp_require_bind (fun h => ?_) fun _ => herr _
  exact hok h

theorem wp_saveBoard_ok {saved : Board} {f : Unit → BoardM β}
    (hsize : saved.byteSize ≤ kBlackboardMaxBoardBytes) (hf : (f ()).wp P (some saved)) :
    (saveBoard saved >>= f).wp P file := by
  refine wp_bind ?_
  unfold saveBoard
  exact wp_require_bind (fun _ => hf) fun h => absurd hsize h

/-- A save that is accepted reads back as the board that was saved. -/
theorem wp_saveAndReadBack_bind {f : Board → BoardM β}
    (hok : board.byteSize ≤ kBlackboardMaxBoardBytes → (f board).wp P (some board))
    (herr : ∀ e, P (.error e) file) : (saveAndReadBack board >>= f).wp P file := by
  refine wp_bind ?_
  unfold saveAndReadBack
  refine wp_saveBoard_bind (fun h => ?_) fun e => herr e
  refine wp_loadBoard_bind (fun _ => ?_) fun hloads => ?_
  · exact wp_require_bind (fun _ => wp_pure (hok h)) fun hne => absurd rfl hne
  · exact absurd (fun board' h' => by cases h'; exact h) hloads

theorem wp_saveAndReadBack_ok {saved : Board} {f : Board → BoardM β}
    (hsize : saved.byteSize ≤ kBlackboardMaxBoardBytes) (hf : (f saved).wp P (some saved)) :
    (saveAndReadBack saved >>= f).wp P file := by
  refine wp_bind ?_
  unfold saveAndReadBack
  refine wp_saveBoard_ok hsize ?_
  refine wp_loadBoard_bind (fun _ => ?_) fun hloads => ?_
  · exact wp_require_bind (fun _ => wp_pure hf) fun hne => absurd rfl hne
  · exact absurd (fun board' h' => by cases h'; exact hsize) hloads

end Rules

/-- The call failed and left the file as it was. -/
def Refused {α : Type} (file : File) (r : Except Failure α) (file' : File) : Prop :=
  (∃ e, r = .error e) ∧ file' = file

theorem Refused.intro {α : Type} (file : File) (e : Failure) : Refused (α := α) file (.error e) file :=
  ⟨⟨e, rfl⟩, rfl⟩

/-! ## Writing at a path -/

theorem writeAt_cons_cons (value : Json) (m : JsonObject) (k k' : String) (ks : List String) :
    writeAt value m (k :: k' :: ks) =
      match m.lookup k with
      | none => writeAt.step m k (writeAt value [] (k' :: ks))
      | some (.object children) => writeAt.step m k (writeAt value children (k' :: ks))
      | some _ => .error [k] := by
  exact writeAt.eq_def value m (k :: k' :: ks)

theorem writeAt_step_ok {k : String} {r : Except (List String) (Option Json × JsonObject)}
    (h : writeAt.step m k r = .ok w) :
    ∃ children, r = .ok (w.1, children) ∧ w.2 = m.insertKey k (.object children) := by
  cases r with
  | error walked => cases h
  | ok pair =>
    cases h
    exact ⟨pair.2, rfl, rfl⟩

/-- A write that goes below a member puts the members it wrote into there back into it. -/
theorem writeAt_below {value : Json} {k k' : String} {ks : List String} (h : writeAt value m (k :: k' :: ks) = .ok w) :
    ∃ children written, (m.lookup k = some (.object children) ∨ m.lookup k = none ∧ children = []) ∧
      writeAt value children (k' :: ks) = .ok (w.1, written) ∧ w.2 = m.insertKey k (.object written) := by
  rw [writeAt_cons_cons] at h
  split at h
  · obtain ⟨written, hr, hw⟩ := writeAt_step_ok h
    exact ⟨[], written, .inr ⟨‹_›, rfl⟩, hr, hw⟩
  · obtain ⟨written, hr, hw⟩ := writeAt_step_ok h
    exact ⟨_, written, .inl ‹_›, hr, hw⟩
  · cases h

/-- What was written is held at the path. -/
theorem holds_writeAt {value : Json} (hparts : parts ≠ [])
    (h : writeAt value m parts = .ok w) : (Json.object w.2).Holds parts value := by
  induction parts generalizing m w with
  | nil => exact absurd rfl hparts
  | cons k ks ih =>
    cases ks with
    | nil =>
      cases h
      exact Json.holds_cons.mpr ⟨_, value, rfl, by simp [List.lookup_insertKey], Json.holds_nil.mpr rfl⟩
    | cons k' ks =>
      obtain ⟨children, written, -, hr, hw⟩ := writeAt_below h
      refine Json.holds_cons.mpr ⟨w.2, .object written, rfl, ?_, ih (List.cons_ne_nil k' ks) hr⟩
      rw [hw, List.lookup_insertKey, if_pos rfl]

/-- A write leaves alone what lies neither at, above nor below its path. -/
theorem resolve_writeAt_of_unrelated {value : Json} {parts q : List String} (hbelow : ¬ parts <+: q)
    (habove : ¬ q <+: parts)
    (h : writeAt value m parts = .ok w) : (Json.object w.2).resolve q = (Json.object m).resolve q := by
  induction parts generalizing m w q with
  | nil => exact absurd List.nil_prefix hbelow
  | cons k ks ih =>
    cases q with
    | nil => exact absurd List.nil_prefix habove
    | cons j js =>
      rw [List.cons_prefix_cons, not_and] at hbelow habove
      rw [Json.resolve_object_cons, Json.resolve_object_cons]
      cases ks with
      | nil =>
        cases h
        rw [List.lookup_insertKey, if_neg fun hj => hbelow hj.symm List.nil_prefix]
      | cons k' ks =>
        obtain ⟨children, written, hchildren, hr, hw⟩ := writeAt_below h
        rw [hw, List.lookup_insertKey]
        split_ifs with hj
        · have hsame := ih (hbelow hj.symm) (habove hj) hr
          rw [hj]
          rcases hchildren with hsome | ⟨hnone, rfl⟩
          · rw [hsome]
            exact hsame
          · -- there was nothing, and nothing is made but what lies on the way
            rw [hnone]
            cases js with
            | nil => exact absurd List.nil_prefix (habove hj)
            | cons i is => exact hsame.trans (Json.resolve_object_cons [] i is)
        · rfl

/-- A write leaves a value held that is held elsewhere. -/
theorem holds_of_writeAt {value v : Json} {parts q : List String} (hunrelated : JsonPointer.Unrelated parts q)
    (h : writeAt value m parts = .ok w) (hheld : (Json.object m).Holds q v) : (Json.object w.2).Holds q v := by
  induction parts generalizing m w q with
  | nil => exact absurd List.nil_prefix hunrelated.1
  | cons k ks ih =>
    cases q with
    | nil => exact absurd List.nil_prefix hunrelated.2
    | cons j js =>
      obtain ⟨members, child, hm, hj, hchild⟩ := Json.holds_cons.mp hheld
      cases hm
      cases ks with
      | nil =>
        cases h
        have hne : j ≠ k := fun hjk => hunrelated.1 (List.cons_prefix_cons.mpr ⟨hjk.symm, List.nil_prefix⟩)
        exact Json.holds_cons.mpr ⟨_, child, rfl, by rw [List.lookup_insertKey, if_neg hne, hj], hchild⟩
      | cons k' ks =>
        obtain ⟨children, written, hchildren, hr, hw⟩ := writeAt_below h
        rw [hw]
        by_cases hjk : j = k
        · subst hjk
          rcases hchildren with hsome | ⟨hnone, -⟩
          · rw [hj] at hsome
            cases hsome
            have hbelow : JsonPointer.Unrelated (k' :: ks) js :=
              ⟨fun hle => hunrelated.1 (List.cons_prefix_cons.mpr ⟨rfl, hle⟩),
                fun hle => hunrelated.2 (List.cons_prefix_cons.mpr ⟨rfl, hle⟩)⟩
            refine Json.holds_cons.mpr ⟨_, .object written, rfl, ?_, ih hbelow hr hchild⟩
            rw [List.lookup_insertKey, if_pos rfl]
          · rw [hj] at hnone
            cases hnone
        · exact Json.holds_cons.mpr ⟨_, child, rfl, by rw [List.lookup_insertKey, if_neg hjk, hj], hchild⟩

/-! ## The tools on keys -/

/-- What a write that goes ahead found and would store. -/
structure WritePlanned (request : BlackboardWriteRequest) (parts : List String) (nowMs : Int)
    (swept : Board) (plan : WritePlan) : Prop where
  written : ∃ state, writeAt request.value swept.state parts = .ok (plan.previous, state) ∧
    plan.board = { swept with
      revision := swept.revision + 1
      state := state
      «meta» := swept.meta.insert (joinPath parts) plan.entry
      expired := swept.expired.erase (joinPath parts) }
  pinned : ∀ expected, request.expectedUpdatedAtMs = some expected →
    heldUpdatedAtMs swept (joinPath parts) = expected
  entry : plan.entry =
    { updatedAtMs := nowMs
      author := request.author
      reason := request.reason
      expiresAtMs := request.ttlSeconds.map fun ttl => nowMs + ttl * 1000 }

theorem planWrite_ok {request : BlackboardWriteRequest} {plan : WritePlan}
    (h : planWrite request parts nowMs swept = .ok plan) :
    WritePlanned request parts nowMs swept plan := by
  unfold planWrite at h
  obtain ⟨written, hwritten, h⟩ := Except.bind_eq_ok.mp h
  rw [Except.require_bind] at h
  split_ifs at h with hpin
  obtain ⟨_, _, h⟩ := Except.bind_eq_ok.mp h
  cases h
  refine ⟨⟨written.2, Except.mapError_eq_ok.mp hwritten, rfl⟩, fun expected he => ?_, rfl⟩
  simpa [pinHolds, he] using hpin

/-- The answer of a write, from the swept board and the plan. -/
def writeAnswer (request : BlackboardWriteRequest) (parts : List String) (swept : Board)
    (plan : WritePlan) : WriteAnswer where
  board := request.board
  path := joinPath parts
  replaced := plan.previous.isSome
  previousValue := plan.previous
  dryRun := request.dryRun
  metadata := some plan.entry
  bounds := boundsPayload
  revision := if request.dryRun then swept.revision else swept.revision + 1
  value := if request.dryRun then none else some request.value

/-- The checks a write passes before it takes the lock or loads the board. -/
structure WriteAllowed (request : BlackboardWriteRequest) : Prop where
  value : request.value.dumpSize ≤ kBlackboardMaxValueBytes
  ttl : request.ttlSeconds.all (fun ttl => 0 < ttl && ttl ≤ kBlackboardMaxTtlSeconds) = true
  board : isLegalBoardName request.board = true

theorem blackboardWrite_spec (request : BlackboardWriteRequest) (nowMs : Int) (file : File) :
    (blackboardWrite request nowMs).wp (fun r file' => Refused file r file' ∨
      ∃ parts dropped swept plan, blackboardSplitPath request.path = .ok parts ∧ WriteAllowed request ∧
        Loads file ∧ sweepExpired (boardOf file) nowMs = .ok (dropped, swept) ∧
        planWrite request parts nowMs swept = .ok plan ∧
        r = .ok (writeAnswer request parts swept plan) ∧
        (request.dryRun = true ∧ file' = file ∨
          request.dryRun = false ∧ plan.board.byteSize ≤ kBlackboardMaxBoardBytes ∧
            file' = some plan.board)) file := by
  have refused : ∀ e, Refused (α := WriteAnswer) file (.error e) file := Refused.intro file
  unfold blackboardWrite
  refine wp_liftResult_bind (fun parts hparts => ?_) fun e _ => .inl (refused _)
  refine wp_require_bind (fun hvalue => ?_) fun _ => .inl (refused _)
  refine wp_require_bind (fun httl => ?_) fun _ => .inl (refused _)
  refine wp_withBoardLock (fun hname => ?_) fun e => .inl (refused e)
  have hallowed : WriteAllowed request := ⟨hvalue, httl, hname⟩
  refine wp_loadBoard_bind (fun hloads => ?_) fun _ e => .inl (refused e)
  refine wp_liftThrows_bind (fun sweep hsweep => ?_) fun e _ => .inl (refused _)
  refine wp_liftResult_bind (fun plan hplan => ?_) fun e _ => .inl (refused _)
  refine wp_ite (fun hdry => ?_) fun hdry => ?_
  · refine wp_pure (.inr ⟨parts, sweep.1, sweep.2, plan, hparts, hallowed, hloads, hsweep, hplan, ?_,
      .inl ⟨hdry, rfl⟩⟩)
    simp [writeAnswer, hdry]
  · refine wp_saveAndReadBack_bind (fun hsize => ?_) fun e => .inl (refused e)
    obtain ⟨⟨state, hwrite, hboard⟩, -, hentry⟩ := planWrite_ok hplan
    have hresolve : (Json.object plan.board.state).resolve parts = some request.value := by
      rw [hboard]
      exact (holds_writeAt (legalPath_of_split hparts).ne_nil hwrite).resolve
    have hthere := Json.contains_eq_true.mpr ⟨_, hresolve⟩
    have hvalue := Json.atPointer_of_resolve hresolve
    rw [pointerFor_eq]
    refine wp_liftThrows_bind (fun pointer hpointer => ?_) fun e he => by cases he
    cases hpointer
    rw [hthere]
    refine wp_liftThrows_bind (fun there hthere => ?_) fun e he => by cases he
    cases hthere
    rw [if_pos rfl, hvalue]
    refine wp_liftThrows_bind (fun value hvalue => ?_) fun e he => by cases he
    cases hvalue
    refine wp_pure (.inr ⟨parts, sweep.1, sweep.2, plan, hparts, hallowed, hloads, hsweep, hplan, ?_,
      .inr ⟨by simpa using hdry, hsize, rfl⟩⟩)
    simp [writeAnswer, hdry, hboard]

/-- The board a look answers from: the swept one, stored when the sweep dropped something. -/
def SweptTo (file : File) (nowMs : Int) (swept : Board) (file' : File) : Prop :=
  (sweepExpired (boardOf file) nowMs = .ok (false, swept) ∧ file' = file) ∨
    (sweepExpired (boardOf file) nowMs = .ok (true, swept) ∧
      swept.byteSize ≤ kBlackboardMaxBoardBytes ∧ file' = some swept)

theorem SweptTo.boardOf {file file' : File}
    (h : SweptTo file nowMs swept file') : Blackboard.boardOf file' = swept := by
  rcases h with ⟨hsweep, rfl⟩ | ⟨-, -, rfl⟩
  · exact (sweepExpired_false hsweep).symm
  · rfl

theorem wp_sweepAndSave_bind {β : Type} {P : Except Failure β → File → Prop} {file : File} {f : Board → BoardM β}
    (hok : ∀ swept file', SweptTo file nowMs swept file' → (f swept).wp P file')
    (herr : ∀ e, P (.error e) file) : (sweepAndSave (boardOf file) nowMs >>= f).wp P file := by
  refine wp_bind ?_
  unfold sweepAndSave
  refine wp_liftThrows_bind (fun sweep hsweep => ?_) fun e _ => herr _
  obtain ⟨dropped, swept⟩ := sweep
  cases dropped with
  | false => exact wp_pure (hok swept file (.inl ⟨hsweep, rfl⟩))
  | true => exact wp_saveBoard_bind (fun hsize => wp_pure (hok swept _ (.inr ⟨hsweep, hsize, rfl⟩))) herr

/-- What every answer of a read reports about the swept board, whatever it found at the path. -/
structure ReadReports (request : BlackboardReadRequest) (parts : List String) (swept : Board)
    (answer : ReadAnswer) : Prop where
  path : answer.path = joinPath parts
  revision : answer.revision = swept.revision
  stamp : answer.updatedAtMs = if parts = [] then none else some (heldUpdatedAtMs swept (joinPath parts))

theorem readSwept_ok {request : BlackboardReadRequest} {answer : ReadAnswer}
    (h : readSwept request parts swept = .ok answer) :
    ReadReports request parts swept answer := by
  unfold readSwept at h
  obtain ⟨_, -, h⟩ := Except.bind_eq_ok.mp h
  obtain ⟨there, -, h⟩ := Except.bind_eq_ok.mp h
  cases there with
  | false =>
    cases h
    exact ⟨rfl, rfl, rfl⟩
  | true =>
    obtain ⟨_, -, h⟩ := Except.bind_eq_ok.mp h
    cases h
    exact ⟨rfl, rfl, rfl⟩

theorem blackboardRead_spec (request : BlackboardReadRequest) (nowMs : Int) (file : File) :
    (blackboardRead request nowMs).wp (fun r file' => Refused file r file' ∨
      ∃ parts swept, splitOptionalPath request.path = .ok parts ∧ Loads file ∧
        SweptTo file nowMs swept file' ∧
        r = (readSwept request parts swept).mapError .exception) file := by
  have refused : ∀ e, Refused (α := ReadAnswer) file (.error e) file := Refused.intro file
  unfold blackboardRead
  refine wp_liftResult_bind (fun parts hparts => ?_) fun e _ => .inl (refused _)
  refine wp_loadLocked_bind (fun hloads => ?_) fun e => .inl (refused e)
  refine wp_sweepAndSave_bind (fun swept file' hswept => ?_) fun e => .inl (refused e)
  exact .inr ⟨parts, swept, hparts, hloads, hswept, rfl⟩

/-- What a patch that goes ahead found and would store. -/
structure PatchPlanned (request : BlackboardPatchRequest) (operations : List Json) (swept plan : Board) :
    Prop where
  pinned : ∀ expected, request.expectedRevision = some expected → swept.revision = expected
  applied : applyOperations (.object swept.state) 0 operations = .ok (.object plan.state)
  described : swept.meta.filterM (fun path _ => describes (.object plan.state) path) = .ok plan.meta
  board : plan = { swept with
    revision := swept.revision + 1
    state := plan.state
    «meta» := plan.meta }

theorem planPatch_ok {request : BlackboardPatchRequest} {operations : List Json} {swept plan : Board}
    (h : planPatch request operations swept = .ok plan) :
    PatchPlanned request operations swept plan := by
  unfold planPatch at h
  rw [Except.require_bind] at h
  split_ifs at h with hpin
  obtain ⟨patched, happlied, h⟩ := Except.bind_eq_ok.mp h
  rw [Except.require_bind] at h
  split_ifs at h with hobject
  obtain ⟨_, _, h⟩ := Except.bind_eq_ok.mp h
  obtain ⟨described, hdescribed, h⟩ := Except.bind_eq_ok.mp h
  cases h
  cases patched with
  | object members =>
    refine ⟨fun expected he => ?_, Except.mapError_eq_ok.mp happlied, Except.mapError_eq_ok.mp hdescribed, rfl⟩
    have hrevision : expected = swept.revision := by simpa [he] using hpin
    exact hrevision.symm
  | _ => cases hobject

/-- The answer of a patch, from the swept board and the plan. -/
def patchAnswer (request : BlackboardPatchRequest) (operations : List Json) (swept plan : Board) :
    PatchAnswer where
  board := request.board
  operationsApplied := operations.length
  dryRun := request.dryRun
  bounds := boundsPayload
  author := request.author
  reason := request.reason
  resultingValue := if request.dryRun then some (.object plan.state) else none
  revision := if request.dryRun then swept.revision else plan.revision

theorem blackboardPatch_spec (request : BlackboardPatchRequest) (nowMs : Int) (file : File) :
    (blackboardPatch request nowMs).wp (fun r file' => Refused file r file' ∨
      ∃ operations dropped swept plan, elementsOf request.operations = some operations ∧ Loads file ∧
        sweepExpired (boardOf file) nowMs = .ok (dropped, swept) ∧
        planPatch request operations swept = .ok plan ∧
        r = .ok (patchAnswer request operations swept plan) ∧
        (request.dryRun = true ∧ file' = file ∨
          request.dryRun = false ∧ plan.byteSize ≤ kBlackboardMaxBoardBytes ∧
            file' = some plan)) file := by
  have refused : ∀ e, Refused (α := PatchAnswer) file (.error e) file := Refused.intro file
  unfold blackboardPatch
  refine wp_liftResult_bind (fun operations hoperations => ?_) fun e _ => .inl (refused _)
  refine wp_require_bind (fun _ => ?_) fun _ => .inl (refused _)
  refine wp_require_bind (fun _ => ?_) fun _ => .inl (refused _)
  refine wp_loadLocked_bind (fun hloads => ?_) fun e => .inl (refused e)
  refine wp_liftThrows_bind (fun sweep hsweep => ?_) fun e _ => .inl (refused _)
  refine wp_ofExcept_bind (fun plan hplan => ?_) fun e _ => .inl (refused _)
  have helements : elementsOf request.operations = some operations := by
    cases he : elementsOf request.operations with
    | none => rw [he] at hoperations; cases hoperations
    | some found => rw [he] at hoperations; cases hoperations; rfl
  refine wp_ite (fun hdry => ?_) fun hdry => ?_
  · refine wp_pure (.inr ⟨operations, sweep.1, sweep.2, plan, helements, hloads, hsweep, hplan, ?_,
      .inl ⟨hdry, rfl⟩⟩)
    simp [patchAnswer, hdry]
  · refine wp_saveAndReadBack_bind (fun hsize => ?_) fun e => .inl (refused e)
    refine wp_pure (.inr ⟨operations, sweep.1, sweep.2, plan, helements, hloads, hsweep, hplan, ?_,
      .inr ⟨by simpa using hdry, hsize, rfl⟩⟩)
    simp [patchAnswer, hdry]

theorem blackboardListKeys_spec (request : BlackboardListKeysRequest) (nowMs : Int) (file : File) :
    (blackboardListKeys request nowMs).wp (fun r file' => Refused file r file' ∨
      ∃ parts swept, splitOptionalPath request.within = .ok parts ∧ Loads file ∧
        SweptTo file nowMs swept file' ∧ r = .ok (listSwept request (joinPath parts) swept)) file := by
  have refused : ∀ e, Refused (α := KeysAnswer) file (.error e) file := Refused.intro file
  unfold blackboardListKeys
  refine wp_require_bind (fun _ => ?_) fun _ => .inl (refused _)
  refine wp_liftResult_bind (fun parts hparts => ?_) fun e _ => .inl (refused _)
  refine wp_loadLocked_bind (fun hloads => ?_) fun e => .inl (refused e)
  refine wp_sweepAndSave_bind (fun swept file' hswept => ?_) fun e => .inl (refused e)
  exact wp_pure (.inr ⟨parts, swept, hparts, hloads, hswept, rfl⟩)

theorem split_of_splitOptional {path : String} (h : splitOptionalPath path = .ok parts)
    (hne : parts ≠ []) : blackboardSplitPath path = .ok parts := by
  unfold splitOptionalPath at h
  split_ifs at h
  · cases h
    exact absurd rfl hne
  · exact h

/-- What a clear that goes ahead removes and leaves. -/
inductive ClearPlanned (request : BlackboardClearRequest) (nowMs : Int) (swept : Board) :
    List String → ClearEvent × Board → Prop
  | all : ClearPlanned request nowMs swept []
      (clearEvent request [] nowMs (countMembers swept.state),
        recordClear (clearEvent request [] nowMs (countMembers swept.state))
          { swept with state := [], «meta» := ∅, cleared := ∅ })
  | path {parts : List String} {removed : Json} {left : Board} (hparts : parts ≠ [])
      (hremoved : (Json.object swept.state).resolve parts = some removed)
      (hleft : request.dryRun = false → clearPath request parts nowMs swept = .ok left) :
      ClearPlanned request nowMs swept parts
        (clearEvent request parts nowMs (1 + countKeys removed),
          recordClear (clearEvent request parts nowMs (1 + countKeys removed)) left)

theorem planClear_some {plan : ClearEvent × Board} (h : planClear request parts nowMs swept = .ok (some plan)) :
    ClearPlanned request nowMs swept parts plan := by
  unfold planClear at h
  by_cases hroot : parts = []
  · rw [if_pos hroot] at h
    cases h
    cases hroot
    exact .all
  · rw [if_neg hroot] at h
    obtain ⟨pointer, hpointer, h⟩ := Except.bind_eq_ok.mp h
    rw [pointerFor_eq] at hpointer
    cases hpointer
    obtain ⟨there, hthere, h⟩ := Except.bind_eq_ok.mp h
    cases there with
    | false => cases h
    | true =>
      obtain ⟨removed, hremoved⟩ := Json.contains_eq_true.mp hthere
      rw [Json.atPointer_of_resolve hremoved] at h
      obtain ⟨_, hat, h⟩ := Except.bind_eq_ok.mp h
      cases hat
      by_cases hdry : request.dryRun = true
      · rw [if_pos hdry] at h
        cases h
        exact .path hroot hremoved fun hreal => by simp [hdry] at hreal
      · rw [if_neg hdry] at h
        obtain ⟨left, hleft, h⟩ := Except.bind_eq_ok.mp h
        cases h
        exact .path hroot hremoved fun _ => hleft

/-- What a clear of one path leaves. -/
structure PathCleared (request : BlackboardClearRequest) (parts : List String) (nowMs : Int)
    (swept left : Board) : Prop where
  erased : (Json.object swept.state).alterAt (Json.erase (parts.getLastD "")) parts.dropLast =
    .ok (.object left.state)
  board : left = { swept with
    state := left.state
    «meta» := left.meta
    cleared := left.cleared
    expired := left.expired }
  gone : left.meta =
    eraseAll swept.meta (swept.meta.filter fun entry _ => entry = joinPath parts || underPath (joinPath parts) entry).keys
  expired : left.expired = (eraseAll swept.expired
    (swept.meta.filter fun entry _ => entry = joinPath parts || underPath (joinPath parts) entry).keys).erase
      (joinPath parts)

/-- Altering the tree below or at an object leaves an object. -/
theorem alterAt_erase_object {p : JsonPointer} {k : String} {v : Json}
    (h : (Json.object m).alterAt (Json.erase k) p = .ok v) : v = .object v.members := by
  cases p with
  | nil =>
    obtain ⟨members, -, rfl⟩ := Json.erase_eq_ok h
    rfl
  | cons k' ks =>
    rw [Json.alterAt] at h
    split at h
    · cases h
    · obtain ⟨v', -, rfl⟩ := Except.map_eq_ok.mp h
      rfl

theorem clearPath_ok {swept left : Board} (h : clearPath request parts nowMs swept = .ok left) :
    PathCleared request parts nowMs swept left := by
  unfold clearPath at h
  obtain ⟨tree, htree, h⟩ := Except.bind_eq_ok.mp h
  cases h
  refine ⟨?_, rfl, rfl, rfl⟩
  rw [htree]
  exact congrArg Except.ok (alterAt_erase_object htree)

def clearAnswer (request : BlackboardClearRequest) (parts : List String) (swept : Board)
    (event : ClearEvent) : ClearAnswer where
  board := request.board
  path := joinPath parts
  found := true
  removedKeys := event.removedKeys
  dryRun := request.dryRun
  audit := some event
  revision := some (if request.dryRun then swept.revision else swept.revision + 1)

/-- The answer of a clear of a path where nothing is. -/
def nothingCleared (request : BlackboardClearRequest) (parts : List String) : ClearAnswer where
  board := request.board
  path := joinPath parts
  found := false
  removedKeys := 0
  dryRun := request.dryRun
  audit := none
  revision := none

/-- What a clear looks for in the board it stored is gone. -/
theorem ClearPlanned.gone {plan : ClearEvent × Board} (h : ClearPlanned request nowMs swept parts plan)
    (hreal : request.dryRun = false) :
    (if parts = [] then Except.ok (!plan.2.state.isEmpty)
      else do (Json.object plan.2.state).contains (← pointerFor parts) : Except JsonException Bool) = .ok false := by
  cases h with
  | all => rfl
  | path hne hremoved hleft =>
    rw [if_neg hne, pointerFor_eq]
    obtain ⟨herased, -, -, -⟩ := clearPath_ok (hleft hreal)
    have hcontains := Json.contains_alterAt_erase herased
    rwa [List.getLastD_eq_getLast?, List.getLast?_eq_some_getLast hne, Option.getD_some,
      List.dropLast_append_getLast hne] at hcontains

theorem blackboardClear_spec (request : BlackboardClearRequest) (nowMs : Int) (file : File) :
    (blackboardClear request nowMs).wp (fun r file' => Refused file r file' ∨
      ∃ parts dropped swept plan, splitOptionalPath request.path = .ok parts ∧ Loads file ∧
        sweepExpired (boardOf file) nowMs = .ok (dropped, swept) ∧
        planClear request parts nowMs swept = .ok plan ∧
        ((plan = none ∧ r = .ok (nothingCleared request parts) ∧ file' = file) ∨
          ∃ event left, plan = some (event, left) ∧ r = .ok (clearAnswer request parts swept event) ∧
            (request.dryRun = true ∧ file' = file ∨
              request.dryRun = false ∧ left.byteSize ≤ kBlackboardMaxBoardBytes ∧
                file' = some left))) file := by
  have refused : ∀ e, Refused (α := ClearAnswer) file (.error e) file := Refused.intro file
  unfold blackboardClear
  refine wp_liftResult_bind (fun parts hparts => ?_) fun e _ => .inl (refused _)
  refine wp_loadLocked_bind (fun hloads => ?_) fun e => .inl (refused e)
  refine wp_liftThrows_bind (fun sweep hsweep => ?_) fun e _ => .inl (refused _)
  refine wp_liftThrows_bind (fun plan hplan => ?_) fun e _ => .inl (refused _)
  cases plan with
  | none =>
    exact wp_pure (.inr ⟨parts, sweep.1, sweep.2, none, hparts, hloads, hsweep, hplan, .inl ⟨rfl, rfl, rfl⟩⟩)
  | some plan =>
    obtain ⟨event, left⟩ := plan
    refine wp_ite (fun hdry => ?_) fun hdry => ?_
    · refine wp_pure (.inr ⟨parts, sweep.1, sweep.2, some (event, left), hparts, hloads, hsweep, hplan,
        .inr ⟨event, left, rfl, ?_, .inl ⟨hdry, rfl⟩⟩⟩)
      simp [clearAnswer, hdry]
    · refine wp_saveAndReadBack_bind (fun hsize => ?_) fun e => .inl (refused e)
      have hreal : request.dryRun = false := by simpa using hdry
      have hplanned := planClear_some hplan
      rw [hplanned.gone hreal]
      refine wp_liftThrows_bind (fun stillThere hstill => ?_) fun e he => by cases he
      cases hstill
      refine wp_require_bind (fun _ => ?_) fun hstill => absurd rfl hstill
      refine wp_pure (.inr ⟨parts, sweep.1, sweep.2, some (event, left), hparts, hloads, hsweep, hplan,
        .inr ⟨event, left, rfl, ?_, .inr ⟨hreal, hsize, rfl⟩⟩⟩)
      have hrevision : left.revision = sweep.2.revision + 1 := by
        cases hplanned with
        | all => rfl
        | path hne hremoved hleft =>
          obtain ⟨-, hboard, -, -⟩ := clearPath_ok (hleft hreal)
          rw [hboard]
          rfl
      simp [clearAnswer, hdry, hrevision]

/-! ## The tools on tasks -/

theorem checkDependencies_ok {tasks : OrderedMap String Task} {taskId : String} {dependencies : List String}
    {u : Unit} (h : checkDependencies tasks taskId dependencies = .ok u) :
    ∀ d ∈ dependencies, d ≠ taskId ∧ ∃ task, tasks.get d = some task := by
  induction dependencies with
  | nil => simp
  | cons d ds ih =>
    rw [checkDependencies] at h
    split_ifs at h with hself hknown
    rw [Bool.not_eq_true', Bool.not_eq_false, OrderedMap.contains_iff] at hknown
    intro d' hd'
    rcases List.mem_cons.mp hd' with rfl | hd'
    · exact ⟨hself, hknown⟩
    · exact ih h d' hd'

/-- What a creation that goes ahead found and would store. -/
structure CreatePlanned (request : BlackboardTaskCreateRequest) (nowMs : Int) (board : Board)
    (task : Task) : Prop where
  fresh : board.tasks.get task.taskId = none
  known : ∀ d ∈ request.dependencies, d ≠ task.taskId ∧ ∃ dependency, board.tasks.get d = some dependency
  named : task.taskId ≠ ""
  task : task = newTask request task.taskId nowMs (request.dependencies.all (isCompleted board.tasks))

theorem planCreate_ok {request : BlackboardTaskCreateRequest} {task : Task}
    (h : planCreate request nowMs board = .ok task) : CreatePlanned request nowMs board task := by
  unfold planCreate at h
  obtain ⟨_, -, h⟩ := Except.bind_eq_ok.mp h
  generalize (if request.taskId = "" then generateTaskId board.tasks else request.taskId) = taskId at h
  obtain ⟨_, hnamed, h⟩ := Except.bind_eq_ok.mp h
  obtain ⟨_, hfresh, h⟩ := Except.bind_eq_ok.mp h
  obtain ⟨_, hknown, h⟩ := Except.bind_eq_ok.mp h
  obtain ⟨_, -, h⟩ := Except.bind_eq_ok.mp h
  cases h
  exact ⟨OrderedMap.contains_eq_false.mp (Except.require_eq_ok.mp hfresh), checkDependencies_ok hknown,
    Except.require_eq_ok.mp hnamed, rfl⟩

theorem blackboardTaskCreate_spec (request : BlackboardTaskCreateRequest) (nowMs : Int) (file : File) :
    (blackboardTaskCreate request nowMs).wp (fun r file' => Refused file r file' ∨
      ∃ task, Loads file ∧ planCreate request nowMs (refreshTasks (boardOf file) nowMs).2 = .ok task ∧
        r = .ok { board := request.board, task := some task, dryRun := request.dryRun } ∧
        (request.dryRun = true ∧ file' = file ∨
          ∃ stored : Board, request.dryRun = false ∧ stored.byteSize ≤ kBlackboardMaxBoardBytes ∧
            stored = { (refreshTasks (boardOf file) nowMs).2 with
              tasks := (refreshTasks (boardOf file) nowMs).2.tasks.insert task.taskId task } ∧
            file' = some stored)) file := by
  have refused : ∀ e, Refused (α := TaskAnswer) file (.error e) file := Refused.intro file
  unfold blackboardTaskCreate
  refine wp_require_bind (fun _ => ?_) fun _ => .inl (refused _)
  refine wp_require_bind (fun _ => ?_) fun _ => .inl (refused _)
  refine wp_require_bind (fun _ => ?_) fun _ => .inl (refused _)
  refine wp_require_bind (fun _ => ?_) fun _ => .inl (refused _)
  refine wp_loadLocked_bind (fun hloads => ?_) fun e => .inl (refused e)
  refine wp_liftResult_bind (fun task hplan => ?_) fun e _ => .inl (refused _)
  refine wp_ite (fun hdry => ?_) fun hdry => ?_
  · exact wp_pure (.inr ⟨task, hloads, hplan, rfl, .inl ⟨hdry, rfl⟩⟩)
  · refine wp_saveAndReadBack_bind (fun hsize => ?_) fun e => .inl (refused e)
    refine wp_pure (.inr ⟨task, hloads, hplan, ?_, .inr ⟨_, by simpa using hdry, hsize, rfl, rfl⟩⟩)
    rw [OrderedMap.get_insert_self]

/-- The refreshed board, stored only when the refresh changed something. -/
def RefreshedTo (file : File) (nowMs : Int) (refreshed : Board) (file' : File) : Prop :=
  ∃ changed, refreshTasks (boardOf file) nowMs = (changed, refreshed) ∧
    (file' = file ∨ changed = true ∧ refreshed.byteSize ≤ kBlackboardMaxBoardBytes ∧ file' = some refreshed)

theorem blackboardTaskClaim_spec (request : BlackboardTaskClaimRequest) (nowMs : Int) (file : File) :
    (blackboardTaskClaim request nowMs).wp (fun r file' => Refused file r file' ∨
      ∃ refreshed, Loads file ∧ refreshed = (refreshTasks (boardOf file) nowMs).2 ∧
        ((chosenTask refreshed (scanTasks request nowMs refreshed) = none ∧
            RefreshedTo file nowMs refreshed file' ∧ r = notClaimedAnswer request nowMs refreshed) ∨
          ∃ task, chosenTask refreshed (scanTasks request nowMs refreshed) = some task ∧
            r = .ok (.claimed request.board (some (claimTask request nowMs task)) request.dryRun) ∧
            (request.dryRun = true ∧ file' = file ∨
              ∃ stored : Board, request.dryRun = false ∧ stored.byteSize ≤ kBlackboardMaxBoardBytes ∧
                stored = { refreshed with
                  tasks := refreshed.tasks.insert (scanTasks request nowMs refreshed).chosen
                    (claimTask request nowMs task) } ∧
                file' = some stored))) file := by
  have refused : ∀ e, Refused (α := ClaimAnswer) file (.error e) file := Refused.intro file
  unfold blackboardTaskClaim
  refine wp_require_bind (fun _ => ?_) fun _ => .inl (refused _)
  refine wp_require_bind (fun _ => ?_) fun _ => .inl (refused _)
  refine wp_loadLocked_bind (fun hloads => ?_) fun e => .inl (refused e)
  cases hrefresh : refreshTasks (boardOf file) nowMs with
  | mk changed refreshed =>
    dsimp only
    cases hchosen : chosenTask refreshed (scanTasks request nowMs refreshed) with
    | none =>
      refine wp_ite (fun hstore => ?_) fun _ => ?_
      · refine wp_saveBoard_bind (fun hsize => ?_) fun e => .inl (refused e)
        simp only [Bool.and_eq_true] at hstore
        refine wp_ofExcept (.inr ⟨refreshed, hloads, rfl, .inl ⟨hchosen, ?_, rfl⟩⟩)
        exact ⟨changed, hrefresh, .inr ⟨hstore.2, hsize, rfl⟩⟩
      · exact wp_ofExcept (.inr ⟨refreshed, hloads, rfl, .inl ⟨hchosen, ⟨changed, hrefresh, .inl rfl⟩, rfl⟩⟩)
    | some task =>
      refine wp_ite (fun hdry => ?_) fun hdry => ?_
      · exact wp_pure (.inr ⟨refreshed, hloads, rfl, .inr ⟨task, hchosen, rfl, .inl ⟨hdry, rfl⟩⟩⟩)
      · refine wp_saveAndReadBack_bind (fun hsize => ?_) fun e => .inl (refused e)
        refine wp_pure (.inr ⟨refreshed, hloads, rfl,
          .inr ⟨task, hchosen, ?_, .inr ⟨_, by simpa using hdry, hsize, rfl, rfl⟩⟩⟩)
        rw [OrderedMap.get_insert_self]

theorem planUpdate_ok {request : BlackboardTaskUpdateRequest} {task : Task}
    (h : planUpdate request nowMs board = .ok task) :
    ∃ found, board.tasks.get request.taskId = some found ∧ updateProblem request nowMs found = none ∧
      task = updateTask request nowMs found := by
  unfold planUpdate at h
  split at h
  · cases h
  · rename_i found hfound
    split at h
    · cases h
    · exact ⟨found, hfound, ‹_›, (Except.ok.inj h).symm⟩

/-- The board an update or a completion works out, refreshed once more after the task changed. -/
def retasked (board : Board) (taskId : String) (task : Task) (nowMs : Int) : Board :=
  (refreshTasks { board with tasks := board.tasks.insert taskId task } nowMs).2

theorem blackboardTaskUpdate_spec (request : BlackboardTaskUpdateRequest) (nowMs : Int) (file : File) :
    (blackboardTaskUpdate request nowMs).wp (fun r file' => Refused file r file' ∨
      ∃ refreshed task, Loads file ∧ (∀ seconds, request.renewLeaseSeconds = some seconds → 1 ≤ seconds) ∧
        (∀ status, request.status = some status → (settableStatus status).isSome = true) ∧
        refreshed = (refreshTasks (boardOf file) nowMs).2 ∧
        planUpdate request nowMs refreshed = .ok task ∧
        (request.dryRun = true ∧ file' = file ∧
            r = .ok { board := request.board, task := some task, dryRun := request.dryRun } ∨
          ∃ stored : Board, request.dryRun = false ∧ stored.byteSize ≤ kBlackboardMaxBoardBytes ∧
            stored = retasked refreshed request.taskId task nowMs ∧ file' = some stored ∧
            r = .ok {
              board := request.board
              task := stored.tasks.get request.taskId
              dryRun := request.dryRun })) file := by
  have refused : ∀ e, Refused (α := TaskAnswer) file (.error e) file := Refused.intro file
  unfold blackboardTaskUpdate
  refine wp_require_bind (fun _ => ?_) fun _ => .inl (refused _)
  refine wp_require_bind (fun _ => ?_) fun _ => .inl (refused _)
  refine wp_require_bind (fun _ => ?_) fun _ => .inl (refused _)
  refine wp_require_bind (fun _ => ?_) fun _ => .inl (refused _)
  refine wp_require_bind (fun hsettable => ?_) fun _ => .inl (refused _)
  refine wp_require_bind (fun hrenew => ?_) fun _ => .inl (refused _)
  have hstatus : ∀ status, request.status = some status → (settableStatus status).isSome = true := by
    intro status hs
    rwa [hs, Option.all_some] at hsettable
  have hseconds : ∀ seconds, request.renewLeaseSeconds = some seconds → 1 ≤ seconds := by
    intro seconds hs
    rw [hs, Option.all_some, Bool.and_eq_true, decide_eq_true_eq] at hrenew
    exact hrenew.1
  refine wp_loadLocked_bind (fun hloads => ?_) fun e => .inl (refused e)
  refine wp_liftResult_bind (fun task hplan => ?_) fun e _ => .inl (refused _)
  refine wp_ite (fun hdry => ?_) fun hdry => ?_
  · exact wp_pure (.inr ⟨_, task, hloads, hseconds, hstatus, rfl, hplan, .inl ⟨hdry, rfl, rfl⟩⟩)
  · refine wp_saveAndReadBack_bind (fun hsize => ?_) fun e => .inl (refused e)
    exact wp_pure (.inr ⟨_, task, hloads, hseconds, hstatus, rfl, hplan,
      .inr ⟨_, by simpa using hdry, hsize, rfl, rfl, rfl⟩⟩)

theorem planComplete_ok {request : BlackboardTaskCompleteRequest} {task : Task}
    (h : planComplete request nowMs board = .ok task) :
    ∃ found, board.tasks.get request.taskId = some found ∧ completeProblem request nowMs found = none ∧
      task = completeTask request nowMs found := by
  unfold planComplete at h
  split at h
  · cases h
  · rename_i found hfound
    split at h
    · cases h
    · exact ⟨found, hfound, ‹_›, (Except.ok.inj h).symm⟩

theorem blackboardTaskComplete_spec (request : BlackboardTaskCompleteRequest) (nowMs : Int) (file : File) :
    (blackboardTaskComplete request nowMs).wp (fun r file' => Refused file r file' ∨
      ∃ refreshed task, Loads file ∧ refreshed = (refreshTasks (boardOf file) nowMs).2 ∧
        planComplete request nowMs refreshed = .ok task ∧
        (request.dryRun = true ∧ file' = file ∧
            r = .ok {
              board := request.board
              task := some task
              unblocked := releasedTasks refreshed (retasked refreshed request.taskId task nowMs)
              dryRun := request.dryRun } ∨
          ∃ stored : Board, request.dryRun = false ∧ stored.byteSize ≤ kBlackboardMaxBoardBytes ∧
            stored = retasked refreshed request.taskId task nowMs ∧ file' = some stored ∧
            r = .ok {
              board := request.board
              task := stored.tasks.get request.taskId
              unblocked := releasedTasks refreshed stored
              dryRun := request.dryRun })) file := by
  have refused : ∀ e, Refused (α := CompleteAnswer) file (.error e) file := Refused.intro file
  unfold blackboardTaskComplete
  refine wp_require_bind (fun _ => ?_) fun _ => .inl (refused _)
  refine wp_require_bind (fun _ => ?_) fun _ => .inl (refused _)
  refine wp_require_bind (fun _ => ?_) fun _ => .inl (refused _)
  refine wp_loadLocked_bind (fun hloads => ?_) fun e => .inl (refused e)
  refine wp_liftResult_bind (fun task hplan => ?_) fun e _ => .inl (refused _)
  refine wp_ite (fun hdry => ?_) fun hdry => ?_
  · exact wp_pure (.inr ⟨_, task, hloads, rfl, hplan, .inl ⟨hdry, rfl, rfl⟩⟩)
  · refine wp_saveAndReadBack_bind (fun hsize => ?_) fun e => .inl (refused e)
    exact wp_pure (.inr ⟨_, task, hloads, rfl, hplan, .inr ⟨_, by simpa using hdry, hsize, rfl, rfl, rfl⟩⟩)

theorem blackboardTaskList_spec (request : BlackboardTaskListRequest) (nowMs : Int) (file : File) :
    (blackboardTaskList request nowMs).wp (fun r file' => Refused file r file' ∨
      ∃ refreshed, Loads file ∧ RefreshedTo file nowMs refreshed file' ∧
        r = .ok (listTasks request refreshed)) file := by
  have refused : ∀ e, Refused (α := TasksAnswer) file (.error e) file := Refused.intro file
  unfold blackboardTaskList
  refine wp_require_bind (fun _ => ?_) fun _ => .inl (refused _)
  refine wp_loadLocked_bind (fun hloads => ?_) fun e => .inl (refused e)
  cases hrefresh : refreshTasks (boardOf file) nowMs with
  | mk changed refreshed =>
    refine wp_ite (fun hchanged => ?_) fun _ => ?_
    · refine wp_saveBoard_bind (fun hsize => ?_) fun e => .inl (refused e)
      exact wp_pure (.inr ⟨refreshed, hloads, ⟨changed, hrefresh, .inr ⟨hchanged, hsize, rfl⟩⟩, rfl⟩)
    · exact wp_pure (.inr ⟨refreshed, hloads, ⟨changed, hrefresh, .inl rfl⟩, rfl⟩)

theorem blackboardReadResource_spec (board kind : String) (nowMs : Int) (file : File) :
    (blackboardReadResource board kind nowMs).wp (fun r file' => Refused file r file' ∨
      ∃ changed read, Loads file ∧ sweepOrRefresh (boardOf file) nowMs = .ok (changed, read) ∧
        (changed = false ∧ file' = file ∨
          changed = true ∧ read.byteSize ≤ kBlackboardMaxBoardBytes ∧ file' = some read) ∧
        r = .ok (resourceAnswer board kind file.isSome read)) file := by
  have refused : ∀ e, Refused (α := ResourceAnswer) file (.error e) file := Refused.intro file
  unfold blackboardReadResource
  refine wp_require_bind (fun _ => ?_) fun _ => .inl (refused _)
  refine wp_withBoardLock (fun _ => ?_) fun e => .inl (refused e)
  refine wp_fetch_bind ?_
  refine wp_loadBoard_bind (fun hloads => ?_) fun _ e => .inl (refused e)
  refine wp_liftThrows_bind (fun sweep hsweep => ?_) fun e _ => .inl (refused _)
  obtain ⟨changed, read⟩ := sweep
  refine wp_ite (fun hchanged => ?_) fun hchanged => ?_
  · refine wp_saveBoard_bind (fun hsize => ?_) fun e => .inl (refused e)
    exact wp_pure (.inr ⟨changed, read, hloads, hsweep, .inr ⟨hchanged, hsize, rfl⟩, rfl⟩)
  · exact wp_pure (.inr ⟨changed, read, hloads, hsweep, .inl ⟨by simpa using hchanged, rfl⟩, rfl⟩)

/-! ## What a call stores -/

/-- The ways in which a call can store a board without changing what it was asked about. -/
inductive Tidies (loaded : Board) (nowMs : Int) (operation : Operation) : Board → Prop
  | swept {board : Board} (hsaves : operation.savesSweep = true)
      (h : sweepExpired loaded nowMs = .ok (true, board)) : Tidies loaded nowMs operation board
  | refreshed {board : Board} (h : refreshTasks loaded nowMs = (true, board)) :
      Tidies loaded nowMs operation board

/-- The ways in which a call can store what it was asked for, by the board it loaded. -/
inductive Stores (loaded : Board) (nowMs : Int) : Operation → Board → Prop
  | wrote {request : BlackboardWriteRequest} {parts : List String} {dropped : Bool} {swept : Board}
      {plan : WritePlan} (hreal : request.dryRun = false)
      (hparts : blackboardSplitPath request.path = .ok parts)
      (hsweep : sweepExpired loaded nowMs = .ok (dropped, swept))
      (hplan : WritePlanned request parts nowMs swept plan) :
      Stores loaded nowMs (.write request) plan.board
  | patched {request : BlackboardPatchRequest} {operations : List Json} {dropped : Bool}
      {swept plan : Board} (hreal : request.dryRun = false)
      (hoperations : elementsOf request.operations = some operations)
      (hsweep : sweepExpired loaded nowMs = .ok (dropped, swept))
      (hplan : PatchPlanned request operations swept plan) :
      Stores loaded nowMs (.patch request) plan
  | cleared {request : BlackboardClearRequest} {parts : List String} {dropped : Bool} {swept : Board}
      {plan : ClearEvent × Board} (hreal : request.dryRun = false)
      (hparts : splitOptionalPath request.path = .ok parts)
      (hsweep : sweepExpired loaded nowMs = .ok (dropped, swept))
      (hplan : ClearPlanned request nowMs swept parts plan) :
      Stores loaded nowMs (.clear request) plan.2
  | created {request : BlackboardTaskCreateRequest} {task : Task} (hreal : request.dryRun = false)
      (hplan : CreatePlanned request nowMs (refreshTasks loaded nowMs).2 task) :
      Stores loaded nowMs (.taskCreate request) { (refreshTasks loaded nowMs).2 with
        tasks := (refreshTasks loaded nowMs).2.tasks.insert task.taskId task }
  | claimed {request : BlackboardTaskClaimRequest} {refreshed : Board} {task : Task}
      (hreal : request.dryRun = false) (hrefresh : refreshed = (refreshTasks loaded nowMs).2)
      (hchosen : chosenTask refreshed (scanTasks request nowMs refreshed) = some task) :
      Stores loaded nowMs (.taskClaim request) { refreshed with
        tasks := refreshed.tasks.insert (scanTasks request nowMs refreshed).chosen
          (claimTask request nowMs task) }
  | updated {request : BlackboardTaskUpdateRequest} {refreshed : Board} {found : Task}
      (hreal : request.dryRun = false) (hrefresh : refreshed = (refreshTasks loaded nowMs).2)
      (hfound : refreshed.tasks.get request.taskId = some found)
      (hallowed : updateProblem request nowMs found = none)
      (hstatus : ∀ status, request.status = some status → (settableStatus status).isSome = true) :
      Stores loaded nowMs (.taskUpdate request)
        (retasked refreshed request.taskId (updateTask request nowMs found) nowMs)
  | completed {request : BlackboardTaskCompleteRequest} {refreshed : Board} {found : Task}
      (hreal : request.dryRun = false) (hrefresh : refreshed = (refreshTasks loaded nowMs).2)
      (hfound : refreshed.tasks.get request.taskId = some found)
      (hallowed : completeProblem request nowMs found = none) :
      Stores loaded nowMs (.taskComplete request)
        (retasked refreshed request.taskId (completeTask request nowMs found) nowMs)

/-- How a call leaves the file: as it is, tidied, or with what a successful call stored. -/
def Leaves (file : File) (nowMs : Int) (operation : Operation) (r : Except Failure Answer) (file' : File) :
    Prop :=
  file' = file ∨ ∃ board, file' = some board ∧ board.byteSize ≤ kBlackboardMaxBoardBytes ∧
    (Tidies (boardOf file) nowMs operation board ∨ (∃ answer, r = .ok answer) ∧ Stores (boardOf file) nowMs operation board)

theorem SweptTo.leaves {file file' : File} (h : SweptTo file nowMs swept file') {operation : Operation}
    (hsaves : operation.savesSweep = true) (r : Except Failure Answer) :
    Leaves file nowMs operation r file' := by
  rcases h with ⟨-, rfl⟩ | ⟨hsweep, hsize, rfl⟩
  · exact .inl rfl
  · exact .inr ⟨swept, rfl, hsize, .inl (.swept hsaves hsweep)⟩

theorem RefreshedTo.leaves {file file' : File} {refreshed : Board} (h : RefreshedTo file nowMs refreshed file')
    (operation : Operation) (r : Except Failure Answer) :
    Leaves file nowMs operation r file' := by
  obtain ⟨changed, hrefresh, rfl | ⟨hchanged, hsize, rfl⟩⟩ := h
  · exact .inl rfl
  · exact .inr ⟨refreshed, rfl, hsize, .inl (.refreshed (hchanged ▸ hrefresh))⟩

theorem sweepOrRefresh_ok {board read : Board} {changed : Bool} (h : sweepOrRefresh board nowMs = .ok (changed, read)) :
    (changed = true ∧ sweepExpired board nowMs = .ok (true, read)) ∨
      (sweepExpired board nowMs = .ok (false, board) ∧ refreshTasks board nowMs = (changed, read)) := by
  unfold sweepOrRefresh at h
  obtain ⟨⟨dropped, swept⟩, hsweep, h⟩ := Except.bind_eq_ok.mp h
  cases dropped with
  | true =>
    cases h
    exact .inl ⟨rfl, hsweep⟩
  | false =>
    cases sweepExpired_false hsweep
    exact .inr ⟨hsweep, Except.ok.inj h⟩

theorem wp_perform {α : Type} {m : BoardM α} {f : α → Answer} {P : Except Failure Answer → File → Prop}
    {file : File} (h : m.wp (fun r file' => P (r.map f) file') file) :
    (do return f (← m) : BoardM Answer).wp P file := by
  refine wp_bind (wp_mono h fun r file' hr => ?_)
  cases r with
  | ok a => exact hr
  | error e => exact hr

/-- A step is the tool's own run, with the answer wrapped. -/
theorem run_perform {α : Type} (m : BoardM α) (f : α → Answer) (file : File) :
    (do return f (← m) : BoardM Answer).run file = ((m.run file).1.map f, (m.run file).2) := by
  rw [run_bind]
  generalize m.run file = outcome
  obtain ⟨r, file'⟩ := outcome
  cases r with
  | ok a => rfl
  | error e => rfl

/-- **A call leaves the file as it is, tidied, or with what it was asked to store.** -/
theorem step_leaves (file : File) (call : Call) :
    Leaves file call.nowMs call.operation (step file call).1 (step file call).2 := by
  obtain ⟨operation, nowMs⟩ := call
  have kept : ∀ r file', file' = file → Leaves file nowMs operation r file' := fun _ _ => .inl
  have stored : ∀ answer board, board.byteSize ≤ kBlackboardMaxBoardBytes →
      Stores (boardOf file) nowMs operation board → Leaves file nowMs operation (.ok answer) (some board) :=
    fun answer board hsize h => .inr ⟨board, rfl, hsize, .inr ⟨⟨answer, rfl⟩, h⟩⟩
  change (operation.perform nowMs).wp (Leaves file nowMs operation) file
  cases operation with
  | write request =>
    refine wp_perform (wp_mono (blackboardWrite_spec request nowMs file) fun r file' h => ?_)
    rcases h with h | ⟨parts, dropped, swept, plan, hparts, -, -, hsweep, hplan, rfl, h⟩
    · exact kept _ _ h.2
    · rcases h with ⟨-, h⟩ | ⟨hreal, hsize, rfl⟩
      · exact kept _ _ h
      · exact stored _ _ hsize (.wrote hreal hparts hsweep (planWrite_ok hplan))
  | read request =>
    refine wp_perform (wp_mono (blackboardRead_spec request nowMs file) fun r file' h => ?_)
    rcases h with h | ⟨parts, swept, -, -, hswept, -⟩
    · exact kept _ _ h.2
    · exact hswept.leaves rfl _
  | patch request =>
    refine wp_perform (wp_mono (blackboardPatch_spec request nowMs file) fun r file' h => ?_)
    rcases h with h | ⟨operations, dropped, swept, plan, hoperations, -, hsweep, hplan, rfl, h⟩
    · exact kept _ _ h.2
    · rcases h with ⟨-, h⟩ | ⟨hreal, hsize, rfl⟩
      · exact kept _ _ h
      · exact stored _ _ hsize (.patched hreal hoperations hsweep (planPatch_ok hplan))
  | listKeys request =>
    refine wp_perform (wp_mono (blackboardListKeys_spec request nowMs file) fun r file' h => ?_)
    rcases h with h | ⟨parts, swept, -, -, hswept, -⟩
    · exact kept _ _ h.2
    · exact hswept.leaves rfl _
  | clear request =>
    refine wp_perform (wp_mono (blackboardClear_spec request nowMs file) fun r file' h => ?_)
    rcases h with h | ⟨parts, dropped, swept, plan, hparts, -, hsweep, hplan, h⟩
    · exact kept _ _ h.2
    · rcases h with ⟨-, -, h⟩ | ⟨event, left, rfl, rfl, h⟩
      · exact kept _ _ h
      · rcases h with ⟨-, h⟩ | ⟨hreal, hsize, rfl⟩
        · exact kept _ _ h
        · exact stored _ _ hsize (.cleared hreal hparts hsweep (planClear_some hplan))
  | taskCreate request =>
    refine wp_perform (wp_mono (blackboardTaskCreate_spec request nowMs file) fun r file' h => ?_)
    rcases h with h | ⟨task, -, hplan, rfl, h⟩
    · exact kept _ _ h.2
    · rcases h with ⟨-, h⟩ | ⟨board, hreal, hsize, rfl, rfl⟩
      · exact kept _ _ h
      · exact stored _ _ hsize (.created hreal (planCreate_ok hplan))
  | taskClaim request =>
    refine wp_perform (wp_mono (blackboardTaskClaim_spec request nowMs file) fun r file' h => ?_)
    rcases h with h | ⟨refreshed, -, hrefresh, h⟩
    · exact kept _ _ h.2
    · rcases h with ⟨-, hto, -⟩ | ⟨task, hchosen, rfl, h⟩
      · exact hto.leaves _ _
      · rcases h with ⟨-, h⟩ | ⟨board, hreal, hsize, rfl, rfl⟩
        · exact kept _ _ h
        · exact stored _ _ hsize (.claimed hreal hrefresh hchosen)
  | taskUpdate request =>
    refine wp_perform (wp_mono (blackboardTaskUpdate_spec request nowMs file) fun r file' h => ?_)
    rcases h with h | ⟨refreshed, task, -, -, hstatus, hrefresh, hplan, h⟩
    · exact kept _ _ h.2
    · obtain ⟨found, hfound, hallowed, rfl⟩ := planUpdate_ok hplan
      rcases h with ⟨-, h, -⟩ | ⟨board, hreal, hsize, rfl, rfl, rfl⟩
      · exact kept _ _ h
      · exact stored _ _ hsize (.updated hreal hrefresh hfound hallowed hstatus)
  | taskComplete request =>
    refine wp_perform (wp_mono (blackboardTaskComplete_spec request nowMs file) fun r file' h => ?_)
    rcases h with h | ⟨refreshed, task, -, hrefresh, hplan, h⟩
    · exact kept _ _ h.2
    · obtain ⟨found, hfound, hallowed, rfl⟩ := planComplete_ok hplan
      rcases h with ⟨-, h, -⟩ | ⟨board, hreal, hsize, rfl, rfl, rfl⟩
      · exact kept _ _ h
      · exact stored _ _ hsize (.completed hreal hrefresh hfound hallowed)
  | taskList request =>
    refine wp_perform (wp_mono (blackboardTaskList_spec request nowMs file) fun r file' h => ?_)
    rcases h with h | ⟨refreshed, -, hto, -⟩
    · exact kept _ _ h.2
    · exact hto.leaves _ _
  | readResource board kind =>
    refine wp_perform (wp_mono (blackboardReadResource_spec board kind nowMs file) fun r file' h => ?_)
    rcases h with h | ⟨changed, read, -, hread, h, -⟩
    · exact kept _ _ h.2
    · rcases h with ⟨-, h⟩ | ⟨hchanged, hsize, rfl⟩
      · exact kept _ _ h
      · rcases sweepOrRefresh_ok hread with ⟨-, hsweep⟩ | ⟨-, hrefresh⟩
        · exact .inr ⟨read, rfl, hsize, .inl (.swept rfl hsweep)⟩
        · exact .inr ⟨read, rfl, hsize, .inl (.refreshed (hchanged ▸ hrefresh))⟩

end Didi.Blackboard
