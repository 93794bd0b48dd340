import Didi.Blackboard.Rules
import Didi.Json.Size

/-!
# Tidying does not enlarge a board

* `sweep_byteSize_le` : a sweep takes from the tree, and the tombstone of an entry that lapsed is
  shorter than its metadata;
* `refresh_byteSize_le` : a task whose lease lapsed or that is readied is written no longer than before.

So a board that could be loaded can be stored again after either, and a look that tidies never fails
for the byte limit: `run_read`, `run_taskList`, `run_readResource` say what looks answer.
-/

namespace Didi.Blackboard
open Json Locked

/-- The cost of the members that a map is written as. -/
def entriesCost {α : Type} (m : OrderedMap String α) (toJson : α → Json) : Nat :=
  membersCost (m.entries.map fun e => (e.1, toJson e.2))

theorem byteSize_eq (board : Board) :
    board.byteSize = memberCost ("audit", .array (board.audit.map ClearEvent.toJson)) +
      memberCost ("cleared", mapObject board.cleared (Tombstone.toJson "cleared_at_ms")) +
      memberCost ("expired", mapObject board.expired (Tombstone.toJson "expired_at_ms")) +
      memberCost ("meta", mapObject board.meta Meta.toJson) +
      memberCost ("revision", .integer board.revision) + memberCost ("state", .object board.state) +
      memberCost ("tasks", mapObject board.tasks Task.toJson) +
      memberCost ("version", .integer kBoardFormatVersion) + 1 := by
  rw [Board.byteSize, Board.document, dumpSize_object_of_ne (List.cons_ne_nil _ _)]
  simp only [membersCost_cons]
  have : membersCost [] = 0 := rfl
  omega

theorem byteSize_boardOf {file : File} (hloads : Loads file) : (boardOf file).byteSize ≤ kBlackboardMaxBoardBytes := by
  cases file with
  | none => decide
  | some loaded => exact hloads loaded rfl

/-! ## Sweeps -/

theorem sweep_tree_le {board swept : Board} {nowMs : Int} {dropped : Bool}
    (h : sweepExpired board nowMs = .ok (dropped, swept)) :
    (Json.object swept.state).dumpSize ≤ (Json.object board.state).dumpSize :=
  sweep_induct (P := fun state => (Json.object state).dumpSize ≤ (Json.object board.state).dumpSize) h
    (Nat.le_refl _) fun _ _ _ _ _ _ hs herase => (dumpSize_eraseMember_le herase).trans hs

/-- The tombstone of an entry that has an expiry is shorter than its metadata. -/
theorem expiredRecord_size_le {entry : Meta} {expires : Int} (h : entry.expiresAtMs = some expires) (nowMs : Int) :
    ((expiredRecord nowMs entry).toJson "expired_at_ms").dumpSize + 2 ≤ entry.toJson.dumpSize := by
  have hnames : stringSize "expired_at_ms" = stringSize "expires_at_ms" := by decide
  unfold Tombstone.toJson Meta.toJson expiredRecord
  rw [h, dumpSize_object_of_ne (by simp), dumpSize_object_of_ne (by simp)]
  simp only [membersCost_append, membersCost_cons, memberCost, optionalMember, Option.map_some, Option.getD_some, hnames]
  omega

theorem sublist_foldl_erase {α β : Type} (f : β → String) (l : List β) (m : OrderedMap String α) :
    (l.foldl (fun m e => m.erase (f e)) m).entries.Sublist m.entries := by
  induction l generalizing m with
  | nil => exact List.Sublist.refl _
  | cons e l ih => exact (ih _).trans List.filter_sublist

theorem sublist_trimTombstones (records : OrderedMap String Tombstone) (limit : Nat) :
    (trimTombstones records limit).entries.Sublist records.entries := by
  unfold trimTombstones
  split_ifs
  · exact List.Sublist.refl _
  · exact sublist_foldl_erase Prod.snd _ _

theorem entriesCost_insert_le {α : Type} (m : OrderedMap String α) (toJson : α → Json) (k : String) (x : α) :
    entriesCost (m.insert k x) toJson ≤ entriesCost m toJson + memberCost (k, toJson x) := by
  have hmap : ∀ l : List (String × α), (l.insertKey k x).map (fun e => (e.1, toJson e.2)) =
      (l.map fun e => (e.1, toJson e.2)).insertKey k (toJson x) := by
    intro l
    induction l with
    | nil => rfl
    | cons e l ih =>
      obtain ⟨k', x'⟩ := e
      simp only [List.map_cons, List.insertKey]
      split_ifs <;> simp [ih]
  unfold entriesCost
  rw [OrderedMap.insert, hmap]
  exact membersCost_insertKey_le _ _ _

theorem entriesCost_recordExpired_le {lapsed : List (String × Meta)} {nowMs : Int}
    (h : ∀ e ∈ lapsed, ∃ expires, e.2.expiresAtMs = some expires) (expired : OrderedMap String Tombstone) :
    entriesCost (recordExpired nowMs expired lapsed) (Tombstone.toJson "expired_at_ms") + 2 * lapsed.length ≤
      entriesCost expired (Tombstone.toJson "expired_at_ms") + membersCost (lapsed.map fun e => (e.1, e.2.toJson)) := by
  induction lapsed generalizing expired with
  | nil => exact Nat.le_refl _
  | cons e l ih =>
    obtain ⟨expires, hexpires⟩ := h e List.mem_cons_self
    have hrest := ih (fun e he => h e (List.mem_cons_of_mem _ he)) (expired.insert e.1 (expiredRecord nowMs e.2))
    have hinsert := entriesCost_insert_le expired (Tombstone.toJson "expired_at_ms") e.1 (expiredRecord nowMs e.2)
    have hsize := expiredRecord_size_le hexpires nowMs
    have hfold : recordExpired nowMs expired (e :: l) =
        recordExpired nowMs (expired.insert e.1 (expiredRecord nowMs e.2)) l := rfl
    rw [hfold, List.map_cons, membersCost_cons, List.length_cons]
    simp only [memberCost] at hinsert ⊢
    omega

theorem entriesCost_meta (board : Board) (nowMs : Int) :
    membersCost ((lapsedEntries board nowMs).map fun e => (e.1, e.2.toJson)) +
      entriesCost (board.meta.filter fun _ entry => !entry.lapsed nowMs) Meta.toJson =
        entriesCost board.meta Meta.toJson := by
  have hsplit : ∀ l : List (String × Meta),
      membersCost ((l.filter fun e => e.2.lapsed nowMs).map fun e => (e.1, e.2.toJson)) +
        membersCost ((l.filter fun e => !e.2.lapsed nowMs).map fun e => (e.1, e.2.toJson)) =
          membersCost (l.map fun e => (e.1, e.2.toJson)) := by
    intro l
    induction l with
    | nil => rfl
    | cons e l ih =>
      rw [List.filter_cons, List.filter_cons, List.map_cons, membersCost_cons]
      cases e.2.lapsed nowMs <;> simp [membersCost_cons] <;> omega
  exact hsplit board.meta.entries

/-- **A sweep does not enlarge the board.** -/
theorem sweep_byteSize_le {board swept : Board} {nowMs : Int} {dropped : Bool}
    (h : sweepExpired board nowMs = .ok (dropped, swept)) : swept.byteSize ≤ board.byteSize := by
  obtain ⟨hdropped, state, hstate, hswept⟩ := sweepExpired_ok h
  cases dropped with
  | false => rw [sweepExpired_false h]
  | true =>
    have hne : (lapsedEntries board nowMs).isEmpty = false := by simpa using hdropped
    have hlength : 1 ≤ (lapsedEntries board nowMs).length := by
      rw [List.isEmpty_eq_false_iff] at hne
      exact List.length_pos_iff.mpr hne
    have hexpires : ∀ e ∈ lapsedEntries board nowMs, ∃ expires, e.2.expiresAtMs = some expires := by
      intro e he
      have hlapsed := (mem_lapsedEntries.mp he).2
      unfold Meta.lapsed at hlapsed
      cases hx : e.2.expiresAtMs with
      | none => simp [hx] at hlapsed
      | some expires => exact ⟨expires, rfl⟩
    have htree := sweep_tree_le h
    rw [hswept] at htree
    have hrecorded := @entriesCost_recordExpired_le _ nowMs hexpires board.expired
    have hmeta := entriesCost_meta board nowMs
    have htrim : entriesCost (sweptExpired board nowMs) (Tombstone.toJson "expired_at_ms") ≤
        entriesCost (recordExpired nowMs board.expired (lapsedEntries board nowMs)) (Tombstone.toJson "expired_at_ms") := by
      rw [sweptExpired, hne, if_neg (by decide)]
      exact membersCost_sublist ((sublist_trimTombstones _ _).map _)
    -- what goes from the metadata is longer than what comes to the tombstones, separators included
    have hup : (mapObject (sweptExpired board nowMs) (Tombstone.toJson "expired_at_ms")).dumpSize ≤
        entriesCost (sweptExpired board nowMs) (Tombstone.toJson "expired_at_ms") + 2 := dumpSize_object_le _
    have hup' : (mapObject (board.meta.filter fun _ entry => !entry.lapsed nowMs) Meta.toJson).dumpSize ≤
        entriesCost (board.meta.filter fun _ entry => !entry.lapsed nowMs) Meta.toJson + 2 := dumpSize_object_le _
    have hlow : entriesCost board.expired (Tombstone.toJson "expired_at_ms") + 1 ≤
        (mapObject board.expired (Tombstone.toJson "expired_at_ms")).dumpSize := le_dumpSize_object _
    have hlow' : entriesCost board.meta Meta.toJson + 1 ≤ (mapObject board.meta Meta.toJson).dumpSize :=
      le_dumpSize_object _
    rw [byteSize_eq, byteSize_eq, hswept]
    simp only [memberCost] at *
    omega

/-! ## Refreshes -/

theorem lapseLease_size_le (nowMs : Int) (task : Task) :
    (lapseLease nowMs task).toJson.dumpSize ≤ task.toJson.dumpSize := by
  unfold lapseLease
  split_ifs with hlapsed
  · have hstatus : task.status = .inProgress := by
      simp only [leaseLapsed, Bool.and_eq_true, decide_eq_true_eq] at hlapsed
      exact hlapsed.1
    have hnull : (nullable none).dumpSize ≤ (nullable task.assignedTo).dumpSize + 2 := by
      cases task.assignedTo with
      | none => exact Nat.le_add_right _ _
      | some s =>
        simp only [nullable, dumpSize, stringSize]
        omega
    have htext : stringSize TaskStatus.pending.text + 2 ≤ stringSize task.status.text := by
      rw [hstatus]
      decide
    refine dumpSize_object_mono ?_
    simp only [membersCost_append, membersCost_cons, memberCost, optionalMember, Option.map_none]
    have hnil : membersCost [] = 0 := rfl
    simp only [dumpSize] at *
    omega
  · exact Nat.le_refl _

theorem unblock_size_le (tasks : OrderedMap String Task) (task : Task) :
    (unblock tasks task).toJson.dumpSize ≤ task.toJson.dumpSize := by
  unfold unblock
  split_ifs with hready
  · have hstatus : task.status = .blocked := by
      simp only [unblocked, Bool.and_eq_true, decide_eq_true_eq] at hready
      exact hready.1
    have htext : stringSize TaskStatus.pending.text = stringSize task.status.text := by
      rw [hstatus]
      decide
    refine dumpSize_object_mono (Nat.le_of_eq ?_)
    simp only [membersCost_append, membersCost_cons, memberCost, dumpSize, htext]
  · exact Nat.le_refl _

/-- **A refresh does not enlarge the board.** -/
theorem refresh_byteSize_le (board : Board) (nowMs : Int) :
    (refreshTasks board nowMs).2.byteSize ≤ board.byteSize := by
  have htasks : (mapObject (refreshedTasks board.tasks nowMs) Task.toJson).dumpSize ≤
      (mapObject board.tasks Task.toJson).dumpSize := by
    refine dumpSize_object_mono ?_
    unfold refreshedTasks OrderedMap.mapVal
    simp only [List.map_map, Function.comp_def]
    refine membersCost_map_le (f := fun task => (unblock _ (lapseLease nowMs task)).toJson) fun e _ => ?_
    exact (unblock_size_le _ _).trans (lapseLease_size_le nowMs e.2)
  rw [byteSize_eq, byteSize_eq]
  simp only [memberCost, refreshTasks]
  omega

/-! ## Looks at a board that can be loaded -/

section Looks
variable {file : File} {nowMs : Int}

theorem run_taskList {request : BlackboardTaskListRequest} (hmin : 1 ≤ request.maxTasks)
    (hmax : request.maxTasks ≤ kBlackboardMaxTasks) (hname : isLegalBoardName request.board = true)
    (hloads : Loads file) :
    ((blackboardTaskList request nowMs).run file).1 =
      .ok (listTasks request (refreshTasks (boardOf file) nowMs).2) := by
  change (blackboardTaskList request nowMs).wp
    (fun r _ => r = .ok (listTasks request (refreshTasks (boardOf file) nowMs).2)) file
  unfold blackboardTaskList
  refine wp_require_bind (fun _ => ?_) fun h => absurd ⟨hmin, hmax⟩ h
  refine wp_require_bind (fun _ => ?_) fun h => absurd hname h
  refine wp_loadBoard_bind (fun _ => ?_) fun h => absurd hloads h
  have hsize := (refresh_byteSize_le (boardOf file) nowMs).trans (byteSize_boardOf hloads)
  exact wp_ite (fun _ => wp_saveBoard_ok hsize (wp_pure rfl)) fun _ => wp_pure rfl

theorem run_readResource {board kind : String} (hkind : kind = "state" ∨ kind = "tasks")
    (hname : isLegalBoardName board = true) (hloads : Loads file) :
    ((blackboardReadResource board kind nowMs).run file).1 =
      ((sweepOrRefresh (boardOf file) nowMs).map fun read => resourceAnswer board kind file.isSome read.2).mapError
        .exception := by
  change (blackboardReadResource board kind nowMs).wp (fun r _ => r = _) file
  unfold blackboardReadResource
  refine wp_require_bind (fun _ => ?_) fun h => absurd hkind h
  refine wp_require_bind (fun _ => ?_) fun h => absurd hname h
  refine wp_fetch_bind (wp_loadBoard_bind (fun _ => ?_) fun h => absurd hloads h)
  refine wp_liftThrows_bind (fun read hread => ?_) fun e he => ?_
  · have hsize : read.2.byteSize ≤ kBlackboardMaxBoardBytes := by
      refine Nat.le_trans ?_ (byteSize_boardOf hloads)
      rcases sweepOrRefresh_ok hread with ⟨-, hsweep⟩ | ⟨-, hrefresh⟩
      · exact sweep_byteSize_le hsweep
      · rw [← congrArg Prod.snd hrefresh]
        exact refresh_byteSize_le _ _
    rw [hread]
    exact wp_ite (fun _ => wp_saveBoard_ok hsize (wp_pure rfl)) fun _ => wp_pure rfl
  · rw [he]
    rfl

/-- The value that a read found at its path. -/
def foundValue (r : Except Failure Answer) : Option Json :=
  match r with
  | .ok (.read answer) =>
    match answer.content with
    | .found value _ => some value
    | _ => none
  | _ => none

theorem run_read (request : BlackboardReadRequest) {parts : List String}
    (hparts : splitOptionalPath request.path = .ok parts) (hname : isLegalBoardName request.board = true)
    (hloads : Loads file) :
    ((blackboardRead request nowMs).run file).1 =
      (sweepExpired (boardOf file) nowMs >>= fun sweep => readSwept request parts sweep.2).mapError .exception := by
  change (blackboardRead request nowMs).wp (fun r _ => r = _) file
  unfold blackboardRead
  refine wp_liftResult_bind (fun parts' hparts' => ?_) fun e he => by simp [hparts] at he
  obtain rfl : parts = parts' := Except.ok.inj (hparts.symm.trans hparts')
  refine wp_require_bind (fun _ => ?_) fun h => absurd hname h
  refine wp_loadBoard_bind (fun _ => ?_) fun h => absurd hloads h
  refine wp_bind ?_
  unfold sweepAndSave
  refine wp_liftThrows_bind (fun sweep hsweep => ?_) fun e he => ?_
  · obtain ⟨dropped, swept⟩ := sweep
    have hsize := (sweep_byteSize_le hsweep).trans (byteSize_boardOf hloads)
    rw [hsweep]
    exact wp_ite (fun _ => wp_saveBoard_ok hsize (wp_pure rfl)) fun _ => wp_pure rfl
  · rw [he]
    rfl

end Looks

end Didi.Blackboard
