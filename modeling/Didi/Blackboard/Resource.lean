import Didi.Blackboard.Size

/-!
# The resources and the tools

* `TaskStale`, `tasksOf_refreshTasks` : the tasks that a refresh changes;
* `resource_answers_as_tools` : the resources answer what the tools answer exactly when the sweep
  does not throw, and does not keep the refresh from a task that waits for one.
-/

namespace Didi.Blackboard
open Locked

/-! ## Tasks that wait for a refresh -/

/-- A task is held by nobody though it is in progress, or waits for nothing though it is blocked. -/
def TaskStale (board : Board) (nowMs : Int) : Prop :=
  ∃ taskId task, board.tasks.get taskId = some task ∧
    (leaseLapsed nowMs task = true ∨ unblocked board.tasks task = true)

/-- Some metadata has lapsed. -/
def EntryLapses (board : Board) (nowMs : Int) : Prop :=
  ∃ path entry, board.meta.get path = some entry ∧ entry.lapsed nowMs = true

theorem refreshTask_eq_self_iff (tasks : OrderedMap String Task) (nowMs : Int) (task : Task) :
    refreshTask tasks nowMs task = task ↔ ¬ (leaseLapsed nowMs task = true ∨ unblocked tasks task = true) := by
  constructor
  · rintro hsame (hlapsed | hready)
    · have hstatus : task.status = .inProgress := by
        simp only [leaseLapsed, Bool.and_eq_true, decide_eq_true_eq] at hlapsed
        exact hlapsed.1
      have hpending : (refreshTask tasks nowMs task).status = .pending := by
        simp [refreshTask, lapseLease, hlapsed, unblock, unblocked]
      rw [hsame, hstatus] at hpending
      cases hpending
    · have hstatus : task.status = .blocked := by
        simp only [unblocked, Bool.and_eq_true, decide_eq_true_eq] at hready
        exact hready.1
      have hheld : lapseLease nowMs task = task := by simp [lapseLease, leaseLapsed, hstatus]
      have hpending : (refreshTask tasks nowMs task).status = .pending := by
        rw [refreshTask, hheld, unblock, if_pos hready]
      rw [hsame, hstatus] at hpending
      cases hpending
  · intro hfresh
    rw [not_or] at hfresh
    rw [refreshTask, lapseLease, if_neg hfresh.1, unblock, if_neg hfresh.2]

theorem refreshedTasks_eq (tasks : OrderedMap String Task) (nowMs : Int) :
    refreshedTasks tasks nowMs = tasks.mapVal fun _ task => refreshTask tasks nowMs task :=
  OrderedMap.ext_get fun k => by rw [get_refreshedTasks, OrderedMap.get_mapVal]

/-- The tasks in the order of their ids. -/
def tasksOf (board : Board) : List Task := board.tasks.entries.map Prod.snd

/-- A refresh leaves the tasks as they are exactly when none waits for it. -/
theorem tasksOf_refreshTasks (board : Board) (nowMs : Int) :
    tasksOf (refreshTasks board nowMs).2 = tasksOf board ↔ ¬ TaskStale board nowMs := by
  have hmap : tasksOf (refreshTasks board nowMs).2 =
      board.tasks.entries.map fun e => refreshTask board.tasks nowMs e.2 := by
    change (refreshedTasks board.tasks nowMs).entries.map Prod.snd = _
    rw [refreshedTasks_eq, OrderedMap.mapVal, List.map_map]
    rfl
  rw [hmap, tasksOf, List.map_inj_left]
  constructor
  · rintro hsame ⟨taskId, task, hget, hstale⟩
    exact (refreshTask_eq_self_iff _ _ _).mp (hsame _ (OrderedMap.get_eq_some.mp hget)) hstale
  · intro hfresh e he
    refine (refreshTask_eq_self_iff _ _ _).mpr fun hstale => hfresh ⟨e.1, e.2, ?_, hstale⟩
    exact OrderedMap.get_eq_some.mpr he

/-! ## What the calls answer -/

section Answers
variable {file : File} {board : String} {nowMs : Int}

/-- A sweep that drops something found metadata that had lapsed. -/
theorem dropped_iff {loaded swept : Board} {dropped : Bool}
    (h : sweepExpired loaded nowMs = .ok (dropped, swept)) : dropped = true ↔ EntryLapses loaded nowMs := by
  obtain ⟨hdropped, -⟩ := sweepExpired_ok h
  rw [hdropped, Bool.not_eq_true', List.isEmpty_eq_false_iff_exists_mem]
  constructor
  · rintro ⟨e, he⟩
    exact ⟨e.1, e.2, mem_lapsedEntries.mp he⟩
  · rintro ⟨path, entry, hentry⟩
    exact ⟨(path, entry), mem_lapsedEntries.mpr hentry⟩

/-- An unfiltered listing of as many tasks as a board may have. -/
def listAll (board : String) : BlackboardTaskListRequest := { board := board, maxTasks := kBlackboardMaxTasks }

/-- A deep read of the whole board. -/
def readAll (board : String) : BlackboardReadRequest := { board := board, path := "" }

end Answers

/-! ## One answer -/

/-- The tasks that a resource read answered. -/
def resourceTasks (r : Except Failure Answer) : Option (List Task) :=
  match r with
  | .ok (.readResource (.tasks _ _ tasks _)) => some tasks
  | _ => none

def listedTasks (r : Except Failure Answer) : Option (List Task) :=
  match r with
  | .ok (.taskList answer) => some answer.tasks
  | _ => none

/-- The tree that a resource read answered. -/
def resourceState (r : Except Failure Answer) : Option Json :=
  match r with
  | .ok (.readResource (.state _ _ state _)) => some (.object state)
  | _ => none

/-- The resources answer the tasks and the tree that the tools answer; a call that fails answers
none. -/
def OneAnswer (board : String) (file : File) (nowMs : Int) : Prop :=
  resourceTasks (step file ⟨.readResource board "tasks", nowMs⟩).1 =
      listedTasks (step file ⟨.taskList (listAll board), nowMs⟩).1 ∧
    resourceState (step file ⟨.readResource board "state", nowMs⟩).1 =
      foundValue (step file ⟨.read (readAll board), nowMs⟩).1

section Answers
variable {file : File} {board : String} {nowMs : Int}

theorem step_tasks (hname : isLegalBoardName board = true) (hloads : Loads file) :
    resourceTasks (step file ⟨.readResource board "tasks", nowMs⟩).1 =
      (sweepOrRefresh (boardOf file) nowMs).toOption.map fun read => tasksOf read.2 := by
  have hstep : (step file ⟨.readResource board "tasks", nowMs⟩).1 =
      ((blackboardReadResource board "tasks" nowMs).run file).1.map .readResource :=
    congrArg Prod.fst (run_perform _ _ _)
  rw [hstep, run_readResource (.inr rfl) hname hloads]
  cases sweepOrRefresh (boardOf file) nowMs <;> rfl

theorem step_listed (hname : isLegalBoardName board = true) (hloads : Loads file) :
    listedTasks (step file ⟨.taskList (listAll board), nowMs⟩).1 =
      some ((tasksOf (refreshTasks (boardOf file) nowMs).2).take kBlackboardMaxTasks) := by
  have hstep : (step file ⟨.taskList (listAll board), nowMs⟩).1 =
      ((blackboardTaskList (listAll board) nowMs).run file).1.map .taskList :=
    congrArg Prod.fst (run_perform _ _ _)
  have hall : ∀ tasks : List Task, tasks.filter (listed (listAll board)) = tasks :=
    fun tasks => List.filter_eq_self.mpr fun _ _ => rfl
  have hmin : 1 ≤ kBlackboardMaxTasks := by decide
  rw [hstep, run_taskList hmin (Nat.le_refl _) hname hloads]
  change some ((List.filter _ _).take _) = _
  rw [hall]
  rfl

/-- The two answers about the tree are always the same. -/
theorem step_state (hname : isLegalBoardName board = true) (hloads : Loads file) :
    resourceState (step file ⟨.readResource board "state", nowMs⟩).1 =
      foundValue (step file ⟨.read (readAll board), nowMs⟩).1 := by
  have hresource : (step file ⟨.readResource board "state", nowMs⟩).1 =
      ((blackboardReadResource board "state" nowMs).run file).1.map .readResource :=
    congrArg Prod.fst (run_perform _ _ _)
  have hread : (step file ⟨.read (readAll board), nowMs⟩).1 =
      ((blackboardRead (readAll board) nowMs).run file).1.map .read :=
    congrArg Prod.fst (run_perform _ _ _)
  rw [hresource, hread, run_readResource (.inl rfl) hname hloads, run_read (readAll board) rfl hname hloads]
  unfold sweepOrRefresh
  cases sweepExpired (boardOf file) nowMs with
  | error e => rfl
  | ok sweep =>
    obtain ⟨dropped, swept⟩ := sweep
    cases dropped <;> rfl

/-- **The resources and the tools give one answer** exactly when the board has no more tasks than a
listing may answer, the sweep does not throw, and there is not both metadata that lapsed and a task
that waits for a refresh. -/
theorem resource_answers_as_tools (hname : isLegalBoardName board = true) (hloads : Loads file) :
    OneAnswer board file nowMs ↔ (boardOf file).tasks.size ≤ kBlackboardMaxTasks ∧
      (∃ sweep, sweepExpired (boardOf file) nowMs = .ok sweep) ∧
      ¬ (EntryLapses (boardOf file) nowMs ∧ TaskStale (boardOf file) nowMs) := by
  unfold OneAnswer
  rw [step_tasks hname hloads, step_listed hname hloads, and_iff_left (step_state hname hloads)]
  have hlength : (tasksOf (refreshTasks (boardOf file) nowMs).2).length = (boardOf file).tasks.size := by
    change ((refreshedTasks (boardOf file).tasks nowMs).entries.map Prod.snd).length = _
    rw [refreshedTasks_eq, List.length_map, OrderedMap.mapVal, List.length_map, OrderedMap.size]
  have htake : ∀ tasks : List Task, tasks.length = (boardOf file).tasks.size →
      (tasks = (tasksOf (refreshTasks (boardOf file) nowMs).2).take kBlackboardMaxTasks ↔
        (boardOf file).tasks.size ≤ kBlackboardMaxTasks ∧ tasks = tasksOf (refreshTasks (boardOf file) nowMs).2) := by
    intro tasks htasks
    by_cases hsize : (boardOf file).tasks.size ≤ kBlackboardMaxTasks
    · rw [List.take_of_length_le (by omega)]
      exact (and_iff_right hsize).symm
    · refine iff_of_false (fun h => hsize ?_) fun h => hsize h.1
      rw [← htasks, h, List.length_take]
      exact Nat.min_le_left _ _
  cases hsweep : sweepExpired (boardOf file) nowMs with
  | error e =>
    refine iff_of_false (fun h => ?_) fun h => by obtain ⟨-, ⟨_, hok⟩, -⟩ := h; cases hok
    simp [sweepOrRefresh, hsweep, bind, Except.bind, Except.toOption] at h
  | ok sweep =>
    obtain ⟨dropped, swept⟩ := sweep
    have hdropped := dropped_iff hsweep
    cases dropped with
    | true =>
      -- the refresh is skipped, so the answers agree when no task waits for it
      have htasks : tasksOf swept = tasksOf (boardOf file) := by
        rw [tasksOf, (sweepExpired_frame hsweep).tasks]
        rfl
      have hread : sweepOrRefresh (boardOf file) nowMs = .ok (true, swept) := by
        simp [sweepOrRefresh, hsweep, bind, Except.bind, pure, Except.pure]
      rw [hread]
      change some (tasksOf swept) = _ ↔ _
      rw [Option.some_inj, htasks, htake _ (by rw [tasksOf, List.length_map, OrderedMap.size]), eq_comm,
        tasksOf_refreshTasks]
      simp [hdropped.mp rfl]
    | false =>
      cases sweepExpired_false hsweep
      have hread : sweepOrRefresh (boardOf file) nowMs = .ok (refreshTasks (boardOf file) nowMs) := by
        simp [sweepOrRefresh, hsweep, bind, Except.bind, pure, Except.pure]
      have hkept : ¬ EntryLapses (boardOf file) nowMs := fun h => by cases hdropped.mpr h
      rw [hread]
      change some (tasksOf (refreshTasks (boardOf file) nowMs).2) = _ ↔ _
      rw [Option.some_inj, htake _ hlength]
      simp [hkept]

end Answers

/-! A task that is claimed for ten seconds, and a key that is kept for one. -/

def sampleHeld : File :=
  Run.exec step none
    [⟨.taskCreate { taskId := "T", title := "t" }, 0⟩,
      ⟨.taskClaim { agentId := "a", leaseSeconds := 10 }, 0⟩,
      ⟨.write { path := "k", value := .integer 0, ttlSeconds := some 1 }, 0⟩]

/-- Once both have lapsed, the resource still shows the task as held. -/
theorem resource_shows_lapsed_lease : ¬ OneAnswer "default" sampleHeld 20000 := by
  rintro ⟨htasks, -⟩
  have hstatus := congrArg (Option.map (List.map Task.status)) htasks
  exact absurd hstatus (by decide +kernel)

/-- While only the key has lapsed, the answers agree. -/
theorem resource_answers_as_tools_held : OneAnswer "default" sampleHeld 2000 := by
  have hsweep : (sweepExpired (boardOf sampleHeld) 2000).toOption.isSome = true := by decide +kernel
  obtain ⟨sweep, hsweep⟩ := Option.isSome_iff_exists.mp hsweep
  refine (resource_answers_as_tools (by decide +kernel) (by decide +kernel)).mpr
    ⟨by decide +kernel, ⟨sweep, Except.toOption_eq_some.mp hsweep⟩, ?_⟩
  rintro ⟨-, taskId, task, hget, hstale⟩
  have hfresh : ((boardOf sampleHeld).tasks.entries.all fun e =>
      !leaseLapsed 2000 e.2 && !unblocked (boardOf sampleHeld).tasks e.2) = true := by decide +kernel
  have htask := List.all_eq_true.mp hfresh _ (OrderedMap.get_eq_some.mp hget)
  rw [Bool.and_eq_true, Bool.not_eq_true', Bool.not_eq_true'] at htask
  rcases hstale with h | h
  · rw [htask.1] at h
    cases h
  · rw [htask.2] at h
    cases h

end Didi.Blackboard
