import Didi.Blackboard.Steps
import Mathlib.Logic.Relation

/-!
# What a call does to the keys and to the tasks

`KeyMove` : the changes of a board that reach its tree and its metadata, by the operation that makes
them. `step_keyMove` : the change of the board by a call is one of them; the tools on tasks, the
refusals and the dry runs change at most the tasks.

* `get_refreshedTasks` : what a refresh makes of each task;
* `scanTasks_chosen` : a claim chooses a pending task that nobody holds;
* `TaskMove` : the elementary changes of the task map, and `step_taskMoves` : the change of the map
  by a call is a sequence of them;
* `tasks_of_run` : what every elementary change preserves holds after every run.
-/

namespace Didi.Blackboard
variable {nowMs : Int}

inductive KeyMove (loaded : Board) (nowMs : Int) : Operation → Board → Prop
  | kept (operation : Operation) (tasks : OrderedMap String Task) :
      KeyMove loaded nowMs operation { loaded with tasks := tasks }
  | swept {operation : Operation} {dropped : Bool} {swept : Board} (hsaves : operation.savesSweep = true)
      (hsweep : sweepExpired loaded nowMs = .ok (dropped, swept)) : KeyMove loaded nowMs operation swept
  | wrote {request : BlackboardWriteRequest} {parts : List String} {dropped : Bool} {swept : Board}
      {plan : WritePlan} (hreal : request.dryRun = false)
      (hparts : blackboardSplitPath request.path = .ok parts)
      (hsweep : sweepExpired loaded nowMs = .ok (dropped, swept))
      (hplan : WritePlanned request parts nowMs swept plan) : KeyMove loaded nowMs (.write request) plan.board
  | patched {request : BlackboardPatchRequest} {operations : List Json} {dropped : Bool} {swept plan : Board}
      (hreal : request.dryRun = false) (hoperations : elementsOf request.operations = some operations)
      (hsweep : sweepExpired loaded nowMs = .ok (dropped, swept))
      (hplan : PatchPlanned request operations swept plan) : KeyMove loaded nowMs (.patch request) plan
  | cleared {request : BlackboardClearRequest} {parts : List String} {dropped : Bool} {swept : Board}
      {plan : ClearEvent × Board} (hreal : request.dryRun = false)
      (hparts : splitOptionalPath request.path = .ok parts)
      (hsweep : sweepExpired loaded nowMs = .ok (dropped, swept))
      (hplan : ClearPlanned request nowMs swept parts plan) : KeyMove loaded nowMs (.clear request) plan.2

theorem Stores.keyMove {loaded board : Board} {operation : Operation}
    (h : Stores loaded nowMs operation board) : KeyMove loaded nowMs operation board := by
  cases h with
  | wrote hreal hparts hsweep hplan => exact .wrote hreal hparts hsweep hplan
  | patched hreal hoperations hsweep hplan => exact .patched hreal hoperations hsweep hplan
  | cleared hreal hparts hsweep hplan => exact .cleared hreal hparts hsweep hplan
  | created hreal hplan => exact .kept _ _
  | claimed hreal hrefresh hchosen =>
    rw [hrefresh]
    exact .kept _ _
  | updated hreal hrefresh hfound hallowed hstatus =>
    rw [hrefresh]
    exact .kept _ _
  | completed hreal hrefresh hfound hallowed =>
    rw [hrefresh]
    exact .kept _ _

/-- **The change of a board by a call**, as far as the keys are concerned. -/
theorem step_keyMove (file : File) (call : Call) :
    KeyMove (boardOf file) call.nowMs call.operation (boardOf (step file call).2) := by
  rcases step_leaves file call with h | ⟨board, h, -, htidy | ⟨-, hstores⟩⟩
  · rw [h]
    exact .kept _ (boardOf file).tasks
  · rw [h]
    cases htidy with
    | swept hsaves hsweep => exact .swept hsaves hsweep
    | refreshed hrefresh =>
      obtain rfl : (refreshTasks (boardOf file) call.nowMs).2 = board := by rw [hrefresh]
      exact .kept _ _
  · rw [h]
    exact hstores.keyMove

/-- A file that a call leaves can be loaded if the one it found can. -/
theorem step_loads {file : File} {call : Call} (h : Loads file) : Loads (step file call).2 := by
  rcases step_leaves file call with hsame | ⟨board, hboard, hsize, -⟩
  · rwa [hsame]
  · rw [hboard]
    rintro _ ⟨⟩
    exact hsize

theorem get_eraseAll {α : Type} (m : OrderedMap String α) (keys : List String) (k : String) :
    (eraseAll m keys).get k = if k ∈ keys then none else m.get k := by
  induction keys generalizing m with
  | nil => simp [eraseAll]
  | cons key keys ih =>
    have hfold : eraseAll m (key :: keys) = eraseAll (m.erase key) keys := rfl
    rw [hfold, ih, OrderedMap.get_erase]
    by_cases hk : k = key <;> by_cases hmem : k ∈ keys <;> simp [hk, hmem]

/-! ## What a call does to the tasks -/

open Relation

/-! ## Refreshing -/

theorem isCompleted_iff {tasks : OrderedMap String Task} {k : String} :
    isCompleted tasks k = true ↔ ∃ task, tasks.get k = some task ∧ task.status = .completed := by
  unfold isCompleted
  cases h : tasks.get k with
  | none => simp
  | some task => simp

theorem lapseLease_status {task : Task} :
    (lapseLease nowMs task).status = .completed ↔ task.status = .completed := by
  unfold lapseLease leaseLapsed
  split_ifs with h
  · simp only [Bool.and_eq_true, decide_eq_true_eq] at h
    simp [h.1]
  · rfl

/-- What a refresh makes of a task. -/
def refreshTask (tasks : OrderedMap String Task) (nowMs : Int) (task : Task) : Task :=
  unblock tasks (lapseLease nowMs task)

theorem isCompleted_lapsed (tasks : OrderedMap String Task) (nowMs : Int) (k : String) :
    isCompleted (tasks.mapVal fun _ task => lapseLease nowMs task) k = isCompleted tasks k := by
  rw [Bool.eq_iff_iff, isCompleted_iff, isCompleted_iff, OrderedMap.get_mapVal]
  cases tasks.get k with
  | none => simp
  | some task => simp [lapseLease_status]

/-- A refresh treats each task by itself: what it reads of the others it does not change. -/
theorem get_refreshedTasks (tasks : OrderedMap String Task) (nowMs : Int) (k : String) :
    (refreshedTasks tasks nowMs).get k = (tasks.get k).map (refreshTask tasks nowMs) := by
  have hunblock : ∀ task, unblock (tasks.mapVal fun _ task => lapseLease nowMs task) task = unblock tasks task := by
    intro task
    unfold unblock unblocked
    simp only [funext (isCompleted_lapsed tasks nowMs)]
  unfold refreshedTasks
  rw [OrderedMap.get_mapVal, OrderedMap.get_mapVal, Option.map_map]
  exact congrArg (fun f => (tasks.get k).map f) (funext fun task => hunblock _)

theorem get_refreshedTasks_some {tasks : OrderedMap String Task} {k : String} {task' : Task}
    (h : (refreshedTasks tasks nowMs).get k = some task') :
    ∃ task, tasks.get k = some task ∧ task' = refreshTask tasks nowMs task := by
  rw [get_refreshedTasks] at h
  obtain ⟨task, htask, rfl⟩ := Option.map_eq_some_iff.mp h
  exact ⟨task, htask, rfl⟩

/-- A refreshed task is the task with another status, lease and assignee. -/
theorem refreshTask_cases (tasks : OrderedMap String Task) (nowMs : Int) (task : Task) :
    refreshTask tasks nowMs task = task ∨
      (task.status = .inProgress ∧ hasLiveLease task nowMs = false ∧
        refreshTask tasks nowMs task = { task with status := .pending, lease := none, assignedTo := none }) ∨
      (task.status = .blocked ∧ (∀ d ∈ task.dependencies, isCompleted tasks d = true) ∧
        refreshTask tasks nowMs task = { task with status := .pending }) := by
  unfold refreshTask lapseLease
  by_cases hlapsed : leaseLapsed nowMs task = true
  · rw [if_pos hlapsed]
    unfold leaseLapsed at hlapsed
    simp only [Bool.and_eq_true, decide_eq_true_eq, Bool.not_eq_true'] at hlapsed
    exact .inr (.inl ⟨hlapsed.1, hlapsed.2, by simp [unblock, unblocked]⟩)
  · rw [if_neg hlapsed]
    unfold unblock
    by_cases hready : unblocked tasks task = true
    · rw [if_pos hready]
      unfold unblocked at hready
      simp only [Bool.and_eq_true, decide_eq_true_eq, List.all_eq_true] at hready
      exact .inr (.inr ⟨hready.1, hready.2, rfl⟩)
    · rw [if_neg hready]
      exact .inl rfl

/-! ## Claiming -/

/-- What a scan has chosen so far: nothing, or a pending task that nobody holds. -/
def ScanGood (nowMs : Int) (entries : List (String × Task)) (scan : Scan) : Prop :=
  scan.chosen = "" ∨ ∃ task, (scan.chosen, task) ∈ entries ∧ task.status = .pending ∧
    hasLiveLease task nowMs = false

theorem scanTask_good {request : BlackboardTaskClaimRequest} {entries : List (String × Task)} {scan : Scan}
    {entry : String × Task} (hentry : entry ∈ entries) (h : ScanGood nowMs entries scan) :
    ScanGood nowMs entries (scanTask request nowMs scan entry) := by
  unfold scanTask
  dsimp only
  split_ifs with h1 h2 h3 h4 h5 h6
  · exact h
  · exact h
  · exact h
  · exact h
  · exact h
  · exact .inr ⟨entry.2, hentry, by simpa using h5, by simpa using h3⟩
  · exact h

theorem scanTasks_good (request : BlackboardTaskClaimRequest) (nowMs : Int) (board : Board) :
    ScanGood nowMs board.tasks.entries (scanTasks request nowMs board) := by
  have hfold : ∀ l : List (String × Task), (∀ e ∈ l, e ∈ board.tasks.entries) → ∀ scan,
      ScanGood nowMs board.tasks.entries scan →
        ScanGood nowMs board.tasks.entries (l.foldl (scanTask request nowMs) scan) := by
    intro l
    induction l with
    | nil => exact fun _ _ h => h
    | cons e l ih =>
      intro hl scan h
      exact ih (fun e' he' => hl e' (List.mem_cons_of_mem _ he')) _
        (scanTask_good (hl e List.mem_cons_self) h)
  exact hfold _ (fun _ h => h) _ (.inl rfl)

/-- **A claim chooses a pending task that nobody holds.** -/
theorem scanTasks_chosen {request : BlackboardTaskClaimRequest} {board : Board} {task : Task}
    (h : chosenTask board (scanTasks request nowMs board) = some task) :
    board.tasks.get (scanTasks request nowMs board).chosen = some task ∧ task.status = .pending ∧
      hasLiveLease task nowMs = false := by
  unfold chosenTask at h
  split_ifs at h with hempty
  rcases scanTasks_good request nowMs board with hnone | ⟨found, hmem, hpending, hfree⟩
  · exact absurd hnone hempty
  · have hget := OrderedMap.get_eq_some.mpr hmem
    rw [h] at hget
    cases hget
    exact ⟨h, hpending, hfree⟩

/-! ## Elementary changes -/

/-- The elementary changes of the task map. -/
inductive TaskMove (nowMs : Int) : OrderedMap String Task → OrderedMap String Task → Prop
  | refresh {tasks : OrderedMap String Task} : TaskMove nowMs tasks (refreshedTasks tasks nowMs)
  | create {tasks : OrderedMap String Task} {request : BlackboardTaskCreateRequest} {taskId : String}
      (hfresh : tasks.get taskId = none)
      (hknown : ∀ d ∈ request.dependencies, d ≠ taskId ∧ ∃ dependency, tasks.get d = some dependency)
      (hnamed : taskId ≠ "") :
      TaskMove nowMs tasks (tasks.insert taskId
        (newTask request taskId nowMs (request.dependencies.all (isCompleted tasks))))
  | claim {tasks : OrderedMap String Task} {request : BlackboardTaskClaimRequest} {taskId : String}
      {found : Task} (hfound : tasks.get taskId = some found) (hpending : found.status = .pending)
      (hfree : hasLiveLease found nowMs = false) :
      TaskMove nowMs tasks (tasks.insert taskId (claimTask request nowMs found))
  | update {tasks : OrderedMap String Task} {request : BlackboardTaskUpdateRequest} {found : Task}
      (hfound : tasks.get request.taskId = some found)
      (hallowed : updateProblem request nowMs found = none)
      (hstatus : ∀ status, request.status = some status → (settableStatus status).isSome = true) :
      TaskMove nowMs tasks (tasks.insert request.taskId (updateTask request nowMs found))
  | complete {tasks : OrderedMap String Task} {request : BlackboardTaskCompleteRequest} {found : Task}
      (hfound : tasks.get request.taskId = some found)
      (hallowed : completeProblem request nowMs found = none) :
      TaskMove nowMs tasks (tasks.insert request.taskId (completeTask request nowMs found))

theorem Tidies.taskMoves {loaded board : Board} {operation : Operation} (h : Tidies loaded nowMs operation board) :
    ReflTransGen (TaskMove nowMs) loaded.tasks board.tasks := by
  cases h with
  | swept _ h =>
    rw [(sweepExpired_frame h).tasks]
  | refreshed h =>
    obtain rfl : (refreshTasks loaded nowMs).2 = board := by rw [h]
    exact .single .refresh

theorem Stores.taskMoves {loaded board : Board} {operation : Operation} (h : Stores loaded nowMs operation board) :
    ReflTransGen (TaskMove nowMs) loaded.tasks board.tasks := by
  have refresh : ReflTransGen (TaskMove nowMs) loaded.tasks (refreshTasks loaded nowMs).2.tasks :=
    .single .refresh
  cases h with
  | wrote hreal hparts hsweep hplan =>
    obtain ⟨⟨state, -, hboard⟩, -, -⟩ := hplan
    rw [hboard, ← (sweepExpired_frame hsweep).tasks]
  | patched hreal hoperations hsweep hplan =>
    rw [hplan.board, ← (sweepExpired_frame hsweep).tasks]
  | cleared hreal hparts hsweep hplan =>
    rw [← (sweepExpired_frame hsweep).tasks]
    cases hplan with
    | all => exact .refl
    | path hne hremoved hleft =>
      obtain ⟨-, hboard, -, -⟩ := clearPath_ok (hleft hreal)
      rw [hboard]
      exact .refl
  | created hreal hplan =>
    obtain ⟨hfresh, hknown, hnamed, htask⟩ := hplan
    refine refresh.tail ?_
    rw [htask]
    exact .create hfresh hknown hnamed
  | claimed hreal hrefresh hchosen =>
    subst hrefresh
    obtain ⟨hget, hpending, hfree⟩ := scanTasks_chosen hchosen
    exact refresh.tail (.claim hget hpending hfree)
  | updated hreal hrefresh hfound hallowed hstatus =>
    subst hrefresh
    exact (refresh.tail (.update hfound hallowed hstatus)).tail .refresh
  | completed hreal hrefresh hfound hallowed =>
    subst hrefresh
    exact (refresh.tail (.complete hfound hallowed)).tail .refresh

/-- The change of the task map by a call is a sequence of elementary changes. -/
theorem step_taskMoves (file : File) (call : Call) :
    ReflTransGen (TaskMove call.nowMs) (boardOf file).tasks (boardOf (step file call).2).tasks := by
  rcases step_leaves file call with h | ⟨board, h, -, htidy | ⟨-, hstores⟩⟩
  · rw [h]
  · rw [h]
    exact htidy.taskMoves
  · rw [h]
    exact hstores.taskMoves

/-- **What every elementary change of the tasks preserves holds after every run.** -/
theorem tasks_of_run {P : OrderedMap String Task → Prop}
    (hmove : ∀ nowMs tasks tasks', TaskMove nowMs tasks tasks' → P tasks → P tasks') {file : File}
    (calls : List Call) (hfile : P (boardOf file).tasks) :
    P (boardOf (Run.exec step file calls)).tasks := by
  refine Run.exec_of_step (P := fun file => P (boardOf file).tasks) (fun file call h => ?_) calls hfile
  have hmoves : ∀ tasks, ReflTransGen (TaskMove call.nowMs) (boardOf file).tasks tasks → P tasks := by
    intro tasks hmoves
    induction hmoves with
    | refl => exact h
    | tail _ hlast ih => exact hmove _ _ _ hlast ih
  exact hmoves _ (step_taskMoves file call)

end Didi.Blackboard
