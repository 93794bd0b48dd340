import Mathlib.Algebra.Order.BigOperators.Group.List
import Didi.Blackboard.Rules

/-!
# Dependencies

* `TasksGood` : a task keeps its key, only a task in progress holds a lease, and only a blocked task
  waits for a dependency; every elementary change preserves it (`TaskMove.good`);
* `Persists` : no task is lost and no completed task is reopened (`TaskMove.persists`);
* `Layered` : dependencies exist and rank below the task, so they cannot form a cycle;
* `dependencies_gate_work`, `task_graph_never_deadlocks` : what follows for every run.
-/

namespace Didi.Blackboard
open Relation
variable {tasks tasks' : OrderedMap String Task}
variable {tasks : OrderedMap String Task} {nowMs : Int} {task : Task} {request : BlackboardTaskUpdateRequest}

/-! ## What an update or a completion asks of the task -/

theorem updateProblem_none (h : updateProblem request nowMs task = none) :
    task.status ≠ .completed ∧
      ((hasLiveLease task nowMs = true ∧ leaseOwner task = request.agentId) ∨
        (hasLiveLease task nowMs = false ∧ reopening request = true ∧
          (task.status = .needsReview ∨ task.status = .failed))) := by
  unfold updateProblem at h
  split_ifs at h with h1 h2 h3 h4 h5
  · exact ⟨h1, .inl ⟨h2, not_not.mp h3⟩⟩
  · refine ⟨h1, .inr ⟨by simpa using h2, h4, ?_⟩⟩
    by_cases hreview : task.status = .needsReview
    · exact .inl hreview
    · by_cases hfailed : task.status = .failed
      · exact .inr hfailed
      · exact absurd ⟨hreview, hfailed⟩ h5

theorem completeProblem_none {request : BlackboardTaskCompleteRequest} (h : completeProblem request nowMs task = none) :
    task.status ≠ .completed ∧ hasLiveLease task nowMs = true ∧ leaseOwner task = request.agentId := by
  unfold completeProblem at h
  split_ifs at h with h1 h2 h3
  exact ⟨h1, by simpa using h2, not_not.mp h3⟩

theorem lease_of_live (h : hasLiveLease task nowMs = true) :
    ∃ lease, task.lease = some lease ∧ nowMs < lease.expiresAtMs := by
  unfold hasLiveLease at h
  split at h
  · cases h
  · exact ⟨_, ‹_›, by simpa using h⟩

@[simp] theorem updateTask_taskId (request : BlackboardTaskUpdateRequest) (nowMs : Int) (task : Task) :
    (updateTask request nowMs task).taskId = task.taskId := by
  unfold updateTask updateStatus
  dsimp only
  split
  · rfl
  · split <;> rfl

@[simp] theorem updateTask_dependencies (request : BlackboardTaskUpdateRequest) (nowMs : Int) (task : Task) :
    (updateTask request nowMs task).dependencies = task.dependencies := by
  unfold updateTask updateStatus
  dsimp only
  split
  · rfl
  · split <;> rfl

/-- An update that sets the status drops the lease. -/
theorem updateTask_of_status {status : String} (h : request.status = some status) (nowMs : Int) (task : Task) :
    (updateTask request nowMs task).lease = none ∧
      (updateTask request nowMs task).status = (settableStatus status).getD task.status := by
  unfold updateTask updateStatus
  dsimp only
  rw [h]
  exact ⟨rfl, rfl⟩

/-- An update that sets no status keeps it, and renews the lease if it was asked to. -/
theorem updateTask_of_no_status (h : request.status = none) (nowMs : Int) (task : Task) :
    (updateTask request nowMs task).status = task.status ∧
      (updateTask request nowMs task).lease = match request.renewLeaseSeconds with
        | some seconds => some (renewLease task.lease request.agentId nowMs seconds)
        | none => task.lease := by
  unfold updateTask updateStatus
  dsimp only
  rw [h]
  cases request.renewLeaseSeconds <;> exact ⟨rfl, rfl⟩

theorem settableStatus_ne {status : String} {found : TaskStatus} (h : settableStatus status = some found) :
    found = .needsReview ∨ found = .failed ∨ found = .pending := by
  unfold settableStatus at h
  split_ifs at h <;> cases h <;> simp

/-! ## Readiness -/

/-- What holds of the task map of every board that the tools stored. -/
structure TasksGood (tasks : OrderedMap String Task) : Prop where
  keyed : ∀ k task, tasks.get k = some task → task.taskId = k
  leased : ∀ k task, tasks.get k = some task → task.lease ≠ none → task.status = .inProgress
  gated : ∀ k task, tasks.get k = some task → task.status ≠ .blocked →
    ∀ d ∈ task.dependencies, isCompleted tasks d = true

theorem isCompleted_insert {k d : String} (hk : isCompleted tasks k = false) (hd : isCompleted tasks d = true) :
    isCompleted (tasks.insert k task) d = true := by
  have hne : d ≠ k := by
    rintro rfl
    rw [hd] at hk
    cases hk
  unfold isCompleted at hd ⊢
  rwa [OrderedMap.get_insert_of_ne _ _ hne]

theorem refreshTask_completed :
    (refreshTask tasks nowMs task).status = .completed ↔ task.status = .completed := by
  rcases refreshTask_cases tasks nowMs task with hs | ⟨hprogress, -, hs⟩ | ⟨hblocked, -, hs⟩ <;> rw [hs]
  · simp [hprogress]
  · simp [hblocked]

/-- A refresh completes nothing and reopens nothing. -/
theorem isCompleted_refreshedTasks (tasks : OrderedMap String Task) (nowMs : Int) (d : String) :
    isCompleted (refreshedTasks tasks nowMs) d = isCompleted tasks d := by
  rw [Bool.eq_iff_iff, isCompleted_iff, isCompleted_iff, get_refreshedTasks]
  cases tasks.get d with
  | none => simp
  | some task => simp [refreshTask_completed]

/-- A task that a refresh leaves blocked waits for something. -/
theorem refreshTask_blocked (h : (refreshTask tasks nowMs task).status = .blocked) :
    ¬ ∀ d ∈ (refreshTask tasks nowMs task).dependencies, isCompleted tasks d = true := by
  intro hready
  unfold refreshTask unblock at h hready
  by_cases hunblocked : unblocked tasks (lapseLease nowMs task) = true
  · rw [if_pos hunblocked] at h
    cases h
  · rw [if_neg hunblocked] at h hready
    refine hunblocked ?_
    unfold unblocked
    rw [Bool.and_eq_true, decide_eq_true_eq, List.all_eq_true]
    exact ⟨h, hready⟩

theorem TasksGood.empty : TasksGood ∅ where
  keyed := fun k task h => by cases h
  leased := fun k task h => by cases h
  gated := fun k task h => by cases h

theorem TasksGood.refresh (h : TasksGood tasks) (nowMs : Int) :
    TasksGood (refreshedTasks tasks nowMs) where
  keyed := by
    intro k task hk
    obtain ⟨task, hget, rfl⟩ := get_refreshedTasks_some hk
    rcases refreshTask_cases tasks nowMs task with hs | ⟨-, -, hs⟩ | ⟨-, -, hs⟩ <;> rw [hs] <;>
      exact h.keyed k task hget
  leased := by
    intro k task hk
    obtain ⟨task, hget, rfl⟩ := get_refreshedTasks_some hk
    rcases refreshTask_cases tasks nowMs task with hs | ⟨-, -, hs⟩ | ⟨hblocked, -, hs⟩ <;> rw [hs]
    · exact h.leased k task hget
    · exact fun hlease => absurd rfl hlease
    · intro hlease
      have := h.leased k task hget hlease
      rw [hblocked] at this
      cases this
  gated := by
    intro k task hk
    obtain ⟨task, hget, rfl⟩ := get_refreshedTasks_some hk
    rcases refreshTask_cases tasks nowMs task with hs | ⟨hprogress, -, hs⟩ | ⟨-, hready, hs⟩ <;> rw [hs]
    · intro hstatus d hd
      rw [isCompleted_refreshedTasks]
      exact h.gated k task hget hstatus d hd
    · intro _ d hd
      rw [isCompleted_refreshedTasks]
      exact h.gated k task hget (by rw [hprogress]; decide) d hd
    · intro _ d hd
      rw [isCompleted_refreshedTasks]
      exact hready d hd

/-- Replace a task that is neither completed nor blocked by one with its key and dependencies. -/
theorem TasksGood.replace (h : TasksGood tasks) {k : String} {found task : Task} (hfound : tasks.get k = some found)
    (hopen : found.status ≠ .completed) (hready : found.status ≠ .blocked) (hid : task.taskId = found.taskId)
    (hdeps : task.dependencies = found.dependencies) (hlease : task.lease ≠ none → task.status = .inProgress) :
    TasksGood (tasks.insert k task) := by
  have hk : isCompleted tasks k = false := by
    rw [Bool.eq_false_iff, ne_eq, isCompleted_iff]
    rintro ⟨other, hother, hstatus⟩
    rw [hfound] at hother
    cases hother
    exact hopen hstatus
  refine ⟨fun j other hj => ?_, fun j other hj => ?_, fun j other hj => ?_⟩ <;>
    rw [OrderedMap.get_insert] at hj <;> split_ifs at hj with hjk
  · cases hj
    rw [hid, h.keyed k found hfound, hjk]
  · exact h.keyed j other hj
  · cases hj
    exact hlease
  · exact h.leased j other hj
  · cases hj
    rw [hdeps]
    exact fun _ d hd => isCompleted_insert hk (h.gated k found hfound hready d hd)
  · exact fun hstatus d hd => isCompleted_insert hk (h.gated j other hj hstatus d hd)

theorem TasksGood.create (h : TasksGood tasks) {taskId : String} (hfresh : tasks.get taskId = none)
    (hid : task.taskId = taskId) (hlease : task.lease = none)
    (hgated : task.status ≠ .blocked → ∀ d ∈ task.dependencies, isCompleted tasks d = true) :
    TasksGood (tasks.insert taskId task) := by
  have hk : isCompleted tasks taskId = false := by
    rw [isCompleted, hfresh]
  refine ⟨fun j other hj => ?_, fun j other hj => ?_, fun j other hj => ?_⟩ <;>
    rw [OrderedMap.get_insert] at hj <;> split_ifs at hj with hjk
  · cases hj
    rw [hid, hjk]
  · exact h.keyed j other hj
  · cases hj
    exact fun hleased => absurd hlease hleased
  · exact h.leased j other hj
  · cases hj
    exact fun hstatus d hd => isCompleted_insert hk (hgated hstatus d hd)
  · exact fun hstatus d hd => isCompleted_insert hk (h.gated j other hj hstatus d hd)

/-- A task that may be updated is neither completed nor blocked. -/
theorem TasksGood.updatable (h : TasksGood tasks) {k : String} {found : Task} (hfound : tasks.get k = some found)
    (hallowed : updateProblem request nowMs found = none) :
    found.status ≠ .completed ∧ found.status ≠ .blocked ∧
      (hasLiveLease found nowMs = true ∧ found.status = .inProgress ∨ reopening request = true) := by
  obtain ⟨hopen, ⟨hlive, -⟩ | ⟨-, hreopen, hstatus⟩⟩ := updateProblem_none hallowed
  · obtain ⟨lease, hlease, -⟩ := lease_of_live hlive
    have hprogress := h.leased k found hfound (by rw [hlease]; simp)
    exact ⟨hopen, by rw [hprogress]; decide, .inl ⟨hlive, hprogress⟩⟩
  · refine ⟨hopen, ?_, .inr hreopen⟩
    rcases hstatus with hstatus | hstatus <;> rw [hstatus] <;> decide

theorem updateTask_leased {found : Task} (h : found.status = .inProgress ∨ reopening request = true)
    (hlease : (updateTask request nowMs found).lease ≠ none) :
    (updateTask request nowMs found).status = .inProgress := by
  cases hs : request.status with
  | some status => exact absurd (updateTask_of_status hs nowMs found).1 hlease
  | none =>
    rw [(updateTask_of_no_status hs nowMs found).1]
    rcases h with h | h
    · exact h
    · simp [reopening, hs] at h

/-- **Every elementary change keeps the task map good.** -/
theorem TaskMove.good (hmove : TaskMove nowMs tasks tasks') (h : TasksGood tasks) : TasksGood tasks' := by
  cases hmove with
  | refresh => exact h.refresh nowMs
  | @create request taskId hfresh hknown =>
    refine h.create hfresh rfl rfl fun hstatus d hd => ?_
    cases hready : request.dependencies.all (isCompleted tasks) with
    | true => exact List.all_eq_true.mp hready d hd
    | false => simp [newTask, hready] at hstatus
  | @claim request taskId found hfound hpending hfree =>
    refine h.replace hfound ?_ ?_ rfl rfl fun _ => rfl
    · rw [hpending]; decide
    · rw [hpending]; decide
  | @update request found hfound hallowed hstatus =>
    obtain ⟨hopen, hready, hwhy⟩ := h.updatable hfound hallowed
    exact h.replace hfound hopen hready (updateTask_taskId _ _ _) (updateTask_dependencies _ _ _)
      (updateTask_leased (hwhy.imp_left And.right))
  | @complete request found hfound hallowed =>
    obtain ⟨hopen, hlive, -⟩ := completeProblem_none hallowed
    obtain ⟨lease, hlease, -⟩ := lease_of_live hlive
    have hprogress := h.leased _ found hfound (by rw [hlease]; simp)
    exact h.replace hfound hopen (by rw [hprogress]; decide) rfl rfl fun hne => absurd rfl hne

theorem good_of_run (calls : List Call) : TasksGood (boardOf (Run.exec step none calls)).tasks :=
  tasks_of_run (fun _ _ _ hmove h => hmove.good h) calls TasksGood.empty

/-! ## Persistence -/

/-- No task is lost, and a completed one stays completed. -/
def Persists (tasks tasks' : OrderedMap String Task) : Prop :=
  ∀ k task, tasks.get k = some task →
    ∃ task', tasks'.get k = some task' ∧ (task.status = .completed → task'.status = .completed)

theorem Persists.refl (tasks : OrderedMap String Task) : Persists tasks tasks :=
  fun _ task h => ⟨task, h, id⟩

theorem Persists.trans {a b c : OrderedMap String Task} (hab : Persists a b) (hbc : Persists b c) :
    Persists a c := by
  intro k task h
  obtain ⟨task₁, h₁, hs₁⟩ := hab k task h
  obtain ⟨task₂, h₂, hs₂⟩ := hbc k task₁ h₁
  exact ⟨task₂, h₂, fun hs => hs₂ (hs₁ hs)⟩

theorem Persists.insert {k : String} (h : ∀ found, tasks.get k = some found → found.status ≠ .completed) :
    Persists tasks (tasks.insert k task) := by
  intro j other hj
  rw [OrderedMap.get_insert]
  split_ifs with hjk
  · subst hjk
    exact ⟨task, rfl, fun hs => absurd hs (h other hj)⟩
  · exact ⟨other, hj, id⟩

theorem TaskMove.persists (hmove : TaskMove nowMs tasks tasks') : Persists tasks tasks' := by
  cases hmove with
  | refresh =>
    intro k task h
    exact ⟨refreshTask tasks nowMs task, by rw [get_refreshedTasks, h]; rfl, refreshTask_completed.mpr⟩
  | create hfresh hknown =>
    refine .insert fun found hfound => ?_
    rw [hfresh] at hfound
    cases hfound
  | claim hfound hpending hfree =>
    refine .insert fun other hother => ?_
    rw [hfound] at hother
    cases hother
    rw [hpending]
    decide
  | update hfound hallowed hstatus =>
    refine .insert fun other hother => ?_
    rw [hfound] at hother
    cases hother
    exact (updateProblem_none hallowed).1
  | complete hfound hallowed =>
    refine .insert fun other hother => ?_
    rw [hfound] at hother
    cases hother
    exact (completeProblem_none hallowed).1

/-- **Dependencies gate work over whole runs**: after any calls every task that is not blocked has
all its dependencies present and completed, and whatever calls follow, no task is removed and no
completed task changes its status. -/
theorem dependencies_gate_work (before after : List Call) :
    let tasks := (boardOf (Run.exec step none before)).tasks
    let later := (boardOf (Run.exec step none (before ++ after))).tasks
    (∀ k task, tasks.get k = some task → task.status ≠ .blocked →
      ∀ d ∈ task.dependencies, ∃ dependency, tasks.get d = some dependency ∧ dependency.status = .completed) ∧
    ∀ k task, tasks.get k = some task →
      ∃ task', later.get k = some task' ∧ (task.status = .completed → task'.status = .completed) := by
  intro tasks later
  refine ⟨fun k task hk hstatus d hd => ?_, ?_⟩
  · exact isCompleted_iff.mp ((good_of_run before).gated k task hk hstatus d hd)
  · have hlater : Persists tasks later := by
      change Persists _ (boardOf (Run.exec step none (before ++ after))).tasks
      rw [Run.exec_append]
      exact tasks_of_run (P := Persists tasks) (fun _ _ _ hmove h => h.trans hmove.persists) after
        (Persists.refl tasks)
    exact hlater

/-! ## Acyclicity -/

/-- Whether a task depends on another. -/
def DependsOn (tasks : OrderedMap String Task) (k d : String) : Prop :=
  ∃ task, tasks.get k = some task ∧ d ∈ task.dependencies

/-- Every dependency exists and ranks below its task. -/
def Layered (tasks : OrderedMap String Task) : Prop :=
  ∃ rank : String → Nat, ∀ k d, DependsOn tasks k d → (∃ dependency, tasks.get d = some dependency) ∧ rank d < rank k

theorem Layered.acyclic (h : Layered tasks) (k : String) :
    ¬ TransGen (DependsOn tasks) k k := by
  obtain ⟨rank, hrank⟩ := h
  have hlt : ∀ j, TransGen (DependsOn tasks) k j → rank j < rank k := by
    intro j hj
    induction hj with
    | single hdep => exact (hrank _ _ hdep).2
    | tail _ hdep ih => exact (hrank _ _ hdep).2.trans ih
  exact fun hcycle => lt_irrefl _ (hlt k hcycle)

/-- A change that keeps the keys and the dependencies of the tasks keeps the layers. -/
theorem Layered.mono (h : Layered tasks) (hdeps : ∀ k d, DependsOn tasks' k d → DependsOn tasks k d)
    (hkeys : ∀ k task, tasks.get k = some task → ∃ task', tasks'.get k = some task') : Layered tasks' := by
  obtain ⟨rank, hrank⟩ := h
  refine ⟨rank, fun k d hd => ?_⟩
  obtain ⟨⟨dependency, hdependency⟩, hlt⟩ := hrank k d (hdeps k d hd)
  exact ⟨hkeys d dependency hdependency, hlt⟩

theorem Layered.replace (h : Layered tasks) {k : String} {found task : Task} (hfound : tasks.get k = some found)
    (hdeps : task.dependencies = found.dependencies) :
    Layered (tasks.insert k task) := by
  refine h.mono (fun j d hj => ?_) fun j other hj => ?_
  · obtain ⟨other, hother, hd⟩ := hj
    rw [OrderedMap.get_insert] at hother
    split_ifs at hother with hjk
    · cases hother
      exact ⟨found, hjk ▸ hfound, hdeps ▸ hd⟩
    · exact ⟨other, hother, hd⟩
  · rw [OrderedMap.get_insert]
    split_ifs
    · exact ⟨task, rfl⟩
    · exact ⟨other, hj⟩

/-- A new task goes on top: its dependencies exist already, and nothing depends on it yet. -/
theorem Layered.create (h : Layered tasks) {taskId : String} (hfresh : tasks.get taskId = none)
    (hknown : ∀ d ∈ task.dependencies, d ≠ taskId ∧ ∃ dependency, tasks.get d = some dependency) :
    Layered (tasks.insert taskId task) := by
  obtain ⟨rank, hrank⟩ := h
  have htop : ∀ d ∈ task.dependencies, rank d < (task.dependencies.map rank).sum + 1 := by
    intro d hd
    exact Nat.lt_succ_of_le (List.le_sum_of_mem (List.mem_map_of_mem hd))
  have hpresent : ∀ d dependency, tasks.get d = some dependency →
      ∃ dependency, (tasks.insert taskId task).get d = some dependency := by
    intro d dependency hd
    rw [OrderedMap.get_insert]
    split_ifs
    · exact ⟨task, rfl⟩
    · exact ⟨dependency, hd⟩
  refine ⟨fun k => if k = taskId then (task.dependencies.map rank).sum + 1 else rank k, fun k d hk => ?_⟩
  obtain ⟨other, hother, hd⟩ := hk
  rw [OrderedMap.get_insert] at hother
  split_ifs at hother with hkid
  · cases hother
    obtain ⟨hne, dependency, hdependency⟩ := hknown d hd
    refine ⟨hpresent d dependency hdependency, ?_⟩
    change (if d = taskId then _ else _) < (if k = taskId then _ else _)
    rw [if_neg hne, if_pos hkid]
    exact htop d hd
  · obtain ⟨⟨dependency, hdependency⟩, hlt⟩ := hrank k d ⟨other, hother, hd⟩
    refine ⟨hpresent d dependency hdependency, ?_⟩
    have hne : d ≠ taskId := by
      rintro rfl
      rw [hfresh] at hdependency
      cases hdependency
    change (if d = taskId then _ else _) < (if k = taskId then _ else _)
    rwa [if_neg hne, if_neg hkid]

theorem TaskMove.layered (hmove : TaskMove nowMs tasks tasks') (h : Layered tasks) : Layered tasks' := by
  cases hmove with
  | refresh =>
    refine h.mono (fun k d hk => ?_) fun k task hk => ?_
    · obtain ⟨task', hget, hd⟩ := hk
      obtain ⟨task, htask, rfl⟩ := get_refreshedTasks_some hget
      refine ⟨task, htask, ?_⟩
      rcases refreshTask_cases tasks nowMs task with hs | ⟨-, -, hs⟩ | ⟨-, -, hs⟩ <;> rw [hs] at hd <;> exact hd
    · exact ⟨refreshTask tasks nowMs task, by rw [get_refreshedTasks, hk]; rfl⟩
  | create hfresh hknown => exact h.create hfresh hknown
  | claim hfound hpending hfree => exact h.replace hfound rfl
  | update hfound hallowed hstatus => exact h.replace hfound (updateTask_dependencies _ _ _)
  | complete hfound hallowed => exact h.replace hfound rfl

theorem layered_of_run (calls : List Call) : Layered (boardOf (Run.exec step none calls)).tasks :=
  tasks_of_run (fun _ _ _ hmove h => hmove.layered h) calls ⟨fun _ => 0, fun k d ⟨_, h, _⟩ => by cases h⟩

/-- Among layered tasks, one of the lowest that are not completed waits for nothing. -/
theorem Layered.exists_ready (h : Layered tasks) {k : String} (hk : tasks.get k = some task)
    (hopen : task.status ≠ .completed) :
    ∃ j ready, tasks.get j = some ready ∧ ready.status ≠ .completed ∧
      ∀ d ∈ ready.dependencies, isCompleted tasks d = true := by
  obtain ⟨rank, hrank⟩ := h
  induction hn : rank k using Nat.strong_induction_on generalizing k task with
  | _ n ih =>
    by_cases hready : ∀ d ∈ task.dependencies, isCompleted tasks d = true
    · exact ⟨k, task, hk, hopen, hready⟩
    · obtain ⟨d, hd, hincomplete⟩ : ∃ d ∈ task.dependencies, ¬ isCompleted tasks d = true := by
        simpa using hready
      obtain ⟨⟨dependency, hdependency⟩, hlt⟩ := hrank k d ⟨task, hk, hd⟩
      refine ih (rank d) (hn ▸ hlt) hdependency (fun hs => ?_) rfl
      exact hincomplete (isCompleted_iff.mpr ⟨dependency, hdependency, hs⟩)

/-- **The task graph never deadlocks**: after any calls the dependencies form no cycle, and after a
refresh at any clock reading, if some task is not completed then some task is neither blocked nor
completed. -/
theorem task_graph_never_deadlocks (calls : List Call) (nowMs : Int) :
    let board := boardOf (Run.exec step none calls)
    let refreshed := (refreshTasks board nowMs).2.tasks
    (∀ k, ¬ TransGen (DependsOn board.tasks) k k) ∧
    ((∃ k task, refreshed.get k = some task ∧ task.status ≠ .completed) →
      ∃ k task, refreshed.get k = some task ∧ task.status ≠ .blocked ∧ task.status ≠ .completed) := by
  intro board refreshed
  have hlayered : Layered board.tasks := layered_of_run calls
  refine ⟨hlayered.acyclic, ?_⟩
  rintro ⟨k, task, hk, hopen⟩
  have hrefreshed : Layered refreshed := (@TaskMove.refresh nowMs board.tasks).layered hlayered
  obtain ⟨j, ready, hj, hjopen, hready⟩ := hrefreshed.exists_ready hk hopen
  refine ⟨j, ready, hj, fun hblocked => ?_, hjopen⟩
  -- the refresh would have readied it, since what it waits for was completed before as well
  obtain ⟨before, -, rfl⟩ := get_refreshedTasks_some hj
  refine refreshTask_blocked hblocked fun d hd => ?_
  have hdone := hready d hd
  change isCompleted (refreshedTasks board.tasks nowMs) d = true at hdone
  rwa [isCompleted_refreshedTasks] at hdone

end Didi.Blackboard
