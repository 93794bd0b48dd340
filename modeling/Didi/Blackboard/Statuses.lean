import Didi.Blackboard.Dependencies

/-!
# Statuses, leases, and what a completion releases

* `Agrees` : a task is in progress exactly when it carries a lease, and the lease is its assignee's;
  every elementary change preserves it (`TaskMove.agrees`);
* `Waiting` : a blocked task waits for something; every call preserves it (`step_waiting`), since what
  may complete a task refreshes the board afterwards;
* `mem_releasedTasks` : what a completion releases;
* `statuses_agree` : what follows for every run.
-/

namespace Didi.Blackboard

/-! ## The status, the lease and the assignee -/

/-- The task is in progress exactly when it carries a lease, and the lease is its assignee's. -/
structure Agrees (task : Task) : Prop where
  leased : task.status = .inProgress ↔ task.lease ≠ none
  assigned : ∀ lease, task.lease = some lease → task.assignedTo = some lease.owner

section Agrees
variable {task found : Task} {tasks tasks' : OrderedMap String Task} {nowMs : Int}

theorem Agrees.free (hstatus : task.status ≠ .inProgress) (hlease : task.lease = none) : Agrees task where
  leased := by simp [hstatus, hlease]
  assigned := by simp [hlease]

theorem Agrees.held {lease : Lease} (hstatus : task.status = .inProgress) (hlease : task.lease = some lease)
    (hassigned : task.assignedTo = some lease.owner) : Agrees task where
  leased := by simp [hstatus, hlease]
  assigned := by
    intro other hother
    rw [hlease] at hother
    cases hother
    exact hassigned

theorem Agrees.lease_eq_none (h : Agrees task) (hstatus : task.status ≠ .inProgress) : task.lease = none :=
  not_not.mp fun hlease => hstatus (h.leased.mpr hlease)

theorem Agrees.refresh (h : Agrees task) (tasks : OrderedMap String Task) (nowMs : Int) :
    Agrees (refreshTask tasks nowMs task) := by
  rcases refreshTask_cases tasks nowMs task with hs | ⟨-, -, hs⟩ | ⟨hblocked, -, hs⟩ <;> rw [hs]
  · exact h
  · exact .free nofun rfl
  · exact .free nofun (h.lease_eq_none (by rw [hblocked]; decide))

/-- An update that sets no status leaves the assignee. -/
theorem updateTask_assignedTo {request : BlackboardTaskUpdateRequest} (h : request.status = none) (nowMs : Int)
    (task : Task) : (updateTask request nowMs task).assignedTo = task.assignedTo := by
  unfold updateTask updateStatus
  dsimp only
  rw [h]
  cases request.renewLeaseSeconds <;> rfl

theorem Agrees.update {request : BlackboardTaskUpdateRequest} (h : Agrees found)
    (hallowed : updateProblem request nowMs found = none)
    (hstatus : ∀ status, request.status = some status → (settableStatus status).isSome = true) :
    Agrees (updateTask request nowMs found) := by
  cases hset : request.status with
  | some status =>
    obtain ⟨hlease, hs⟩ := updateTask_of_status hset nowMs found
    obtain ⟨set, hsettable⟩ := Option.isSome_iff_exists.mp (hstatus status hset)
    rw [hsettable, Option.getD_some] at hs
    refine .free ?_ hlease
    rw [hs]
    rcases settableStatus_ne hsettable with rfl | rfl | rfl <;> decide
  | none =>
    obtain ⟨hs, hlease⟩ := updateTask_of_no_status hset nowMs found
    have hassigned := updateTask_assignedTo hset nowMs found
    -- only a reopening goes without a live lease of the agent's, and that sets the status
    obtain ⟨-, ⟨hlive, howner⟩ | ⟨-, hreopen, -⟩⟩ := updateProblem_none hallowed
    · obtain ⟨lease, hfound, -⟩ := lease_of_live hlive
      have howner : lease.owner = request.agentId := by
        rwa [leaseOwner, hfound] at howner
      have hprogress : found.status = .inProgress := h.leased.mpr (by rw [hfound]; simp)
      have hmine : (updateTask request nowMs found).assignedTo = some request.agentId := by
        rw [hassigned, h.assigned lease hfound, howner]
      cases hrenew : request.renewLeaseSeconds with
      | none =>
        rw [hrenew, hfound] at hlease
        exact .held (hs.trans hprogress) hlease (hmine.trans (congrArg some howner.symm))
      | some seconds =>
        rw [hrenew] at hlease
        exact .held (hs.trans hprogress) hlease hmine
    · rw [reopening, hset] at hreopen
      cases hreopen

/-- **Every elementary change keeps statuses and leases in agreement.** -/
theorem TaskMove.agrees (hmove : TaskMove nowMs tasks tasks') (h : ∀ k task, tasks.get k = some task → Agrees task) :
    ∀ k task, tasks'.get k = some task → Agrees task := by
  have insert : ∀ k task, Agrees task → ∀ j other, (tasks.insert k task).get j = some other → Agrees other := by
    intro k task htask j other hj
    rw [OrderedMap.get_insert] at hj
    split_ifs at hj with hjk
    · cases hj
      exact htask
    · exact h j other hj
  cases hmove with
  | refresh =>
    intro k task hk
    obtain ⟨task, hget, rfl⟩ := get_refreshedTasks_some hk
    exact (h k task hget).refresh tasks nowMs
  | @create request taskId hfresh hknown =>
    refine insert _ _ (.free ?_ rfl)
    unfold newTask
    dsimp only
    split_ifs <;> decide
  | claim hfound hpending hfree => exact insert _ _ (.held rfl rfl rfl)
  | update hfound hallowed hstatus => exact insert _ _ ((h _ _ hfound).update hallowed hstatus)
  | complete hfound hallowed => exact insert _ _ (.free nofun rfl)

end Agrees

theorem agrees_of_run (calls : List Call) :
    ∀ k task, (boardOf (Run.exec step none calls)).tasks.get k = some task → Agrees task :=
  tasks_of_run (P := fun tasks => ∀ k task, tasks.get k = some task → Agrees task)
    (fun _ _ _ hmove h => hmove.agrees h) calls fun k task h => by cases h

/-! ## Blocked tasks -/

/-- Every blocked task waits for something. -/
def Waiting (tasks : OrderedMap String Task) : Prop :=
  ∀ k task, tasks.get k = some task → task.status = .blocked →
    ¬ ∀ d ∈ task.dependencies, isCompleted tasks d = true

section Waiting
variable {tasks : OrderedMap String Task} {nowMs : Int} {k : String} {task : Task}

theorem Waiting.refreshed (tasks : OrderedMap String Task) (nowMs : Int) : Waiting (refreshedTasks tasks nowMs) := by
  intro k task hk hblocked hready
  obtain ⟨task, -, rfl⟩ := get_refreshedTasks_some hk
  refine refreshTask_blocked hblocked fun d hd => ?_
  rw [← isCompleted_refreshedTasks tasks nowMs]
  exact hready d hd

theorem isCompleted_insert_iff {d : String} :
    isCompleted (tasks.insert k task) d = true ↔
      d = k ∧ task.status = .completed ∨ d ≠ k ∧ isCompleted tasks d = true := by
  unfold isCompleted
  rw [OrderedMap.get_insert]
  split_ifs with hdk
  · simp [hdk]
  · simp [hdk]

/-- A task that is not completed, put among waiting tasks, releases none of them. -/
theorem Waiting.insert (h : Waiting tasks) (hopen : task.status ≠ .completed)
    (htask : task.status = .blocked → ¬ ∀ d ∈ task.dependencies, isCompleted tasks d = true) :
    Waiting (tasks.insert k task) := by
  have hback : ∀ d, isCompleted (tasks.insert k task) d = true → isCompleted tasks d = true := by
    intro d hd
    rcases isCompleted_insert_iff.mp hd with ⟨-, hcompleted⟩ | ⟨-, hd⟩
    · exact absurd hcompleted hopen
    · exact hd
  intro j other hj hblocked hready
  rw [OrderedMap.get_insert] at hj
  split_ifs at hj with hjk
  · cases hj
    exact htask hblocked fun d hd => hback d (hready d hd)
  · exact h j other hj hblocked fun d hd => hback d (hready d hd)

/-- Among waiting tasks a refresh changes no blocked one. -/
theorem Waiting.get_refreshedTasks (h : Waiting tasks) :
    (refreshedTasks tasks nowMs).get k = some task ∧ task.status = .blocked ↔
      tasks.get k = some task ∧ task.status = .blocked := by
  constructor
  · rintro ⟨hk, hblocked⟩
    obtain ⟨task, hget, rfl⟩ := get_refreshedTasks_some hk
    rcases refreshTask_cases tasks nowMs task with hs | ⟨-, -, hs⟩ | ⟨-, -, hs⟩
    · rw [hs] at hblocked ⊢
      exact ⟨hget, hblocked⟩
    · rw [hs] at hblocked
      cases hblocked
    · rw [hs] at hblocked
      cases hblocked
  · rintro ⟨hget, hblocked⟩
    refine ⟨?_, hblocked⟩
    rw [Blackboard.get_refreshedTasks, hget]
    rcases refreshTask_cases tasks nowMs task with hs | ⟨hprogress, -, -⟩ | ⟨-, hready, -⟩
    · rw [Option.map_some, hs]
    · rw [hblocked] at hprogress
      cases hprogress
    · exact absurd hready (h k task hget hblocked)

end Waiting

theorem Tidies.waiting {loaded board : Board} {nowMs : Int} {operation : Operation}
    (h : Tidies loaded nowMs operation board) (hloaded : Waiting loaded.tasks) : Waiting board.tasks := by
  cases h with
  | swept _ h => rwa [(sweepExpired_frame h).tasks]
  | refreshed h =>
    obtain rfl : (refreshTasks loaded nowMs).2 = board := by rw [h]
    exact .refreshed _ _

theorem Stores.waiting {loaded board : Board} {nowMs : Int} {operation : Operation}
    (h : Stores loaded nowMs operation board) (hloaded : Waiting loaded.tasks) : Waiting board.tasks := by
  have hrefreshed : Waiting (refreshTasks loaded nowMs).2.tasks := .refreshed _ _
  cases h with
  | wrote hreal hparts hsweep hplan =>
    obtain ⟨⟨state, -, hboard⟩, -, -⟩ := hplan
    rwa [hboard, (sweepExpired_frame hsweep).tasks]
  | patched hreal hoperations hsweep hplan => rwa [hplan.board, (sweepExpired_frame hsweep).tasks]
  | cleared hreal hparts hsweep hplan =>
    rw [← (sweepExpired_frame hsweep).tasks] at hloaded
    cases hplan with
    | all => exact hloaded
    | path hne hremoved hleft =>
      rw [(clearPath_ok (hleft hreal)).board]
      exact hloaded
  | @created request task hreal hplan =>
    obtain ⟨-, -, -, htask⟩ := hplan
    rw [htask]
    refine hrefreshed.insert ?_ fun hblocked hready => ?_
    · unfold newTask
      dsimp only
      split_ifs <;> decide
    · have hpending := List.all_eq_true.mpr hready
      simp only [newTask] at hblocked hpending
      rw [hpending] at hblocked
      cases hblocked
  | claimed hreal hrefresh hchosen =>
    subst hrefresh
    exact hrefreshed.insert (fun h => by cases h) (fun h => by cases h)
  | updated hreal hrefresh hfound hallowed hstatus => exact .refreshed _ _
  | completed hreal hrefresh hfound hallowed => exact .refreshed _ _

theorem step_waiting (file : File) (call : Call) (h : Waiting (boardOf file).tasks) :
    Waiting (boardOf (step file call).2).tasks := by
  rcases step_leaves file call with hsame | ⟨board, hboard, -, htidy | ⟨-, hstores⟩⟩
  · rwa [hsame]
  · rw [hboard]
    exact htidy.waiting h
  · rw [hboard]
    exact hstores.waiting h

theorem waiting_of_run (calls : List Call) : Waiting (boardOf (Run.exec step none calls)).tasks :=
  Run.exec_of_step (P := fun file => Waiting (boardOf file).tasks) (fun file call h => step_waiting file call h) calls
    fun k task h => by cases h

/-! ## What a completion releases -/

theorem nodup_releasedTasks (board projected : Board) : (releasedTasks board projected).Nodup :=
  List.pairwise_map.mpr ((projected.tasks.sorted.sublist List.filter_sublist).imp fun h => h.ne)

/-- A completion releases the blocked tasks that then wait for nothing more. -/
theorem mem_releasedTasks {board : Board} {taskId k : String} {found task : Task} {nowMs : Int}
    (hfound : board.tasks.get taskId = some found) (hopen : found.status ≠ .blocked) :
    k ∈ releasedTasks board (retasked board taskId task nowMs) ↔
      ∃ before, board.tasks.get k = some before ∧ before.status = .blocked ∧
        ∀ d ∈ before.dependencies, isCompleted (board.tasks.insert taskId task) d = true := by
  have hmem : k ∈ releasedTasks board (retasked board taskId task nowMs) ↔ ∃ after,
      (retasked board taskId task nowMs).tasks.get k = some after ∧ after.status = .pending ∧
        ∃ before, board.tasks.get k = some before ∧ before.status = .blocked := by
    simp [releasedTasks, ← OrderedMap.get_eq_some, Option.any_eq_true]
  have hsame : ∀ before, board.tasks.get k = some before → before.status = .blocked →
      (retasked board taskId task nowMs).tasks.get k =
        some (refreshTask (board.tasks.insert taskId task) nowMs before) := by
    intro before hbefore hblocked
    have hne : k ≠ taskId := by
      rintro rfl
      rw [hfound] at hbefore
      cases hbefore
      exact hopen hblocked
    change (refreshedTasks (board.tasks.insert taskId task) nowMs).get k = _
    rw [Blackboard.get_refreshedTasks, OrderedMap.get_insert_of_ne _ _ hne, hbefore]
    rfl
  rw [hmem]
  constructor
  · rintro ⟨after, hafter, hpending, before, hbefore, hblocked⟩
    refine ⟨before, hbefore, hblocked, ?_⟩
    rw [hsame before hbefore hblocked] at hafter
    cases hafter
    rcases refreshTask_cases (board.tasks.insert taskId task) nowMs before with hs | ⟨hprogress, -, -⟩ | ⟨-, hready, -⟩
    · rw [hs, hblocked] at hpending
      cases hpending
    · rw [hblocked] at hprogress
      cases hprogress
    · exact hready
  · rintro ⟨before, hbefore, hblocked, hready⟩
    refine ⟨_, hsame before hbefore hblocked, ?_, before, hbefore, hblocked⟩
    rcases refreshTask_cases (board.tasks.insert taskId task) nowMs before with hs | ⟨hprogress, -, -⟩ | ⟨-, -, hs⟩
    · refine absurd ?_ (refreshTask_blocked (hs ▸ hblocked))
      rwa [hs]
    · rw [hblocked] at hprogress
      cases hprogress
    · rw [hs]

/-- What a completion that succeeds found, released and left. -/
theorem completes_task {file : File} {request : BlackboardTaskCompleteRequest} {nowMs : Int}
    {answer : CompleteAnswer} (h : (step file ⟨.taskComplete request, nowMs⟩).1 = .ok (.taskComplete answer)) :
    ∃ refreshed found, refreshed = (refreshTasks (boardOf file) nowMs).2 ∧
      refreshed.tasks.get request.taskId = some found ∧ completeProblem request nowMs found = none ∧
      answer.unblocked =
        releasedTasks refreshed (retasked refreshed request.taskId (completeTask request nowMs found) nowMs) ∧
      (step file ⟨.taskComplete request, nowMs⟩).2 = (if request.dryRun = true then file
        else some (retasked refreshed request.taskId (completeTask request nowMs found) nowMs)) := by
  have hstep : step file ⟨.taskComplete request, nowMs⟩ =
      (((blackboardTaskComplete request nowMs).run file).1.map .taskComplete,
        ((blackboardTaskComplete request nowMs).run file).2) := run_perform _ _ _
  rw [hstep] at h ⊢
  have hspec := blackboardTaskComplete_spec request nowMs file
  unfold Locked.wp at hspec
  generalize (blackboardTaskComplete request nowMs).run file = outcome at hspec h ⊢
  obtain ⟨r, file'⟩ := outcome
  rcases hspec with ⟨⟨e, rfl⟩, -⟩ | ⟨refreshed, task, -, hrefreshed, hplan, hend⟩
  · cases h
  · obtain ⟨found, hfound, hallowed, rfl⟩ := planComplete_ok hplan
    refine ⟨refreshed, found, hrefreshed, hfound, hallowed, ?_⟩
    rcases hend with ⟨hdry, rfl, rfl⟩ | ⟨stored, hreal, -, rfl, rfl, rfl⟩
    · cases h
      exact ⟨rfl, by rw [if_pos hdry]⟩
    · cases h
      exact ⟨rfl, by rw [if_neg (by rw [hreal]; decide)]⟩

/-- **Statuses, leases and assignees agree over whole runs, and a completion releases exactly the tasks
that were blocked and then wait for nothing more**; a dry run counts the task it would complete. -/
theorem statuses_agree (calls : List Call) :
    let file := Run.exec step none calls
    (∀ k task, (boardOf file).tasks.get k = some task → (task.status = .inProgress ↔ task.lease ≠ none) ∧
      ∀ lease, task.lease = some lease → task.assignedTo = some lease.owner) ∧
    ∀ request nowMs answer, (step file ⟨.taskComplete request, nowMs⟩).1 = .ok (.taskComplete answer) →
      answer.unblocked.Nodup ∧ ∀ k, k ∈ answer.unblocked ↔
        ∃ task, (boardOf file).tasks.get k = some task ∧ task.status = .blocked ∧ ∀ d ∈ task.dependencies,
          isCompleted (boardOf (step file ⟨.taskComplete request, nowMs⟩).2).tasks d = true ∨
            request.dryRun = true ∧ d = request.taskId := by
  intro file
  refine ⟨fun k task hk => ?_, fun request nowMs answer hok => ?_⟩
  · obtain ⟨hleased, hassigned⟩ := agrees_of_run calls k task hk
    exact ⟨hleased, hassigned⟩
  obtain ⟨refreshed, found, rfl, hfound, hallowed, hreleased, hleft⟩ := completes_task hok
  obtain ⟨-, hlive, -⟩ := completeProblem_none hallowed
  obtain ⟨lease, hlease, -⟩ := lease_of_live hlive
  have hprogress := ((good_of_run calls).refresh nowMs).leased _ _ hfound (by rw [hlease]; simp)
  have hcompleted : ∀ d, isCompleted ((refreshTasks (boardOf file) nowMs).2.tasks.insert request.taskId
      (completeTask request nowMs found)) d = true ↔
        isCompleted (boardOf (step file ⟨.taskComplete request, nowMs⟩).2).tasks d = true ∨
          request.dryRun = true ∧ d = request.taskId := by
    intro d
    rw [hleft]
    cases hdry : request.dryRun with
    | false =>
      change _ ↔ isCompleted (refreshedTasks _ nowMs) d = true ∨ _
      rw [isCompleted_refreshedTasks]
      simp
    | true =>
      rw [if_pos rfl, isCompleted_insert_iff]
      change _ ∨ _ ∧ isCompleted (refreshedTasks _ nowMs) d = true ↔ _
      rw [isCompleted_refreshedTasks]
      by_cases hd : d = request.taskId <;> simp [hd, completeTask]
  rw [hreleased]
  refine ⟨nodup_releasedTasks _ _, fun k => ?_⟩
  rw [mem_releasedTasks hfound (by rw [hprogress]; decide)]
  refine exists_congr fun task => ?_
  rw [← and_assoc, ← and_assoc]
  exact and_congr (waiting_of_run calls).get_refreshedTasks (forall₂_congr fun d _ => hcompleted d)

/-! A task is released by the completion of the one it depends on. -/

def dependentCalls : List Call :=
  [⟨.taskCreate { taskId := "T", title := "t" }, 0⟩,
    ⟨.taskCreate { taskId := "U", title := "u", dependencies := ["T"] }, 1⟩,
    ⟨.taskClaim { agentId := "a", taskId := some "T" }, 2⟩]

/-- What an answer says was released. -/
def unblockedOf : Except Failure Answer → Option (List String)
  | .ok (.taskComplete answer) => some answer.unblocked
  | _ => none

theorem unblockedOf_eq_some {r : Except Failure Answer} {ids : List String} (h : unblockedOf r = some ids) :
    ∃ answer, r = .ok (.taskComplete answer) ∧ answer.unblocked = ids := by
  unfold unblockedOf at h
  split at h
  · exact ⟨_, rfl, Option.some.inj h⟩
  · cases h

theorem statuses_agree_released :
    ∃ answer : CompleteAnswer, answer.unblocked = ["U"] ∧
      ∀ k, k ∈ answer.unblocked ↔ ∃ task, (boardOf (Run.exec step none dependentCalls)).tasks.get k = some task ∧
        task.status = .blocked ∧ ∀ d ∈ task.dependencies,
          isCompleted (boardOf (step (Run.exec step none dependentCalls)
            ⟨.taskComplete { taskId := "T", agentId := "a" }, 3⟩).2).tasks d = true ∨ false = true ∧ d = "T" := by
  obtain ⟨answer, hok, hreleased⟩ := unblockedOf_eq_some (show unblockedOf (step (Run.exec step none dependentCalls)
    ⟨.taskComplete { taskId := "T", agentId := "a" }, 3⟩).1 = some ["U"] by decide +kernel)
  exact ⟨answer, hreleased, ((statuses_agree dependentCalls).2 _ _ answer hok).2⟩

end Didi.Blackboard
