import Didi.Blackboard.Dependencies

/-!
# Leases exclude other agents

* `Held` : a task is in progress under a lease of an agent that runs to a given time;
* `watch` : the calls on a board, with the expiry that the agent's claim or renewals last set;
* `watch_held` : until the agent hands the task back or the lease runs out, the task stays held;
* `lease_excludes` : until then no claim of the task succeeds, and no other agent's update or
  completion of it does.
-/

namespace Didi.Blackboard

/-- The task is in progress under a lease of the agent that runs to `expiry`. -/
def Held (agent taskId : String) (expiry : Int) (tasks : OrderedMap String Task) : Prop :=
  ∃ task lease, tasks.get taskId = some task ∧ task.status = .inProgress ∧ task.lease = some lease ∧
    lease.owner = agent ∧ lease.expiresAtMs = expiry

section Held
variable {agent taskId : String} {expiry nowMs : Int} {tasks : OrderedMap String Task}

theorem live_of_lease {task : Task} {lease : Lease} (hlease : task.lease = some lease)
    (hnow : nowMs < lease.expiresAtMs) : hasLiveLease task nowMs = true := by
  simp [hasLiveLease, hlease, hnow]

theorem Held.refresh (h : Held agent taskId expiry tasks) (hnow : nowMs < expiry) :
    Held agent taskId expiry (refreshedTasks tasks nowMs) := by
  obtain ⟨task, lease, hget, hstatus, hlease, howner, hexpiry⟩ := h
  have hlive : hasLiveLease task nowMs = true := live_of_lease hlease (hexpiry ▸ hnow)
  refine ⟨task, lease, ?_, hstatus, hlease, howner, hexpiry⟩
  rw [get_refreshedTasks, hget]
  rcases refreshTask_cases tasks nowMs task with hs | ⟨-, hdead, -⟩ | ⟨hblocked, -⟩
  · rw [Option.map_some, hs]
  · rw [hlive] at hdead
    cases hdead
  · rw [hstatus] at hblocked
    cases hblocked

theorem Held.insert_of_ne (h : Held agent taskId expiry tasks) {k : String} (hk : k ≠ taskId) (task : Task) :
    Held agent taskId expiry (tasks.insert k task) := by
  obtain ⟨held, lease, hget, hrest⟩ := h
  exact ⟨held, lease, by rw [OrderedMap.get_insert_of_ne _ _ hk.symm, hget], hrest⟩

/-- A held task is live, and is the agent's. -/
theorem Held.live (h : Held agent taskId expiry tasks) (hnow : nowMs < expiry) {task : Task}
    (hget : tasks.get taskId = some task) :
    task.status = .inProgress ∧ hasLiveLease task nowMs = true ∧ leaseOwner task = agent := by
  obtain ⟨held, lease, hheld, hstatus, hlease, howner, hexpiry⟩ := h
  rw [hget] at hheld
  cases hheld
  exact ⟨hstatus, live_of_lease hlease (hexpiry ▸ hnow), by rw [leaseOwner, hlease]; exact howner⟩

end Held

/-! ## The watched run -/

/-- Whether an operation completes the agent's task or sets its status. -/
def handsBack (agent taskId : String) : Operation → Bool
  | .taskComplete request => request.taskId = taskId && request.agentId = agent && !request.dryRun
  | .taskUpdate request =>
    request.taskId = taskId && request.agentId = agent && request.status.isSome && !request.dryRun
  | _ => false

/-- The expiry that an operation sets when it is a renewal of the agent's lease. -/
def renewal (agent taskId : String) (nowMs : Int) : Operation → Option Int
  | .taskUpdate request =>
    if request.taskId = taskId ∧ request.agentId = agent ∧ request.status = none ∧ request.dryRun = false then
      request.renewLeaseSeconds.map fun seconds => nowMs + seconds * 1000
    else none
  | _ => none

/-- One call, with the expiry that the agent's claim or renewals last set. -/
def watch (agent taskId : String) (s : File × Int) (call : Call) : Except Failure Answer × (File × Int) :=
  let r := step s.1 call
  (r.1, r.2, if succeeded r.1 then (renewal agent taskId call.nowMs call.operation).getD s.2 else s.2)

/-- The call is made before the expiry, and does not hand the task back. -/
def Undisturbed (agent taskId : String) (s : File × Int) (call : Call) : Prop :=
  call.nowMs < s.2 ∧ ¬ (handsBack agent taskId call.operation = true ∧ succeeded (step s.1 call).1 = true)

/-- The answer is a claim of the task. -/
def ClaimsTask (taskId : String) (r : Except Failure Answer) : Prop :=
  ∃ board task dryRun, r = .ok (.taskClaim (.claimed board (some task) dryRun)) ∧ task.taskId = taskId

/-- The task that a call was given. -/
def claimedTask (r : Except Failure Answer) : Option String :=
  match r with
  | .ok (.taskClaim (.claimed _ (some task) _)) => some task.taskId
  | _ => none

theorem claimsTask_iff {taskId : String} {r : Except Failure Answer} :
    ClaimsTask taskId r ↔ claimedTask r = some taskId := by
  constructor
  · rintro ⟨board, task, dryRun, rfl, rfl⟩
    rfl
  · intro h
    unfold claimedTask at h
    split at h
    · exact ⟨_, _, _, rfl, Option.some.inj h⟩
    · cases h

/-- Whether an operation is an agent's update or completion of the task. -/
def worksOn (agent taskId : String) : Operation → Bool
  | .taskUpdate request => request.taskId = taskId && request.agentId = agent
  | .taskComplete request => request.taskId = taskId && request.agentId = agent
  | _ => false

theorem exec_watch (agent taskId : String) (s : File × Int) (calls : List Call) :
    (Run.exec (watch agent taskId) s calls).1 = Run.exec step s.1 calls := by
  induction calls generalizing s with
  | nil => rfl
  | cons call calls ih => exact ih _

/-! ## What the calls do to a held task -/

section Steps
variable {agent taskId : String} {expiry nowMs : Int}

theorem Tidies.held {loaded board : Board} {operation : Operation} (h : Tidies loaded nowMs operation board)
    (hheld : Held agent taskId expiry loaded.tasks) (hnow : nowMs < expiry) :
    Held agent taskId expiry board.tasks := by
  cases h with
  | swept _ h => rwa [(sweepExpired_frame h).tasks]
  | refreshed h =>
    obtain rfl : (refreshTasks loaded nowMs).2 = board := by rw [h]
    exact hheld.refresh hnow

/-- What is stored leaves a held task alone, unless the agent hands it back or renews its lease. -/
theorem Stores.held {loaded board : Board} {operation : Operation} (h : Stores loaded nowMs operation board)
    (hheld : Held agent taskId expiry loaded.tasks) (hnow : nowMs < expiry)
    (hkept : handsBack agent taskId operation = false) (hrenewal : renewal agent taskId nowMs operation = none) :
    Held agent taskId expiry board.tasks := by
  have hrefreshed : Held agent taskId expiry (refreshTasks loaded nowMs).2.tasks := hheld.refresh hnow
  cases h with
  | wrote hreal hparts hsweep hplan =>
    obtain ⟨⟨state, -, hboard⟩, -, -⟩ := hplan
    rw [hboard]
    rwa [← (sweepExpired_frame hsweep).tasks] at hheld
  | patched hreal hoperations hsweep hplan =>
    rw [hplan.board]
    rwa [← (sweepExpired_frame hsweep).tasks] at hheld
  | cleared hreal hparts hsweep hplan =>
    rw [← (sweepExpired_frame hsweep).tasks] at hheld
    cases hplan with
    | all => exact hheld
    | path hne hremoved hleft =>
      rw [(clearPath_ok (hleft hreal)).board]
      exact hheld
  | @created request task hreal hplan =>
    refine hrefreshed.insert_of_ne (fun he => ?_) _
    obtain ⟨held, _, hget, -⟩ := hrefreshed
    have hfresh := hplan.fresh
    rw [he, hget] at hfresh
    cases hfresh
  | @claimed request refreshed task hreal hrefresh hchosen =>
    subst hrefresh
    obtain ⟨hget, -, hfree⟩ := scanTasks_chosen hchosen
    refine hrefreshed.insert_of_ne (fun he => ?_) _
    rw [he] at hget
    rw [(hrefreshed.live hnow hget).2.1] at hfree
    cases hfree
  | @updated request refreshed found hreal hrefresh hfound hallowed hstatus =>
    subst hrefresh
    refine Held.refresh ?_ hnow
    by_cases hid : request.taskId = taskId
    · -- only the agent may update it, and it neither sets the status nor renews the lease
      rw [hid] at hfound ⊢
      obtain ⟨-, hlive, howner⟩ := hrefreshed.live hnow hfound
      have hagent : request.agentId = agent := by
        rcases (updateProblem_none hallowed).2 with ⟨-, hmine⟩ | ⟨hdead, -⟩
        · rw [← hmine, howner]
        · rw [hlive] at hdead
          cases hdead
      have hstatus : request.status = none := by
        simpa [handsBack, hid, hagent, hreal] using hkept
      have hseconds : request.renewLeaseSeconds = none := by
        simpa [renewal, hid, hagent, hreal, hstatus] using hrenewal
      obtain ⟨held, lease, hheldget, hprogress, hlease, hrest⟩ := hrefreshed
      rw [hfound] at hheldget
      cases hheldget
      obtain ⟨hsame, hsamelease⟩ := updateTask_of_no_status hstatus nowMs found
      rw [hseconds] at hsamelease
      exact ⟨_, lease, OrderedMap.get_insert_self _ _ _, hsame.trans hprogress, hsamelease.trans hlease, hrest⟩
    · exact hrefreshed.insert_of_ne hid _
  | @completed request refreshed found hreal hrefresh hfound hallowed =>
    subst hrefresh
    refine Held.refresh (hrefreshed.insert_of_ne (fun hid => ?_) _) hnow
    rw [hid] at hfound
    obtain ⟨-, -, howner⟩ := hrefreshed.live hnow hfound
    obtain ⟨-, -, hmine⟩ := completeProblem_none hallowed
    have hagent : request.agentId = agent := by rw [← hmine, howner]
    simp [handsBack, hid, hagent, hreal] at hkept

/-- A renewal that succeeds sets the expiry of the lease. -/
theorem held_renewed {file : File} {request : BlackboardTaskUpdateRequest} {renewed : Int}
    (hheld : Held agent taskId expiry (boardOf file).tasks) (hnow : nowMs < expiry)
    (hrenewal : renewal agent taskId nowMs (.taskUpdate request) = some renewed)
    (hok : succeeded (step file ⟨.taskUpdate request, nowMs⟩).1 = true) :
    Held agent taskId renewed (boardOf (step file ⟨.taskUpdate request, nowMs⟩).2).tasks := by
  have hstep : step file ⟨.taskUpdate request, nowMs⟩ =
      (((blackboardTaskUpdate request nowMs).run file).1.map .taskUpdate,
        ((blackboardTaskUpdate request nowMs).run file).2) := run_perform _ _ _
  rw [hstep] at hok ⊢
  have hspec := blackboardTaskUpdate_spec request nowMs file
  unfold Locked.wp at hspec
  generalize (blackboardTaskUpdate request nowMs).run file = outcome at hspec hok ⊢
  obtain ⟨r, file'⟩ := outcome
  simp only [renewal] at hrenewal
  split_ifs at hrenewal with hmine
  obtain ⟨hid, hagent, hstatus, hreal⟩ := hmine
  obtain ⟨seconds, hseconds, rfl⟩ := Option.map_eq_some_iff.mp hrenewal
  rcases hspec with ⟨⟨e, rfl⟩, -⟩ | ⟨refreshed, task, -, hpositive, -, rfl, hplan, h⟩
  · cases hok
  · rcases h with ⟨hdry, -⟩ | ⟨stored, -, -, rfl, rfl, -⟩
    · rw [hreal] at hdry
      cases hdry
    · obtain ⟨found, hfound, -, rfl⟩ := planUpdate_ok hplan
      rw [hid] at hfound
      obtain ⟨hprogress, -, -⟩ := (hheld.refresh hnow).live hnow hfound
      obtain ⟨hsame, hlease⟩ := updateTask_of_no_status hstatus nowMs found
      rw [hseconds] at hlease
      refine Held.refresh ?_ (by have := hpositive seconds hseconds; omega)
      rw [hid]
      exact ⟨_, _, OrderedMap.get_insert_self _ _ _, hsame.trans hprogress, hlease, hagent, rfl⟩

end Steps

/-- **Until the agent hands the task back or the lease runs out, the task stays held**, to the expiry
that the agent last set. -/
theorem watch_held {agent taskId : String} {s : File × Int} {call : Call}
    (hheld : Held agent taskId s.2 (boardOf s.1).tasks) (hcall : Undisturbed agent taskId s call) :
    Held agent taskId (watch agent taskId s call).2.2 (boardOf (watch agent taskId s call).2.1).tasks := by
  obtain ⟨operation, nowMs⟩ := call
  obtain ⟨hnow, hkept⟩ := hcall
  unfold watch
  dsimp only at hnow hkept ⊢
  by_cases hrenewed : succeeded (step s.1 ⟨operation, nowMs⟩).1 = true ∧
      (renewal agent taskId nowMs operation).isSome = true
  · obtain ⟨hok, hsome⟩ := hrenewed
    obtain ⟨renewed, hrenewal⟩ := Option.isSome_iff_exists.mp hsome
    rw [if_pos hok, hrenewal, Option.getD_some]
    cases operation with
    | taskUpdate request => exact held_renewed hheld hnow hrenewal hok
    | _ => cases hrenewal
  · have hsame : (if succeeded (step s.1 ⟨operation, nowMs⟩).1 = true then
        (renewal agent taskId nowMs operation).getD s.2 else s.2) = s.2 := by
      split_ifs with hok
      · cases hrenewal : renewal agent taskId nowMs operation with
        | none => rfl
        | some renewed => exact absurd ⟨hok, by rw [hrenewal]; rfl⟩ hrenewed
      · rfl
    rw [hsame]
    rcases step_leaves s.1 ⟨operation, nowMs⟩ with h | ⟨board, h, -, htidy | ⟨⟨answer, hok⟩, hstores⟩⟩
    · rwa [h]
    · rw [h]
      exact htidy.held hheld hnow
    · rw [h]
      have hok : succeeded (step s.1 ⟨operation, nowMs⟩).1 = true := by
        change (step s.1 ⟨operation, nowMs⟩).1 = _ at hok
        rw [hok]
        rfl
      refine hstores.held hheld hnow ?_ ?_
      · exact Bool.eq_false_iff.mpr fun hback => hkept ⟨hback, hok⟩
      · exact Option.not_isSome_iff_eq_none.mp fun hsome => hrenewed ⟨hok, hsome⟩

/-! ## Claims, updates and completions that succeed -/

theorem claims_operation {taskId : String} {file : File} {call : Call}
    (h : ClaimsTask taskId (step file call).1) : ∃ request, call.operation = .taskClaim request := by
  obtain ⟨operation, nowMs⟩ := call
  obtain ⟨board, task, dryRun, h, -⟩ := h
  have hother : ∀ {α : Type} (m : BoardM α) (f : α → Answer), (∀ a, f a ≠ .taskClaim (.claimed board (some task) dryRun)) →
      ((do return f (← m) : BoardM Answer).run file).1 ≠ .ok (.taskClaim (.claimed board (some task) dryRun)) := by
    intro α m f hf hr
    rw [run_perform] at hr
    obtain ⟨a, -, ha⟩ := Except.map_eq_ok.mp hr
    exact hf a ha
  cases operation with
  | taskClaim request => exact ⟨request, rfl⟩
  | _ => exact absurd h (hother _ _ fun a ha => by cases ha)

/-- A claim that succeeds found the task pending and free, and holds it unless it was a dry run. -/
theorem claims_task {taskId : String} {file : File} {request : BlackboardTaskClaimRequest} {nowMs : Int}
    (hgood : TasksGood (boardOf file).tasks) (h : ClaimsTask taskId (step file ⟨.taskClaim request, nowMs⟩).1) :
    ∃ task, (refreshedTasks (boardOf file).tasks nowMs).get taskId = some task ∧
      hasLiveLease task nowMs = false ∧
      (request.dryRun = false → (boardOf (step file ⟨.taskClaim request, nowMs⟩).2).tasks =
        (refreshedTasks (boardOf file).tasks nowMs).insert taskId (claimTask request nowMs task)) := by
  obtain ⟨board, claimed, dryRun, h, hid⟩ := h
  have hstep : step file ⟨.taskClaim request, nowMs⟩ =
      (((blackboardTaskClaim request nowMs).run file).1.map .taskClaim,
        ((blackboardTaskClaim request nowMs).run file).2) := run_perform _ _ _
  rw [hstep] at h ⊢
  have hspec := blackboardTaskClaim_spec request nowMs file
  unfold Locked.wp at hspec
  generalize (blackboardTaskClaim request nowMs).run file = outcome at hspec h ⊢
  obtain ⟨r, file'⟩ := outcome
  rcases hspec with ⟨⟨e, rfl⟩, -⟩ | ⟨refreshed, -, rfl, ⟨-, -, rfl⟩ | ⟨task, hchosen, rfl, hend⟩⟩
  · cases h
  · unfold notClaimedAnswer at h
    cases htask : request.taskId with
    | none => rw [htask] at h; cases h
    | some taskId => rw [htask] at h; cases h
  · obtain ⟨hget, -, hfree⟩ := scanTasks_chosen hchosen
    have hkey : (scanTasks request nowMs (refreshTasks (boardOf file) nowMs).2).chosen = taskId := by
      cases h
      rw [← hid]
      exact ((hgood.refresh nowMs).keyed _ _ hget).symm
    rw [hkey] at hget
    refine ⟨task, hget, hfree, fun hreal => ?_⟩
    rcases hend with ⟨hdry, -⟩ | ⟨stored, -, -, hstored, rfl⟩
    · rw [hreal] at hdry
      cases hdry
    · rw [hkey] at hstored
      exact congrArg Board.tasks hstored

/-- An update or a completion that succeeds is by the agent that holds the task. -/
theorem worksOn_owner {agent other taskId : String} {expiry : Int} {file : File} {call : Call}
    (hheld : Held agent taskId expiry (boardOf file).tasks) (hnow : call.nowMs < expiry)
    (hworks : worksOn other taskId call.operation = true) (hok : succeeded (step file call).1 = true) :
    other = agent := by
  obtain ⟨operation, nowMs⟩ := call
  have hrefreshed := hheld.refresh hnow
  cases operation with
  | taskUpdate request =>
    simp only [worksOn, Bool.and_eq_true, decide_eq_true_eq] at hworks
    obtain ⟨hid, rfl⟩ := hworks
    have hstep : (step file ⟨.taskUpdate request, nowMs⟩).1 =
        ((blackboardTaskUpdate request nowMs).run file).1.map .taskUpdate :=
      congrArg Prod.fst (run_perform _ _ _)
    rw [hstep] at hok
    rcases blackboardTaskUpdate_spec request nowMs file with ⟨⟨e, he⟩, -⟩ | ⟨refreshed, task, -, -, -, rfl, hplan, -⟩
    · rw [he] at hok
      cases hok
    · obtain ⟨found, hfound, hallowed, -⟩ := planUpdate_ok hplan
      rw [hid] at hfound
      obtain ⟨-, hlive, howner⟩ := hrefreshed.live hnow hfound
      rcases (updateProblem_none hallowed).2 with ⟨-, hmine⟩ | ⟨hdead, -⟩
      · rw [← hmine, howner]
      · rw [hlive] at hdead
        cases hdead
  | taskComplete request =>
    simp only [worksOn, Bool.and_eq_true, decide_eq_true_eq] at hworks
    obtain ⟨hid, rfl⟩ := hworks
    have hstep : (step file ⟨.taskComplete request, nowMs⟩).1 =
        ((blackboardTaskComplete request nowMs).run file).1.map .taskComplete :=
      congrArg Prod.fst (run_perform _ _ _)
    rw [hstep] at hok
    rcases blackboardTaskComplete_spec request nowMs file with ⟨⟨e, he⟩, -⟩ | ⟨refreshed, task, -, rfl, hplan, -⟩
    · rw [he] at hok
      cases hok
    · obtain ⟨found, hfound, hallowed, -⟩ := planComplete_ok hplan
      rw [hid] at hfound
      obtain ⟨-, -, howner⟩ := hrefreshed.live hnow hfound
      rw [← (completeProblem_none hallowed).2.2, howner]
  | _ => cases hworks

/-- **Lease exclusion.** After a claim of a task by an agent, and any calls made before the expiry
that the agent's claim or renewals last set, none of which hands the task back, a call made before
that expiry is no claim of the task that succeeds, and no update or completion of it by another
agent that succeeds. -/
theorem lease_excludes {taskId : String} {before after : List Call} {claim : BlackboardTaskClaimRequest}
    {claimMs : Int} {call : Call} (hreal : claim.dryRun = false)
    (hclaim : ClaimsTask taskId (step (Run.exec step none before) ⟨.taskClaim claim, claimMs⟩).1)
    (hafter : Run.Along (watch claim.agentId taskId) (Undisturbed claim.agentId taskId)
      (Run.exec step none (before ++ [⟨.taskClaim claim, claimMs⟩]), claimMs + claim.leaseSeconds * 1000) after)
    (hcall : call.nowMs < (Run.exec (watch claim.agentId taskId)
      (Run.exec step none (before ++ [⟨.taskClaim claim, claimMs⟩]), claimMs + claim.leaseSeconds * 1000) after).2) :
    let file := Run.exec step none (before ++ [⟨.taskClaim claim, claimMs⟩] ++ after)
    ¬ ClaimsTask taskId (step file call).1 ∧
      ∀ agent, agent ≠ claim.agentId → worksOn agent taskId call.operation = true →
        succeeded (step file call).1 = false := by
  intro file
  obtain ⟨task, hget, -, hstored⟩ := claims_task (good_of_run before) hclaim
  have hfirst : Held claim.agentId taskId (claimMs + claim.leaseSeconds * 1000)
      (boardOf (Run.exec step none (before ++ [⟨.taskClaim claim, claimMs⟩]))).tasks := by
    rw [Run.exec_append, Run.exec_cons, Run.exec_nil, hstored hreal]
    exact ⟨_, _, OrderedMap.get_insert_self _ _ _, rfl, rfl, rfl, rfl⟩
  have hlast := Run.exec_of_along
    (P := fun s : File × Int => Held claim.agentId taskId s.2 (boardOf s.1).tasks)
    (fun s call hcall hheld => watch_held hheld hcall) hafter hfirst
  rw [exec_watch, ← Run.exec_append] at hlast
  refine ⟨fun hclaims => ?_, fun agent hne hworks => ?_⟩
  · obtain ⟨request, hrequest⟩ := claims_operation hclaims
    obtain ⟨operation, nowMs⟩ := call
    subst hrequest
    obtain ⟨other, hother, hfree, -⟩ := claims_task (good_of_run _) hclaims
    obtain ⟨-, hlive, -⟩ := (hlast.refresh hcall).live hcall hother
    rw [hlive] at hfree
    cases hfree
  · refine Bool.eq_false_iff.mpr fun hok => hne ?_
    exact worksOn_owner hlast hcall hworks hok

/-! A task that is claimed for ten seconds and renewed after five is out of reach after fifteen. -/

def sampleCreate : Call := ⟨.taskCreate { taskId := "T", title := "t" }, 0⟩
def sampleClaim : BlackboardTaskClaimRequest := { agentId := "a", leaseSeconds := 10 }
def sampleRenewal : Call := ⟨.taskUpdate { taskId := "T", agentId := "a", renewLeaseSeconds := some 20 }, 5000⟩
def sampleRival : Call := ⟨.taskClaim { agentId := "b", taskId := some "T" }, 15000⟩

theorem lease_excludes_after_renewal :
    ¬ ClaimsTask "T" (step (Run.exec step none ([sampleCreate] ++ [⟨.taskClaim sampleClaim, 0⟩] ++ [sampleRenewal]))
      sampleRival).1 := by
  have hclaim : ClaimsTask "T" (step (Run.exec step none [sampleCreate]) ⟨.taskClaim sampleClaim, 0⟩).1 :=
    claimsTask_iff.mpr (by decide +kernel)
  have hrenewal : Run.Along (watch sampleClaim.agentId "T") (Undisturbed sampleClaim.agentId "T")
      (Run.exec step none ([sampleCreate] ++ [⟨.taskClaim sampleClaim, 0⟩]), 0 + sampleClaim.leaseSeconds * 1000)
      [sampleRenewal] :=
    Run.along_cons ⟨by decide, fun h => absurd h.1 (by decide)⟩ (Run.along_nil _ _)
  exact (lease_excludes rfl hclaim hrenewal (by decide +kernel)).1

end Didi.Blackboard
