import Mathlib.Data.List.MinMax
import Mathlib.Data.Prod.Lex
import Didi.Blackboard.Rules
import Didi.Blackboard.Statuses

/-!
# What a claim takes

* `Claimable` : a task that a claim may take, as the stored board has it; `ready_refreshTask` : a refresh
  makes exactly these ready;
* `foldl_scanTask_stands` : the scan stands at the least ready task, in the order of `rank`;
* `blackboardTaskClaim_claims` : when a claim takes a task;
* `claims_best_task` : what follows for every run.
-/

namespace Didi.Blackboard
open Locked List

-- the order of ranks is computable
local instance (priority := 1100) preorderInt : Preorder Int := Int.instLinearOrder.toPreorder

/-- A task that may be claimed: pending, or in progress with nobody on it, or blocked with nothing to
wait for. -/
def Claimable (tasks : OrderedMap String Task) (nowMs : Int) (task : Task) : Prop :=
  task.status = .pending ∨ (task.status = .inProgress ∧ hasLiveLease task nowMs = false) ∨
    (task.status = .blocked ∧ ∀ d ∈ task.dependencies, isCompleted tasks d = true)

/-- A task that a claim may take. -/
def Offered (request : BlackboardTaskClaimRequest) (nowMs : Int) (tasks : OrderedMap String Task) (k : String)
    (task : Task) : Prop :=
  tasks.get k = some task ∧ (∀ tag, request.tag = some tag → taskCarriesTag task tag = true) ∧
    Claimable tasks nowMs task

/-- The order in which a claim prefers tasks: the higher priority, the older task, the smaller key. -/
def rank (entry : String × Task) : Int ×ₗ Int ×ₗ String :=
  toLex (-entry.2.priority, toLex (entry.2.createdAtMs, entry.1))

/-- The task that a claim takes. -/
def Best (request : BlackboardTaskClaimRequest) (nowMs : Int) (tasks : OrderedMap String Task) (k : String)
    (task : Task) : Prop :=
  Offered request nowMs tasks k task ∧ ∀ j other, Offered request nowMs tasks j other → rank (k, task) ≤ rank (j, other)

/-- The highest priority comes first, and among equal ones the oldest task. -/
theorem le_of_rank_le {j k : String} {task other : Task} (h : rank (k, task) ≤ rank (j, other)) :
    other.priority ≤ task.priority ∧ (other.priority = task.priority → task.createdAtMs ≤ other.createdAtMs) := by
  unfold rank at h
  rw [Prod.Lex.toLex_le_toLex, Prod.Lex.toLex_le_toLex] at h
  dsimp only at h
  omega

/-! ## What a refresh makes ready -/

section Ready
variable {request : BlackboardTaskClaimRequest} {nowMs : Int} {tasks : OrderedMap String Task} {k : String}
  {task : Task}

/-- Whether a scan may choose a task of a refreshed board. -/
def ready (request : BlackboardTaskClaimRequest) (nowMs : Int) (task : Task) : Bool :=
  request.tag.all (taskCarriesTag task) && !hasLiveLease task nowMs && task.status = .pending

theorem refreshTask_frame (tasks : OrderedMap String Task) (nowMs : Int) (task : Task) :
    (refreshTask tasks nowMs task).tags = task.tags ∧ (refreshTask tasks nowMs task).priority = task.priority ∧
      (refreshTask tasks nowMs task).createdAtMs = task.createdAtMs := by
  rcases refreshTask_cases tasks nowMs task with hs | ⟨-, -, hs⟩ | ⟨-, -, hs⟩ <;> rw [hs] <;> exact ⟨rfl, rfl, rfl⟩

theorem hasLiveLease_of_none (h : task.lease = none) : hasLiveLease task nowMs = false := by
  rw [hasLiveLease, h]

/-- **A refresh makes ready exactly the tasks that may be claimed.** -/
theorem ready_refreshTask (hagrees : Agrees task) :
    ready request nowMs (refreshTask tasks nowMs task) = true ↔
      (∀ tag, request.tag = some tag → taskCarriesTag task tag = true) ∧ Claimable tasks nowMs task := by
  have htag : request.tag.all (taskCarriesTag (refreshTask tasks nowMs task)) = true ↔
      ∀ tag, request.tag = some tag → taskCarriesTag task tag = true := by
    unfold taskCarriesTag
    rw [(refreshTask_frame tasks nowMs task).1]
    cases request.tag <;> simp
  have hready : hasLiveLease (refreshTask tasks nowMs task) nowMs = false ∧
      (refreshTask tasks nowMs task).status = .pending ↔ Claimable tasks nowMs task := by
    unfold Claimable
    rcases refreshTask_cases tasks nowMs task with hs | ⟨hprogress, hdead, hs⟩ | ⟨hblocked, hall, hs⟩
    · rw [hs]
      constructor
      · exact fun h => .inl h.2
      · rintro (hpending | ⟨hprogress, hdead⟩ | ⟨hblocked, hall⟩)
        · exact ⟨hasLiveLease_of_none (hagrees.lease_eq_none (by rw [hpending]; decide)), hpending⟩
        · refine absurd ?_ (by decide : TaskStatus.inProgress ≠ .pending)
          rw [← hprogress, ← hs, refreshTask, lapseLease, leaseLapsed, hprogress, hdead]
          simp [unblock, unblocked]
        · refine absurd hall ?_
          have hwaits := @refreshTask_blocked tasks nowMs task (by rw [hs, hblocked])
          rwa [hs] at hwaits
    · rw [hs]
      exact iff_of_true ⟨rfl, rfl⟩ (.inr (.inl ⟨hprogress, hdead⟩))
    · rw [hs]
      refine iff_of_true ⟨?_, rfl⟩ (.inr (.inr ⟨hblocked, hall⟩))
      exact hasLiveLease_of_none (hagrees.lease_eq_none (by rw [hblocked]; decide))
  unfold ready
  rw [Bool.and_eq_true, Bool.and_eq_true, Bool.not_eq_true', decide_eq_true_eq, and_assoc, htag, hready]

end Ready

/-! ## The scan -/

/-- Where a scan stands whose best task so far is `best`. -/
def Stands (best : Option (String × Task)) (scan : Scan) : Prop :=
  match best with
  | none => scan.chosen = ""
  | some e => scan.chosen = e.1 ∧ scan.bestPriority = e.2.priority ∧ scan.bestCreated = e.2.createdAtMs

/-- The least ready entry. -/
def bestOf (request : BlackboardTaskClaimRequest) (nowMs : Int) (entries : List (String × Task)) :
    Option (String × Task) :=
  argmin rank (entries.filter fun e => ready request nowMs e.2)

section Scan
variable {request : BlackboardTaskClaimRequest} {nowMs : Int} {entries : List (String × Task)} {scan : Scan}
  {entry : String × Task}

theorem bestOf_concat (request : BlackboardTaskClaimRequest) (nowMs : Int) (entries : List (String × Task))
    (entry : String × Task) :
    bestOf request nowMs (entries ++ [entry]) = if ready request nowMs entry.2 = true then
      (match bestOf request nowMs entries with
        | none => some entry
        | some best => if rank entry < rank best then some entry else some best)
      else bestOf request nowMs entries := by
  unfold bestOf
  rw [filter_append]
  cases hready : ready request nowMs entry.2 with
  | true =>
    have hlast : [entry].filter (fun e => ready request nowMs e.2) = [entry] := by simp [hready]
    rw [if_pos rfl, hlast, argmin_concat]
    cases argmin rank (entries.filter fun e => ready request nowMs e.2) <;> rfl
  | false =>
    have hlast : [entry].filter (fun e => ready request nowMs e.2) = [] := by simp [hready]
    rw [if_neg (by decide), hlast, append_nil]

/-- A later entry comes before the one chosen so far when it has the higher priority, or is older. -/
theorem rank_lt_iff {best : String × Task} (h : best.1 < entry.1) :
    rank entry < rank best ↔ best.2.priority < entry.2.priority ∨
      (entry.2.priority = best.2.priority ∧ entry.2.createdAtMs < best.2.createdAtMs) := by
  unfold rank
  rw [Prod.Lex.toLex_lt_toLex, Prod.Lex.toLex_lt_toLex]
  have hkey : ¬ entry.1 < best.1 := h.not_gt
  dsimp only
  rw [neg_lt_neg_iff, neg_inj]
  simp [hkey]

theorem scanTask_of_not_ready {best : Option (String × Task)} (hready : ready request nowMs entry.2 = false)
    (h : Stands best scan) : Stands best (scanTask request nowMs scan entry) := by
  have hsame : ∀ scan' : Scan, scan'.chosen = scan.chosen → scan'.bestPriority = scan.bestPriority →
      scan'.bestCreated = scan.bestCreated → Stands best scan' := by
    intro scan' hchosen hpriority hcreated
    unfold Stands at h ⊢
    rwa [hchosen, hpriority, hcreated]
  unfold scanTask
  dsimp only
  split_ifs with hother htag hlive hblocked hpending hbetter
  · exact h
  · exact h
  · exact hsame _ rfl rfl rfl
  · exact hsame _ rfl rfl rfl
  · exact hsame _ rfl rfl rfl
  all_goals
    -- an entry that passes every test of the scan is ready
    exfalso
    cases hrequest : request.tag with
    | none => simp_all [ready]
    | some tag => simp_all [ready]

theorem scanTask_of_ready (hany : request.taskId = none) (hready : ready request nowMs entry.2 = true) :
    scanTask request nowMs scan entry =
      if scan.chosen = "" ∨ scan.bestPriority < entry.2.priority ∨
          (entry.2.priority = scan.bestPriority ∧ entry.2.createdAtMs < scan.bestCreated) then
        { scan with
          considered := scan.considered + 1
          chosen := entry.1
          bestPriority := entry.2.priority
          bestCreated := entry.2.createdAtMs }
      else { scan with considered := scan.considered + 1 } := by
  unfold ready at hready
  simp only [Bool.and_eq_true, Bool.not_eq_true', decide_eq_true_eq] at hready
  obtain ⟨⟨htag, hfree⟩, hpending⟩ := hready
  unfold scanTask
  simp only [hany, Option.any_none, Bool.false_eq_true, if_false, hfree, hpending, ne_eq, not_true_eq_false, reduceCtorEq]
  rw [if_neg]
  cases hrequest : request.tag with
  | none => simp
  | some tag => simpa [hrequest] using htag

/-- An entry after those read so far keeps the scan at the best of them. -/
theorem scanTask_stands (hany : request.taskId = none) (hnamed : ∀ e ∈ entries, e.1 ≠ "")
    (hbefore : ∀ e ∈ entries, e.1 < entry.1) (h : Stands (bestOf request nowMs entries) scan) :
    Stands (bestOf request nowMs (entries ++ [entry])) (scanTask request nowMs scan entry) := by
  rw [bestOf_concat]
  split_ifs with hready
  · rw [scanTask_of_ready hany hready]
    cases hbest : bestOf request nowMs entries with
    | none =>
      rw [hbest] at h
      rw [if_pos (.inl h)]
      exact ⟨rfl, rfl, rfl⟩
    | some best =>
      have hmem : best ∈ entries := (mem_filter.mp (argmin_mem hbest)).1
      rw [hbest] at h
      obtain ⟨hchosen, hpriority, hcreated⟩ := h
      rw [hchosen, hpriority, hcreated]
      dsimp only
      by_cases hbetter : rank entry < rank best
      · rw [if_pos hbetter, if_pos (.inr ((rank_lt_iff (hbefore best hmem)).mp hbetter))]
        exact ⟨rfl, rfl, rfl⟩
      · rw [if_neg hbetter, if_neg]
        · exact ⟨rfl, rfl, rfl⟩
        · rintro (hempty | hless)
          · exact hnamed best hmem hempty
          · exact hbetter ((rank_lt_iff (hbefore best hmem)).mpr hless)
  · exact scanTask_of_not_ready (by simpa using hready) h

/-- **A scan stands at the best of the entries it has read.** -/
theorem foldl_scanTask_stands (hany : request.taskId = none) (hnamed : ∀ e ∈ entries, e.1 ≠ "")
    (hsorted : entries.Pairwise fun a b => a.1 < b.1) :
    Stands (bestOf request nowMs entries) (entries.foldl (scanTask request nowMs) {}) := by
  induction entries using reverseRecOn with
  | nil => rfl
  | append_singleton entries entry ih =>
    obtain ⟨hsorted, -, hbefore⟩ := pairwise_append.mp hsorted
    rw [foldl_append]
    refine scanTask_stands hany ?_ (fun e he => hbefore e he entry (mem_singleton_self _)) (ih ?_ hsorted)
    · exact fun e he => hnamed e (mem_append_left _ he)
    · exact fun e he => hnamed e (mem_append_left _ he)

end Scan

/-! ## The best task -/

section Best
variable {request : BlackboardTaskClaimRequest} {nowMs : Int} {tasks : OrderedMap String Task} {k : String}
  {task : Task}

theorem rank_refreshTask (tasks : OrderedMap String Task) (nowMs : Int) (k : String) (task : Task) :
    rank (k, refreshTask tasks nowMs task) = rank (k, task) := by
  obtain ⟨-, hpriority, hcreated⟩ := refreshTask_frame tasks nowMs task
  unfold rank
  rw [hpriority, hcreated]

/-- The ready entries of a refreshed map are the tasks that may be claimed. -/
theorem mem_ready_iff (hagree : ∀ k task, tasks.get k = some task → Agrees task) {refreshed : Task} :
    (k, refreshed) ∈ (refreshedTasks tasks nowMs).entries.filter (fun e => ready request nowMs e.2) ↔
      ∃ task, refreshed = refreshTask tasks nowMs task ∧ Offered request nowMs tasks k task := by
  rw [mem_filter, ← OrderedMap.get_eq_some]
  constructor
  · rintro ⟨hget, hready⟩
    obtain ⟨task, htask, rfl⟩ := get_refreshedTasks_some hget
    exact ⟨task, rfl, htask, (ready_refreshTask (hagree k task htask)).mp hready⟩
  · rintro ⟨task, rfl, htask, hoffered⟩
    exact ⟨by rw [get_refreshedTasks, htask]; rfl, (ready_refreshTask (hagree k task htask)).mpr hoffered⟩

theorem best_of_bestOf (hagree : ∀ k task, tasks.get k = some task → Agrees task) {refreshed : Task}
    (h : bestOf request nowMs (refreshedTasks tasks nowMs).entries = some (k, refreshed)) :
    ∃ task, refreshed = refreshTask tasks nowMs task ∧ Best request nowMs tasks k task := by
  obtain ⟨task, rfl, hoffered⟩ := (mem_ready_iff hagree).mp (argmin_mem h)
  refine ⟨task, rfl, hoffered, fun j other hother => ?_⟩
  have hle := le_of_mem_argmin ((mem_ready_iff hagree).mpr ⟨other, rfl, hother⟩) h
  rwa [rank_refreshTask, rank_refreshTask] at hle

theorem exists_bestOf (hagree : ∀ k task, tasks.get k = some task → Agrees task)
    (h : Offered request nowMs tasks k task) :
    ∃ e, bestOf request nowMs (refreshedTasks tasks nowMs).entries = some e := by
  refine Option.ne_none_iff_exists'.mp fun hnone => ?_
  have hmem := (mem_ready_iff hagree).mpr ⟨task, rfl, h⟩
  rw [argmin_eq_none.mp hnone] at hmem
  cases hmem

theorem Best.unique (h : Best request nowMs tasks k task) {j : String} {other : Task}
    (hother : Best request nowMs tasks j other) : k = j ∧ task = other := by
  have hrank := le_antisymm (h.2 j other hother.1) (hother.2 k task h.1)
  obtain rfl : k = j := congrArg (fun r : Int ×ₗ Int ×ₗ String => (ofLex (ofLex r).2).2) hrank
  exact ⟨rfl, Option.some.inj (h.1.1.symm.trans hother.1.1)⟩

/-- What a scan of the refreshed board chooses. -/
theorem chosenTask_iff (hany : request.taskId = none)
    (hagree : ∀ k task, tasks.get k = some task → Agrees task) (hnamed : ∀ k task, tasks.get k = some task → k ≠ "")
    {board : Board} (hboard : board.tasks = refreshedTasks tasks nowMs) {refreshed : Task} :
    chosenTask board (scanTasks request nowMs board) = some refreshed ∧ (scanTasks request nowMs board).chosen = k ↔
      ∃ task, refreshed = refreshTask tasks nowMs task ∧ Best request nowMs tasks k task := by
  have hkeys : ∀ e ∈ board.tasks.entries, e.1 ≠ "" := by
    intro e he
    rw [hboard] at he
    obtain ⟨task, htask, -⟩ := get_refreshedTasks_some (OrderedMap.get_eq_some.mpr he)
    exact hnamed e.1 task htask
  have hstands : Stands (bestOf request nowMs board.tasks.entries) (scanTasks request nowMs board) :=
    foldl_scanTask_stands hany hkeys board.tasks.sorted
  cases hbest : bestOf request nowMs board.tasks.entries with
  | none =>
    rw [hbest] at hstands
    have hempty : (scanTasks request nowMs board).chosen = "" := hstands
    constructor
    · rintro ⟨h, -⟩
      rw [chosenTask, if_pos hempty] at h
      cases h
    · rintro ⟨task, -, hoffered, -⟩
      obtain ⟨e, he⟩ := exists_bestOf hagree hoffered
      rw [← hboard, hbest] at he
      cases he
  | some e =>
    obtain ⟨j, best⟩ := e
    rw [hbest] at hstands
    obtain ⟨hchosen, -, -⟩ := hstands
    have hmem : (j, best) ∈ board.tasks.entries := (mem_filter.mp (argmin_mem hbest)).1
    rw [hboard] at hbest
    obtain ⟨task, rfl, htask⟩ := best_of_bestOf hagree hbest
    rw [chosenTask, hchosen, if_neg (hkeys _ hmem), OrderedMap.get_eq_some.mpr hmem]
    constructor
    · rintro ⟨h, rfl⟩
      cases h
      exact ⟨task, rfl, htask⟩
    · rintro ⟨other, rfl, hother⟩
      obtain ⟨rfl, rfl⟩ := htask.unique hother
      exact ⟨rfl, rfl⟩

end Best

/-! ## The claim -/

/-- What a claim checks before it reads the board. -/
structure Admissible (request : BlackboardTaskClaimRequest) : Prop where
  agent : request.agentId ≠ "" ∧ request.agentId.utf8ByteSize ≤ kBlackboardMaxTaskIdBytes
  lease : 1 ≤ request.leaseSeconds ∧ request.leaseSeconds ≤ kBlackboardMaxLeaseSeconds
  board : isLegalBoardName request.board = true

/-- The board with the task claimed. -/
def claimedBoard (request : BlackboardTaskClaimRequest) (nowMs : Int) (board : Board) (k : String) (task : Task) :
    Board :=
  { board with tasks := board.tasks.insert k (claimTask request nowMs task) }

/-- **When a claim takes a task.** -/
theorem blackboardTaskClaim_claims (request : BlackboardTaskClaimRequest) (nowMs : Int) (file : File) :
    (blackboardTaskClaim request nowMs).wp (fun r _ =>
      (∃ board task dryRun, r = .ok (.claimed board task dryRun)) ↔ Admissible request ∧ Loads file ∧
        ∃ refreshed task, refreshed = (refreshTasks (boardOf file) nowMs).2 ∧
          chosenTask refreshed (scanTasks request nowMs refreshed) = some task ∧ (request.dryRun = true ∨
            (claimedBoard request nowMs refreshed (scanTasks request nowMs refreshed).chosen task).byteSize ≤
              kBlackboardMaxBoardBytes)) file := by
  have refused : ∀ {C : Prop} (e : Failure), ¬ C →
      ((∃ board task dryRun, (.error e : Except Failure ClaimAnswer) = .ok (.claimed board task dryRun)) ↔ C) :=
    fun e hC => iff_of_false (by rintro ⟨_, _, _, h⟩; cases h) hC
  unfold blackboardTaskClaim withBoardLock
  refine wp_require_bind (fun hagent => ?_) fun hno => refused _ fun h => hno h.1.agent
  refine wp_require_bind (fun hlease => ?_) fun hno => refused _ fun h => hno h.1.lease
  refine wp_require_bind (fun hboard => ?_) fun hno => refused _ fun h => hno h.1.board
  refine wp_loadBoard_bind (fun hloads => ?_) fun hno e => refused e fun h => hno h.2.1
  have hadmissible : Admissible request := ⟨hagent, hlease, hboard⟩
  cases hrefresh : refreshTasks (boardOf file) nowMs with
  | mk changed refreshed =>
    dsimp only
    cases hchosen : chosenTask refreshed (scanTasks request nowMs refreshed) with
    | none =>
      have hno : ¬ ∃ board task, board = refreshed ∧ chosenTask board (scanTasks request nowMs board) = some task ∧
          (request.dryRun = true ∨ (claimedBoard request nowMs board (scanTasks request nowMs board).chosen
            task).byteSize ≤ kBlackboardMaxBoardBytes) := by
        rintro ⟨board, task, rfl, htask, -⟩
        rw [hchosen] at htask
        cases htask
      have hanswer : ∀ r, r = notClaimedAnswer request nowMs refreshed →
          ¬ ∃ board task dryRun, r = .ok (.claimed board task dryRun) := by
        rintro _ rfl ⟨board, task, dryRun, h⟩
        unfold notClaimedAnswer at h
        split at h <;> cases h
      refine wp_ite (fun _ => ?_) fun _ => ?_
      · refine wp_saveBoard_bind (fun _ => ?_) fun e => refused e fun h => hno h.2.2
        exact wp_ofExcept (iff_of_false (hanswer _ rfl) fun h => hno h.2.2)
      · exact wp_ofExcept (iff_of_false (hanswer _ rfl) fun h => hno h.2.2)
    | some task =>
      refine wp_ite (fun hdry => ?_) fun hdry => ?_
      · exact wp_pure (iff_of_true ⟨_, _, _, rfl⟩ ⟨hadmissible, hloads, refreshed, task, rfl, hchosen, .inl hdry⟩)
      · by_cases hsize : (claimedBoard request nowMs refreshed (scanTasks request nowMs refreshed).chosen
          task).byteSize ≤ kBlackboardMaxBoardBytes
        · refine wp_saveAndReadBack_ok hsize (wp_pure ?_)
          exact iff_of_true ⟨_, _, _, rfl⟩ ⟨hadmissible, hloads, refreshed, task, rfl, hchosen, .inr hsize⟩
        · refine wp_saveAndReadBack_bind (fun hfits => absurd hfits hsize) fun e => refused e ?_
          rintro ⟨-, -, board, other, rfl, hother, hend⟩
          rw [hchosen] at hother
          cases hother
          exact hend.elim hdry hsize

theorem step_claims (file : File) (request : BlackboardTaskClaimRequest) (nowMs : Int) :
    (∃ board task dryRun, (step file ⟨.taskClaim request, nowMs⟩).1 = .ok (.taskClaim (.claimed board task dryRun))) ↔
      Admissible request ∧ Loads file ∧ ∃ refreshed task, refreshed = (refreshTasks (boardOf file) nowMs).2 ∧
        chosenTask refreshed (scanTasks request nowMs refreshed) = some task ∧ (request.dryRun = true ∨
          (claimedBoard request nowMs refreshed (scanTasks request nowMs refreshed).chosen task).byteSize ≤
            kBlackboardMaxBoardBytes) := by
  have hstep : (step file ⟨.taskClaim request, nowMs⟩).1 =
      ((blackboardTaskClaim request nowMs).run file).1.map .taskClaim :=
    congrArg Prod.fst (run_perform _ _ _)
  rw [hstep]
  refine Iff.trans ?_ (blackboardTaskClaim_claims request nowMs file)
  refine exists_congr fun board => exists_congr fun task => exists_congr fun dryRun => ?_
  cases ((blackboardTaskClaim request nowMs).run file).1 with
  | error e => exact iff_of_false nofun nofun
  | ok a => simp [Except.map]

/-- What a claim took, by its answer and by what it stored. -/
theorem step_claimed {file : File} {request : BlackboardTaskClaimRequest} {nowMs : Int} {board : String}
    {task : Option Task} {dryRun : Bool}
    (h : (step file ⟨.taskClaim request, nowMs⟩).1 = .ok (.taskClaim (.claimed board task dryRun))) :
    ∃ refreshed, chosenTask (refreshTasks (boardOf file) nowMs).2
        (scanTasks request nowMs (refreshTasks (boardOf file) nowMs).2) = some refreshed ∧
      task = some (claimTask request nowMs refreshed) ∧
      (request.dryRun = false → boardOf (step file ⟨.taskClaim request, nowMs⟩).2 =
        claimedBoard request nowMs (refreshTasks (boardOf file) nowMs).2
          (scanTasks request nowMs (refreshTasks (boardOf file) nowMs).2).chosen refreshed) := by
  have hstep : step file ⟨.taskClaim request, nowMs⟩ =
      (((blackboardTaskClaim request nowMs).run file).1.map .taskClaim,
        ((blackboardTaskClaim request nowMs).run file).2) := run_perform _ _ _
  rw [hstep] at h ⊢
  have hspec := blackboardTaskClaim_spec request nowMs file
  unfold Locked.wp at hspec
  generalize (blackboardTaskClaim request nowMs).run file = outcome at hspec h ⊢
  obtain ⟨r, file'⟩ := outcome
  rcases hspec with ⟨⟨e, rfl⟩, -⟩ | ⟨_, -, rfl, ⟨-, -, rfl⟩ | ⟨refreshed, hchosen, rfl, hend⟩⟩
  · cases h
  · unfold notClaimedAnswer at h
    cases htask : request.taskId with
    | none => rw [htask] at h; cases h
    | some taskId => rw [htask] at h; cases h
  · cases h
    refine ⟨refreshed, hchosen, rfl, fun hreal => ?_⟩
    rcases hend with ⟨hdry, -⟩ | ⟨stored, -, -, rfl, rfl⟩
    · rw [hreal] at hdry
      cases hdry
    · rfl

theorem named_of_run (calls : List Call) :
    ∀ k task, (boardOf (Run.exec step none calls)).tasks.get k = some task → k ≠ "" := by
  refine tasks_of_run (P := fun tasks => ∀ k task, tasks.get k = some task → k ≠ "")
    (fun nowMs tasks tasks' hmove h => ?_) calls fun k task h => by cases h
  have hinsert : ∀ k task, k ≠ "" → ∀ j other, (tasks.insert k task).get j = some other → j ≠ "" := by
    intro k task hk j other hj
    rw [OrderedMap.get_insert] at hj
    split_ifs at hj with hjk
    · rwa [hjk]
    · exact h j other hj
  cases hmove with
  | refresh =>
    intro k task hk
    obtain ⟨found, hfound, -⟩ := get_refreshedTasks_some hk
    exact h k found hfound
  | create hfresh hknown hnamed => exact hinsert _ _ hnamed
  | claim hfound hpending hfree => exact hinsert _ _ (h _ _ hfound)
  | update hfound hallowed hstatus => exact hinsert _ _ (h _ _ hfound)
  | complete hfound hallowed => exact hinsert _ _ (h _ _ hfound)

theorem loads_of_run (calls : List Call) : Loads (Run.exec step none calls) :=
  Run.exec_of_step (P := Loads) (fun _ _ h => step_loads h) calls fun board h => by cases h

/-- **A claim without a task's id takes the best task there is**, when its agent, its lease and its board
are admissible and the board with the task claimed is within its size. -/
theorem claims_best_task (calls : List Call) (request : BlackboardTaskClaimRequest) (nowMs : Int)
    (hany : request.taskId = none) :
    let file := Run.exec step none calls
    let tasks := (boardOf file).tasks
    let s := step file ⟨.taskClaim request, nowMs⟩
    ((∃ board task dryRun, s.1 = .ok (.taskClaim (.claimed board task dryRun))) ↔
      Admissible request ∧ ∃ k task, Best request nowMs tasks k task ∧ (request.dryRun = true ∨
        (claimedBoard request nowMs (refreshTasks (boardOf file) nowMs).2 k (refreshTask tasks nowMs task)).byteSize ≤
          kBlackboardMaxBoardBytes)) ∧
    ((∃ k task, Best request nowMs tasks k task) ↔ ∃ k task, Offered request nowMs tasks k task) ∧
    ∀ board task dryRun, s.1 = .ok (.taskClaim (.claimed board task dryRun)) →
      ∃ k found, task = some (claimTask request nowMs (refreshTask tasks nowMs found)) ∧
        (request.dryRun = false → (boardOf s.2).tasks.get k = task) ∧ Offered request nowMs tasks k found ∧
        ∀ j other, Offered request nowMs tasks j other →
          other.priority ≤ found.priority ∧ (other.priority = found.priority → found.createdAtMs ≤ other.createdAtMs) := by
  intro file tasks s
  have hagree : ∀ k task, tasks.get k = some task → Agrees task := agrees_of_run calls
  have hchosen := fun k refreshed => @chosenTask_iff request nowMs tasks k hany hagree (named_of_run calls)
    (refreshTasks (boardOf file) nowMs).2 rfl refreshed
  refine ⟨?_, ⟨fun ⟨k, task, h⟩ => ⟨k, task, h.1⟩, fun ⟨k, task, h⟩ => ?_⟩, fun board task dryRun h => ?_⟩
  · rw [step_claims]
    constructor
    · rintro ⟨hadmissible, -, refreshed, _, rfl, htask, hfits⟩
      obtain ⟨task, rfl, hbest⟩ := (hchosen _ _).mp ⟨htask, rfl⟩
      exact ⟨hadmissible, _, task, hbest, hfits⟩
    · rintro ⟨hadmissible, k, task, hbest, hfits⟩
      obtain ⟨htask, rfl⟩ := (hchosen k _).mpr ⟨task, rfl, hbest⟩
      exact ⟨hadmissible, loads_of_run calls, _, _, rfl, htask, hfits⟩
  · obtain ⟨⟨j, refreshed⟩, he⟩ := exists_bestOf hagree h
    obtain ⟨found, -, hbest⟩ := best_of_bestOf hagree he
    exact ⟨j, found, hbest⟩
  · obtain ⟨refreshed, htask, rfl, hstored⟩ := step_claimed h
    obtain ⟨found, rfl, hbest⟩ := (hchosen _ _).mp ⟨htask, rfl⟩
    refine ⟨_, found, rfl, fun hreal => ?_, hbest.1, fun j other hother => le_of_rank_le (hbest.2 j other hother)⟩
    rw [hstored hreal]
    exact OrderedMap.get_insert_self _ _ _

/-! A claim that asks for no lease is refused, whatever the board offers. -/

def offeredCreate : Call := ⟨.taskCreate { taskId := "T", title := "t" }, 0⟩

theorem not_claims_best_task : ¬ ∀ (calls : List Call) (request : BlackboardTaskClaimRequest) (nowMs : Int),
    request.taskId = none →
      ((∃ board task dryRun, (step (Run.exec step none calls) ⟨.taskClaim request, nowMs⟩).1 =
        .ok (.taskClaim (.claimed board task dryRun))) ↔
          ∃ k task, Offered request nowMs (boardOf (Run.exec step none calls)).tasks k task) := by
  intro h
  have hoffered : Offered { agentId := "a", leaseSeconds := 0 } 1 (boardOf (Run.exec step none [offeredCreate])).tasks
      "T" (newTask { taskId := "T", title := "t" } "T" 0 true) :=
    ⟨rfl, nofun, .inl rfl⟩
  have hclaims := (h [offeredCreate] { agentId := "a", leaseSeconds := 0 } 1 rfl).mpr ⟨_, _, hoffered⟩
  exact absurd ((step_claims _ _ _).mp hclaims).1.lease (by decide)

theorem claims_best_task_offered :
    ∃ board task dryRun, (step (Run.exec step none [offeredCreate]) ⟨.taskClaim { agentId := "a" }, 1⟩).1 =
      .ok (.taskClaim (.claimed board task dryRun)) := by
  have hbest : Best { agentId := "a" } 1 (boardOf (Run.exec step none [offeredCreate])).tasks "T"
      (newTask { taskId := "T", title := "t" } "T" 0 true) := by
    refine ⟨⟨rfl, nofun, .inl rfl⟩, fun j other hother => ?_⟩
    have hmem : (j, other) ∈ [("T", newTask { taskId := "T", title := "t" } "T" 0 true)] :=
      OrderedMap.get_eq_some.mp hother.1
    cases mem_singleton.mp hmem
    exact le_refl _
  exact (claims_best_task [offeredCreate] { agentId := "a" } 1 rfl).1.mpr
    ⟨⟨by decide, by decide, by decide⟩, _, _, hbest, .inr (by decide)⟩

end Didi.Blackboard
