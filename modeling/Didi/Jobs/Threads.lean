import Didi.Jobs.Lifecycle

/-!
# The threads of the jobs, and what a job shows

* `Ledger` : the store, the jobs that were started and the threads that were taken to be joined;
* `Accounted` : a thread that was started is joined, or the store has it, in one place;
* `threads_joined_once` : each is joined once, by a shutdown at the latest, and before it only when its work has ended;
* `run_honest` : what a kept job shows is that of its state.
-/

namespace Didi.Jobs
variable {limits : Limits} {past : List String}
namespace JobStore

/-- The threads that are still to be joined. -/
def threads (store : JobStore) : List String := store.orphans ++ (store.jobs.filter fun _ entry => entry.joinable).keys

/-- The threads of the jobs that were dropped went to the orphans. -/
structure Orphaned (s t : JobStore) : Prop where
  threads : t.threads.Perm s.threads
  shuttingDown : t.shuttingDown = s.shuttingDown

theorem orphaned_drop (store : JobStore) (p : String → Entry → Bool) : Orphaned store (store.drop p) := by
  refine ⟨?_, rfl⟩
  have hsplit := List.filter_append_perm (fun e => p e.1 e.2) (store.jobs.entries.filter fun e => e.2.joinable)
  rw [List.filter_filter, List.filter_filter] at hsplit
  show ((store.orphans ++ (store.jobs.entries.filter fun e => p e.1 e.2 && e.2.joinable).map Prod.fst) ++
    ((store.jobs.entries.filter fun e => !p e.1 e.2).filter fun e => e.2.joinable).map Prod.fst).Perm _
  rw [List.append_assoc, List.filter_filter, ← List.map_append]
  simp only [Bool.and_comm] at hsplit ⊢
  exact (hsplit.map _).append_left _

theorem Orphaned.trans {s t u : JobStore} (h : Orphaned s t) (h' : Orphaned t u) : Orphaned s u :=
  ⟨h'.threads.trans h.threads, h'.shuttingDown.trans h.shuttingDown⟩

theorem orphaned_evictRounds (store : JobStore) (rounds : Nat) : Orphaned store (store.evictRounds rounds) := by
  induction rounds generalizing store with
  | zero => exact ⟨.refl _, rfl⟩
  | succ rounds ih =>
    unfold evictRounds
    split_ifs with hfull
    · split
      · exact ⟨.refl _, rfl⟩
      · exact (orphaned_drop store _).trans (ih _)
    · exact ⟨.refl _, rfl⟩

theorem threads_mapVal (store : JobStore) {change : String → Entry → Entry}
    (h : ∀ id entry, (change id entry).joinable = entry.joinable) :
    ((store.jobs.mapVal change).filter fun _ entry => entry.joinable).keys =
      (store.jobs.filter fun _ entry => entry.joinable).keys := by
  show ((store.jobs.entries.map fun e => (e.1, change e.1 e.2)).filter _).map _ = _
  rw [List.filter_map, List.map_map]
  simp only [Function.comp_def, h]
  rfl

end JobStore
open JobStore

/-- The job that an answer says was started. -/
def Answer.startedId : Answer → List String
  | .started result => result.toOption.toList.map JobView.id
  | _ => []

/-- The threads that a section takes to join. -/
def joinedBy (store : JobStore) : Event → List String
  | .reap => store.orphans
  | .shutdown => store.threads
  | _ => []

structure Ledger where
  store : JobStore
  started : List String := []
  joined : List String := []

def Ledger.step (l : Ledger) (event : Event) : Unit × Ledger :=
  ((), { store := (Jobs.step l.store event).2
         started := l.started ++ (Jobs.step l.store event).1.startedId
         joined := l.joined ++ joinedBy l.store event })

structure Accounted (l : Ledger) : Prop where
  threads : l.started.Perm (l.joined ++ l.store.threads)
  held : l.store.shuttingDown = false → ∀ id entry, l.store.jobs.get id = some entry → entry.joinable = true

theorem Accounted.mapVal {l : Ledger} (h : Accounted l) {change : String → Entry → Entry}
    (hchange : ∀ id entry, (change id entry).joinable = entry.joinable) (running : List String) :
    Accounted { l with store := { l.store with jobs := l.store.jobs.mapVal change, running } } := by
  refine ⟨?_, fun hopen id entry hget => ?_⟩
  · rw [JobStore.threads, threads_mapVal l.store hchange]
    exact h.threads
  · rw [OrderedMap.get_mapVal] at hget
    obtain ⟨old, hold, rfl⟩ := Option.map_eq_some_iff.mp hget
    exact (hchange id old).trans (h.held hopen id old hold)

/-- A start that is answered adds a thread, after those of dropped jobs were put aside. -/
theorem start_threads {store : JobStore} (hs : Sound limits past store) {id : String} (hid : id ∉ past)
    (request : StartRequest) (nowMs : Int) :
    (store.threads ++ (Answer.started (store.start id request nowMs).1).startedId).Perm
      (store.start id request nowMs).2.threads ∧
    (store.start id request nowMs).2.shuttingDown = store.shuttingDown := by
  have hexpired : Orphaned store (store.expireLocked nowMs) := orphaned_drop store _
  have hevicted := hexpired.trans (orphaned_evictRounds _ (store.expireLocked nowMs).jobs.size)
  have hpruned := (pruned_expireLocked store nowMs).trans (pruned_evictRounds _ (store.expireLocked nowMs).jobs.size)
  unfold start
  dsimp only
  split_ifs with hshut hfull
  · exact ⟨.of_eq (List.append_nil _), rfl⟩
  · exact ⟨(List.Perm.of_eq (List.append_nil _)).trans hexpired.threads.symm, hexpired.shuttingDown⟩
  · refine ⟨?_, hevicted.shuttingDown⟩
    unfold evictLocked
    generalize evictRounds _ _ = t at hevicted hpruned ⊢
    have hnew : t.jobs.get id = none :=
      Option.eq_none_iff_forall_ne_some.mpr fun entry hget => hid ((hs.pruned hpruned).known id entry hget)
    have hinsert := List.insertKey_perm ({ view := startedView t.limits id request nowMs } : Entry)
      (show t.jobs.entries.lookup id = none from hnew)
    have hadded := ((hinsert.filter fun e => e.2.joinable).map Prod.fst).append_left t.orphans
    refine (hevicted.threads.symm.append_right _).trans ((List.perm_append_singleton id _).trans ?_)
    exact List.perm_middle.symm.trans hadded.symm

theorem Accounted.start {l : Ledger} (hs : Sound limits past l.store) (h : Accounted l) {id : String} (hid : id ∉ past)
    (request : StartRequest) (nowMs : Int) :
    Accounted (l.step (.start id request nowMs)).2 := by
  obtain ⟨hthreads, hsame⟩ := start_threads hs hid request nowMs
  refine ⟨?_, fun hopen k entry hget => ?_⟩
  · show (l.started ++ _).Perm (l.joined ++ [] ++ _)
    rw [List.append_nil]
    refine (h.threads.append_right _).trans ?_
    rw [List.append_assoc]
    exact hthreads.append_left _
  · have hheld := h.held (hsame.symm.trans hopen)
    have hpruned : ∀ {t : JobStore}, Pruned l.store t → t.jobs.get k = some entry → entry.joinable = true := by
      intro t hp hget
      rcases hp.jobs k with heq | ⟨hnone, -⟩
      · exact hheld k entry (heq ▸ hget)
      · rw [hnone] at hget
        cases hget
    have hget : (l.store.start id request nowMs).2.jobs.get k = some entry := hget
    rcases start_cases l.store id request nowMs with hp | ⟨t, hp, -, -, hstart⟩
    · exact hpruned hp hget
    · rw [hstart, OrderedMap.get_insert] at hget
      split_ifs at hget
      · cases hget
        rfl
      · exact hpruned hp hget

theorem Accounted.step {l : Ledger} (hs : Sound limits past l.store) (h : Accounted l) {event : Event}
    (hfresh : ∀ id, event.drawn = some id → id ∉ past) :
    Accounted (l.step event).2 := by
  have hsame : Accounted { l with started := l.started ++ [], joined := l.joined ++ [] } := by
    rwa [List.append_nil, List.append_nil]
  cases event with
  | start id request nowMs => exact h.start hs (hfresh id rfl) request nowMs
  | reap =>
    refine ⟨?_, h.held⟩
    show (l.started ++ []).Perm (l.joined ++ l.store.orphans ++ ([] ++ _))
    rw [List.append_nil, List.append_assoc]
    exact h.threads
  | shutdown =>
    refine ⟨?_, fun hopen => (by cases hopen)⟩
    have hnone : l.store.shutdown.threads = [] := by
      show ((l.store.jobs.entries.map _).filter _).map _ = _
      simp [List.filter_map, Function.comp_def]
    show (l.started ++ []).Perm (l.joined ++ l.store.threads ++ l.store.shutdown.threads)
    rw [hnone, List.append_nil, List.append_nil]
    exact h.threads
  | cancel id nowMs =>
    refine hsame.mapVal (fun k entry => ?_) l.store.running
    unfold requestCancel
    split_ifs <;> rfl
  | finish id outcome nowMs =>
    simp only [Ledger.step, Jobs.step, JobStore.finish]
    split_ifs
    · refine @Accounted.mapVal _ hsame (fun k entry => if k = id then recordEnd outcome nowMs entry else entry)
        (fun k entry => ?_) (l.store.running.erase id)
      unfold recordEnd
      dsimp only
      split_ifs <;> rfl
    · exact hsame
  | _ => exact hsame

theorem startedId_sublist (store : JobStore) (event : Event) :
    (step store event).1.startedId.Sublist event.drawn.toList := by
  cases event with
  | start id request nowMs =>
    show (Answer.started (store.start id request nowMs).1).startedId.Sublist [id]
    unfold start
    dsimp only
    split_ifs
    · exact List.nil_sublist _
    · exact List.nil_sublist _
    · exact List.Sublist.refl _
  | _ => exact List.nil_sublist _

theorem run_accounted (hlimits : limits.maxWorking < limits.maxRetained) {l : Ledger} {events : List Event}
    (hs : Sound limits past l.store) (h : Accounted l) (hstarted : l.started.Sublist past)
    (hids : (past ++ events.filterMap Event.drawn).Nodup) :
    let l' := Run.exec Ledger.step l events
    (∃ past, Sound limits past l'.store) ∧ Accounted l' ∧ l'.started.Nodup := by
  induction events generalizing past l with
  | nil => exact ⟨⟨past, hs⟩, h, hstarted.nodup (List.nodup_append.mp hids).1⟩
  | cons event events ih =>
    have hfresh : ∀ id, event.drawn = some id → id ∉ past := fun id hid => fresh_of_nodup hids hid
    rw [drawn_cons] at hids
    exact ih (step_sound hlimits hs hfresh) (h.step hs hfresh) (hstarted.append (startedId_sublist l.store event)) hids

/-- Whatever the order of the sections, a thread that was started is joined once or still to be joined, and a shutdown
leaves none; until it no thread is taken to be joined whose work still runs, so that a start never waits for one. -/
theorem threads_joined_once {limits : Limits} (hlimits : limits.maxWorking < limits.maxRetained) {events : List Event}
    (hids : (events.filterMap Event.drawn).Nodup) :
    let l := Run.exec Ledger.step { store := { limits := limits } } events
    l.started.Nodup ∧ l.started.Perm (l.joined ++ l.store.threads) ∧ l.started.Perm (l.step .shutdown).2.joined ∧
      (l.store.shuttingDown = false → ∀ id ∈ l.joined ++ l.store.orphans, id ∉ l.store.running) := by
  intro l
  have hfirst : Accounted { store := { limits := limits } } := ⟨.refl _, fun _ _ _ hget => (by cases hget)⟩
  obtain ⟨⟨_, hsound⟩, haccounted, hnodup⟩ := run_accounted hlimits (sound_init limits) hfirst (List.Sublist.refl _) hids
  refine ⟨hnodup, haccounted.threads, haccounted.threads, fun hopen id hid hrunning => ?_⟩
  -- a thread that runs is that of a kept job
  have hall := haccounted.threads.nodup_iff.mp hnodup
  obtain ⟨entry, hget, -⟩ := (hsound.running id).mp hrunning
  have hmem : (id, entry) ∈ l.store.jobs.entries.filter fun e => e.2.joinable :=
    List.mem_filter.mpr ⟨OrderedMap.get_eq_some.mp hget, haccounted.held hopen id entry hget⟩
  rw [threads, ← List.append_assoc] at hall
  exact (List.nodup_append.mp hall).2.2 id hid id (List.mem_map_of_mem (f := Prod.fst) hmem) rfl

/-- Two jobs, of which the first lapses when the second is started. -/
theorem threads_joined_once_lapsed :
    let limits : Limits := { maxWorking := 1, maxRetained := 2, ttlMs := 5 }
    let events : List Event := [.start "a" ⟨"main", "project_export", "", ""⟩ 0, .finish "a" (.answered .null) 1,
      .start "b" ⟨"main", "project_export", "", ""⟩ 9, .reap]
    ["a", "b"].Perm ((Run.exec Ledger.step { store := { limits := limits } } events).step .shutdown).2.joined := by
  intro limits events
  exact (threads_joined_once (show limits.maxWorking < limits.maxRetained by decide)
    (show (events.filterMap Event.drawn).Nodup by decide)).2.2.1

/-! ## What a kept job shows -/

/-- The result, the reason and the flag of a job are those of its state. -/
structure Honest (entry : Entry) : Prop where
  result : entry.view.result.isSome ↔ entry.view.state = .completed
  reason : entry.view.abandonedReason ≠ "" ↔ entry.view.state = .abandoned
  cancelled : entry.view.state = .cancelled ∨ entry.view.cancelRequested = true → entry.cancelled = true

theorem honest_recordEnd {entry : Entry} (h : Honest entry) (hworking : entry.view.state = .working) (outcome : Outcome)
    (nowMs : Int) : Honest (recordEnd outcome nowMs entry) := by
  obtain ⟨hresult, hreason, hcancelled⟩ := h
  simp only [hworking, reduceCtorEq, iff_false, not_not, Bool.not_eq_true, false_or] at hresult hreason hcancelled
  unfold recordEnd
  dsimp only
  split_ifs with hfailure hflag
  · exact ⟨by simpa using hresult, by simpa using hfailure, by simpa using hcancelled⟩
  · exact ⟨by simpa using hresult, by simpa using hreason, fun _ => hflag⟩
  · have hanswered : outcome.result.isSome := by
      cases outcome with
      | answered result => rfl
      | threw what => simp [Outcome.failure] at hfailure
      | threwOther => simp [Outcome.failure] at hfailure
    exact ⟨by simpa using hanswered, by simpa using hreason, by simpa using hcancelled⟩

theorem JobMove.honest {e e' : Option Entry} (h : JobMove e e') (he : ∀ entry, e = some entry → Honest entry) :
    ∀ entry, e' = some entry → Honest entry := by
  rintro _ rfl
  cases h with
  | kept => exact he _ rfl
  | flagged entry => exact { he entry rfl with cancelled := fun _ => rfl }
  | asked nowMs hworking =>
    rw [requestCancel, if_pos hworking]
    exact { he _ rfl with cancelled := fun _ => rfl }
  | finished outcome nowMs hworking => exact honest_recordEnd (he _ rfl) (of_decide_eq_true hworking) outcome nowMs

/-- In every state of every run, what a kept job shows agrees with how its work ended. -/
theorem run_honest {limits : Limits} (hlimits : limits.maxWorking < limits.maxRetained) {past : List String}
    {store : JobStore} {events : List Event} (hs : Sound limits past store)
    (h : ∀ id entry, store.jobs.get id = some entry → Honest entry)
    (hids : (past ++ events.filterMap Event.drawn).Nodup) :
    ∀ id entry, (Run.exec step store events).jobs.get id = some entry → Honest entry := by
  induction events generalizing past store with
  | nil => exact h
  | cons event events ih =>
    have hfresh : ∀ id, event.drawn = some id → id ∉ past := fun id hid => fresh_of_nodup hids hid
    have hsound := step_sound hlimits hs hfresh
    rw [drawn_cons] at hids
    refine ih hsound (fun id entry hget => ?_) hids
    by_cases hid : event.drawn = some id
    · -- the job is new
      cases event with
      | start k request nowMs =>
        cases hid
        have hget : (store.start id request nowMs).2.jobs.get id = some entry := hget
        rcases start_cases store id request nowMs with hp | ⟨t, -, -, -, hstart⟩
        · rcases hp.jobs id with hsame | ⟨hnone, -⟩
          · exact h id entry (hsame ▸ hget)
          · rw [hnone] at hget
            cases hget
        · rw [hstart, OrderedMap.get_insert_self] at hget
          cases hget
          exact ⟨by simp [startedView], by simp [startedView], by simp [startedView]⟩
      | _ => cases hid
    · exact (step_moves hs hid).honest (h id) entry hget

/-- A job whose work throws. -/
theorem run_honest_threw :
    let events : List Event := [.start "a" ⟨"main", "project_export", "", ""⟩ 0, .finish "a" (.threw "no disk") 1]
    ∃ entry, (Run.exec step { limits := {} } events).jobs.get "a" = some entry ∧ Honest entry := by
  intro events
  refine ⟨_, rfl, @run_honest {} (by decide) [] _ events (sound_init {}) ?_ ?_ "a" _ rfl⟩
  · exact fun _ _ hget => by cases hget
  · decide

end Didi.Jobs
