import Mathlib.Logic.Relation
import Didi.Lib.Run
import Didi.Jobs.Store

/-!
# The life of a job

* `Pruned before after` : finished jobs were dropped, and nothing else happened to any job;
* `JobMove before after` : what one section can do to one job (`step_moves`);
* `Sound` : what holds of the store after every section, whatever the order of the sections is.

The ids that a run draws never repeat; the threads of the jobs it starts do start.
-/

namespace Didi.Jobs
variable {store : JobStore} {past : List String} {limits : Limits}
namespace JobStore

/-! ## Dropping finished jobs -/

/-- Finished jobs were dropped, and nothing else happened to any job. -/
structure Pruned (before after : JobStore) : Prop where
  limits : after.limits = before.limits
  running : after.running = before.running
  jobs : ∀ id, after.jobs.get id = before.jobs.get id ∨
    after.jobs.get id = none ∧ ∃ entry, before.jobs.get id = some entry ∧ entry.working = false
  count : after.workingCount = before.workingCount
  size : after.jobs.size ≤ before.jobs.size

theorem Pruned.refl (store : JobStore) : Pruned store store :=
  ⟨rfl, rfl, fun _ => .inl rfl, rfl, le_refl _⟩

theorem Pruned.trans {s t u : JobStore} (h : Pruned s t) (h' : Pruned t u) : Pruned s u := by
  refine ⟨h'.limits.trans h.limits, h'.running.trans h.running, ?_, h'.count.trans h.count,
    h'.size.trans h.size⟩
  intro id
  rcases h'.jobs id with hu | ⟨hu, entry, ht, hentry⟩
  · rw [hu]
    exact h.jobs id
  · rcases h.jobs id with hs | ⟨hs, -⟩
    · exact .inr ⟨hu, entry, hs ▸ ht, hentry⟩
    · rw [hs] at ht
      cases ht

/-- A job that works is in the store before and after a pruning, with the same entry. -/
theorem Pruned.get_working {s t : JobStore} (h : Pruned s t) {id : String} {entry : Entry}
    (hworking : entry.working = true) : t.jobs.get id = some entry ↔ s.jobs.get id = some entry := by
  rcases h.jobs id with hj | ⟨hj, finished, hs, hfinished⟩
  · rw [hj]
  · rw [hj, hs]
    constructor
    · intro hnone
      cases hnone
    · intro hsome
      cases hsome
      rw [hworking] at hfinished
      cases hfinished

theorem pruned_drop (store : JobStore) {p : String → Entry → Bool}
    (h : ∀ id entry, store.jobs.get id = some entry → p id entry = true → entry.working = false) :
    Pruned store (store.drop p) := by
  refine ⟨rfl, rfl, ?_, ?_, List.length_filter_le _ _⟩
  · intro id
    show (store.jobs.filter _).get id = _ ∨ (store.jobs.filter _).get id = none ∧ _
    rw [OrderedMap.get_filter]
    cases hget : store.jobs.get id with
    | none => exact .inl rfl
    | some entry =>
      by_cases hp : p id entry = true
      · exact .inr ⟨by simp [hp], entry, rfl, h id entry hget hp⟩
      · exact .inl (by simp [hp])
  · show (store.jobs.entries.filter _).countP _ = store.jobs.entries.countP _
    rw [List.countP_filter]
    apply List.countP_congr
    intro e he
    by_cases hp : p e.1 e.2 = true
    · simp [h _ _ (OrderedMap.get_eq_some.mpr he) hp, hp]
    · simp [hp]

theorem pruned_expireLocked (store : JobStore) (nowMs : Int) :
    Pruned store (store.expireLocked nowMs) := by
  apply pruned_drop
  intro id entry _ h
  have hstate := (Bool.and_eq_true_iff.mp h).1
  simpa [Entry.working] using hstate

theorem olderFinished_eq_none {oldest : Option (String × Entry)} {e : String × Entry}
    (h : olderFinished oldest e = none) : oldest = none ∧ e.2.working = true := by
  unfold olderFinished at h
  by_cases he : e.2.working = true
  · rw [if_pos he] at h
    exact ⟨h, he⟩
  · rw [if_neg he] at h
    split at h
    · cases h
    · split_ifs at h

theorem olderFinished_eq_some {oldest : Option (String × Entry)} {e o : String × Entry}
    (h : olderFinished oldest e = some o) : oldest = some o ∨ o = e ∧ e.2.working = false := by
  unfold olderFinished at h
  by_cases he : e.2.working = true
  · rw [if_pos he] at h
    exact .inl h
  · rw [if_neg he] at h
    split at h
    · exact .inr ⟨(Option.some.inj h).symm, by simpa using he⟩
    · split_ifs at h
      · exact .inr ⟨(Option.some.inj h).symm, by simpa using he⟩
      · exact .inl h

theorem oldestFinished_none {jobs : List (String × Entry)} (h : oldestFinished jobs = none) :
    ∀ e ∈ jobs, e.2.working = true := by
  have hfold : ∀ (l : List (String × Entry)) oldest, l.foldl olderFinished oldest = none →
      oldest = none ∧ ∀ e ∈ l, e.2.working = true := by
    intro l
    induction l with
    | nil => exact fun oldest h => ⟨h, by simp⟩
    | cons e l ih =>
      intro oldest h
      obtain ⟨hnone, hl⟩ := ih _ h
      obtain ⟨holdest, he⟩ := olderFinished_eq_none hnone
      refine ⟨holdest, ?_⟩
      intro e' he'
      rcases List.mem_cons.mp he' with rfl | he'
      · exact he
      · exact hl e' he'
  exact (hfold jobs none h).2

theorem oldestFinished_some {jobs : List (String × Entry)} {o : String × Entry}
    (h : oldestFinished jobs = some o) : o ∈ jobs ∧ o.2.working = false := by
  have hfold : ∀ (l : List (String × Entry)) oldest, l.foldl olderFinished oldest = some o →
      oldest = some o ∨ o ∈ l ∧ o.2.working = false := by
    intro l
    induction l with
    | nil => exact fun oldest h => .inl h
    | cons e l ih =>
      intro oldest h
      rcases ih _ h with hstart | ⟨hmem, hfinished⟩
      · rcases olderFinished_eq_some hstart with hstart | ⟨rfl, he⟩
        · exact .inl hstart
        · exact .inr ⟨List.mem_cons_self, he⟩
      · exact .inr ⟨List.mem_cons_of_mem e hmem, hfinished⟩
  rcases hfold jobs none h with hnone | hmem
  · cases hnone
  · exact hmem

theorem pruned_drop_oldest {oldest : String × Entry} (h : oldestFinished store.jobs.entries = some oldest) :
    Pruned store (store.drop fun id _ => id = oldest.1) := by
  obtain ⟨hmem, hfinished⟩ := oldestFinished_some h
  apply pruned_drop
  intro id entry hget hid
  have holdest := OrderedMap.get_eq_some.mpr hmem
  rw [of_decide_eq_true hid, holdest] at hget
  cases hget
  exact hfinished

theorem pruned_evictRounds (store : JobStore) (rounds : Nat) :
    Pruned store (store.evictRounds rounds) := by
  induction rounds generalizing store with
  | zero => exact .refl store
  | succ rounds ih =>
    unfold evictRounds
    split_ifs with hfull
    · split
      · exact .refl store
      · rename_i oldest holdest
        exact (pruned_drop_oldest holdest).trans (ih _)
    · exact .refl store

theorem workingCount_le (store : JobStore) : store.workingCount ≤ store.jobs.size := List.countP_le_length

/-- An eviction makes room, unless every job that is kept works. -/
theorem evictRounds_room (store : JobStore) {rounds : Nat} (h : store.jobs.size ≤ rounds) :
    (store.evictRounds rounds).jobs.size < store.limits.maxRetained ∨
      (store.evictRounds rounds).jobs.size = store.workingCount := by
  induction rounds generalizing store with
  | zero =>
    have hcount := workingCount_le store
    refine .inr ?_
    show store.jobs.size = _
    omega
  | succ rounds ih =>
    unfold evictRounds
    split_ifs with hfull
    · split
      · rename_i hnone
        exact .inr (List.countP_eq_length.mpr (oldestFinished_none hnone)).symm
      · rename_i oldest holdest
        have hmem := (oldestFinished_some holdest).1
        have hfewer : (store.drop fun id _ => id = oldest.1).jobs.size < store.jobs.size :=
          List.length_filter_lt_length_iff_exists.mpr ⟨oldest, hmem, by simp⟩
        rw [← (pruned_drop_oldest holdest).count]
        exact ih _ (by omega)
    · exact .inl (by omega)

/-! ## Changing a job in place -/

theorem get_update (store : JobStore) (id : String) (change : Entry → Entry) (k : String) :
    (store.update id change).jobs.get k =
      if k = id then (store.jobs.get k).map change else store.jobs.get k := by
  rw [update, OrderedMap.get_mapVal]
  by_cases h : k = id <;> simp [h]

theorem workingCount_mapVal_le (store : JobStore) {change : String → Entry → Entry}
    (h : ∀ id entry, (change id entry).working = true → entry.working = true) :
    (store.jobs.mapVal change).entries.countP (fun e => e.2.working) ≤ store.workingCount := by
  rw [OrderedMap.mapVal, List.countP_map]
  exact List.countP_mono_left fun e _ he => h e.1 e.2 he

theorem working_requestCancel (nowMs : Int) (entry : Entry) :
    (requestCancel nowMs entry).working = entry.working := by
  unfold requestCancel
  split_ifs <;> rfl

theorem working_recordEnd (outcome : Outcome) (nowMs : Int) (entry : Entry) :
    (recordEnd outcome nowMs entry).working = false := by
  unfold recordEnd
  dsimp only
  split_ifs <;> rfl

/-- A work that was asked to stop does not complete. -/
theorem state_recordEnd {outcome : Outcome} {nowMs : Int} {entry : Entry} (h : entry.cancelled = true) :
    (recordEnd outcome nowMs entry).view.state ≠ .completed := by
  unfold recordEnd
  dsimp only
  split_ifs
  · exact fun hstate => nomatch hstate
  · exact fun hstate => nomatch hstate

end JobStore
open JobStore

/-! ## One section and one job -/

/-- What a section can do to a job: nothing; drop it once it is finished; flag it for a shutdown; ask
it to stop while it works; or record how its work ended. -/
inductive JobMove : Option Entry → Option Entry → Prop
  | kept (entry : Option Entry) : JobMove entry entry
  | dropped {entry : Entry} (h : entry.working = false) : JobMove (some entry) none
  | flagged (entry : Entry) : JobMove (some entry) (some { entry with cancelled := true, joinable := false })
  | asked {entry : Entry} (nowMs : Int) (h : entry.working = true) :
    JobMove (some entry) (some (requestCancel nowMs entry))
  | finished {entry : Entry} (outcome : Outcome) (nowMs : Int) (h : entry.working = true) :
    JobMove (some entry) (some (recordEnd outcome nowMs entry))

/-- What holds of the store after every section, when the ids `past` were drawn so far. -/
structure Sound (limits : Limits) (past : List String) (store : JobStore) : Prop where
  bounds : store.limits = limits
  known : ∀ id entry, store.jobs.get id = some entry → id ∈ past
  working : store.workingCount ≤ limits.maxWorking
  retained : store.jobs.size ≤ limits.maxRetained
  nodup : store.running.Nodup
  running : ∀ id, id ∈ store.running ↔ ∃ entry, store.jobs.get id = some entry ∧ entry.working = true

/-- A start that is refused only drops finished jobs; another one also adds its job. -/
theorem start_cases (store : JobStore) (id : String) (request : StartRequest) (nowMs : Int) :
    Pruned store (store.start id request nowMs).2 ∨
      ∃ pruned, Pruned store pruned ∧ pruned.workingCount < pruned.limits.maxWorking ∧
        (pruned.jobs.size < pruned.limits.maxRetained ∨ pruned.jobs.size = pruned.workingCount) ∧
        (store.start id request nowMs).2 = { pruned with
          jobs := pruned.jobs.insert id { view := startedView pruned.limits id request nowMs }
          running := id :: pruned.running } := by
  unfold start
  dsimp only
  have hexpired := pruned_expireLocked store nowMs
  split_ifs with hshut hfull
  · exact .inl (.refl store)
  · exact .inl hexpired
  · have hevicted := pruned_evictRounds (store.expireLocked nowMs) (store.expireLocked nowMs).jobs.size
    have hroom := evictRounds_room (store.expireLocked nowMs) (le_refl _)
    refine .inr ⟨(store.expireLocked nowMs).evictLocked, hexpired.trans hevicted, ?_, ?_, rfl⟩
    · rw [evictLocked, hevicted.count, hevicted.limits]
      omega
    · rw [evictLocked, hevicted.count, hevicted.limits]
      exact hroom

theorem Sound.pruned {s t : JobStore} (hs : Sound limits past s) (h : Pruned s t) : Sound limits past t := by
  refine ⟨h.limits.trans hs.bounds, ?_, h.count.trans_le hs.working, h.size.trans hs.retained,
    h.running ▸ hs.nodup, ?_⟩
  · intro id entry hget
    rcases h.jobs id with hsame | ⟨hnone, -⟩
    · exact hs.known id entry (hsame ▸ hget)
    · rw [hnone] at hget
      cases hget
  · intro id
    rw [h.running, hs.running]
    constructor
    · rintro ⟨entry, hget, hworking⟩
      exact ⟨entry, (h.get_working hworking).mpr hget, hworking⟩
    · rintro ⟨entry, hget, hworking⟩
      exact ⟨entry, (h.get_working hworking).mp hget, hworking⟩

theorem Sound.insert (hs : Sound limits past store) {id : String} (hid : id ∉ past)
    (hworking : store.workingCount < limits.maxWorking) (hroom : store.jobs.size < limits.maxRetained) {entry : Entry}
    (hentry : entry.working = true) :
    Sound limits (past ++ [id])
      { store with jobs := store.jobs.insert id entry, running := id :: store.running } := by
  have hnew : store.jobs.get id = none := by
    cases hget : store.jobs.get id with
    | none => rfl
    | some old => exact absurd (hs.known id old hget) hid
  have hperm := List.insertKey_perm entry (show store.jobs.entries.lookup id = none from hnew)
  refine ⟨hs.bounds, ?_, ?_, ?_, ?_, ?_⟩
  · intro k e hget
    rw [OrderedMap.get_insert] at hget
    split_ifs at hget with hk
    · rw [hk]
      exact List.mem_append_right _ List.mem_cons_self
    · exact List.mem_append_left _ (hs.known k e hget)
  · show (store.jobs.entries.insertKey id entry).countP _ ≤ _
    rw [hperm.countP_eq, List.countP_cons]
    have hle : store.jobs.entries.countP (fun e => e.2.working) < limits.maxWorking := hworking
    simp only [hentry, if_true]
    omega
  · show (store.jobs.entries.insertKey id entry).length ≤ _
    rw [hperm.length_eq]
    exact hroom
  · refine List.nodup_cons.mpr ⟨?_, hs.nodup⟩
    intro hmem
    obtain ⟨old, hget, -⟩ := (hs.running id).mp hmem
    exact hid (hs.known id old hget)
  · intro k
    rw [OrderedMap.get_insert, List.mem_cons]
    by_cases hk : k = id
    · simp [hk, hentry]
    · rw [if_neg hk, ← hs.running]
      simp [hk]

/-- A change in place that starts no work, and after which the threads that have not ended are those of
the working jobs. -/
theorem Sound.mapVal (hs : Sound limits past store) {change : String → Entry → Entry}
    (h : ∀ id entry, (change id entry).working = true → entry.working = true) {orphans running : List String}
    {shuttingDown : Bool} (hnodup : running.Nodup)
    (hrunning : ∀ id, id ∈ running ↔ ∃ entry, store.jobs.get id = some entry ∧ (change id entry).working = true) :
    Sound limits past
      { store with jobs := store.jobs.mapVal change, orphans, running, shuttingDown } := by
  refine ⟨hs.bounds, ?_, (workingCount_mapVal_le store h).trans hs.working, ?_, hnodup, ?_⟩
  · intro id entry hget
    rw [OrderedMap.get_mapVal] at hget
    obtain ⟨old, hold, -⟩ := Option.map_eq_some_iff.mp hget
    exact hs.known id old hold
  · show (store.jobs.entries.map _).length ≤ _
    rw [List.length_map]
    exact hs.retained
  · intro id
    rw [hrunning, OrderedMap.get_mapVal]
    simp

theorem Sound.mono (hs : Sound limits past store) (more : List String) : Sound limits (past ++ more) store :=
  { hs with known := fun id entry hget => List.mem_append_left _ (hs.known id entry hget) }

theorem Sound.finish (hs : Sound limits past store) (id : String) (outcome : Outcome)
    (nowMs : Int) : Sound limits past (store.finish id outcome nowMs) := by
  unfold JobStore.finish
  split_ifs with hmem
  · show Sound limits past { store with
      jobs := store.jobs.mapVal fun k entry => if k = id then recordEnd outcome nowMs entry else entry
      running := store.running.erase id }
    refine hs.mapVal ?_ (hs.nodup.erase id) ?_
    · intro k entry hworking
      split_ifs at hworking
      · rw [working_recordEnd] at hworking
        cases hworking
      · exact hworking
    · intro k
      rw [hs.nodup.mem_erase_iff, hs.running]
      by_cases hk : k = id
      · simp [hk, working_recordEnd]
      · simp [hk]
  · exact hs

/-- **One section.** What holds of the store holds of it after any section that draws a fresh id. -/
theorem step_sound (hlimits : limits.maxWorking < limits.maxRetained) {event : Event} (hs : Sound limits past store)
    (hfresh : ∀ id, event.drawn = some id → id ∉ past) :
    Sound limits (past ++ event.drawn.toList) (step store event).2 := by
  cases event with
  | reap => exact (hs.mono []).pruned ⟨rfl, rfl, fun _ => .inl rfl, rfl, le_refl _⟩
  | start id request nowMs =>
    rcases start_cases store id request nowMs with hpruned | ⟨pruned, hpruned, hworking, hroom, hstart⟩
    · exact (hs.mono [id]).pruned hpruned
    · have hsound := hs.pruned hpruned
      have hbounds := hsound.bounds
      show Sound limits (past ++ [id]) (store.start id request nowMs).2
      rw [hstart]
      rw [hbounds] at hworking hroom
      exact hsound.insert (hfresh id rfl) hworking (by omega) rfl
  | find id nowMs => exact hs.mono []
  | findByRequest conversation tool requestId nowMs => exact hs.mono []
  | waitFor id timedOut => exact hs.mono []
  | cancel id nowMs =>
    refine (hs.mono []).mapVal ?_ hs.nodup ?_
    · intro k entry hworking
      split_ifs at hworking
      · rwa [working_requestCancel] at hworking
      · exact hworking
    · intro k
      rw [hs.running]
      by_cases hk : k = id <;> simp [hk, working_requestCancel]
  | shutdown =>
    refine (hs.mono []).mapVal ?_ hs.nodup ?_
    · intro id entry hworking
      exact hworking
    · exact hs.running
  | finish id outcome nowMs => exact (hs.mono []).finish id outcome nowMs

/-- What one section does to a job that it does not start. -/
theorem step_moves {event : Event} (hs : Sound limits past store) {id : String} (hid : event.drawn ≠ some id) :
    JobMove (store.jobs.get id) ((step store event).2.jobs.get id) := by
  have hpruned : ∀ {t : JobStore}, Pruned store t → JobMove (store.jobs.get id) (t.jobs.get id) := by
    intro t h
    rcases h.jobs id with hsame | ⟨hnone, entry, hget, hfinished⟩
    · rw [hsame]
      exact .kept _
    · rw [hnone, hget]
      exact .dropped hfinished
  cases event with
  | reap => exact .kept _
  | start k request nowMs =>
    rcases start_cases store k request nowMs with h | ⟨pruned, h, -, -, hstart⟩
    · exact hpruned h
    · have hne : id ≠ k := fun hk => hid (congrArg some hk.symm)
      show JobMove _ ((store.start k request nowMs).2.jobs.get id)
      rw [hstart, OrderedMap.get_insert_of_ne _ _ hne]
      exact hpruned h
  | find k nowMs => exact .kept _
  | findByRequest conversation tool requestId nowMs => exact .kept _
  | waitFor k timedOut => exact .kept _
  | cancel k nowMs =>
    show JobMove _ ((store.update k (requestCancel nowMs)).jobs.get id)
    rw [get_update]
    split_ifs with hk
    · cases hget : store.jobs.get id with
      | none => exact .kept none
      | some entry =>
        by_cases hworking : entry.working = true
        · exact .asked nowMs hworking
        · have hsame : requestCancel nowMs entry = entry := by rw [requestCancel, if_neg hworking]
          rw [Option.map_some, hsame]
          exact .kept _
    · exact .kept _
  | shutdown =>
    show JobMove _ ((store.jobs.mapVal _).get id)
    rw [OrderedMap.get_mapVal]
    cases store.jobs.get id with
    | none => exact .kept none
    | some entry => exact .flagged entry
  | finish k outcome nowMs =>
    show JobMove _ ((store.finish k outcome nowMs).jobs.get id)
    unfold JobStore.finish
    split_ifs with hmem
    · show JobMove _ ((store.update k (recordEnd outcome nowMs)).jobs.get id)
      rw [get_update]
      split_ifs with hk
      · obtain ⟨entry, hget, hworking⟩ := (hs.running k).mp hmem
        rw [hk, hget]
        exact .finished outcome nowMs hworking
      · exact .kept _
    · exact .kept _

/-! ## A run -/

theorem drawn_cons (past : List String) (event : Event) (events : List Event) :
    past ++ (event :: events).filterMap Event.drawn =
      (past ++ event.drawn.toList) ++ events.filterMap Event.drawn := by
  cases hd : event.drawn <;> simp [hd]

theorem fresh_of_nodup {event : Event} {events : List Event}
    (h : (past ++ (event :: events).filterMap Event.drawn).Nodup) {id : String}
    (hid : event.drawn = some id) : id ∉ past := by
  rw [drawn_cons, hid] at h
  have hpast := (List.nodup_append.mp (List.nodup_append.mp h).1).2.2
  exact fun hmem => hpast id hmem id List.mem_cons_self rfl

theorem run_sound (hlimits : limits.maxWorking < limits.maxRetained) {events : List Event}
    (hs : Sound limits past store) (hids : (past ++ events.filterMap Event.drawn).Nodup) :
    Sound limits (past ++ events.filterMap Event.drawn) (Run.exec step store events) := by
  induction events generalizing past store with
  | nil => simpa using hs
  | cons event events ih =>
    have hfresh : ∀ id, event.drawn = some id → id ∉ past := fun id hid => fresh_of_nodup hids hid
    rw [drawn_cons] at hids ⊢
    exact ih (step_sound hlimits hs hfresh) hids

/-- A job whose id was drawn before a run goes through moves only. -/
theorem run_moves (hlimits : limits.maxWorking < limits.maxRetained) {events : List Event}
    (hs : Sound limits past store) (hids : (past ++ events.filterMap Event.drawn).Nodup) {id : String}
    (hid : id ∈ past) :
    Relation.ReflTransGen JobMove (store.jobs.get id) ((Run.exec step store events).jobs.get id) := by
  induction events generalizing past store with
  | nil => exact .refl
  | cons event events ih =>
    have hfresh : ∀ id, event.drawn = some id → id ∉ past := fun id hid => fresh_of_nodup hids hid
    have hmove : JobMove (store.jobs.get id) ((step store event).2.jobs.get id) :=
      step_moves hs fun hdrawn => hfresh id hdrawn hid
    rw [drawn_cons] at hids
    exact .head hmove (ih (step_sound hlimits hs hfresh) hids (List.mem_append_left _ hid))

/-- What every move of a job preserves, its moves preserve. -/
theorem moves_induct {P : Option Entry → Prop} (hP : ∀ e e', JobMove e e' → P e → P e')
    {e e' : Option Entry} (h : Relation.ReflTransGen JobMove e e') (he : P e) : P e' := by
  induction h with
  | refl => exact he
  | tail _ hmove ih => exact hP _ _ hmove ih

/-- A finished job keeps its view until it is dropped, and a dropped one does not come back. -/
theorem settled_of_moves {view : JobView} (hview : view.state ≠ .working) {e e' : Option Entry}
    (h : Relation.ReflTransGen JobMove e e') (he : ∀ entry, e = some entry → entry.view = view) :
    ∀ entry, e' = some entry → entry.view = view := by
  refine moves_induct (P := fun e => ∀ entry, e = some entry → entry.view = view) ?_ h he
  intro e e' hmove he
  have hfinished : ∀ entry, e = some entry → entry.working = false := by
    intro entry hentry
    rw [Entry.working, he entry hentry]
    exact decide_eq_false hview
  cases hmove with
  | kept => exact he
  | dropped hfinished => simp
  | flagged entry =>
    intro entry' h'
    cases h'
    exact he entry rfl
  | asked nowMs hworking =>
    rw [hfinished _ rfl] at hworking
    cases hworking
  | finished outcome nowMs hworking =>
    rw [hfinished _ rfl] at hworking
    cases hworking

/-- A job that was asked to stop while it worked does not complete. -/
theorem stopped_of_moves {e e' : Option Entry} (h : Relation.ReflTransGen JobMove e e')
    (he : ∀ entry, e = some entry → entry.cancelled = true ∧ entry.view.state ≠ .completed) :
    ∀ entry, e' = some entry → entry.cancelled = true ∧ entry.view.state ≠ .completed := by
  refine moves_induct
    (P := fun e => ∀ entry, e = some entry → entry.cancelled = true ∧ entry.view.state ≠ .completed) ?_ h he
  intro e e' hmove he
  cases hmove with
  | kept => exact he
  | dropped hfinished => simp
  | flagged entry =>
    intro entry' h'
    cases h'
    exact ⟨rfl, (he entry rfl).2⟩
  | asked nowMs hworking =>
    intro entry' h'
    cases h'
    obtain ⟨hcancelled, hstate⟩ := he _ rfl
    rw [requestCancel, if_pos hworking]
    exact ⟨rfl, hstate⟩
  | @finished entry outcome nowMs hworking =>
    intro entry' h'
    cases h'
    have hcancelled := (he _ rfl).1
    refine ⟨?_, state_recordEnd hcancelled⟩
    unfold recordEnd
    dsimp only
    split_ifs <;> exact hcancelled

theorem sound_init (limits : Limits) : Sound limits [] { limits := limits } := by
  refine ⟨rfl, ?_, Nat.zero_le _, Nat.zero_le _, List.nodup_nil, ?_⟩
  · intro id entry hget
    cases hget
  · intro id
    constructor
    · intro hmem
      cases hmem
    · rintro ⟨entry, hget, -⟩
      cases hget

/-- A cancel that reaches a working job sets its flag. -/
theorem cancel_asks {id : String} {nowMs : Int} {view : JobView} (h : (store.cancel id nowMs).1 = some view)
    (hworking : view.state = .working) :
    ∀ entry, (store.cancel id nowMs).2.jobs.get id = some entry →
      entry.cancelled = true ∧ entry.view.state ≠ .completed := by
  intro entry hentry
  have hview : entry.view = view := by
    rw [show (store.cancel id nowMs).1 = ((store.cancel id nowMs).2.jobs.get id).map Entry.view from rfl,
      hentry] at h
    exact Option.some.inj h
  have hget := get_update store id (requestCancel nowMs) id
  rw [if_pos rfl, show (store.update id (requestCancel nowMs)).jobs.get id = some entry from hentry] at hget
  obtain ⟨old, -, rfl⟩ := Option.map_eq_some_iff.mp hget.symm
  have hold : old.working = true := by
    rw [← working_requestCancel nowMs, Entry.working, hview, hworking]
    rfl
  rw [requestCancel, if_pos hold]
  refine ⟨rfl, ?_⟩
  intro hcompleted
  rw [Entry.working, show old.view.state = .completed from hcompleted] at hold
  cases hold

/-- **The life of a job.** In every state that sections in any order lead to: no more jobs work, and no
more are kept, than the limits say; the next section leaves a working job in the store; only the end of
its work takes it out of `working`, and that does; from then on its view stays as it is until it is
dropped, and a dropped job does not come back; and a job that answered a cancel while it worked never
completes. -/
theorem job_lifecycle {limits : Limits} (hlimits : limits.maxWorking < limits.maxRetained)
    {earlier later : List Event} (hids : ((earlier ++ later).filterMap Event.drawn).Nodup) :
    let store := Run.exec step { limits := limits } earlier
    let store' := Run.exec step { limits := limits } (earlier ++ later)
    store.workingCount ≤ limits.maxWorking ∧ store.jobs.size ≤ limits.maxRetained ∧
      (∀ id entry event rest, later = event :: rest → store.jobs.get id = some entry →
        entry.working = true → ∃ entry', (step store event).2.jobs.get id = some entry' ∧
          (entry'.working = true ∨ ∃ outcome nowMs, entry' = recordEnd outcome nowMs entry)) ∧
      (∀ id entry outcome nowMs, store.jobs.get id = some entry → entry.working = true →
        (step store (.finish id outcome nowMs)).2.jobs.get id = some (recordEnd outcome nowMs entry) ∧
          (recordEnd outcome nowMs entry).working = false) ∧
      (∀ id, id ∈ earlier.filterMap Event.drawn →
        (∀ entry, store.jobs.get id = some entry → entry.working = false) →
        store'.jobs.get id = none ∨ ∃ entry entry', store.jobs.get id = some entry ∧
          store'.jobs.get id = some entry' ∧ entry'.view = entry.view) ∧
      ∀ id nowMs view rest, later = .cancel id nowMs :: rest →
        (step store (.cancel id nowMs)).1 = .view (some view) → view.state = .working →
        view.cancelRequested = true →
        ∀ entry, store'.jobs.get id = some entry → entry.view.state ≠ .completed := by
  intro store store'
  rw [List.filterMap_append] at hids
  have hsound : Sound limits (earlier.filterMap Event.drawn) store :=
    run_sound hlimits (sound_init limits) (List.nodup_append.mp hids).1
  have hmoves : ∀ {id}, id ∈ earlier.filterMap Event.drawn →
      Relation.ReflTransGen JobMove (store.jobs.get id) (store'.jobs.get id) := by
    intro id hid
    rw [show store' = Run.exec step store later from Run.exec_append _ _ _]
    exact run_moves hlimits hsound hids hid
  refine ⟨hsound.working, hsound.retained, ?_, ?_, ?_, ?_⟩
  · rintro id entry event rest rfl hget hworking
    have hmove : JobMove (store.jobs.get id) ((step store event).2.jobs.get id) :=
      step_moves hsound fun hdrawn => fresh_of_nodup hids hdrawn (hsound.known id entry hget)
    rw [hget] at hmove
    generalize (step store event).2.jobs.get id = next at hmove
    cases hmove with
    | kept => exact ⟨entry, rfl, .inl hworking⟩
    | dropped hfinished =>
      rw [hworking] at hfinished
      cases hfinished
    | flagged => exact ⟨_, rfl, .inl hworking⟩
    | asked nowMs _ => exact ⟨_, rfl, .inl (by rw [working_requestCancel]; exact hworking)⟩
    | finished outcome nowMs _ => exact ⟨_, rfl, .inr ⟨outcome, nowMs, rfl⟩⟩
  · intro id entry outcome nowMs hget hworking
    have hmem : id ∈ store.running := (hsound.running id).mpr ⟨entry, hget, hworking⟩
    refine ⟨?_, working_recordEnd outcome nowMs entry⟩
    show (store.finish id outcome nowMs).jobs.get id = _
    rw [JobStore.finish, if_pos hmem]
    show (store.update id (recordEnd outcome nowMs)).jobs.get id = _
    rw [get_update, if_pos rfl, hget]
    rfl
  · intro id hid hfinished
    have hmoves := hmoves hid
    cases hget : store.jobs.get id with
    | none =>
      refine .inl ?_
      rw [hget] at hmoves
      refine moves_induct (P := fun e => e = none) ?_ hmoves rfl
      rintro e e' hmove rfl
      cases hmove
      rfl
    | some entry =>
      have hstate : entry.view.state ≠ .working := of_decide_eq_false (hfinished entry hget)
      rw [hget] at hmoves
      have hview := settled_of_moves hstate hmoves (by rintro _ ⟨⟩; rfl)
      cases hget' : store'.jobs.get id with
      | none => exact .inl rfl
      | some entry' => exact .inr ⟨entry, entry', rfl, rfl, hview entry' hget'⟩
  · rintro id nowMs view rest rfl hanswer hworking - entry hget
    have hanswer : (store.cancel id nowMs).1 = some view := Answer.view.inj hanswer
    have hasked := cancel_asks hanswer hworking
    have hcancelled : Sound limits (earlier.filterMap Event.drawn) (store.cancel id nowMs).2 := by
      have hstep : Sound limits (earlier.filterMap Event.drawn ++ [])
          (step store (.cancel id nowMs)).2 :=
        @step_sound store _ limits hlimits (.cancel id nowMs) hsound nofun
      rwa [List.append_nil] at hstep
    have hid : id ∈ earlier.filterMap Event.drawn := by
      obtain ⟨cancelled, hget, -⟩ := Option.map_eq_some_iff.mp hanswer
      exact hcancelled.known id cancelled hget
    have hrun : store' = Run.exec step (store.cancel id nowMs).2 rest := Run.exec_append _ _ _
    rw [hrun] at hget
    have hrest : (earlier.filterMap Event.drawn ++ rest.filterMap Event.drawn).Nodup := hids
    exact (stopped_of_moves (run_moves hlimits hcancelled hrest hid) hasked entry hget).2

/-- A job that is asked to stop, and whose work answers after that. -/
theorem job_lifecycle_cancelled :
    let limits : Limits := { maxWorking := 1, maxRetained := 2 }
    let earlier : List Event := [.start "a" ⟨"main", "project_export", "", ""⟩ 0]
    let later : List Event := [.cancel "a" 5, .finish "a" (.answered .null) 6]
    limits.maxWorking < limits.maxRetained ∧ ((earlier ++ later).filterMap Event.drawn).Nodup ∧
      (Run.exec step { limits := limits } earlier).workingCount ≤ 1 ∧
      ∃ entry, (Run.exec step { limits := limits } (earlier ++ later)).jobs.get "a" = some entry ∧
        entry.view.state ≠ .completed := by
  intro limits earlier later
  have hlife := job_lifecycle (show limits.maxWorking < limits.maxRetained by decide)
    (show ((earlier ++ later).filterMap Event.drawn).Nodup by decide)
  exact ⟨by decide, by decide, hlife.1, _, rfl,
    hlife.2.2.2.2.2 "a" 5 _ _ rfl rfl rfl rfl _ rfl⟩

end Didi.Jobs
