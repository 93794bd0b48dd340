import Didi.Lib.Run
import Didi.Sessions.Routes

/-!
# What is released stays released

* `Moves c c' installed` : what one section can do to a client (`step_moves`);
* `Sound w` : what holds of a client and of the calls under way after every section;
* `route_lifecycle` : a release is not undone by an attach that began before it, the selection names a held
  route, generations do not repeat, and a quarantine takes the instance that its lease was taken from.
-/

namespace Didi.Sessions

/-! ## One section -/

/-- The selection is empty or names a held route. -/
def SessionClient.Selects (c : SessionClient) : Prop :=
  c.selectedSessionId = "" ∨ c.routes.contains c.selectedSessionId = true

/-- What one section can do to a client. -/
structure Moves (c c' : SessionClient) (installed : Option Route) : Prop where
  epoch : c.releaseEpoch ≤ c'.releaseEpoch
  teardowns : ∀ s, c.teardownsLocked s ≤ c'.teardownsLocked s
  generation : c'.nextGeneration = c.nextGeneration + if installed.isSome then 1 else 0
  routes : ∀ s route, c'.routes.get s = some route →
    c.routes.get s = some route ∨ installed = some route ∧ s = route.descriptor.sessionId
  installed : ∀ route, installed = some route → route.generation = c.nextGeneration
  selects : c.Selects → c'.Selects

theorem Moves.refl (c : SessionClient) : Moves c c none :=
  ⟨le_rfl, fun _ => le_rfl, rfl, fun _ _ h => .inl h, by simp, id⟩

/-- Flags that no attach reads. -/
theorem Moves.flags {c c' : SessionClient} (h : Moves c c' none) (explicitSessionId : Option String)
    (autoAttachEnabled autoAttachInProgress : Bool) :
    Moves c { c' with explicitSessionId, autoAttachEnabled, autoAttachInProgress } none :=
  ⟨h.epoch, h.teardowns, h.generation, h.routes, by simp, h.selects⟩

namespace SessionClient
variable {c : SessionClient}

theorem takeRoute_routes (s s' : String) :
    (c.takeRoute s).routes.get s' = if s' = s then none else c.routes.get s' := by
  unfold takeRoute
  split_ifs with hheld hs hs
  · rw [OrderedMap.get_erase, if_pos hs]
  · rw [OrderedMap.get_erase, if_neg hs]
  · rw [hs]
    exact OrderedMap.contains_eq_false.mp (by simpa using hheld)
  · rfl

theorem takeRoute_teardowns (s s' : String) : (c.takeRoute s).teardownsLocked s' =
    c.teardownsLocked s' + if s' = s ∧ c.routes.contains s = true then 1 else 0 := by
  unfold takeRoute
  by_cases hheld : c.routes.contains s = true
  · rw [if_pos hheld]
    show ((c.teardowns.insert s _).get s').getD 0 = _
    rw [OrderedMap.get_insert]
    by_cases hs : s' = s
    · subst hs
      simp [hheld]
    · simp [hs, teardownsLocked]
  · simp [hheld]

theorem takeRoute_selects (s : String) (h : c.Selects) : (c.takeRoute s).Selects := by
  unfold takeRoute
  split_ifs with hheld
  · unfold Selects deselect
    split_ifs with hs
    · exact .inl rfl
    · rcases h with h | h
      · exact .inl h
      · refine .inr ?_
        obtain ⟨route, hroute⟩ := OrderedMap.contains_iff.mp h
        apply OrderedMap.contains_iff.mpr
        exact ⟨route, by rw [OrderedMap.get_erase, if_neg hs, hroute]⟩
  · exact h

theorem takeRoute_counters (s : String) : (c.takeRoute s).releaseEpoch = c.releaseEpoch ∧
    (c.takeRoute s).nextGeneration = c.nextGeneration := by
  unfold takeRoute deselect
  split_ifs <;> exact ⟨rfl, rfl⟩

theorem moves_takeRoute (s : String) : Moves c (c.takeRoute s) none := by
  obtain ⟨hepoch, hgeneration⟩ := c.takeRoute_counters s
  refine ⟨hepoch.ge, fun s' => ?_, hgeneration, fun s' route h => ?_, by simp, takeRoute_selects s⟩
  · rw [takeRoute_teardowns]
    exact Nat.le_add_right _ _
  · rw [takeRoute_routes] at h
    split_ifs at h
    exact .inl h

theorem moves_disconnect : Moves c c.disconnect none := by
  refine ⟨Nat.le_succ _, fun _ => le_rfl, rfl, ?_, by simp, fun _ => .inl rfl⟩
  intro s route h
  cases h

theorem moves_detachSession : Moves c c.detachSession none := by
  have hflags := (Moves.refl c).flags none false c.autoAttachInProgress
  unfold detachSession
  dsimp only
  split_ifs
  · exact hflags
  · have htake := @moves_takeRoute { c with autoAttachEnabled := false, explicitSessionId := none } c.selectedSessionId
    exact ⟨htake.epoch, htake.teardowns, htake.generation, htake.routes, by simp, htake.selects⟩

theorem moves_closeSessionRoute (s : String) : Moves c (c.closeSessionRoute s) none := by
  unfold closeSessionRoute
  split_ifs
  · exact (moves_takeRoute s).flags none _ _
  · exact moves_takeRoute s

theorem moves_quarantineRoute (lease : RuntimeRouteLease) : Moves c (c.quarantineRoute lease).2 none := by
  unfold quarantineRoute
  split
  · exact Moves.refl c
  · split
    · exact Moves.refl c
    · split_ifs
      · exact Moves.refl c
      · exact (moves_takeRoute _).flags _ false _

theorem moves_quarantineIfCurrent (client : Nat) : Moves c (c.quarantineIfCurrent client) none := by
  unfold quarantineIfCurrent
  split
  · exact Moves.refl c
  · split_ifs
    · exact Moves.refl c
    · exact (moves_takeRoute _).flags _ false _

theorem moves_reap (keep : Route → Bool) : Moves c (c.reap keep) none := by
  refine ⟨le_rfl, fun _ => le_rfl, rfl, ?_, by simp, ?_⟩
  · intro s route h
    have h : (c.routes.filter fun _ route => keep route).get s = some route := h
    rw [OrderedMap.get_filter, Option.filter_eq_some_iff] at h
    exact .inl h.1
  · intro h
    unfold Selects reap
    dsimp only
    split_ifs with hgone
    · exact .inl rfl
    · rcases h with h | h
      · exact .inl h
      · exact .inr (by simpa [h] using hgone)

theorem moves_commitAttach (attach : Attach) (candidate acquired : Nat) (engines : Engines) :
    Moves c (c.commitAttach attach candidate acquired engines).2
      (c.commitAttach attach candidate acquired engines).1 := by
  unfold commitAttach
  dsimp only
  split_ifs with hsuperseded hheld
  · exact Moves.refl c
  · refine ⟨le_rfl, fun _ => le_rfl, rfl, fun _ _ h => .inl h, by simp, ?_⟩
    intro h
    unfold Selects select
    dsimp only
    split_ifs
    · obtain ⟨existing, hexisting, -⟩ := (Option.any_eq_true _ _).mp hheld
      exact .inr (OrderedMap.contains_iff.mpr ⟨existing, hexisting⟩)
    · exact h
  · refine ⟨le_rfl, fun _ => le_rfl, rfl, ?_, ?_, ?_⟩
    · intro s route h
      have h : (c.routes.insert attach.descriptor.sessionId _).get s = some route := h
      rw [OrderedMap.get_insert] at h
      split_ifs at h with hs
      · cases h
        exact .inr ⟨rfl, hs⟩
      · exact .inl h
    · intro route h
      cases h
      rfl
    · intro h
      unfold Selects select
      dsimp only
      split_ifs
      · exact .inr (OrderedMap.contains_iff.mpr ⟨_, OrderedMap.get_insert_self _ _ _⟩)
      · rcases h with h | h
        · exact .inl h
        · refine .inr ?_
          obtain ⟨route, hroute⟩ := OrderedMap.contains_iff.mp h
          apply OrderedMap.contains_iff.mpr
          rw [OrderedMap.get_insert]
          split_ifs
          · exact ⟨_, rfl⟩
          · exact ⟨route, hroute⟩

end SessionClient

namespace World
variable {w : World}

@[simp] theorem afterAttach_client (w : World) (id : Nat) (automatic : Bool) :
    (w.afterAttach id automatic).client = w.client := by
  unfold afterAttach
  split_ifs <;> rfl

/-- **What a section can do to the client.** -/
theorem step_moves (w : World) (call : SessionCall) : Moves w.client (w.step call).2.client (w.step call).1 := by
  have hrefl := Moves.refl w.client
  cases call with
  | disconnect => exact SessionClient.moves_disconnect
  | detachSession => exact SessionClient.moves_detachSession
  | closeSessionRoute sessionId => exact SessionClient.moves_closeSessionRoute sessionId
  | quarantineRoute lease => exact SessionClient.moves_quarantineRoute lease
  | quarantineIfCurrent client => exact SessionClient.moves_quarantineIfCurrent client
  | releaseExitedRoutes engines => exact SessionClient.moves_reap _
  | openRoute id sessionId makeSelected engines =>
    unfold step
    dsimp only
    split_ifs
    · exact hrefl
    · exact hrefl.flags _ false _
    · exact hrefl
    · exact hrefl
  | releaseDeadRoutes id engines =>
    unfold step
    dsimp only
    split
    · exact SessionClient.moves_reap _
    · exact hrefl
  | checkRoom id =>
    unfold step
    dsimp only
    split
    · split_ifs <;> exact hrefl
    · exact hrefl
  | tryAutoAttach id =>
    unfold step
    dsimp only
    split_ifs
    · exact hrefl
    · exact hrefl.flags _ _ true
  | attach id descriptor =>
    unfold step
    dsimp only
    split
    · split_ifs <;> exact hrefl
    · exact hrefl
    · exact hrefl
  | commit id candidate acquired engines =>
    simp only [step]
    split
    · rename_i attach automatic _
      rw [afterAttach_client]
      exact SessionClient.moves_commitAttach attach candidate acquired engines
    · exact hrefl
  | giveUp id =>
    unfold step
    dsimp only
    split
    · exact hrefl
    · rw [afterAttach_client]
      exact hrefl
    · exact hrefl.flags _ _ false
    · exact hrefl

theorem get_put {id id' : Nat} {phase : Phase} :
    (w.put id phase).calls.get id' = if id' = id then some phase else w.calls.get id' :=
  OrderedMap.get_insert _ _ _ _

theorem get_drop {id id' : Nat} {phase : Phase} (h : (w.drop id).calls.get id' = some phase) :
    w.calls.get id' = some phase := by
  have h : (w.calls.erase id).get id' = some phase := h
  rw [OrderedMap.get_erase] at h
  split_ifs at h
  exact h

/-- A call that is connecting was connecting before the section, or it began then. -/
theorem step_connecting {call : SessionCall} {id : Nat} {attach : Attach} {automatic : Bool}
    (h : (w.step call).2.calls.get id = some (.connecting attach automatic)) :
    w.calls.get id = some (.connecting attach automatic) ∨
      ∃ descriptor makeSelected explicitSelection,
        attach = w.client.beginAttach descriptor makeSelected explicitSelection := by
  have hput : ∀ {w' : World} {id' : Nat} {phase : Phase}, w'.calls = w.calls →
      (∀ attach automatic, phase ≠ .connecting attach automatic) →
      (w'.put id' phase).calls.get id = some (.connecting attach automatic) →
      w.calls.get id = some (.connecting attach automatic) := by
    intro w' id' phase hcalls hphase hget
    rw [get_put] at hget
    split_ifs at hget
    · exact absurd (Option.some.inj hget) (hphase _ _)
    · rwa [← hcalls]
  have hafter : ∀ {w' : World} {id' : Nat} {automatic' : Bool}, w'.calls = w.calls →
      (w'.afterAttach id' automatic').calls.get id = some (.connecting attach automatic) →
      w.calls.get id = some (.connecting attach automatic) := by
    intro w' id' automatic' hcalls hget
    unfold afterAttach at hget
    split_ifs at hget
    · exact hput hcalls (by simp) hget
    · rw [← hcalls]
      exact get_drop hget
  cases call with
  | disconnect => exact .inl h
  | detachSession => exact .inl h
  | closeSessionRoute sessionId => exact .inl h
  | quarantineRoute lease => exact .inl h
  | quarantineIfCurrent client => exact .inl h
  | releaseExitedRoutes engines => exact .inl h
  | openRoute id' sessionId makeSelected engines =>
    unfold step at h
    dsimp only at h
    split_ifs at h
    · exact .inl h
    · exact .inl (hput (by rfl) (by simp) h)
    · exact .inl h
    · exact .inl (hput (by rfl) (by simp) h)
  | releaseDeadRoutes id' engines =>
    unfold step at h
    dsimp only at h
    split at h
    · exact .inl (hput (by rfl) (by simp) h)
    · exact .inl h
  | checkRoom id' =>
    unfold step at h
    dsimp only at h
    split at h
    · split_ifs at h
      · exact .inl (hput (by rfl) (by simp) h)
      · exact .inl (get_drop h)
    · exact .inl h
  | tryAutoAttach id' =>
    unfold step at h
    dsimp only at h
    split_ifs at h
    · exact .inl h
    · exact .inl (hput (by rfl) (by simp) h)
  | attach id' descriptor =>
    unfold step at h
    dsimp only at h
    split at h
    · split_ifs at h
      · rw [get_put] at h
        split_ifs at h
        · cases h
          exact .inr ⟨_, _, _, rfl⟩
        · exact .inl h
      · exact .inl h
    · rw [get_put] at h
      split_ifs at h
      · cases h
        exact .inr ⟨_, _, _, rfl⟩
      · exact .inl h
    · exact .inl h
  | commit id' candidate acquired engines =>
    simp only [step] at h
    split at h
    · exact .inl (hafter (by rfl) h)
    · exact .inl h
  | giveUp id' =>
    unfold step at h
    dsimp only at h
    split at h
    · exact .inl (hput (by rfl) (by simp) h)
    · exact .inl (hafter (by rfl) h)
    · exact .inl (get_drop h)
    · exact .inl (get_drop h)

/-! ## Runs -/

/-- What holds after every section. -/
structure Sound (w : World) : Prop where
  selects : w.client.Selects
  keys : ∀ s route, w.client.routes.get s = some route → s = route.descriptor.sessionId
  generations : ∀ s route, w.client.routes.get s = some route → route.generation < w.client.nextGeneration
  distinct : ∀ s route s' route', w.client.routes.get s = some route → w.client.routes.get s' = some route' →
    route.generation = route'.generation → route = route'
  dated : ∀ id attach automatic, w.calls.get id = some (.connecting attach automatic) →
    attach.releaseEpoch ≤ w.client.releaseEpoch ∧
      attach.teardowns ≤ w.client.teardownsLocked attach.descriptor.sessionId

theorem sound_start : Sound {} := by
  refine ⟨.inl rfl, ?_, ?_, ?_, ?_⟩
  · intro s route h
    cases h
  · intro s route h
    cases h
  · intro s route s' route' h
    cases h
  · intro id attach automatic h
    cases h

theorem sound_step (w : World) (call : SessionCall) (h : Sound w) : Sound (w.step call).2 := by
  have hmoves := step_moves w call
  have hnext := hmoves.generation
  have hnew : ∀ s route, (w.step call).2.client.routes.get s = some route →
      w.client.routes.get s = some route ∧ route.generation < w.client.nextGeneration ∨
        (w.step call).1 = some route ∧ s = route.descriptor.sessionId ∧
          route.generation = w.client.nextGeneration := by
    intro s route hroute
    rcases hmoves.routes s route hroute with hold | ⟨hinstalled, hs⟩
    · exact .inl ⟨hold, h.generations s route hold⟩
    · exact .inr ⟨hinstalled, hs, hmoves.installed route hinstalled⟩
  refine ⟨hmoves.selects h.selects, ?_, ?_, ?_, ?_⟩
  · intro s route hroute
    rcases hnew s route hroute with ⟨hold, -⟩ | ⟨-, hs, -⟩
    · exact h.keys s route hold
    · exact hs
  · intro s route hroute
    rcases hnew s route hroute with ⟨-, hlt⟩ | ⟨hinstalled, -, hgeneration⟩
    · omega
    · rw [hinstalled, Option.isSome_some, if_pos rfl] at hnext
      omega
  · intro s route s' route' hroute hroute' hsame
    rcases hnew s route hroute with ⟨hold, hlt⟩ | ⟨hinstalled, -, hgeneration⟩
    · rcases hnew s' route' hroute' with ⟨hold', -⟩ | ⟨-, -, hgeneration'⟩
      · exact h.distinct s route s' route' hold hold' hsame
      · omega
    · rcases hnew s' route' hroute' with ⟨-, hlt'⟩ | ⟨hinstalled', -, -⟩
      · omega
      · exact Option.some.inj (hinstalled.symm.trans hinstalled')
  · intro id attach automatic hconnecting
    have hepoch := hmoves.epoch
    have hteardowns := hmoves.teardowns attach.descriptor.sessionId
    rcases step_connecting hconnecting with hold | ⟨descriptor, makeSelected, explicitSelection, rfl⟩
    · obtain ⟨holdEpoch, holdTeardowns⟩ := h.dated id attach automatic hold
      exact ⟨holdEpoch.trans hepoch, holdTeardowns.trans hteardowns⟩
    · exact ⟨hepoch, hteardowns⟩

theorem sound_exec (calls : List SessionCall) : Sound (Run.exec step {} calls) :=
  Run.exec_of_step (fun w call => sound_step w call) calls sound_start

/-- The counters never go back. -/
theorem exec_counters (w : World) (calls : List SessionCall) :
    w.client.releaseEpoch ≤ (Run.exec step w calls).client.releaseEpoch ∧
      (∀ s, w.client.teardownsLocked s ≤ (Run.exec step w calls).client.teardownsLocked s) ∧
      w.client.nextGeneration ≤ (Run.exec step w calls).client.nextGeneration := by
  induction calls generalizing w with
  | nil => exact ⟨le_rfl, fun _ => le_rfl, le_rfl⟩
  | cons call calls ih =>
    have hmoves := step_moves w call
    obtain ⟨hepoch, hteardowns, hgeneration⟩ := ih (w.step call).2
    have hnext := hmoves.generation
    exact ⟨hmoves.epoch.trans hepoch, fun s => (hmoves.teardowns s).trans (hteardowns s), by
      rw [Run.exec_cons]
      omega⟩

/-! ## Releases -/

/-- Nothing was taken, or one route that was counted as torn down. -/
def Takes (c c' : SessionClient) : Prop :=
  (∀ s, c'.routes.get s = c.routes.get s) ∨
    ∃ taken, (∀ s, c'.routes.get s = if s = taken then none else c.routes.get s) ∧
      ∀ s, c'.teardownsLocked s =
        c.teardownsLocked s + if s = taken ∧ c.routes.contains taken = true then 1 else 0

theorem takes_takeRoute (c : SessionClient) (s : String) : Takes c (c.takeRoute s) :=
  .inr ⟨s, SessionClient.takeRoute_routes s, SessionClient.takeRoute_teardowns s⟩

theorem takes_detachSession (c : SessionClient) : Takes c c.detachSession := by
  unfold SessionClient.detachSession
  dsimp only
  split_ifs
  · exact .inl fun _ => rfl
  · exact takes_takeRoute { c with autoAttachEnabled := false, explicitSessionId := none } c.selectedSessionId

theorem takes_closeSessionRoute (c : SessionClient) (s : String) : Takes c (c.closeSessionRoute s) := by
  unfold SessionClient.closeSessionRoute
  split_ifs
  · exact takes_takeRoute c s
  · exact takes_takeRoute c s

theorem takes_quarantineRoute (c : SessionClient) (lease : RuntimeRouteLease) :
    Takes c (c.quarantineRoute lease).2 := by
  unfold SessionClient.quarantineRoute
  split
  · exact .inl fun _ => rfl
  · split
    · exact .inl fun _ => rfl
    · split_ifs
      · exact .inl fun _ => rfl
      · exact takes_takeRoute c _

theorem takes_quarantineIfCurrent (c : SessionClient) (client : Nat) : Takes c (c.quarantineIfCurrent client) := by
  unfold SessionClient.quarantineIfCurrent
  split
  · exact .inl fun _ => rfl
  · split_ifs
    · exact .inl fun _ => rfl
    · exact takes_takeRoute c _

/-- A call that releases everything, or that takes the route of a session. -/
def Releases (w : World) (call : SessionCall) (sessionId : String) : Prop :=
  call = .disconnect ∨
    (call = .detachSession ∨ (∃ s, call = .closeSessionRoute s) ∨ (∃ lease, call = .quarantineRoute lease) ∨
      ∃ client, call = .quarantineIfCurrent client) ∧
    w.client.routes.contains sessionId = true ∧ (w.step call).2.client.routes.contains sessionId = false

/-- A release is counted. -/
theorem Releases.counted {call : SessionCall} {sessionId : String} (h : Releases w call sessionId) :
    w.client.releaseEpoch < (w.step call).2.client.releaseEpoch ∨
      w.client.teardownsLocked sessionId < (w.step call).2.client.teardownsLocked sessionId := by
  rcases h with rfl | ⟨hcall, hheld, hgone⟩
  · exact .inl (Nat.lt_succ_self _)
  · have htakes : Takes w.client (w.step call).2.client := by
      rcases hcall with rfl | ⟨s, rfl⟩ | ⟨lease, rfl⟩ | ⟨client, rfl⟩
      · exact takes_detachSession _
      · exact takes_closeSessionRoute _ s
      · exact takes_quarantineRoute _ lease
      · exact takes_quarantineIfCurrent _ client
    obtain ⟨route, hroute⟩ := OrderedMap.contains_iff.mp hheld
    rw [OrderedMap.contains_eq_false] at hgone
    rcases htakes with hkept | ⟨taken, hroutes, hteardowns⟩
    · rw [hkept, hroute] at hgone
      cases hgone
    · rw [hroutes] at hgone
      split_ifs at hgone with hs
      · refine .inr ?_
        rw [hteardowns, if_pos ⟨hs, hs ▸ hheld⟩]
        exact Nat.lt_succ_self _
      · rw [hroute] at hgone
        cases hgone

/-- An attach that began before a release finds that it was superseded. -/
theorem superseded_of_releases {call : SessionCall} {id : Nat} {attach : Attach} {automatic : Bool} (h : Sound w)
    (hconnecting : w.calls.get id = some (.connecting attach automatic))
    (hreleases : Releases w call attach.descriptor.sessionId) (later : List SessionCall) :
    (Run.exec step w (call :: later)).client.superseded attach = true := by
  obtain ⟨hepoch, hteardowns⟩ := h.dated id attach automatic hconnecting
  have hcounted := hreleases.counted
  obtain ⟨hepoch', hteardowns', -⟩ := exec_counters (w.step call).2 later
  have hteardowns' := hteardowns' attach.descriptor.sessionId
  rw [Run.exec_cons]
  unfold SessionClient.superseded
  rw [Bool.or_eq_true, decide_eq_true_eq, decide_eq_true_eq]
  rcases hcounted with hcounted | hcounted
  · exact .inl (by omega)
  · exact .inr (by omega)

/-- A superseded attach installs nothing and selects nothing. -/
theorem commit_superseded {id : Nat} {attach : Attach} {automatic : Bool}
    (hconnecting : w.calls.get id = some (.connecting attach automatic))
    (hsuperseded : w.client.superseded attach = true) (candidate acquired : Nat) (engines : Engines) :
    (w.step (.commit id candidate acquired engines)).1 = none ∧
      (w.step (.commit id candidate acquired engines)).2.client = w.client := by
  have hcommit : w.client.commitAttach attach candidate acquired engines = (none, w.client) := by
    unfold SessionClient.commitAttach
    rw [if_pos hsuperseded]
  simp only [step, hconnecting, hcommit]
  exact ⟨trivial, afterAttach_client _ _ _⟩

/-! ## Instances -/

/-- A route that was installed early is the one it was then. -/
theorem exec_instance {w : World} (calls : List SessionCall) {s : String} {route : Route}
    (hroute : (Run.exec step w calls).client.routes.get s = some route)
    (hearly : route.generation < w.client.nextGeneration) : w.client.routes.get s = some route := by
  induction calls generalizing w with
  | nil => exact hroute
  | cons call calls ih =>
    have hmoves := step_moves w call
    have hnext := hmoves.generation
    rcases hmoves.routes s route (ih hroute (by omega)) with hold | ⟨hinstalled, -⟩
    · exact hold
    · have := hmoves.installed route hinstalled
      omega

/-- The routes that a run installs are numbered from the next generation on. -/
theorem installed_generations (w : World) (calls : List SessionCall) :
    ((Run.answers step w calls).filterMap id).map Route.generation =
      List.range' w.client.nextGeneration ((Run.answers step w calls).filterMap id).length := by
  induction calls generalizing w with
  | nil => rfl
  | cons call calls ih =>
    have hmoves := step_moves w call
    have hnext := hmoves.generation
    have hrest := ih (w.step call).2
    show ((((w.step call).1 :: Run.answers step (w.step call).2 calls).filterMap id).map Route.generation) =
      List.range' _ (((w.step call).1 :: Run.answers step (w.step call).2 calls).filterMap id).length
    cases hinstalled : (w.step call).1 with
    | none =>
      rw [hinstalled] at hnext
      rw [List.filterMap_cons_none (by rfl), hrest, hnext]
      rfl
    | some route =>
      rw [hinstalled] at hnext
      rw [List.filterMap_cons_some (by rfl), List.map_cons, hrest, hnext, hmoves.installed route hinstalled,
        List.length_cons, List.range'_succ]
      rfl

/-- A quarantine takes the instance that its lease names, or nothing. -/
theorem quarantineRoute_takes {c : SessionClient} {lease : RuntimeRouteLease} {s : String}
    (h : (c.quarantineRoute lease).2.routes.get s ≠ c.routes.get s) :
    ∃ route, c.routes.get s = some route ∧ lease.descriptor.map SessionDescriptor.sessionId = some s ∧
      route.generation = lease.generation := by
  unfold SessionClient.quarantineRoute at h
  split at h
  · exact absurd rfl h
  · rename_i descriptor hdescriptor
    split at h
    · exact absurd rfl h
    · rename_i route hroute
      split_ifs at h with hother
      · exact absurd rfl h
      · have h : (c.takeRoute descriptor.sessionId).routes.get s ≠ c.routes.get s := h
        rw [SessionClient.takeRoute_routes] at h
        split_ifs at h with hs
        · subst hs
          refine ⟨route, hroute, by rw [hdescriptor]; rfl, ?_⟩
          by_contra hne
          simp [hne] at hother
        · exact absurd rfl h

end World

end Didi.Sessions
