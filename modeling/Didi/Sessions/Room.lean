import Mathlib.Data.Finset.Card
import Didi.Sessions.Released

/-!
# How many routes a client holds

The room is looked at in one section and taken in another, and an automatic attach does not look at it.

* `World.booked` : the sessions that a route is held to or that a call was let through for;
* `World.KeepsRoom` : a call is let through only while there is room beside what is booked;
* `routes_bounded` : where every section of a run keeps room, the bound is met in every state;
* `routes_exceed` : nine routes, the last of them by an automatic attach.
-/

namespace Didi.Sessions

/-- The session that a call may still install a route to. -/
def Phase.booked : Phase → Option String
  | .admitted sessionId _ => some sessionId
  | .connecting attach _ => some attach.descriptor.sessionId
  | .opening _ _ => none
  | .released _ _ => none
  | .guessing => none
  | .guessed => none

namespace World
variable {w w' : World}

/-- The sessions that a route is held to or that a call was let through for. -/
def booked (w : World) : Finset String :=
  (w.client.routes.keys ++ w.calls.entries.filterMap fun e => e.2.booked).toFinset

/-- The session that a section lets a call through for. -/
def admits (w : World) : SessionCall → Option String
  | .checkRoom id =>
    match w.calls.get id with
    | some (.released sessionId _) => if w.client.hasRoom sessionId then some sessionId else none
    | _ => none
  | .attach id descriptor =>
    match w.calls.get id with
    | some .guessing => some descriptor.sessionId
    | _ => none
  | _ => none

/-- A call is let through for a session that is booked already, or while there is room beside what is booked. -/
def KeepsRoom (w : World) (call : SessionCall) : Prop :=
  ∀ sessionId, w.admits call = some sessionId → sessionId ∈ w.booked ∨ w.booked.card < kMaxHeldRoutes

theorem mem_booked {s : String} : s ∈ w.booked ↔
    w.client.routes.contains s = true ∨ ∃ id phase, w.calls.get id = some phase ∧ phase.booked = some s := by
  unfold booked
  rw [List.mem_toFinset, List.mem_append, OrderedMap.mem_keys, OrderedMap.contains_iff, List.mem_filterMap]
  apply or_congr_right
  constructor
  · rintro ⟨⟨id, phase⟩, hmem, hphase⟩
    exact ⟨id, phase, OrderedMap.get_eq_some.mpr hmem, hphase⟩
  · rintro ⟨id, phase, hget, hphase⟩
    exact ⟨⟨id, phase⟩, OrderedMap.get_eq_some.mp hget, hphase⟩

/-- There are no more routes than there are booked sessions. -/
theorem size_le_booked (w : World) : w.client.routes.size ≤ w.booked.card := by
  have hkeys : w.client.routes.keys.toFinset ⊆ w.booked := by
    intro s hs
    unfold booked
    rw [List.toFinset_append]
    exact Finset.mem_union_left _ hs
  have hnodup : w.client.routes.keys.Nodup :=
    List.pairwise_map.mpr (w.client.routes.sorted.imp fun hlt => hlt.ne)
  have hsize : w.client.routes.keys.toFinset.card = w.client.routes.size := by
    rw [List.toFinset_card_of_nodup hnodup]
    exact List.length_map _
  exact hsize.symm.trans_le (Finset.card_le_card hkeys)

/-- A call that is put into a phase books what the phase books. -/
theorem booked_put {id id' : Nat} {phase phase' : Phase} {s : String}
    (h : (w.put id phase).calls.get id' = some phase') (hphase' : phase'.booked = some s) :
    phase.booked = some s ∨ w.calls.get id' = some phase' := by
  rw [get_put] at h
  split_ifs at h
  · cases h
    exact .inl hphase'
  · exact .inr h

/-- A call that may still install a route was let through before the section, or the section lets it through. -/
theorem booked_step_call {call : SessionCall} {id : Nat} {phase : Phase} {s : String}
    (h : (w.step call).2.calls.get id = some phase) (hphase : phase.booked = some s) :
    (∃ id phase, w.calls.get id = some phase ∧ phase.booked = some s) ∨ w.admits call = some s := by
  have hsame : w.calls.get id = some phase →
      (∃ id phase, w.calls.get id = some phase ∧ phase.booked = some s) ∨ w.admits call = some s :=
    fun hget => .inl ⟨id, phase, hget, hphase⟩
  have hput : ∀ {w' : World} {id' : Nat} {phase' : Phase}, w'.calls = w.calls → phase'.booked = none →
      (w'.put id' phase').calls.get id = some phase → w.calls.get id = some phase := by
    intro w' id' phase' hcalls hnone hget
    rcases booked_put hget hphase with hbooked | hold
    · rw [hnone] at hbooked
      cases hbooked
    · rwa [← hcalls]
  have hafter : ∀ {w' : World} {id' : Nat} {automatic : Bool}, w'.calls = w.calls →
      (w'.afterAttach id' automatic).calls.get id = some phase → w.calls.get id = some phase := by
    intro w' id' automatic hcalls hget
    unfold afterAttach at hget
    split_ifs at hget
    · exact hput hcalls (by rfl) hget
    · rw [← hcalls]
      exact get_drop hget
  cases call with
  | disconnect => exact hsame h
  | detachSession => exact hsame h
  | closeSessionRoute sessionId => exact hsame h
  | quarantineRoute lease => exact hsame h
  | quarantineIfCurrent client => exact hsame h
  | releaseExitedRoutes engines => exact hsame h
  | openRoute id' sessionId makeSelected engines =>
    unfold step at h
    dsimp only at h
    split_ifs at h
    · exact hsame h
    · exact hsame (hput (by rfl) (by rfl) h)
    · exact hsame h
    · exact hsame (hput (by rfl) (by rfl) h)
  | releaseDeadRoutes id' engines =>
    unfold step at h
    dsimp only at h
    split at h
    · exact hsame (hput (by rfl) (by rfl) h)
    · exact hsame h
  | checkRoom id' =>
    unfold step at h
    dsimp only at h
    split at h
    · rename_i sessionId makeSelected hget
      split_ifs at h with hroom
      · rcases booked_put h hphase with hbooked | hold
        · have hadmits : w.admits (.checkRoom id') = if w.client.hasRoom sessionId then some sessionId else none := by
            unfold admits
            simp only [hget]
          rw [hadmits, if_pos hroom]
          exact .inr hbooked
        · exact .inl ⟨id, phase, hold, hphase⟩
      · exact .inl ⟨id, phase, get_drop h, hphase⟩
    · exact .inl ⟨id, phase, h, hphase⟩
  | tryAutoAttach id' =>
    unfold step at h
    dsimp only at h
    split_ifs at h
    · exact hsame h
    · exact hsame (hput (by rfl) (by rfl) h)
  | attach id' descriptor =>
    unfold step at h
    unfold admits
    dsimp only at h ⊢
    split at h
    · rename_i sessionId makeSelected hget
      split_ifs at h with hsession
      · rcases booked_put h hphase with hbooked | hold
        · -- the session that the call was let through for
          exact .inl ⟨id', _, hget, hsession ▸ hbooked⟩
        · exact .inl ⟨id, phase, hold, hphase⟩
      · exact .inl ⟨id, phase, h, hphase⟩
    · rename_i hget
      rw [hget]
      rcases booked_put h hphase with hbooked | hold
      · exact .inr hbooked
      · exact .inl ⟨id, phase, hold, hphase⟩
    · exact .inl ⟨id, phase, h, hphase⟩
  | commit id' candidate acquired engines =>
    simp only [step] at h
    split at h
    · exact hsame (hafter (by rfl) h)
    · exact hsame h
  | giveUp id' =>
    unfold step at h
    dsimp only at h
    split at h
    · exact hsame (hput (by rfl) (by rfl) h)
    · exact hsame (hafter (by rfl) h)
    · exact hsame (get_drop h)
    · exact hsame (get_drop h)

/-- A route is installed to the session of a call that is connecting. -/
theorem installed_booked {call : SessionCall} {route : Route} (h : (w.step call).1 = some route) :
    route.descriptor.sessionId ∈ w.booked := by
  cases call with
  | commit id candidate acquired engines =>
    simp only [step] at h
    split at h
    · rename_i attach automatic hget
      apply mem_booked.mpr
      refine .inr ⟨id, _, hget, ?_⟩
      unfold SessionClient.commitAttach at h
      dsimp only at h
      split_ifs at h
      cases h
      rfl
    · cases h
  | _ => cases h

/-- What is booked after a section: what was booked, and the session that the section lets a call through for. -/
theorem booked_step {call : SessionCall} {s : String} (h : s ∈ (w.step call).2.booked) :
    s ∈ w.booked ∨ w.admits call = some s := by
  rcases mem_booked.mp h with hheld | ⟨id, phase, hget, hphase⟩
  · obtain ⟨route, hroute⟩ := OrderedMap.contains_iff.mp hheld
    refine .inl ?_
    rcases (step_moves w call).routes s route hroute with hold | ⟨hinstalled, rfl⟩
    · exact mem_booked.mpr (.inl (OrderedMap.contains_iff.mpr ⟨route, hold⟩))
    · exact installed_booked hinstalled
  · rcases booked_step_call hget hphase with hold | hadmits
    · exact .inl (mem_booked.mpr (.inr hold))
    · exact .inr hadmits

/-- A section that keeps room books no more than there is room for. -/
theorem booked_card_step (w : World) (call : SessionCall) (hroom : w.KeepsRoom call)
    (h : w.booked.card ≤ kMaxHeldRoutes) : (w.step call).2.booked.card ≤ kMaxHeldRoutes := by
  cases hadmits : w.admits call with
  | none =>
    have hsubset : (w.step call).2.booked ⊆ w.booked := by
      intro s hs
      rcases booked_step hs with hold | hnew
      · exact hold
      · rw [hadmits] at hnew
        cases hnew
    exact (Finset.card_le_card hsubset).trans h
  | some sessionId =>
    have hsubset : (w.step call).2.booked ⊆ insert sessionId w.booked := by
      intro s hs
      rcases booked_step hs with hold | hnew
      · exact Finset.mem_insert_of_mem hold
      · rw [hadmits] at hnew
        cases hnew
        exact Finset.mem_insert_self _ _
    have hle := Finset.card_le_card hsubset
    rcases hroom sessionId hadmits with hmem | hlt
    · rw [Finset.insert_eq_of_mem hmem] at hle
      exact hle.trans h
    · have hinsert := Finset.card_insert_le sessionId w.booked
      omega

/-- **The bound, where every section keeps room.** -/
theorem routes_bounded {calls : List SessionCall} (h : Run.Along step KeepsRoom {} calls) {earlier : List SessionCall}
    (hearlier : earlier <+: calls) : (Run.exec step {} earlier).client.routes.size ≤ kMaxHeldRoutes := by
  obtain ⟨later, rfl⟩ := hearlier
  have halong : Run.Along step KeepsRoom {} earlier := (Run.along_append.mp h).1
  have hbooked : (Run.exec step {} earlier).booked.card ≤ kMaxHeldRoutes :=
    Run.exec_of_along booked_card_step halong (Nat.zero_le _)
  exact (size_le_booked _).trans hbooked

/-- The sections of a call that opens a route, from its beginning to its end. -/
def opens (id : Nat) (sessionId : String) (engines : Engines) : List SessionCall :=
  [.openRoute id sessionId false engines, .releaseDeadRoutes id engines, .checkRoom id, .attach id { sessionId },
    .commit id id id engines]

/-- One route, opened while another is held. -/
theorem routes_bounded_second :
    let engines : Engines := { isConnected := fun _ => true, provenStale := fun _ => false }
    (Run.exec step {} (opens 0 "a" engines ++ opens 1 "b" engines)).client.routes.size ≤ kMaxHeldRoutes := by
  intro engines
  refine @routes_bounded (opens 0 "a" engines ++ opens 1 "b" engines) ?_ _ List.prefix_rfl
  refine ⟨?_, ?_, ?_, ?_, ?_, ?_, ?_, ?_, ?_, ?_, trivial⟩
  all_goals
    intro sessionId hadmits
    exact .inr (by decide)

/-- Eight routes are opened one after another, and then a ninth session is attached to without being asked. -/
theorem routes_exceed :
    let engines : Engines := { isConnected := fun _ => true, provenStale := fun _ => false }
    let sessions := ["a", "b", "c", "d", "e", "f", "g", "h"]
    kMaxHeldRoutes < (Run.exec step {}
      (sessions.zipIdx.flatMap (fun e => opens e.2 e.1 engines) ++
        [.tryAutoAttach 8, .attach 8 { sessionId := "i" }, .commit 8 8 8 engines])).client.routes.size := by
  decide +kernel

end World

end Didi.Sessions
