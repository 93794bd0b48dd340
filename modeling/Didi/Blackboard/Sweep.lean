import Didi.Blackboard.Board
import Didi.Json.Erasures

/-!
# What a sweep does

* `lapsedEntries` : the metadata that has lapsed, in the order of the paths;
* `sweepExpired_eq` : a sweep in closed form: the members that the lapsed paths name are erased from
  the tree one by one, the lapsed metadata goes, its tombstones come, and the rest stays;
* `SweepFrame`, `state_of_sweep` : what a sweep leaves alone.
-/

namespace Didi.Blackboard
variable {dropped : Bool} {state state' : JsonObject} {nowMs : Int} {board swept : Board}

/-- The metadata that has lapsed, in the order of the paths. -/
def lapsedEntries (board : Board) (nowMs : Int) : List (String × Meta) :=
  (board.meta.filter fun _ entry => entry.lapsed nowMs).entries

/-- The tree without the members that the paths name. -/
def dropPaths (state : JsonObject) (paths : List String) : Except JsonException JsonObject :=
  paths.foldlM dropFromTree state

/-- The tombstones of what lapsed, with those of the lapsed entries. -/
def recordExpired (nowMs : Int) (expired : OrderedMap String Tombstone) (lapsed : List (String × Meta)) :
    OrderedMap String Tombstone :=
  lapsed.foldl (fun expired e => expired.insert e.1 (expiredRecord nowMs e.2)) expired

/-- The tombstones after a sweep: untouched when nothing lapsed. -/
def sweptExpired (board : Board) (nowMs : Int) : OrderedMap String Tombstone :=
  if (lapsedEntries board nowMs).isEmpty then board.expired
  else trimTombstones (recordExpired nowMs board.expired (lapsedEntries board nowMs))
    kBlackboardMaxExpiredRecords

theorem mem_lapsedEntries {board : Board} {e : String × Meta} :
    e ∈ lapsedEntries board nowMs ↔ board.meta.get e.1 = some e.2 ∧ e.2.lapsed nowMs = true := by
  rw [OrderedMap.get_eq_some]
  exact List.mem_filter

theorem foldlM_dropExpired (nowMs : Int) (board : Board) (lapsed : List (String × Meta)) :
    lapsed.foldlM (dropExpired nowMs) board =
      (dropPaths board.state (lapsed.map Prod.fst)).map fun state => { board with
        state := state
        «meta» := lapsed.foldl (fun m e => m.erase e.1) board.meta
        expired := recordExpired nowMs board.expired lapsed } := by
  unfold dropPaths recordExpired
  induction lapsed generalizing board with
  | nil => rfl
  | cons e l ih =>
    rw [List.foldlM_cons, List.map_cons, List.foldlM_cons]
    unfold dropExpired
    cases dropFromTree board.state e.1 with
    | error exc => rfl
    | ok state => exact ih _

theorem get_foldl_erase {α : Type} (l : List (String × α)) (m : OrderedMap String α) (k : String) :
    (l.foldl (fun m e => m.erase e.1) m).get k = if k ∈ l.map Prod.fst then none else m.get k := by
  induction l generalizing m with
  | nil => simp
  | cons e l ih =>
    rw [List.foldl_cons, ih, OrderedMap.get_erase]
    by_cases hk : k = e.1 <;> by_cases hl : k ∈ l.map Prod.fst <;> simp [hk, hl]

/-- Erasing the lapsed entries one by one leaves the entries that have not lapsed. -/
theorem erase_lapsedEntries (board : Board) (nowMs : Int) :
    (lapsedEntries board nowMs).foldl (fun m e => m.erase e.1) board.meta =
      board.meta.filter fun _ entry => !entry.lapsed nowMs := by
  refine OrderedMap.ext_get fun k => ?_
  rw [get_foldl_erase, OrderedMap.get_filter]
  have hmem : k ∈ (lapsedEntries board nowMs).map Prod.fst ↔
      ∃ entry, board.meta.get k = some entry ∧ entry.lapsed nowMs = true := by
    simp only [List.mem_map, mem_lapsedEntries]
    constructor
    · rintro ⟨e, he, rfl⟩
      exact ⟨e.2, he⟩
    · rintro ⟨entry, he⟩
      exact ⟨(k, entry), he, rfl⟩
  cases hk : board.meta.get k with
  | none => simp
  | some entry =>
    rw [Option.filter_some]
    cases hl : entry.lapsed nowMs with
    | true => simp [hmem.mpr ⟨entry, hk, hl⟩]
    | false =>
      have hnot : k ∉ (lapsedEntries board nowMs).map Prod.fst := by
        rw [hmem]
        rintro ⟨other, hother, hlapsed⟩
        rw [hk] at hother
        cases hother
        rw [hl] at hlapsed
        cases hlapsed
      simp [hnot]

/-- **A sweep in closed form.** -/
theorem sweepExpired_eq (board : Board) (nowMs : Int) :
    sweepExpired board nowMs =
      (dropPaths board.state ((lapsedEntries board nowMs).map Prod.fst)).map fun state =>
        (!(lapsedEntries board nowMs).isEmpty, { board with
          state := state
          «meta» := board.meta.filter fun _ entry => !entry.lapsed nowMs
          expired := sweptExpired board nowMs }) := by
  have herase := erase_lapsedEntries board nowMs
  unfold sweepExpired sweptExpired
  change (if (lapsedEntries board nowMs).isEmpty = true then _ else
    ((lapsedEntries board nowMs).foldlM (dropExpired nowMs) board >>= _)) = _
  rw [foldlM_dropExpired, herase]
  cases hl : lapsedEntries board nowMs with
  | nil =>
    rw [hl] at herase
    rw [← herase]
    rfl
  | cons e l =>
    cases dropPaths board.state ((e :: l).map Prod.fst) with
    | error exc => rfl
    | ok state => rfl

theorem sweepExpired_ok (h : sweepExpired board nowMs = .ok (dropped, swept)) :
    dropped = !(lapsedEntries board nowMs).isEmpty ∧
      ∃ state, dropPaths board.state ((lapsedEntries board nowMs).map Prod.fst) = .ok state ∧
        swept = { board with
          state := state
          «meta» := board.meta.filter fun _ entry => !entry.lapsed nowMs
          expired := sweptExpired board nowMs } := by
  rw [sweepExpired_eq] at h
  obtain ⟨state, hstate, heq⟩ := Except.map_eq_ok.mp h
  cases heq
  exact ⟨rfl, state, hstate, rfl⟩

/-- What a sweep leaves alone: the tasks, the revision, the clear tombstones and the audit lines. -/
structure SweepFrame (board swept : Board) : Prop where
  tasks : swept.tasks = board.tasks
  revision : swept.revision = board.revision
  cleared : swept.cleared = board.cleared
  audit : swept.audit = board.audit

theorem sweepExpired_frame (h : sweepExpired board nowMs = .ok (dropped, swept)) : SweepFrame board swept := by
  obtain ⟨-, state, -, rfl⟩ := sweepExpired_ok h
  exact ⟨rfl, rfl, rfl, rfl⟩

/-- The path names a member of an object in the tree. -/
def NamesMember (state : JsonObject) (path : String) : Prop :=
  ∃ parts, blackboardSplitPath path = .ok parts ∧ (Json.object state).IsMember parts

theorem dropFromTree_of_split {path : String} {parts : List String} (h : blackboardSplitPath path = .ok parts)
    (state : JsonObject) : dropFromTree state path = ((Json.object state).eraseMember parts).map Json.members := by
  unfold dropFromTree
  rw [h]
  dsimp only
  rw [pointerFor_eq]
  change ((Json.object state).eraseMember parts >>= _) = _
  cases (Json.object state).eraseMember parts <;> rfl

/-- Removing a member of an object leaves an object. -/
theorem eraseMember_members {state : JsonObject} {parts : List String} {tree : Json}
    (h : (Json.object state).eraseMember parts = .ok tree) : tree = .object tree.members := by
  cases parts with
  | nil =>
    cases h
    rfl
  | cons k ks =>
    rw [Json.eraseMember_cons] at h
    rcases Json.atChild_ok h with ⟨-, rfl⟩ | ⟨c, o, -, -, rfl⟩
    · rfl
    · cases o <;> rfl

theorem dropFromTree_eq_self {path : String} (h : dropFromTree state path = .ok state')
    (hnot : ¬ NamesMember state path) : state' = state := by
  cases hparts : blackboardSplitPath path with
  | error e =>
    rw [dropFromTree, hparts] at h
    exact (Except.ok.inj h).symm
  | ok parts =>
    rw [dropFromTree_of_split hparts] at h
    obtain ⟨tree, htree, rfl⟩ := Except.map_eq_ok.mp h
    rw [Json.eraseMember_eq_self htree fun hmember => hnot ⟨parts, hparts, hmember⟩]
    rfl

theorem namesMember_of_dropFromTree {path q : String} (h : dropFromTree state path = .ok state')
    (hq : NamesMember state' q) : NamesMember state q := by
  obtain ⟨parts, hparts, hmember⟩ := hq
  refine ⟨parts, hparts, ?_⟩
  cases hpath : blackboardSplitPath path with
  | error e =>
    rw [dropFromTree, hpath] at h
    cases h
    exact hmember
  | ok above =>
    rw [dropFromTree_of_split hpath] at h
    obtain ⟨tree, htree, rfl⟩ := Except.map_eq_ok.mp h
    rw [← eraseMember_members htree] at hmember
    exact Json.isMember_of_eraseMember htree hmember

/-- What holds of a tree, and is preserved when a member that it has is removed, holds once the paths
are dropped. -/
theorem dropPaths_induct {P : JsonObject → Prop} {paths : List String} (h : dropPaths state paths = .ok state')
    (hstate : P state)
    (hstep : ∀ path ∈ paths, NamesMember state path → ∀ parts s s', blackboardSplitPath path = .ok parts →
      P s → (Json.object s).eraseMember parts = .ok (.object s') → P s') : P state' := by
  induction paths generalizing state with
  | nil =>
    cases h
    exact hstate
  | cons path paths ih =>
    obtain ⟨s, hs, h⟩ := Except.bind_eq_ok.mp h
    refine ih h ?_ fun q hq hmember => ?_
    · by_cases hmember : NamesMember state path
      · obtain ⟨parts, hparts, -⟩ := id hmember
        have herase := hs
        rw [dropFromTree_of_split hparts] at herase
        obtain ⟨tree, htree, rfl⟩ := Except.map_eq_ok.mp herase
        rw [eraseMember_members htree] at htree
        exact hstep path List.mem_cons_self hmember parts state _ hparts hstate htree
      · rwa [dropFromTree_eq_self hs hmember]
    · exact hstep q (List.mem_cons_of_mem path hq) (namesMember_of_dropFromTree hs hmember)

/-- The path names a member of the tree, and has lapsed. -/
def LapsedMember (board : Board) (nowMs : Int) (path : String) : Prop :=
  (∃ entry, board.meta.get path = some entry ∧ entry.lapsed nowMs = true) ∧ NamesMember board.state path

theorem not_lapsedMember {board : Board} (h : (lapsedEntries board nowMs).isEmpty = true)
    (path : String) : ¬ LapsedMember board nowMs path := by
  rintro ⟨⟨entry, hentry⟩, -⟩
  have hmem := mem_lapsedEntries (e := (path, entry)).mpr hentry
  rw [List.isEmpty_iff.mp h] at hmem
  cases hmem

/-- What holds of a tree, and is preserved when a lapsed member is removed, holds after a sweep. -/
theorem sweep_induct {P : JsonObject → Prop} (h : sweepExpired board nowMs = .ok (dropped, swept))
    (hboard : P board.state)
    (hstep : ∀ path, LapsedMember board nowMs path → ∀ parts s s', blackboardSplitPath path = .ok parts →
      P s → (Json.object s).eraseMember parts = .ok (.object s') → P s') : P swept.state := by
  obtain ⟨-, state, hstate, rfl⟩ := sweepExpired_ok h
  refine dropPaths_induct hstate hboard fun path hpath hmember => hstep path ⟨?_, hmember⟩
  obtain ⟨e, he, rfl⟩ := List.mem_map.mp hpath
  exact ⟨e.2, mem_lapsedEntries.mp he⟩

/-- A sweep that finds no lapsed member leaves the tree as it is. -/
theorem state_of_sweep (h : sweepExpired board nowMs = .ok (dropped, swept))
    (hnot : ∀ path, ¬ LapsedMember board nowMs path) :
    swept.state = board.state := by
  exact sweep_induct h (P := fun state => state = board.state) rfl fun path hmember => absurd hmember (hnot path)

/-- The metadata after a sweep is that which has not lapsed. -/
theorem get_meta_of_sweep (h : sweepExpired board nowMs = .ok (dropped, swept)) (k : String) :
    swept.meta.get k = (board.meta.get k).filter fun entry => !entry.lapsed nowMs := by
  obtain ⟨-, state, -, rfl⟩ := sweepExpired_ok h
  exact OrderedMap.get_filter _ _ _

/-- When a sweep drops nothing, it leaves the board as it is. -/
theorem sweepExpired_false (h : sweepExpired board nowMs = .ok (false, swept)) : swept = board := by
  unfold sweepExpired at h
  dsimp only at h
  split_ifs at h
  · cases h
    rfl
  · obtain ⟨_, -, h⟩ := Except.bind_eq_ok.mp h
    cases h

end Didi.Blackboard
