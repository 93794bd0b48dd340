import Mathlib.Data.List.Infix
import Didi.Blackboard.Clearing
import Didi.Blackboard.Metadata
import Didi.Blackboard.Rules

/-!
# What a read says of a path that is gone

* `Removal`, `lastCause` : what took paths from the tree, and the last one that took a path or what is above it;
* `Ledger` : a file with all that was ever removed from its tree, and all that was ever held in it.
-/

namespace Didi.Blackboard
open Locked
variable {removals : List Removal} {held : List String → Prop} {path : String} {state state' : JsonObject}

theorem trimTombstones_of_size_le {records : OrderedMap String Tombstone} {limit : Nat} (h : records.size ≤ limit) :
    trimTombstones records limit = records := by
  rw [trimTombstones, if_pos h]

/-! ## Removals -/

/-- Why a path is gone; the causes that leave no tombstone are one. -/
inductive Cause
  | sweep
  | clear (author : Option String)
  | other
  deriving DecidableEq

/-- Whether a path, or one above it, led to something before and to nothing after. -/
def takesFrom (before after : JsonObject) (p : List String) : Bool :=
  p.inits.any fun q => ((Json.object before).resolve q).isSome && ((Json.object after).resolve q).isNone

structure Removal where
  before : JsonObject
  after : JsonObject
  cause : Cause
  /-- A clear of the whole board takes the root, which is above every path. -/
  whole : Bool := false

def Removal.takes (removal : Removal) (p : List String) : Bool :=
  removal.whole || takesFrom removal.before removal.after p

/-- The cause of the last removal that took a path; the removals are listed newest first. -/
def lastCause (removals : List Removal) (p : List String) : Option Cause :=
  (removals.find? fun removal => removal.takes p).map Removal.cause

/-- What removes paths when a call stores what it was asked for, and whether it takes the whole board. -/
def Operation.cause : Operation → Option (Cause × Bool)
  | .write _ | .patch _ => some (.other, false)
  | .clear request => some (if request.path = "" then (.other, true) else (.clear request.author, false))
  | _ => none

/-- The tree that a sweep leaves for the call that made it. -/
def sweptState (board : Board) (nowMs : Int) : JsonObject :=
  match sweepExpired board nowMs with
  | .ok (_, swept) => swept.state
  | .error _ => board.state

/-- The removals of an operation that changed one board into another, newest first. A write, a patch or a clear
that is stored takes the next revision, and its sweep comes before it. -/
def removalsBetween (loaded stored : Board) (nowMs : Int) (operation : Operation) : List Removal :=
  match operation.cause with
  | none => [{ before := loaded.state, after := stored.state, cause := .sweep }]
  | some (cause, whole) =>
    if stored.revision = loaded.revision then []
    else
      [{ before := sweptState loaded nowMs, after := stored.state, cause := cause, whole := whole },
        { before := loaded.state, after := sweptState loaded nowMs, cause := .sweep }]

def removalsOf (file : File) (call : Call) : List Removal :=
  removalsBetween (boardOf file) (boardOf (step file call).2) call.nowMs call.operation

/-- A file, what was removed from its tree, and the trees it held. -/
structure Ledger where
  file : File := none
  removals : List Removal := []
  trees : List JsonObject := []

/-- Whether a path ever led to something. -/
def Ledger.Held (ledger : Ledger) (p : List String) : Prop :=
  ∃ tree ∈ ledger.trees, ∃ w, (Json.object tree).resolve p = some w

def Ledger.step (ledger : Ledger) (call : Call) : Except Failure Answer × Ledger :=
  ((Blackboard.step ledger.file call).1,
    { file := (Blackboard.step ledger.file call).2
      removals := removalsOf ledger.file call ++ ledger.removals
      trees := (boardOf (Blackboard.step ledger.file call).2).state :: ledger.trees })

theorem Ledger.file_exec (ledger : Ledger) (calls : List Call) :
    (Run.exec Ledger.step ledger calls).file = Run.exec Blackboard.step ledger.file calls := by
  induction calls generalizing ledger with
  | nil => rfl
  | cons call calls ih => exact ih _

theorem takesFrom_iff {before after : JsonObject} {p : List String} :
    takesFrom before after p = true ↔
      ∃ q, q <+: p ∧ (∃ w, (Json.object before).resolve q = some w) ∧ (Json.object after).resolve q = none := by
  simp [takesFrom, List.any_eq_true, List.mem_inits, Option.isSome_iff_exists]

/-! ## What the tombstones tell -/

/-- The cause that the tombstones of a path tell. -/
def told (board : Board) (path : String) : Cause :=
  match board.expired.get path with
  | some _ => .sweep
  | none =>
    match board.cleared.get path with
    | some record => .clear record.author
    | none => .other

/-- The tombstones of what was held and is gone tell what took it last. -/
def Tells (removals : List Removal) (held : List String → Prop) (board : Board) : Prop :=
  ∀ p, LegalPath p → held p → (Json.object board.state).resolve p = none →
    lastCause removals p = some (told board (joinPath p))

/-- What one removal must do to the tombstones. -/
theorem Tells.removal {board board' : Board} {removal : Removal} (h : Tells removals held board)
    (hbefore : removal.before = board.state) (hafter : removal.after = board'.state)
    (htold : ∀ p, LegalPath p → held p → (Json.object board'.state).resolve p = none →
      told board' (joinPath p) = if removal.takes p then removal.cause else told board (joinPath p)) :
    Tells (removal :: removals) held board' := by
  intro p hp hheld hgone
  rw [htold p hp hheld hgone, lastCause, List.find?_cons]
  cases htakes : removal.takes p with
  | true => rfl
  | false =>
    -- what the removal did not take was gone before it
    refine h p hp hheld ?_
    rw [← Option.not_isSome_iff_eq_none]
    intro hsome
    rw [Removal.takes, Bool.or_eq_false_iff] at htakes
    have htaken : takesFrom removal.before removal.after p = true :=
      takesFrom_iff.mpr ⟨p, List.prefix_rfl, Option.isSome_iff_exists.mp (hbefore ▸ hsome), hafter ▸ hgone⟩
    rw [htaken] at htakes
    cases htakes.2

/-- What does not change the tree or the tombstones leaves nothing untold. -/
theorem Tells.kept {board board' : Board} (h : Tells removals held board) (hstate : board'.state = board.state)
    (hexpired : board'.expired = board.expired)
    (hcleared : board'.cleared = board.cleared) : Tells removals held board' := by
  intro p hp hheld hgone
  rw [told, hexpired, hcleared]
  exact h p hp hheld (hstate ▸ hgone)

/-! ## The removals of the calls -/

/-- The metadata of a path has lapsed. -/
def Lapses (board : Board) (nowMs : Int) (path : String) : Prop :=
  ∃ entry, board.meta.get path = some entry ∧ entry.lapsed nowMs = true

theorem resolve_of_prefix {state : JsonObject} {p q : List String} {w : Json} (h : p <+: q)
    (hw : (Json.object state).resolve q = some w) : ∃ u, (Json.object state).resolve p = some u := by
  obtain ⟨r, rfl⟩ := h
  obtain ⟨u, hu, -⟩ := Json.resolve_prefix hw
  exact ⟨u, hu⟩

section Sweep
variable {board swept : Board} {nowMs : Int} {dropped : Bool} {p : List String}

theorem dropFromTree_ok (h : dropFromTree state path = .ok state') :
    state' = state ∨ ∃ parts, blackboardSplitPath path = .ok parts ∧
      (Json.object state).eraseMember parts = .ok (.object state') := by
  cases hparts : blackboardSplitPath path with
  | error e =>
    rw [dropFromTree, hparts] at h
    exact .inl (Except.ok.inj h).symm
  | ok parts =>
    rw [dropFromTree_of_split hparts] at h
    obtain ⟨tree, htree, rfl⟩ := Except.map_eq_ok.mp h
    rw [eraseMember_members htree] at htree
    exact .inr ⟨parts, rfl, htree⟩

/-- Dropping a path makes nothing resolve. -/
theorem resolve_none_of_dropFromTree (h : dropFromTree state path = .ok state')
    (hnone : (Json.object state).resolve p = none) :
    (Json.object state').resolve p = none := by
  rcases dropFromTree_ok h with rfl | ⟨parts, -, herase⟩
  · exact hnone
  · by_cases hmember : (Json.object state).IsMember parts
    · rw [Json.eraseMember_of_isMember hmember] at herase
      cases hres : (Json.object state').resolve p with
      | none => rfl
      | some w =>
        obtain ⟨u, hu, -⟩ := Json.resolves_of_alterAt_erase herase hres
        rw [hnone] at hu
        cases hu
    · cases Json.eraseMember_eq_self herase hmember
      exact hnone

/-- What can only lie in an object, if anywhere, still does once a path is dropped. -/
theorem holder_of_dropFromTree (h : dropFromTree state path = .ok state')
    (hholder : ∀ w, (Json.object state).resolve p = some w → w.isObject = true) :
    ∀ w, (Json.object state').resolve p = some w → w.isObject = true := by
  intro w hw
  rcases dropFromTree_ok h with rfl | ⟨parts, -, herase⟩
  · exact hholder w hw
  · by_cases hmember : (Json.object state).IsMember parts
    · rw [Json.eraseMember_of_isMember hmember] at herase
      obtain ⟨u, hu, -⟩ := Json.resolves_of_alterAt_erase herase hw
      exact Json.isObject_of_alterAt_erase herase hu (hholder u hu) hw
    · cases Json.eraseMember_eq_self herase hmember
      exact hholder w hw

/-- A path that is dropped, and lies in an object, resolves to nothing after it. -/
theorem resolve_none_of_dropPaths {paths : List String} (h : dropPaths state paths = .ok state') (hpath : path ∈ paths)
    (hparts : blackboardSplitPath path = .ok p)
    (hholder : ∀ w, (Json.object state).resolve p.dropLast = some w → w.isObject = true) :
    (Json.object state').resolve p = none := by
  have hnone : ∀ {paths : List String} {s s' : JsonObject}, dropPaths s paths = .ok s' →
      (Json.object s).resolve p = none → (Json.object s').resolve p = none := by
    intro paths
    induction paths with
    | nil =>
      intro s s' hs hgone
      cases hs
      exact hgone
    | cons other paths ih =>
      intro s s' hs hgone
      obtain ⟨s₁, h₁, hs⟩ := Except.bind_eq_ok.mp hs
      exact ih hs (resolve_none_of_dropFromTree h₁ hgone)
  induction paths generalizing state with
  | nil => cases hpath
  | cons other paths ih =>
    obtain ⟨s, hs, hrest⟩ := Except.bind_eq_ok.mp h
    rcases List.mem_cons.mp hpath with rfl | hpath
    · refine hnone hrest ?_
      rw [dropFromTree_of_split hparts] at hs
      obtain ⟨tree, htree, rfl⟩ := Except.map_eq_ok.mp hs
      rw [← eraseMember_members htree]
      by_cases hmember : (Json.object state).IsMember p
      · rw [Json.eraseMember_of_isMember hmember] at htree
        have hgone := Json.contains_alterAt_erase htree
        rw [Json.concat_of_ne_nil (legalPath_of_split hparts).ne_nil] at hgone
        rw [← Option.not_isSome_iff_eq_none, Option.isSome_iff_exists, ← Json.contains_eq_true, hgone]
        decide
      · rw [Json.eraseMember_eq_self htree hmember]
        cases hres : (Json.object state).resolve p with
        | none => rfl
        | some w =>
          refine absurd ⟨⟨w, hres⟩, ?_⟩ hmember
          obtain ⟨holder, hh⟩ := resolve_of_prefix (List.dropLast_prefix p) hres
          have hobject := hholder holder hh
          cases holder with
          | object members => exact ⟨members, hh⟩
          | _ => cases hobject
    · exact ih hrest hpath (holder_of_dropFromTree hs hholder)

/-- A member that has lapsed resolves to nothing after a sweep. -/
theorem resolve_swept_of_lapsed (h : sweepExpired board nowMs = .ok (dropped, swept))
    (hlapsed : LapsedMember board nowMs path) (hparts : blackboardSplitPath path = .ok p) :
    (Json.object swept.state).resolve p = none := by
  obtain ⟨⟨entry, hentry⟩, q, hq, -, members, hmembers⟩ := hlapsed
  rw [hparts] at hq
  cases hq
  obtain ⟨-, state, hstate, rfl⟩ := sweepExpired_ok h
  refine resolve_none_of_dropPaths hstate ?_ hparts fun w hw => ?_
  · exact List.mem_map.mpr ⟨(path, entry), mem_lapsedEntries.mpr hentry, rfl⟩
  · rw [hmembers] at hw
    cases hw
    rfl

/-- A sweep takes what lies at or under a lapsed member. -/
theorem takesFrom_sweep (h : sweepExpired board nowMs = .ok (dropped, swept)) :
    takesFrom board.state swept.state p = true ↔ UnderLapsed board nowMs p := by
  rw [takesFrom_iff]
  constructor
  · rintro ⟨q, hq, ⟨w, hw⟩, hgone⟩
    by_contra hnot
    obtain ⟨u, hu⟩ := resolves_of_sweep h hw fun ⟨path, above, hlapsed, habove, hprefix⟩ =>
      hnot ⟨path, above, hlapsed, habove, hprefix.trans hq⟩
    rw [hgone] at hu
    cases hu
  · rintro ⟨path, above, hlapsed, habove, hprefix⟩
    obtain ⟨-, q, hq, hmember⟩ := id hlapsed
    rw [habove] at hq
    cases hq
    exact ⟨above, hprefix, hmember.1, resolve_swept_of_lapsed h hlapsed habove⟩

theorem get_recordExpired {lapsed : List (String × Meta)} {expired : OrderedMap String Tombstone} {k : String} :
    ((recordExpired nowMs expired lapsed).get k).isSome = true ↔
      k ∈ lapsed.map Prod.fst ∨ (expired.get k).isSome = true := by
  induction lapsed generalizing expired with
  | nil => simp [recordExpired]
  | cons e lapsed ih =>
    have hfold : recordExpired nowMs expired (e :: lapsed) =
        recordExpired nowMs (expired.insert e.1 (expiredRecord nowMs e.2)) lapsed := rfl
    rw [hfold, ih, OrderedMap.get_insert, List.map_cons, List.mem_cons]
    by_cases hk : k = e.1 <;> simp [hk]

/-- The tombstones of what lapsed and of what has lapsed are no more than are kept. -/
def SweepFits (board : Board) (nowMs : Int) : Prop :=
  (recordExpired nowMs board.expired (lapsedEntries board nowMs)).size ≤ kBlackboardMaxExpiredRecords

theorem expired_swept (hfits : SweepFits board nowMs) (h : sweepExpired board nowMs = .ok (dropped, swept))
    (k : String) : (swept.expired.get k).isSome = true ↔ Lapses board nowMs k ∨ (board.expired.get k).isSome = true := by
  have hmem : k ∈ (lapsedEntries board nowMs).map Prod.fst ↔ Lapses board nowMs k := by
    constructor
    · intro hk
      obtain ⟨e, he, rfl⟩ := List.mem_map.mp hk
      exact ⟨e.2, mem_lapsedEntries.mp he⟩
    · rintro ⟨entry, hentry⟩
      exact List.mem_map.mpr ⟨(k, entry), mem_lapsedEntries.mpr hentry, rfl⟩
  obtain ⟨-, state, -, rfl⟩ := sweepExpired_ok h
  rw [← hmem]
  change ((sweptExpired board nowMs).get k).isSome = true ↔ _
  unfold sweptExpired
  split_ifs with hempty
  · rw [List.isEmpty_iff.mp hempty]
    simp
  · rw [trimTombstones_of_size_le hfits]
    exact get_recordExpired

/-- A sweep tells of what it took, where no tombstone of an earlier one does, and of nothing else. -/
def SweepTells (held : List String → Prop) (board : Board) (nowMs : Int) : Prop :=
  ∀ p, LegalPath p → held p → board.expired.get (joinPath p) = none →
    (UnderLapsed board nowMs p → Lapses board nowMs (joinPath p)) ∧
    (Lapses board nowMs (joinPath p) →
      UnderLapsed board nowMs p ∨ ∃ w, (Json.object board.state).resolve p = some w)

theorem told_of_expired {board : Board} (h : (board.expired.get path).isSome = true) :
    told board path = .sweep := by
  obtain ⟨record, hrecord⟩ := Option.isSome_iff_exists.mp h
  rw [told, hrecord]

theorem Tells.sweep (h : Tells removals held board) (htells : SweepTells held board nowMs)
    (hfits : SweepFits board nowMs) (hsweep : sweepExpired board nowMs = .ok (dropped, swept)) :
    Tells ({ before := board.state, after := swept.state, cause := .sweep } :: removals) held swept := by
  refine h.removal rfl rfl fun p hp hheld hgone => ?_
  have htakes : Removal.takes { before := board.state, after := swept.state, cause := .sweep } p = true ↔
      UnderLapsed board nowMs p := takesFrom_sweep hsweep
  have hexpired := expired_swept hfits hsweep (joinPath p)
  have hcleared := (sweepExpired_frame hsweep).cleared
  cases hold : board.expired.get (joinPath p) with
  | some record =>
    rw [told_of_expired (hexpired.mpr (.inr (by rw [hold]; rfl))), told_of_expired (by rw [hold]; rfl), ite_self]
  | none =>
    obtain ⟨hlapse, htaken⟩ := htells p hp hheld hold
    by_cases hunder : UnderLapsed board nowMs p
    · rw [if_pos (htakes.mpr hunder)]
      exact told_of_expired (hexpired.mpr (.inl (hlapse hunder)))
    · rw [if_neg fun ht => hunder (htakes.mp ht)]
      have hnot : ¬ Lapses board nowMs (joinPath p) := by
        intro hlapses
        rcases htaken hlapses with hunder' | ⟨w, hw⟩
        · exact hunder hunder'
        · obtain ⟨u, hu⟩ := resolves_of_sweep hsweep hw hunder
          rw [hgone] at hu
          cases hu
      have hnone : swept.expired.get (joinPath p) = none := by
        rw [← Option.not_isSome_iff_eq_none, hexpired, hold]
        simpa using hnot
      rw [told, told, hnone, hold, hcleared]

end Sweep

section Operations
variable {swept : Board} {nowMs : Int}

/-- No tombstone tells of a path. -/
def Untold (board : Board) (path : String) : Prop :=
  board.expired.get path = none ∧ board.cleared.get path = none

theorem told_of_untold {board : Board} (h : Untold board path) : told board path = .other := by
  rw [told, h.1, h.2]

/-- A write takes what its value lacks of what was below its path. -/
theorem takesFrom_write {request : BlackboardWriteRequest} {parts p : List String} (hparts : parts ≠ [])
    {w : Option Json × JsonObject} (hwrite : writeAt request.value swept.state parts = .ok w)
    (htakes : takesFrom swept.state w.2 p = true) :
    ∃ rest, parts ++ rest <+: p ∧ request.value.resolve rest = none ∧
      ∃ u, (Json.object swept.state).resolve (parts ++ rest) = some u := by
  obtain ⟨q, hq, ⟨u, hu⟩, hgone⟩ := takesFrom_iff.mp htakes
  by_cases hbelow : parts <+: q
  · obtain ⟨rest, rfl⟩ := hbelow
    refine ⟨rest, hq, ?_, u, hu⟩
    rwa [Json.resolve_append, (holds_writeAt hparts hwrite).resolve] at hgone
  · by_cases habove : q <+: parts
    · obtain ⟨v, hv⟩ := resolve_of_prefix habove (holds_writeAt hparts hwrite).resolve
      rw [hgone] at hv
      cases hv
    · rw [resolve_writeAt_of_unrelated hbelow habove hwrite, hu] at hgone
      cases hgone

theorem Tells.write {request : BlackboardWriteRequest} {parts : List String} {plan : WritePlan}
    (h : Tells removals held swept) (hparts : LegalPath parts) (hplan : WritePlanned request parts nowMs swept plan)
    (huntold : ∀ p rest, LegalPath p → held p → parts ++ rest <+: p → request.value.resolve rest = none →
      (∃ u, (Json.object swept.state).resolve (parts ++ rest) = some u) → Untold swept (joinPath p)) :
    Tells ({ before := swept.state, after := plan.board.state, cause := .other } :: removals) held plan.board := by
  obtain ⟨⟨state, hwrite, hboard⟩, -, -⟩ := hplan
  refine h.removal rfl rfl fun p hp hheld hgone => ?_
  rw [hboard] at hgone ⊢
  have hne : joinPath p ≠ joinPath parts := by
    intro he
    obtain rfl := joinPath_injective hp hparts he
    rw [(holds_writeAt hp.ne_nil hwrite).resolve] at hgone
    cases hgone
  have hsame : told { swept with
      revision := swept.revision + 1, state := state, «meta» := swept.meta.insert (joinPath parts) plan.entry
      expired := swept.expired.erase (joinPath parts) } (joinPath p) = told swept (joinPath p) := by
    rw [told, told, OrderedMap.get_erase, if_neg hne]
  rw [hsame]
  split_ifs with htakes
  · obtain ⟨rest, hrest, hlacks, hthere⟩ := takesFrom_write hparts.ne_nil hwrite htakes
    exact told_of_untold (huntold p rest hp hheld hrest hlacks hthere)
  · rfl

theorem Tells.patch {request : BlackboardPatchRequest} {operations : List Json} {plan : Board}
    (h : Tells removals held swept) (hplan : PatchPlanned request operations swept plan)
    (huntold : ∀ p, LegalPath p → held p → takesFrom swept.state plan.state p = true → Untold swept (joinPath p)) :
    Tells ({ before := swept.state, after := plan.state, cause := .other } :: removals) held plan := by
  refine h.removal rfl rfl fun p hp hheld _ => ?_
  have hsame : told plan (joinPath p) = told swept (joinPath p) := by
    rw [hplan.board]
    rfl
  rw [hsame]
  split_ifs with htakes
  · exact told_of_untold (huntold p hp hheld htakes)
  · rfl

/-- The metadata that a clear of a path takes, by key. -/
def deadKeys (board : Board) (path : String) : List String :=
  (board.meta.filter fun entry _ => entry = path || underPath path entry).keys

/-- The tombstones of what was cleared, with those of a clear. -/
def recordCleared (request : BlackboardClearRequest) (parts : List String) (nowMs : Int) (board : Board) :
    OrderedMap String Tombstone :=
  let record : Tombstone := { atMs := nowMs, author := request.author, reason := request.reason }
  ((deadKeys board (joinPath parts)).foldl (fun m k => m.insert k record) board.cleared).insert (joinPath parts) record

theorem get_foldl_insert {α : Type} (keys : List String) (x : α) (m : OrderedMap String α) (k : String) :
    (keys.foldl (fun m k => m.insert k x) m).get k = if k ∈ keys then some x else m.get k := by
  induction keys generalizing m with
  | nil => simp
  | cons key keys ih =>
    rw [List.foldl_cons, ih, OrderedMap.get_insert]
    by_cases hk : k = key <;> by_cases hmem : k ∈ keys <;> simp [hk, hmem]

theorem mem_deadKeys {board : Board} {parts p : List String} (hparts : LegalPath parts) (hp : LegalPath p) :
    joinPath p ∈ deadKeys board (joinPath parts) ↔
      (∃ entry, board.meta.get (joinPath p) = some entry) ∧ parts <+: p := by
  have hunder : (joinPath p = joinPath parts ∨ underPath (joinPath parts) (joinPath p) = true) ↔ parts <+: p := by
    rw [underPath_joinPath hparts hp]
    constructor
    · rintro (he | ⟨rest, -, rfl⟩)
      · rw [joinPath_injective hp hparts he]
      · exact List.prefix_append _ _
    · rintro ⟨rest, rfl⟩
      rcases List.eq_nil_or_concat rest with rfl | ⟨init, last, rfl⟩
      · exact .inl (by rw [List.append_nil])
      · exact .inr ⟨_, by simp, rfl⟩
  rw [deadKeys, OrderedMap.mem_keys, ← hunder]
  constructor
  · rintro ⟨entry, hentry⟩
    rw [OrderedMap.get_filter, Option.filter_eq_some_iff] at hentry
    exact ⟨⟨entry, hentry.1⟩, by simpa using hentry.2⟩
  · rintro ⟨⟨entry, hentry⟩, hat⟩
    refine ⟨entry, ?_⟩
    rw [OrderedMap.get_filter, hentry, Option.filter_some, if_pos (by simpa using hat)]

/-- A clear of a path takes what lies at or under it. -/
theorem takesFrom_clear {parts p : List String} {swept left : Board} {removed : Json} (hne : parts ≠ [])
    (hremoved : (Json.object swept.state).resolve parts = some removed)
    (herased : (Json.object swept.state).alterAt (Json.erase (parts.getLastD "")) parts.dropLast =
      .ok (.object left.state)) : takesFrom swept.state left.state p = true ↔ parts <+: p := by
  rw [takesFrom_iff]
  constructor
  · rintro ⟨q, hq, ⟨u, hu⟩, hgone⟩
    by_contra hnot
    obtain ⟨v, hv⟩ := Json.resolves_alterAt_erase herased
      (by rw [Json.concat_of_ne_nil hne]; exact fun hle => hnot (hle.trans hq)) hu
    rw [hgone] at hv
    cases hv
  · intro hle
    refine ⟨parts, hle, ⟨removed, hremoved⟩, ?_⟩
    have hgone := Json.contains_alterAt_erase herased
    rw [Json.concat_of_ne_nil hne] at hgone
    rw [← Option.not_isSome_iff_eq_none, Option.isSome_iff_exists, ← Json.contains_eq_true, hgone]
    decide

/-- What the tombstones must say of a path below the one that is cleared: the clear itself says it of the paths
that carry metadata. -/
def ToldOf (request : BlackboardClearRequest) (swept : Board) (path : String) : Prop :=
  (∃ entry, swept.meta.get path = some entry) ∨ told swept path = .clear request.author

theorem Tells.clearPath {request : BlackboardClearRequest} {parts : List String} {left : Board} {removed : Json}
    (h : Tells removals held swept) (hparts : LegalPath parts)
    (hremoved : (Json.object swept.state).resolve parts = some removed)
    (hfits : (recordCleared request parts nowMs swept).size ≤ kBlackboardMaxClearedRecords)
    (hleft : clearPath request parts nowMs swept = .ok left)
    (htold : ∀ p, LegalPath p → held p → parts <+: p → p ≠ parts → ToldOf request swept (joinPath p)) :
    Tells ({ before := swept.state, after := left.state, cause := .clear request.author } :: removals) held left := by
  obtain ⟨herased, -, -, -⟩ := clearPath_ok hleft
  refine h.removal rfl rfl fun p hp hheld _ => ?_
  have htakes : Removal.takes { before := swept.state, after := left.state, cause := .clear request.author } p = true ↔
      parts <+: p := takesFrom_clear hparts.ne_nil hremoved herased
  have hexpired : left.expired.get (joinPath p) =
      if joinPath p = joinPath parts ∨ joinPath p ∈ deadKeys swept (joinPath parts) then none
      else swept.expired.get (joinPath p) := by
    rw [(clearPath_ok hleft).expired, OrderedMap.get_erase, get_eraseAll]
    by_cases hsame : joinPath p = joinPath parts
    · rw [if_pos hsame, if_pos (.inl hsame)]
    · rw [if_neg hsame]
      exact if_congr ⟨.inr, fun hor => hor.resolve_left hsame⟩ rfl rfl
  have hcleared : left.cleared.get (joinPath p) =
      if joinPath p = joinPath parts ∨ joinPath p ∈ deadKeys swept (joinPath parts) then
        some { atMs := nowMs, author := request.author, reason := request.reason }
      else swept.cleared.get (joinPath p) := by
    have hrecords : left.cleared = recordCleared request parts nowMs swept := by
      unfold Blackboard.clearPath at hleft
      obtain ⟨tree, -, hleft⟩ := Except.bind_eq_ok.mp hleft
      cases hleft
      exact trimTombstones_of_size_le hfits
    rw [hrecords, recordCleared, OrderedMap.get_insert, get_foldl_insert]
    by_cases hsame : joinPath p = joinPath parts
    · rw [if_pos hsame, if_pos (.inl hsame)]
    · rw [if_neg hsame]
      exact if_congr ⟨.inr, fun hor => hor.resolve_left hsame⟩ rfl rfl
  by_cases hbelow : parts <+: p
  · rw [if_pos (htakes.mpr hbelow)]
    by_cases hdead : joinPath p = joinPath parts ∨ joinPath p ∈ deadKeys swept (joinPath parts)
    · rw [told, hexpired, hcleared, if_pos hdead, if_pos hdead]
    · rw [told, hexpired, hcleared, if_neg hdead, if_neg hdead]
      rw [not_or, mem_deadKeys hparts hp] at hdead
      have hne : p ≠ parts := fun he => hdead.1 (congrArg joinPath he)
      exact (htold p hp hheld hbelow hne).resolve_left fun hentry => hdead.2 ⟨hentry, hbelow⟩
  · rw [if_neg fun ht => hbelow (htakes.mp ht)]
    have hdead : ¬ (joinPath p = joinPath parts ∨ joinPath p ∈ deadKeys swept (joinPath parts)) := by
      rw [not_or, mem_deadKeys hparts hp]
      exact ⟨fun he => hbelow (joinPath_injective hp hparts he ▸ List.prefix_rfl), fun hd => hbelow hd.2⟩
    rw [told, hexpired, hcleared, if_neg hdead, if_neg hdead, told]

/-- A clear of the whole board drops the tombstones of the clears and leaves those of what lapsed. -/
theorem Tells.clearAll (h : Tells removals held swept) {event : ClearEvent}
    (hexpired : ∀ p, LegalPath p → held p → swept.expired.get (joinPath p) = none) :
    Tells ({ before := swept.state, after := [], cause := .other, whole := true } :: removals) held
      (recordClear event { swept with state := [], «meta» := ∅, cleared := ∅ }) := by
  refine h.removal rfl rfl fun p hp hheld _ => ?_
  exact told_of_untold ⟨hexpired p hp hheld, rfl⟩

end Operations

end Didi.Blackboard
