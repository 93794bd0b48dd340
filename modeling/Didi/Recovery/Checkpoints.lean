import Mathlib.Data.List.Sort
import Mathlib.Data.String.Basic
import Didi.Common
import Didi.Lib.Locked
import Didi.Lib.Retained
import Didi.Lib.Run

/-!
# The store of completed checkpoints

* `CheckpointStore.create` : a snapshot is copied beside the others, published, and what is past the five first
  listed is removed;
* `listed` : the completed checkpoints by the reading of the wall clock, the id breaking ties;
* `Retains` : the created checkpoint is listed, at most five remain, and each removed one was created before each
  kept one;
* `create_retains_iff` : a create that succeeds does so iff no reading of the clock puts an older checkpoint before
  one of the five last created;
* `retains_of_advancing` : in a run whose clock advances from call to call it always does.
-/

namespace Didi.Recovery

/-- What `list` shows of a manifest. -/
structure Summary where
  id : String
  createdAtMs : Nat
  label : String
  files : Nat
  bytes : Nat
  deriving DecidableEq

/-- The order of `list`: the later reading first, then the greater id as text. -/
def Summary.before (a b : Summary) : Prop :=
  if a.createdAtMs ≠ b.createdAtMs then b.createdAtMs < a.createdAtMs else b.id < a.id

instance (a b : Summary) : Decidable (a.before b) := by
  unfold Summary.before
  infer_instance

def maxCheckpointLabel : Nat := 1024
def maxStoreEntries : Nat := 1000
def maxCompleted : Nat := 5

/-- The inventory of the project that a snapshot copies. -/
structure Tree where
  files : Nat
  bytes : Nat

/-- The folders of the store: the completed checkpoints in the order they were published, each under its id, and how
many other entries there are. -/
structure CheckpointStore where
  completed : List Summary := []
  incomplete : Nat := 0
  distinct : (completed.map Summary.id).Nodup := by simp

/-- What one call reads of the clocks, and how its steps on the files end. -/
structure Attempt where
  label : String
  disjoint : Bool := true
  scanned : Except String Tree
  -- the manifests are read before anything is copied and again after the snapshot is published
  readable : Except String Unit := .ok ()
  highResolution : Int
  sequence : Nat
  partialCreated : Bool := true
  copied : Except String Unit := .ok ()
  wallClockMs : Nat
  written : Except String Unit := .ok ()
  stable : Except String Unit := .ok ()
  renamed : Except String Unit := .ok ()
  relisted : Except String Unit := .ok ()
  -- an obsolete snapshot is looked at and removed
  removed : Summary → Except String Unit := fun _ => .ok ()

def newId (a : Attempt) : String := "cp-" ++ toString a.highResolution ++ "-" ++ toString a.sequence

/-- The manifest of the snapshot. -/
def Attempt.snapshot (a : Attempt) (tree : Tree) : Summary where
  id := newId a
  createdAtMs := a.wallClockMs
  label := a.label
  files := tree.files
  bytes := tree.bytes

def failure (what : String) : Error := .internal ("Checkpoint: " ++ what)

namespace CheckpointStore

def entries (s : CheckpointStore) : Nat := s.completed.length + s.incomplete

/-- The completed checkpoints as `list` shows them. -/
def listed (s : CheckpointStore) : List Summary := s.completed.insertionSort fun a b => ¬ b.before a

/-- The call `list`, when the manifests read as `readable` says. -/
def list (readable : Except String Unit) : Locked CheckpointStore Error (List Summary) := do
  let s ← .fetch
  .require (s.entries ≤ maxStoreEntries) (failure "Checkpoint store entry limit exceeded")
  .ofExcept (readable.mapError failure)
  return s.listed

/-- The snapshot is renamed to its id, which fails where a checkpoint has that name. -/
def publish (c : Summary) : Locked CheckpointStore Error Unit := fun s =>
  if h : c.id ∈ s.completed.map Summary.id then (.error (failure "rename"), s)
  else
    (.ok (), { s with
      completed := s.completed ++ [c]
      distinct := by
        rw [List.map_append, List.map_cons, List.map_nil]
        exact s.distinct.append (List.nodup_singleton _) (by simpa using h) })

def erase (c : Summary) : Locked CheckpointStore Error Unit := fun s =>
  (.ok (), { s with
    completed := s.completed.filter (· ≠ c)
    distinct := s.distinct.sublist ((List.filter_sublist).map _) })

/-- The obsolete checkpoints are removed one after the other. -/
def removeAll (removed : Summary → Except String Unit) : List Summary → Locked CheckpointStore Error Unit
  | [] => return ()
  | c :: rest => do
    .ofExcept ((removed c).mapError failure)
    erase c
    removeAll removed rest

def create (a : Attempt) : Locked CheckpointStore Error Summary := do
  .require (a.label.utf8ByteSize ≤ maxCheckpointLabel) (failure "Checkpoint label too long")
  .require a.disjoint (failure "Checkpoint store and project must be disjoint")
  let tree ← .ofExcept (a.scanned.mapError failure)
  let s ← .fetch
  .require (s.entries < maxStoreEntries) (failure "Checkpoint store is full, including incomplete snapshots")
  .require ((list a.readable).run s).1.isOk (failure "Cannot validate checkpoint store before creation")
  .require a.partialCreated (failure "Checkpoint already exists")
  .ofExcept (a.copied.mapError failure)
  let c := a.snapshot tree
  .ofExcept (a.written.mapError failure)
  .ofExcept (a.stable.mapError failure)
  .ofExcept (a.renamed.mapError failure)
  publish c
  let completed ← list a.relisted
  removeAll a.removed (completed.drop maxCompleted)
  return c

end CheckpointStore

namespace Summary
variable {a b c : Summary}

theorem before_iff : a.before b ↔
    b.createdAtMs < a.createdAtMs ∨ a.createdAtMs = b.createdAtMs ∧ b.id < a.id := by
  unfold before
  split_ifs with h
  · exact ⟨.inl, fun hor => hor.resolve_right fun heq => h heq.1⟩
  · rw [not_not] at h
    simp [h]

theorem before_asymm (h : a.before b) : ¬ b.before a := by
  rw [before_iff] at h ⊢
  rintro (hba | ⟨heq, hid⟩)
  · rcases h with hab | ⟨heq, -⟩ <;> omega
  · rcases h with hab | ⟨-, hid'⟩
    · omega
    · exact lt_asymm hid hid'

theorem before_trans (hab : a.before b) (hbc : b.before c) : a.before c := by
  rw [before_iff] at hab hbc ⊢
  rcases hab with hab | ⟨heq, hid⟩
  · left
    rcases hbc with hbc | ⟨heq, -⟩ <;> omega
  · rcases hbc with hbc | ⟨heq', hid'⟩
    · left
      omega
    · exact .inr ⟨heq.trans heq', hid'.trans hid⟩

/-- What does not come before `a` comes behind it, or has its reading and its id. -/
theorem not_before_iff : ¬ b.before a ↔ a.before b ∨ a.createdAtMs = b.createdAtMs ∧ a.id = b.id := by
  rw [before_iff, before_iff]
  rcases lt_trichotomy a.createdAtMs b.createdAtMs with hlt | heq | hlt
  · have hne := hlt.ne
    simp [hlt, hlt.not_gt, hne]
  · rcases lt_trichotomy a.id b.id with hid | hid | hid
    · simp [heq, hid, hid.not_gt, hid.ne]
    · simp [heq, hid]
    · simp [heq, hid, hid.not_gt]
  · simp [hlt, hlt.not_gt, hlt.ne, hlt.ne']

theorem not_before_trans (hba : ¬ b.before a) (hcb : ¬ c.before b) : ¬ c.before a := by
  rw [not_before_iff] at hba hcb ⊢
  rcases hba with hab | ⟨hms, hid⟩
  · rcases hcb with hbc | ⟨hms', hid'⟩
    · exact .inl (before_trans hab hbc)
    · left
      rwa [before_iff, ← hms', ← hid', ← before_iff]
  · rw [before_iff, hms, hid, ← before_iff]
    exact hcb

instance : IsTrans Summary fun a b => ¬ b.before a := ⟨fun _ _ _ => not_before_trans⟩

instance : Std.Total fun a b : Summary => ¬ b.before a where
  total a b := by
    by_cases h : a.before b
    · exact .inl (before_asymm h)
    · exact .inr h

end Summary

namespace CheckpointStore
open Locked
variable {s s' : CheckpointStore} {c : Summary} {a : Attempt}

theorem completed_nodup (s : CheckpointStore) : s.completed.Nodup := s.distinct.of_map _

theorem listed_perm (s : CheckpointStore) : s.listed.Perm s.completed := List.perm_insertionSort _ _

/-- The listing is in order, strictly, since no two folders have one name. -/
theorem listed_pairwise (s : CheckpointStore) : s.listed.Pairwise Summary.before := by
  have hsorted : s.listed.Pairwise fun a b => ¬ b.before a := List.pairwise_insertionSort _ _
  have hids : s.listed.Pairwise fun a b => a.id ≠ b.id :=
    List.pairwise_map.mp ((s.listed_perm.map _).nodup_iff.mpr s.distinct)
  refine hsorted.imp₂ (fun a b hab hid => ?_) hids
  exact (Summary.not_before_iff.mp hab).resolve_right fun h => hid h.2

/-- The checkpoints there are between the publication and the removal. -/
def published (s : CheckpointStore) (c : Summary) : List Summary := s.completed ++ [c]

section Calls
variable {β : Type} {P : Except Error β → CheckpointStore → Prop}

theorem wp_publish_bind {f : Unit → Locked CheckpointStore Error β}
    (hok : ∀ p : CheckpointStore, p.completed = s.published c → (f ()).wp P p) (herr : ∀ e, P (.error e) s) :
    (publish c >>= f).wp P s := by
  refine wp_bind ?_
  unfold wp run publish
  split
  · exact herr _
  · exact hok _ rfl

theorem wp_list_bind {readable : Except String Unit} {f : List Summary → Locked CheckpointStore Error β}
    (hok : (f s.listed).wp P s) (herr : ∀ e, P (.error e) s) : (list readable >>= f).wp P s := by
  refine wp_bind ?_
  unfold list
  refine wp_fetch_bind ?_
  refine wp_require_bind (fun _ => ?_) fun _ => herr _
  exact wp_ofExcept_bind (fun _ _ => wp_pure hok) fun e _ => herr e

theorem wp_erase_bind {f : Unit → Locked CheckpointStore Error β}
    (hok : ∀ p : CheckpointStore, p.completed = s.completed.filter (· ≠ c) → (f ()).wp P p) :
    (erase c >>= f).wp P s := wp_bind (hok _ rfl)

end Calls

/-- A removal leaves some of the checkpoints, and when none of its steps fails those that are not `obsolete`. -/
theorem removeAll_wp (removed : Summary → Except String Unit) (obsolete : List Summary) (s : CheckpointStore) :
    (removeAll removed obsolete).wp (fun r s' => s'.completed.Sublist s.completed ∧
      (r = .ok () → s'.completed = s.completed.filter fun c => c ∉ obsolete)) s := by
  induction obsolete generalizing s with
  | nil =>
    refine wp_pure ⟨.refl _, fun _ => ?_⟩
    simp
  | cons c rest ih =>
    unfold removeAll
    refine wp_ofExcept_bind (fun _ _ => wp_erase_bind fun p hp => ?_) fun e _ => ⟨.refl _, fun h => by cases h⟩
    refine wp_mono (ih p) fun r s' h => ⟨h.1.trans (hp ▸ List.filter_sublist), fun hr => ?_⟩
    rw [h.2 hr, hp, List.filter_filter]
    refine List.filter_congr fun d _ => ?_
    simp [Bool.and_comm]

/-- What a create did that answers `c`: it published the snapshot, and removed what is past the five first listed. -/
structure Created (a : Attempt) (s : CheckpointStore) (c : Summary) (s' : CheckpointStore) : Prop where
  snapshot : ∃ tree, a.scanned = .ok tree ∧ c = a.snapshot tree
  left : ∃ p : CheckpointStore, p.completed = s.published c ∧
    s'.completed = p.completed.filter fun d => d ∉ p.listed.drop maxCompleted

/-- Whatever a create answers, there are some of the checkpoints there were and maybe the new one behind them. -/
def Grows (a : Attempt) (s s' : CheckpointStore) : Prop :=
  s'.completed.Sublist s.completed ∨
    ∃ tree, a.scanned = .ok tree ∧ s'.completed.Sublist (s.published (a.snapshot tree))

theorem create_wp (a : Attempt) (s : CheckpointStore) :
    (create a).wp (fun r s' => Grows a s s' ∧ ∀ c, r = .ok c → Created a s c s') s := by
  have hfail : ∀ e : Error, Grows a s s ∧ ∀ c, (.error e : Except Error Summary) = .ok c → Created a s c s :=
    fun e => ⟨.inl (.refl _), fun c h => by cases h⟩
  unfold create
  refine wp_require_bind (fun _ => ?_) fun _ => hfail _
  refine wp_require_bind (fun _ => ?_) fun _ => hfail _
  refine wp_ofExcept_bind (fun tree htree => ?_) fun e _ => hfail _
  have hscanned := Except.mapError_eq_ok.mp htree
  refine wp_fetch_bind ?_
  refine wp_require_bind (fun _ => ?_) fun _ => hfail _
  refine wp_require_bind (fun _ => ?_) fun _ => hfail _
  refine wp_require_bind (fun _ => ?_) fun _ => hfail _
  refine wp_ofExcept_bind (fun _ _ => ?_) fun e _ => hfail _
  refine wp_ofExcept_bind (fun _ _ => ?_) fun e _ => hfail _
  refine wp_ofExcept_bind (fun _ _ => ?_) fun e _ => hfail _
  refine wp_ofExcept_bind (fun _ _ => ?_) fun e _ => hfail _
  refine wp_publish_bind (fun p hp => ?_) fun e => hfail e
  -- the checkpoint is published, whatever comes now
  have hgrows : ∀ s' : CheckpointStore, s'.completed.Sublist p.completed → Grows a s s' :=
    fun s' hsub => .inr ⟨tree, hscanned, hp ▸ hsub⟩
  refine wp_list_bind ?_ fun e => ⟨hgrows p (.refl _), fun c h => by cases h⟩
  refine wp_bind (wp_mono (removeAll_wp a.removed _ p) fun r s' hleft => ?_)
  cases r with
  | error e => exact ⟨hgrows s' hleft.1, fun c h => by cases h⟩
  | ok u =>
    refine wp_pure ⟨hgrows s' hleft.1, fun c hc => ?_⟩
    cases hc
    exact ⟨⟨tree, hscanned, rfl⟩, p, hp, hleft.2 rfl⟩

/-- **A reported checkpoint is kept**: it is listed, at most five remain, and each checkpoint that was removed was
created no later than each that was kept. -/
structure Retains (s : CheckpointStore) (c : Summary) (s' : CheckpointStore) : Prop where
  listed : c ∈ s'.listed
  few : s'.listed.length ≤ maxCompleted
  inOrder : ∀ r ∈ s.published c, r ∉ s'.listed → ∀ k ∈ s'.listed, (s.published c).idxOf r ≤ (s.published c).idxOf k

/-- No reading of the clocks puts an older checkpoint before one of the five last, the new one included: each of
these goes before each of the others. -/
def LastFirst (s : CheckpointStore) (a : Attempt) : Prop :=
  ∀ tree, a.scanned = .ok tree →
    let all := s.published (a.snapshot tree)
    ∀ y ∈ all.drop (all.length - maxCompleted), ∀ x ∈ all.take (all.length - maxCompleted), y.before x

theorem mem_left_iff {p : CheckpointStore} {d : Summary}
    (hleft : s'.completed = p.completed.filter fun d => d ∉ p.listed.drop maxCompleted) :
    d ∈ s'.listed ↔ d ∈ p.listed.take maxCompleted := by
  have hnodup := p.listed_perm.nodup_iff.mpr p.completed_nodup
  rw [s'.listed_perm.mem_iff, hleft, List.mem_filter, ← p.listed_perm.mem_iff, decide_eq_true_iff]
  constructor
  · rintro ⟨hd, hdrop⟩
    exact (List.mem_take_or_mem_drop _ hd).resolve_right hdrop
  · intro hd
    exact ⟨List.mem_of_mem_take hd, fun hdrop => List.disjoint_take_drop hnodup (Nat.le_refl _) hd hdrop⟩

/-- The new checkpoint is one of the five last. -/
theorem mem_last (s : CheckpointStore) (c : Summary) :
    c ∈ (s.published c).drop ((s.published c).length - maxCompleted) := by
  have hlen : (s.published c).length - maxCompleted ≤ s.completed.length := by
    simp [published, maxCompleted]
  have hdrop := @List.drop_append_of_le_length _ s.completed [c] _ hlen
  change c ∈ (s.completed ++ [c]).drop _
  rw [hdrop]
  simp

theorem retains_iff_lastFirst (h : (create a).run s = (.ok c, s')) : Retains s c s' ↔ LastFirst s a := by
  have hcreated : Created a s c s' := by
    have hwp := create_wp a s
    unfold wp at hwp
    rw [h] at hwp
    exact hwp.2 c rfl
  obtain ⟨⟨tree, htree, hc⟩, p, hp, hleft⟩ := hcreated
  have hmem := fun d => mem_left_iff (d := d) hleft
  have hnodup : (s.published c).Nodup := hp ▸ p.completed_nodup
  have hperm : p.listed.Perm (s.published c) := hp ▸ p.listed_perm
  have hfirst := List.first_iff_last (n := maxCompleted) hperm hnodup p.listed_pairwise
    fun a b => Summary.before_asymm
  have hlater := List.later_than_iff (n := maxCompleted) hperm hnodup
  have hcond : LastFirst s a ↔ ∀ x ∈ p.listed.take maxCompleted,
      x ∈ (s.published c).drop ((s.published c).length - maxCompleted) := by
    rw [hfirst, hc]
    exact ⟨fun hl => hl tree htree, fun hl tree' htree' => by cases htree.symm.trans htree'; exact hl⟩
  rw [hcond]
  constructor
  · intro hr
    refine hlater.mp fun r hr' k hk => hr.inOrder r (hperm.mem_iff.mp (List.mem_of_mem_drop hr')) ?_ k ((hmem k).mpr hk)
    rw [hmem]
    exact fun ht => List.disjoint_take_drop (hperm.nodup_iff.mpr hnodup) (Nat.le_refl _) ht hr'
  · intro hl
    refine ⟨?_, ?_, fun r hr hout k hk => ?_⟩
    · -- the five first listed are the five last created, so the new one is among them
      rw [hmem]
      by_contra hout
      obtain ⟨y, hy, hys⟩ := List.exists_not_mem_of_length_eq
        (hnodup.sublist (List.drop_sublist _ _))
        ((hperm.nodup_iff.mpr hnodup).sublist (List.take_sublist _ _))
        (List.length_take_eq_drop hperm).symm (mem_last s c) hout
      exact hys (hl y hy)
    · have hsub : s'.listed ⊆ p.listed.take maxCompleted := fun d hd => (hmem d).mp hd
      have hle := (List.subperm_of_subset (s'.listed_perm.nodup_iff.mpr s'.completed_nodup) hsub).length_le
      exact hle.trans (List.length_take_le _ _)
    · rw [hmem] at hk hout
      exact hlater.mpr hl r
        ((List.mem_take_or_mem_drop _ (hperm.mem_iff.mpr hr)).resolve_left hout) k hk

/-- **What a create that succeeds retains** is what it should iff the five last created are listed first. -/
theorem create_retains_iff (a : Attempt) (s s' : CheckpointStore) (c : Summary)
    (h : (create a).run s = (.ok c, s')) : Retains s c s' ↔ LastFirst s a := retains_iff_lastFirst h

/-- Five checkpoints are there when the wall clock is set back, and the sixth is taken. -/
def setBack : CheckpointStore where
  completed := [1, 2, 3, 4, 5].map fun n =>
    { id := "cp-9-" ++ toString n, createdAtMs := 1000 + n, label := "", files := 3, bytes := 40 }
  distinct := by decide

def afterSetBack : Attempt where
  label := "before the edit"
  scanned := .ok { files := 3, bytes := 40 }
  highResolution := 9
  sequence := 6
  wallClockMs := 999

theorem create_setBack : (create afterSetBack).run setBack =
    (.ok (afterSetBack.snapshot { files := 3, bytes := 40 }), ((create afterSetBack).run setBack).2) := by
  refine Prod.ext (Except.toOption_eq_some.mp ?_) rfl
  decide

theorem create_retains_iff_setBack :
    Retains setBack (afterSetBack.snapshot { files := 3, bytes := 40 }) ((create afterSetBack).run setBack).2 ↔
      LastFirst setBack afterSetBack := create_retains_iff _ _ _ _ create_setBack

/-- The checkpoint that was just reported is the one that goes. -/
theorem reported_checkpoint_removed :
    ¬ ∀ (a : Attempt) (s s' : CheckpointStore) (c : Summary),
      (create a).run s = (.ok c, s') → Retains s c s' := by
  intro hall
  have hlisted := (hall _ _ _ _ create_setBack).listed
  revert hlisted
  decide

/-! ### Runs with a clock that advances -/

/-- Each checkpoint is listed before those created earlier. -/
def Ascending (s : CheckpointStore) : Prop := s.completed.Pairwise fun x y => y.before x

/-- The readings of the call are past those of every checkpoint there is. -/
def Advances (s : CheckpointStore) (a : Attempt) : Prop :=
  ∀ tree, a.scanned = .ok tree → ∀ x ∈ s.completed, (a.snapshot tree).before x

theorem published_pairwise (hs : Ascending s) (ha : Advances s a) {tree : Tree} (htree : a.scanned = .ok tree) :
    (s.published (a.snapshot tree)).Pairwise fun x y => y.before x := by
  refine List.pairwise_append.mpr ⟨hs, List.pairwise_singleton _ _, fun x hx y hy => ?_⟩
  rw [List.mem_singleton] at hy
  exact hy ▸ ha tree htree x hx

theorem lastFirst_of_advances (hs : Ascending s) (ha : Advances s a) : LastFirst s a :=
  fun _ htree _ hy _ hx => (published_pairwise hs ha htree).rel_of_mem_take_of_mem_drop hx hy

theorem ascending_of_grows (h : Grows a s s') (hs : Ascending s) (ha : Advances s a) : Ascending s' := by
  rcases h with hsub | ⟨tree, htree, hsub⟩
  · exact hs.sublist hsub
  · exact (published_pairwise hs ha htree).sublist hsub

def step (s : CheckpointStore) (a : Attempt) : Except Error Summary × CheckpointStore := (create a).run s

theorem step_ascending (s : CheckpointStore) (a : Attempt) (ha : Advances s a) (hs : Ascending s) :
    Ascending (step s a).2 := ascending_of_grows (create_wp a s).1 hs ha

/-- While the clock advances from call to call, every reported checkpoint is kept. -/
theorem retains_of_advancing {attempts : List Attempt} (hrun : Run.Along step Advances {} attempts)
    (ha : Advances (Run.exec step {} attempts) a)
    (h : (create a).run (Run.exec step {} attempts) = (.ok c, s')) :
    Retains (Run.exec step {} attempts) c s' := by
  have hs : Ascending (Run.exec step {} attempts) := Run.exec_of_along step_ascending hrun List.Pairwise.nil
  exact (retains_iff_lastFirst h).mpr (lastFirst_of_advances hs ha)

/-- The wall clock is right again, two seconds after a first checkpoint. -/
def afterSetForward : Attempt := { afterSetBack with sequence := 7, wallClockMs := 2999 }

theorem retains_of_advancing_setForward :
    Retains (Run.exec step {} [afterSetBack]) (afterSetForward.snapshot { files := 3, bytes := 40 })
      ((create afterSetForward).run (Run.exec step {} [afterSetBack])).2 := by
  have hcompleted : (Run.exec step {} [afterSetBack]).completed = [afterSetBack.snapshot { files := 3, bytes := 40 }] := by
    decide
  refine retains_of_advancing (Run.along_cons (fun _ _ x hx => ?_) trivial) (fun tree htree x hx => ?_)
    (Prod.ext (Except.toOption_eq_some.mp ?_) rfl)
  · cases hx
  · rw [hcompleted, List.mem_singleton] at hx
    cases htree
    subst hx
    decide
  · decide

end CheckpointStore
end Didi.Recovery
