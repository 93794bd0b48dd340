import Didi.Index.Shared
import Mathlib.Order.Lattice

/-!
# When the shared index is fresh

* `AtLeast` : readings that no write below a floor has missed;
* `Fresh` : every answer is so for the writes that an invalidation had covered when the call began;
* `Inv` : the memo is so for what the memo was cleared of, the cache for what the cache was cleared of, and each scan
  for the floor of its call;
* `fresh_of_keepsFresh` : every answer of a run is fresh, when no step of the run keeps a reading that an invalidation
  has cleared;
* `stale_store` : a scan that a write and its invalidation pass by stores what they cleared.
-/

namespace Didi.Index
variable {facts : FileFacts} {floor : Path → Nat}

/-- No write that the floor counts came after these readings. -/
def AtLeast (floor : Path → Nat) (readings : List Reading) : Prop := ∀ r ∈ readings, floor r.path ≤ r.version

theorem AtLeast.mono {floor floor' : Path → Nat} {readings : List Reading} (h : AtLeast floor readings)
    (hle : floor' ≤ floor) : AtLeast floor' readings := fun r hr => (hle r.path).trans (h r hr)

theorem atLeast_nil (floor : Path → Nat) : AtLeast floor [] := List.forall_mem_nil _

theorem atLeast_append {readings readings' : List Reading} :
    AtLeast floor (readings ++ readings') ↔ AtLeast floor readings ∧ AtLeast floor readings' :=
  List.forall_mem_append

theorem atLeast_now {floor written : Path → Nat} (h : floor ≤ written) (p : Path) : AtLeast floor [⟨p, written p⟩] :=
  fun r hr => by
    rw [List.mem_singleton.mp hr]
    exact h p

/-- Every answer has of each file a reading that came after the writes an invalidation had covered when its call
began. -/
def Fresh (s : State) : Prop := ∀ c floor index, s.calls c = .answered floor index → AtLeast floor index.readings

instance (floor : Path → Nat) (readings : List Reading) : Decidable (AtLeast floor readings) :=
  inferInstanceAs (Decidable (∀ r ∈ readings, floor r.path ≤ r.version))

/-- What a step keeps, in the memo or in the cache, was not read before a write whose invalidation has cleared them
since. -/
def keepsFresh (s : State) : Act → Bool
  | .remember c =>
    match s.calls c with
    | .scanning _ walk =>
      match walk.readOut with
      | some (_, some _, facts) => decide (AtLeast s.memoFloor facts.readings)
      | _ => true
    | _ => true
  | .store c =>
    match s.calls c with
    | .scanning _ walk => !walk.isDone || decide (AtLeast s.cacheFloor walk.toIndex.readings)
    | _ => true
  | _ => true

theorem keepsFresh_remember {s : State} {c : Nat} {walk : Walk} {looking : Looking} {stamps : Stamps}
    (h : keepsFresh s (.remember c)) (hc : s.calls c = .scanning floor walk)
    (hout : walk.readOut = some (looking, some stamps, facts)) : AtLeast s.memoFloor facts.readings := by
  simpa [keepsFresh, hc, hout] using h

theorem keepsFresh_store {s : State} {c : Nat} {walk : Walk} (h : keepsFresh s (.store c))
    (hc : s.calls c = .scanning floor walk) (hdone : walk.isDone) : AtLeast s.cacheFloor walk.toIndex.readings := by
  simpa [keepsFresh, hc, hdone] using h

/-! ### The invariant -/

/-- What a call has read, no write that its floor counts came after. -/
def Call.Sound (returned : Path → Nat) : Call → Prop
  | .idle => True
  | .begun floor _ _ => floor ≤ returned
  | .scanning floor walk => floor ≤ returned ∧ AtLeast floor walk.readings
  | .answered floor index => AtLeast floor index.readings

def Invalidation.Sound (written memoFloor : Path → Nat) : Invalidation → Prop
  | .idle => True
  | .begun before => before ≤ written
  | .memoCleared before => before ≤ memoFloor

structure Inv (s : State) : Prop where
  memo : ∀ e ∈ s.memo, AtLeast s.memoFloor e.2.facts.readings
  cache : ∀ e ∈ s.cache, AtLeast s.cacheFloor e.2.index.readings
  returnedMemo : s.returnedFloor ≤ s.memoFloor
  returnedCache : s.returnedFloor ≤ s.cacheFloor
  memoWritten : s.memoFloor ≤ s.written
  calls : ∀ c, (s.calls c).Sound s.returnedFloor
  invalidations : ∀ i, (s.invalidations i).Sound s.written s.memoFloor

/-! ### The scan -/

section Walk
variable {written : Path → Nat} {disk : Disk} {w : Walk}

theorem toIndex_readings (h : AtLeast floor w.readings) : AtLeast floor w.toIndex.readings := by
  intro r hr
  refine (atLeast_append.mp h).1 r ?_
  rw [Walk.indexed, List.mem_append]
  refine (List.mem_append.mp hr).imp_right fun hr => ?_
  obtain ⟨info, hinfo, hr⟩ := List.mem_flatMap.mp hr
  exact List.mem_flatMap.mpr ⟨info, (List.mem_insertionSort _).mp hinfo, hr⟩

/-- What is at hand is read on top of what the index has. -/
theorem atLeast_readings :
    AtLeast floor w.readings ↔ AtLeast floor w.indexed ∧ ∀ looking ∈ w.looking, AtLeast floor looking.readings := by
  rw [Walk.readings, atLeast_append]
  refine and_congr_right fun _ => ?_
  cases w.looking with
  | none => simp [atLeast_nil]
  | some looking => simp

theorem push_atLeast {looking : Looking} {stamps : Option Stamps} (h : AtLeast floor w.indexed)
    (hstat : AtLeast floor looking.stat) (hfacts : AtLeast floor facts.readings) :
    AtLeast floor (w.push looking stamps facts).readings := by
  refine atLeast_readings.mpr ⟨?_, by simp [Walk.push]⟩
  rw [Walk.indexed, Walk.push, List.flatMap_append, List.flatMap_singleton, ← List.append_assoc]
  exact atLeast_append.mpr ⟨h, atLeast_append.mpr ⟨hstat, hfacts⟩⟩

theorem visit_atLeast (hle : floor ≤ written) (h : AtLeast floor w.readings) :
    AtLeast floor (w.visit disk written).readings := by
  obtain ⟨hindexed, hlooking⟩ := atLeast_readings.mp h
  unfold Walk.visit
  split
  · rename_i p pending hnone hpending
    split
    · split_ifs
      · exact atLeast_readings.mpr ⟨hindexed, hlooking⟩
      · refine atLeast_readings.mpr ⟨?_, hlooking⟩
        obtain ⟨hlistings, hresources⟩ := atLeast_append.mp hindexed
        exact atLeast_append.mpr ⟨atLeast_append.mpr ⟨hlistings, atLeast_now hle p⟩, hresources⟩
    · split_ifs
      · exact atLeast_readings.mpr ⟨hindexed, hlooking⟩
      · refine atLeast_readings.mpr ⟨hindexed, ?_⟩
        rintro looking ⟨⟩
        exact atLeast_nil _
    · exact atLeast_readings.mpr ⟨hindexed, hlooking⟩
  · exact h

theorem stat_atLeast (hle : floor ≤ written) (h : AtLeast floor w.readings) :
    AtLeast floor (w.stat disk written).readings := by
  unfold Walk.stat
  split
  · rename_i p stat hlooking
    refine atLeast_readings.mpr ⟨(atLeast_readings.mp h).1, ?_⟩
    rintro looking ⟨⟩ r hr
    simp only [Looking.readings, Stage.readings, List.append_nil, List.mem_cons, List.not_mem_nil, or_false] at hr
    rcases hr with rfl | rfl | rfl <;> exact hle _
  · exact h

theorem recallFacts_atLeast {memo : Path → Stamps → Option FileFacts}
    (hmemo : ∀ p stamps facts, memo p stamps = some facts → AtLeast floor facts.readings)
    (h : AtLeast floor w.readings) : AtLeast floor (w.recallFacts memo).readings := by
  unfold Walk.recallFacts
  split
  · rename_i looking hlooking
    obtain ⟨hindexed, hat⟩ := atLeast_readings.mp h
    have hstat := (atLeast_append.mp (hat looking hlooking)).1
    split
    · split
      · rename_i facts hfacts
        obtain ⟨stamps, -, hfacts⟩ := Option.bind_eq_some_iff.mp hfacts
        exact push_atLeast hindexed hstat (hmemo _ _ _ hfacts)
      · refine atLeast_readings.mpr ⟨hindexed, ?_⟩
        rintro looking ⟨⟩
        exact atLeast_append.mpr ⟨hstat, atLeast_nil _⟩
    · exact h
  · exact h

theorem add_readings (scanners : Scanners) (facts : FileFacts) (part : Part) (node : Node) (reading : Reading) :
    (facts.add scanners part node reading).readings = facts.readings ++ [reading] := by
  unfold FileFacts.add
  cases part with
  | uidSidecar =>
    cases node.text with
    | none => rfl
    | some text =>
      simp only
      split <;> rfl
  | _ => cases node.text <;> rfl

theorem readPart_atLeast {scanners : Scanners} (hle : floor ≤ written) (h : AtLeast floor w.readings) :
    AtLeast floor (w.readPart scanners disk written).readings := by
  unfold Walk.readPart
  split
  · rename_i looking hlooking
    obtain ⟨hindexed, hat⟩ := atLeast_readings.mp h
    obtain ⟨hstat, hstage⟩ := atLeast_append.mp (hat looking hlooking)
    split
    · rename_i stamps part todo facts hreading
      rw [hreading] at hstage
      refine atLeast_readings.mpr ⟨hindexed, ?_⟩
      rintro looking ⟨⟩
      refine atLeast_append.mpr ⟨hstat, ?_⟩
      rw [Stage.readings, add_readings]
      exact atLeast_append.mpr ⟨hstage, atLeast_now hle _⟩
    · exact h
  · exact h

/-- What is read out of the scan was read in it. -/
theorem readOut_atLeast {looking : Looking} {stamps : Option Stamps} (hout : w.readOut = some (looking, stamps, facts))
    (h : AtLeast floor w.readings) :
    AtLeast floor w.indexed ∧ AtLeast floor looking.stat ∧ AtLeast floor facts.readings := by
  obtain ⟨hindexed, hat⟩ := atLeast_readings.mp h
  unfold Walk.readOut at hout
  split at hout
  · rename_i at_ hlooking
    obtain ⟨hstat, hstage⟩ := atLeast_append.mp (hat _ hlooking)
    split at hout
    · rename_i hreading
      cases hout
      rw [hreading] at hstage
      exact ⟨hindexed, hstat, hstage⟩
    · cases hout
  · cases hout

theorem fail_atLeast (h : AtLeast floor w.readings) : AtLeast floor w.fail.readings :=
  atLeast_readings.mpr ⟨(atLeast_readings.mp h).1, by simp [Walk.fail]⟩

end Walk

theorem inv_initial (disk : Disk) : Inv { disk } where
  memo := List.forall_mem_nil _
  cache := List.forall_mem_nil _
  returnedMemo := le_refl _
  returnedCache := le_refl _
  memoWritten := le_refl _
  calls _ := trivial
  invalidations _ := trivial

theorem fresh_of_inv {s : State} (h : Inv s) : Fresh s := fun c floor index hc => by
  have hcall := h.calls c
  rwa [hc] at hcall

theorem Call.Sound.mono {returned returned' : Path → Nat} {call : Call} (h : call.Sound returned)
    (hle : returned ≤ returned') : call.Sound returned' := by
  cases call with
  | idle => trivial
  | begun floor root now => exact h.trans hle
  | scanning floor walk => exact ⟨h.1.trans hle, h.2⟩
  | answered floor index => exact h

theorem Invalidation.Sound.mono {written written' memoFloor memoFloor' : Path → Nat} {invalidation : Invalidation}
    (h : invalidation.Sound written memoFloor) (hw : written ≤ written') (hm : memoFloor ≤ memoFloor') :
    invalidation.Sound written' memoFloor' := by
  cases invalidation with
  | idle => trivial
  | begun before => exact h.trans hw
  | memoCleared before => exact h.trans hm

section Inv
variable {s : State} {c i : Nat}

theorem Inv.setCall (h : Inv s) {call : Call} (hcall : call.Sound s.returnedFloor) : Inv (s.setCall c call) where
  memo := h.memo
  cache := h.cache
  returnedMemo := h.returnedMemo
  returnedCache := h.returnedCache
  memoWritten := h.memoWritten
  calls c' := by
    by_cases hc : c' = c
    · simpa [State.setCall, hc] using hcall
    · simpa [State.setCall, hc] using h.calls c'
  invalidations := h.invalidations

theorem Inv.setInvalidation (h : Inv s) {invalidation : Invalidation}
    (hi : invalidation.Sound s.written s.memoFloor) : Inv (s.setInvalidation i invalidation) where
  memo := h.memo
  cache := h.cache
  returnedMemo := h.returnedMemo
  returnedCache := h.returnedCache
  memoWritten := h.memoWritten
  calls := h.calls
  invalidations j := by
    by_cases hj : j = i
    · simpa [State.setInvalidation, hj] using hi
    · simpa [State.setInvalidation, hj] using h.invalidations j

theorem Inv.walkStep (h : Inv s) {f : Walk → Walk}
    (hf : ∀ floor walk, floor ≤ s.returnedFloor → AtLeast floor walk.readings → AtLeast floor (f walk).readings) :
    Inv (s.walkStep c f) := by
  unfold State.walkStep
  split
  · rename_i floor walk hc
    have hcall := h.calls c
    rw [hc] at hcall
    exact h.setCall ⟨hcall.1, hf floor walk hcall.1 hcall.2⟩
  · exact h

theorem Inv.write (h : Inv s) (p : Path) (node : Node) : Inv { s with
    disk := Function.update s.disk p node
    written := Function.update s.written p (s.written p + 1) } := by
  have hle : s.written ≤ Function.update s.written p (s.written p + 1) :=
    le_update_iff.mpr ⟨Nat.le_succ _, fun _ _ => le_refl _⟩
  exact { h with
    memoWritten := h.memoWritten.trans hle
    invalidations := fun i => (h.invalidations i).mono hle (le_refl _) }

theorem Inv.begin (h : Inv s) (root : Path) : Inv (s.begin c root) := by
  unfold State.begin
  split
  · exact h.setCall (le_refl s.returnedFloor)
  · exact h

/-- A cached index came after what the cache was cleared of, so after the floor of the call. -/
theorem Inv.lookup (h : Inv s) : Inv (s.lookup c) := by
  unfold State.lookup
  split
  · rename_i floor root now hc
    have hcall := h.calls c
    rw [hc] at hcall
    have hscan : Inv (s.setCall c (.scanning floor { root, pending := [root] })) :=
      h.setCall ⟨hcall, atLeast_nil _⟩
    split
    · rename_i entry hentry
      split
      · exact h.setCall ((h.cache _ (List.mem_of_lookup hentry)).mono (hcall.trans h.returnedCache))
      · exact hscan
    · exact hscan
  · exact h

theorem lookupFileFacts_atLeast (h : Inv s) (hle : floor ≤ s.returnedFloor) {p : Path} {stamps : Stamps}
    (hfacts : lookupFileFacts s.memo p stamps = some facts) :
    AtLeast floor facts.readings := by
  unfold lookupFileFacts at hfacts
  split at hfacts
  · rename_i entry hentry
    split at hfacts
    · cases hfacts
      exact (h.memo _ (List.mem_of_lookup hentry)).mono (hle.trans h.returnedMemo)
    · cases hfacts
  · cases hfacts

/-- What the memo had, and what is remembered. -/
theorem mem_rememberFileFacts {memo : FileMemo} {p : Path} {stamps : Stamps} {e : Path × FileMemoEntry}
    (he : e ∈ rememberFileFacts memo p stamps facts) :
    e = (p, ⟨stamps, facts⟩) ∨ e ∈ memo := by
  refine (List.mem_insertKey he).imp_right fun he => ?_
  split at he
  · cases he
  · exact he

theorem Inv.remember (h : Inv s) (hkeep : keepsFresh s (.remember c)) : Inv (s.remember c) := by
  unfold State.remember
  split
  · rename_i floor walk hc
    have hcall := h.calls c
    rw [hc] at hcall
    split
    · rename_i looking stamps facts hout
      obtain ⟨hindexed, hstat, hfacts⟩ := readOut_atLeast hout hcall.2
      have hpushed : Call.Sound s.returnedFloor (.scanning floor (walk.push looking stamps facts)) :=
        ⟨hcall.1, push_atLeast hindexed hstat hfacts⟩
      cases stamps with
      | none => exact h.setCall hpushed
      | some stamps =>
        have hmemo : Inv { s with memo := rememberFileFacts s.memo looking.path stamps facts } := by
          refine { h with memo := fun e he => ?_ }
          rcases mem_rememberFileFacts he with rfl | he
          · exact keepsFresh_remember hkeep hc hout
          · exact h.memo e he
        exact hmemo.setCall hpushed
    · exact h
  · exact h

theorem Inv.store (h : Inv s) (hkeep : keepsFresh s (.store c)) : Inv (s.store c) := by
  unfold State.store
  split
  · rename_i floor walk hc
    have hcall := h.calls c
    rw [hc] at hcall
    split
    · rename_i hdone
      have hcache : Inv { s with cache := s.cache.insertKey walk.root ⟨walk.toIndex, s.clock⟩ } := by
        refine { h with cache := fun e he => ?_ }
        rcases List.mem_insertKey he with rfl | he
        · exact keepsFresh_store hkeep hc hdone
        · exact h.cache e he
      have hanswer : Call.Sound s.returnedFloor (.answered floor walk.toIndex) := toIndex_readings hcall.2
      exact hcache.setCall hanswer
    · exact h
  · exact h

theorem Inv.invalidate (h : Inv s) : Inv (s.invalidate i) := by
  unfold State.invalidate
  split
  · exact h.setInvalidation (le_refl s.written)
  · exact h

theorem Inv.clearFileMemo (h : Inv s) : Inv (s.clearFileMemo i) := by
  unfold State.clearFileMemo
  split
  · rename_i before hi
    have hbefore := h.invalidations i
    rw [hi] at hbefore
    refine Inv.setInvalidation ?_ (le_sup_right (a := s.memoFloor))
    exact { h with
      memo := List.forall_mem_nil _
      returnedMemo := h.returnedMemo.trans le_sup_left
      memoWritten := sup_le h.memoWritten hbefore
      invalidations := fun j => (h.invalidations j).mono (le_refl _) le_sup_left }
  · exact h

theorem Inv.clearCache (h : Inv s) : Inv (s.clearCache i) := by
  unfold State.clearCache
  split
  · rename_i before hi
    have hbefore := h.invalidations i
    rw [hi] at hbefore
    refine Inv.setInvalidation ?_ trivial
    exact { h with
      cache := List.forall_mem_nil _
      returnedMemo := sup_le h.returnedMemo hbefore
      returnedCache := sup_le_sup_right h.returnedCache before
      calls := fun c => (h.calls c).mono le_sup_left }
  · exact h

end Inv

/-- A step keeps the invariant, when it keeps no reading that an invalidation has cleared. -/
theorem Inv.next {s : State} {act : Act} (scanners : Scanners) (h : Inv s) (hkeep : keepsFresh s act) :
    Inv (s.next scanners act) := by
  have hwritten : s.returnedFloor ≤ s.written := h.returnedMemo.trans h.memoWritten
  cases act with
  | write p node => exact h.write p node
  | elapse ms => exact { h with }
  | call c root => exact h.begin root
  | lookup c => exact h.lookup
  | visit c => exact h.walkStep fun _ _ hle hw => visit_atLeast (hle.trans hwritten) hw
  | stat c => exact h.walkStep fun _ _ hle hw => stat_atLeast (hle.trans hwritten) hw
  | recallFacts c => exact h.walkStep fun _ _ hle hw => recallFacts_atLeast (fun _ _ _ => lookupFileFacts_atLeast h hle) hw
  | readPart c => exact h.walkStep fun _ _ hle hw => readPart_atLeast (hle.trans hwritten) hw
  | remember c => exact h.remember hkeep
  | failWalk c => exact h.walkStep fun _ _ _ hw => fail_atLeast hw
  | store c => exact h.store hkeep
  | invalidate i => exact h.invalidate
  | clearFileMemo i => exact h.clearFileMemo
  | clearCache i => exact h.clearCache

/-- Every answer of the run is fresh, in every state that it reaches. -/
theorem fresh_of_keepsFresh (scanners : Scanners) (disk : Disk) (acts : List Act)
    (h : Run.Along (step scanners) (fun s act => keepsFresh s act) { disk } acts) :
    Fresh (Run.exec (step scanners) { disk } acts) :=
  fresh_of_inv (Run.exec_of_along (fun _ _ hkeep hs => hs.next scanners hkeep) h (inv_initial disk))

/-! ### A scan that a write passes by -/

/-- Scanners to whom every text is of the same resource. -/
def oneResource : Scanners where
  headerUid _ := some "uid://a"
  sidecarUid _ := ""
  imported _ := {}
  dependencies _ := []
  declaredType _ := "Theme"

/-- A project of one file. -/
def oneFile (p : Path) : Node :=
  if p = "/p" then .directory ["/p/a.tres"]
  else if p = "/p/a.tres" then .file 1 40 "[gd_resource type=\"Theme\" uid=\"uid://a\"]"
  else .absent

/-- A call that scans the project. -/
def scanActs (c : Nat) : List Act :=
  [.call c "/p", .lookup c, .visit c, .visit c, .stat c, .recallFacts c, .readPart c, .readPart c, .readPart c,
    .remember c]

/-- The file is written, and the write is followed by an invalidation. -/
def writeActs : List Act :=
  [.write "/p/a.tres" (.file 2 40 "[gd_resource type=\"Curve\" uid=\"uid://a\"]"), .invalidate 0, .clearFileMemo 0,
    .clearCache 0]

/-- The scans keep nothing that the write replaced. -/
theorem fresh_after_write :
    Fresh (Run.exec (step oneResource) { disk := oneFile } (scanActs 0 ++ [.store 0] ++ writeActs ++ scanActs 1 ++
      [.store 1])) :=
  fresh_of_keepsFresh oneResource oneFile _ (by decide +kernel)

def Call.isStale : Call → Bool
  | .answered floor index => !decide (AtLeast floor index.readings)
  | _ => false

theorem not_isStale {s : State} {c : Nat} (h : Fresh s) : (s.calls c).isStale = false := by
  cases hc : s.calls c with
  | answered floor index => simp [Call.isStale, h c floor index hc]
  | _ => rfl

/-- The first call stores the index of what the write replaced, after the invalidation; the second is served it. -/
theorem stale_store : ¬ ∀ (scanners : Scanners) (disk : Disk) (acts : List Act),
    Fresh (Run.exec (step scanners) { disk } acts) := by
  intro h
  have hfresh := h oneResource oneFile (scanActs 0 ++ writeActs ++ [.store 0, .call 1 "/p", .lookup 1])
  have hstale : ((Run.exec (step oneResource) { disk := oneFile }
      (scanActs 0 ++ writeActs ++ [.store 0, .call 1 "/p", .lookup 1])).calls 1).isStale = true := by decide +kernel
  rw [not_isStale hfresh] at hstale
  cases hstale

end Didi.Index
