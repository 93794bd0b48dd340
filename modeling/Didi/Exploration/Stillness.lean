import Mathlib.Data.List.Induction
import Didi.Exploration.Observe

/-!
# Stuck intervals are stillness

* `Quiet` : every probe that the frame reads was readable, and near its previous reading;
* `observe_spec` : what one frame does to the clock and the intervals;
* `Inv` : what holds of the run after the frames it observed, kept by each frame (`Inv.observe`);
* `stuck_is_still` : in every run the intervals are long enough, disjoint and in order, nothing moved in them up to the
  frame that closed them, and none is missed while the run goes on.
-/

namespace Didi.Exploration
open SceneExploration

/-- The last value that was read of a probe. -/
def previous (frames : List Frame) (i : Nat) : Option Rat :=
  frames.reverse.findSome? fun frame => frame.sample.readings[i]?.bind ExplorationReading.value

/-- A reading that is no movement, after the value that was read last. -/
def Near (epsilon : Rat) (last : Option Rat) (reading : ExplorationReading) : Prop :=
  ∃ value, reading.value = some value ∧ ∀ before, last = some before → |value - before| ≤ epsilon

/-- Every probe that the frame reads was readable, and near its previous reading. -/
def Quiet (request : SceneExplorationRequest) (before : List Frame) (frame : Frame) : Prop :=
  ∀ i < request.probes.length, ∀ reading, frame.sample.readings[i]? = some reading →
    Near request.movementEpsilon (previous before i) reading

theorem previous_concat (frames : List Frame) (frame : Frame) (i : Nat) :
    previous (frames ++ [frame]) i =
      (frame.sample.readings[i]?.bind ExplorationReading.value).or (previous frames i) := by
  rw [previous, List.reverse_append, List.reverse_singleton, List.singleton_append, List.findSome?_cons, previous]
  cases frame.sample.readings[i]?.bind ExplorationReading.value <;> rfl

/-! ## The readings of a frame -/

/-- What is tracked of a probe is what was read of it last. -/
def Tracks (tracked : Tracked) (last : Option Rat) : Prop := last = if tracked.seen then some tracked.last else none

section Readings
variable {epsilon : Rat} {tracked : Tracked} {last : Option Rat} {reading : ExplorationReading}

theorem observeReading_still (h : Tracks tracked last) :
    (observeReading epsilon tracked reading).1 = false ↔ Near epsilon last reading := by
  rw [Tracks] at h
  unfold observeReading Near
  cases hvalue : reading.value with
  | none => simp
  | some value =>
    cases hseen : tracked.seen with
    | false => simp [h, hseen]
    | true =>
      rw [hseen, if_pos rfl] at h
      by_cases hmoved : epsilon < |value - tracked.last| <;> simp [h, hmoved, not_lt.mp]

theorem observeReading_tracks (h : Tracks tracked last) :
    Tracks (observeReading epsilon tracked reading).2 (reading.value.or last) := by
  rw [Tracks] at h
  unfold observeReading Tracks
  cases hvalue : reading.value with
  | none =>
    rw [Option.none_or, h]
    by_cases herror : reading.readError = "" <;> simp [herror]
  | some value =>
    cases hseen : tracked.seen with
    | false => simp
    | true =>
      by_cases hmoved : epsilon < |value - tracked.last| <;> simp [hmoved]

theorem length_observeReadings (ts : List Tracked) (rs : List ExplorationReading) :
    (observeReadings epsilon ts rs).2.length = ts.length := by
  induction ts generalizing rs with
  | nil => cases rs <;> rfl
  | cons t ts ih =>
    cases rs with
    | nil => rfl
    | cons r rs => simp [observeReadings, ih]

theorem observeReadings_still (ts : List Tracked) (rs : List ExplorationReading) :
    (observeReadings epsilon ts rs).1 = false ↔
      ∀ (i : Nat) t r, ts[i]? = some t → rs[i]? = some r → (observeReading epsilon t r).1 = false := by
  induction ts generalizing rs with
  | nil => cases rs <;> simp [observeReadings]
  | cons t ts ih =>
    cases rs with
    | nil => simp [observeReadings]
    | cons r rs =>
      simp only [observeReadings, Bool.or_eq_false_iff, ih]
      constructor
      · rintro ⟨hhead, htail⟩ i t' r' ht hr
        cases i with
        | zero =>
          cases ht
          cases hr
          exact hhead
        | succ i => exact htail i t' r' ht hr
      · intro h
        exact ⟨h 0 t r rfl rfl, fun i => h (i + 1)⟩

theorem observeReadings_tracked (ts : List Tracked) (rs : List ExplorationReading) (i : Nat) :
    (observeReadings epsilon ts rs).2[i]? =
      ts[i]?.map fun t => (rs[i]?.map fun r => (observeReading epsilon t r).2).getD t := by
  induction ts generalizing rs i with
  | nil => cases rs <;> simp [observeReadings]
  | cons t ts ih =>
    cases rs with
    | nil => simp [observeReadings]
    | cons r rs =>
      cases i with
      | zero => rfl
      | succ i => simpa [observeReadings] using ih rs i

end Readings

/-! ## One frame -/

/-- The frame closes a stuck interval. -/
def closes (s : SceneExploration) (elapsedMs : Int) (moved : Bool) : Bool :=
  !moved && s.request.stuckMs ≤ elapsedMs - s.lastMovementMs

def roomLeft (s : SceneExploration) : Bool := s.intervals.length < kMaxExplorationStuckIntervals

/-- What a frame does to a run that goes on. -/
theorem observe_spec {s : SceneExploration} (hs : s.stopped = false) (frame : Frame) :
    let readings := observeReadings s.request.movementEpsilon s.tracked frame.sample.readings
    let closed := closes s frame.elapsedMs readings.1
    let after := (s.observe frame.elapsedMs frame.sample).2
    after.request = s.request ∧ after.tracked = readings.2 ∧
      after.lastMovementMs = (if readings.1 || closed then frame.elapsedMs else s.lastMovementMs) ∧
      after.intervals = (if closed && roomLeft s then
        s.intervals ++ [⟨s.lastMovementMs, frame.elapsedMs, slotAt s.request frame.elapsedMs⟩] else s.intervals) ∧
      after.intervalsTruncated = (s.intervalsTruncated || (closed && !roomLeft s)) := by
  unfold observe
  rw [hs, if_neg (by decide)]
  generalize hreadings : observeReadings s.request.movementEpsilon s.tracked frame.sample.readings = readings
  obtain ⟨moved, after⟩ := readings
  cases moved with
  | true =>
    simp [clock, count, closes, hreadings]
    split_ifs <;> simp
  | false =>
    by_cases hstuck : s.request.stuckMs ≤ frame.elapsedMs - s.lastMovementMs
    · by_cases hroom : s.intervals.length < kMaxExplorationStuckIntervals
      · simp [clock, count, closes, hreadings, hstuck, closeInterval, hroom, roomLeft]
        split_ifs <;> simp
      · simp [clock, count, closes, hreadings, hstuck, closeInterval, hroom, roomLeft]
        split_ifs <;> simp
    · simp [clock, count, closes, hreadings, hstuck]
      split_ifs <;> simp

/-! ## The invariant -/

/-- An interval that the last of these frames closed, with everything still since it began. -/
def Closed (request : SceneExplorationRequest) (observed : List Frame) (i : StuckInterval) : Prop :=
  ∃ before frame after, observed = before ++ frame :: after ∧ frame.elapsedMs = i.endedMs ∧
    (run request (before ++ [frame])).intervals = (run request before).intervals ++ [i] ∧
    ∀ a f b, before ++ [frame] = a ++ f :: b → i.startedMs < f.elapsedMs → Quiet request a f

/-- The times that the clock may run from, unless intervals were left out. -/
def Began (request : SceneExplorationRequest) (observed : List Frame) (intervals : List StuckInterval) (t : Int) : Prop :=
  t = 0 ∨ (∃ before frame after, observed = before ++ frame :: after ∧ ¬ Quiet request before frame ∧ frame.elapsedMs = t) ∨
    ∃ i ∈ intervals, i.endedMs = t

/-- What holds of a run after the frames that it observed. -/
structure Inv (request : SceneExplorationRequest) (observed : List Frame) (s : SceneExploration) : Prop where
  request_eq : s.request = request
  length_eq : s.tracked.length = request.probes.length
  tracks : ∀ (i : Nat) t, s.tracked[i]? = some t → Tracks t (previous observed i)
  began : s.intervalsTruncated = true ∨ Began request observed s.intervals s.lastMovementMs
  quiet : ∀ before frame after, observed = before ++ frame :: after → s.lastMovementMs < frame.elapsedMs →
    Quiet request before frame
  long : ∀ i ∈ s.intervals, request.stuckMs ≤ i.endedMs - i.startedMs
  closed : ∀ i ∈ s.intervals, Closed request observed i
  ended : ∀ i ∈ s.intervals, i.endedMs ≤ s.lastMovementMs
  ordered : s.intervals.Pairwise fun i j => i.endedMs ≤ j.startedMs

variable {request : SceneExplorationRequest} {observed : List Frame} {s : SceneExploration} {frame : Frame}

theorem inv_new (request : SceneExplorationRequest) : Inv request [] (.new request) where
  request_eq := rfl
  length_eq := List.length_map _
  tracks i t ht := by
    obtain ⟨_, -, rfl⟩ := Option.map_eq_some_iff.mp ((List.getElem?_map ..).symm.trans ht)
    rfl
  began := .inr (.inl rfl)
  quiet before frame after h := by simp at h
  long _ h := by cases h
  closed _ h := by cases h
  ended _ h := by cases h
  ordered := List.Pairwise.nil

/-- The frame moved exactly when it is not quiet. -/
theorem Inv.moved (h : Inv request observed s) (frame : Frame) :
    (observeReadings s.request.movementEpsilon s.tracked frame.sample.readings).1 = false ↔
      Quiet request observed frame := by
  rw [observeReadings_still, h.request_eq, Quiet]
  constructor
  · intro hstill i hi reading hreading
    obtain ⟨t, ht⟩ : ∃ t, s.tracked[i]? = some t := by
      rw [← h.length_eq] at hi
      exact ⟨_, List.getElem?_eq_getElem hi⟩
    exact (observeReading_still (h.tracks i t ht)).mp (hstill i t reading ht hreading)
  · intro hquiet i t reading ht hreading
    refine (observeReading_still (h.tracks i t ht)).mpr (hquiet i ?_ reading hreading)
    rw [← h.length_eq]
    exact (List.getElem?_eq_some_iff.mp ht).1

theorem Inv.tracks_concat (h : Inv request observed s) (frame : Frame) (i : Nat) (t : Tracked)
    (ht : (observeReadings s.request.movementEpsilon s.tracked frame.sample.readings).2[i]? = some t) :
    Tracks t (previous (observed ++ [frame]) i) := by
  rw [observeReadings_tracked] at ht
  obtain ⟨t', ht', rfl⟩ := Option.map_eq_some_iff.mp ht
  rw [previous_concat]
  have htracks := h.tracks i t' ht'
  cases frame.sample.readings[i]? with
  | none => exact htracks
  | some reading => exact observeReading_tracks htracks

theorem split_concat {a b : List Frame} {f : Frame} (h : observed ++ [frame] = a ++ f :: b) :
    (a = observed ∧ f = frame ∧ b = []) ∨ ∃ b', observed = a ++ f :: b' ∧ b = b' ++ [frame] := by
  rcases List.eq_nil_or_concat b with rfl | ⟨b', last, rfl⟩
  · obtain ⟨ha, hf⟩ := List.append_inj' h rfl
    cases hf
    exact .inl ⟨ha.symm, rfl, rfl⟩
  · rw [List.concat_eq_append, ← List.cons_append, ← List.append_assoc] at h
    obtain ⟨ha, hf⟩ := List.append_inj' h rfl
    cases hf
    exact .inr ⟨b', ha, List.concat_eq_append⟩

theorem Closed.mono {i : StuckInterval} (h : Closed request observed i) (later : List Frame) :
    Closed request (observed ++ later) i := by
  obtain ⟨before, frame, after, rfl, hrest⟩ := h
  exact ⟨before, frame, after ++ later, by simp, hrest⟩

theorem Began.mono {intervals : List StuckInterval} {t : Int} (h : Began request observed intervals t)
    (later : List Frame) (more : List StuckInterval) : Began request (observed ++ later) (intervals ++ more) t := by
  rcases h with h | ⟨before, frame, after, rfl, hrest⟩ | ⟨i, hi, h⟩
  · exact .inl h
  · exact .inr (.inl ⟨before, frame, after ++ later, by simp, hrest⟩)
  · exact .inr (.inr ⟨i, List.mem_append_left more hi, h⟩)

/-- An interval does not end after the frames that were observed. -/
theorem Inv.ended_le (h : Inv request observed s) (hmono : ∀ f ∈ observed, f.elapsedMs ≤ frame.elapsedMs)
    {i : StuckInterval} (hi : i ∈ s.intervals) : i.endedMs ≤ frame.elapsedMs := by
  obtain ⟨before, f, after, rfl, hf, -⟩ := h.closed i hi
  rw [← hf]
  exact hmono f (by simp)

/-- The parts of the invariant that one frame keeps whatever it does. -/
theorem Inv.kept (h : Inv request observed s) (hs : s.stopped = false) (frame : Frame) :
    let after := (s.observe frame.elapsedMs frame.sample).2
    after.request = request ∧ after.tracked.length = request.probes.length ∧
      ∀ (i : Nat) t, after.tracked[i]? = some t → Tracks t (previous (observed ++ [frame]) i) := by
  obtain ⟨hrequest, htracked, -⟩ := observe_spec hs frame
  refine ⟨hrequest.trans h.request_eq, ?_, fun i t ht => h.tracks_concat frame i t ?_⟩
  · rw [htracked, length_observeReadings, h.length_eq]
  · rwa [← htracked]

/-- Behind the clock's restart there is no frame yet. -/
theorem quiet_restart (hmono : ∀ f ∈ observed, f.elapsedMs ≤ frame.elapsedMs) {before after : List Frame} {f : Frame}
    (hsplit : observed ++ [frame] = before ++ f :: after) : ¬ frame.elapsedMs < f.elapsedMs := by
  rcases split_concat hsplit with ⟨-, rfl, -⟩ | ⟨after', rfl, -⟩
  · exact lt_irrefl _
  · exact not_lt.mpr (hmono f (by simp))

/-- Since the clock began every frame up to a quiet one is quiet. -/
theorem Inv.quiet_concat (h : Inv request observed s) (hquiet : Quiet request observed frame)
    {before after : List Frame} {f : Frame} (hsplit : observed ++ [frame] = before ++ f :: after)
    (hlt : s.lastMovementMs < f.elapsedMs) : Quiet request before f := by
  rcases split_concat hsplit with ⟨rfl, rfl, -⟩ | ⟨after', hobserved, -⟩
  · exact hquiet
  · exact h.quiet before f after' hobserved hlt

theorem Inv.observe (h : Inv request observed s) (hs : s.stopped = false) (hrun : run request observed = s)
    (hmono : ∀ f ∈ observed, f.elapsedMs ≤ frame.elapsedMs) :
    Inv request (observed ++ [frame]) (s.observe frame.elapsedMs frame.sample).2 := by
  obtain ⟨hrequest, hlength, htracks⟩ := h.kept hs frame
  obtain ⟨-, -, hclock, hintervals, htruncated⟩ := observe_spec hs frame
  have hmoved := h.moved frame
  have hafter : run request (observed ++ [frame]) = (s.observe frame.elapsedMs frame.sample).2 := by
    rw [run, List.foldl_append, ← run, hrun]
    rfl
  generalize (s.observe frame.elapsedMs frame.sample).2 = after at *
  generalize (observeReadings s.request.movementEpsilon s.tracked frame.sample.readings).1 = moved at *
  have hclosed : ∀ i ∈ s.intervals, Closed request (observed ++ [frame]) i := fun i hi => (h.closed i hi).mono [frame]
  cases moved with
  | true =>
    have hquiet : ¬ Quiet request observed frame := fun hquiet => absurd (hmoved.mpr hquiet) (by decide)
    simp only [closes, Bool.not_true, Bool.false_and, Bool.or_false, if_true, Bool.false_eq_true, if_false]
      at hclock hintervals htruncated
    refine ⟨hrequest, hlength, htracks, .inr (.inr (.inl ⟨observed, frame, [], rfl, hquiet, hclock.symm⟩)), ?_, ?_,
      ?_, ?_, ?_⟩
    · intro before f after' hsplit hlt
      exact absurd (hclock ▸ hlt) (quiet_restart hmono hsplit)
    · exact hintervals ▸ h.long
    · exact hintervals ▸ hclosed
    · intro i hi
      rw [hclock]
      exact h.ended_le hmono (hintervals ▸ hi)
    · exact hintervals ▸ h.ordered
  | false =>
    have hquiet : Quiet request observed frame := hmoved.mp rfl
    by_cases hstuck : s.request.stuckMs ≤ frame.elapsedMs - s.lastMovementMs
    · have hcloses : closes s frame.elapsedMs false = true := by simp [closes, hstuck]
      simp only [hcloses, Bool.or_true, if_true, Bool.true_and] at hclock hintervals htruncated
      cases hroom : roomLeft s with
      | false =>
        simp only [hroom, Bool.false_eq_true, if_false, Bool.not_false, Bool.or_true] at hintervals htruncated
        refine ⟨hrequest, hlength, htracks, .inl htruncated, ?_, hintervals ▸ h.long, hintervals ▸ hclosed, ?_,
          hintervals ▸ h.ordered⟩
        · intro before f after' hsplit hlt
          exact absurd (hclock ▸ hlt) (quiet_restart hmono hsplit)
        · intro i hi
          rw [hclock]
          exact h.ended_le hmono (hintervals ▸ hi)
      | true =>
        simp only [hroom, if_true] at hintervals
        generalize hinterval : (⟨s.lastMovementMs, frame.elapsedMs, slotAt s.request frame.elapsedMs⟩ : StuckInterval) =
          interval at hintervals
        have hstarted : interval.startedMs = s.lastMovementMs := by rw [← hinterval]
        have hended : interval.endedMs = frame.elapsedMs := by rw [← hinterval]
        refine ⟨hrequest, hlength, htracks, .inr (.inr (.inr ⟨interval, ?_, ?_⟩)), ?_, ?_, ?_, ?_, ?_⟩
        · rw [hintervals]
          simp
        · rw [hclock, hended]
        · intro before f after' hsplit hlt
          exact absurd (hclock ▸ hlt) (quiet_restart hmono hsplit)
        · intro i hi
          rw [hintervals] at hi
          rcases List.mem_append.mp hi with hi | hi
          · exact h.long i hi
          · rw [List.mem_singleton.mp hi, hstarted, hended, ← h.request_eq]
            exact hstuck
        · intro i hi
          rw [hintervals] at hi
          rcases List.mem_append.mp hi with hi | hi
          · exact hclosed i hi
          · rw [List.mem_singleton.mp hi]
            refine ⟨observed, frame, [], rfl, hended.symm, by rw [hafter, hrun, hintervals], ?_⟩
            intro a f b hsplit hlt
            exact h.quiet_concat hquiet hsplit (hstarted ▸ hlt)
        · intro i hi
          rw [hintervals] at hi
          rw [hclock]
          rcases List.mem_append.mp hi with hi | hi
          · exact h.ended_le hmono hi
          · rw [List.mem_singleton.mp hi, hended]
        · rw [hintervals, List.pairwise_append]
          refine ⟨h.ordered, List.pairwise_singleton _ _, fun i hi j hj => ?_⟩
          rw [List.mem_singleton.mp hj, hstarted]
          exact h.ended i hi
    · have hcloses : closes s frame.elapsedMs false = false := by simp [closes, hstuck]
      simp only [hcloses, Bool.or_false, Bool.false_eq_true, if_false, Bool.false_and] at hclock hintervals htruncated
      refine ⟨hrequest, hlength, htracks, ?_, ?_, hintervals ▸ h.long, hintervals ▸ hclosed, ?_, hintervals ▸ h.ordered⟩
      · rw [htruncated, hintervals, hclock]
        refine h.began.imp_right fun h => ?_
        simpa using h.mono [frame] []
      · intro before f after' hsplit hlt
        exact h.quiet_concat hquiet hsplit (hclock ▸ hlt)
      · rw [hintervals, hclock]
        exact h.ended

/-! ## Whole runs -/

theorem run_concat (request : SceneExplorationRequest) (frames : List Frame) (frame : Frame) :
    run request (frames ++ [frame]) = ((run request frames).observe frame.elapsedMs frame.sample).2 := by
  rw [run, List.foldl_append]
  rfl

theorem observe_of_stopped (hs : s.stopped = true) (frame : Frame) :
    (s.observe frame.elapsedMs frame.sample).2 = s := by
  rw [SceneExploration.observe, if_pos hs]

/-- The run is that of the frames it observed, which are all of them unless it stopped. -/
theorem inv_run (frames : List Frame) (hmono : frames.Pairwise fun f g => f.elapsedMs ≤ g.elapsedMs) :
    ∃ observed later, frames = observed ++ later ∧ run request frames = run request observed ∧
      Inv request observed (run request observed) ∧ ((run request observed).stopped = false → later = []) := by
  induction frames using List.reverseRecOn with
  | nil => exact ⟨[], [], rfl, rfl, inv_new request, fun _ => rfl⟩
  | append_singleton frames frame ih =>
    obtain ⟨hframes, -, hlast⟩ := List.pairwise_append.mp hmono
    obtain ⟨observed, later, rfl, hrun, hinv, hall⟩ := ih hframes
    cases hs : (run request observed).stopped with
    | true =>
      refine ⟨observed, later ++ [frame], List.append_assoc _ _ _, ?_, hinv, fun h => ?_⟩
      · rw [run_concat, hrun, observe_of_stopped hs]
      · rw [hs] at h
        cases h
    | false =>
      obtain rfl := hall hs
      rw [List.append_nil] at hrun hlast ⊢
      refine ⟨observed ++ [frame], [], (List.append_nil _).symm, rfl, ?_, fun _ => rfl⟩
      rw [run_concat]
      exact hinv.observe hs rfl fun f hf => hlast f hf frame (List.mem_singleton_self _)

/-- A still frame that is late enough closes an interval. -/
theorem Inv.records (h : Inv request observed s) (hs : s.stopped = false) (hquiet : Quiet request observed frame) {b : Int}
    (hb : ∀ t, Began request observed s.intervals t → t ≤ b) (hstuck : request.stuckMs ≤ frame.elapsedMs - b) :
    let after := (s.observe frame.elapsedMs frame.sample).2
    after.intervalsTruncated = true ∨ ∃ i ∈ after.intervals, i.endedMs = frame.elapsedMs := by
  obtain ⟨-, -, -, hintervals, htruncated⟩ := observe_spec hs frame
  rw [(h.moved frame).mpr hquiet] at hintervals htruncated
  dsimp only
  rw [hintervals, htruncated]
  rcases h.began with hbegan | hbegan
  · exact .inl (by rw [hbegan, Bool.true_or])
  · have hcloses : closes s frame.elapsedMs false = true := by
      have hle := hb _ hbegan
      rw [closes, h.request_eq, Bool.not_false, Bool.true_and]
      exact decide_eq_true (by omega)
    rw [hcloses]
    cases roomLeft s with
    | false => exact .inl (by simp)
    | true => exact .inr ⟨⟨s.lastMovementMs, frame.elapsedMs, slotAt s.request frame.elapsedMs⟩, by simp, rfl⟩

/-- The intervals of every run. -/
theorem stuck_is_still (request : SceneExplorationRequest) (frames : List Frame)
    (hmono : frames.Pairwise fun f g => f.elapsedMs ≤ g.elapsedMs) :
    (∀ i ∈ (run request frames).intervals, request.stuckMs ≤ i.endedMs - i.startedMs) ∧
    ((run request frames).intervals.Pairwise fun i j => i.endedMs ≤ j.startedMs) ∧
    (∀ i ∈ (run request frames).intervals, Closed request frames i) ∧
    ∀ before frame after b, frames = before ++ frame :: after → (run request before).stopped = false →
      Quiet request before frame → (∀ t, Began request before (run request before).intervals t → t ≤ b) →
      request.stuckMs ≤ frame.elapsedMs - b →
      (run request (before ++ [frame])).intervalsTruncated = true ∨
        ∃ i ∈ (run request (before ++ [frame])).intervals, i.endedMs = frame.elapsedMs := by
  obtain ⟨observed, later, rfl, hrun, hinv, -⟩ := @inv_run request frames hmono
  rw [hrun]
  refine ⟨hinv.long, hinv.ordered, fun i hi => (hinv.closed i hi).mono later, ?_⟩
  intro before frame after b hsplit hs hquiet hb hstuck
  rw [hsplit] at hmono
  obtain ⟨seen, more, rfl, hbefore, hseen, hall⟩ := @inv_run request before (List.pairwise_append.mp hmono).1
  obtain rfl := hall (hbefore ▸ hs)
  rw [List.append_nil] at hs hquiet hb ⊢
  rw [run_concat]
  exact hseen.records hs hquiet hb hstuck

def sampleRequest : SceneExplorationRequest :=
  { stuckMs := 100, pauseOnStuck := false, actions := ["jump"], probes := [{ name := "x", expression := "x" }] }

def frameAt (elapsedMs : Int) (value : Rat) (engineErrors : Int) : Frame :=
  ⟨elapsedMs, [{ value := some value }], engineErrors⟩

/-- A run that stands still from 50 to 150. -/
theorem stuck_is_still_run :
    (run sampleRequest [frameAt 0 1 0, frameAt 50 2 0, frameAt 150 2 0]).intervals = [⟨50, 150, 0⟩] ∧
    ∀ i ∈ (run sampleRequest [frameAt 0 1 0, frameAt 50 2 0, frameAt 150 2 0]).intervals,
      Closed sampleRequest [frameAt 0 1 0, frameAt 50 2 0, frameAt 150 2 0] i :=
  ⟨by decide +kernel, (stuck_is_still sampleRequest [frameAt 0 1 0, frameAt 50 2 0, frameAt 150 2 0]
    (by decide)).2.2.1⟩

/-- A frame at the end of an interval may still move, when it comes after the one that closed it; and a run that has
stopped records nothing more. -/
theorem not_stuck_is_still : ¬ (∀ request frames, 0 < request.actionHoldMs → 0 < request.stuckMs →
      (frames.Pairwise fun f g : Frame => f.elapsedMs ≤ g.elapsedMs) → ∀ i ∈ (run request frames).intervals,
        ∀ before frame after, frames = before ++ frame :: after → i.startedMs < frame.elapsedMs →
          frame.elapsedMs ≤ i.endedMs → Quiet request before frame) ∧
    ¬ (∀ request frames, 0 < request.actionHoldMs → 0 < request.stuckMs →
      (frames.Pairwise fun f g : Frame => f.elapsedMs ≤ g.elapsedMs) → ∀ before frame after b,
        frames = before ++ frame :: after → Quiet request before frame →
        (∀ t, Began request before (run request before).intervals t → t ≤ b) →
        request.stuckMs ≤ frame.elapsedMs - b →
        (run request (before ++ [frame])).intervalsTruncated = true ∨
          ∃ i ∈ (run request (before ++ [frame])).intervals, i.endedMs = frame.elapsedMs) := by
  constructor
  · intro h
    have hquiet := h sampleRequest [frameAt 100 0 0, frameAt 100 5 0] (by decide) (by decide) (by decide) ⟨0, 100, 0⟩
      (by decide +kernel) [frameAt 100 0 0] (frameAt 100 5 0) [] rfl (by decide) (by decide)
    obtain ⟨value, hvalue, hnear⟩ := hquiet 0 (by decide) { value := some 5 } rfl
    cases hvalue
    exact absurd (hnear 0 rfl) (by decide +kernel)
  · intro h
    have hrecorded := h sampleRequest [frameAt 0 1 1, frameAt 100 1 1] (by decide) (by decide) (by decide)
      [frameAt 0 1 1] (frameAt 100 1 1) [] 0 rfl ?_ ?_ (by decide)
    · exact absurd hrecorded (by decide)
    · intro i hi reading hreading
      obtain rfl : i = 0 := Nat.lt_one_iff.mp hi
      cases hreading
      refine ⟨1, rfl, fun before hbefore => ?_⟩
      cases hbefore
      decide +kernel
    · have hnone : (run sampleRequest [frameAt 0 1 1]).intervals = [] := by decide
      rintro t (rfl | ⟨before, f, after, hsplit, -, rfl⟩ | ⟨i, hi, -⟩)
      · exact le_refl _
      · have hf : f ∈ [frameAt 0 1 1] := hsplit ▸ (by simp)
        rw [List.mem_singleton.mp hf]
        exact le_refl _
      · rw [hnone] at hi
        cases hi

end Didi.Exploration
