import Mathlib.Data.Rat.Floor
import Didi.Lib.Heap
import Mathlib.Algebra.Order.Group.Unbundled.Int

/-!
# The frames of one window

* `FrameTimingLog.add` : past its capacity the log keeps every second frame and records half as often, and the slowest
  frames are kept aside in a heap;
* `FrameTimingLog.slowest` : these, slowest first;
* `slowFrames` : the frames over twice the budget, counted, and the worst of them judged on their own parts;
* `sampled` : the elements whose index is a multiple of a stride; every second of them is every one of twice the stride
  (`everySecond_sampled`);
* `Inv` : what the log holds after some frames, kept by each call (`Inv.add`, `Inv.skip`);
* `samples_evenly` : after any run the frames are the sampled ones, the slowest are the largest of all, and the count of
  the slow frames is exact unless it says otherwise.

Times are milliseconds, each the rational that the double stands for; the rounding of sums and quotients is left out.
`heap` are the heap algorithms and the sort of the standard library.
-/

namespace Didi.Performance

structure FrameTiming where
  frameMs : Rat := 0
  physicsMs : Rat := 0
  processMs : Rat := 0
  drawMs : Rat := 0
  outsideMs : Rat := 0
  renderCpuMs : Rat := 0
  gpuMs : Rat := 0
  physicsTicks : Int := 0
  drawn : Bool := false

/-- Puts the faster frame on top of a heap. -/
abbrev fasterOnTop (a b : FrameTiming) : Prop := b.frameMs < a.frameMs

def kSlowestKept : Nat := 16

structure FrameTimingLog where
  capacity : Nat
  stride : Nat := 1
  seen : Nat := 0
  skipped : Nat := 0
  frames : List FrameTiming := []
  slowestKept : List FrameTiming := []

/-- Every second element, the first one included. -/
def everySecond {α : Type*} : List α → List α
  | [] => []
  | [a] => [a]
  | a :: _ :: rest => a :: everySecond rest

namespace FrameTimingLog

def new (capacity : Nat) : FrameTimingLog := { capacity := max capacity 2 }

variable (heap : HeapAlgorithms fasterOnTop)

/-- The slowest frames with one frame more. -/
def addSlowest (kept : List FrameTiming) (frame : FrameTiming) : List FrameTiming :=
  if kept.length < kSlowestKept then heap.pushHeap (kept ++ [frame])
  else
    match kept with
    | [] => kept
    | front :: _ =>
      if front.frameMs < frame.frameMs then heap.pushHeap ((heap.popHeap kept).dropLast ++ [frame]) else kept

/-- The frame of an index, where the stride records it. -/
def record (log : FrameTimingLog) (index : Nat) (frame : FrameTiming) : FrameTimingLog :=
  if index % log.stride ≠ 0 then log
  else if log.capacity ≤ log.frames.length then
    -- half as often from here
    let log := { log with frames := everySecond log.frames, stride := log.stride * 2 }
    if index % log.stride ≠ 0 then log else { log with frames := log.frames ++ [frame] }
  else { log with frames := log.frames ++ [frame] }

def add (log : FrameTimingLog) (frame : FrameTiming) : FrameTimingLog :=
  let log := { log with slowestKept := addSlowest heap log.slowestKept frame }
  record { log with seen := log.seen + 1 } log.seen frame

def skip (log : FrameTimingLog) : FrameTimingLog := { log with skipped := log.skipped + 1 }

def slowest (log : FrameTimingLog) : List FrameTiming := heap.sort log.slowestKept

/-- A frame callback: its marks described the frame that ended, or did not. -/
inductive Call
  | add (frame : FrameTiming)
  | skip

def Call.frame : Call → Option FrameTiming
  | .add frame => some frame
  | .skip => none

def step (log : FrameTimingLog) : Call → FrameTimingLog
  | .add frame => log.add heap frame
  | .skip => log.skip

/-- The log after these calls. -/
def run (capacity : Nat) (calls : List Call) : FrameTimingLog := calls.foldl (step heap) (new capacity)

end FrameTimingLog

/-! ## The slow frames -/

structure FrameBudget where
  ms : Rat := 0
  basis : String := ""
  separateRenderThread : Bool := false

def kLeadRatio : Rat := 5 / 4

def kExplainsFrame : Rat := 1 / 2

def kExplainsSome : Rat := 2 / 5

def kSlowFrameBudgets : Rat := 2

def kSlowFramesDescribed : Nat := 3

/-- To three places, halves away from zero. -/
def rounded (value : Rat) : Rat :=
  let thousandths := value * 1000
  (if 0 ≤ thousandths then ⌊thousandths + 1 / 2⌋ else ⌈thousandths - 1 / 2⌉ : Int) / 1000

structure SlowFrame where
  frameMs : Rat
  bound : String
  physicsMs : Rat
  processMs : Rat
  renderCpuMs : Rat
  gpuMs : Option Rat
  drawMs : Rat
  outsideMs : Rat
  physicsTicks : Int

/-- The side that bounds a frame. -/
def boundOf (frame : FrameTiming) (gpuMeasured separateRenderThread : Bool) : String :=
  let cpu := frame.physicsMs + frame.processMs + frame.renderCpuMs
  let gpu := if gpuMeasured && frame.drawn then frame.gpuMs else 0
  let cpuSide := if frame.processMs + frame.renderCpuMs ≤ frame.physicsMs then "physics" else "cpu"
  if !separateRenderThread && max cpu gpu < frame.outsideMs && frame.frameMs * kExplainsFrame ≤ frame.outsideMs then
    -- time before the main-thread frame is not measured work
    "unknown"
  else if 0 < gpu then
    if frame.frameMs * kExplainsSome ≤ max cpu gpu then
      if cpu ≤ gpu then if kLeadRatio ≤ gpu / max cpu (1 / 1000) then "gpu" else "contested"
      else if kLeadRatio ≤ cpu / max gpu (1 / 1000) then cpuSide else "contested"
    else "unknown"
  else if frame.frameMs * kExplainsFrame ≤ cpu then cpuSide
  else "unknown"

def slowFrame (frame : FrameTiming) (gpuMeasured separateRenderThread : Bool) : SlowFrame where
  frameMs := rounded frame.frameMs
  bound := boundOf frame gpuMeasured separateRenderThread
  physicsMs := rounded frame.physicsMs
  processMs := rounded frame.processMs
  renderCpuMs := rounded frame.renderCpuMs
  gpuMs := if gpuMeasured && frame.drawn then some (rounded frame.gpuMs) else none
  drawMs := rounded frame.drawMs
  outsideMs := rounded frame.outsideMs
  physicsTicks := frame.physicsTicks

structure SlowFrames where
  thresholdMs : Rat
  count : Nat
  worst : List SlowFrame
  atLeast : Bool

def thresholdOf (budget : FrameBudget) : Rat := kSlowFrameBudgets * budget.ms

def slowFrames (heap : HeapAlgorithms fasterOnTop) (log : FrameTimingLog) (budget : FrameBudget)
    (gpuMeasured : Bool) : SlowFrames :=
  -- slowest first, so the walk ends at the first that is not over
  let slower := (log.slowest heap).takeWhile (thresholdOf budget < ·.frameMs)
  { thresholdMs := rounded (thresholdOf budget)
    count := slower.length
    worst := (slower.take kSlowFramesDescribed).map (slowFrame · gpuMeasured budget.separateRenderThread)
    -- every frame kept aside was over, so more may have been
    atLeast := slower.length = kSlowestKept && slower.length < log.seen }

/-! ## Sampling -/

section Sampling
variable {α : Type*} {stride : Nat}

/-- The elements whose index is a multiple of the stride, the first index being `index`. -/
def sampledFrom (stride : Nat) : Nat → List α → List α
  | _, [] => []
  | index, a :: l => if index % stride = 0 then a :: sampledFrom stride (index + 1) l else sampledFrom stride (index + 1) l

def sampled (stride : Nat) (l : List α) : List α := sampledFrom stride 0 l

theorem sampledFrom_append (l m : List α) (index : Nat) :
    sampledFrom stride index (l ++ m) = sampledFrom stride index l ++ sampledFrom stride (index + l.length) m := by
  induction l generalizing index with
  | nil => rfl
  | cons a l ih =>
    rw [List.cons_append, sampledFrom, sampledFrom, ih, List.length_cons, Nat.add_right_comm, Nat.add_assoc]
    split_ifs <;> rfl

theorem sampled_concat (l : List α) (a : α) :
    sampled stride (l ++ [a]) = if l.length % stride = 0 then sampled stride l ++ [a] else sampled stride l := by
  rw [sampled, sampledFrom_append, Nat.zero_add]
  simp only [sampledFrom]
  split_ifs
  · rfl
  · exact List.append_nil _

theorem everySecond_cons (a : α) (l : List α) : everySecond (a :: l) = a :: everySecond l.tail := by
  cases l <;> rfl

theorem succ_mod (n : Nat) {m : Nat} (hm : 0 < m) : (n + 1) % m = if n % m + 1 = m then 0 else n % m + 1 := by
  have hlt := Nat.mod_lt n hm
  split_ifs with h
  · rw [← Nat.mod_add_mod, h, Nat.mod_self]
  · rw [← Nat.mod_add_mod, Nat.mod_eq_of_lt (by omega)]

theorem mod_stride (n : Nat) (hs : 0 < stride) :
    n % stride = if n % (stride * 2) < stride then n % (stride * 2) else n % (stride * 2) - stride := by
  have hlt := Nat.mod_lt n (Nat.mul_pos hs Nat.two_pos)
  have hmod : n % (stride * 2) % stride = n % stride := Nat.mod_mul_right_mod n stride 2
  split_ifs with h
  · rw [← hmod, Nat.mod_eq_of_lt h]
  · rw [← hmod, Nat.mod_eq_sub_mod (by omega), Nat.mod_eq_of_lt (by omega)]

/-- Between a kept index and the next one that is dropped, the next element of the sample is dropped. -/
theorem everySecond_sampledFrom (hs : 0 < stride) (l : List α) (index : Nat) :
    (index % (stride * 2) = 0 ∨ stride < index % (stride * 2) →
      everySecond (sampledFrom stride index l) = sampledFrom (stride * 2) index l) ∧
    (0 < index % (stride * 2) → index % (stride * 2) ≤ stride →
      everySecond (sampledFrom stride index l).tail = sampledFrom (stride * 2) index l) := by
  induction l generalizing index with
  | nil => exact ⟨fun _ => rfl, fun _ _ => rfl⟩
  | cons a l ih =>
    have hlt := Nat.mod_lt index (Nat.mul_pos hs Nat.two_pos)
    have hnext := succ_mod index (Nat.mul_pos hs Nat.two_pos)
    have hmod := mod_stride index hs
    obtain ⟨keep, drop⟩ := ih (index + 1)
    rw [hnext] at keep drop
    rw [sampledFrom, sampledFrom]
    refine ⟨fun h => ?_, fun hpos hle => ?_⟩
    · by_cases h0 : index % (stride * 2) = 0
      · rw [h0, if_pos hs] at hmod
        rw [if_pos hmod, if_pos h0, everySecond_cons]
        rw [h0, if_neg (by omega)] at drop
        rw [drop (by omega) (by omega)]
      · rw [if_neg (by omega)] at hmod
        rw [if_neg (by omega), if_neg h0]
        refine keep ?_
        split_ifs <;> omega
    · rw [if_neg (c := index % (stride * 2) = 0) (by omega)]
      by_cases hstride : index % (stride * 2) = stride
      · rw [hstride, if_neg (by omega), Nat.sub_self] at hmod
        rw [if_pos hmod, List.tail_cons]
        refine keep ?_
        split_ifs <;> omega
      · rw [if_pos (by omega)] at hmod
        rw [if_neg (by omega)]
        refine drop ?_ ?_ <;> split_ifs <;> omega

theorem everySecond_sampled (hs : 0 < stride) (l : List α) :
    everySecond (sampled stride l) = sampled (stride * 2) l :=
  (everySecond_sampledFrom hs l 0).1 (.inl (Nat.zero_mod _))

theorem length_everySecond : ∀ l : List α, (everySecond l).length = (l.length + 1) / 2
  | [] => by simp [everySecond]
  | [_] => by simp [everySecond]
  | a :: b :: l => by
    rw [everySecond, List.length_cons, length_everySecond l, List.length_cons, List.length_cons]
    omega

end Sampling

/-! ## The invariant -/

variable (heap : HeapAlgorithms fasterOnTop)

/-- What a log of a capacity holds after the frames `added`. -/
structure Inv (capacity : Nat) (log : FrameTimingLog) (added : List FrameTiming) : Prop where
  capacity_eq : log.capacity = max capacity 2
  seen : log.seen = added.length
  stride : ∃ k, log.stride = 2 ^ k
  frames : log.frames = sampled log.stride added
  room : log.frames.length ≤ max capacity 2
  isHeap : heap.IsHeap log.slowestKept
  largest : Largest kSlowestKept (log.slowestKept.map FrameTiming.frameMs) (added.map FrameTiming.frameMs)

variable {heap} {capacity : Nat} {log : FrameTimingLog} {added : List FrameTiming}

theorem inv_new (capacity : Nat) : Inv heap capacity (.new capacity) [] where
  capacity_eq := rfl
  seen := rfl
  stride := ⟨0, rfl⟩
  frames := rfl
  room := Nat.zero_le _
  isHeap := heap.isHeap_nil
  largest := Largest.nil

theorem Inv.skip (h : Inv heap capacity log added) : Inv heap capacity log.skip added := { h with }

theorem addSlowest_spec {kept : List FrameTiming} (frame : FrameTiming) (hheap : heap.IsHeap kept)
    (h : Largest kSlowestKept (kept.map FrameTiming.frameMs) (added.map FrameTiming.frameMs)) :
    heap.IsHeap (FrameTimingLog.addSlowest heap kept frame) ∧
      Largest kSlowestKept ((FrameTimingLog.addSlowest heap kept frame).map FrameTiming.frameMs)
        ((added ++ [frame]).map FrameTiming.frameMs) := by
  have hlength := h.length_eq
  rw [List.length_map] at hlength
  unfold FrameTimingLog.addSlowest
  rw [List.map_append]
  split_ifs with hroom
  · refine ⟨heap.isHeap_pushHeap frame hheap, ?_⟩
    refine (h.room (by rwa [List.length_map]) frame.frameMs).perm ?_
    rw [← List.map_singleton, ← List.map_append]
    exact (heap.pushHeap_perm _).map _
  · cases kept with
    | nil => exact absurd (by decide) hroom
    | cons front others =>
      have hfull : ((front :: others).map FrameTiming.frameMs).length = kSlowestKept := by
        rw [List.length_map]
        omega
      have hleast : ∀ b ∈ others.map FrameTiming.frameMs, front.frameMs ≤ b := by
        intro b hb
        obtain ⟨frame, hframe, rfl⟩ := List.mem_map.mp hb
        exact not_lt.mp (heap.not_comp_front hheap frame hframe)
      dsimp only
      split_ifs with hlt
      · obtain ⟨rest, hpop, hperm, hrest⟩ := heap.popHeap_front hheap
        rw [hpop, List.dropLast_concat]
        refine ⟨heap.isHeap_pushHeap frame hrest, ?_⟩
        refine (h.replace hfull hleast hlt).perm ?_
        rw [← List.map_singleton, ← List.map_append]
        exact ((heap.pushHeap_perm _).trans (hperm.append_right [frame])).map _
      · refine ⟨hheap, h.skip hfull fun b hb => ?_⟩
        rcases List.mem_cons.mp hb with rfl | hb
        · exact not_lt.mp hlt
        · exact (not_lt.mp hlt).trans (hleast b hb)

/-- What the stride makes of one frame more. -/
theorem record_spec (hcapacity : 2 ≤ log.capacity) (hstride : ∃ k, log.stride = 2 ^ k)
    (hframes : log.frames = sampled log.stride added) (hroom : log.frames.length ≤ log.capacity) (frame : FrameTiming) :
    ∃ stride frames, log.record added.length frame = { log with stride, frames } ∧ (∃ k, stride = 2 ^ k) ∧
      frames = sampled stride (added ++ [frame]) ∧ frames.length ≤ log.capacity := by
  obtain ⟨k, hk⟩ := hstride
  have hpos : 0 < log.stride := hk ▸ Nat.two_pow_pos k
  have htwice : everySecond log.frames = sampled (log.stride * 2) added := by rw [hframes, everySecond_sampled hpos]
  have hlength := length_everySecond log.frames
  unfold FrameTimingLog.record
  dsimp only
  split_ifs with hindex hfull hdouble
  · exact ⟨log.stride, log.frames, rfl, ⟨k, hk⟩, by rw [sampled_concat, if_neg hindex, hframes], hroom⟩
  · refine ⟨log.stride * 2, everySecond log.frames, rfl, ⟨k + 1, by rw [hk, Nat.pow_succ]⟩, ?_, by omega⟩
    rw [sampled_concat, if_neg hdouble, htwice]
  · refine ⟨log.stride * 2, everySecond log.frames ++ [frame], rfl, ⟨k + 1, by rw [hk, Nat.pow_succ]⟩, ?_, ?_⟩
    · rw [sampled_concat, if_pos (not_not.mp hdouble), htwice]
    · rw [List.length_append, List.length_singleton]
      omega
  · refine ⟨log.stride, log.frames ++ [frame], rfl, ⟨k, hk⟩, ?_, ?_⟩
    · rw [sampled_concat, if_pos (not_not.mp hindex), hframes]
    · rw [List.length_append, List.length_singleton]
      omega

theorem Inv.add (h : Inv heap capacity log added) (frame : FrameTiming) :
    Inv heap capacity (log.add heap frame) (added ++ [frame]) := by
  obtain ⟨hheap, hlargest⟩ := addSlowest_spec frame h.isHeap h.largest
  have hcapacity : 2 ≤ log.capacity := h.capacity_eq ▸ Nat.le_max_right capacity 2
  obtain ⟨stride, frames, hrecord, hstride, hframes, hroom⟩ :=
    @record_spec { log with
      slowestKept := FrameTimingLog.addSlowest heap log.slowestKept frame
      seen := log.seen + 1 } _ hcapacity h.stride h.frames (h.capacity_eq ▸ h.room) frame
  rw [FrameTimingLog.add, h.seen]
  rw [h.seen] at hrecord
  rw [hrecord]
  exact {
    capacity_eq := h.capacity_eq
    seen := by rw [List.length_append, List.length_singleton]
    stride := hstride
    frames := hframes
    room := h.capacity_eq ▸ hroom
    isHeap := hheap
    largest := hlargest }

theorem Inv.step (h : Inv heap capacity log added) (call : FrameTimingLog.Call) :
    Inv heap capacity (log.step heap call) (added ++ call.frame.toList) := by
  cases call with
  | add frame => exact h.add frame
  | skip =>
    rw [FrameTimingLog.Call.frame, Option.toList_none, List.append_nil]
    exact h.skip

/-- The frames of a run. -/
def addedBy (calls : List FrameTimingLog.Call) : List FrameTiming := calls.flatMap fun call => call.frame.toList

theorem Inv.foldl (h : Inv heap capacity log added) (calls : List FrameTimingLog.Call) :
    Inv heap capacity (calls.foldl (FrameTimingLog.step heap) log) (added ++ addedBy calls) := by
  induction calls generalizing log added with
  | nil =>
    rw [addedBy, List.flatMap_nil, List.append_nil]
    exact h
  | cons call calls ih =>
    rw [List.foldl_cons, addedBy, List.flatMap_cons, ← List.append_assoc]
    exact ih (h.step call)

theorem inv_run (capacity : Nat) (calls : List FrameTimingLog.Call) :
    Inv heap capacity (.run heap capacity calls) (addedBy calls) := (inv_new capacity).foldl calls

/-! ## What is read of it -/

theorem map_slowest (h : Inv heap capacity log added) : (log.slowest heap).map FrameTiming.frameMs =
    ((added.map FrameTiming.frameMs).insertionSort (· ≥ ·)).take kSlowestKept := by
  refine (h.largest.perm ((heap.sort_perm _).map _)).eq_take ?_
  rw [List.pairwise_map]
  exact (heap.pairwise_sort _).imp fun h => not_lt.mp h

/-- In descending order, those over a threshold stand in front. -/
theorem length_takeWhile_over (t : Rat) : ∀ l : List FrameTiming, l.Pairwise (fun a b => ¬ fasterOnTop b a) →
    (l.takeWhile (t < ·.frameMs)).length = (l.map FrameTiming.frameMs).countP (t < ·)
  | [], _ => rfl
  | frame :: l, h => by
    obtain ⟨hhead, htail⟩ := List.pairwise_cons.mp h
    rw [List.takeWhile_cons, List.map_cons, List.countP_cons]
    by_cases ht : t < frame.frameMs
    · rw [if_pos (by simpa using ht), if_pos (by simpa using ht), List.length_cons, length_takeWhile_over t l htail]
    · rw [if_neg (by simpa using ht), if_neg (by simpa using ht), List.length_nil, Nat.add_zero, eq_comm,
        List.countP_eq_zero]
      intro ms hms hover
      obtain ⟨other, hother, rfl⟩ := List.mem_map.mp hms
      exact ht ((of_decide_eq_true hover).trans_le (not_lt.mp (hhead other hother)))

theorem count_slowFrames (h : Inv heap capacity log added) (budget : FrameBudget) (gpuMeasured : Bool)
    (hexact : (slowFrames heap log budget gpuMeasured).atLeast = false) :
    (slowFrames heap log budget gpuMeasured).count =
      (added.map FrameTiming.frameMs).countP (thresholdOf budget < ·) := by
  have hlargest := h.largest.perm ((heap.sort_perm log.slowestKept).map FrameTiming.frameMs)
  have hcount := length_takeWhile_over (thresholdOf budget) (log.slowest heap) (heap.pairwise_sort _)
  change ((log.slowest heap).takeWhile _).length = _
  rw [hcount]
  refine (hlargest.countP_eq ?_).symm
  by_contra hall
  obtain ⟨hall, hfewer⟩ := not_or.mp hall
  -- all that are kept are over, and some frame was not kept
  have hover : ((log.slowest heap).takeWhile (thresholdOf budget < ·.frameMs)).length = (log.slowest heap).length := by
    rw [hcount, ← @List.length_map _ _ (log.slowest heap) FrameTiming.frameMs, List.countP_eq_length]
    intro ms hms
    exact decide_eq_true (not_le.mp fun hle => hall ⟨ms, hms, hle⟩)
  have hlength := hlargest.length_eq
  rw [List.length_map, List.length_map, ← h.seen] at hlength
  rw [List.length_map, List.length_map, ← h.seen] at hfewer
  change (decide (_ = kSlowestKept) && decide (_ < log.seen)) = false at hexact
  rw [hover, Bool.and_eq_false_iff, decide_eq_false_iff_not, decide_eq_false_iff_not] at hexact
  change (log.slowest heap).length = _ at hlength
  change ¬ (log.slowest heap).length = _ at hfewer
  omega

/-- After any calls on a log of any capacity. -/
theorem samples_evenly (heap : HeapAlgorithms fasterOnTop) (capacity : Nat) (calls : List FrameTimingLog.Call) :
    let log := FrameTimingLog.run heap capacity calls
    let times := (addedBy calls).map FrameTiming.frameMs
    log.frames = sampled log.stride (addedBy calls) ∧ (∃ k, log.stride = 2 ^ k) ∧
      log.frames.length ≤ max capacity 2 ∧
      (log.slowest heap).length = min times.length kSlowestKept ∧
      (log.slowest heap).map FrameTiming.frameMs = (times.insertionSort (· ≥ ·)).take kSlowestKept ∧
      ∀ budget gpuMeasured, (slowFrames heap log budget gpuMeasured).atLeast = false →
        (slowFrames heap log budget gpuMeasured).count = times.countP (thresholdOf budget < ·) := by
  have h := @inv_run heap capacity calls
  have hslowest := map_slowest h
  refine ⟨h.frames, h.stride, h.room, ?_, hslowest, fun budget gpuMeasured => count_slowFrames h budget gpuMeasured⟩
  have hlength := congrArg List.length hslowest
  rw [List.length_map, List.length_take, List.length_insertionSort, Nat.min_comm] at hlength
  exact hlength

/-- Eighteen frames, each slower than the one before, and a callback that described none. -/
def slowing : List FrameTimingLog.Call :=
  (List.range 9).map (fun i => .add { frameMs := i }) ++ .skip :: (List.range' 9 9).map fun i => .add { frameMs := i }

/-- A log of four frames records half as often three times over. -/
theorem samples_evenly_slowing :
    let log := FrameTimingLog.run (HeapAlgorithms.ofKey FrameTiming.frameMs) 4 slowing
    log.stride = 8 ∧ log.frames = sampled 8 (addedBy slowing) ∧
      (log.slowest (HeapAlgorithms.ofKey FrameTiming.frameMs)).map FrameTiming.frameMs =
        (((addedBy slowing).map FrameTiming.frameMs).insertionSort (· ≥ ·)).take kSlowestKept := by
  have hstride : (FrameTimingLog.run (HeapAlgorithms.ofKey FrameTiming.frameMs) 4 slowing).stride = 8 := by decide
  obtain ⟨hframes, -, -, -, hslowest, -⟩ := samples_evenly (HeapAlgorithms.ofKey FrameTiming.frameMs) 4 slowing
  exact ⟨hstride, by rw [hframes, hstride], hslowest⟩

end Didi.Performance
