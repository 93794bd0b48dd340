import Didi.Image.CaptureCache

/-!
# The cache is a least recently used list within its budget

* `Recency` : the list that the cache stands for, and what a call does to it;
* `Mirrors` : the cache has the frames of the list, used in its order, and counts their bytes;
* `mirrors_call`, `mirrors_run` : this stays so with every call, as long as neither the clock nor the bytes wrap;
* `leastRecentlyUsed` : the cache and the list answer alike after every sequence of calls.
-/

namespace Didi.Image

/-! ## The list -/

/-- Frames by id, the least recently used first. -/
abbrev Recency := List (String × RgbaImage)

namespace Recency

/-- The bytes of all frames. -/
def total : Recency → Nat
  | [] => 0
  | e :: l => e.2.rgba.length + total l

/-- Whether a frame can be kept, if need be alone. -/
def Storable (maxEntries maxBytes : Nat) (captureId : String) (pixels : RgbaImage) : Prop :=
  validCaptureId captureId = true ∧ 1 ≤ pixels.width ∧ pixels.width ≤ 2048 ∧ 1 ≤ pixels.height ∧
    pixels.height ≤ 2048 ∧ (pixels.rgba.length : Int) = 4 * (pixels.width * pixels.height) ∧ 0 < maxEntries ∧
    pixels.rgba.length ≤ maxBytes

instance : Decidable (Storable maxEntries maxBytes captureId pixels) := by
  unfold Storable
  infer_instance

/-- Whether a frame of the given size fits beside the others. -/
def fits (maxEntries maxBytes size : Nat) (l : Recency) : Bool :=
  l.length + 1 ≤ maxEntries && l.total + size ≤ maxBytes

/-- What a call answers, and the list after it: a frame that is stored or found is the most recent one, and a store
leaves out the least recent ones until it fits. -/
def call (maxEntries maxBytes : Nat) (l : Recency) : Call → Answer × Recency
  | .store captureId pixels =>
    if Storable maxEntries maxBytes captureId pixels then
      (.stored, (l.eraseKey captureId).dropUntil (fits maxEntries maxBytes pixels.rgba.length) ++ [(captureId, pixels)])
    else (.refused, l)
  | .find captureId =>
    match l.lookup captureId with
    | some pixels => (.found (some pixels), l.renewKey captureId pixels)
    | none => (.found none, l)

def run (maxEntries maxBytes : Nat) : Recency → List Call → List Answer × Recency
  | l, [] => ([], l)
  | l, call :: calls =>
    let (answer, l) := l.call maxEntries maxBytes call
    let (answers, l) := l.run maxEntries maxBytes calls
    (answer :: answers, l)

theorem total_append (l l' : Recency) : total (l ++ l') = l.total + l'.total := by
  induction l with
  | nil => exact (Nat.zero_add _).symm
  | cons e l ih =>
    rw [List.cons_append, total, total, ih]
    omega

theorem total_perm {l l' : Recency} (h : l.Perm l') : l.total = l'.total := by
  induction h with
  | nil => rfl
  | cons e _ ih => rw [total, total, ih]
  | swap e e' l =>
    simp only [total]
    omega
  | trans _ _ ih ih' => exact ih.trans ih'

theorem total_suffix {l l' : Recency} (h : l <:+ l') : l.total ≤ l'.total := by
  obtain ⟨dropped, rfl⟩ := h
  rw [total_append]
  omega

/-- The bytes of a frame are no longer counted when it goes. -/
theorem total_eraseKey {k : String} {x : RgbaImage} {l : Recency} (hl : (l.map Prod.fst).Nodup)
    (h : l.lookup k = some x) : l.total = x.rgba.length + total (l.eraseKey k) := by
  rw [total_perm (List.renewKey_perm hl h).symm, List.renewKey, total_append]
  simp only [total]
  omega

theorem total_eraseKey_le (k : String) (l : Recency) : total (l.eraseKey k) ≤ l.total := by
  induction l with
  | nil => exact Nat.le_refl _
  | cons e l ih =>
    unfold List.eraseKey at ih ⊢
    rw [List.filter_cons, total]
    split_ifs
    · rw [total]
      omega
    · omega

end Recency

/-! ## What the cache keeps -/

/-- The frames of the entries. -/
def frames (entries : List (String × Entry)) : Recency := entries.map fun e => (e.1, e.2.pixels)

/-- The entries in the order of their use, and their bytes as the cache counts them. -/
structure Kept (cache : CaptureCache) (order : List (String × Entry)) : Prop where
  listed : List.Listed Entry.lastUsed cache.entries order
  bytes : cache.bytes = (frames order).total

theorem frames_keys (entries : List (String × Entry)) : (frames entries).map Prod.fst = entries.map Prod.fst := by
  rw [frames, List.map_map]
  rfl

theorem frames_eraseKey (k : String) (entries : List (String × Entry)) :
    frames (entries.eraseKey k) = (frames entries).eraseKey k := (List.eraseKey_map k Entry.pixels entries).symm

theorem frames_lookup (k : String) (entries : List (String × Entry)) :
    (frames entries).lookup k = (entries.lookup k).map Entry.pixels := List.lookup_map k Entry.pixels entries

namespace Kept
variable {cache : CaptureCache} {order : List (String × Entry)}

theorem without (h : Kept cache order) (hbytes : cache.bytes < 2 ^ 64) {k : String} {entry : Entry}
    (hk : cache.entries.lookup k = some entry) : Kept (cache.without k entry) (order.eraseKey k) where
  listed := h.listed.eraseKey k
  bytes := by
    have hlookup : (frames order).lookup k = some entry.pixels := by
      rw [frames_lookup, ← h.listed.lookup_eq, hk]
      rfl
    have htotal := Recency.total_eraseKey (by rw [frames_keys]; exact h.listed.nodup) hlookup
    have hcount := h.bytes
    rw [frames_eraseKey]
    show word (cache.bytes + 2 ^ 64 - entry.pixels.rgba.length) = _
    rw [word]
    omega

/-- Whether an entry must go is whether the frame does not fit, while the bytes do not wrap. -/
theorem crowded_eq (h : Kept cache order) {expected : Nat} (hbytes : cache.bytes + expected < 2 ^ 64) :
    cache.crowded expected = !(frames order).fits cache.maxEntries cache.maxBytes expected := by
  rw [CaptureCache.crowded, Recency.fits, word_eq hbytes, h.bytes, h.listed.length_eq, frames,
    List.length_map, Bool.not_and, ← decide_not, ← decide_not]
  congr 1 <;> exact decide_eq_decide.mpr (by omega)

theorem eraseHead {e : String × Entry} (h : Kept cache (e :: order)) (hbytes : cache.bytes < 2 ^ 64) :
    Kept (cache.without e.1 e.2) order where
  listed := h.listed.eraseHead
  bytes := by
    have hcount : cache.bytes = e.2.pixels.rgba.length + (frames order).total := h.bytes
    show word (cache.bytes + 2 ^ 64 - e.2.pixels.rgba.length) = _
    rw [word]
    omega

/-- The oldest entries go until the frame fits, and nothing else changes. -/
theorem evict (h : Kept cache order) {expected : Nat} (hbytes : cache.bytes + expected < 2 ^ 64) :
    let room := CaptureCache.evict expected order.length cache
    Kept room (order.dropUntil fun rest => (frames rest).fits cache.maxEntries cache.maxBytes expected) ∧
      room.maxEntries = cache.maxEntries ∧ room.maxBytes = cache.maxBytes ∧ room.clock = cache.clock ∧
      ∀ e ∈ room.entries, e ∈ cache.entries := by
  induction order generalizing cache with
  | nil => exact ⟨h, rfl, rfl, rfl, fun e he => he⟩
  | cons e order ih =>
    intro room
    have hroom : room = CaptureCache.evict expected (order.length + 1) cache := rfl
    rw [CaptureCache.evict, h.listed.argmin] at hroom
    simp only [h.crowded_eq hbytes] at hroom
    rw [List.dropUntil]
    by_cases hfits : (frames (e :: order)).fits cache.maxEntries cache.maxBytes expected = true
    · rw [hfits, Bool.not_true, if_neg Bool.false_ne_true] at hroom
      rw [if_pos hfits, hroom]
      exact ⟨h, rfl, rfl, rfl, fun e he => he⟩
    · rw [eq_false_of_ne_true hfits, Bool.not_false, if_pos rfl] at hroom
      rw [if_neg hfits, hroom]
      have hrest := h.eraseHead (by omega)
      have hless : (cache.without e.1 e.2).bytes ≤ cache.bytes := by
        rw [hrest.bytes, h.bytes]
        exact Nat.le_add_left _ _
      have hroomy := (Nat.add_le_add_right hless expected).trans_lt hbytes
      have hroom := ih hrest hroomy
      simp only [CaptureCache.without_maxEntries, CaptureCache.without_maxBytes, CaptureCache.without_clock,
        CaptureCache.without_entries] at hroom
      obtain ⟨hkept, hentries, hmax, hclock, hmem⟩ := hroom
      exact ⟨hkept, hentries, hmax, hclock, fun e he => List.mem_of_mem_filter (hmem e he)⟩

/-- The entry that has the id goes, and nothing else changes. -/
theorem vacate (h : Kept cache order) (hbytes : cache.bytes < 2 ^ 64) (k : String) :
    Kept (cache.vacate k) (order.eraseKey k) ∧ (cache.vacate k).maxEntries = cache.maxEntries ∧
      (cache.vacate k).maxBytes = cache.maxBytes ∧ (cache.vacate k).clock = cache.clock ∧
      (cache.vacate k).entries = cache.entries.eraseKey k := by
  cases hlookup : cache.entries.lookup k with
  | none =>
    have hvacate : cache.vacate k = cache := by
      rw [CaptureCache.vacate, hlookup]
    have hlookup' : order.lookup k = none := by
      rw [← h.listed.lookup_eq k, hlookup]
    rw [hvacate, List.eraseKey_eq_self hlookup, List.eraseKey_eq_self hlookup']
    exact ⟨h, rfl, rfl, rfl, rfl⟩
  | some existing =>
    have hvacate : cache.vacate k = cache.without k existing := by
      rw [CaptureCache.vacate, hlookup]
    rw [hvacate, CaptureCache.without_maxEntries, CaptureCache.without_maxBytes, CaptureCache.without_clock,
      CaptureCache.without_entries]
    exact ⟨h.without hbytes hlookup, rfl, rfl, rfl, rfl⟩

/-- So there is room for the frame, and the oldest entries made it. -/
theorem makeRoom {expected : Nat} (h : Kept cache order) (hbytes : cache.bytes + expected < 2 ^ 64) (k : String) :
    Kept (cache.makeRoom k expected)
        ((order.eraseKey k).dropUntil fun rest => (frames rest).fits cache.maxEntries cache.maxBytes expected) ∧
      (cache.makeRoom k expected).maxEntries = cache.maxEntries ∧
      (cache.makeRoom k expected).maxBytes = cache.maxBytes ∧ (cache.makeRoom k expected).clock = cache.clock ∧
      ∀ e ∈ (cache.makeRoom k expected).entries, e ∈ cache.entries.eraseKey k := by
  obtain ⟨hkept, hmaxEntries, hmaxBytes, hclock, hentries⟩ := h.vacate (by omega) k
  have hless := Recency.total_eraseKey_le k (frames order)
  rw [← frames_eraseKey, ← hkept.bytes, ← h.bytes] at hless
  have hevict := hkept.evict ((Nat.add_le_add_right hless expected).trans_lt hbytes)
  rw [hmaxEntries, hmaxBytes, hclock, hentries, ← hkept.listed.length_eq, hentries] at hevict
  rw [CaptureCache.makeRoom, hentries]
  exact hevict

end Kept

/-! ## One call -/

/-- A size that is checked is that of an image of its dimensions. -/
theorem checkedRgbaSize_eq_ok {width height : Int} {n : Nat} (h : checkedRgbaSize width height = .ok n) :
    1 ≤ width ∧ width ≤ 2048 ∧ 1 ≤ height ∧ height ≤ 2048 ∧ (n : Int) = 4 * (width * height) ∧ n ≤ 2 ^ 24 := by
  unfold checkedRgbaSize kMaxCaptureDimension at h
  split_ifs at h with hdims hsize
  cases h
  simp only [Bool.or_eq_true, decide_eq_true_eq, not_or, not_lt] at hdims
  obtain ⟨⟨⟨hw, hh⟩, hw'⟩, hh'⟩ := hdims
  have hprod : width.toNat * height.toNat ≤ 2048 * 2048 := Nat.mul_le_mul (by omega) (by omega)
  refine ⟨hw, hw', hh, hh', ?_, by omega⟩
  rw [Int.natCast_mul, Int.natCast_mul, Int.toNat_of_nonneg (by omega), Int.toNat_of_nonneg (by omega)]
  omega

/-- After `n` calls, the cache has the frames of the list, each id once, used in the order of the list. -/
structure Mirrors (n : Nat) (cache : CaptureCache) (l : Recency) : Prop where
  kept : ∃ order, Kept cache order ∧ frames order = l
  within : cache.bytes ≤ cache.maxBytes
  clock : cache.clock ≤ n
  recent : ∀ e ∈ cache.entries, e.2.lastUsed ≤ cache.clock
  valid : ∀ e ∈ l, validCaptureId e.1 = true
  small : l.total ≤ n * 2 ^ 24

/-- The clock and the bytes do not wrap within `n` calls. -/
def Unwrapped (maxBytes n : Nat) : Prop := n < 2 ^ 64 ∧ (maxBytes + 2 ^ 24 < 2 ^ 64 ∨ n < 2 ^ 40)

namespace Mirrors
variable {n : Nat} {cache : CaptureCache} {l : Recency}

theorem bytes_eq (h : Mirrors n cache l) : cache.bytes = l.total := by
  obtain ⟨order, hkept, rfl⟩ := h.kept
  exact hkept.bytes

/-- A call that changes nothing. -/
theorem later (h : Mirrors n cache l) : Mirrors (n + 1) cache l :=
  { h with
    clock := Nat.le_succ_of_le h.clock
    small := h.small.trans (Nat.mul_le_mul_right _ (Nat.le_succ n)) }

/-- A frame that fits is kept as the most recent one. -/
theorem insert (h : Mirrors n cache l) (hwrap : Unwrapped cache.maxBytes (n + 1)) {captureId : String}
    {pixels : RgbaImage} (hid : validCaptureId captureId = true) (hsmall : pixels.rgba.length ≤ 2 ^ 24)
    (hfits : pixels.rgba.length ≤ cache.maxBytes) :
    Mirrors (n + 1) (cache.insert captureId pixels pixels.rgba.length)
      ((l.eraseKey captureId).dropUntil
        (Recency.fits cache.maxEntries cache.maxBytes pixels.rgba.length) ++ [(captureId, pixels)]) := by
  obtain ⟨order, hkept, rfl⟩ := h.kept
  have hbytes := hkept.bytes
  have hwithin := h.within
  have hclock := h.clock
  have htotal := h.small
  have hroomy : cache.bytes + pixels.rgba.length < 2 ^ 64 := by
    obtain ⟨hn, hmax | hn'⟩ := hwrap <;> omega
  obtain ⟨hroom, hmaxEntries, hmaxBytes, hclock', hmem⟩ := hkept.makeRoom hroomy captureId
  have htick : (cache.makeRoom captureId pixels.rgba.length).tick = cache.clock + 1 := by
    rw [CaptureCache.tick, hclock', word_eq (Nat.lt_of_le_of_lt (Nat.succ_le_succ hclock) hwrap.1)]
  have hframes := List.dropUntil_map (fun e : String × Entry => (e.1, e.2.pixels))
    (Recency.fits cache.maxEntries cache.maxBytes pixels.rgba.length) (order.eraseKey captureId)
  rw [← frames, frames_eraseKey] at hframes
  have hcount : (cache.makeRoom captureId pixels.rgba.length).bytes =
      Recency.total (((frames order).eraseKey captureId).dropUntil
        (Recency.fits cache.maxEntries cache.maxBytes pixels.rgba.length)) := by
    rw [hframes]
    exact hroom.bytes
  have hsuffix := List.dropUntil_suffix (Recency.fits cache.maxEntries cache.maxBytes pixels.rgba.length)
    ((frames order).eraseKey captureId)
  have hless := Recency.total_suffix hsuffix
  have hless' := Recency.total_eraseKey_le captureId (frames order)
  have hnew : (cache.makeRoom captureId pixels.rgba.length).bytes + pixels.rgba.length ≤ cache.maxBytes := by
    rcases List.dropUntil_fits (Recency.fits cache.maxEntries cache.maxBytes pixels.rgba.length)
      ((frames order).eraseKey captureId) with hempty | hfit
    · rw [hcount, hempty, Recency.total]
      omega
    · rw [Recency.fits, Bool.and_eq_true, decide_eq_true_eq, decide_eq_true_eq] at hfit
      rw [hcount]
      exact hfit.2
  have hnowrap := word_eq (n := (cache.makeRoom captureId pixels.rgba.length).bytes + pixels.rgba.length) (by omega)
  have hinsert : cache.insert captureId pixels pixels.rgba.length =
      { cache.makeRoom captureId pixels.rgba.length with
        bytes := (cache.makeRoom captureId pixels.rgba.length).bytes + pixels.rgba.length
        clock := cache.clock + 1
        entries := (cache.makeRoom captureId pixels.rgba.length).entries ++
          [(captureId, { pixels := pixels, lastUsed := cache.clock + 1 })] } := by
    rw [CaptureCache.insert, hnowrap, htick]
  have hold : ∀ e ∈ (cache.makeRoom captureId pixels.rgba.length).entries, e.2.lastUsed ≤ cache.clock :=
    fun e he => h.recent e (List.mem_of_mem_filter (hmem e he))
  have hnot : captureId ∉ (cache.makeRoom captureId pixels.rgba.length).entries.map Prod.fst := by
    intro hthere
    obtain ⟨e, he, hid⟩ := List.mem_map.mp hthere
    exact List.not_mem_keys_eraseKey captureId cache.entries (List.mem_map.mpr ⟨e, hmem e he, hid⟩)
  generalize cache.makeRoom captureId pixels.rgba.length = room at *
  rw [hinsert]
  constructor
  case kept =>
    have hpush := hroom.listed.push (x := { pixels := pixels, lastUsed := cache.clock + 1 }) hnot
      fun e he => Nat.lt_succ_of_le (hold e he)
    refine ⟨_, ⟨hpush, ?_⟩, ?_⟩
    · rw [frames, List.map_append, Recency.total_append, ← frames, ← hroom.bytes]
      rfl
    · rw [frames, List.map_append, hframes]
      rfl
  case within =>
    rw [hmaxBytes]
    exact hnew
  case clock => exact Nat.succ_le_succ hclock
  case recent =>
    intro e he
    rcases List.mem_append.mp he with he | he
    · exact Nat.le_succ_of_le (hold e he)
    · rw [List.mem_singleton.mp he]
  case valid =>
    intro e he
    rcases List.mem_append.mp he with he | he
    · exact h.valid e (List.mem_of_mem_filter (hsuffix.subset he))
    · rw [List.mem_singleton.mp he]
      exact hid
  case small =>
    rw [Recency.total_append]
    simp only [Recency.total]
    omega

/-- A frame that is found is the most recent one from then on. -/
theorem find (h : Mirrors n cache l) (hwrap : Unwrapped cache.maxBytes (n + 1)) {captureId : String} {entry : Entry}
    (hlookup : cache.entries.lookup captureId = some entry) :
    Mirrors (n + 1)
      { cache with
        clock := cache.tick
        entries := cache.entries.alterKey captureId fun entry => { entry with lastUsed := cache.tick } }
      (l.renewKey captureId entry.pixels) := by
  obtain ⟨order, hkept, rfl⟩ := h.kept
  have htick : cache.tick = cache.clock + 1 := by
    rw [CaptureCache.tick, word_eq (Nat.lt_of_le_of_lt (Nat.succ_le_succ h.clock) hwrap.1)]
  have htouch := hkept.listed.touch (fun entry => { entry with lastUsed := cache.clock + 1 }) hlookup
    fun e he => Nat.lt_succ_of_le (h.recent e he)
  have hframes : frames (order.renewKey captureId { entry with lastUsed := cache.clock + 1 }) =
      (frames order).renewKey captureId entry.pixels := by
    rw [List.renewKey, List.renewKey, frames, List.map_append, ← frames, frames_eraseKey]
    rfl
  have hperm : ((frames order).renewKey captureId entry.pixels).Perm (frames order) := by
    refine List.renewKey_perm (by rw [frames_keys]; exact hkept.listed.nodup) ?_
    rw [frames_lookup, ← hkept.listed.lookup_eq, hlookup]
    rfl
  have htotal := Recency.total_perm hperm
  rw [htick]
  constructor
  case kept =>
    refine ⟨_, ⟨htouch, ?_⟩, hframes⟩
    rw [hframes, htotal]
    exact hkept.bytes
  case within => exact h.within
  case clock => exact Nat.succ_le_succ h.clock
  case recent =>
    intro e he
    rcases List.mem_append.mp (htouch.perm.mem_iff.mpr he) with he | he
    · exact Nat.le_succ_of_le (h.recent e (hkept.listed.perm.mem_iff.mp (List.mem_of_mem_filter he)))
    · rw [List.mem_singleton.mp he]
  case valid => exact fun e he => h.valid e (hperm.mem_iff.mp he)
  case small => exact htotal ▸ h.later.small

end Mirrors

theorem checkedRgbaSize_of_dims {width height : Int} (hw : 1 ≤ width) (hw' : width ≤ 2048) (hh : 1 ≤ height)
    (hh' : height ≤ 2048) : ∃ n, checkedRgbaSize width height = .ok n := by
  have hprod : width.toNat * height.toNat ≤ 2048 * 2048 := Nat.mul_le_mul (by omega) (by omega)
  unfold checkedRgbaSize kMaxCaptureDimension
  rw [if_neg (by simp only [Bool.or_eq_true, decide_eq_true_eq]; omega), if_neg (by omega)]
  exact ⟨_, rfl⟩

section Store
variable (cache : CaptureCache) {captureId : String} {pixels : RgbaImage}

theorem storeFrame_storable (h : Recency.Storable cache.maxEntries cache.maxBytes captureId pixels) :
    cache.storeFrame captureId pixels = (.ok (), cache.insert captureId pixels pixels.rgba.length) ∧
      pixels.rgba.length ≤ 2 ^ 24 := by
  obtain ⟨hid, hw, hw', hh, hh', hsize, hentries, hbytes⟩ := h
  obtain ⟨n, hn⟩ := checkedRgbaSize_of_dims hw hw' hh hh'
  obtain ⟨-, -, -, -, hn', hsmall⟩ := checkedRgbaSize_eq_ok hn
  have hlength : pixels.rgba.length = n := by omega
  refine ⟨?_, by omega⟩
  unfold CaptureCache.storeFrame
  rw [hid, Bool.not_true, if_neg Bool.false_ne_true, hn]
  simp only [hlength, ne_eq, not_true_eq_false, if_false]
  rw [if_neg]
  simp only [Bool.or_eq_true, decide_eq_true_eq]
  omega

/-- A refused store leaves the cache unchanged. -/
theorem storeFrame_refused (h : ¬ Recency.Storable cache.maxEntries cache.maxBytes captureId pixels) :
    ∃ error, cache.storeFrame captureId pixels = (.error error, cache) := by
  unfold CaptureCache.storeFrame
  split_ifs with hid
  · exact ⟨_, rfl⟩
  · cases hsize : checkedRgbaSize pixels.width pixels.height with
    | error error => exact ⟨error, rfl⟩
    | ok expected =>
      obtain ⟨hw, hw', hh, hh', hexpected, -⟩ := checkedRgbaSize_eq_ok hsize
      simp only
      split_ifs with hlength hbudget
      · exact ⟨_, rfl⟩
      · exact ⟨_, rfl⟩
      · rw [not_not] at hlength
        simp only [Bool.or_eq_true, decide_eq_true_eq, not_or, not_lt] at hbudget
        refine absurd ⟨?_, hw, hw', hh, hh', by omega, by omega, by omega⟩ h
        rwa [Bool.not_eq_true, Bool.not_eq_false'] at hid

end Store

section Steps
variable {n : Nat} {cache : CaptureCache} {l : Recency}

theorem insert_limits (cache : CaptureCache) (captureId : String) (pixels : RgbaImage) (expected : Nat) :
    (cache.insert captureId pixels expected).maxEntries = (cache.makeRoom captureId expected).maxEntries ∧
      (cache.insert captureId pixels expected).maxBytes = (cache.makeRoom captureId expected).maxBytes := by
  unfold CaptureCache.insert
  generalize cache.makeRoom captureId expected = room
  cases room
  exact ⟨rfl, rfl⟩

/-- **Every call answers as the list does**, and the cache mirrors the list after it. -/
theorem mirrors_call (h : Mirrors n cache l) (hwrap : Unwrapped cache.maxBytes (n + 1)) (call : Call) :
    (cache.call call).1 = (l.call cache.maxEntries cache.maxBytes call).1 ∧
      Mirrors (n + 1) (cache.call call).2 (l.call cache.maxEntries cache.maxBytes call).2 ∧
      (cache.call call).2.maxEntries = cache.maxEntries ∧ (cache.call call).2.maxBytes = cache.maxBytes := by
  cases call with
  | store captureId pixels =>
    rw [CaptureCache.call, Recency.call]
    by_cases hstorable : Recency.Storable cache.maxEntries cache.maxBytes captureId pixels
    · obtain ⟨hstore, hsmall⟩ := storeFrame_storable cache hstorable
      rw [if_pos hstorable, hstore]
      obtain ⟨order, hkept, -⟩ := h.kept
      have hroomy : cache.bytes + pixels.rgba.length < 2 ^ 64 := by
        have hbytes := h.bytes_eq
        have hwithin := h.within
        have htotal := h.small
        obtain ⟨hn, hmax | hn'⟩ := hwrap <;> omega
      obtain ⟨-, hmaxEntries, hmaxBytes, -, -⟩ := hkept.makeRoom hroomy captureId
      have hlimits := insert_limits cache captureId pixels pixels.rgba.length
      exact ⟨rfl, h.insert hwrap hstorable.1 hsmall hstorable.2.2.2.2.2.2.2, hlimits.1.trans hmaxEntries,
        hlimits.2.trans hmaxBytes⟩
    · obtain ⟨error, hstore⟩ := storeFrame_refused cache hstorable
      rw [if_neg hstorable, hstore]
      exact ⟨rfl, h.later, rfl, rfl⟩
  | find captureId =>
    obtain ⟨order, hkept, hframes⟩ := h.kept
    have hlist : l.lookup captureId = (cache.entries.lookup captureId).map Entry.pixels := by
      rw [← hframes, frames_lookup, hkept.listed.lookup_eq]
    rw [CaptureCache.call, Recency.call, CaptureCache.find, hlist]
    cases hlookup : cache.entries.lookup captureId with
    | none =>
      split_ifs
      · exact ⟨rfl, h.later, rfl, rfl⟩
      · exact ⟨rfl, h.later, rfl, rfl⟩
    | some entry =>
      have hvalid : validCaptureId captureId = true := by
        rw [hlookup] at hlist
        exact h.valid _ (List.mem_of_lookup hlist)
      rw [hvalid, Bool.not_true, if_neg Bool.false_ne_true]
      refine ⟨rfl, h.find hwrap hlookup, ?_, ?_⟩
      · cases cache; rfl
      · cases cache; rfl

/-- **So they answer alike through every sequence of calls** in which nothing wraps. -/
theorem mirrors_run (h : Mirrors n cache l) (calls : List Call) (hwrap : Unwrapped cache.maxBytes (n + calls.length)) :
    (cache.run calls).1 = (l.run cache.maxEntries cache.maxBytes calls).1 ∧
      Mirrors (n + calls.length) (cache.run calls).2 (l.run cache.maxEntries cache.maxBytes calls).2 ∧
      (cache.run calls).2.maxEntries = cache.maxEntries ∧ (cache.run calls).2.maxBytes = cache.maxBytes := by
  induction calls generalizing n cache l with
  | nil => exact ⟨rfl, h, rfl, rfl⟩
  | cons call calls ih =>
    rw [List.length_cons] at hwrap ⊢
    have hfirst : Unwrapped cache.maxBytes (n + 1) := by
      obtain ⟨hn, hmax⟩ := hwrap
      exact ⟨by omega, by omega⟩
    obtain ⟨hanswer, hmirrors, hmaxEntries, hmaxBytes⟩ := mirrors_call h hfirst call
    have hrest := ih hmirrors (by rw [hmaxBytes, Nat.add_assoc, Nat.add_comm 1]; exact hwrap)
    rw [hmaxEntries, hmaxBytes, Nat.add_assoc, Nat.add_comm 1] at hrest
    obtain ⟨hanswers, hmirrors', hmaxEntries', hmaxBytes'⟩ := hrest
    rw [CaptureCache.run, Recency.run]
    exact ⟨congrArg₂ List.cons hanswer hanswers, hmirrors', hmaxEntries', hmaxBytes'⟩

theorem mirrors_empty (maxEntries maxBytes : Nat) :
    Mirrors 0 { maxEntries := maxEntries, maxBytes := maxBytes } [] where
  kept := ⟨[], ⟨.empty, rfl⟩, rfl⟩
  within := Nat.zero_le _
  clock := Nat.le_refl _
  recent := fun e he => by cases he
  valid := fun e he => by cases he
  small := Nat.zero_le _

end Steps

/-! ## Every run -/

/-- A cache with the given limits does what the list does, and counts the bytes of its frames within its budget. -/
structure LeastRecentlyUsed (maxEntries maxBytes : Nat) (calls : List Call) : Prop where
  answers : (CaptureCache.run { maxEntries := maxEntries, maxBytes := maxBytes } calls).1 =
    (Recency.run maxEntries maxBytes [] calls).1
  frames : ∃ order, List.Listed Entry.lastUsed
      (CaptureCache.run { maxEntries := maxEntries, maxBytes := maxBytes } calls).2.entries order ∧
    frames order = (Recency.run maxEntries maxBytes [] calls).2
  bytes : (CaptureCache.run { maxEntries := maxEntries, maxBytes := maxBytes } calls).2.bytes =
    Recency.total (Image.frames (CaptureCache.run { maxEntries := maxEntries, maxBytes := maxBytes } calls).2.entries)
  within : (CaptureCache.run { maxEntries := maxEntries, maxBytes := maxBytes } calls).2.bytes ≤ maxBytes

/-- **The cache is a least recently used list within its budget**, until its clock or its byte count wraps; and a
refused store never changes it. -/
theorem leastRecentlyUsed (maxEntries maxBytes : Nat) (calls : List Call) (hclock : calls.length < 2 ^ 64)
    (hbytes : maxBytes + 2 ^ 24 < 2 ^ 64 ∨ calls.length < 2 ^ 40) :
    LeastRecentlyUsed maxEntries maxBytes calls ∧
      ∀ (cache : CaptureCache) (captureId : String) (pixels : RgbaImage),
        (cache.call (.store captureId pixels)).1 = .refused → (cache.call (.store captureId pixels)).2 = cache := by
  refine ⟨?_, ?_⟩
  · have hwrap : Unwrapped maxBytes (0 + calls.length) := by
      rw [Nat.zero_add]
      exact ⟨hclock, hbytes⟩
    obtain ⟨hanswers, hmirrors, -, hmaxBytes⟩ := mirrors_run (mirrors_empty maxEntries maxBytes) calls hwrap
    obtain ⟨order, hkept, hframes⟩ := hmirrors.kept
    have hwithin := hmirrors.within
    rw [hmaxBytes] at hwithin
    refine ⟨hanswers, ⟨order, hkept.listed, hframes⟩, ?_, hwithin⟩
    rw [hkept.bytes]
    exact Recency.total_perm (hkept.listed.perm.map _)
  · intro cache captureId pixels hrefused
    rw [CaptureCache.call] at hrefused ⊢
    by_cases hstorable : Recency.Storable cache.maxEntries cache.maxBytes captureId pixels
    · rw [(storeFrame_storable cache hstorable).1] at hrefused
      cases hrefused
    · obtain ⟨error, hstore⟩ := storeFrame_refused cache hstorable
      rw [hstore]

/-- One pixel. -/
def pixel : RgbaImage := { width := 1, height := 1, rgba := [0, 0, 0, 255] }

/-- Two frames are stored where two fit. The first is found, so the third one evicts the second. -/
def crowding : List Call :=
  let id (c : Char) := String.ofList (List.replicate 32 c)
  [.store (id 'a') pixel, .store (id 'b') pixel, .find (id 'a'), .store (id 'c') pixel, .find (id 'b')]

theorem leastRecentlyUsed_crowding : LeastRecentlyUsed 2 64 crowding ∧
    (Recency.run 2 64 [] crowding).1 = [.stored, .stored, .found (some pixel), .stored, .found none] :=
  ⟨(leastRecentlyUsed 2 64 crowding (by decide) (.inl (by decide))).1, by decide⟩

/-! ## Where the clock or the bytes wrap -/

def hexDigits : Nat → Nat → List Char
  | 0, _ => []
  | digits + 1, n => Nat.digitChar (n % 16) :: hexDigits digits (n / 16)

/-- The id with a number in it, its last digit first. -/
def numberedId (n : Nat) : String := String.ofList (hexDigits 32 n)

theorem digitChar_inj {a b : Nat} (ha : a < 16) (hb : b < 16) (h : a.digitChar = b.digitChar) : a = b := by
  have hall : ∀ a ∈ List.range 16, ∀ b ∈ List.range 16, a.digitChar = b.digitChar → a = b := by decide
  exact hall a (List.mem_range.mpr ha) b (List.mem_range.mpr hb) h

theorem hexDigits_inj (digits : Nat) {m n : Nat} (hm : m < 16 ^ digits) (hn : n < 16 ^ digits)
    (h : hexDigits digits m = hexDigits digits n) : m = n := by
  induction digits generalizing m n with
  | zero =>
    rw [Nat.pow_zero] at hm hn
    omega
  | succ digits ih =>
    rw [hexDigits, hexDigits] at h
    injection h with hhead htail
    have hlast := digitChar_inj (Nat.mod_lt _ (by decide)) (Nat.mod_lt _ (by decide)) hhead
    rw [Nat.pow_succ] at hm hn
    have hrest := ih (Nat.div_lt_of_lt_mul (by omega)) (Nat.div_lt_of_lt_mul (by omega)) htail
    omega

theorem digitChar_hex {a : Nat} (ha : a < 16) : a.digitChar.utf8Size = 1 ∧
    (('0' ≤ a.digitChar && a.digitChar ≤ '9') || ('a' ≤ a.digitChar && a.digitChar ≤ 'f')) = true := by
  have hall : ∀ a ∈ List.range 16, a.digitChar.utf8Size = 1 ∧
      (('0' ≤ a.digitChar && a.digitChar ≤ '9') || ('a' ≤ a.digitChar && a.digitChar ≤ 'f')) = true := by decide
  exact hall a (List.mem_range.mpr ha)

theorem utf8ByteSize_hexDigits (digits n : Nat) : (String.ofList (hexDigits digits n)).utf8ByteSize = digits := by
  induction digits generalizing n with
  | zero => rfl
  | succ digits ih =>
    rw [hexDigits, String.ofList_cons, String.utf8ByteSize_append, String.utf8ByteSize_singleton, ih,
      (digitChar_hex (Nat.mod_lt n (by decide))).1, Nat.add_comm]

theorem hexDigits_all (digits n : Nat) :
    ((hexDigits digits n).all fun c => ('0' ≤ c && c ≤ '9') || ('a' ≤ c && c ≤ 'f')) = true := by
  induction digits generalizing n with
  | zero => rfl
  | succ digits ih =>
    rw [hexDigits, List.all_cons, ih, Bool.and_true]
    exact (digitChar_hex (Nat.mod_lt n (by decide))).2

theorem validCaptureId_numberedId (n : Nat) : validCaptureId (numberedId n) = true := by
  rw [validCaptureId, numberedId, utf8ByteSize_hexDigits, String.toList_ofList, hexDigits_all]
  rfl

theorem numberedId_inj {m n : Nat} (hm : m < 2 ^ 40) (hn : n < 2 ^ 40) (h : numberedId m = numberedId n) : m = n := by
  have hpow : 2 ^ 40 < 16 ^ 32 := by decide
  exact hexDigits_inj 32 (hm.trans hpow) (hn.trans hpow) (String.ofList_injective h)

theorem CaptureCache.run_append (cache : CaptureCache) (calls calls' : List Call) :
    (cache.run (calls ++ calls')).2 = ((cache.run calls).2.run calls').2 := by
  induction calls generalizing cache with
  | nil => rfl
  | cons call calls ih => exact ih (cache.call call).2

theorem CaptureCache.run_single (cache : CaptureCache) (call : Call) :
    (cache.run [call]).2 = (cache.call call).2 := rfl

theorem Recency.run_append (maxEntries maxBytes : Nat) (l : Recency) (calls calls' : List Call) :
    (l.run maxEntries maxBytes (calls ++ calls')).2 =
      ((l.run maxEntries maxBytes calls).2.run maxEntries maxBytes calls').2 := by
  induction calls generalizing l with
  | nil => rfl
  | cons call calls ih => exact ih (l.call maxEntries maxBytes call).2

/-- Two frames, the first of them found again and again. -/
def pair (clock used : Nat) : CaptureCache :=
  { maxEntries := 2, maxBytes := 8, bytes := 8, clock := clock
    entries := [(numberedId 0, { pixels := pixel, lastUsed := used }),
      (numberedId 1, { pixels := pixel, lastUsed := 2 })] }

theorem pair_find {clock : Nat} (hclock : clock + 1 < 2 ^ 64) (used : Nat) :
    ((pair clock used).call (.find (numberedId 0))).2 = pair (clock + 1) (clock + 1) := by
  have htick : (pair clock used).tick = clock + 1 := word_eq hclock
  have hfind : (pair clock used).entries.lookup (numberedId 0) = some { pixels := pixel, lastUsed := used } := by
    rw [pair, List.lookup_cons_eq, if_pos rfl]
  rw [CaptureCache.call, CaptureCache.find, validCaptureId_numberedId, Bool.not_true, if_neg Bool.false_ne_true, hfind]
  simp only [htick]
  rw [pair, List.alterKey, if_pos rfl, pair]

theorem pair_finds (n : Nat) {clock : Nat} (hclock : clock + n < 2 ^ 64) :
    ((pair clock clock).run (List.replicate n (.find (numberedId 0)))).2 = pair (clock + n) (clock + n) := by
  induction n generalizing clock with
  | zero => rfl
  | succ n ih =>
    rw [List.replicate_succ, CaptureCache.run]
    have hnext : clock + 1 < 2 ^ 64 := by omega
    have hlater : clock + 1 + n < 2 ^ 64 := by omega
    have hcall := pair_find hnext clock
    have hrest := ih hlater
    rw [← hcall, Nat.add_assoc, Nat.add_comm 1] at hrest
    exact hrest

/-- The first frame is found until the clock is at its end, and then the second one, before a third one comes. -/
def clockCalls : List Call :=
  [.store (numberedId 0) pixel, .store (numberedId 1) pixel, .find (numberedId 0)] ++
    (List.replicate (2 ^ 64 - 4) (.find (numberedId 0)) ++
      [.find (numberedId 1), .store (numberedId 2) pixel])

theorem clockCalls_cache :
    (CaptureCache.run { maxEntries := 2, maxBytes := 8 } clockCalls).2.entries.map Prod.fst =
      [numberedId 0, numberedId 2] := by
  have hfirst : (CaptureCache.run { maxEntries := 2, maxBytes := 8 }
      [.store (numberedId 0) pixel, .store (numberedId 1) pixel, .find (numberedId 0)]).2 = pair 3 3 := by
    decide +kernel
  have hlast : ((pair (2 ^ 64 - 1) (2 ^ 64 - 1)).run
      [.find (numberedId 1), .store (numberedId 2) pixel]).2.entries.map Prod.fst =
        [numberedId 0, numberedId 2] := by
    decide +kernel
  rw [clockCalls, CaptureCache.run_append, hfirst, CaptureCache.run_append,
    pair_finds (2 ^ 64 - 4) (show 3 + (2 ^ 64 - 4) < 2 ^ 64 by decide)]
  exact hlast

theorem clockCalls_list :
    (Recency.run 2 8 [] clockCalls).2 = [(numberedId 1, pixel), (numberedId 2, pixel)] := by
  have hfirst : (Recency.run 2 8 []
      [.store (numberedId 0) pixel, .store (numberedId 1) pixel, .find (numberedId 0)]).2 =
        [(numberedId 1, pixel), (numberedId 0, pixel)] := by
    decide
  have hagain : (Recency.call 2 8 [(numberedId 1, pixel), (numberedId 0, pixel)] (.find (numberedId 0))).2 =
      [(numberedId 1, pixel), (numberedId 0, pixel)] := by
    decide
  have hfinds : ∀ n, (Recency.run 2 8 [(numberedId 1, pixel), (numberedId 0, pixel)]
      (List.replicate n (.find (numberedId 0)))).2 = [(numberedId 1, pixel), (numberedId 0, pixel)] := by
    intro n
    induction n with
    | zero => rfl
    | succ n ih =>
      rw [List.replicate_succ, Recency.run]
      exact hagain.symm ▸ ih
  have hlast : (Recency.run 2 8 [(numberedId 1, pixel), (numberedId 0, pixel)]
      [.find (numberedId 1), .store (numberedId 2) pixel]).2 = [(numberedId 1, pixel), (numberedId 2, pixel)] := by
    decide
  rw [clockCalls, Recency.run_append, hfirst, Recency.run_append, hfinds]
  exact hlast

/-- The largest frame. -/
def largest : RgbaImage := { width := 2048, height := 2048, rgba := List.replicate (2 ^ 24) 0 }

theorem largest_length : largest.rgba.length = 2 ^ 24 := List.length_replicate

theorem largest_storable (n : Nat) : Recency.Storable (2 ^ 40) (2 ^ 64 - 1) (numberedId n) largest := by
  refine ⟨validCaptureId_numberedId n, by decide, by decide, by decide, by decide, ?_, by decide, ?_⟩
  · rw [largest_length]
    rfl
  · rw [largest_length]
    decide

/-- Frames of the largest size at as many ids. -/
def largestCalls (n : Nat) : List Call := (List.range n).map fun i => .store (numberedId i) largest

def largestFrames (n : Nat) : Recency := (List.range n).map fun i => (numberedId i, largest)

theorem largestFrames_succ (n : Nat) : largestFrames (n + 1) = largestFrames n ++ [(numberedId n, largest)] := by
  rw [largestFrames, List.range_succ, List.map_append, largestFrames]
  rfl

theorem length_largestFrames (n : Nat) : (largestFrames n).length = n := by
  rw [largestFrames, List.length_map, List.length_range]

theorem total_largestFrames (n : Nat) : (largestFrames n).total = n * 2 ^ 24 := by
  induction n with
  | zero => rfl
  | succ n ih =>
    rw [largestFrames_succ, Recency.total_append, ih]
    simp only [Recency.total, largest_length]
    omega

theorem lookup_largestFrames {n : Nat} (hn : n < 2 ^ 40) : (largestFrames n).lookup (numberedId n) = none := by
  rw [List.lookup_eq_none_iff]
  intro e he
  obtain ⟨i, hi, rfl⟩ := List.mem_map.mp he
  have hlt := List.mem_range.mp hi
  refine bne_iff_ne.mpr fun h => ?_
  have heq := numberedId_inj hn (hlt.trans hn) h
  omega

theorem largestCalls_list {n : Nat} (hn : n < 2 ^ 40) :
    (Recency.run (2 ^ 40) (2 ^ 64 - 1) [] (largestCalls n)).2 = largestFrames n := by
  induction n with
  | zero => rfl
  | succ n ih =>
    have hcalls : largestCalls (n + 1) = largestCalls n ++ [.store (numberedId n) largest] := by
      rw [largestCalls, List.range_succ, List.map_append, largestCalls]
      rfl
    have hfits : (largestFrames n).fits (2 ^ 40) (2 ^ 64 - 1) largest.rgba.length = true := by
      rw [Recency.fits, length_largestFrames, total_largestFrames, largest_length, Bool.and_eq_true,
        decide_eq_true_eq, decide_eq_true_eq]
      omega
    have hkept : List.dropUntil (Recency.fits (2 ^ 40) (2 ^ 64 - 1) largest.rgba.length) (largestFrames n) =
        largestFrames n := by
      cases hframes : largestFrames n with
      | nil => rfl
      | cons e l =>
        rw [hframes] at hfits
        rw [List.dropUntil, if_pos hfits]
    rw [hcalls, Recency.run_append, ih (by omega), Recency.run, Recency.call, if_pos (largest_storable n),
      List.eraseKey_eq_self (lookup_largestFrames (by omega)), hkept, largestFrames_succ]
    rfl

theorem makeRoom_of_not_crowded {cache : CaptureCache} {k : String} {expected : Nat}
    (hk : cache.entries.lookup k = none) (h : cache.crowded expected = false) : cache.makeRoom k expected = cache := by
  have hvacate : cache.vacate k = cache := by
    rw [CaptureCache.vacate, hk]
  rw [CaptureCache.makeRoom, hvacate]
  cases cache.entries.length with
  | zero => rfl
  | succ rounds =>
    rw [CaptureCache.evict]
    cases cache.entries.argmin (fun e => e.2.lastUsed) with
    | none => rfl
    | some oldest => simp only [h, Bool.false_eq_true, if_false]

/-- A frame with which the bytes wrap to nothing. -/
theorem insert_wrapped {cache : CaptureCache} {k : String} (pixels : RgbaImage) {expected : Nat}
    (hroom : cache.makeRoom k expected = cache) (hzero : word (cache.bytes + expected) = 0) :
    (cache.insert k pixels expected).bytes = 0 ∧
      pixels.rgba.length ≤ Recency.total (frames (cache.insert k pixels expected).entries) := by
  rw [CaptureCache.insert, hroom, hzero]
  refine ⟨rfl, ?_⟩
  rw [frames, List.map_append, Recency.total_append]
  exact Nat.le_add_left_of_le (Nat.le_add_right _ _)

/-- When the frames have as many bytes as a word can tell, the count is zero again and none of them goes. -/
theorem largestCalls_bytes :
    (CaptureCache.run { maxEntries := 2 ^ 40, maxBytes := 2 ^ 64 - 1 }
      (largestCalls (2 ^ 40 - 1) ++ [.store (numberedId (2 ^ 40 - 1)) largest])).2.bytes = 0 ∧
    2 ^ 24 ≤ Recency.total (frames (CaptureCache.run { maxEntries := 2 ^ 40, maxBytes := 2 ^ 64 - 1 }
      (largestCalls (2 ^ 40 - 1) ++ [.store (numberedId (2 ^ 40 - 1)) largest])).2.entries) := by
  have hlength : (largestCalls (2 ^ 40 - 1)).length = 2 ^ 40 - 1 := by
    rw [largestCalls, List.length_map, List.length_range]
  have hwrap : Unwrapped (2 ^ 64 - 1) (0 + (largestCalls (2 ^ 40 - 1)).length) := by
    rw [hlength]
    exact ⟨by decide, .inr (by decide)⟩
  obtain ⟨-, hmirrors, hmaxEntries, hmaxBytes⟩ :=
    mirrors_run (mirrors_empty (2 ^ 40) (2 ^ 64 - 1)) (largestCalls (2 ^ 40 - 1)) hwrap
  have hbytes := hmirrors.bytes_eq
  obtain ⟨order, hkept, hframes⟩ := hmirrors.kept
  rw [CaptureCache.run_append]
  generalize (CaptureCache.run { maxEntries := 2 ^ 40, maxBytes := 2 ^ 64 - 1 } (largestCalls (2 ^ 40 - 1))).2 = cache at *
  change (frames order) = (Recency.run (2 ^ 40) (2 ^ 64 - 1) [] (largestCalls (2 ^ 40 - 1))).2 at hframes
  change cache.bytes = Recency.total (Recency.run (2 ^ 40) (2 ^ 64 - 1) [] (largestCalls (2 ^ 40 - 1))).2 at hbytes
  change cache.maxEntries = 2 ^ 40 at hmaxEntries
  change cache.maxBytes = 2 ^ 64 - 1 at hmaxBytes
  rw [largestCalls_list (by decide)] at hframes hbytes
  rw [total_largestFrames] at hbytes
  have hlookup : cache.entries.lookup (numberedId (2 ^ 40 - 1)) = none := by
    have hlist := frames_lookup (numberedId (2 ^ 40 - 1)) order
    rw [hframes, lookup_largestFrames (by decide), ← hkept.listed.lookup_eq] at hlist
    exact Option.map_eq_none_iff.mp hlist.symm
  have hsum : cache.bytes + 2 ^ 24 = 2 ^ 64 := by omega
  have hcount : cache.entries.length = 2 ^ 40 - 1 := by
    rw [hkept.listed.length_eq, ← length_largestFrames (2 ^ 40 - 1), ← hframes, frames, List.length_map]
  have hzero : word (2 ^ 64) = 0 := by
    rw [word, Nat.mod_self]
  have hcrowded : cache.crowded (2 ^ 24) = false := by
    rw [CaptureCache.crowded, hsum, hzero, hcount, hmaxEntries, Bool.or_eq_false_iff]
    exact ⟨decide_eq_false (by omega), decide_eq_false (Nat.not_lt_zero _)⟩
  have hstore : cache.storeFrame (numberedId (2 ^ 40 - 1)) largest =
      (.ok (), cache.insert (numberedId (2 ^ 40 - 1)) largest (2 ^ 24)) := by
    have hstorable : Recency.Storable cache.maxEntries cache.maxBytes (numberedId (2 ^ 40 - 1)) largest := by
      rw [hmaxEntries, hmaxBytes]
      exact largest_storable _
    have hstored := (storeFrame_storable cache hstorable).1
    rwa [largest_length] at hstored
  have hroom := makeRoom_of_not_crowded hlookup hcrowded
  have hlast : (cache.run [.store (numberedId (2 ^ 40 - 1)) largest]).2 =
      cache.insert (numberedId (2 ^ 40 - 1)) largest (2 ^ 24) := by
    rw [CaptureCache.run_single, CaptureCache.call, hstore]
  rw [hlast]
  have hinsert := insert_wrapped largest (makeRoom_of_not_crowded hlookup hcrowded) (by rw [hsum, hzero])
  exact ⟨hinsert.1, largest_length.symm.le.trans hinsert.2⟩

/-- Neither a clock nor a byte count that wraps does what the list does. -/
theorem not_leastRecentlyUsed :
    ¬ LeastRecentlyUsed 2 8 clockCalls ∧
      ¬ LeastRecentlyUsed (2 ^ 40) (2 ^ 64 - 1)
        (largestCalls (2 ^ 40 - 1) ++ [.store (numberedId (2 ^ 40 - 1)) largest]) := by
  constructor
  · intro h
    obtain ⟨order, hlisted, hframes⟩ := h.frames
    rw [clockCalls_list] at hframes
    have hmem : numberedId 1 ∈ order.map Prod.fst := by
      rw [← frames_keys, hframes]
      exact List.mem_cons_self
    have hthere := (hlisted.perm.map Prod.fst).mem_iff.mp hmem
    rw [clockCalls_cache] at hthere
    have hnot : numberedId 1 ∉ [numberedId 0, numberedId 2] := by decide
    exact hnot hthere
  · intro h
    have hbytes := h.bytes
    obtain ⟨hzero, htotal⟩ := largestCalls_bytes
    rw [hzero] at hbytes
    omega

end Didi.Image
