import Didi.Common
import Didi.Lib.Recency

/-!
# The cache behind viewport captures

* `CaptureCache.storeFrame` : a frame is kept at its id, and the least recently used ones go when there is no room;
* `CaptureCache.find` : a kept frame, used now.

Sizes and the clock are 64-bit words. The entries stand in the order of their arrival; the order of a hash map does
not matter, as no two of them were last used at the same time.
-/

namespace Didi.Image

def kMaxCaptureDimension : Int := 2048

structure RgbaImage where
  width : Int := 0
  height : Int := 0
  rgba : List UInt8 := []
deriving DecidableEq

def checkedRgbaSize (width height : Int) : Except Error Nat :=
  if width < 1 || height < 1 || kMaxCaptureDimension < width || kMaxCaptureDimension < height then
    .error (Error.invalidArgument "Image dimensions must be from 1 to 2048 pixels")
  else if (2 ^ 64 - 1) / 4 < width.toNat * height.toNat then
    .error (Error.invalidArgument "Image dimensions overflow RGBA storage")
  else .ok (width.toNat * height.toNat * 4)

def validCaptureId (value : String) : Bool :=
  value.utf8ByteSize = 32 && value.toList.all fun c => ('0' ≤ c && c ≤ '9') || ('a' ≤ c && c ≤ 'f')

/-- A 64-bit word. -/
@[irreducible] def word (n : Nat) : Nat := n % 2 ^ 64

theorem word_eq {n : Nat} (h : n < 2 ^ 64) : word n = n := by
  rw [word, Nat.mod_eq_of_lt h]

structure Entry where
  pixels : RgbaImage
  lastUsed : Nat := 0
deriving DecidableEq

structure CaptureCache where
  maxEntries : Nat := 8
  maxBytes : Nat := 64 * 1024 * 1024
  bytes : Nat := 0
  clock : Nat := 0
  entries : List (String × Entry) := []
deriving DecidableEq

namespace CaptureCache

/-- The next tick of the clock. -/
def tick (cache : CaptureCache) : Nat := word (cache.clock + 1)

/-- The cache without the entry at an id, which is there. -/
def without (cache : CaptureCache) (captureId : String) (entry : Entry) : CaptureCache :=
  { cache with
    bytes := word (cache.bytes + 2 ^ 64 - entry.pixels.rgba.length)
    entries := cache.entries.eraseKey captureId }

section Without
variable (cache : CaptureCache) (captureId : String) (entry : Entry)

@[simp] theorem without_maxEntries : (cache.without captureId entry).maxEntries = cache.maxEntries := by
  cases cache; rfl

@[simp] theorem without_maxBytes : (cache.without captureId entry).maxBytes = cache.maxBytes := by
  cases cache; rfl

@[simp] theorem without_clock : (cache.without captureId entry).clock = cache.clock := by
  cases cache; rfl

@[simp] theorem without_entries : (cache.without captureId entry).entries = cache.entries.eraseKey captureId := by
  cases cache; rfl

end Without

/-- Whether an entry must go before a frame of the given size comes. -/
def crowded (cache : CaptureCache) (expected : Nat) : Bool :=
  cache.maxEntries ≤ cache.entries.length || cache.maxBytes < word (cache.bytes + expected)

/-- The loop that evicts, for as many rounds as there are entries. -/
def evict (expected : Nat) : Nat → CaptureCache → CaptureCache
  | 0, cache => cache
  | rounds + 1, cache =>
    match cache.entries.argmin (fun e => e.2.lastUsed) with
    | none => cache
    | some oldest =>
      if cache.crowded expected then evict expected rounds (cache.without oldest.1 oldest.2) else cache

/-- The cache without the entry at an id, if it is there. -/
def vacate (cache : CaptureCache) (captureId : String) : CaptureCache :=
  match cache.entries.lookup captureId with
  | some existing => cache.without captureId existing
  | none => cache

/-- The cache with room for a frame of the given size. -/
def makeRoom (cache : CaptureCache) (captureId : String) (expected : Nat) : CaptureCache :=
  evict expected (cache.vacate captureId).entries.length (cache.vacate captureId)

def insert (cache : CaptureCache) (captureId : String) (pixels : RgbaImage) (expected : Nat) : CaptureCache :=
  let room := cache.makeRoom captureId expected
  { room with
    bytes := word (room.bytes + expected)
    clock := room.tick
    entries := room.entries ++ [(captureId, { pixels := pixels, lastUsed := room.tick })] }

def storeFrame (cache : CaptureCache) (captureId : String) (pixels : RgbaImage) : Except Error Unit × CaptureCache :=
  if !validCaptureId captureId then
    (.error (Error.invalidArgument "capture_id must contain exactly 32 lowercase hexadecimal characters"), cache)
  else match checkedRgbaSize pixels.width pixels.height with
    | .error error => (.error error, cache)
    | .ok expected =>
      if pixels.rgba.length ≠ expected then
        (.error (Error.invalidArgument "Capture RGBA storage does not match its dimensions"), cache)
      else if cache.maxEntries = 0 || cache.maxBytes < expected then
        (.error (Error.invalidArgument "Capture exceeds the configured cache budget"), cache)
      else (.ok (), cache.insert captureId pixels expected)

def find (cache : CaptureCache) (captureId : String) : Option RgbaImage × CaptureCache :=
  if !validCaptureId captureId then (none, cache)
  else match cache.entries.lookup captureId with
    | none => (none, cache)
    | some found =>
      (some found.pixels,
        { cache with
          clock := cache.tick
          entries := cache.entries.alterKey captureId fun entry => { entry with lastUsed := cache.tick } })

end CaptureCache

/-! ## Calls -/

inductive Call
  | store (captureId : String) (pixels : RgbaImage)
  | find (captureId : String)

/-- What a call answers: that a frame was stored or refused, or the frame that was found. -/
inductive Answer
  | stored
  | refused
  | found (pixels : Option RgbaImage)
deriving DecidableEq

def CaptureCache.call (cache : CaptureCache) : Call → Answer × CaptureCache
  | .store captureId pixels =>
    match cache.storeFrame captureId pixels with
    | (.ok _, cache) => (.stored, cache)
    | (.error _, cache) => (.refused, cache)
  | .find captureId =>
    let (pixels, cache) := cache.find captureId
    (.found pixels, cache)

def CaptureCache.run : CaptureCache → List Call → List Answer × CaptureCache
  | cache, [] => ([], cache)
  | cache, call :: calls =>
    let (answer, cache) := cache.call call
    let (answers, cache) := cache.run calls
    (answer :: answers, cache)

end Didi.Image
