import Didi.Common

/-!
# The ring of runtime log records

* `RuntimeLogRing.append` : a record is cut to its bounds, numbered and kept, and the oldest ones go when there
  are too many;
* `RuntimeLogRing.read` : a page of records from a cursor on.

A text is its bytes. The text of a JSON value is well formed, so what a bound leaves of it is its first
characters (`charsWithin`).
-/

namespace Didi.Log

abbrev Bytes := List UInt8

/-! ## Texts -/

/-- The width of a character by its first byte, and the bits of it that the byte holds. -/
def utf8Lead (first : UInt8) : Option (Nat × Nat) :=
  if first &&& 0x80 = 0 then some (1, first.toNat)
  else if first &&& 0xE0 = 0xC0 && 0xC2 ≤ first then some (2, (first &&& 0x1F).toNat)
  else if first &&& 0xF0 = 0xE0 then some (3, (first &&& 0x0F).toNat)
  else if first &&& 0xF8 = 0xF0 && first ≤ 0xF4 then some (4, (first &&& 0x07).toNat)
  else none

/-- The width of the character that the bytes begin with, if they begin with one. -/
def utf8Width (first : UInt8) (rest : Bytes) : Option Nat :=
  match utf8Lead first with
  | none => none
  | some (width, lead) =>
    let others := rest.take (width - 1)
    let codepoint := others.foldl (fun codepoint next => codepoint * 64 + (next &&& 0x3F).toNat) lead
    if others.length = width - 1 && others.all (fun next => next &&& 0xC0 = 0x80) &&
        (width = 1 || (width = 2 && 0x80 ≤ codepoint) || (width = 3 && 0x800 ≤ codepoint) ||
          (width = 4 && 0x10000 ≤ codepoint)) &&
        !(0xD800 ≤ codepoint && codepoint ≤ 0xDFFF) && codepoint ≤ 0x10FFFF then some width
    else none

/-- The characters that fit into `room` bytes, after the `skip` bytes that belong to the last of them. -/
def truncateFrom : Bytes → Nat → Nat → Bytes
  | [], _, _ => []
  | byte :: rest, skip + 1, room => byte :: truncateFrom rest skip room
  | byte :: rest, 0, room =>
    match utf8Width byte rest with
    | none => if room < 1 then [] else '?'.toUInt8 :: truncateFrom rest 0 (room - 1)
    | some width => if room < width then [] else byte :: truncateFrom rest (width - 1) (room - width)

def truncateUtf8 (value : Bytes) (maximumBytes : Nat) : Bytes := truncateFrom value 0 maximumBytes

inductive EscapeState
  | plain
  | escape
  | control

def stripFrom : Bytes → EscapeState → Bytes
  | [], _ => []
  | byte :: rest, .plain =>
    if byte = 0x0D then stripFrom rest .plain
    else if byte = 0x1B then stripFrom rest .escape
    else byte :: stripFrom rest .plain
  | byte :: rest, .escape => if byte = '['.toUInt8 then stripFrom rest .control else stripFrom rest .plain
  | byte :: rest, .control =>
    if '@'.toUInt8 ≤ byte && byte ≤ '~'.toUInt8 then stripFrom rest .plain else stripFrom rest .control

def withoutTerminalEscapes (text : Bytes) : Bytes := stripFrom text .plain

/-! ## Records -/

inductive LogLevel
  | debug
  | info
  | warning
  | error
deriving DecidableEq, Repr

namespace LogLevel

def ofString : String → Option LogLevel
  | "debug" => some .debug
  | "info" => some .info
  | "warning" => some .warning
  | "error" => some .error
  | _ => none

/-- `levelRank`. -/
def rank : LogLevel → Nat
  | .debug => 0
  | .info => 1
  | .warning => 2
  | .error => 3

end LogLevel

structure LogRecord where
  sequence : Nat
  timestampMs : Int
  level : LogLevel
  source : Bytes
  message : Bytes
  details : Json
  -- whether the message or the source was cut
  clipped : Bool

def kMaxMessageBytes : Nat := 16 * 1024

def kMaxSourceBytes : Nat := 1024

def kMaxDetailsBytes : Nat := 64 * 1024

def kMaxSequence : Nat := 2 ^ 64 - 1

def charsWithin : List Char → Nat → List Char
  | [], _ => []
  | c :: rest, room => if room < c.utf8Size then [] else c :: charsWithin rest (room - c.utf8Size)

def truncatedDetails (preview : List Char) : Json :=
  .object [("preview", .string (String.ofList preview)), ("truncated", .boolean true)]

/-- The longest start of the preview with which the details fit. -/
def shrinkPreview : Nat → List Char → List Char
  | 0, preview => preview
  | steps + 1, preview =>
    if !preview.isEmpty && kMaxDetailsBytes < (truncatedDetails preview).dumpSize then
      shrinkPreview steps preview.dropLast
    else preview

/-- Details are null or an object. -/
def boundedDetails (details : Json) : Json :=
  match details with
  | .null => .null
  | details =>
    let normalized := if details.isObject then details else .object [("value", details)]
    if normalized.dumpSize ≤ kMaxDetailsBytes then normalized
    else
      let preview := charsWithin normalized.dump.toList kMaxDetailsBytes
      truncatedDetails (shrinkPreview preview.length preview)

/-- Details that `boundedDetails` cut, or that look as if it had. -/
def detailsCut (details : Json) : Bool :=
  match details with
  | .object members =>
    members.length = 2 && (members.lookup "preview").isSome && (match members.lookup "truncated" with
      | some (.boolean true) => true
      | _ => false)
  | _ => false

/-! ## The ring -/

structure RuntimeLogRing where
  capacity : Nat
  firstSequence : Nat
  nextSequence : Nat
  exhausted : Bool := false
  records : List LogRecord := []

/-- What a read answers. -/
structure LogPage where
  records : List LogRecord
  nextCursor : Nat
  oldestCursor : Nat
  droppedBeforeCursor : Bool
  hasMore : Bool
  sequenceOverflowed : Bool
  truncated : Bool

/-- How far a read has come. -/
structure PageWalk where
  records : List LogRecord := []
  nextCursor : Nat
  lastInspected : Option Nat := none
  anyClipped : Bool := false

namespace PageWalk

def inspect (w : PageWalk) (record : LogRecord) : PageWalk :=
  { w with lastInspected := some record.sequence
           nextCursor := if record.sequence = kMaxSequence then kMaxSequence else record.sequence + 1 }

def push (w : PageWalk) (record : LogRecord) : PageWalk :=
  { w with records := w.records ++ [record]
           anyClipped := w.anyClipped || record.clipped || detailsCut record.details }

end PageWalk

/-- The walk of a page along the records, up to its limit. -/
def walkPage (start limit : Nat) (minimum : LogLevel) : List LogRecord → PageWalk → PageWalk
  | [], w => w
  | record :: rest, w =>
    if record.sequence < start then walkPage start limit minimum rest w
    else
      let w := w.inspect record
      if record.level.rank < minimum.rank then walkPage start limit minimum rest w
      else
        let w := w.push record
        if limit ≤ w.records.length then w else walkPage start limit minimum rest w

namespace RuntimeLogRing

def create (capacity : Nat) (firstSequence : UInt64) : RuntimeLogRing :=
  let first := if firstSequence = 0 then 1 else firstSequence.toNat
  { capacity := max 1 capacity, firstSequence := first, nextSequence := first }

/-- The oldest records go while there are more than the ring holds. -/
def evict (ring : RuntimeLogRing) : RuntimeLogRing :=
  { ring with records := ring.records.drop (ring.records.length - ring.capacity) }

/-- The record of an append. -/
def recordOf (ring : RuntimeLogRing) (nowMs : Int) (level : LogLevel) (source message : Bytes) (details : Json) :
    LogRecord :=
  let text := withoutTerminalEscapes message
  { sequence := ring.nextSequence
    timestampMs := nowMs
    level
    source := truncateUtf8 source kMaxSourceBytes
    message := truncateUtf8 text kMaxMessageBytes
    details := boundedDetails details
    clipped := kMaxMessageBytes < text.length || kMaxSourceBytes < source.length }

def append (ring : RuntimeLogRing) (nowMs : Int) (level : String) (source message : Bytes) (details : Json) :
    Except Error Nat × RuntimeLogRing :=
  match LogLevel.ofString level with
  | none => (.error (Error.invalidArgument "Runtime log level must be debug, info, warning, or error"), ring)
  | some level =>
    if ring.exhausted then (.error { code := 507, message := "Runtime log sequence is exhausted" }, ring)
    else
      let record := ring.recordOf nowMs level source message details
      let ring := if ring.nextSequence = kMaxSequence then { ring with exhausted := true }
        else { ring with nextSequence := ring.nextSequence + 1 }
      (.ok record.sequence, { ring with records := ring.records ++ [record] }.evict)

def oldest (ring : RuntimeLogRing) : Nat := (ring.records.head?.map LogRecord.sequence).getD ring.nextSequence

/-- Whether the last record is at the number `from` or after it. -/
def reaches (ring : RuntimeLogRing) (number : Nat) : Bool :=
  ring.records.getLast?.any fun record => number ≤ record.sequence

/-- Whether the ring holds anything after what the page has inspected, whatever its level. -/
def holdsMore (ring : RuntimeLogRing) (start : Nat) (w : PageWalk) : Bool :=
  match w.lastInspected with
  | some last => ring.reaches (last + 1)
  | none => ring.reaches start

/-- The number a cursor stands for: 0 asks for everything that the ring still holds. -/
def requested (ring : RuntimeLogRing) (cursor : Nat) : Nat := if cursor = 0 then ring.firstSequence else cursor

def read (ring : RuntimeLogRing) (cursor limit : Nat) (minimumLevel : String) : Except Error LogPage :=
  if limit < 1 || 500 < limit then
    .error (Error.invalidArgument "Runtime log limit must be an integer from 1 to 500")
  else
    match LogLevel.ofString minimumLevel with
    | none =>
      .error (Error.invalidArgument "Runtime log minimum_level must be debug, info, warning, or error")
    | some minimum =>
      let dropped := !ring.records.isEmpty && ring.requested cursor < ring.oldest
      let start := max (ring.requested cursor) ring.oldest
      let w := walkPage start limit minimum ring.records { nextCursor := start }
      let hasMore := ring.holdsMore start w
      .ok { records := w.records, nextCursor := w.nextCursor, oldestCursor := ring.oldest,
            droppedBeforeCursor := dropped, hasMore, sequenceOverflowed := ring.exhausted,
            truncated := hasMore || dropped || w.anyClipped }

end RuntimeLogRing

end Didi.Log
