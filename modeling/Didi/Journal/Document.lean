import Didi.Json.Pointer
import Didi.Common
import Didi.Lib.Locked
import Didi.Blackboard.Board

/-!
# The change journal's file

* `Document` : the journal as its file holds it, oldest entry first;
* `parseDocument` : a document as this format writes it, or why it is not one;
* `append` : numbers an entry, marks the entry it undoes, and stores both, under the journal's lock;
* `findEntry` : one entry by its id.

`Disk` says what the file system refuses while a call runs. A call it refuses stores nothing.
-/

namespace Didi.Journal
open Locked
open Blackboard (Failure)

def kFormat : Int := 1
def kMaxEntries : Nat := 200
def kLockWait : Nat := 5000

/-! ## The time of an entry -/

/-- Year, month and day of a day counted from 1970-01-01, in the proleptic Gregorian calendar. -/
def civilDate (days : Int) : Int × Nat × Nat :=
  let shifted := days + 719468
  let era := shifted / 146097
  let dayOfEra := (shifted % 146097).toNat
  let yearOfEra := (dayOfEra - dayOfEra / 1460 + dayOfEra / 36524 - dayOfEra / 146096) / 365
  let dayOfYear := dayOfEra - (365 * yearOfEra + yearOfEra / 4 - yearOfEra / 100)
  -- years start in March here, so that a leap day is the last of its year
  let monthIndex := (5 * dayOfYear + 2) / 153
  let day := dayOfYear - (153 * monthIndex + 2) / 5 + 1
  let month := if monthIndex < 10 then monthIndex + 3 else monthIndex - 9
  (yearOfEra + era * 400 + (if month ≤ 2 then 1 else 0), month, day)

def padded (width : Nat) (n : Int) : String :=
  let text := toString n
  String.ofList (List.replicate (width - text.length) '0') ++ text

def isoTime (nowMs : Int) : String :=
  let seconds := nowMs.tdiv 1000
  let millis := nowMs.tmod 1000
  let (year, month, day) := civilDate (seconds / 86400)
  let second := seconds % 86400
  toString year ++ "-" ++ padded 2 month ++ "-" ++ padded 2 day ++ "T" ++
    padded 2 (second / 3600) ++ ":" ++ padded 2 (second / 60 % 60) ++ ":" ++ padded 2 (second % 60) ++
    "." ++ padded 3 millis ++ "Z"

example : isoTime 1709208000007 = "2024-02-29T12:00:00.007Z" := by decide

/-! ## The document -/

structure Document where
  /-- The members that no call reads after the format is checked, the format among them. -/
  others : JsonObject
  nextId : Int
  dropped : Int
  entries : List Json

def emptyDocument : Document where
  others := [("format", .integer kFormat)]
  nextId := 1
  dropped := 0
  entries := []

/-- The members `append` writes: those of `others` with the three it sets. -/
def Document.toJson (doc : Document) : Json :=
  .object (((doc.others.insertKey "next_id" (.integer doc.nextId)).insertKey "entries"
    (.array doc.entries)).insertKey "dropped" (.integer doc.dropped))

/-- What a journal's file reads as; `none` where its text is not JSON. -/
abbrev Content := Option Json

/-- One project's journal; `none` while there is no file. -/
abbrev File := Option Content

def unreadable (message : String) : Error where
  code := 500
  message := message
  data := .object [("code", .string "journal_unreadable")]

def formatNewer (format : Int) : Error where
  code := 409
  message := "The journal is in format " ++ toString format ++ ", newer than the format " ++
    toString kFormat ++ " this server writes. It was left as it is."
  data := .object [("code", .string "journal_format_newer")]

def parseDocument : Content → Except Error Document
  | some (.object members) =>
    match members.lookup "format" with
    | some (.integer format) =>
      if kFormat < Json.asSigned format then .error (formatNewer (Json.asSigned format))
      else
        match members.lookup "entries", members.lookup "next_id" with
        | some (.array entries), some (.integer nextId) => .ok
          { others := ((members.eraseKey "next_id").eraseKey "entries").eraseKey "dropped"
            nextId := nextId
            dropped := match members.lookup "dropped" with
              | some (.integer dropped) => dropped
              | _ => 0
            entries := entries }
        | _, _ => .error (unreadable "The journal has no entries list or next id.")
    | _ => .error (unreadable "The journal names no format.")
  | _ => .error (unreadable "The journal is not a JSON object.")

/-! ## One entry more -/

/-- The entry under its number and time. -/
def stamped (id nowMs : Int) (entry : JsonObject) : JsonObject :=
  (entry.insertKey "id" (.integer id)).insertKey "at" (.string (isoTime nowMs))

/-- An earlier entry, marked as undone by `id` where it is the one that `undone` names. -/
def markUndone (id undone : Int) (earlier : Json) : Except JsonException Json := do
  let earlierId ← earlier.valueInteger "id" 0
  match earlier with
  | .object members =>
    return if earlierId = undone then .object (members.insertKey "undone_by" (.integer id)) else earlier
  | _ => return earlier

/-- The kept entries, once the one that the new entry undoes is marked. -/
def markEarlier (id : Int) (entry : JsonObject) (entries : List Json) : Except JsonException (List Json) :=
  match entry.lookup "undoes" with
  | some (.integer undone) => entries.mapM (markUndone id undone)
  | _ => .ok entries

/-- Drops the oldest entries past the limit and counts them. -/
def trim (dropped : Int) : List Json → Int × List Json
  | [] => (dropped, [])
  | entry :: entries =>
    if kMaxEntries < (entry :: entries).length then trim (dropped + 1) entries
    else (dropped, entry :: entries)

def Document.append (doc : Document) (entry : JsonObject) (nowMs : Int) :
    Except JsonException (JsonObject × Document) := do
  let id := max doc.nextId 1
  let entry := stamped id nowMs entry
  let entries ← markEarlier id entry doc.entries
  let (dropped, entries) := trim doc.dropped (entries ++ [.object entry])
  return (entry, { doc with entries := entries, dropped := dropped, nextId := id + 1 })

/-! ## Calls under the lock -/

/-- What the file system refuses while a call runs, and with which message. -/
structure Disk where
  directory : Option String := none
  lockHeld : Bool := false
  read : Option Error := none
  move : Option String := none
  write : Option Error := none

abbrev JournalM := Locked File Failure

def refuse (e : Option Error) : JournalM Unit :=
  match e with
  | none => pure ()
  | some e => fail (.error e)

def liftThrows {α : Type} (r : Except JsonException α) : JournalM α := ofExcept (r.mapError .exception)

def load (disk : Disk) : JournalM Document := do
  match ← fetch with
  | none => return emptyDocument
  | some content =>
    refuse disk.read
    ofExcept ((parseDocument content).mapError .error)

/-- The document an append adds to. A file that does not parse is moved aside, and a document begun
that says where it went. -/
def openDocument (disk : Disk) (nowMs : Int) : JournalM Document := do
  match ← fetch with
  | none => return emptyDocument
  | some content =>
    refuse disk.read
    match parseDocument content with
    | .ok doc => return doc
    | .error e =>
      require (e.code ≠ 409) (.error e)
      refuse (disk.move.map fun message => .internal
        ("The journal does not parse and could not be moved aside: " ++ message))
      store none
      return { emptyDocument with
        others := emptyDocument.others.insertKey "recovered" (.object
          [("at", .string (isoTime nowMs)),
            ("moved_to", .string ("journal.unreadable-" ++ toString nowMs ++ ".json")),
            ("reason", .string e.message)]) }

def append (disk : Disk) (entry : JsonObject) (nowMs : Int) : JournalM JsonObject := do
  refuse (disk.directory.map fun message => .internal
    ("The project's .didi directory cannot be created: " ++ message))
  require (disk.lockHeld = false) (.error (.internal
    ("The journal lock stayed held for the whole " ++ toString kLockWait ++ " ms wait.")))
  let doc ← openDocument disk nowMs
  let (entry, doc) ← liftThrows (doc.append entry nowMs)
  refuse disk.write
  store (some (some doc.toJson))
  return entry

/-- The first entry that has the id. -/
def firstWithId (id : Int) : List Json → Except JsonException (Option Json)
  | [] => .ok none
  | entry :: entries => do
    let entryId ← entry.valueInteger "id" 0
    if entryId = id then return some entry else firstWithId id entries

def entryDropped (id oldest : Int) : Error where
  code := 404
  message := "Journal entry " ++ toString id ++ " was dropped: the journal keeps the last " ++
    toString kMaxEntries ++ " entries, and the oldest now is " ++ toString oldest ++ "."
  data := .object [("code", .string "journal_entry_not_found"), ("oldest_entry", .integer oldest)]

def noSuchEntry (id next : Int) : Error where
  code := 404
  message := "No journal entry " ++ toString id ++ " exists in this project."
  data := .object [("code", .string "journal_entry_not_found"), ("next_entry", .integer next)]

/-- The id of the oldest entry, or the next one where there is none. -/
def Document.oldest (doc : Document) : Except JsonException Int :=
  match doc.entries with
  | [] => .ok doc.nextId
  | entry :: _ => entry.valueInteger "id" doc.nextId

def findEntry (disk : Disk) (id : Int) : JournalM Json := do
  let doc ← load disk
  match ← liftThrows (firstWithId id doc.entries) with
  | some entry => return entry
  | none =>
    let oldest ← liftThrows doc.oldest
    require (¬ (1 ≤ id ∧ id < oldest)) (.error (entryDropped id oldest))
    fail (.error (noSuchEntry id doc.nextId))

end Didi.Journal
