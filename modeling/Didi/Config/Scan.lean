import Didi.Config.Values

/-!
# The scan of a configuration file

`scanLine` reads one line from the state that the lines before it left, `scan` a whole text. A state holds
its entries and headers with the latest first.

`loadFailure` : why the engine does not load a file, if the scan shows that it does not.
-/

namespace Didi.Config

/-- One key that the engine registers. -/
structure Entry where
  sectionName : Text
  key : Text
  valueText : Text
  keyOnLine : Text
  keyLine : Nat
  line : Nat
  valueEndLine : Nat
  joined : Bool

structure Header where
  name : Text
  line : Nat

structure Scan where
  entries : List Entry
  headers : List Header
  complete : Bool
  trailingKey : Bool

/-- Where the scan stands between two lines. -/
structure ScanState where
  entries : List Entry := []
  headers : List Header := []
  pending : Text := []
  pendingLine : Nat := 0
  sectionName : Text := []
  value : ValueState := {}
  inValue : Bool := false
  number : Nat := 0

/-- A line that is a header where a key could start. -/
def isHeader (line : Text) : Bool := 2 ≤ line.length && line.head? = some '[' && line.getLast? = some ']'

def headerName (line : Text) : Text := trimmedView (line.drop 1).dropLast

namespace ScanState

def header (st : ScanState) (line : Text) : ScanState :=
  { st with sectionName := headerName line, headers := ⟨headerName line, st.number⟩ :: st.headers }

/-- The key text so far; its first token's line is kept. -/
def keyText (st : ScanState) (pending : Text) : ScanState :=
  { st with pending, pendingLine := if st.pending.isEmpty then st.number else st.pendingLine }

/-- The entry of a key that is closed on this line, where `pending` begins. -/
def entry (st : ScanState) (pending keyOnLine piece : Text) : Entry :=
  { sectionName := st.sectionName, key := pending, valueText := appendValueText [] piece, keyOnLine,
    keyLine := st.pendingLine, line := st.number, valueEndLine := st.number,
    joined := st.pendingLine ≠ st.number }

/-- A key, and what its line holds of the value. -/
def key (st : ScanState) (pending keyOnLine piece : Text) (finished : Bool) (value : ValueState) : ScanState :=
  let st := st.keyText pending
  { st with entries := st.entry pending keyOnLine piece :: st.entries, pending := [], value, inValue := !finished }

/-- What a line adds to the value that is open. -/
def extend (st : ScanState) (piece : Text) : ScanState :=
  match st.entries with
  | [] => st
  | entry :: entries =>
    { st with entries :=
        { entry with valueEndLine := st.number, valueText := appendValueText entry.valueText piece } :: entries }

/-- A line while a value is open. A line that the value does not reach into is no part of it. -/
def valueLine (st : ScanState) (raw : Text) : ScanState :=
  let (finished, value, stop) := advanceValue raw st.value
  { (if 0 < stop then st.extend (raw.take stop) else st) with value, inValue := !finished }

def nextLine (st : ScanState) : ScanState := { st with number := st.number + 1 }

end ScanState

/-- The rest of a line, where a key could start. -/
def scanText : Nat → ScanState → Text → ScanState
  | 0, st, _ => st
  | fuel + 1, st, text =>
    let line := trimmedView text
    if line.isEmpty || line.head? = some ';' then st
    else if st.pending.isEmpty && isHeader line then st.header line
    else
      match appendKeyTokens line st.pending with
      | (pending, none) => st.keyText pending
      | (pending, some equals) =>
        let text := (text.dropWhile isSpace).drop (equals + 1)
        let (finished, value, stop) := advanceValue text {}
        let st := st.key pending (appendKeyTokens line []).1 (text.take stop) finished value
        if finished then scanText fuel st (text.drop stop) else st

/-- More steps than there are characters are never taken. -/
def scanRest (st : ScanState) (text : Text) : ScanState := scanText (text.length + 1) st text

def scanLine (st : ScanState) (raw : Text) : ScanState :=
  let st := st.nextLine
  if st.inValue then
    let stop := (advanceValue raw st.value).2.2
    let st := st.valueLine raw
    if st.inValue then st else scanRest st (raw.drop stop)
  else scanRest st raw

def scanLines (st : ScanState) (lines : List Text) : ScanState := lines.foldl scanLine st

namespace ScanState

def complete (st : ScanState) : Bool := !st.inValue || st.value.awaitingCall

def result (st : ScanState) : Scan :=
  ⟨st.entries.reverse, st.headers.reverse, st.complete, !st.pending.isEmpty⟩

end ScanState

def scan (text : Text) : Scan := (scanLines {} (linesOf text)).result

/-! ## Files that do not load -/

structure LoadFailure where
  unterminated : Bool := false
  sectionName : Text := []
  key : Text := []
  line : Nat := 0
  valueReason : String := ""

def loadFailure (scanned : Scan) : Option LoadFailure :=
  if !scanned.complete then
    match scanned.entries.getLast? with
    | none => some { unterminated := true }
    | some e => some { unterminated := true, sectionName := e.sectionName, key := e.key, line := e.line }
  else
    scanned.entries.findSome? fun e => (valueProblem e.valueText).map fun problem =>
      { sectionName := e.sectionName, key := e.key, line := e.line, valueReason := problem }

/-! ## What is registered -/

/-- What the engine registers by an entry. -/
def Entry.setting (e : Entry) : Text × Text × Text := (e.sectionName, e.key, e.valueText)

@[simp] theorem ScanState.extend_inValue (st : ScanState) (piece : Text) :
    (st.extend piece).inValue = st.inValue := by
  unfold ScanState.extend
  split <;> rfl

end Didi.Config
