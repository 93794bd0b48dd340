import Didi.Config.Text

/-!
# Keys and values of a configuration file

* `advanceValue` : how far a value reaches into a line, from a `ValueState` that earlier lines may have left;
* `appendKeyTokens` : what a line adds to a key, and where the `=` after the key stands;
* `decodeString` : a quoted string, read from just past its opening quote;
* `readValue` : the walk of one value, which answers what follows the value or why it is refused;
* `valueProblem` : why a value is refused, if anything shows that it is.

The walks take a bound on their steps, no two of which in a row take no character. `valueProblem` gives them two for
each character.
-/

namespace Didi.Config

/-- The identifiers that are a value on their own. -/
def isValueKeyword (word : Text) : Bool :=
  ["true", "false", "null", "nil", "nan", "inf", "inf_neg"].any fun keyword => word = keyword.toList

def isOpener (c : Char) : Bool := c = '[' || c = '{' || c = '('

def isCloser (c : Char) : Bool := c = ']' || c = '}' || c = ')'

/-! ## The end of a value -/

/-- How far through a value the walk is. -/
structure ValueState where
  depth : Nat := 0
  inString : Bool := false
  seen : Bool := false
  identifier : Bool := false
  awaitingCall : Bool := false
  annotation : Bool := false
deriving DecidableEq, Repr

namespace ValueState

/-- The value ends here, unless an identifier may still name a call. -/
def finished (s : ValueState) : Bool := !s.inString && s.depth = 0 && s.seen && !s.awaitingCall

def openString (s : ValueState) : ValueState := { s with inString := true, seen := true, identifier := false }

def openBracket (s : ValueState) (c : Char) : ValueState :=
  let s := if s.depth = 0 then
      { s with annotation := c = '[' && (s.identifier || s.awaitingCall), awaitingCall := false }
    else s
  { s with depth := s.depth + 1, seen := true, identifier := false }

def closeBracket (s : ValueState) : ValueState :=
  { s with depth := s.depth - 1, seen := true, identifier := false }

/-- An identifier has ended, and the call that it names may follow. -/
def awaitCall (s : ValueState) : ValueState := { s with identifier := false, awaitingCall := true }

def readToken (s : ValueState) (c : Char) : ValueState :=
  let identifier := if s.depth = 0 then
      if s.seen then s.identifier && isIdentifierChar c else isIdentifierStart c
    else s.identifier
  { s with identifier, seen := true }

/-- The identifier that is being read, if the token began on this line. -/
def readWord (s : ValueState) (word : Option Text) (c : Char) : Option Text :=
  if s.depth = 0 && !s.seen && isIdentifierStart c then some [c] else word.map (· ++ [c])

/-- The line ends here. -/
def endLine (s : ValueState) (word : Option Text) : ValueState :=
  if s.depth = 0 && !s.inString && s.identifier && !(word.any isValueKeyword) then s.awaitCall else s

end ValueState

/-- The walk along a line from the offset `index`, with `word` the identifier that is being read. -/
def walkValue : Text → ValueState → Option Text → Nat → ValueState × Nat
  | [], s, word, index => (s.endLine word, index)
  | c :: rest, s, word, index =>
    if s.inString then
      if c = '\\' then
        match rest with
        | [] => (s, index + 2)
        | _ :: rest => walkValue rest s word (index + 2)
      else if c = '"' then
        if s.depth = 0 then ({ s with inString := false }, index + 1)
        else walkValue rest { s with inString := false } word (index + 1)
      else walkValue rest s word (index + 1)
    else if c = ';' then (s, index)
    else if c = '"' then walkValue rest s.openString word (index + 1)
    else if isOpener c then walkValue rest (s.openBracket c) word (index + 1)
    else if isCloser c then
      let s := s.closeBracket
      if s.depth = 0 then
        if s.annotation then walkValue rest { s with annotation := false, awaitingCall := true } word (index + 1)
        else (s, index + 1)
      else walkValue rest s word (index + 1)
    else if isSpace c then
      if s.depth = 0 && s.seen then
        if (s.identifier && !(word.any isValueKeyword)) || s.awaitingCall then
          match rest.dropWhile isSpace with
          | [] => (s.awaitCall, index + 1 + rest.length)
          | d :: _ =>
            -- every space up to the bracket is answered like this one
            if d = '(' || d = '[' then walkValue rest s.awaitCall word (index + 1) else (s, index)
        else (s, index)
      else walkValue rest s word (index + 1)
    else walkValue rest (s.readToken c) (s.readWord word c) (index + 1)

theorem walkValue_nil (s : ValueState) (word : Option Text) (index : Nat) :
    walkValue [] s word index = (s.endLine word, index) := by
  rw [walkValue.eq_def]

/-- Whether the value ends on this line, the state after it, and how much of the line belongs to it. -/
def advanceValue (text : Text) (s : ValueState) : Bool × ValueState × Nat :=
  if s.awaitingCall then
    match text.dropWhile isSpace with
    | [] => (false, s, text.length)
    | c :: rest =>
      if c = '(' || c = '[' then
        let (s, stop) := walkValue (c :: rest) { s with awaitingCall := false } none (text.length - (rest.length + 1))
        (s.finished, s, stop)
      else (true, s, 0)
  else
    let (s, stop) := walkValue text s none 0
    (s.finished, s, stop)

/-- Adds one line's contribution to a value that may span several. -/
def appendValueText (valueText piece : Text) : Text :=
  let trimmed := trimmedView piece
  if trimmed.isEmpty then valueText
  else (if valueText.isEmpty then [] else valueText ++ ['\n']) ++ trimmed

/-! ## Keys -/

/-- The tokens of a key from the offset `index` on; `quoted` is what has been read of a quoted token. -/
def keyTokens : Text → Nat → Text → Option Text → Text × Option Nat
  | [], _, pending, none => (pending, none)
  | c :: rest, index, pending, none =>
    if c = '=' then (pending, some index)
    else if c = '"' then keyTokens rest (index + 1) pending (some [])
    else keyTokens rest (index + 1) (if isSpace c then pending else pending ++ [c]) none
  | [], _, _, some content => (content, none)
  | '\\' :: c :: rest, index, pending, some content => keyTokens rest (index + 2) pending (some (content ++ [c]))
  | c :: rest, index, pending, some content =>
    if c = '"' then keyTokens rest (index + 1) content none
    else keyTokens rest (index + 1) pending (some (content ++ [c]))

/-- The key with the tokens of one line, and the offset of the `=` that closes it. -/
def appendKeyTokens (text pending : Text) : Text × Option Nat := keyTokens text 0 pending none

/-! ## Strings -/

def hexValue (c : Char) : Option Nat :=
  if '0' ≤ c && c ≤ '9' then some (c.toNat - 48)
  else if 'a' ≤ c && c ≤ 'f' then some (c.toNat - 87)
  else if 'A' ≤ c && c ≤ 'F' then some (c.toNat - 55)
  else none

/-- Up to `digits` hexadecimal digits: their value after `unit`, how many there are, and whether something
else stands before the last of them. -/
def readHex : Nat → Text → Nat → Nat × Nat × Bool
  | 0, _, unit => (unit, 0, false)
  | _ + 1, [], unit => (unit, 0, false)
  | digits + 1, c :: rest, unit =>
    match hexValue c with
    | none => (unit, 0, true)
    | some value =>
      let (unit, read, broken) := readHex digits rest (unit * 16 + value)
      (unit, read + 1, broken)

structure DecodedString where
  bytes : Text
  problem : Option String
  rest : Text
  closed : Bool

def kUnpairedLead : String :=
  "the string has a UTF-16 lead surrogate escape with no trail surrogate escape after it"

def kUnpairedTrail : String :=
  "the string has a UTF-16 trail surrogate escape with no lead surrogate escape before it"

def shortHex (next : Char) : String :=
  if next = 'U' then "the string has a \\U escape without six hex digits after it"
  else "the string has a \\u escape without four hex digits after it"

/-- What has been read of a string: the bytes, a lead surrogate that waits, and the first problem. -/
structure StringWalk where
  bytes : Text := []
  lead : Nat := 0
  problem : Option String := none

namespace StringWalk

def refuse (w : StringWalk) (reason : String) : StringWalk := { w with problem := w.problem.or (some reason) }

def refuseLead (w : StringWalk) : StringWalk := if w.lead ≠ 0 then w.refuse kUnpairedLead else w

def byte (w : StringWalk) (c : Char) : StringWalk :=
  let w := w.refuseLead
  { w with bytes := w.bytes ++ [c] }

/-- The unit of an escape. -/
def unit (w : StringWalk) (unit : Nat) : StringWalk :=
  if unit / 2 ^ 10 = 0xD800 / 2 ^ 10 then { w.refuseLead with lead := unit }
  else if unit / 2 ^ 10 = 0xDC00 / 2 ^ 10 then
    if w.lead = 0 then w.refuse kUnpairedTrail
    -- the pair stands for a character above every byte
    else { w with bytes := w.bytes ++ [' '], lead := 0 }
  else w.byte (if unit = 0 || 0xFF < unit then ' ' else Char.ofNat unit)

end StringWalk

/-- The unit of the escape after a backslash, how many of the characters after it belong to it, and what is
wrong with it. -/
def readEscape (next : Char) (rest : Text) : Nat × Nat × Option String :=
  if next = 'b' then (0x08, 0, none)
  else if next = 't' then (0x09, 0, none)
  else if next = 'n' then (0x0A, 0, none)
  else if next = 'f' then (0x0C, 0, none)
  else if next = 'r' then (0x0D, 0, none)
  else if next = 'u' || next = 'U' then
    let (unit, read, broken) := readHex (if next = 'U' then 6 else 4) rest 0
    (unit, read, if broken then some (shortHex next) else none)
  else (next.toNat, 0, none)

/-- The string, after the `skip` characters that an escape has read. -/
def decodeFrom : Text → Nat → StringWalk → DecodedString
  | [], _, w => ⟨w.bytes, w.problem, [], false⟩
  | _ :: rest, skip + 1, w => decodeFrom rest skip w
  | c :: rest, 0, w =>
    if c = '"' then ⟨w.bytes, w.refuseLead.problem, rest, true⟩
    else if c ≠ '\\' then decodeFrom rest 0 (w.byte c)
    else
      match rest with
      | [] => ⟨w.bytes, w.problem, [], false⟩
      | next :: rest =>
        let (unit, read, problem) := readEscape next rest
        decodeFrom rest read (((problem.map w.refuse).getD w).unit unit)

def decodeString (text : Text) : DecodedString := decodeFrom text 0 {}

/-! ## The walk of a value -/

def skipString (text : Text) : Except String Text :=
  match (decodeString text).problem with
  | some problem => .error problem
  | none => .ok (decodeString text).rest

/-- The brackets from here on, `depth` of which are open. Strings are skipped whole. -/
def skipBalanced : Nat → Text → Nat → Except String Text
  | 0, _, _ => .ok []
  | _ + 1, [], _ => .ok []
  | fuel + 1, c :: rest, depth =>
    if c = '"' then do skipBalanced fuel (← skipString rest) depth
    else if isOpener c then skipBalanced fuel rest (depth + 1)
    else if isCloser c then if depth ≤ 1 then .ok rest else skipBalanced fuel rest (depth - 1)
    else skipBalanced fuel rest depth

/-- The constructor or the keyword that an identifier begins. -/
def readIdentifier (fuel : Nat) (text : Text) : Except String Text :=
  let word := text.takeWhile isIdentifierChar
  let after := text.dropWhile isIdentifierChar
  match after.dropWhile isSpace with
  | '[' :: rest => do
    let after ← skipBalanced fuel ('[' :: rest) 0
    match after.dropWhile isSpace with
    | '(' :: rest => skipBalanced fuel ('(' :: rest) 0
    | after => .ok after
  | '(' :: rest => skipBalanced fuel ('(' :: rest) 0
  | _ =>
    if isValueKeyword word then .ok after
    else .error ("Godot has no value named '" ++ String.ofList word ++ "'")

def endsToken (c : Char) : Bool := isSpace c || [',', ':', ')', ']', '}'].contains c

mutual

def readValue : Nat → Nat → Text → Except String Text
  | 0, _, _ => .ok []
  | fuel + 1, depth, text =>
    if 32 < depth then .ok []
    else
      match text.dropWhile isSpace with
      | [] => .error "the value is empty"
      | c :: rest =>
        if c = ')' || c = ']' || c = '}' || c = ',' || c = ':' || c = '(' then
          .error ("a value cannot begin with '" ++ String.ofList [c] ++ "'")
        else if c = '"' then skipString rest
        else if c = '&' || c = '@' then
          match rest with
          | '"' :: rest => skipString rest
          | _ => .error ("'" ++ String.ofList [c] ++ "' begins a StringName and has to be followed straight " ++
              "away by a quoted string")
        else if isIdentifierStart c then readIdentifier fuel (c :: rest)
        else if c = '[' then readArray fuel depth rest
        else if c = '{' then readDictionary fuel depth rest
        else .ok ((c :: rest).dropWhile fun c => !endsToken c)

/-- The elements of an array that are left. -/
def readArray : Nat → Nat → Text → Except String Text
  | 0, _, _ => .ok []
  | fuel + 1, depth, text =>
    match text.dropWhile isSpace with
    | [] => .ok []
    | ']' :: rest => .ok rest
    | text => do
      let text ← readValue fuel (depth + 1) text
      match text.dropWhile isSpace with
      | [] => .ok []
      | ',' :: rest => readArray fuel depth rest
      | ']' :: rest => .ok rest
      | c :: _ => .error ("a ',' or a ']' has to follow an array element, not '" ++ String.ofList [c] ++ "'")

/-- The entries of a dictionary that are left. -/
def readDictionary : Nat → Nat → Text → Except String Text
  | 0, _, _ => .ok []
  | fuel + 1, depth, text =>
    match text.dropWhile isSpace with
    | [] => .ok []
    | '}' :: rest => .ok rest
    | text => do
      let text ← readValue fuel (depth + 1) text
      match text.dropWhile isSpace with
      | [] => .ok []
      | ':' :: rest => do
        let text ← readValue fuel (depth + 1) rest
        match text.dropWhile isSpace with
        | [] => .ok []
        | ',' :: rest => readDictionary fuel depth rest
        | '}' :: rest => .ok rest
        | c :: _ =>
          .error ("a ',' or a '\x7d' has to follow a dictionary value, not '" ++ String.ofList [c] ++ "'")
      | c :: _ => .error ("a ':' has to follow a dictionary key, not '" ++ String.ofList [c] ++ "'")

end

section Fuel
variable (depth : Nat) (text : Text)

theorem readValue_zero : readValue 0 depth text = .ok [] := by
  rw [readValue]

theorem readArray_zero : readArray 0 depth text = .ok [] := by
  rw [readArray]

theorem readDictionary_zero : readDictionary 0 depth text = .ok [] := by
  rw [readDictionary]

end Fuel

def valueProblem (valueText : Text) : Option String :=
  match readValue (2 * valueText.length + 1) 0 valueText with
  | .error problem => some problem
  | .ok _ => none

end Didi.Config
