import Didi.Common
import Didi.Config.Scan
import Didi.Json.Doubles

/-!
# The settings of a project file

* `settingLiteral` : a JSON value as the literal that the file holds;
* `lastSpelling` : the assignment of a setting that is in force;
* `writeSettingLine` : the write of one setting, a `Splice` of the file's lines.

A call takes the contents of the file and answers the contents after it.

`scanLine_assignment` : where a key could start, the line of a `PlainKey` and a `Contained` literal registers
the key with the literal, and a key could start after it.
-/

namespace Didi.Config

/-! ## Literals -/

def escapeSettingString (text : Text) : Text :=
  text.flatMap fun c =>
    if c = '\\' then ['\\', '\\']
    else if c = '"' then ['\\', '"']
    else if c = '\n' then ['\\', 'n']
    else if c = '\r' then ['\\', 'r']
    else if c = '\t' then ['\\', 't']
    else [c]

def quotedLiteral (text : Text) : Text := '"' :: escapeSettingString text ++ ['"']

/-- A real is always shown as one. -/
def pointed (text : Text) : Text :=
  if text.any fun c => c = '.' || c = 'e' || c = 'E' then text else text ++ ['.', '0']

def commaSeparated : List Text → Text
  | [] => []
  | [piece] => piece
  | piece :: pieces => piece ++ [',', ' '] ++ commaSeparated pieces

/-- The literal of a value, with `levels` levels of nesting left. -/
def settingLiteral : Nat → Json → Except Error Text
  | 0, _ => .error (Error.invalidArgument "JSON value is nested more than 16 levels deep")
  | levels + 1, value =>
    match value with
    | .null => .ok "null".toList
    | .boolean b => .ok (if b then "true".toList else "false".toList)
    | .integer i =>
      if 2 ^ 63 ≤ i then .error (Error.invalidArgument "Unsigned integer is outside Godot Variant int range")
      else .ok (toString i).toList
    | .real _ text => .ok (pointed (bytesOf text))
    | .string s => .ok (quotedLiteral (bytesOf s))
    | .array elements => do
      let pieces ← elements.mapM (settingLiteral levels)
      return '[' :: commaSeparated pieces ++ [']']
    | .object members => do
      let pieces ← members.mapM fun (key, value) => do
        let literal ← settingLiteral levels value
        return quotedLiteral (bytesOf key) ++ [':', ' '] ++ literal
      return '\x7b' :: commaSeparated pieces ++ ['\x7d']

def kMaxLevels : Nat := 17

/-- The value as it is read into a signed integer of 64 bits. -/
def toInt64 (i : Int) : Int := (i + 2 ^ 63) % 2 ^ 64 - 2 ^ 63

/-! ## Reading -/

def settingName (sectionName key : Text) : Text := if sectionName.isEmpty then key else sectionName ++ '/' :: key

def refuseUnloadable (scanned : Scan) (verb : String) : Option Error :=
  (loadFailure scanned).map fun failure =>
    if failure.unterminated then
      { code := 409
        message := "project.godot ends part-way through a value, which Godot answers with ERR_PARSE_ERROR: the " ++
          "project does not open and none of the settings in the file are what it runs on. Repair the " ++
          "unterminated value before " ++ verb ++ "." }
    else
      { code := 409
        message := "project.godot line " ++ toString failure.line ++ " sets " ++
          String.ofList (settingName failure.sectionName failure.key) ++ " to a value Godot's parser refuses, " ++
          "because " ++ failure.valueReason ++ ". The engine answers ERR_PARSE_ERROR for the whole file, so the " ++
          "project does not open and none of the settings in it are what it runs on. Repair the value before " ++
          verb ++ "." }

def Entry.spells (e : Entry) (sectionName key : Text) : Bool := e.sectionName = sectionName && e.key = key

/-- The last spelling of a key in the file, which is the one in force, and its place among the entries. -/
def lastSpelling (entries : List Entry) (sectionName key : Text) : Option (Entry × Nat) :=
  entries.zipIdx.reverse.find? fun (e, _) => e.spells sectionName key

def sectionOf (setting : Text) : Text := setting.takeWhile (· ≠ '/')

def keyOf (setting : Text) : Text := (setting.dropWhile (· ≠ '/')).drop 1

/-! ## Writing -/

structure ProjectSettingWrite where
  setting : Text
  sectionName : Text
  key : Text
  literal : Text := []
  previousLiteral : Text := []
  existed : Bool := false
  removed : Bool := false
  sectionCreated : Bool := false

/-- The lines from `start` on and before `stop` give way to `lines`. -/
structure Splice where
  start : Nat
  stop : Nat
  lines : List Text

def Splice.apply (splice : Splice) (lines : List Text) : List Text :=
  lines.take splice.start ++ splice.lines ++ lines.drop splice.stop

/-- Names with an empty segment or a backslash. -/
def isMalformedName (setting : Text) : Bool :=
  setting.isEmpty || setting.head? = some '/' || setting.getLast? = some '/' || !setting.contains '/' ||
    hasPair '/' '/' setting || setting.contains '\\'

def isTypedNamespace (setting : Text) (typedNamespace : Bool) : Bool :=
  "autoload/".toList.isPrefixOf setting || ("input/".toList.isPrefixOf setting && !typedNamespace)

/-- Nothing but blanks and tabs. -/
def isBlank (line : Text) : Bool := line.all isBlankChar

def withoutBlankEnd (lines : List Text) : List Text := lines.rdropWhile isBlank

/-- Where the first section of a name ends among `count` lines, if there is one. -/
def sectionEnd (headers : List Header) (sectionName : Text) (count : Nat) : Option Nat :=
  match headers.dropWhile fun h => h.name ≠ sectionName with
  | [] => none
  | _ :: next => some ((next.head?.map fun h => h.line - 1).getD count)

/-- Another entry on the lines of an entry. -/
def overlaps (target other : Entry) : Bool :=
  !(target.valueEndLine < other.keyLine || other.valueEndLine < target.keyLine)

/-- Why the lines of a spelling cannot be replaced. -/
def refuseTarget (entries : List Entry) (target : Entry) (index : Nat) (setting : Text) : Option Error :=
  match (entries.eraseIdx index).find? (overlaps target) with
  | some other => some
    { code := 409
      message := "project.godot line " ++ toString other.line ++ " holds " ++
        String.ofList (settingName other.sectionName other.key) ++ " as well as " ++ String.ofList setting ++
        ", and this writes whole lines, so changing one would delete the other. A value ending does not end " ++
        "the line for Godot: it carries on reading, and both keys are settings the project runs on. Put them " ++
        "on separate lines and write again." }
  | none =>
    if target.joined then some
      { code := 409
        message := "Godot registers this setting by joining line " ++ toString target.keyLine ++ " into line " ++
          toString target.line ++ ", so its name is spread over more lines than a rewrite of the assignment " ++
          "replaces and the text above would join forward into whatever is written here. Move or delete line " ++
          toString target.keyLine ++ " before writing to " ++ String.ofList setting ++ "." }
    else none

def assignmentLine (key literal : Text) : Text := key ++ '=' :: literal

/-- The splice that sets a key that the file does not hold. -/
def additionOf (scanned : Scan) (lines : List Text) (sectionName key literal : Text) : Splice :=
  match sectionEnd scanned.headers sectionName lines.length with
  | some stop =>
    let start := (withoutBlankEnd (lines.take stop)).length
    ⟨start, start, [assignmentLine key literal]⟩
  | none =>
    ⟨(withoutBlankEnd lines).length, lines.length,
      [[], '[' :: sectionName ++ [']'], [], assignmentLine key literal]⟩

/-- What a write answers and how it splices the lines of the file. -/
def planSettingLine (contents setting : Text) (literal : Option Text) (typedNamespace : Bool) :
    Except Error (ProjectSettingWrite × Splice) :=
  if isMalformedName setting then
    .error (Error.invalidArgument "setting must be a non-empty slash-delimited ProjectSettings name")
  else if isTypedNamespace setting typedNamespace then
    .error (Error.invalidArgument "Use the typed autoload or InputMap tools for this setting namespace")
  else
    let scanned := scan contents
    match refuseUnloadable scanned "writing to it" with
    | some e => .error e
    | none =>
      let lines := fileLines contents
      let report : ProjectSettingWrite :=
        { setting, sectionName := sectionOf setting, key := keyOf setting, literal := literal.getD [],
          removed := literal.isNone }
      match lastSpelling scanned.entries report.sectionName report.key with
      | some (target, index) =>
        match refuseTarget scanned.entries target index setting with
        | some e => .error e
        | none =>
          .ok ({ report with existed := true, previousLiteral := target.valueText },
            ⟨target.line - 1, min target.valueEndLine lines.length,
              (literal.map (assignmentLine report.key)).toList⟩)
      | none =>
        match literal with
        | none => .error (Error.notFound ("Project setting not found: " ++ String.ofList setting))
        | some literal =>
          .ok ({ report with
              sectionCreated := (sectionEnd scanned.headers report.sectionName lines.length).isNone },
            additionOf scanned lines report.sectionName report.key literal)

/-- The write of one setting: what it answers, and the file after it. -/
def writeSettingLine (contents setting : Text) (literal : Option Text) (typedNamespace : Bool) :
    Except Error (ProjectSettingWrite × Text) := do
  let (report, splice) ← planSettingLine contents setting literal typedNamespace
  return (report, textOfLines (newlineOf contents) (splice.apply (fileLines contents)))

/-- A literal that spills into the lines below it is refused, and one that the engine would not load. -/
def checkSingleLineLiteral (literal : Text) : Except Error Unit :=
  if literal.isEmpty || literal.contains '\r' || literal.contains '\n' then
    .error (Error.invalidArgument ("Not a single-line Godot value literal: " ++ String.ofList literal))
  else
    let probe := scan ("[probe]\nkey=".toList ++ literal ++ ['\n'])
    let accepted := (loadFailure probe).isNone && !probe.trailingKey && match probe.entries with
      | [e] => e.key = "key".toList && stringsTrim e.valueText = literal
      | _ => false
    if accepted then .ok ()
    else .error (Error.invalidArgument ("Not a Godot value literal Godot would load: " ++ String.ofList literal))

/-! ## The line of an assignment -/

variable {text key literal : Text} {st : ScanState}

theorem dropWhile_eq_self (h : ∀ c, text.head? = some c → isSpace c = false) : text.dropWhile isSpace = text := by
  cases text with
  | nil => rfl
  | cons c rest => simp [h c rfl]

theorem rdropWhile_eq_self (h : ∀ c, text.getLast? = some c → isSpace c = false) :
    text.rdropWhile isSpace = text := by
  rw [List.rdropWhile_eq_self_iff]
  intro hne
  rw [h _ (List.getLast?_eq_some_getLast hne)]
  exact Bool.false_ne_true

theorem trimmedView_eq_self (hfirst : ∀ c, text.head? = some c → isSpace c = false)
    (hlast : ∀ c, text.getLast? = some c → isSpace c = false) : trimmedView text = text := by
  unfold trimmedView trimBy
  rw [dropWhile_eq_self hfirst, rdropWhile_eq_self hlast]

/-- A key that is registered as it is written, with this literal on its line. -/
structure PlainKey (key literal : Text) : Prop where
  ne : key ≠ []
  plain : ∀ c ∈ key, isSpace c = false ∧ c ≠ '=' ∧ c ≠ '"'
  comment : key.head? ≠ some ';'
  header : key.head? = some '[' → literal.getLast? ≠ some ']'

/-- A literal that is one value, and the value ends where the literal does. -/
structure Contained (literal : Text) : Prop where
  ne : literal ≠ []
  first : ∀ c, literal.head? = some c → isSpace c = false
  last : ∀ c, literal.getLast? = some c → isSpace c = false
  newline : '\n' ∉ literal
  ends : ∃ value, advanceValue literal {} = (true, value, literal.length)

theorem Contained.trimmed (h : Contained literal) : trimmedView literal = literal :=
  trimmedView_eq_self h.first h.last

theorem keyTokens_plain (hplain : ∀ c ∈ key, isSpace c = false ∧ c ≠ '=' ∧ c ≠ '"') (rest pending : Text)
    (index : Nat) : keyTokens (key ++ '=' :: rest) index pending none = (pending ++ key, some (index + key.length)) := by
  induction key generalizing pending index with
  | nil => simp [keyTokens]
  | cons c key ih =>
    obtain ⟨hspace, hequals, hquote⟩ := hplain c List.mem_cons_self
    rw [List.cons_append, keyTokens, if_neg hequals, if_neg hquote, hspace,
      ih fun d hd => hplain d (List.mem_cons_of_mem c hd)]
    simp
    omega

theorem assignmentLine_trimmed (hkey : PlainKey key literal) (hliteral : Contained literal) :
    trimmedView (assignmentLine key literal) = assignmentLine key literal := by
  unfold assignmentLine
  apply trimmedView_eq_self
  · intro c hc
    refine (hkey.plain c (List.mem_of_head? ?_)).1
    rwa [List.head?_append_of_ne_nil _ hkey.ne] at hc
  · intro c hc
    rw [List.getLast?_append_of_ne_nil _ (by simp), List.getLast?_cons_of_ne_nil hliteral.ne] at hc
    exact hliteral.last c hc

/-- **The line of an assignment registers it.** -/
theorem scanLine_assignment (hkey : PlainKey key literal) (hliteral : Contained literal)
    (hvalue : st.inValue = false) (hpending : st.pending = []) :
    ∃ value, scanLine st (assignmentLine key literal) = st.nextLine.key key key literal true value := by
  obtain ⟨value, hends⟩ := hliteral.ends
  refine ⟨value, ?_⟩
  have htrimmed := assignmentLine_trimmed hkey hliteral
  have hne : assignmentLine key literal ≠ [] := by simp [assignmentLine]
  have hhead : (assignmentLine key literal).head? = key.head? := by
    obtain ⟨d, rest, rfl⟩ := List.exists_cons_of_ne_nil hkey.ne
    rfl
  have hnotHeader : isHeader (assignmentLine key literal) = false := by
    unfold isHeader
    rw [hhead, assignmentLine, List.getLast?_append_of_ne_nil _ (by simp),
      List.getLast?_cons_of_ne_nil hliteral.ne]
    by_cases hbracket : key.head? = some '['
    · simp [hkey.header hbracket]
    · simp [hbracket]
  have hstart : ∀ c, (assignmentLine key literal).head? = some c → isSpace c = false := by
    intro c hc
    rw [hhead] at hc
    exact (hkey.plain c (List.mem_of_head? hc)).1
  have htokens : ∀ pending, appendKeyTokens (assignmentLine key literal) pending = (pending ++ key, some key.length) := by
    intro pending
    unfold appendKeyTokens assignmentLine
    rw [keyTokens_plain hkey.plain, Nat.zero_add]
  have hrest : (assignmentLine key literal).drop (key.length + 1) = literal := by
    unfold assignmentLine
    simp
  have hnone : appendKeyTokens (assignmentLine key literal) [] = (key, some key.length) := htokens []
  have hlength : (assignmentLine key literal).length + 1 = (key.length + literal.length + 1) + 1 := by
    simp [assignmentLine]
    omega
  unfold scanLine scanRest
  dsimp only
  rw [if_neg (by simpa [ScanState.nextLine] using hvalue), hlength, scanText]
  dsimp only
  rw [htrimmed, if_neg, if_neg, show st.nextLine.pending = [] from hpending, hnone, dropWhile_eq_self hstart]
  · dsimp only
    rw [hrest, hends]
    dsimp only
    rw [if_pos rfl, List.take_length, List.drop_length]
    rfl
  · simp [hnotHeader]
  · simp [hhead, hkey.comment, hne]

end Didi.Config
