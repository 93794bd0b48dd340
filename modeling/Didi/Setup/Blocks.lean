import Didi.Common.Validators
import Didi.Config.Endings
import Didi.Config.Strings

/-!
# A text file as setup finds it, and the blocks that it writes

* `readText`, `writeText` : the byte order mark and the newlines of a file are flags, its body has LF for every CRLF;
* `lines_withoutReturns` : the lines of the body are those of the file, less what ends them;
* `wholeLines_textOfLines` : lines that are written are the lines of what is written;
* `bare_append_eq_self` : which lines of a file are written as they were found;
* `writeAgentGuide` : the guide for agents between its two lines of a Markdown file;
* `tomlString`, `parseTomlString` : a TOML string, and the reader of the strings that are written;
* `findTomlBlock` : the block of a TOML file, and the first line outside it that declares the same server;
* `writeTomlConfig` : the server between its two lines of a TOML file.
-/

namespace Didi.Setup
open Didi.Config

structure TextFile where
  found : Bool := false
  bom : Bool := false
  crlf : Bool := false
  body : Text := []

def isUtf16 (text : Text) : Bool := ['\xFF', '\xFE'].isPrefixOf text || ['\xFE', '\xFF'].isPrefixOf text

/-- The text with LF for every CRLF. -/
def withoutReturns : Text → Text
  | [] => []
  | c :: text => if c = '\r' ∧ text.head? = some '\n' then withoutReturns text else c :: withoutReturns text

def readText (path : String) : Option Text → Except String TextFile
  | none => .ok {}
  | some text =>
    if isUtf16 text then .error (path ++ " is UTF-16. Save it as UTF-8 and run setup again.")
    else if Validators.isDecodableUtf8 ((withoutMark text).map fun c => UInt8.ofNat c.toNat) then
      .ok ⟨true, kByteOrderMark.isPrefixOf text, hasPair '\r' '\n' (withoutMark text),
        withoutReturns (withoutMark text)⟩
    else .error (path ++ " is not UTF-8, so it was not rewritten")

def markOf (asFound : TextFile) : Text := if asFound.bom then kByteOrderMark else []

/-- What a body comes out as. -/
def writeText (asFound : TextFile) (body : Text) : Text :=
  markOf asFound ++ body.flatMap fun c => if c = '\n' ∧ asFound.crlf then ['\r', c] else [c]

def lines (body : Text) : List Text := dropEmptyLast (body.splitOn '\n')

/-! ## The lines of the body -/

theorem head?_of_wholeLines {text line : Text} {rest : List Text} (h : wholeLines text = line :: rest) :
    text.head? = line.head? := by
  have hne : line ≠ [] := ne_nil_of_wholeLines (h ▸ List.mem_cons_self)
  rw [← wholeLines_flatten text, h, List.flatten_cons, List.head?_append_of_ne_nil _ hne]

theorem wholeLines_withoutReturns (text : Text) :
    wholeLines (withoutReturns text) = (wholeLines text).map withoutReturns := by
  induction text with
  | nil => rfl
  | cons c text ih =>
    rw [withoutReturns]
    split_ifs with hpair
    · -- the line begins with the carriage return that is left out
      obtain ⟨rfl, hhead⟩ := hpair
      obtain ⟨rest, rfl⟩ : ∃ rest, text = '\n' :: rest := ⟨text.tail, (List.cons_head?_tail hhead).symm⟩
      rw [ih, wholeLines, wholeLines, if_pos rfl, if_neg (by decide)]
      rfl
    · rw [wholeLines, wholeLines]
      split_ifs with hc
      · rw [ih]
        rfl
      · rw [ih]
        cases hlines : wholeLines text with
        | nil => rw [List.map_nil, List.map_singleton, withoutReturns, if_neg (by simp), withoutReturns]
        | cons line rest =>
          rw [head?_of_wholeLines hlines] at hpair
          rw [List.map_cons, List.map_cons, withoutReturns, if_neg hpair]

/-- A line without what ends it. -/
def bare (line : Text) : Text := dropNewline (withoutReturns line)

theorem lines_withoutReturns (text : Text) : lines (withoutReturns text) = (wholeLines text).map bare := by
  rw [lines, dropEmptyLast_splitOn, wholeLines_withoutReturns, List.map_map]
  rfl

variable {s : Text}

theorem withoutReturns_open (hs : '\n' ∉ s) : withoutReturns s = s := by
  induction s with
  | nil => rfl
  | cons c s ih =>
    rw [List.mem_cons, not_or] at hs
    rw [withoutReturns, if_neg, ih hs.2]
    rintro ⟨-, hhead⟩
    exact hs.2 (List.mem_of_head? hhead)

theorem withoutReturns_ended (hs : '\n' ∉ s) : withoutReturns (s ++ ['\n']) = dropReturn s ++ ['\n'] := by
  induction s with
  | nil => rfl
  | cons c s ih =>
    rw [List.mem_cons, not_or] at hs
    rw [List.cons_append, withoutReturns, ih hs.2]
    cases s with
    | nil =>
      unfold dropReturn
      by_cases hc : c = '\r'
      · simp [hc]
      · simp [hc]
    | cons d s =>
      rw [if_neg]
      · unfold dropReturn
        rw [List.getLast?_cons_cons, List.dropLast_cons_cons]
        split_ifs <;> rfl
      · rintro ⟨-, hhead⟩
        exact hs.2 (List.mem_of_head? (by simpa using hhead))

theorem bare_open (hs : '\n' ∉ s) : bare s = s := by
  rw [bare, withoutReturns_open hs, dropNewline, if_neg]
  exact fun hlast => hs (List.mem_of_getLast? hlast)

theorem bare_ended (hs : '\n' ∉ s) : bare (s ++ ['\n']) = dropReturn s := by
  rw [bare, withoutReturns_ended hs]
  simp [dropNewline]

/-- A line has its newline at the end, or none. -/
theorem eq_of_mem_wholeLines {text line : Text} (h : line ∈ wholeLines text) :
    ∃ s, '\n' ∉ s ∧ (line = s ++ ['\n'] ∨ line = s) := by
  induction text generalizing line with
  | nil => cases h
  | cons c text ih =>
    rw [wholeLines] at h
    split_ifs at h with hc
    · rcases List.mem_cons.mp h with rfl | h
      · exact ⟨[], List.not_mem_nil, .inl rfl⟩
      · exact ih h
    · have hnot : '\n' ≠ c := fun heq => hc heq.symm
      cases hlines : wholeLines text with
      | nil =>
        rw [hlines] at h
        cases List.mem_singleton.mp h
        exact ⟨[c], by simpa using hnot, .inr rfl⟩
      | cons first rest =>
        rw [hlines] at h ih
        rcases List.mem_cons.mp h with rfl | h
        · obtain ⟨s, hs, hline⟩ := ih List.mem_cons_self
          refine ⟨c :: s, by simp [hnot, hs], ?_⟩
          rcases hline with rfl | rfl
          · exact .inl rfl
          · exact .inr rfl
        · exact ih (List.mem_cons_of_mem _ h)

theorem newline_notMem_bare {text line : Text} (h : line ∈ wholeLines text) : '\n' ∉ bare line := by
  obtain ⟨s, hs, rfl | rfl⟩ := eq_of_mem_wholeLines h
  · rw [bare_ended hs]
    exact fun hmem => hs (mem_dropReturn hmem)
  · rwa [bare_open hs]

/-- What stands of a line is how the line begins. -/
theorem prefix_bare {text line : Text} (h : line ∈ wholeLines text) : bare line <+: line := by
  obtain ⟨s, hs, rfl | rfl⟩ := eq_of_mem_wholeLines h
  · rw [bare_ended hs, dropReturn]
    split_ifs
    · exact (List.dropLast_prefix s).trans (List.prefix_append s _)
    · exact List.prefix_append s _
  · have hsame : bare line = line := bare_open hs
    exact hsame.symm ▸ List.prefix_rfl

/-! ## Lines that are written -/

theorem newlineOf_cases (text : Text) : newlineOf text = ['\r', '\n'] ∨ newlineOf text = ['\n'] := by
  unfold newlineOf
  split_ifs
  · exact .inl rfl
  · exact .inr rfl

theorem wholeLines_line (hs : '\n' ∉ s) (text : Text) :
    wholeLines (s ++ '\n' :: text) = (s ++ ['\n']) :: wholeLines text := by
  induction s with
  | nil => rw [List.nil_append, wholeLines, if_pos rfl, List.nil_append]
  | cons c s ih =>
    rw [List.mem_cons, not_or] at hs
    have hc : c ≠ '\n' := fun heq => hs.1 heq.symm
    rw [List.cons_append, wholeLines, if_neg hc, ih hs.2]
    rfl

theorem wholeLines_textOfLines (text : Text) {written : List Text} (h : ∀ line ∈ written, '\n' ∉ line) :
    wholeLines (textOfLines (newlineOf text) written) = written.map (· ++ newlineOf text) := by
  induction written with
  | nil => rfl
  | cons line written ih =>
    have hline := h line List.mem_cons_self
    have hrest := ih fun line hmem => h line (List.mem_cons_of_mem _ hmem)
    rw [textOfLines, List.flatMap_cons, List.map_cons, ← hrest]
    rcases newlineOf_cases text with hnewline | hnewline
    · have hreturned : '\n' ∉ line ++ ['\r'] := by simp [hline]
      rw [hnewline, show line ++ ['\r', '\n'] = line ++ ['\r'] ++ ['\n'] by simp, List.append_assoc (line ++ ['\r']),
        List.singleton_append, wholeLines_line hreturned]
      rfl
    · rw [hnewline, List.append_assoc, List.singleton_append, wholeLines_line hline]
      rfl

/-- A body of lines comes out with the newline of the file after each of them. -/
theorem writeText_lines {path : String} {text : Text} {file : TextFile} (hread : readText path (some text) = .ok file)
    {written : List Text} (h : ∀ line ∈ written, '\n' ∉ line) :
    writeText file (textOfLines ['\n'] written) =
      markOf file ++ textOfLines (newlineOf (withoutMark text)) written := by
  have hcrlf : file.crlf = hasPair '\r' '\n' (withoutMark text) := by
    unfold readText at hread
    dsimp only at hread
    split_ifs at hread
    cases hread
    rfl
  have hplain : ∀ line : Text, '\n' ∉ line →
      (line.flatMap fun c => if c = '\n' ∧ file.crlf then ['\r', c] else [c]) = line := by
    intro line hline
    induction line with
    | nil => rfl
    | cons c line ih =>
      rw [List.mem_cons, not_or] at hline
      rw [List.flatMap_cons, ih hline.2, if_neg fun hc => hline.1 hc.1.symm]
      rfl
  rw [writeText]
  congr 1
  induction written with
  | nil => rfl
  | cons line written ih =>
    have hrest := ih fun line hmem => h line (List.mem_cons_of_mem _ hmem)
    rw [textOfLines, List.flatMap_cons, List.flatMap_append, List.flatMap_append,
      hplain line (h line List.mem_cons_self)]
    rw [textOfLines] at hrest
    rw [hrest, textOfLines, List.flatMap_cons, newlineOf, ← hcrlf]
    congr 2
    cases file.crlf <;> rfl

/-- A line of a file comes out as it was found where it ends in the newline of the file. -/
theorem bare_append_eq_self {text line : Text} (h : line ∈ wholeLines text) :
    bare line ++ newlineOf text = line ↔ newlineOf text <:+ line := by
  constructor
  · intro heq
    exact ⟨bare line, heq⟩
  · intro hsuffix
    obtain ⟨s, hs, rfl | rfl⟩ := eq_of_mem_wholeLines h
    · rw [bare_ended hs]
      have hself := (relined_eq_self h).mpr hsuffix
      rw [relined, lineOf] at hself
      rwa [show dropNewline (s ++ ['\n']) = s by simp [dropNewline]] at hself
    · -- the newline has to be somewhere in the line
      obtain ⟨start, rfl⟩ := hsuffix
      refine absurd (List.mem_append_right start ?_) hs
      rcases newlineOf_cases text with hnewline | hnewline
      · rw [hnewline]
        decide
      · rw [hnewline]
        decide

/-! ## The blocks that setup writes -/

inductive FileAction
  | created
  | updated
  | unchanged
deriving DecidableEq

/-! ## The lines of a block -/

def currentBlock (text : List Text) (begin last : Nat) : List Text := (text.take (last + 1)).drop begin

/-- The lines with another block in the place of the one from `begin` to `last`. -/
def replaced (text : List Text) (begin last : Nat) (block : List Text) : List Text :=
  text.take begin ++ block ++ text.drop (last + 1)

/-- The lines with a block after them, an empty line before it where one is due. -/
def appended (text block : List Text) : List Text :=
  match text.getLast? with
  | none => block
  | some line => if stringsTrim line = [] then text ++ block else text ++ [[]] ++ block

/-- A body of lines as it is written. -/
def written (found : TextFile) (text : List Text) : Text := writeText found (textOfLines ['\n'] text)

/-! ## The guide for agents -/

def kGuideBegin : String := "<!-- BEGIN didi -->"

def kGuideEnd : String := "<!-- END didi -->"

/-- The lines of the guide between the two. -/
def agentGuideText : List Text :=
  ["## Godot editor (Didi)".toList,
    [],
    ("This Godot project is served by Didi, the MCP server named `didi`, which reads the project and drives the " ++
      "open Godot editor.").toList,
    [],
    ("- When a live call fails, call `didi_control_room`. It says whether the editor is attached and what to do " ++
      "when it is not.").toList,
    ("- The guide Didi sends when your client connects, and each tool's schema, are the reference. Do not guess " ++
      "tool names or arguments.").toList,
    ("- While the editor has the project open, change scenes, resources and `project.godot` through Didi's tools " ++
      "rather than by editing the files. The editor keeps its own copy of what it has open, so an edit made behind " ++
      "it can be lost when it saves.").toList,
    ("- `addons/didi` is installed by `didi setup`. Do not edit it: run `didi setup` again to upgrade, and `didi " ++
      "doctor --project <this project>` to see why the editor cannot be reached.").toList]

/-- The lines of the guide, each of which ends in a newline. -/
def agentGuideBlock : List Text := kGuideBegin.toList :: (agentGuideText ++ [kGuideEnd.toList])

structure GuideMarks where
  begin : Option Nat := none
  last : Option Nat := none

def GuideMarks.read (path : String) (marks : GuideMarks) (line : Text × Nat) : Except String GuideMarks :=
  if stringsTrim line.1 = kGuideBegin.toList then
    if marks.begin.isSome then .error (path ++ " holds two `" ++ kGuideBegin ++ "` lines, so it was not rewritten.")
    else .ok { marks with begin := some line.2 }
  else if stringsTrim line.1 = kGuideEnd.toList then
    if marks.begin.isNone || marks.last.isSome then
      .error (path ++ " has a `" ++ kGuideEnd ++ "` line with no block to end, so it was not rewritten.")
    else .ok { marks with last := some line.2 }
  else .ok marks

def writeAgentGuide (path : String) (contents : Option Text) : Except String (FileAction × Option Text) := do
  let found ← readText path contents
  let text := lines found.body
  let marks ← text.zipIdx.foldlM (GuideMarks.read path) {}
  match marks.begin, marks.last with
  | some begin, some last =>
    if currentBlock text begin last = agentGuideBlock then .ok (.unchanged, none)
    else .ok (.updated, some (written found (replaced text begin last agentGuideBlock)))
  | some _, none =>
    .error (path ++ " has `" ++ kGuideBegin ++ "` and no `" ++ kGuideEnd ++ "`, so it was not rewritten.")
  | none, _ =>
    .ok (if found.found then .updated else .created, some (written found (appended text agentGuideBlock)))

/-! ## TOML strings -/

def kTomlBegin : String := "# BEGIN didi"

def kTomlEnd : String := "# END didi"

/-- A character that no TOML string holds as it is. -/
def isControl (c : Char) : Bool := c.toNat < 0x20 || c.toNat = 0x7F

def upperHex (n : Nat) : Char := "0123456789ABCDEF".toList.getD n '0'

def tomlEscaped (c : Char) : Text :=
  if c = '"' || c = '\\' then ['\\', c]
  else if isControl c then ['\\', 'u', '0', '0', upperHex (c.toNat / 16), upperHex (c.toNat % 16)]
  else [c]

def tomlString (value : Text) : Text :=
  if value.all fun c => c ≠ '\'' && !isControl c then ['\''] ++ value ++ ['\'']
  else ['"'] ++ value.flatMap tomlEscaped ++ ['"']

def hexDigitOf (c : Char) : Option Nat :=
  if '0' ≤ c && c ≤ '9' then some (c.toNat - '0'.toNat)
  else if 'a' ≤ c && c ≤ 'f' then some (c.toNat - 'a'.toNat + 10)
  else if 'A' ≤ c && c ≤ 'F' then some (c.toNat - 'A'.toNat + 10)
  else none

/-- The character of four hex digits, of those that `tomlString` escapes this way. -/
def controlOf (digits : Text) : Option Char := do
  let digits ← digits.mapM hexDigitOf
  let code := digits.foldl (fun code digit => code * 16 + digit) 0
  if code ≥ 0x80 then none else some (Char.ofNat code)

/-- What a string holds up to its closing quote, and what follows. -/
def parseQuoted (quote : Char) : Text → Option (Text × Text)
  | [] => none
  | c :: text =>
    if c = quote then some ([], text)
    else if quote = '"' && c = '\\' then
      match text with
      | '\\' :: text => (parseQuoted quote text).map fun rest => ('\\' :: rest.1, rest.2)
      | '"' :: text => (parseQuoted quote text).map fun rest => ('"' :: rest.1, rest.2)
      | 'n' :: text => (parseQuoted quote text).map fun rest => ('\n' :: rest.1, rest.2)
      | 't' :: text => (parseQuoted quote text).map fun rest => ('\t' :: rest.1, rest.2)
      | 'r' :: text => (parseQuoted quote text).map fun rest => ('\r' :: rest.1, rest.2)
      | 'u' :: a :: b :: d :: e :: text =>
        match controlOf [a, b, d, e] with
        | some control => (parseQuoted quote text).map fun rest => (control :: rest.1, rest.2)
        | none => none
      | _ => none
    else (parseQuoted quote text).map fun rest => (c :: rest.1, rest.2)

def parseTomlString : Text → Option (Text × Text)
  | [] => none
  | quote :: text => if quote = '\'' || quote = '"' then parseQuoted quote text else none

/-! ## The block of a TOML file -/

/-- The text after a way to write the name of the server. -/
def afterDidi (text : Text) : Option Text :=
  ["\"didi\"".toList, "'didi'".toList, "didi".toList].findSome? fun spelling =>
    if spelling.isPrefixOf text then some (text.drop spelling.length) else none

/-- The text after `mcp_servers` and a dot. -/
def afterServers (text : Text) : Option Text :=
  if "mcp_servers".toList.isPrefixOf text then
    match (text.drop "mcp_servers".toList.length).dropWhile isSpace with
    | '.' :: rest => some (rest.dropWhile isSpace)
    | _ => none
  else none

/-- What is between the brackets of a header, without the space around it. -/
def headerTable (inner : Text) : Text :=
  if trimmedView inner = [] then inner.drop (inner.length - 1) else trimmedView inner

/-- The table that a line is the header of. -/
def header (line : Text) : Option Text :=
  match line.dropWhile isSpace with
  | '[' :: rest =>
    let inner := rest.takeWhile (· ≠ ']')
    let after := ((rest.dropWhile (· ≠ ']')).drop 1).dropWhile isSpace
    if inner ≠ [] && rest.contains ']' && (after = [] || (after.head? = some '#' && !after.contains '\r')) then
      some (headerTable inner)
    else none
  | _ => none

def isDidiTable (table : Text) : Bool := ((afterServers table).bind afterDidi) = some []

/-- Whether a key or a value follows. -/
def endsName (rest : Text) : Bool :=
  (rest.dropWhile isSpace).head? = some '.' || (rest.dropWhile isSpace).head? = some '='

def isDidiDotted (line : Text) : Bool :=
  (((afterServers (line.dropWhile isSpace)).bind afterDidi).map endsName).getD false

def isDidiKey (line : Text) : Bool := ((afterDidi (line.dropWhile isSpace)).map endsName).getD false

structure TomlBlock where
  begin : Option Nat := none
  last : Option Nat := none
  foreign : Option Nat := none
  problem : String := ""
  table : Text := []

def TomlBlock.read (block : TomlBlock) (line : Text × Nat) : TomlBlock :=
  if stringsTrim line.1 = kTomlBegin.toList then
    { block with
      problem := if block.begin.isSome then "holds two `# BEGIN didi` lines" else block.problem
      begin := some line.2 }
  else if stringsTrim line.1 = kTomlEnd.toList then
    { block with
      problem := if block.begin.isNone || block.last.isSome then "has a `# END didi` line with no block to end"
        else block.problem
      last := some line.2 }
  else
    let inside := block.begin.isSome && block.last.isNone
    match header line.1 with
    | some table =>
      { block with
        table
        foreign := if !inside && isDidiTable table && block.foreign.isNone then some line.2 else block.foreign }
    | none =>
      if inside || block.foreign.isSome then block
      else if (block.table = [] && isDidiDotted line.1) ||
          (block.table.filter (fun c => !isSpace c) = "mcp_servers".toList && isDidiKey line.1) then
        { block with foreign := some line.2 }
      else block

def findTomlBlock (text : List Text) : TomlBlock :=
  let block := text.zipIdx.foldl TomlBlock.read {}
  if block.begin.isSome && block.last.isNone && block.problem = "" then
    { block with problem := "has a `# BEGIN didi` line and no `# END didi`" }
  else block

structure ConfigWrite where
  action : FileAction := .unchanged
  previousCommand : Option Text := none
deriving DecidableEq

/-- The command that a line of the block names, when it is another. -/
def previousOf (command line : Text) : Option Text :=
  if "command".toList.isPrefixOf (stringsTrim line) then
    match parseTomlString (((line.dropWhile (· ≠ '=')).drop 1).dropWhile isBlankChar) with
    | some (previous, _) => if previous ≠ command then some previous else none
    | none => none
  else none

def tomlBlock (command : Text) (args : List Text) : List Text :=
  [kTomlBegin.toList, "[mcp_servers.didi]".toList, "command = ".toList ++ tomlString command,
    "args = [".toList ++ ", ".toList.intercalate (args.map tomlString) ++ "]".toList, kTomlEnd.toList]

def writeTomlConfig (path : String) (contents : Option Text) (command : Text) (args : List Text) :
    Except String (ConfigWrite × Option Text) := do
  let found ← readText path contents
  let text := lines found.body
  let located := findTomlBlock text
  if located.problem ≠ "" then .error (path ++ " " ++ located.problem ++ ", so it was not rewritten.")
  else match located.foreign with
  | some foreign =>
    .error (path ++ " declares mcp_servers.didi on line " ++ toString (foreign + 1) ++
      ", outside the block setup writes. Remove that declaration, or keep it and leave Codex out of --client. " ++
      "A table under it, such as [mcp_servers.didi.env] after # END didi, is kept.")
  | none =>
    match located.begin with
    | some begin =>
      let last := located.last.getD 0
      if currentBlock text begin last = tomlBlock command args then .ok ({}, none)
      else
        .ok (⟨.updated, (currentBlock text begin last).foldl
          (fun previous line => (previousOf command line).orElse fun _ => previous) none⟩,
          some (written found (replaced text begin last (tomlBlock command args))))
    | none =>
      .ok (⟨if found.found then .updated else .created, none⟩,
        some (written found (appended text (tomlBlock command args))))

end Didi.Setup
