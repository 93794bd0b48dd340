import Didi.Config.Returns

/-!
# A literal on a line of its own

* `Below E B st st'` : two scans that stand at the same place, the second one line further down and on top of the
  entries `E`; both are on top of the headers `B`. One line keeps it (`Below.scanLine`), and so do all
  (`Below.scanLines`);
* `EndsAfter n st` : the value of the first entry ends after the line `n`, and it does so after all lines that follow
  (`EndsAfter.scanLines`);
* `registered_of_accepted` : the line of a literal that `checkSingleLineLiteral` accepts registers the literal and
  nothing else;
* `stays_iff` : when the scan registers the literal and then what it would register without it;
* `not_stays` : a literal that takes the header below it into its value.
-/

namespace Didi.Config

/-- The same entry one line further down. -/
def Entry.down (e : Entry) : Entry :=
  { e with keyLine := e.keyLine + 1, line := e.line + 1, valueEndLine := e.valueEndLine + 1 }

/-- The same header one line further down. -/
def Header.down (h : Header) : Header := { h with line := h.line + 1 }

/-- Two scans at the same place, the second one line further down and on top of the entries `E`. -/
structure Below (E : List Entry) (B : List Header) (st st' : ScanState) : Prop where
  entries : st'.entries = st.entries.map Entry.down ++ E
  headers : ∃ H, st.headers = H ++ B ∧ st'.headers = H.map Header.down ++ B
  pending : st'.pending = st.pending
  pendingLine : st.pending ≠ [] → st'.pendingLine = st.pendingLine + 1
  sectionName : st'.sectionName = st.sectionName
  inValue : st'.inValue = st.inValue
  value : st.inValue = true → st'.value = st.value
  number : st'.number = st.number + 1
  added : st.inValue = true → st.entries ≠ []

variable {E : List Entry} {B : List Header} {st st' : ScanState}

namespace Below

theorem nextLine (h : Below E B st st') : Below E B st.nextLine st'.nextLine :=
  ⟨h.entries, h.headers, h.pending, h.pendingLine, h.sectionName, h.inValue, h.value, congrArg (· + 1) h.number,
    h.added⟩

theorem header (h : Below E B st st') (line : Text) : Below E B (st.header line) (st'.header line) := by
  obtain ⟨H, hH, hH'⟩ := h.headers
  refine ⟨h.entries, ⟨⟨headerName line, st.number⟩ :: H, congrArg _ hH, ?_⟩, h.pending, h.pendingLine, rfl, h.inValue,
    h.value, h.number, h.added⟩
  unfold ScanState.header
  rw [hH', h.number]
  rfl

theorem keyText (h : Below E B st st') (pending : Text) :
    Below E B (st.keyText pending) (st'.keyText pending) := by
  refine ⟨h.entries, h.headers, rfl, fun _ => ?_, h.sectionName, h.inValue, h.value, h.number, h.added⟩
  unfold ScanState.keyText
  dsimp only
  rw [h.pending, h.number]
  split_ifs with hempty
  · rfl
  · exact h.pendingLine (by simpa using hempty)

theorem keyLine (h : Below E B st st') (pending : Text) :
    (st'.keyText pending).pendingLine = (st.keyText pending).pendingLine + 1 := by
  unfold ScanState.keyText
  dsimp only
  rw [h.pending, h.number]
  split_ifs with hempty
  · rfl
  · exact h.pendingLine (by simpa using hempty)

theorem key (h : Below E B st st') (pending keyOnLine piece : Text) (finished : Bool) (value : ValueState) :
    Below E B (st.key pending keyOnLine piece finished value) (st'.key pending keyOnLine piece finished value) := by
  refine ⟨?_, h.headers, rfl, fun hne => absurd rfl hne, h.sectionName, rfl, fun _ => rfl, h.number, fun _ => by
    simp [ScanState.key]⟩
  have hentry : (st'.keyText pending).entry pending keyOnLine piece =
      ((st.keyText pending).entry pending keyOnLine piece).down := by
    unfold ScanState.entry Entry.down
    rw [h.keyLine]
    simp [ScanState.keyText, h.sectionName, h.number]
  unfold ScanState.key
  dsimp only
  rw [hentry, List.map_cons, List.cons_append, show (st'.keyText pending).entries = st'.entries from rfl, h.entries]
  rfl

theorem extend (h : Below E B st st') (hvalue : st.inValue = true) (piece : Text) :
    Below E B (st.extend piece) (st'.extend piece) := by
  obtain ⟨e, P, hP⟩ := List.exists_cons_of_ne_nil (h.added hvalue)
  have hP' := h.entries
  rw [hP, List.map_cons, List.cons_append] at hP'
  unfold ScanState.extend
  rw [hP, hP']
  refine ⟨?_, h.headers, h.pending, h.pendingLine, h.sectionName, h.inValue, h.value, h.number, fun _ => by simp⟩
  simp only [List.map_cons, List.cons_append, h.number]
  rfl

theorem valueLine (h : Below E B st st') (hvalue : st.inValue = true) (raw : Text) :
    Below E B (st.valueLine raw) (st'.valueLine raw) := by
  have hends : ∀ {st st' : ScanState} (value : ValueState) (finished : Bool), Below E B st st' → st.inValue = true →
      Below E B { st with value, inValue := !finished } { st' with value, inValue := !finished } := by
    intro st st' value finished h hvalue
    exact ⟨h.entries, h.headers, h.pending, h.pendingLine, h.sectionName, rfl, fun _ => rfl, h.number,
      fun _ => h.added hvalue⟩
  unfold ScanState.valueLine
  rw [h.value hvalue]
  dsimp only
  split_ifs with hstop
  · exact hends _ _ (h.extend hvalue _) (by simpa using hvalue)
  · exact hends _ _ h hvalue

theorem scanText (h : Below E B st st') (fuel : Nat) (text : Text) :
    Below E B (scanText fuel st text) (scanText fuel st' text) := by
  induction fuel generalizing st st' text with
  | zero => exact h
  | succ fuel ih =>
    unfold Config.scanText
    dsimp only
    rw [h.pending]
    split_ifs with hcomment hheader
    · exact h
    · exact h.header _
    · split
      · exact h.keyText _
      · split
        · exact ih (h.key ..) _
        · exact h.key ..

/-- **One line keeps the second scan one line further down.** -/
theorem scanLine (h : Below E B st st') (raw : Text) : Below E B (scanLine st raw) (scanLine st' raw) := by
  have hnext := h.nextLine
  unfold Config.scanLine
  dsimp only
  rw [hnext.inValue]
  by_cases hvalue : st.nextLine.inValue = true
  · have hline := hnext.valueLine hvalue raw
    rw [if_pos hvalue, if_pos hvalue, hnext.value hvalue, hline.inValue]
    split_ifs
    · exact hline
    · exact hline.scanText _ _
  · rw [if_neg hvalue, if_neg hvalue]
    exact hnext.scanText _ _

theorem scanLines (h : Below E B st st') (lines : List Text) :
    Below E B (scanLines st lines) (scanLines st' lines) := by
  induction lines generalizing st st' with
  | nil => exact h
  | cons line lines ih => exact ih (h.scanLine line)

end Below

/-! ## A value that has gone on -/

/-- The value of the first entry ends after the line `n`. -/
structure EndsAfter (n : Nat) (st : ScanState) : Prop where
  number : n < st.number
  pending : PendingHere st
  first : ∃ P e, st.entries = P ++ [e] ∧ e.line ≤ n ∧ n < e.valueEndLine

namespace EndsAfter
variable {n : Nat}

theorem nextLine (h : EndsAfter n st) : EndsAfter n st.nextLine :=
  ⟨Nat.lt_succ_of_lt h.number, fun hne => Nat.le_succ_of_le (h.pending hne), h.first⟩

theorem extend (h : EndsAfter n st) (piece : Text) : EndsAfter n (st.extend piece) := by
  obtain ⟨P, e, hP, hline, hends⟩ := h.first
  unfold ScanState.extend
  rw [hP]
  cases P with
  | nil => exact ⟨h.number, h.pending, [], _, rfl, hline, h.number⟩
  | cons e' P => exact ⟨h.number, h.pending, _ :: P, e, rfl, hline, hends⟩

theorem valueLine (h : EndsAfter n st) (raw : Text) : EndsAfter n (st.valueLine raw) := by
  have hextended := h.extend (raw.take (advanceValue raw st.value).2.2)
  unfold ScanState.valueLine
  dsimp only
  split_ifs
  · exact ⟨hextended.number, hextended.pending, hextended.first⟩
  · exact ⟨h.number, h.pending, h.first⟩

theorem scanRest (h : EndsAfter n st) (text : Text) : EndsAfter n (scanRest st text) := by
  obtain ⟨hpending, P, hP, -, -⟩ := scanText_entries (text.length + 1) h.pending text
  obtain ⟨Q, e, hQ, hends⟩ := h.first
  refine ⟨?_, hpending, P ++ Q, e, ?_, hends⟩
  · rw [Config.scanRest, scanText_number]
    exact h.number
  · rw [Config.scanRest, hP, hQ, List.append_assoc]

theorem scanLine (h : EndsAfter n st) (raw : Text) : EndsAfter n (scanLine st raw) := by
  unfold Config.scanLine
  dsimp only
  split_ifs
  · exact h.nextLine.valueLine raw
  · exact (h.nextLine.valueLine raw).scanRest _
  · exact h.nextLine.scanRest _

theorem scanLines (h : EndsAfter n st) (lines : List Text) : EndsAfter n (scanLines st lines) := by
  induction lines generalizing st with
  | nil => exact h
  | cons line lines ih => exact ih (h.scanLine line)

end EndsAfter

/-! ## A literal on a line of its own -/

variable {literal text : Text} {st st' : ScanState}

/-! ## What an accepted literal is -/

theorem appendValueText_nil (piece : Text) : appendValueText [] piece = trimmedView piece := by
  unfold appendValueText
  dsimp only
  rw [if_pos (show List.isEmpty ([] : Text) = true from rfl)]
  split_ifs with h
  · exact (List.isEmpty_iff.mp h).symm
  · rfl

/-- A literal that is all of what a part of it is trimmed to is that part, and there is nothing to trim. -/
theorem whole_of_trimmed {stop : Nat} (h : stringsTrim (trimmedView (literal.take stop)) = literal) :
    literal.length ≤ stop ∧ trimmedView literal = literal := by
  have houter : (stringsTrim (trimmedView (literal.take stop))).length ≤ _ := (isInfix_trimBy isSpacing _).length_le
  have hinner : (trimmedView (literal.take stop)).length ≤ _ := (isInfix_trimBy isSpace _).length_le
  have hlength := List.length_take_le stop literal
  have htake := List.length_take_le' stop literal
  rw [h] at houter
  have hstop : literal.length ≤ stop := by omega
  refine ⟨hstop, (isInfix_trimBy isSpace literal).eq_of_length ?_⟩
  rw [List.take_of_length_le hstop] at houter hinner
  change (trimmedView literal).length = _
  omega

/-- A word that is being read has begun the value. -/
theorem walkValue_identifier {s : ValueState} (h : s.identifier = true → s.seen = true) (word : Option Text)
    (index : Nat) : (walkValue text s word index).1.identifier = true → (walkValue text s word index).1.seen = true := by
  fun_induction walkValue text s word index
  case case1 s word index =>
    unfold ValueState.endLine
    split_ifs
    · exact fun hnot => absurd hnot Bool.false_ne_true
    · exact h
  case case10 ih => exact ih fun _ => rfl
  case case11 => exact fun _ => rfl
  case case12 ih => exact ih fun _ => rfl
  all_goals simp_all [ValueState.openString, ValueState.openBracket, ValueState.awaitCall, ValueState.readToken]

theorem walkValue_index (s : ValueState) (word : Option Text) (index : Nat) :
    index ≤ (walkValue text s word index).2 := by
  fun_induction walkValue text s word index <;> grind

/-- A value that an empty line completes is finished, or awaits its call. -/
theorem awaits_of_complete {value : ValueState} (hidentifier : value.identifier = true → value.seen = true)
    (hfinished : value.finished = false)
    (h : (advanceValue [] value).1 = true ∨ (advanceValue [] value).2.1.awaitingCall = true) :
    value.awaitingCall = true := by
  by_contra hawait
  have hends : advanceValue [] value = ((value.endLine none).finished, value.endLine none, 0) := by
    unfold advanceValue
    rw [if_neg hawait]
    rfl
  rw [hends] at h
  unfold ValueState.endLine at h
  split_ifs at h with hword
  · -- a word that has ended at the end of its line is a keyword, and a value on its own
    have hword : (value.depth = 0 ∧ value.inString = false) ∧ value.identifier = true := by simpa using hword
    have hseen := hidentifier hword.2
    simp [ValueState.finished, hword.1.1, hword.1.2, hseen, hawait] at hfinished
  · rcases h with h | h
    · rw [hfinished] at h
      exact Bool.false_ne_true h
    · exact hawait h

/-! ## The line of the literal -/

/-- The section that the literal is probed in. -/
def probeHeader : Header := ⟨"probe".toList, 1⟩

/-- The scan after the header of the probe. -/
def probeStart : ScanState := { headers := [probeHeader], sectionName := "probe".toList, number := 1 }

theorem scanLine_probe : scanLine {} "[probe]".toList = probeStart := by
  rfl

/-- The scan after the line of a literal. -/
def lineState (literal : Text) : ScanState := scanLine probeStart ("key=".toList ++ literal)

theorem trimmedView_keyLine (literal : Text) : ∃ rest, trimmedView ("key=".toList ++ literal) = "key=".toList ++ rest := by
  unfold trimmedView trimBy
  rw [dropWhile_eq_self (by rintro c ⟨rfl⟩; decide)]
  induction literal using List.reverseRecOn with
  | nil => exact ⟨[], by decide⟩
  | append_singleton literal c ih =>
    rw [← List.append_assoc, List.rdropWhile_concat]
    split_ifs
    · exact ih
    · exact ⟨literal ++ [c], List.append_assoc ..⟩

/-- The line of a literal registers a key with what the value reaches of the line. -/
theorem lineState_eq (literal : Text) : ∃ fuel keyOnLine,
    let (finished, value, stop) := advanceValue literal {}
    let st := probeStart.nextLine.key "key".toList keyOnLine (literal.take stop) finished value
    lineState literal = if finished then scanText fuel st (literal.drop stop) else st := by
  obtain ⟨rest, hrest⟩ := trimmedView_keyLine literal
  refine ⟨("key=".toList ++ literal).length, "key".toList, ?_⟩
  have hkey : ∀ c ∈ ['k', 'e', 'y'], isSpace c = false ∧ c ≠ '=' ∧ c ≠ '"' := by
    intro c hc
    fin_cases hc <;> decide
  have htokens : appendKeyTokens ("key=".toList ++ rest) [] = ("key".toList, some 3) :=
    @keyTokens_plain "key".toList hkey rest [] 0
  unfold lineState scanLine scanRest
  dsimp only
  rw [if_neg (by decide), scanText]
  dsimp only
  rw [hrest, if_neg (by simp), if_neg (by simp [isHeader]), show probeStart.nextLine.pending = [] from rfl, htokens,
    dropWhile_eq_self (by rintro c ⟨rfl⟩; decide)]
  rfl

/-! ## A literal that stays on its line -/

/-- The text that a literal is probed in, with more text after it. -/
def probed (literal rest : Text) : Text := "[probe]\nkey=".toList ++ literal ++ '\n' :: rest

/-- The text without the literal. -/
def bare (rest : Text) : Text := "[probe]\n".toList ++ rest

theorem linesOf_cons {line : Text} (hnewline : '\n' ∉ line) (hreturn : line.getLast? ≠ some '\r') (text : Text) :
    linesOf (line ++ '\n' :: text) = line :: linesOf text := by
  unfold linesOf
  rw [List.splitOn_append_cons_self_of_not_mem hnewline, List.map_cons, dropReturn_eq_self hreturn]

/-- A literal on a single line. -/
structure SingleLine (literal : Text) : Prop where
  ne : literal ≠ []
  cr : '\r' ∉ literal
  newline : '\n' ∉ literal

theorem scanLines_bare (rest : Text) : scanLines {} (linesOf (bare rest)) = scanLines probeStart (linesOf rest) := by
  have hlines : linesOf (bare rest) = "[probe]".toList :: linesOf rest :=
    @linesOf_cons "[probe]".toList (by decide) (by decide) rest
  rw [hlines, scanLines, List.foldl_cons, scanLine_probe, scanLines]

theorem scanLines_probed (h : SingleLine literal) (rest : Text) :
    scanLines {} (linesOf (probed literal rest)) = scanLines (lineState literal) (linesOf rest) := by
  have hlast : ("key=".toList ++ literal).getLast? ≠ some '\r' := by
    rw [List.getLast?_append_of_ne_nil _ h.ne]
    exact fun hreturn => h.cr (List.mem_of_getLast? hreturn)
  have hprobed : probed literal rest = "[probe]".toList ++ '\n' :: ("key=".toList ++ literal ++ '\n' :: rest) := by
    unfold probed
    rw [show "[probe]\nkey=".toList = "[probe]".toList ++ '\n' :: "key=".toList from rfl]
    simp only [List.append_assoc, List.cons_append]
  have hkey : linesOf ("key=".toList ++ literal ++ '\n' :: rest) = ("key=".toList ++ literal) :: linesOf rest :=
    linesOf_cons (by simp [h.newline]) hlast rest
  rw [hprobed, @linesOf_cons "[probe]".toList (by decide) (by decide), hkey, scanLines, List.foldl_cons,
    List.foldl_cons, scanLine_probe, scanLines, lineState]

/-- What the line of a literal leaves, where the literal stays on it: the key, and at most a call to wait for. -/
structure Registered (literal : Text) : Prop where
  single : SingleLine literal
  state : ∃ keyOnLine, lineState literal = probeStart.nextLine.key "key".toList keyOnLine literal
    (advanceValue literal {}).1 (advanceValue literal {}).2.1
  trimmed : trimmedView literal = literal
  waits : (advanceValue literal {}).1 = false → (advanceValue literal {}).2.1.awaitingCall = true

theorem advanceValue_start (literal : Text) : ∃ stop, advanceValue literal {} =
    ((walkValue literal {} none 0).1.finished, (walkValue literal {} none 0).1, stop) := ⟨_, rfl⟩

/-- The line of a literal registers the key, and perhaps more after it. -/
theorem lineState_entries (literal : Text) : ∃ P e, (lineState literal).entries = P ++ [e] ∧
    e.valueText = trimmedView (literal.take (advanceValue literal {}).2.2) := by
  obtain ⟨fuel, keyOnLine, hstate⟩ := lineState_eq literal
  dsimp only at hstate
  rw [hstate]
  split_ifs
  · obtain ⟨-, P, hP, -, -⟩ := @scanText_entries fuel (probeStart.nextLine.key "key".toList keyOnLine
      (literal.take (advanceValue literal {}).2.2) (advanceValue literal {}).1 (advanceValue literal {}).2.1)
      (fun hne => absurd rfl hne) (literal.drop (advanceValue literal {}).2.2)
    exact ⟨P, _, hP, appendValueText_nil _⟩
  · exact ⟨[], _, rfl, appendValueText_nil _⟩

/-- The line of a literal that the value reaches all of. -/
theorem lineState_of_whole (hstop : literal.length ≤ (advanceValue literal {}).2.2) : ∃ keyOnLine, lineState literal =
    probeStart.nextLine.key "key".toList keyOnLine literal (advanceValue literal {}).1 (advanceValue literal {}).2.1 := by
  obtain ⟨fuel, keyOnLine, hstate⟩ := lineState_eq literal
  dsimp only at hstate
  rw [List.take_of_length_le hstop, List.drop_of_length_le hstop] at hstate
  have hnil : ∀ st, scanText fuel st [] = st := by
    intro st
    cases fuel <;> rfl
  rw [hnil, ite_self] at hstate
  exact ⟨keyOnLine, hstate⟩

theorem complete_of_loads {st : ScanState} (h : (loadFailure st.result).isNone = true) : st.complete = true := by
  by_contra hcomplete
  unfold loadFailure at h
  rw [if_pos (show (!st.result.complete) = true by simpa [ScanState.result] using hcomplete)] at h
  split at h
  · exact Bool.false_ne_true h
  · exact Bool.false_ne_true h

/-- **The line of an accepted literal registers the literal and nothing else.** -/
theorem registered_of_accepted (h : checkSingleLineLiteral literal = .ok ()) : Registered literal := by
  unfold checkSingleLineLiteral at h
  dsimp only at h
  split_ifs at h with hline haccepted
  have hsingle : SingleLine literal := by
    refine ⟨?_, ?_, ?_⟩ <;> simp_all
  have hprobe : scan ("[probe]\nkey=".toList ++ literal ++ ['\n']) = (scanLine (lineState literal) []).result := by
    unfold scan
    rw [show "[probe]\nkey=".toList ++ literal ++ ['\n'] = probed literal [] from rfl, scanLines_probed hsingle]
    rfl
  rw [hprobe, Bool.and_eq_true_iff, Bool.and_eq_true_iff] at haccepted
  obtain ⟨⟨hloads, -⟩, hentries⟩ := haccepted
  -- the one entry is the key, so the value is all of the literal
  obtain ⟨P, e, hP, hvalueText⟩ := lineState_entries literal
  rw [show (scanLine (lineState literal) []).result.entries = (lineState literal).entries.reverse from
    congrArg List.reverse (scanLine_nil _).1, hP, List.reverse_append] at hentries
  have hwhole : stringsTrim e.valueText = literal := by
    cases hmore : P.reverse with
    | nil =>
      rw [hmore] at hentries
      exact of_decide_eq_true (Bool.and_eq_true_iff.mp hentries).2
    | cons e' Q =>
      rw [hmore] at hentries
      exact absurd hentries Bool.false_ne_true
  rw [hvalueText] at hwhole
  obtain ⟨hstop, htrimmed⟩ := whole_of_trimmed hwhole
  obtain ⟨keyOnLine, hstate⟩ := lineState_of_whole hstop
  refine ⟨hsingle, ⟨keyOnLine, hstate⟩, htrimmed, fun hfinished => ?_⟩
  -- the value is open after its line, and an empty line completes it
  have hcomplete := complete_of_loads hloads
  have hopen : (lineState literal).inValue = true := by
    rw [hstate]
    show (!(advanceValue literal {}).1) = true
    rw [hfinished]
    rfl
  have hvalue : (lineState literal).value = (advanceValue literal {}).2.1 := by
    rw [hstate]
    rfl
  rw [scanLine_nil_eq, if_pos hopen, hvalue] at hcomplete
  obtain ⟨stop, hstart⟩ := advanceValue_start literal
  rw [hstart] at hfinished hcomplete ⊢
  apply awaits_of_complete (walkValue_identifier (by simp) none 0) hfinished
  simpa [ScanState.complete] using hcomplete

/-- The scan registers the literal on its own line, and then what it registers without it. -/
def Stays (literal rest : Text) : Prop :=
  ∃ e h H, e.sectionName = "probe".toList ∧ e.key = "key".toList ∧ e.valueText = literal ∧ e.valueEndLine = e.line ∧
    (scan (bare rest)).headers = h :: H ∧
    (scan (probed literal rest)).entries = e :: (scan (bare rest)).entries.map Entry.down ∧
    (scan (probed literal rest)).headers = h :: H.map Header.down

/-- Whether the literal ends in a name that a call may still follow. -/
def awaitsCall (literal : Text) : Bool := (advanceValue literal {}).2.1.awaitingCall

/-- Whether a value that awaits its call ends before these lines: the first that is not empty begins a word. -/
def closes (lines : List Text) : Bool :=
  match lines.dropWhile List.isEmpty with
  | [] => true
  | line :: _ =>
    match line.dropWhile isSpace with
    | [] => false
    | c :: _ => !(c = '(' || c = '[')

section Lines
variable {E : List Entry} {B : List Header} {lines : List Text}

theorem scanLine_nil_of_fresh (h : Fresh st) : scanLine st [] = st.nextLine := by
  rw [scanLine_nil_eq]
  split_ifs with hvalue
  · have hadvance : advanceValue [] st.value = (false, st.value, 0) := by
      unfold advanceValue
      rw [if_pos (h.awaitingCall hvalue)]
      rfl
    rw [hadvance]
    show { st.nextLine with value := st.value, inValue := true } = st.nextLine
    rw [← hvalue]
    rfl
  · rfl

/-- A value that ends before these lines leaves them to be scanned as they are without it. -/
theorem registers_below (h : Below E B st { st' with inValue := false }) (hfresh : Fresh st')
    (hcloses : st'.inValue = true → closes lines = true) :
    (scanLines st' lines).entries = (scanLines st lines).entries.map Entry.down ++ E ∧
      ∃ H, (scanLines st lines).headers = H ++ B ∧ (scanLines st' lines).headers = H.map Header.down ++ B := by
  induction lines generalizing st st' with
  | nil => exact ⟨h.entries, h.headers⟩
  | cons line lines ih =>
    have hrest : scanLine st' line = scanLine { st' with inValue := false } line →
        (scanLines st' (line :: lines)).entries = (scanLines st (line :: lines)).entries.map Entry.down ++ E ∧
          ∃ H, (scanLines st (line :: lines)).headers = H ++ B ∧
            (scanLines st' (line :: lines)).headers = H.map Header.down ++ B := by
      intro hline
      have hall := h.scanLines (line :: lines)
      unfold scanLines at hall ⊢
      rw [List.foldl_cons, List.foldl_cons, ← hline] at hall
      exact ⟨hall.entries, hall.headers⟩
    cases line with
    | nil =>
      -- an empty line says nothing about the call
      have hbare : Fresh st := ⟨h.pending.symm.trans hfresh.pending, by simp [ScanState.complete, ← h.inValue]⟩
      unfold scanLines
      rw [List.foldl_cons, List.foldl_cons, scanLine_nil_of_fresh hfresh, scanLine_nil_of_fresh hbare]
      exact ih h.nextLine ⟨hfresh.pending, hfresh.complete⟩ hcloses
    | cons d line =>
      apply hrest
      by_cases hvalue : st'.inValue = true
      · have hfirst := hcloses hvalue
        unfold closes at hfirst
        rw [List.dropWhile_cons_of_neg (by simp)] at hfirst
        dsimp only at hfirst
        split at hfirst
        · exact absurd hfirst Bool.false_ne_true
        · rename_i c rest hc
          exact scanLine_of_fresh hfresh hc fun _ => by simpa using hfirst
      · rw [← Bool.eq_false_iff.mpr hvalue]

theorem walkValue_bracket {c : Char} (h : c = '(' ∨ c = '[') (s : ValueState) (word : Option Text) (index : Nat) :
    index < (walkValue (c :: text) s word index).2 := by
  have hopener : isOpener c = true := by
    rcases h with rfl | rfl <;> rfl
  cases hstring : s.inString with
  | true =>
    rw [walkValue_inString hstring (by rintro rfl; exact absurd hopener (by decide))
      (by rintro rfl; exact absurd hopener (by decide))]
    exact walkValue_index _ _ _
  | false =>
    rw [walkValue_opener hstring hopener]
    exact walkValue_index _ _ _

/-- A value that awaits its call takes something of a line that is not empty and does not end it. -/
theorem advanceValue_takes {s : ValueState} {line : Text} (hawait : s.awaitingCall = true) (hne : line ≠ [])
    (hcloses : closes [line] = false) : 0 < (advanceValue line s).2.2 := by
  unfold closes at hcloses
  rw [List.dropWhile_cons_of_neg (by simpa using hne)] at hcloses
  unfold advanceValue
  rw [if_pos hawait]
  dsimp only at hcloses
  split
  · exact List.length_pos_iff.mpr hne
  · rename_i c rest hc
    rw [hc] at hcloses
    have hbracket : c = '(' ∨ c = '[' := or_iff_not_imp_left.mpr (by simpa using hcloses)
    rw [if_pos (by simpa using hbracket)]
    exact Nat.lt_of_le_of_lt (Nat.zero_le _) (walkValue_bracket hbracket _ _ _)

/-- A value that awaits its call goes on past its line, where these lines do not end it. -/
theorem endsAfter_of_not_closes {e : Entry} {n : Nat} (hawait : st.value.awaitingCall = true) (hvalue : st.inValue = true)
    (hpending : st.pending = []) (hentries : st.entries = [e]) (hline : e.line ≤ n) (hn : n ≤ st.number)
    (hcloses : closes lines = false) : EndsAfter n (scanLines st lines) := by
  induction lines generalizing st with
  | nil => exact absurd hcloses (by decide)
  | cons line lines ih =>
    have hfresh : Fresh st := ⟨hpending, by simp [ScanState.complete, hawait]⟩
    unfold scanLines
    rw [List.foldl_cons]
    by_cases hne : line = []
    · rw [hne, scanLine_nil_of_fresh hfresh]
      exact ih hawait hvalue hpending hentries (Nat.le_succ_of_le hn) (by rwa [hne] at hcloses)
    · have hclosesLine : closes [line] = false := by
        unfold closes at hcloses ⊢
        rw [List.dropWhile_cons_of_neg (by simpa using hne)] at hcloses ⊢
        exact hcloses
      have htakes := advanceValue_takes hawait hne hclosesLine
      have hends : EndsAfter n (st.nextLine.valueLine line) := by
        unfold ScanState.valueLine
        dsimp only
        rw [show st.nextLine.value = st.value from rfl, if_pos htakes]
        unfold ScanState.extend
        rw [show st.nextLine.entries = [e] from hentries]
        exact ⟨Nat.lt_succ_of_le hn, fun hsome => absurd hpending hsome, [], _, rfl, hline, Nat.lt_succ_of_le hn⟩
      apply EndsAfter.scanLines
      unfold scanLine
      dsimp only
      rw [if_pos (show st.nextLine.inValue = true from hvalue)]
      split_ifs
      · exact hends
      · exact hends.scanRest _

end Lines

theorem Registered.stays_iff_closes (h : Registered literal) (rest : Text) :
    Stays literal rest ↔ (awaitsCall literal = true → closes (linesOf rest) = true) := by
  obtain ⟨hsingle, ⟨keyOnLine, hstate⟩, htrimmed, hwaits⟩ := h
  obtain ⟨e, hentries, hsection, hkey, hvalueText, hends, hline⟩ : ∃ e, (lineState literal).entries = [e] ∧
      e.sectionName = "probe".toList ∧ e.key = "key".toList ∧ e.valueText = literal ∧ e.valueEndLine = e.line ∧
      e.line = 2 := by
    rw [hstate]
    exact ⟨_, rfl, rfl, rfl, (appendValueText_nil literal).trans htrimmed, rfl, rfl⟩
  have hinValue : (lineState literal).inValue = awaitsCall literal := by
    rw [hstate]
    show (!(advanceValue literal {}).1) = (advanceValue literal {}).2.1.awaitingCall
    cases hfinished : (advanceValue literal {}).1 with
    | false => exact (hwaits hfinished).symm
    | true =>
      obtain ⟨stop, hstart⟩ := advanceValue_start literal
      rw [hstart] at hfinished ⊢
      simp [ValueState.finished] at hfinished
      simp [hfinished]
  have hvalue : (lineState literal).value = (advanceValue literal {}).2.1 := by
    rw [hstate]
    rfl
  have hpending : (lineState literal).pending = [] := by
    rw [hstate]
    rfl
  constructor
  · rintro ⟨e', -, -, -, -, -, hends', -, hentries', -⟩ hawait
    by_contra hcloses
    obtain ⟨-, -, P, first, hP, hfirst, hafter⟩ := @endsAfter_of_not_closes (lineState literal) (linesOf rest) e 2
      (by rwa [hvalue]) (hinValue.trans hawait) hpending hentries hline.le (by rw [hstate]; exact le_rfl)
      (Bool.eq_false_iff.mpr hcloses)
    unfold scan at hentries'
    rw [scanLines_probed hsingle] at hentries'
    have hreverse : e' = first := by
      have := congrArg List.head? hentries'
      simpa [ScanState.result, hP] using this.symm
    rw [hreverse] at hends'
    omega
  · intro hcloses
    have hbelow : Below [e] [probeHeader] probeStart { lineState literal with inValue := false } := by
      refine ⟨hentries, ⟨[], rfl, ?_⟩, hpending, fun hne => absurd rfl hne, ?_, rfl, fun hno => absurd hno (by decide),
        ?_, fun hno => absurd hno (by decide)⟩
      · rw [hstate]
        rfl
      · rw [hstate]
        rfl
      · rw [hstate]
        rfl
    have hfresh : Fresh (lineState literal) := by
      refine ⟨hpending, ?_⟩
      unfold ScanState.complete
      rw [hinValue, hvalue]
      exact Bool.not_or_self _
    obtain ⟨hall, H, hH, hH'⟩ := registers_below hbelow hfresh fun hvalue => hcloses (hinValue.symm.trans hvalue)
    refine ⟨e, probeHeader, H.reverse, hsection, hkey, hvalueText, hends, ?_, ?_, ?_⟩
    · unfold scan
      rw [scanLines_bare]
      simp [ScanState.result, hH]
    · unfold scan
      rw [scanLines_bare, scanLines_probed hsingle]
      simp [ScanState.result, hall]
    · unfold scan
      rw [scanLines_probed hsingle]
      simp [ScanState.result, hH']

/-- **An accepted literal stays on its line where it awaits no call, or where the lines after it end it.** -/
theorem stays_iff (h : checkSingleLineLiteral literal = .ok ()) (rest : Text) :
    Stays literal rest ↔ (awaitsCall literal = true → closes (linesOf rest) = true) :=
  (registered_of_accepted h).stays_iff_closes rest

theorem accepted_of_isSome (h : (checkSingleLineLiteral literal).toOption.isSome = true) :
    checkSingleLineLiteral literal = .ok () := by
  cases hcheck : checkSingleLineLiteral literal with
  | ok _ => rfl
  | error e =>
    rw [hcheck] at h
    exact absurd h Bool.false_ne_true

/-- A typed array with its call on its line stays there, whatever comes next. -/
theorem stays_iff_array : checkSingleLineLiteral "Array[int]([1])".toList = .ok () ∧
    (Stays "Array[int]([1])".toList "[b]".toList ↔
      (awaitsCall "Array[int]([1])".toList = true → closes (linesOf "[b]".toList) = true)) := by
  have haccepted := accepted_of_isSome (show (checkSingleLineLiteral "Array[int]([1])".toList).toOption.isSome = true by
    decide +kernel)
  exact ⟨haccepted, stays_iff haccepted _⟩

/-- A typed array without its call takes the header below it for its call. -/
theorem not_stays : ¬ ∀ literal rest : Text, checkSingleLineLiteral literal = .ok () → Stays literal rest := by
  intro h
  have haccepted := accepted_of_isSome (show (checkSingleLineLiteral "Array[int]".toList).toOption.isSome = true by
    decide +kernel)
  obtain ⟨e, -, -, -, -, hvalueText, -, -, hentries, -⟩ := h "Array[int]".toList "[b]\nk=1".toList haccepted
  have hfirst : (scan (probed "Array[int]".toList "[b]\nk=1".toList)).entries.head?.map Entry.valueText =
      some "Array[int]\n[b]".toList := by
    decide +kernel
  rw [hentries, List.head?_cons, Option.map_some, hvalueText] at hfirst
  exact absurd (Option.some.inj hfirst) (by decide)

end Didi.Config
