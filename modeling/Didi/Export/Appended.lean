import Didi.Config.Returns
import Didi.Export.Addition

/-!
# The scan of a file that a section is appended to

* `scan_appended` : the scan of the whole text stands, before the lines of the section, where the scan of the text
  that is there ended;
* `Written` : a line that is blank, a header or an assignment; `scan_written` : what such lines register where a key
  could start.
-/

namespace Didi.Export
open Didi.Config

/-! ## The lines of the whole text -/

/-- What ends a line before its newline. -/
def returnOf (text : Text) : Text := if hasPair '\r' '\n' text then ['\r'] else []

theorem newlineOf_eq (text : Text) : newlineOf text = returnOf text ++ ['\n'] := by
  unfold newlineOf returnOf
  split_ifs <;> rfl

theorem newline_notMem_returnOf (text : Text) : '\n' ∉ returnOf text := by
  unfold returnOf
  split_ifs <;> decide

theorem splitOn_textOfLines (text : Text) {lines : List Text} (h : ∀ line ∈ lines, '\n' ∉ line) :
    (textOfLines (newlineOf text) lines).splitOn '\n' = lines.map (· ++ returnOf text) ++ [[]] := by
  unfold textOfLines
  rw [newlineOf_eq]
  exact List.splitOn_flatMap_append (newline_notMem_returnOf text) h

/-- A line that does not end in a carriage return is read as it is written. -/
theorem dropReturn_returnOf (text : Text) {line : Text} (h : line.getLast? ≠ some '\r') :
    dropReturn (line ++ returnOf text) = line := by
  unfold returnOf
  split_ifs
  · exact dropReturn_append line
  · rw [List.append_nil]
    exact dropReturn_eq_self h

/-- The line that a text ends in, when more is written after it. -/
theorem scanLine_last (st : ScanState) (text line : Text) :
    Alike (scanLine st (dropReturn (line ++ returnOf text))) (scanLine st (dropReturn line)) := by
  unfold returnOf
  split_ifs
  · rw [dropReturn_append]
    by_cases h : line.getLast? = some '\r'
    · obtain ⟨line, rfl⟩ : ∃ line', line = line' ++ ['\r'] := ⟨line.dropLast, (List.dropLast_append_getLast? _ h).symm⟩
      rw [dropReturn_append]
      exact scanLine_return st line
    · rw [dropReturn_eq_self h]
      exact .refl _
  · rw [List.append_nil]
    exact .refl _

/-- A text whose last line is blank ends in two empty lines. -/
theorem splitOn_blankLast {before : Text}
    (h : ("\n\n".toList.isSuffixOf before || "\n\r\n".toList.isSuffixOf before) = true) :
    ∃ lines, linesOf before = lines ++ [[], []] := by
  unfold linesOf
  rcases Bool.or_eq_true_iff.mp h with h | h
  · obtain ⟨u, rfl⟩ := List.isSuffixOf_iff_suffix.mp h
    refine ⟨(u.splitOn '\n').map dropReturn, ?_⟩
    rw [show u ++ "\n\n".toList = u ++ '\n' :: ['\n'] from rfl, List.splitOn_append_cons_self, List.map_append]
    rfl
  · obtain ⟨u, rfl⟩ := List.isSuffixOf_iff_suffix.mp h
    refine ⟨(u.splitOn '\n').map dropReturn, ?_⟩
    rw [show u ++ "\n\r\n".toList = u ++ '\n' :: ['\r', '\n'] from rfl, List.splitOn_append_cons_self, List.map_append]
    rfl

/-- **The lines of a section are scanned from where the text before it ended.** -/
theorem scan_appended {before : Text} {lines : List Text} (hnewline : ∀ line ∈ lines, '\n' ∉ line)
    (hreturn : ∀ line ∈ lines, line.getLast? ≠ some '\r')
    (hcomplete : (scanLines {} (linesOf before)).complete = true) :
    ∃ st, Alike st (scanLines {} (linesOf before)) ∧
      scanLines {} (linesOf (before ++ separatorOf before ++ textOfLines (newlineOf before) lines)) =
        scanLines st (lines ++ [[]]) := by
  have hread : (lines.map (· ++ returnOf before) ++ [[]]).map dropReturn = lines ++ [[]] := by
    rw [List.map_append, List.map_map]
    congr 1
    exact (List.map_congr_left fun line hline => dropReturn_returnOf before (hreturn line hline)).trans (List.map_id _)
  have hempty : dropReturn ([] ++ returnOf before) = [] := dropReturn_returnOf before (by simp)
  by_cases hbefore : before = []
  · subst hbefore
    refine ⟨{}, (scanLine_nil_alike rfl).symm, ?_⟩
    rw [show separatorOf [] = [] from rfl, List.nil_append, List.nil_append, linesOf, splitOn_textOfLines _ hnewline, hread]
  obtain ⟨closed, piece, hpieces, hpiece, hclosed, init, hsplit⟩ := List.exists_last_piece '\n' before
  have hlines : linesOf before = init.map dropReturn ++ [dropReturn piece] := by
    unfold linesOf
    rw [hpieces, hsplit, List.splitOn_eq_singleton hpiece, List.map_append]
    rfl
  have hscan : ∀ more, (∀ line ∈ more, '\n' ∉ line) →
      scanLines {} (linesOf (closed ++ textOfLines (newlineOf before) (more ++ lines))) =
        scanLines (scanLines (scanLines {} (init.map dropReturn))
          (more.map fun line => dropReturn (line ++ returnOf before))) (lines ++ [[]]) := by
    intro more hmore
    have hall : ∀ line ∈ more ++ lines, '\n' ∉ line := by
      intro line hline
      exact (List.mem_append.mp hline).elim (hmore line) (hnewline line)
    have hparts : (more ++ lines).map (· ++ returnOf before) ++ [[]] =
        more.map (· ++ returnOf before) ++ (lines.map (· ++ returnOf before) ++ [[]]) := by simp
    rw [linesOf, hsplit, splitOn_textOfLines before hall, hparts, List.map_append, List.map_append, hread,
      scanLines_append, scanLines_append, List.map_map]
    rfl
  rw [hlines, scanLines_append] at hcomplete ⊢
  by_cases hlast : piece = []
  · subst hlast
    rw [List.append_nil] at hpieces
    have hend : before.getLast? = some '\n' := by
      rw [hpieces] at hbefore ⊢
      exact hclosed hbefore
    unfold separatorOf
    rw [if_neg (by simpa using hbefore), if_neg (by simp [hend]), List.nil_append]
    split_ifs with hblank
    · -- the blank line is the last line but one, and what follows it was scanned as a line too
      obtain ⟨rest, hrest⟩ := splitOn_blankLast hblank
      have hinit : init.map dropReturn = rest ++ [[]] := by
        rw [hlines, show rest ++ [[], []] = (rest ++ [[]]) ++ [[]] by simp] at hrest
        exact (List.append_inj' hrest rfl).1
      refine ⟨scanLines {} (init.map dropReturn), ?_, ?_⟩
      · rw [hinit, scanLines_append]
        exact (scanLine_nil_nil _).symm
      · rw [List.append_nil]
        conv_lhs => rw [hpieces, ← hpieces]
        have := hscan [] (by simp)
        rwa [List.nil_append, ← hpieces] at this
    · refine ⟨_, .refl _, ?_⟩
      have := hscan [[]] (by simp)
      rw [← hpieces] at this
      rw [List.append_assoc]
      rw [List.map_singleton, hempty] at this
      exact this
  · have hend : before.getLast? ≠ some '\n' := by
      rw [hpieces, List.getLast?_append_of_ne_nil _ hlast]
      intro h
      exact hpiece (List.mem_of_getLast? h)
    have hblank : ¬ ("\n\n".toList.isSuffixOf before || "\n\r\n".toList.isSuffixOf before) = true := by
      intro h
      rcases Bool.or_eq_true_iff.mp h with h | h
      all_goals
        obtain ⟨u, hu⟩ := List.isSuffixOf_iff_suffix.mp h
        rw [← hu, List.getLast?_append_of_ne_nil _ (by decide)] at hend
        exact hend rfl
    unfold separatorOf
    dsimp only
    rw [if_neg (by simpa using hbefore), if_pos hend, if_neg hblank]
    have hsame := scanLine_last (scanLines {} (init.map dropReturn)) before piece
    refine ⟨_, (scanLine_nil_alike ?_).trans hsame, ?_⟩
    · rw [hsame.complete]
      exact hcomplete
    · have := hscan [piece, []] (by simp [hpiece])
      rw [List.map_cons, List.map_singleton, hempty] at this
      have hcontents : before ++ (newlineOf before ++ newlineOf before) ++ textOfLines (newlineOf before) lines =
          closed ++ textOfLines (newlineOf before) ([piece, []] ++ lines) := by
        conv_lhs => arg 1; arg 1; rw [hpieces]
        simp [textOfLines]
      rw [hcontents]
      exact this

/-! ## Lines that are written -/

inductive Written
  | blank
  | header (name : Text)
  | assignment (key literal : Text)

namespace Written

def text : Written → Text
  | blank => []
  | header name => '[' :: name ++ [']']
  | assignment key literal => assignmentLine key literal

/-- What is registered as it is written. -/
def Sound : Written → Prop
  | blank => True
  | header name => trimmedView name = name ∧ '\n' ∉ name
  | assignment key literal => PlainKey key literal ∧ Contained literal

def names : List Written → List Text
  | [] => []
  | header name :: lines => name :: names lines
  | _ :: lines => names lines

/-- What lines register from a section on. -/
def settings : Text → List Written → List (Text × Text × Text)
  | _, [] => []
  | sectionName, blank :: lines => settings sectionName lines
  | _, header name :: lines => settings name lines
  | sectionName, assignment key literal :: lines => (sectionName, key, literal) :: settings sectionName lines

theorem names_blank (lines : List Written) : names (lines ++ [blank]) = names lines := by
  induction lines with
  | nil => rfl
  | cons line lines ih => cases line <;> simp [names, ih]

theorem settings_blank (sectionName : Text) (lines : List Written) :
    settings sectionName (lines ++ [blank]) = settings sectionName lines := by
  induction lines generalizing sectionName with
  | nil => rfl
  | cons line lines ih => cases line <;> simp [settings, ih]

end Written

variable {st : ScanState} {name : Text}

theorem header_trimmed (name : Text) : trimmedView ('[' :: name ++ [']']) = '[' :: name ++ [']'] := by
  apply trimmedView_eq_self
  · intro c hc
    obtain rfl : '[' = c := by simpa using hc
    decide
  · intro c hc
    rw [List.getLast?_append_of_ne_nil _ (by simp)] at hc
    obtain rfl : ']' = c := by simpa using hc
    decide

/-- Where a key could start, the line of a header opens its section. -/
theorem scanLine_header (hvalue : st.inValue = false) (hpending : st.pending = []) (hname : trimmedView name = name) :
    scanLine st ('[' :: name ++ [']']) =
      { st.nextLine with sectionName := name, headers := ⟨name, st.number + 1⟩ :: st.headers } := by
  have hheader : isHeader ('[' :: name ++ [']']) = true := by
    unfold isHeader
    rw [List.getLast?_append_of_ne_nil _ (by simp)]
    simp
  have hnamed : headerName ('[' :: name ++ [']']) = name := by
    unfold headerName
    simp [hname]
  unfold scanLine scanRest
  dsimp only
  rw [if_neg (by simpa [ScanState.nextLine] using hvalue), scanText]
  dsimp only
  rw [header_trimmed, if_neg (by simp), if_pos (by rw [hheader, show st.nextLine.pending = [] from hpending]; rfl)]
  unfold ScanState.header
  rw [hnamed]
  rfl

/-- **Where a key could start, lines are registered as they are written.** -/
theorem scan_written {lines : List Written} (h : ∀ line ∈ lines, line.Sound) (hvalue : st.inValue = false)
    (hpending : st.pending = []) :
    (scanLines st (lines.map Written.text)).inValue = false ∧ (scanLines st (lines.map Written.text)).pending = [] ∧
      (scanLines st (lines.map Written.text)).headers.map Header.name =
        (Written.names lines).reverse ++ st.headers.map Header.name ∧
      (scanLines st (lines.map Written.text)).settings =
        (Written.settings st.sectionName lines).reverse ++ st.settings := by
  induction lines generalizing st with
  | nil => exact ⟨hvalue, hpending, rfl, rfl⟩
  | cons line lines ih =>
    have hrest := fun line' hmem => h line' (List.mem_cons_of_mem line hmem)
    have hline := h line List.mem_cons_self
    show (scanLines (scanLine st line.text) _).inValue = false ∧ (scanLines (scanLine st line.text) _).pending = [] ∧
      (scanLines (scanLine st line.text) _).headers.map Header.name = _ ∧
      (scanLines (scanLine st line.text) _).settings = _
    cases line with
    | blank =>
      have hblank : scanLine st Written.blank.text = st.nextLine := by
        rw [Written.text, scanLine_nil_eq, if_neg (by simp [hvalue])]
      rw [hblank]
      exact ih hrest hvalue hpending
    | header name =>
      rw [Written.text, scanLine_header hvalue hpending hline.1]
      obtain ⟨hvalue', hpending', hnames, hsettings⟩ := @ih
        { st.nextLine with sectionName := name, headers := ⟨name, st.number + 1⟩ :: st.headers } hrest hvalue hpending
      refine ⟨hvalue', hpending', ?_, hsettings⟩
      rw [hnames]
      simp [Written.names]
    | assignment key literal =>
      obtain ⟨value, hscan⟩ := scanLine_assignment hline.1 hline.2 hvalue hpending
      rw [Written.text, hscan]
      obtain ⟨hvalue', hpending', hnames, hsettings⟩ := @ih (st.nextLine.key key key literal true value) hrest rfl rfl
      refine ⟨hvalue', hpending', hnames, ?_⟩
      have hvalueText : appendValueText [] literal = literal := by
        unfold appendValueText
        rw [hline.2.trimmed]
        simp [hline.2.ne]
      have hkey : (st.nextLine.key key key literal true value).settings =
          (st.sectionName, key, literal) :: st.settings := by
        simp [ScanState.settings, ScanState.key, ScanState.keyText, ScanState.entry, ScanState.nextLine, Entry.setting,
          hvalueText]
      rw [hsettings, hkey]
      simp [Written.settings, ScanState.key, ScanState.keyText, ScanState.nextLine]

theorem Written.Sound.newline {line : Written} (h : line.Sound) : '\n' ∉ line.text := by
  cases line with
  | blank => exact List.not_mem_nil
  | header name =>
    intro hmem
    have hmem : '\n' ∈ name := by simpa [Written.text] using hmem
    exact h.2 hmem
  | assignment key literal =>
    intro hmem
    have hmem : '\n' ∈ key ∨ '\n' ∈ literal := by simpa [Written.text, assignmentLine] using hmem
    rcases hmem with hmem | hmem
    · exact absurd (h.1.plain _ hmem).1 (by decide)
    · exact h.2.newline hmem

theorem Written.Sound.carriageReturn {line : Written} (h : line.Sound) : line.text.getLast? ≠ some '\r' := by
  cases line with
  | blank => simp [Written.text]
  | header name =>
    rw [Written.text, List.getLast?_append_of_ne_nil _ (by simp)]
    simp
  | assignment key literal =>
    rw [Written.text, assignmentLine, List.getLast?_append_of_ne_nil _ (by simp), List.getLast?_cons_of_ne_nil h.2.ne]
    intro hlast
    exact absurd (h.2.last _ hlast) (by decide)

/-! ## Headers that are not read -/

theorem keyTokens_unclosed {text : Text} (h : ∀ c ∈ text, isSpace c = false ∧ c ≠ '=' ∧ c ≠ '"') (index : Nat)
    (pending : Text) : keyTokens text index pending none = (pending ++ text, none) := by
  induction text generalizing index pending with
  | nil => simp [keyTokens]
  | cons c text ih =>
    obtain ⟨hspace, hequals, hquote⟩ := h c List.mem_cons_self
    rw [keyTokens, if_neg hequals, if_neg hquote, hspace, ih fun d hd => h d (List.mem_cons_of_mem c hd)]
    simp

theorem header_plain (hname : ∀ c ∈ name, isPlain c = true) :
    ∀ c ∈ '[' :: name ++ [']'], isSpace c = false ∧ c ≠ '=' ∧ c ≠ '"' := by
  intro c hc
  have hc : c = '[' ∨ c ∈ name ∨ c = ']' := by simpa using hc
  rcases hc with rfl | hc | rfl
  · decide
  · exact ⟨not_isSpace_of_isPlain (hname c hc), ne_of_isPlain (hname c hc) (by decide),
      ne_of_isPlain (hname c hc) (by decide)⟩
  · decide

/-- A header after the text of a key is more text of the key. -/
theorem scanLine_header_pending (hvalue : st.inValue = false) (hpending : st.pending ≠ [])
    (hname : ∀ c ∈ name, isPlain c = true) :
    scanLine st ('[' :: name ++ [']']) = st.nextLine.keyText (st.pending ++ ('[' :: name ++ [']'])) := by
  have htokens : appendKeyTokens ('[' :: name ++ [']']) st.nextLine.pending =
      (st.pending ++ ('[' :: name ++ [']']), none) := keyTokens_unclosed (header_plain hname) 0 st.pending
  unfold scanLine scanRest
  dsimp only
  rw [if_neg (by simpa [ScanState.nextLine] using hvalue), scanText]
  dsimp only
  rw [header_trimmed, if_neg (by simp), if_neg (by simp [show st.nextLine.pending = st.pending from rfl, hpending]),
    htokens]

/-- The name of a section that may begin somewhere on a line. -/
def Opens (raw name : Text) : Prop :=
  ∃ text, text <:+ raw ∧ isHeader (trimmedView text) = true ∧ headerName (trimmedView text) = name

theorem Opens.of_suffix {raw text : Text} (h : Opens text name) (hsuffix : text <:+ raw) : Opens raw name := by
  obtain ⟨rest, hrest, hheader, hname⟩ := h
  exact ⟨rest, hrest.trans hsuffix, hheader, hname⟩

theorem scanText_opens (fuel : Nat) (st : ScanState) (text : Text) : ∃ Q,
    (scanText fuel st text).headers = Q ++ st.headers ∧ ∀ header ∈ Q, Opens text header.name := by
  induction fuel generalizing st text with
  | zero => exact ⟨[], rfl, by simp⟩
  | succ fuel ih =>
    unfold scanText
    dsimp only
    split_ifs with hcomment hheader
    · exact ⟨[], rfl, by simp⟩
    · refine ⟨[_], rfl, ?_⟩
      intro header hmem
      rw [List.mem_singleton.mp hmem]
      exact ⟨text, List.suffix_rfl, (Bool.and_eq_true_iff.mp hheader).2, rfl⟩
    · split
      · exact ⟨[], rfl, by simp⟩
      · split_ifs
        · obtain ⟨Q, hQ, hopens⟩ := ih (st.key ..) _
          refine ⟨Q, hQ, fun header hmem => (hopens header hmem).of_suffix ?_⟩
          exact (List.drop_suffix _ _).trans ((List.drop_suffix _ _).trans (List.dropWhile_suffix _))
        · exact ⟨[], rfl, by simp⟩

/-- **A line registers only sections that may begin on it.** -/
theorem scanLine_opens (st : ScanState) (raw : Text) : ∃ Q,
    (scanLine st raw).headers = Q ++ st.headers ∧ ∀ header ∈ Q, Opens raw header.name := by
  unfold scanLine
  dsimp only
  split_ifs
  · exact ⟨[], by simp [ScanState.nextLine], by simp⟩
  · obtain ⟨Q, hQ, hopens⟩ := scanText_opens _ (st.nextLine.valueLine raw)
      (raw.drop (advanceValue raw st.nextLine.value).2.2)
    refine ⟨Q, ?_, fun header hmem => (hopens header hmem).of_suffix (List.drop_suffix _ _)⟩
    unfold scanRest
    rw [hQ]
    simp [ScanState.nextLine]
  · exact scanText_opens _ _ _

theorem scanLines_opens (st : ScanState) (lines : List Text) : ∃ Q,
    (scanLines st lines).headers = Q ++ st.headers ∧ ∀ header ∈ Q, ∃ line ∈ lines, Opens line header.name := by
  induction lines generalizing st with
  | nil => exact ⟨[], rfl, by simp⟩
  | cons line lines ih =>
    obtain ⟨Q, hQ, hopens⟩ := scanLine_opens st line
    obtain ⟨Q', hQ', hopens'⟩ := ih (scanLine st line)
    refine ⟨Q' ++ Q, ?_, ?_⟩
    · show (scanLines (scanLine st line) lines).headers = _
      rw [hQ', hQ, List.append_assoc]
    · intro header hmem
      rcases List.mem_append.mp hmem with hmem | hmem
      · obtain ⟨line', hline', hheader⟩ := hopens' header hmem
        exact ⟨line', List.mem_cons_of_mem line hline', hheader⟩
      · exact ⟨line, List.mem_cons_self, hopens header hmem⟩

/-- The last character of a text that does not end in a space. -/
theorem getLast?_trimmedView {text : Text} {c : Char} (h : text.getLast? = some c) (hspace : isSpace c = false) :
    (trimmedView text).getLast? = some c := by
  have hdrop : (text.dropWhile isSpace).getLast? = some c := by
    obtain ⟨front, hfront⟩ := List.dropWhile_suffix isSpace (l := text)
    have hne : text.dropWhile isSpace ≠ [] := by
      rw [Ne, List.dropWhile_eq_nil_iff]
      intro hall
      have := hall c (List.mem_of_getLast? h)
      rw [hspace] at this
      cases this
    rwa [← hfront, List.getLast?_append_of_ne_nil _ hne] at h
  unfold trimmedView trimBy
  rwa [rdropWhile_eq_self]
  intro d hd
  rw [hdrop] at hd
  cases hd
  exact hspace

theorem not_opens_of_getLast? {raw : Text} {c : Char} (h : raw.getLast? = some c) (hspace : isSpace c = false)
    (hc : c ≠ ']') : ¬ Opens raw name := by
  rintro ⟨text, ⟨front, rfl⟩, hheader, -⟩
  have hne : text ≠ [] := by
    rintro rfl
    cases hheader
  rw [List.getLast?_append_of_ne_nil _ hne] at h
  unfold isHeader at hheader
  rw [getLast?_trimmedView h hspace] at hheader
  simp [hc] at hheader

theorem bracket_mem_of_isHeader {text : Text} (h : isHeader (trimmedView text) = true) : '[' ∈ text := by
  have hhead : (trimmedView text).head? = some '[' := by
    unfold isHeader at h
    simp only [Bool.and_eq_true, decide_eq_true_eq] at h
    exact h.1.2
  exact (isInfix_trimBy isSpace text).subset (List.mem_of_head? hhead)

/-- The line of a header opens no other section. -/
theorem eq_of_opens_header {name' : Text} (hname : trimmedView name = name) (hbracket : '[' ∉ name)
    (h : Opens ('[' :: name ++ [']']) name') : name' = name := by
  obtain ⟨text, hsuffix, hheader, rfl⟩ := h
  rcases List.suffix_cons_iff.mp hsuffix with rfl | hsuffix
  · rw [show '[' :: (name.append [']']) = '[' :: name ++ [']'] from rfl, header_trimmed]
    unfold headerName
    simp [hname]
  · have hmem := hsuffix.subset (bracket_mem_of_isHeader hheader)
    have : '[' ∈ name := by simpa using hmem
    exact absurd this hbracket

theorem walkValue_le (text : Text) (s : ValueState) (word : Option Text) (index : Nat) :
    index ≤ (walkValue text s word index).2 := by
  fun_induction walkValue text s word index <;> grind

/-- The walk takes an opening bracket with it. -/
theorem lt_walkValue (rest : Text) (s : ValueState) (word : Option Text) (index : Nat) :
    index < (walkValue ('[' :: rest) s word index).2 := by
  cases hstring : s.inString with
  | true =>
    rw [walkValue_inString hstring (by decide) (by decide)]
    exact walkValue_le rest s word (index + 1)
  | false =>
    rw [walkValue_opener hstring (by decide)]
    exact walkValue_le rest _ word (index + 1)

/-- A value that awaits its call takes a header for the call. -/
theorem scanLine_header_awaiting (hvalue : st.inValue = true) (hawait : st.value.awaitingCall = true)
    (hbracket : '[' ∉ name) : (scanLine st ('[' :: name ++ [']'])).headers = st.headers := by
  obtain ⟨stop, hstop⟩ : ∃ stop, (advanceValue ('[' :: name ++ [']']) st.nextLine.value).2.2 = stop + 1 := by
    apply Nat.exists_eq_add_one.mpr
    unfold advanceValue
    rw [if_pos (show st.nextLine.value.awaitingCall = true from hawait),
      show ('[' :: name ++ [']']).dropWhile isSpace = '[' :: (name ++ [']']) from rfl]
    dsimp only
    rw [if_pos (by decide)]
    exact lt_of_le_of_lt (Nat.zero_le _) (lt_walkValue _ _ _ _)
  unfold scanLine
  dsimp only
  rw [if_pos (show st.nextLine.inValue = true from hvalue), hstop]
  split_ifs
  · simp [ScanState.nextLine]
  · obtain ⟨Q, hQ, hopens⟩ := scanText_opens ((name ++ [']']).drop stop |>.length.succ)
        (st.nextLine.valueLine ('[' :: name ++ [']']))
      ((name ++ [']']).drop stop)
    have hnone : Q = [] := by
      apply List.eq_nil_iff_forall_not_mem.mpr
      intro header hmem
      obtain ⟨text, hsuffix, hheader, -⟩ := hopens header hmem
      have hmem := (hsuffix.trans (List.drop_suffix _ _)).subset (bracket_mem_of_isHeader hheader)
      have : '[' ∈ name := by simpa using hmem
      exact hbracket this
    rw [hnone] at hQ
    refine hQ.trans ?_
    simp [ScanState.nextLine]

/-! ## The sections of keys -/

/-- A section that has a header, or none. -/
def Titles (st : ScanState) (sectionName : Text) : Prop :=
  sectionName = [] ∨ sectionName ∈ st.headers.map Header.name

/-- The keys that are registered stand under headers. -/
structure Owned (st : ScanState) : Prop where
  current : Titles st st.sectionName
  entries : ∀ e ∈ st.entries, Titles st e.sectionName

namespace Owned

theorem nextLine (h : Owned st) : Owned st.nextLine := ⟨h.current, h.entries⟩

theorem header (h : Owned st) (line : Text) : Owned (st.header line) := by
  refine ⟨.inr List.mem_cons_self, fun e hmem => ?_⟩
  exact (h.entries e hmem).imp_right (List.mem_cons_of_mem _)

theorem keyText (h : Owned st) (pending : Text) : Owned (st.keyText pending) := ⟨h.current, h.entries⟩

theorem key (h : Owned st) (pending keyOnLine piece : Text) (finished : Bool) (value : ValueState) :
    Owned (st.key pending keyOnLine piece finished value) := by
  refine ⟨h.current, fun e hmem => ?_⟩
  rcases List.mem_cons.mp hmem with rfl | hmem
  · exact h.current
  · exact h.entries e hmem

theorem extend (h : Owned st) (piece : Text) : Owned (st.extend piece) := by
  unfold ScanState.extend
  split
  · exact h
  · rename_i e entries hentries
    have howned := h.entries
    rw [hentries] at howned
    refine ⟨h.current, fun e' hmem => ?_⟩
    rcases List.mem_cons.mp hmem with rfl | hmem
    · exact howned e List.mem_cons_self
    · exact howned e' (List.mem_cons_of_mem _ hmem)

theorem valueLine (h : Owned st) (raw : Text) : Owned (st.valueLine raw) := by
  unfold ScanState.valueLine
  dsimp only
  split_ifs
  · exact ⟨(h.extend _).current, (h.extend _).entries⟩
  · exact ⟨h.current, h.entries⟩

theorem scanText (h : Owned st) (fuel : Nat) (text : Text) : Owned (scanText fuel st text) := by
  induction fuel generalizing st text with
  | zero => exact h
  | succ fuel ih =>
    unfold Config.scanText
    dsimp only
    split_ifs
    · exact h
    · exact h.header _
    · split
      · exact h.keyText _
      · split_ifs
        · exact ih (h.key ..) _
        · exact h.key ..

theorem scanLine (h : Owned st) (raw : Text) : Owned (scanLine st raw) := by
  unfold Config.scanLine
  dsimp only
  split_ifs
  · exact h.nextLine.valueLine raw
  · exact (h.nextLine.valueLine raw).scanText _ _
  · exact h.nextLine.scanText _ _

theorem scanLines (h : Owned st) (lines : List Text) : Owned (scanLines st lines) := by
  induction lines generalizing st with
  | nil => exact h
  | cons line lines ih => exact ih (h.scanLine line)

end Owned

/-- **Every key stands under a header, or before all of them.** -/
theorem owned_scan (contents : Text) : ∀ e ∈ (scan contents).entries,
    e.sectionName = [] ∨ e.sectionName ∈ (scan contents).headers.map Header.name := by
  intro e hmem
  have h := (@Owned.scanLines {} ⟨.inl rfl, by simp⟩ (linesOf contents)).entries e (List.mem_reverse.mp hmem)
  refine h.imp_right fun hname => ?_
  show _ ∈ (List.reverse _).map _
  rw [List.map_reverse]
  exact List.mem_reverse.mpr hname

end Didi.Export
