import Didi.Config.Settings

/-!
# The line endings that a write keeps

A write goes through the lines of the file and puts one newline after each of them, CRLF as soon as the file
holds one and LF otherwise.

* `wholeLines` : the lines of a text with the newlines that end them, `wholeLines_flatten` and `fileLines_eq`;
* `relined_eq_self`, `length_relined` : a line that ends otherwise comes out as another line, and no shorter;
* `set_keeps_iff` : the bytes around an assignment that is replaced stay as they are exactly when the lines there
  all end in the newline of the file.
-/

namespace Didi.Config

/-! ## Lines with their newlines -/

/-- The lines of a text, each with the newline that ends it. -/
def wholeLines : Text → List Text
  | [] => []
  | c :: text =>
    if c = '\n' then ['\n'] :: wholeLines text
    else
      match wholeLines text with
      | [] => [[c]]
      | line :: lines => (c :: line) :: lines

theorem wholeLines_flatten (text : Text) : (wholeLines text).flatten = text := by
  induction text with
  | nil => rfl
  | cons c text ih =>
    rw [wholeLines]
    split_ifs with hc
    · rw [List.flatten_cons, ih, hc]
      rfl
    · cases hlines : wholeLines text with
      | nil =>
        rw [hlines] at ih
        rw [← ih]
        rfl
      | cons line lines =>
        rw [hlines] at ih
        rw [← ih]
        rfl

theorem ne_nil_of_wholeLines {text line : Text} (h : line ∈ wholeLines text) : line ≠ [] := by
  induction text generalizing line with
  | nil => cases h
  | cons c text ih =>
    rw [wholeLines] at h
    split_ifs at h with hc
    · rcases List.mem_cons.mp h with rfl | h
      · exact List.cons_ne_nil _ _
      · exact ih h
    · cases hlines : wholeLines text with
      | nil =>
        rw [hlines] at h
        cases List.mem_singleton.mp h
        exact List.cons_ne_nil _ _
      | cons first lines =>
        rw [hlines] at h ih
        rcases List.mem_cons.mp h with rfl | h
        · exact List.cons_ne_nil _ _
        · exact ih (List.mem_cons_of_mem _ h)

theorem dropEmptyLast_cons (line : Text) {lines : List Text} (h : lines ≠ []) :
    dropEmptyLast (line :: lines) = line :: dropEmptyLast lines := by
  unfold dropEmptyLast
  rw [List.getLast?_cons_of_ne_nil h, List.dropLast_cons_of_ne_nil h]
  split_ifs <;> rfl

theorem dropNewline_cons {c : Char} {line : Text} (h : line ≠ []) :
    dropNewline (c :: line) = c :: dropNewline line := by
  unfold dropNewline
  rw [List.getLast?_cons_of_ne_nil h, List.dropLast_cons_of_ne_nil h]
  split_ifs <;> rfl

/-- The pieces between the newlines are the lines without theirs. -/
theorem dropEmptyLast_splitOn (text : Text) :
    dropEmptyLast (text.splitOn '\n') = (wholeLines text).map dropNewline := by
  induction text with
  | nil => simp [wholeLines, dropEmptyLast]
  | cons c text ih =>
    have hne := List.splitOn_ne_nil '\n' text
    have hsplit : (c :: text).splitOn '\n' =
        if c = '\n' then [] :: text.splitOn '\n' else (text.splitOn '\n').modifyHead (c :: ·) := by
      rw [List.splitOn_eq_splitOnP, List.splitOnP_cons_eq_if_modifyHead, List.splitOn_eq_splitOnP]
      simp
    rw [hsplit, wholeLines]
    split_ifs with hc
    · rw [dropEmptyLast_cons [] hne, ih]
      rfl
    · obtain ⟨piece, pieces, hpieces⟩ := List.exists_cons_of_ne_nil hne
      rw [hpieces] at ih ⊢
      rw [List.modifyHead_cons]
      cases hlines : wholeLines text with
      | nil =>
        -- nothing is left of the text, so its only piece is the empty one
        have htext : text = [] := by rw [← wholeLines_flatten text, hlines, List.flatten_nil]
        subst htext
        rw [List.splitOn_nil] at hpieces
        cases hpieces
        simp [dropEmptyLast, dropNewline, hc]
      | cons line lines =>
        have hline : line ≠ [] := ne_nil_of_wholeLines (hlines ▸ List.mem_cons_self)
        rw [hlines, List.map_cons] at ih
        rw [List.map_cons, dropNewline_cons hline]
        by_cases hrest : pieces = []
        · subst hrest
          unfold dropEmptyLast at ih ⊢
          simp only [List.getLast?_singleton, Option.some.injEq, List.dropLast_singleton] at ih ⊢
          split_ifs at ih with hempty
          obtain ⟨hpiece, hlines⟩ := List.cons.inj ih
          rw [if_neg (List.cons_ne_nil _ _), hpiece, ← hlines]
        · rw [dropEmptyLast_cons _ hrest] at ih ⊢
          obtain ⟨hpiece, hlines⟩ := List.cons.inj ih
          rw [hpiece, hlines]

/-- A line of a file, as `getline` reads it and without the carriage return. -/
def lineOf (line : Text) : Text := dropReturn (dropNewline line)

theorem fileLines_eq (text : Text) : fileLines text = (wholeLines text).map lineOf := by
  unfold fileLines
  rw [dropEmptyLast_splitOn, List.map_map]
  rfl

/-! ## A line written again -/

/-- A line as a write puts it back. -/
def relined (newline line : Text) : Text := lineOf line ++ newline

theorem infix_of_wholeLines {text line : Text} (h : line ∈ wholeLines text) : line <:+: text := by
  have hinfix := List.infix_of_mem_flatten h
  rwa [wholeLines_flatten] at hinfix

/-- The newline of a file is one that its lines may end in. -/
theorem relined_eq_self {text line : Text} (hline : line ∈ wholeLines text) :
    relined (newlineOf text) line = line ↔ newlineOf text <:+ line := by
  constructor
  · intro h
    exact ⟨lineOf line, h⟩
  · rintro ⟨start, rfl⟩
    unfold relined
    congr 1
    unfold newlineOf at hline ⊢
    cases hpair : hasPair '\r' '\n' text with
    | true => simp [lineOf, dropNewline, dropReturn]
    | false =>
      rw [hpair, if_neg Bool.false_ne_true] at hline
      have hplain : start.getLast? ≠ some '\r' := by
        intro hlast
        obtain ⟨start, rfl⟩ : ∃ start', start = start' ++ ['\r'] :=
          ⟨start.dropLast, (List.dropLast_append_getLast? _ hlast).symm⟩
        obtain ⟨u, v, htext⟩ := infix_of_wholeLines hline
        have hfound := hasPair_append '\r' '\n' (u ++ start) v
        rw [show (u ++ start) ++ '\r' :: '\n' :: v = u ++ (start ++ ['\r'] ++ ['\n']) ++ v by simp, htext,
          hpair] at hfound
        cases hfound
      simp [lineOf, dropNewline, dropReturn_eq_self hplain]

theorem length_relined {text line : Text} (hline : line ∈ wholeLines text) :
    line.length ≤ (relined (newlineOf text) line).length := by
  by_cases hsuffix : newlineOf text <:+ line
  · rw [(relined_eq_self hline).mpr hsuffix]
  · -- what is taken off the line is no longer than what is put on it
    have hdrop : ∀ text : Text, text.length ≤ (dropReturn text).length + 1 := by
      intro text
      unfold dropReturn
      split_ifs
      · rw [List.length_dropLast]
        omega
      · omega
    unfold relined lineOf
    rw [List.length_append]
    unfold newlineOf at hsuffix ⊢
    cases hpair : hasPair '\r' '\n' text with
    | true =>
      have hreturn := hdrop (dropNewline line)
      have hnewline : line.length ≤ (dropNewline line).length + 1 := by
        unfold dropNewline
        split_ifs
        · rw [List.length_dropLast]
          omega
        · omega
      rw [if_pos rfl, show (['\r', '\n'] : Text).length = 2 from rfl]
      omega
    | false =>
      rw [hpair, if_neg Bool.false_ne_true] at hsuffix
      have hplain : line.getLast? ≠ some '\n' := fun hlast =>
        hsuffix ⟨line.dropLast, List.dropLast_append_getLast? _ hlast⟩
      have hreturn := hdrop line
      rw [show dropNewline line = line from if_neg hplain, if_neg Bool.false_ne_true,
        show (['\n'] : Text).length = 1 from rfl]
      omega

theorem textOfLines_map_lineOf (newline : Text) (lines : List Text) :
    textOfLines newline (lines.map lineOf) = (lines.map (relined newline)).flatten := by
  unfold textOfLines
  rw [List.flatMap_map, List.flatMap_def]
  rfl

theorem length_flatten_relined {text : Text} {lines : List Text} (h : ∀ line ∈ lines, line ∈ wholeLines text) :
    lines.flatten.length ≤ (lines.map (relined (newlineOf text))).flatten.length := by
  induction lines with
  | nil => exact le_rfl
  | cons line lines ih =>
    have hline := length_relined (h line List.mem_cons_self)
    have hlines := ih fun line hmem => h line (List.mem_cons_of_mem _ hmem)
    rw [List.map_cons, List.flatten_cons, List.flatten_cons, List.length_append, List.length_append]
    omega

theorem flatten_relined_iff {text : Text} {lines : List Text} (h : ∀ line ∈ lines, line ∈ wholeLines text) :
    (lines.map (relined (newlineOf text))).flatten = lines.flatten ↔ ∀ line ∈ lines, newlineOf text <:+ line := by
  induction lines with
  | nil => simp
  | cons line lines ih =>
    have hline := h line List.mem_cons_self
    have hlines : ∀ line ∈ lines, line ∈ wholeLines text := fun line hmem => h line (List.mem_cons_of_mem _ hmem)
    rw [List.map_cons, List.flatten_cons, List.flatten_cons, List.forall_mem_cons, ← ih hlines, ← relined_eq_self hline]
    constructor
    · intro heq
      -- nothing comes out shorter, so what comes out as long in all does so line by line
      have hlength := congrArg List.length heq
      rw [List.length_append, List.length_append] at hlength
      have hfirst := length_relined hline
      have hrest := length_flatten_relined hlines
      exact List.append_inj heq (by omega)
    · rintro ⟨hfirst, hrest⟩
      rw [hfirst, hrest]

/-! ## A setting that is replaced -/

/-- The lines before an assignment and those after it. -/
def linesBefore (contents : Text) (target : Entry) : List Text := (wholeLines contents).take (target.line - 1)

def linesAfter (contents : Text) (target : Entry) : List Text := (wholeLines contents).drop target.valueEndLine

section Replaced
variable {contents setting literal written : Text} {typedNamespace : Bool} {report : ProjectSettingWrite}
  {target : Entry} {index : Nat}

/-- A write that finds the setting splices the lines of its last spelling. -/
theorem splice_of_plan {splice : Splice}
    (hplan : planSettingLine contents setting (some literal) typedNamespace = .ok (report, splice))
    (hspelling : lastSpelling (scan contents).entries (sectionOf setting) (keyOf setting) = some (target, index)) :
    splice = ⟨target.line - 1, min target.valueEndLine (fileLines contents).length,
      [assignmentLine (keyOf setting) literal]⟩ := by
  unfold planSettingLine at hplan
  dsimp only at hplan
  rw [hspelling] at hplan
  split_ifs at hplan
  split at hplan
  · cases hplan
  · dsimp only at hplan
    split at hplan
    · cases hplan
    · cases hplan
      rfl

theorem written_of_set
    (hwrite : writeSettingLine contents setting (some literal) typedNamespace = .ok (report, written))
    (hspelling : lastSpelling (scan contents).entries (sectionOf setting) (keyOf setting) = some (target, index)) :
    written = ((linesBefore contents target).map (relined (newlineOf contents))).flatten ++
      (assignmentLine (keyOf setting) literal ++ newlineOf contents) ++
      ((linesAfter contents target).map (relined (newlineOf contents))).flatten := by
  unfold writeSettingLine at hwrite
  cases hplan : planSettingLine contents setting (some literal) typedNamespace with
  | error e =>
    rw [hplan] at hwrite
    cases hwrite
  | ok plan =>
    obtain ⟨report', splice⟩ := plan
    rw [hplan] at hwrite
    cases hwrite
    rw [splice_of_plan hplan hspelling, ← textOfLines_map_lineOf, ← textOfLines_map_lineOf, linesBefore, linesAfter,
      List.map_take, List.map_drop, ← fileLines_eq]
    unfold Splice.apply textOfLines
    rw [List.flatMap_append, List.flatMap_append, List.flatMap_singleton]
    rcases le_total target.valueEndLine (fileLines contents).length with hle | hle
    · rw [min_eq_left hle]
    · rw [min_eq_right hle, List.drop_length, List.drop_eq_nil_of_le hle]

/-- **A write that replaces a setting leaves every byte around the assignment as it is, exactly where all the
lines there end in the newline of the file.** -/
theorem set_keeps_iff
    (hwrite : writeSettingLine contents setting (some literal) typedNamespace = .ok (report, written))
    (hspelling : lastSpelling (scan contents).entries (sectionOf setting) (keyOf setting) = some (target, index)) :
    written = (linesBefore contents target).flatten ++ (assignmentLine (keyOf setting) literal ++ newlineOf contents) ++
        (linesAfter contents target).flatten ↔
      ∀ line ∈ linesBefore contents target ++ linesAfter contents target, newlineOf contents <:+ line := by
  have hbefore : ∀ line ∈ linesBefore contents target, line ∈ wholeLines contents := fun _ => List.mem_of_mem_take
  have hafter : ∀ line ∈ linesAfter contents target, line ∈ wholeLines contents := fun _ => List.mem_of_mem_drop
  rw [written_of_set hwrite hspelling, List.forall_mem_append, ← flatten_relined_iff hbefore,
    ← flatten_relined_iff hafter]
  constructor
  · intro heq
    have hlength := congrArg List.length heq
    simp only [List.length_append] at hlength
    have hfirst := length_flatten_relined hbefore
    have hlast := length_flatten_relined hafter
    obtain ⟨hstart, hrest⟩ := List.append_inj' heq (by omega)
    exact ⟨List.append_cancel_right hstart, hrest⟩
  · rintro ⟨hfirst, hlast⟩
    rw [hfirst, hlast]

end Replaced

/-- A write that succeeds over a setting that is there, from evaluations of its parts. -/
theorem exists_set (contents setting literal : Text) (first last : Nat)
    (hok : (writeSettingLine contents setting (some literal) false).toOption.isSome = true)
    (hspelling : (lastSpelling (scan contents).entries (sectionOf setting) (keyOf setting)).map
      (fun e => (e.1.line, e.1.valueEndLine)) = some (first, last)) :
    ∃ report written target index, writeSettingLine contents setting (some literal) false = .ok (report, written) ∧
      lastSpelling (scan contents).entries (sectionOf setting) (keyOf setting) = some (target, index) ∧
      target.line = first ∧ target.valueEndLine = last := by
  obtain ⟨⟨target, index⟩, hfound, hlines⟩ := Option.map_eq_some_iff.mp hspelling
  obtain ⟨hfirst, hlast⟩ := Prod.mk.inj hlines
  cases hwrite : writeSettingLine contents setting (some literal) false with
  | error e =>
    rw [hwrite] at hok
    cases hok
  | ok answer => exact ⟨answer.1, answer.2, target, index, rfl, hfound, hfirst, hlast⟩

/-- A file of LF lines keeps what stands around the setting. -/
theorem set_keeps_plain : ∃ report written target index,
    writeSettingLine "[a]\nb=1\nc=2\n".toList "a/b".toList (some "3".toList) false = .ok (report, written) ∧
      lastSpelling (scan "[a]\nb=1\nc=2\n".toList).entries "a".toList "b".toList = some (target, index) ∧
      written = (linesBefore "[a]\nb=1\nc=2\n".toList target).flatten ++
        (assignmentLine "b".toList "3".toList ++ newlineOf "[a]\nb=1\nc=2\n".toList) ++
        (linesAfter "[a]\nb=1\nc=2\n".toList target).flatten := by
  obtain ⟨report, written, target, index, hwrite, hspelling, hfirst, hlast⟩ :=
    exists_set "[a]\nb=1\nc=2\n".toList "a/b".toList "3".toList 2 2 (by decide +kernel) (by decide +kernel)
  refine ⟨report, written, target, index, hwrite, hspelling, (set_keeps_iff hwrite hspelling).mpr ?_⟩
  unfold linesBefore linesAfter
  rw [hfirst, hlast]
  decide +kernel

/-- One CRLF in the file, and the LF lines around the setting come out as CRLF lines. -/
theorem not_set_keeps_mixed : ¬ ∀ (contents setting literal : Text) (typedNamespace : Bool)
    (report : ProjectSettingWrite) (written : Text) (target : Entry) (index : Nat),
    writeSettingLine contents setting (some literal) typedNamespace = .ok (report, written) →
      lastSpelling (scan contents).entries (sectionOf setting) (keyOf setting) = some (target, index) →
      written = (linesBefore contents target).flatten ++ (assignmentLine (keyOf setting) literal ++ newlineOf contents) ++
        (linesAfter contents target).flatten := by
  intro h
  obtain ⟨report, written, target, index, hwrite, hspelling, hfirst, hlast⟩ :=
    exists_set "[a]\nb=1\r\nc=2\n".toList "a/b".toList "3".toList 2 2 (by decide +kernel) (by decide +kernel)
  have hends := (set_keeps_iff hwrite hspelling).mp (h _ _ _ _ _ _ _ _ hwrite hspelling)
  unfold linesBefore linesAfter at hends
  rw [hfirst, hlast] at hends
  revert hends
  decide +kernel

end Didi.Config
