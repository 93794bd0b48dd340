import Didi.Script.Extent

/-!
# A definition moved to another indentation

* `literalOf` : the part of a line that stands in literals;
* `beginnings` : the lines of a text, each with the literal that it begins in;
* `literalOf_reindentLine_iff` : when a line that is moved keeps its part of a literal;
* `reindent_iff` : when a definition that is moved keeps its literals and the nesting of its lines.
-/

namespace Didi.Script
open Didi.Config
variable {delimiter : Delimiter}

/-! ## The literals of a text -/

/-- What a line holds of literals, their quotes with it, as `codeFrom` blanks it out. -/
def literalFrom : Nat → Lexing → Text → Text
  | _, _, [] => []
  | skip + 1, lexing, c :: rest => c :: literalFrom skip lexing rest
  | 0, .multiline quote, c :: rest =>
    if c = '\\' ∧ rest ≠ [] then c :: literalFrom 1 (.multiline quote) rest
    else if startsTriple quote (c :: rest) then c :: literalFrom 2 .code rest
    else c :: literalFrom 0 (.multiline quote) rest
  | 0, .quoted quote, c :: rest =>
    if c = '\\' ∧ rest ≠ [] then c :: literalFrom 1 (.quoted quote) rest
    else if c = quote then c :: literalFrom 0 .code rest
    else c :: literalFrom 0 (.quoted quote) rest
  | 0, .code, c :: rest =>
    if c = '#' then []
    else if isQuote c && startsTriple c (c :: rest) then c :: literalFrom 2 (.multiline c) rest
    else if isQuote c then c :: literalFrom 0 (.quoted c) rest
    else literalFrom 0 .code rest

def literalOf (line : Delimiter × Text) : Text := literalFrom 0 (.ofDelimiter line.1) line.2

/-- Each line with the literal that it begins in. -/
def beginnings : Delimiter → List Text → List (Delimiter × Text)
  | _, [] => []
  | delimiter, line :: lines => (delimiter, line) :: beginnings (codeOutsideGdscriptLiterals line delimiter).2 lines

/-- The lines of a text, each with the literal that it begins in. -/
def begun (text : Text) : List (Delimiter × Text) := beginnings none (text.splitOn '\n')

/-- The text of the literals, line by line. -/
def literals (text : Text) : List Text := (begun text).map literalOf

/-- A line that begins outside of literals and holds more than a comment. -/
def IsCode (line : Delimiter × Text) : Prop :=
  line.1 = none ∧ ∃ c ∈ (line.2.dropWhile isSpacing).head?, c ≠ '#'

/-- All lines that begin outside of literals are indented with one character. -/
def IndentedWith (c : Char) (text : Text) : Prop :=
  ∀ line ∈ begun text, line.1 = none → stringsTrim line.2 ≠ [] → ∀ d ∈ indentOf line.2, d = c

/-- One text is the other with lines that begin elsewhere: its literals are the same, and so is which of two lines of
code is nested deeper. -/
structure Kept (before after : Text) : Prop where
  spacing : (after.splitOn '\n').map (·.dropWhile isSpacing) = (before.splitOn '\n').map (·.dropWhile isSpacing)
  literals : literals after = literals before
  nesting : (∃ c, IndentedWith c before) → ∀ a ∈ (begun before).zip (after.splitOn '\n'),
    ∀ b ∈ (begun before).zip (after.splitOn '\n'), IsCode a.1 → IsCode b.1 →
      (getIndentLevel a.1.2 ≤ getIndentLevel b.1.2 ↔ getIndentLevel a.2 ≤ getIndentLevel b.2)

/-- A definition that can be moved. -/
structure Movable (definition base target : Text) : Prop where
  literals : ∀ line ∈ begun definition, line.1.isSome →
    line.2 = [] ∨ (target = [] ∧ stringsTrim line.2 ≠ [] ∧ ¬ base <+: line.2)
  nesting : (∃ c, IndentedWith c definition) → ∀ a ∈ begun definition, ∀ b ∈ begun definition, IsCode a → IsCode b →
    base <+: a.2 → ¬ base <+: b.2 → getIndentLevel b.2 + getIndentLevel base < getIndentLevel a.2

/-! ## Blanks before a line -/

/-- A character that opens no literal and no comment, and escapes nothing. -/
def Inert (c : Char) : Prop := isQuote c = false ∧ c ≠ '#' ∧ c ≠ '\\'

theorem inert_of_isSpacing {c : Char} (h : isSpacing c = true) : Inert c := by
  have hchars : ∀ c ∈ [' ', '\t', '\n', '\r'], isQuote c = false ∧ c ≠ '#' ∧ c ≠ '\\' :=
    List.all_iff_forall_prop.mp (by decide)
  exact hchars c (by simpa [isSpacing, or_assoc] using h)

theorem isSpacing_of_isBlankChar {c : Char} (h : isBlankChar c = true) : isSpacing c = true := by
  rw [isBlankChar, Bool.or_eq_true] at h
  rw [isSpacing, Bool.or_eq_true, Bool.or_eq_true, Bool.or_eq_true]
  exact .inl (.inl h)

variable {blanks rest line base target : Text}

theorem literalFrom_code (h : ∀ c ∈ blanks, Inert c) (rest : Text) :
    literalFrom 0 .code (blanks ++ rest) = literalFrom 0 .code rest := by
  induction blanks with
  | nil => rfl
  | cons c blanks ih =>
    obtain ⟨hquote, hcomment, -⟩ := h c List.mem_cons_self
    rw [List.cons_append, literalFrom, if_neg hcomment, hquote, Bool.false_and, if_neg Bool.false_ne_true,
      if_neg Bool.false_ne_true]
    exact ih fun d hd => h d (List.mem_cons_of_mem _ hd)

theorem startsTriple_inert {quote c : Char} (hquote : isQuote quote = true) (hc : Inert c) (rest : Text) :
    startsTriple quote (c :: rest) = false := by
  have hne : c ≠ quote := by
    rintro rfl
    rw [hc.1] at hquote
    cases hquote
  match rest with
  | [] => rfl
  | [_] => rfl
  | _ :: _ :: _ => simp [startsTriple, hne]

theorem literalFrom_multiline {quote : Char} (hquote : isQuote quote = true) (h : ∀ c ∈ blanks, Inert c) (rest : Text) :
    literalFrom 0 (.multiline quote) (blanks ++ rest) = blanks ++ literalFrom 0 (.multiline quote) rest := by
  induction blanks with
  | nil => rfl
  | cons c blanks ih =>
    have hc := h c List.mem_cons_self
    rw [List.cons_append, literalFrom, if_neg fun hescape => hc.2.2 hescape.1, startsTriple_inert hquote hc,
      if_neg Bool.false_ne_true, ih fun d hd => h d (List.mem_cons_of_mem _ hd)]
    rfl

theorem codeFrom_multiline {quote : Char} (hquote : isQuote quote = true) (h : ∀ c ∈ blanks, Inert c) (rest : Text) :
    (codeFrom 0 (.multiline quote) (blanks ++ rest)).2 = (codeFrom 0 (.multiline quote) rest).2 := by
  induction blanks with
  | nil => rfl
  | cons c blanks ih =>
    have hc := h c List.mem_cons_self
    rw [List.cons_append, codeFrom, if_neg fun hescape => hc.2.2 hescape.1, startsTriple_inert hquote hc,
      if_neg Bool.false_ne_true]
    exact ih fun d hd => h d (List.mem_cons_of_mem _ hd)

/-- Blanks before a line do not change where its literals end. -/
theorem next_blanks (hquote : ∀ quote ∈ delimiter, isQuote quote = true) (h : ∀ c ∈ blanks, Inert c) (rest : Text) :
    (codeOutsideGdscriptLiterals (blanks ++ rest) delimiter).2 = (codeOutsideGdscriptLiterals rest delimiter).2 := by
  cases delimiter with
  | none =>
    have hplain := @codeFrom_plain blanks rest fun c hc => ⟨(h c hc).1, (h c hc).2.1⟩
    unfold codeOutsideGdscriptLiterals
    rw [Lexing.ofDelimiter, hplain]
  | some quote => exact codeFrom_multiline (hquote quote rfl) h rest

theorem dropWhile_blanks (h : ∀ c ∈ blanks, isSpacing c = true) (rest : Text) :
    (blanks ++ rest).dropWhile isSpacing = rest.dropWhile isSpacing := by
  induction blanks with
  | nil => rfl
  | cons c blanks ih =>
    rw [List.cons_append, List.dropWhile_cons_of_pos (h c List.mem_cons_self)]
    exact ih fun d hd => h d (List.mem_cons_of_mem _ hd)

/-! ## A line that is moved -/

section Moved
variable (hbase : ∀ c ∈ base, isBlankChar c = true) (htarget : ∀ c ∈ target, isBlankChar c = true)
include hbase htarget

/-- A line is moved by other blanks before what stays of it. -/
theorem reindentLine_eq (line : Text) : ∃ before after rest, line = before ++ rest ∧
    reindentLine base target line = after ++ rest ∧ (∀ c ∈ before, isSpacing c = true) ∧
      ∀ c ∈ after, isSpacing c = true := by
  unfold reindentLine
  split_ifs with hblank hstart
  · refine ⟨line, [], [], (List.append_nil _).symm, rfl, fun c hc => ?_, fun c hc => by cases hc⟩
    have hchar := mem_of_stringsTrim_eq_nil hblank c hc
    simpa [isSpacing, or_assoc] using hchar
  · obtain ⟨rest, rfl⟩ := List.isPrefixOf_iff_prefix.mp hstart
    rw [List.drop_left]
    exact ⟨base, target, rest, rfl, rfl, fun c hc => isSpacing_of_isBlankChar (hbase c hc),
      fun c hc => isSpacing_of_isBlankChar (htarget c hc)⟩
  · exact ⟨[], target, line, rfl, rfl, fun c hc => absurd hc List.not_mem_nil,
      fun c hc => isSpacing_of_isBlankChar (htarget c hc)⟩

theorem dropWhile_reindentLine (line : Text) :
    (reindentLine base target line).dropWhile isSpacing = line.dropWhile isSpacing := by
  obtain ⟨before, after, rest, hline, hmoved, hbefore, hafter⟩ := reindentLine_eq hbase htarget line
  rw [hmoved, hline, dropWhile_blanks hbefore, dropWhile_blanks hafter]

theorem next_reindentLine (hquote : ∀ quote ∈ delimiter, isQuote quote = true) (line : Text) :
    (codeOutsideGdscriptLiterals (reindentLine base target line) delimiter).2 =
      (codeOutsideGdscriptLiterals line delimiter).2 := by
  obtain ⟨before, after, rest, hline, hmoved, hbefore, hafter⟩ := reindentLine_eq hbase htarget line
  rw [hmoved, hline, next_blanks hquote fun c hc => inert_of_isSpacing (hbefore c hc),
    next_blanks hquote fun c hc => inert_of_isSpacing (hafter c hc)]

theorem literalOf_reindentLine_none (line : Text) :
    literalOf (none, reindentLine base target line) = literalOf (none, line) := by
  obtain ⟨before, after, rest, hline, hmoved, hbefore, hafter⟩ := reindentLine_eq hbase htarget line
  unfold literalOf Lexing.ofDelimiter
  dsimp only
  rw [hmoved, hline, literalFrom_code fun c hc => inert_of_isSpacing (hbefore c hc),
    literalFrom_code fun c hc => inert_of_isSpacing (hafter c hc)]

/-- A line that begins in a literal keeps its part of it when nothing is put before it. -/
theorem literalOf_reindentLine_iff {quote : Char} (hquote : isQuote quote = true) (hne : base ≠ target) (line : Text) :
    literalOf (some quote, reindentLine base target line) = literalOf (some quote, line) ↔
      line = [] ∨ (target = [] ∧ stringsTrim line ≠ [] ∧ ¬ base <+: line) := by
  have hinert : ∀ {blanks : Text}, (∀ c ∈ blanks, isBlankChar c = true) → ∀ c ∈ blanks, Inert c :=
    fun h c hc => inert_of_isSpacing (isSpacing_of_isBlankChar (h c hc))
  unfold literalOf Lexing.ofDelimiter reindentLine
  dsimp only
  split_ifs with hblank hstart
  · have hline : ∀ c ∈ line, Inert c := by
      intro c hc
      have hchar := mem_of_stringsTrim_eq_nil hblank c hc
      exact inert_of_isSpacing (by simpa [isSpacing, or_assoc] using hchar)
    have hwhole := literalFrom_multiline hquote hline []
    rw [List.append_nil, show literalFrom 0 (.multiline quote) [] = [] from rfl, List.append_nil] at hwhole
    rw [hwhole]
    constructor
    · intro hnil
      exact .inl hnil.symm
    · rintro (rfl | ⟨-, hnonblank, -⟩)
      · rfl
      · exact absurd hblank hnonblank
  · obtain ⟨rest, rfl⟩ := List.isPrefixOf_iff_prefix.mp hstart
    rw [List.drop_left, literalFrom_multiline hquote (hinert htarget), literalFrom_multiline hquote (hinert hbase)]
    constructor
    · intro heq
      exact absurd (List.append_cancel_right heq).symm hne
    · rintro (hnil | ⟨-, -, hnot⟩)
      · rw [hnil] at hblank
        exact absurd rfl hblank
      · exact absurd (List.prefix_append base rest) hnot
  · rw [literalFrom_multiline hquote (hinert htarget)]
    constructor
    · intro heq
      have htargetNil := List.append_left_eq_self.mp heq
      exact .inr ⟨htargetNil, hblank, fun hmem => hstart (List.isPrefixOf_iff_prefix.mpr hmem)⟩
    · rintro (rfl | ⟨rfl, -, -⟩)
      · exact absurd rfl hblank
      · rfl

end Moved

/-! ## The indentation of a line -/

theorem getIndentLevel_append (h : ∀ c ∈ blanks, isBlankChar c = true) (rest : Text) :
    getIndentLevel (blanks ++ rest) = getIndentLevel blanks + getIndentLevel rest := by
  induction blanks with
  | nil => exact (Nat.zero_add _).symm
  | cons c blanks ih =>
    have hrest := ih fun d hd => h d (List.mem_cons_of_mem _ hd)
    have hc : c = ' ' ∨ c = '\t' := by simpa [isBlankChar] using h c List.mem_cons_self
    rcases hc with rfl | rfl
    · show 1 + getIndentLevel (blanks ++ rest) = 1 + getIndentLevel blanks + getIndentLevel rest
      omega
    · show 4 + getIndentLevel (blanks ++ rest) = 4 + getIndentLevel blanks + getIndentLevel rest
      omega

/-- A line that is indented with the character of the base and not by all of it is indented less. -/
theorem getIndentLevel_lt {c : Char} (hbase : ∀ d ∈ base, isBlankChar d = true ∧ d = c)
    (hline : ∀ d ∈ indentOf line, d = c) (hnot : ¬ base <+: line) : getIndentLevel line < getIndentLevel base := by
  induction base generalizing line with
  | nil => exact absurd (List.nil_prefix) hnot
  | cons d base ih =>
    obtain ⟨hblank, rfl⟩ := hbase d List.mem_cons_self
    have hpositive : getIndentLevel (d :: base) = getIndentLevel [d] + getIndentLevel base :=
      @getIndentLevel_append [d] (by simpa using hblank) base
    have hd : d = ' ' ∨ d = '\t' := by simpa [isBlankChar] using hblank
    have hone : 0 < getIndentLevel [d] := by
      rcases hd with rfl | rfl <;> decide
    cases line with
    | nil =>
      show 0 < _
      omega
    | cons e line =>
      by_cases heq : e = d
      · subst heq
        have hrest : getIndentLevel (e :: line) = getIndentLevel [e] + getIndentLevel line :=
          @getIndentLevel_append [e] (by simpa using hblank) line
        have hless := @ih line (fun x hx => hbase x (List.mem_cons_of_mem _ hx))
          (fun x hx => hline x (by rw [indentOf, List.takeWhile_cons_of_pos hblank]; exact List.mem_cons_of_mem _ hx))
          (fun hmore => hnot (List.cons_prefix_cons.mpr ⟨rfl, hmore⟩))
        omega
      · -- the line is not indented at all
        have hfirst : isBlankChar e = false := by
          by_contra htrue
          rw [Bool.not_eq_false] at htrue
          exact heq (hline e (by rw [indentOf, List.takeWhile_cons_of_pos htrue]; exact List.mem_cons_self))
        have hzero : getIndentLevel (e :: line) = 0 := by
          rw [isBlankChar, Bool.or_eq_false_iff, decide_eq_false_iff_not, decide_eq_false_iff_not] at hfirst
          unfold getIndentLevel
          split
          · rename_i h
            exact absurd (List.cons.inj h).1 hfirst.2
          · rename_i h
            exact absurd (List.cons.inj h).1 hfirst.1
          · rfl
        omega

theorem getIndentLevel_reindentLine (hbase : ∀ c ∈ base, isBlankChar c = true)
    (htarget : ∀ c ∈ target, isBlankChar c = true)
    (hline : stringsTrim line ≠ []) :
    (base <+: line → getIndentLevel (reindentLine base target line) + getIndentLevel base =
        getIndentLevel target + getIndentLevel line) ∧
      (¬ base <+: line → getIndentLevel (reindentLine base target line) = getIndentLevel target + getIndentLevel line) := by
  unfold reindentLine
  rw [if_neg hline]
  constructor
  · intro hstart
    rw [if_pos (List.isPrefixOf_iff_prefix.mpr hstart)]
    obtain ⟨rest, rfl⟩ := hstart
    rw [List.drop_left, getIndentLevel_append htarget, getIndentLevel_append hbase]
    omega
  · intro hnot
    rw [if_neg fun hstart => hnot (List.isPrefixOf_iff_prefix.mp hstart), getIndentLevel_append htarget]

theorem stringsTrim_of_isCode {begin : Delimiter × Text} (h : IsCode begin) : stringsTrim begin.2 ≠ [] := by
  obtain ⟨-, c, hc, -⟩ := h
  intro hblank
  have hempty : begin.2.dropWhile isSpacing = [] := by
    refine List.dropWhile_eq_nil_iff.mpr fun d hd => ?_
    have hchar := mem_of_stringsTrim_eq_nil hblank d hd
    simpa [isSpacing, or_assoc] using hchar
  rw [hempty] at hc
  cases hc

/-! ## The lines of a text -/

theorem quote_of_beginnings (hquote : ∀ quote ∈ delimiter, isQuote quote = true)
    {lines : List Text} : ∀ begin ∈ beginnings delimiter lines, ∀ quote ∈ begin.1, isQuote quote = true := by
  induction lines generalizing delimiter with
  | nil =>
    intro begin hbegin
    cases hbegin
  | cons line lines ih =>
    intro begin hbegin
    rcases List.mem_cons.mp hbegin with rfl | hbegin
    · exact hquote
    · have hquoted : (Lexing.ofDelimiter delimiter).Quoted := by
        cases delimiter with
        | none => trivial
        | some quote => exact hquote quote rfl
      exact ih (codeFrom_next line 0 hquoted) begin hbegin

theorem beginnings_map {f : Text → Text} (hquote : ∀ quote ∈ delimiter, isQuote quote = true)
    (hf : ∀ delimiter : Delimiter, (∀ quote ∈ delimiter, isQuote quote = true) → ∀ line,
      (codeOutsideGdscriptLiterals (f line) delimiter).2 = (codeOutsideGdscriptLiterals line delimiter).2)
    (lines : List Text) :
    beginnings delimiter (lines.map f) = (beginnings delimiter lines).map fun begin => (begin.1, f begin.2) := by
  induction lines generalizing delimiter with
  | nil => rfl
  | cons line lines ih =>
    have hquoted : (Lexing.ofDelimiter delimiter).Quoted := by
      cases delimiter with
      | none => trivial
      | some quote => exact hquote quote rfl
    rw [List.map_cons, beginnings, beginnings, List.map_cons, hf delimiter hquote]
    congr 1
    exact ih (codeFrom_next line 0 hquoted)

theorem map_beginnings (delimiter : Delimiter) (lines : List Text) : (beginnings delimiter lines).map (·.2) = lines := by
  induction lines generalizing delimiter with
  | nil => rfl
  | cons line lines ih => rw [beginnings, List.map_cons, ih]

theorem zip_map_self {α β : Type} (l : List α) (f : α → β) : l.zip (l.map f) = l.map fun a => (a, f a) := by
  induction l with
  | nil => rfl
  | cons a l ih => rw [List.map_cons, List.zip_cons_cons, ih, List.map_cons]

/-- The first line that is not blank begins outside of literals. -/
theorem first_mem_beginnings {lines : List Text} {first : Text}
    (h : lines.find? (fun line => stringsTrim line ≠ []) = some first) : (none, first) ∈ beginnings none lines := by
  induction lines with
  | nil => cases h
  | cons line lines ih =>
    rw [beginnings]
    rw [List.find?_cons] at h
    by_cases hblank : stringsTrim line = []
    · have hinert : ∀ c ∈ line, Inert c := by
        intro c hc
        have hchar := mem_of_stringsTrim_eq_nil hblank c hc
        exact inert_of_isSpacing (by simpa [isSpacing, or_assoc] using hchar)
      have hnext := @next_blanks none line (fun quote hquote => by cases hquote) hinert []
      rw [List.append_nil] at hnext
      simp only [hblank, ne_eq, not_true_eq_false, decide_false] at h
      rw [hnext]
      exact List.mem_cons_of_mem _ (ih h)
    · simp only [hblank, ne_eq, not_false_eq_true, decide_true] at h
      cases h
      exact List.mem_cons_self

/-- A definition stays as it is where it is. -/
theorem Kept.refl (definition : Text) : Kept definition definition := by
  refine ⟨rfl, rfl, fun _ a ha b hb _ _ => ?_⟩
  have hsame : ∀ a ∈ (begun definition).zip (definition.splitOn '\n'), a.2 = a.1.2 := by
    intro a ha
    rw [← map_beginnings none (definition.splitOn '\n')] at ha
    change a ∈ (begun definition).zip ((begun definition).map (·.2)) at ha
    rw [zip_map_self] at ha
    obtain ⟨begin, -, rfl⟩ := List.mem_map.mp ha
    rfl
  rw [hsame a ha, hsame b hb]

/-! ## The definition that is moved -/

section Definition
variable {definition : Text} (hbase : baseIndent (definition.splitOn '\n') = some base)
  (htarget : ∀ c ∈ target, isBlankChar c = true) (hne : base ≠ target)
include hbase

theorem blank_of_baseIndent : ∀ c ∈ base, isBlankChar c = true := by
  obtain ⟨first, -, rfl⟩ := Option.map_eq_some_iff.mp hbase
  exact fun c hc => List.mem_takeWhile_imp hc

theorem base_of_indentedWith {c : Char} (h : IndentedWith c definition) : ∀ d ∈ base, isBlankChar d = true ∧ d = c := by
  obtain ⟨first, hfirst, rfl⟩ := Option.map_eq_some_iff.mp hbase
  have hnonblank := List.find?_some hfirst
  rw [decide_eq_true_eq] at hnonblank
  intro d hd
  exact ⟨List.mem_takeWhile_imp hd, h _ (first_mem_beginnings hfirst) rfl hnonblank d hd⟩

include htarget hne

/-- The lines of a definition that is moved. -/
theorem splitOn_reindentDefinition :
    (reindentDefinition definition target).splitOn '\n' = (definition.splitOn '\n').map (reindentLine base target) := by
  unfold reindentDefinition
  dsimp only
  rw [hbase]
  dsimp only
  rw [if_neg hne, joinLines]
  refine List.splitOn_intercalate '\n' ?_ ?_
  · intro line hline
    obtain ⟨found, hfound, rfl⟩ := List.mem_map.mp hline
    have hnewline : '\n' ∉ found := List.not_mem_of_mem_splitOn hfound
    have hblank : '\n' ∉ target := fun hmem => absurd (htarget _ hmem) (by decide)
    unfold reindentLine
    split_ifs
    · exact List.not_mem_nil
    · rw [List.mem_append, not_or]
      exact ⟨hblank, fun hmem => hnewline (List.mem_of_mem_drop hmem)⟩
    · rw [List.mem_append, not_or]
      exact ⟨hblank, hnewline⟩
  · rw [Ne, List.map_eq_nil_iff]
    exact List.splitOn_ne_nil '\n' definition

theorem begun_reindentDefinition : begun (reindentDefinition definition target) =
    (begun definition).map fun begin => (begin.1, reindentLine base target begin.2) := by
  unfold begun
  rw [splitOn_reindentDefinition hbase htarget hne]
  exact beginnings_map (fun quote hquote => by cases hquote)
    (fun delimiter hquote line => next_reindentLine (blank_of_baseIndent hbase) htarget hquote line) _

theorem zip_reindentDefinition : (begun definition).zip ((reindentDefinition definition target).splitOn '\n') =
    (begun definition).map fun begin => (begin, reindentLine base target begin.2) := by
  rw [splitOn_reindentDefinition hbase htarget hne]
  conv_lhs => rw [← map_beginnings none (definition.splitOn '\n'), List.map_map]
  exact zip_map_self _ _

theorem literals_reindentDefinition_iff :
    literals (reindentDefinition definition target) = literals definition ↔
      ∀ line ∈ begun definition, line.1.isSome →
        line.2 = [] ∨ (target = [] ∧ stringsTrim line.2 ≠ [] ∧ ¬ base <+: line.2) := by
  have hblank := blank_of_baseIndent hbase
  unfold literals
  rw [begun_reindentDefinition hbase htarget hne, List.map_map, List.map_inj_left]
  refine forall_congr' fun line => forall_congr' fun hline => ?_
  obtain ⟨delimiter, line⟩ := line
  cases delimiter with
  | none =>
    refine iff_of_true (literalOf_reindentLine_none hblank htarget line) fun hsome => ?_
    cases hsome
  | some quote =>
    have hquote := quote_of_beginnings (fun quote hquote => by cases hquote) _ hline quote rfl
    have hsome : ((some quote, line) : Delimiter × Text).1.isSome = true := rfl
    rw [forall_prop_of_true hsome]
    exact literalOf_reindentLine_iff hblank htarget hquote hne line

/-- A definition that is moved is kept where its literals and its shallower lines allow it. -/
theorem kept_iff_movable : Kept definition (reindentDefinition definition target) ↔ Movable definition base target := by
  have hblank := blank_of_baseIndent hbase
  have hzip := zip_reindentDefinition hbase htarget hne
  have hmoved : ∀ line ∈ begun definition, (line, reindentLine base target line.2) ∈
      (begun definition).zip ((reindentDefinition definition target).splitOn '\n') := by
    intro line hline
    rw [hzip]
    exact List.mem_map_of_mem hline
  constructor
  · intro h
    refine ⟨(literals_reindentDefinition_iff hbase htarget hne).mp h.literals, ?_⟩
    intro hone a ha b hb hacode hbcode hstart hnot
    have hnesting := h.nesting hone _ (hmoved a ha) _ (hmoved b hb) hacode hbcode
    obtain ⟨c, hc⟩ := hone
    have hless := getIndentLevel_lt (base_of_indentedWith hbase hc) (hc b hb hbcode.1 (stringsTrim_of_isCode hbcode)) hnot
    have hla := (getIndentLevel_reindentLine hblank htarget (stringsTrim_of_isCode hacode)).1 hstart
    have hlb := (getIndentLevel_reindentLine hblank htarget (stringsTrim_of_isCode hbcode)).2 hnot
    obtain ⟨rest, hrest⟩ := hstart
    have hlong := getIndentLevel_append hblank rest
    rw [hrest] at hlong
    dsimp only at hnesting
    omega
  · rintro ⟨hliterals, hnesting⟩
    refine ⟨?_, (literals_reindentDefinition_iff hbase htarget hne).mpr hliterals, ?_⟩
    · rw [splitOn_reindentDefinition hbase htarget hne, List.map_map]
      exact List.map_congr_left fun line _ => dropWhile_reindentLine hblank htarget line
    · intro hone a ha b hb hacode hbcode
      rw [hzip] at ha hb
      obtain ⟨a, hain, rfl⟩ := List.mem_map.mp ha
      obtain ⟨b, hbin, rfl⟩ := List.mem_map.mp hb
      dsimp only at hacode hbcode ⊢
      obtain ⟨c, hc⟩ := id hone
      have hless : ∀ line ∈ begun definition, IsCode line → ¬ base <+: line.2 →
          getIndentLevel line.2 < getIndentLevel base := fun line hline hcode hnot =>
        getIndentLevel_lt (base_of_indentedWith hbase hc) (hc line hline hcode.1 (stringsTrim_of_isCode hcode)) hnot
      have hlong : ∀ line : Delimiter × Text, base <+: line.2 → getIndentLevel base ≤ getIndentLevel line.2 := by
        rintro line ⟨rest, hrest⟩
        rw [← hrest, getIndentLevel_append hblank]
        omega
      obtain ⟨hastart, hanot⟩ := getIndentLevel_reindentLine hblank htarget (stringsTrim_of_isCode hacode)
      obtain ⟨hbstart, hbnot⟩ := getIndentLevel_reindentLine hblank htarget (stringsTrim_of_isCode hbcode)
      by_cases hbasea : base <+: a.2
      · have hla := hastart hbasea
        by_cases hbaseb : base <+: b.2
        · have hlb := hbstart hbaseb
          omega
        · have hlb := hbnot hbaseb
          have hdeep := hnesting hone a hain b hbin hacode hbcode hbasea hbaseb
          have hb' := hless b hbin hbcode hbaseb
          omega
      · have hla := hanot hbasea
        by_cases hbaseb : base <+: b.2
        · have hlb := hbstart hbaseb
          have hdeep := hnesting hone b hbin a hain hbcode hacode hbaseb hbasea
          have ha' := hless a hain hacode hbasea
          omega
        · have hlb := hbnot hbaseb
          omega

end Definition

/-- **A definition keeps the text of its literals and the nesting of its lines exactly where it is not moved, or no line
of it begins in a literal that is moved with it and no line of code is left behind.** -/
theorem reindent_iff (definition : Text) (htarget : ∀ c ∈ target, isBlankChar c = true) :
    Kept definition (reindentDefinition definition target) ↔
      ∀ base, baseIndent (definition.splitOn '\n') = some base → base = target ∨ Movable definition base target := by
  cases hbase : baseIndent (definition.splitOn '\n') with
  | none =>
    have hsame : reindentDefinition definition target = definition := by
      unfold reindentDefinition
      dsimp only
      rw [hbase]
    rw [hsame]
    exact iff_of_true (Kept.refl definition) fun base hnone => by cases hnone
  | some base =>
    by_cases hne : base = target
    · have hsame : reindentDefinition definition target = definition := by
        unfold reindentDefinition
        dsimp only
        rw [hbase]
        dsimp only
        rw [if_pos hne]
      rw [hsame]
      refine iff_of_true (Kept.refl definition) fun found hfound => ?_
      cases hfound
      exact .inl hne
    · rw [kept_iff_movable hbase htarget hne]
      constructor
      · intro h found hfound
        cases hfound
        exact .inr h
      · intro h
        exact (h base rfl).resolve_left hne

theorem reindent_iff_sample : Kept "func a():\n\tpass".toList (reindentDefinition "func a():\n\tpass".toList ['\t']) := by
  refine (reindent_iff _ (List.forall_mem_singleton.mpr rfl)).mpr fun base hbase => .inr ?_
  have hnil : base = [] := by
    have hfound : baseIndent ("func a():\n\tpass".toList.splitOn '\n') = some [] := by decide
    rw [hfound] at hbase
    exact (Option.some.inj hbase).symm
  subst hnil
  refine ⟨by decide, ?_⟩
  intro _ a _ b _ _ _ _ hnot
  exact absurd List.nil_prefix hnot

/-- The lines of a triple-quoted string move with the definition. -/
theorem not_reindent_kept : ¬ ∀ (definition target : Text), (∀ c ∈ target, isBlankChar c = true) →
    Kept definition (reindentDefinition definition target) := by
  intro h
  have hkept := (h "var s = \"\"\"\nx\"\"\"".toList ['\t'] (List.forall_mem_singleton.mpr rfl)).literals
  revert hkept
  decide

end Didi.Script
