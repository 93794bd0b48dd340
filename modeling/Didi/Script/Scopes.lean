import Didi.Script.Extent

/-!
# The scopes of a script

* `statements` : the statements of a script, each by the line it begins in; `scopes` : the statements that each of them
  stands in the block of;
* `ClassLevel` : a line between two statements of the script's own class;
* `scopes_insert` : what is inserted there leaves the scopes of the script as they were.
-/

namespace Didi.Script
open Didi.Config

/-! ## Statements -/

/-- A line that holds more than a comment. -/
def isStatement (line : Text) : Bool := stringsTrim line ≠ [] && !isComment (stringsTrim line)

/-- The lines that statements begin in: those outside of literals, brackets and joined lines. -/
def statements : Layout → List Text → List Text
  | _, [] => []
  | layout, line :: lines =>
    if layout.inside = false ∧ isStatement line = true then line :: statements (layout.read line) lines
    else statements (layout.read line) lines

/-- The statements that one at the column `limit` stands in the blocks of, among those above, the nearest first. -/
def enclosing : Nat → List Text → List Text
  | _, [] => []
  | limit, line :: above =>
    if getIndentLevel line < limit then line :: enclosing (getIndentLevel line) above else enclosing limit above

/-- Each statement, with those that it stands in the blocks of. -/
def scopesBelow : List Text → List Text → List (Text × List Text)
  | _, [] => []
  | above, line :: lines => (line, enclosing (getIndentLevel line) above) :: scopesBelow (line :: above) lines

/-- The statements of a script with their scopes. -/
def scopes (lines : List Text) : List (Text × List Text) := scopesBelow [] (statements {} lines)

/-- What the line after these begins in. -/
def layoutAfter (lines : List Text) : Layout := lines.foldl Layout.read {}

/-- Line `p` is between two complete statements of the script's own class: nothing is open there, and what follows
stands in no block. -/
structure ClassLevel (lines : List Text) (p : Nat) : Prop where
  outside : (layoutOf lines p).inside = false
  column : ∀ line ∈ (statements {} (lines.drop p)).head?, getIndentLevel line = 0

/-- The statements above line `p` and those below keep their scopes. -/
def KeepsScopes (lines : List Text) (p : Nat) (inserted : List Text) : Prop :=
  ∃ above added below, scopes lines = above ++ below ∧ above = scopes (lines.take p) ∧
    scopes (lines.take p ++ inserted ++ lines.drop p) = above ++ added ++ below

theorem statements_append (layout : Layout) (above below : List Text) :
    statements layout (above ++ below) = statements layout above ++ statements (above.foldl Layout.read layout) below := by
  induction above generalizing layout with
  | nil => rfl
  | cons line above ih =>
    rw [List.cons_append, statements, statements, ih, List.foldl_cons]
    split
    · rfl
    · rfl

theorem enclosing_zero (above : List Text) : enclosing 0 above = [] := by
  induction above with
  | nil => rfl
  | cons line above ih =>
    rw [enclosing, if_neg (Nat.not_lt_zero _)]
    exact ih

/-- Nothing above a statement at column 0 encloses one below it. -/
theorem enclosing_of_column {first : Text} (hfirst : getIndentLevel first = 0) (between above : List Text) (limit : Nat) :
    enclosing limit (between ++ first :: above) = enclosing limit (between ++ [first]) := by
  induction between generalizing limit with
  | nil =>
    rw [List.nil_append, List.nil_append, enclosing, enclosing, hfirst, enclosing_zero, enclosing]
    by_cases hlimit : 0 < limit
    · rw [if_pos hlimit, if_pos hlimit]
    · obtain rfl : limit = 0 := by omega
      rw [if_neg hlimit, if_neg hlimit, enclosing_zero, enclosing]
  | cons line between ih =>
    rw [List.cons_append, List.cons_append, enclosing, enclosing, ih, ih]

theorem scopesBelow_of_column {first : Text} (hfirst : getIndentLevel first = 0) (lines between above : List Text) :
    scopesBelow (between ++ first :: above) lines = scopesBelow (between ++ [first]) lines := by
  induction lines generalizing between with
  | nil => rfl
  | cons line lines ih =>
    rw [scopesBelow, scopesBelow, enclosing_of_column hfirst between above]
    exact congrArg _ (ih (line :: between))

/-- Statements that begin at column 0 have their scopes among themselves. -/
theorem scopesBelow_of_head {lines : List Text} (h : ∀ line ∈ lines.head?, getIndentLevel line = 0) (above : List Text) :
    scopesBelow above lines = scopesBelow [] lines := by
  cases lines with
  | nil => rfl
  | cons first lines =>
    have hfirst : getIndentLevel first = 0 := h first rfl
    rw [scopesBelow, scopesBelow, hfirst, enclosing_zero, enclosing_zero]
    exact congrArg _ (scopesBelow_of_column hfirst lines [] above)

theorem scopesBelow_append (above first second : List Text) :
    scopesBelow above (first ++ second) = scopesBelow above first ++ scopesBelow (first.reverse ++ above) second := by
  induction first generalizing above with
  | nil => rfl
  | cons line first ih =>
    rw [List.cons_append, scopesBelow, scopesBelow, ih, List.reverse_cons, List.append_assoc]
    rfl

/-- **What is inserted at class level, and leaves nothing open, changes no scope.** -/
theorem scopes_insert {lines : List Text} {p : Nat} (h : ClassLevel lines p) {inserted : List Text}
    (hclosed : (layoutAfter inserted).inside = false) : KeepsScopes lines p inserted := by
  have hafter : (lines.take p).foldl Layout.read {} = {} := eq_start_of_not_inside h.outside
  have hinserted : inserted.foldl Layout.read {} = {} := eq_start_of_not_inside hclosed
  have hlines : statements {} lines = statements {} (lines.take p) ++ statements {} (lines.drop p) := by
    conv_lhs => rw [← List.take_append_drop p lines, statements_append, hafter]
  refine ⟨_, scopesBelow (statements {} (lines.take p)).reverse (statements {} inserted),
    scopes (lines.drop p), ?_, rfl, ?_⟩
  · unfold scopes
    rw [hlines, scopesBelow_append, scopesBelow_of_head h.column]
  · unfold scopes
    rw [statements_append, statements_append, List.foldl_append, hafter, hinserted, scopesBelow_append,
      scopesBelow_append, List.append_nil, scopesBelow_of_head h.column]

theorem block_foldl_read (lines : List Text) (layout : Layout) :
    (lines.foldl Layout.read layout).block = lines.foldl BlockState.countBrackets layout.block := by
  induction lines generalizing layout with
  | nil => rfl
  | cons line lines ih => exact ih (layout.read line)

/-! ## Lines that hold no statement -/

theorem eq_dropWhile_of_stringsTrim {line : Text} {c : Char} {rest : Text} (h : stringsTrim line = c :: rest) :
    ∃ spaces more, line = spaces ++ c :: more ∧ ∀ d ∈ spaces, d ∈ [' ', '\t', '\n', '\r'] := by
  obtain ⟨closing, hclosing⟩ := List.rdropWhile_prefix isSpacing (line.dropWhile isSpacing)
  change stringsTrim line ++ closing = line.dropWhile isSpacing at hclosing
  rw [h] at hclosing
  refine ⟨line.takeWhile isSpacing, rest ++ closing, ?_, ?_⟩
  · conv_lhs => rw [← List.takeWhile_append_dropWhile (p := isSpacing) (l := line), ← hclosing]
    rfl
  · intro d hd
    simpa [isSpacing, or_assoc] using List.mem_takeWhile_imp hd

/-- A line without a statement is blank, up to its comment. -/
theorem spaces_of_not_isStatement {line : Text} (h : isStatement line = false) : ∃ spaces more, line = spaces ++ more ∧
    (∀ c ∈ spaces, c ∈ [' ', '\t', '\n', '\r']) ∧ ∀ c ∈ more.head?, c = '#' := by
  cases htrim : stringsTrim line with
  | nil =>
    exact ⟨line, [], (List.append_nil line).symm, mem_of_stringsTrim_eq_nil htrim, fun c hc => by cases hc⟩
  | cons c rest =>
    obtain rfl : '#' = c := by
      unfold isStatement isComment at h
      rw [htrim] at h
      simpa using h
    obtain ⟨spaces, more, hline, hspaces⟩ := eq_dropWhile_of_stringsTrim htrim
    exact ⟨spaces, '#' :: more, hline, hspaces, fun c hc => (Option.some.inj hc).symm⟩

/-- A line without a statement opens nothing. -/
theorem read_of_not_isStatement {line : Text} (h : isStatement line = false) : Layout.read {} line = {} := by
  have hchars : ∀ c ∈ [' ', '\t', '\n', '\r'], (isQuote c = false ∧ c ≠ '#') ∧ isOpen c = false ∧ isClose c = false ∧
      c ≠ '\\' := List.all_iff_forall_prop.mp (by decide)
  obtain ⟨spaces, more, hline, hspaces, hcomment⟩ := spaces_of_not_isStatement h
  have hmore : codeFrom 0 .code more = ([], none) := by
    cases more with
    | nil => rfl
    | cons c more => rw [codeFrom, if_pos (hcomment c rfl)]
  have hcode : codeOutsideGdscriptLiterals line none = (spaces, none) := by
    unfold codeOutsideGdscriptLiterals
    rw [Lexing.ofDelimiter, hline, codeFrom_plain fun c hc => (hchars c (hspaces c hc)).1, hmore, List.append_nil]
  unfold Layout.read BlockState.countBrackets
  dsimp only
  rw [hcode]
  dsimp only
  rw [foldl_bracketDepth _ fun c hc => ⟨(hchars c (hspaces c hc)).2.1, (hchars c (hspaces c hc)).2.2.1⟩]
  congr 1
  rw [decide_eq_false_iff_not]
  intro hlast
  exact (hchars _ (hspaces _ (List.mem_of_getLast? hlast))).2.2.2 rfl

/-- Lines without a statement leave what follows at class level or not. -/
theorem statements_of_not {above : List Text} (h : ∀ line ∈ above, isStatement line = false) (below : List Text) :
    above.foldl Layout.read {} = {} ∧ statements {} (above ++ below) = statements {} below := by
  induction above with
  | nil => exact ⟨rfl, rfl⟩
  | cons line above ih =>
    have hline := h line List.mem_cons_self
    obtain ⟨hlayout, hbelow⟩ := ih fun found hfound => h found (List.mem_cons_of_mem _ hfound)
    rw [List.foldl_cons, List.cons_append, statements, read_of_not_isStatement hline, hline]
    exact ⟨hlayout, hbelow⟩

end Didi.Script
