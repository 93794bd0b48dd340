import Didi.Script.Placement

/-!
# A patch that is repeated

* `matchesFrom_append`, `matchesFrom_shift` : the lines that declare a symbol, part by part;
* `foundBelow` : those of a definition, below the lines it is put below;
* `Agree` : what stands above leaves the lines below where they are;
* `OneBlock` : a definition that is one block;
* `blockLength_append`, `replaceAt_parts` : the lines of a patched script that the same patch takes;
* `findDeclarationLines_alone`, `findDeclarationLines_orEmpty` : what is found in a script of three parts.
-/

namespace Didi.Script
open Didi.Config

/-! ## Part by part -/

section
variable (symbolName : Text) (symbolType : SymbolKind)

theorem matchesFrom_append (above : List Text) (index : Nat) (lines below : List Text) :
    matchesFrom symbolName symbolType above index (lines ++ below) =
      matchesFrom symbolName symbolType above index lines ++
        matchesFrom symbolName symbolType (lines.reverse ++ above) (index + lines.length) below := by
  induction lines generalizing above index with
  | nil => rfl
  | cons line lines ih =>
    have hrest := ih (line :: above) (index + 1)
    rw [List.cons_append, matchesFrom, matchesFrom, hrest, List.reverse_cons, List.append_assoc, List.length_cons,
      Nat.add_right_comm index 1, ← Nat.add_assoc]
    dsimp only
    split
    · rfl
    · rfl

/-- The lines are numbered from where they begin. -/
theorem matchesFrom_shift (above : List Text) (start index : Nat) (lines : List Text) :
    matchesFrom symbolName symbolType above (start + index) lines =
      (matchesFrom symbolName symbolType above index lines).map fun found => (start + found.1, found.2) := by
  induction lines generalizing above index with
  | nil => rfl
  | cons line lines ih =>
    rw [matchesFrom, matchesFrom, Nat.add_assoc, ih]
    dsimp only
    split
    · rfl
    · rfl

theorem matchesFrom_eq_nil_iff (above : List Text) (index : Nat) (lines : List Text) :
    matchesFrom symbolName symbolType above index lines = [] ↔
      ∀ line ∈ lines, declaresHere symbolName symbolType line = false := by
  induction lines generalizing above index with
  | nil => exact iff_of_true rfl fun line hline => absurd hline List.not_mem_nil
  | cons line lines ih =>
    rw [matchesFrom, List.forall_mem_cons, ← ih (line :: above) (index + 1)]
    dsimp only
    by_cases hline : declaresHere symbolName symbolType line = true
    · rw [if_pos hline]
      exact iff_of_false (List.cons_ne_nil _ _) fun h => Bool.false_ne_true (h.1.symm.trans hline)
    · rw [if_neg hline]
      exact (and_iff_right (Bool.not_eq_true _ ▸ hline)).symm

/-- The lines of a part that declare the symbol, as a patch finds them below the lines `above`. -/
def foundBelow (above : List Text) (lines : List Text) : List Nat :=
  let found := matchesFrom symbolName symbolType above 0 lines
  let members := found.filter Prod.snd
  (if members = [] then found else members).map Prod.fst

end

/-! ## What stands above -/

/-- Lines below find the same declaration around them. -/
def Agree (above above' : List Text) : Prop := ∀ limit, enclosingDeclaration limit above = enclosingDeclaration limit above'

theorem agree_blank {lines : List Text} (h : ∀ line ∈ lines, stringsTrim line = []) (above : List Text) :
    Agree (lines ++ above) above := by
  intro limit
  induction lines with
  | nil => rfl
  | cons line lines ih =>
    obtain ⟨hline, hlines⟩ := List.forall_mem_cons.mp h
    rw [List.cons_append, enclosingDeclaration, if_pos hline, ih hlines]

theorem Agree.cons {above above' : List Text} (h : Agree above above') (line : Text) :
    Agree (line :: above) (line :: above') := by
  intro limit
  rw [enclosingDeclaration, enclosingDeclaration, h, h]

section
variable (symbolName : Text) (symbolType : SymbolKind)

theorem matchesFrom_agree {above above' : List Text} (h : Agree above above') (index : Nat) (lines : List Text) :
    matchesFrom symbolName symbolType above index lines = matchesFrom symbolName symbolType above' index lines := by
  induction lines generalizing above above' index with
  | nil => rfl
  | cons line lines ih =>
    rw [matchesFrom, matchesFrom, ih (h.cons line), h]

/-- A blank line declares nothing. -/
theorem declaresHere_blank {line : Text} (hblank : stringsTrim line = []) :
    declaresHere symbolName symbolType line = false := by
  unfold declaresHere
  split
  · have hspaces : line.dropWhile isSpace = [] := by
      refine List.dropWhile_eq_nil_iff.mpr fun c hc => ?_
      have hchars : ∀ c ∈ [' ', '\t', '\n', '\r'], isSpace c = true := List.all_iff_forall_prop.mp (by decide)
      exact hchars c (mem_of_stringsTrim_eq_nil hblank c hc)
    unfold matchesInnerClass
    rw [hspaces]
    rfl
  · have hstatement : isStatement line = false := by
      unfold isStatement
      simp [hblank]
    rw [parseDeclaration_of_not_isStatement hstatement]

end

/-- The first line that is not blank stands at the column or left of it. -/
def BeginsAt (base : Nat) (lines : List Text) : Prop :=
  ∀ line ∈ lines.find? fun line => decide (stringsTrim line ≠ []), getIndentLevel line ≤ base

/-! ## The block in its place -/

/-- The brackets and literals that lines leave open. -/
def openAfter (state : BlockState) (lines : List Text) : BlockState := lines.foldl BlockState.countBrackets state

theorem eq_start_of_not_continued {state : BlockState} (h : state.continued = false) : state = {} := by
  have hlayout : ({ block := state, joined := false } : Layout).inside = false := by
    unfold Layout.inside
    rw [h]
    rfl
  exact congrArg Layout.block (eq_start_of_not_inside hlayout)

/-- A block ends where what stands below adds nothing to it. -/
theorem blockLength_append (base : Nat) (lines : List Text) (state : BlockState) {below : List Text}
    (h : blockLength base (openAfter state lines) below = 0) :
    blockLength base state (lines ++ below) = blockLength base state lines := by
  induction lines generalizing state with
  | nil => exact h
  | cons line lines ih =>
    have hrest := ih (state.countBrackets line) h
    rw [List.cons_append, blockLength, blockLength]
    by_cases hblank : stringsTrim line = [] ∧ state.continued = false
    · rw [countBrackets_blank hblank.1 hblank.2] at hrest
      rw [if_pos hblank, if_pos hblank, hrest]
    · rw [if_neg hblank, if_neg hblank, hrest]

theorem blockLength_of_beginsAt {base : Nat} {lines : List Text} (h : BeginsAt base lines) :
    blockLength base {} lines = 0 := by
  induction lines with
  | nil => rfl
  | cons line lines ih =>
    unfold BeginsAt at h
    rw [List.find?_cons] at h
    rw [blockLength]
    by_cases hline : stringsTrim line = []
    · have hnot : decide (stringsTrim line ≠ []) = false := decide_eq_false (not_not_intro hline)
      rw [hnot] at h
      rw [if_pos ⟨hline, rfl⟩, ih h]
      rfl
    · have hyes : decide (stringsTrim line ≠ []) = true := decide_eq_true hline
      rw [hyes] at h
      rw [if_neg fun hblank => hline hblank.1, if_pos ⟨h line rfl, rfl⟩]

/-- Blank lines add nothing, whatever is open. -/
theorem blockLength_of_blank (base : Nat) {lines : List Text} (h : ∀ line ∈ lines, stringsTrim line = [])
    (state : BlockState) : blockLength base state lines = 0 := by
  induction lines generalizing state with
  | nil => rfl
  | cons line lines ih =>
    obtain ⟨hline, hlines⟩ := List.forall_mem_cons.mp h
    have hnot : decide (stringsTrim line ≠ []) = false := decide_eq_false (not_not_intro hline)
    rw [blockLength, ih hlines, ih hlines, hnot]
    split
    · rfl
    · split
      · rfl
      · rfl

/-- A definition that is one block: what stands above its declaration goes with it, and so does each line below, up to
the last. -/
structure OneBlock (lines below : List Text) (k : Nat) : Prop where
  lt : k < lines.length
  preamble : ∀ line ∈ lines.take k, isPreamble line = true
  block : blockLength (getIndentLevel (lines.getD k [])) (BlockState.countBrackets {} (lines.getD k []))
    (lines.drop (k + 1)) = (lines.drop (k + 1)).length
  closed : (openAfter (BlockState.countBrackets {} (lines.getD k [])) (lines.drop (k + 1))).continued = false ∨
    ∀ line ∈ below, stringsTrim line = []

theorem OneBlock.blockLength_eq {lines below : List Text} {k : Nat} (h : OneBlock lines below k)
    (hbelow : BeginsAt (getIndentLevel (lines.getD k [])) below) :
    blockLength (getIndentLevel (lines.getD k [])) (BlockState.countBrackets {} (lines.getD k []))
      (lines.drop (k + 1) ++ below) = (lines.drop (k + 1)).length := by
  rw [blockLength_append, h.block]
  rcases h.closed with hclosed | hblank
  · rw [eq_start_of_not_continued hclosed]
    exact blockLength_of_beginsAt hbelow
  · exact blockLength_of_blank _ hblank _

/-! ## The lines that a patch takes -/

/-- How many lines above a declaration a patch takes, and how many below. -/
def spanAbove (lines : List Text) (i : Nat) : Nat := preambleLength (lines.take i).reverse

def spanBelow (lines : List Text) (i : Nat) : Nat :=
  blockLength (getIndentLevel (lines.getD i [])) (BlockState.countBrackets {} (lines.getD i [])) (lines.drop (i + 1))

theorem replaceAt_eq (lines : List Text) (i : Nat) (newDefinition : Text) :
    (replaceAt lines i newDefinition).sourceText = replacedText lines (i - spanAbove lines i)
      (i + spanBelow lines i + 1) newDefinition (indentOf (lines.getD i [])) := by
  unfold replaceAt spanBelow
  dsimp only
  rw [blockEnd_eq]
  congr 1
  split
  · rename_i hzero
    rw [hzero]
  · omega

theorem dropNewline_newline (text : Text) :
    text ++ (if text.getLast? = some '\n' then [] else ['\n']) = dropNewline text ++ ['\n'] := by
  unfold dropNewline
  split
  · rename_i hlast
    rw [List.append_nil, List.dropLast_append_getLast? _ hlast]
  · rfl

/-- The lines of a definition at an indentation, as a patch writes them. -/
def linesAt (newDefinition indent : Text) : List Text :=
  (dropNewline (reindentDefinition newDefinition indent)).splitOn '\n'

theorem replacedText_parts (above old below : List Text) (newDefinition indent : Text) :
    replacedText (above ++ old ++ below) above.length (above.length + old.length) newDefinition indent =
      joinLines (above ++ linesAt newDefinition indent ++ orEmpty below) := by
  unfold replacedText linesAt
  dsimp only
  have habove : (above ++ old ++ below).take above.length = above := by
    rw [List.append_assoc, List.take_left]
  have hbelow : (above ++ old ++ below).drop (above.length + old.length) = below := by
    rw [← List.length_append, List.drop_left]
  rw [habove, hbelow, List.append_assoc (endLines above), dropNewline_newline, joinLines_around, newline_orEmpty]
  simp

/-- Where a definition stands in one block, the same patch writes the same lines. -/
theorem replaceAt_parts {above lines below : List Text} {newDefinition : Text} {k : Nat} (h : OneBlock lines below k)
    (hbelow : BeginsAt (getIndentLevel (lines.getD k [])) below) (hne : below ≠ [])
    (habove : ∀ line ∈ above.getLast?, isPreamble line = false)
    (hlines : linesAt newDefinition (indentOf (lines.getD k [])) = lines) :
    (replaceAt (above ++ lines ++ below) (above.length + k) newDefinition).sourceText =
      joinLines (above ++ lines ++ below) := by
  have hk := h.lt
  have hline : (above ++ lines ++ below).getD (above.length + k) [] = lines.getD k [] := by
    rw [List.getD_eq_getElem?_getD, List.append_assoc, List.getElem?_append_right (Nat.le_add_right _ _),
      Nat.add_sub_cancel_left, List.getElem?_append_left hk, ← List.getD_eq_getElem?_getD]
  have hspanAbove : spanAbove (above ++ lines ++ below) (above.length + k) = k := by
    have htake : (above ++ lines ++ below).take (above.length + k) = above ++ lines.take k := by
      rw [List.append_assoc, List.take_length_add_append, List.take_append_of_le_length hk.le]
    unfold spanAbove preambleLength
    rw [htake, List.reverse_append, List.takeWhile_append_of_pos fun line hline =>
      h.preamble line (List.mem_reverse.mp hline)]
    have hstop : above.reverse.takeWhile isPreamble = [] := by
      cases hreverse : above.reverse with
      | nil => rfl
      | cons line rest =>
        have hlast : above.getLast? = some line := by
          rw [← List.head?_reverse, hreverse]
          rfl
        exact List.takeWhile_cons_of_neg (by rw [habove line hlast]; exact Bool.false_ne_true)
    rw [hstop, List.append_nil, List.length_reverse, List.length_take_of_le hk.le]
  have hspanBelow : spanBelow (above ++ lines ++ below) (above.length + k) = (lines.drop (k + 1)).length := by
    have hdrop : (above ++ lines ++ below).drop (above.length + k + 1) = lines.drop (k + 1) ++ below := by
      rw [List.append_assoc, Nat.add_assoc, List.drop_length_add_append, List.drop_append_of_le_length (by omega)]
    unfold spanBelow
    rw [hline, hdrop]
    exact h.blockLength_eq hbelow
  have hlast : above.length + k + (lines.drop (k + 1)).length + 1 = above.length + lines.length := by
    rw [List.length_drop]
    omega
  rw [replaceAt_eq, hline, hspanAbove, hspanBelow, hlast, Nat.add_sub_cancel, replacedText_parts, hlines]
  unfold orEmpty
  rw [if_neg hne]

/-! ## The lines that declare the symbol -/

section Found
variable (symbolName : Text) (symbolType : SymbolKind) {above old lines below : List Text}

/-- What is found in a script of three parts. -/
theorem matchesFrom_parts (above lines below : List Text) :
    matchesFrom symbolName symbolType [] 0 (above ++ lines ++ below) =
      matchesFrom symbolName symbolType [] 0 above ++
        ((matchesFrom symbolName symbolType above.reverse 0 lines).map fun found => (above.length + found.1, found.2)) ++
          matchesFrom symbolName symbolType (lines.reverse ++ above.reverse) (above.length + lines.length) below := by
  rw [matchesFrom_append, matchesFrom_append, List.append_nil, Nat.zero_add, ← Nat.add_zero above.length,
    matchesFrom_shift, Nat.add_zero, List.reverse_append, List.append_nil, List.length_append, Nat.zero_add]

theorem filter_shift (start : Nat) (found : List (Nat × Bool)) :
    (found.map fun one => (start + one.1, one.2)).filter Prod.snd =
      (found.filter Prod.snd).map fun one => (start + one.1, one.2) := by
  rw [List.filter_map]
  rfl

/-- Where the parts around a definition declare the symbol no more, what is found is found in the definition. -/
theorem findDeclarationLines_alone (habove : ∀ line ∈ above, declaresHere symbolName symbolType line = false)
    (hbelow : ∀ line ∈ below, declaresHere symbolName symbolType line = false) :
    findDeclarationLines (above ++ lines ++ below) symbolName symbolType =
      (foundBelow symbolName symbolType above.reverse lines).map (above.length + ·) := by
  unfold findDeclarationLines foundBelow
  dsimp only
  rw [matchesFrom_parts, (matchesFrom_eq_nil_iff symbolName symbolType [] 0 above).mpr habove,
    (matchesFrom_eq_nil_iff symbolName symbolType _ _ below).mpr hbelow, List.nil_append, List.append_nil, filter_shift]
  by_cases hnone : (matchesFrom symbolName symbolType above.reverse 0 lines).filter Prod.snd = []
  · rw [if_pos (by rw [hnone]; rfl), if_pos hnone, List.map_map, List.map_map]
    rfl
  · rw [if_neg (by rwa [List.map_eq_nil_iff]), if_neg hnone, List.map_map, List.map_map]
    rfl

/-- An empty line at the end changes nothing of what is found. -/
theorem findDeclarationLines_orEmpty (above below : List Text) :
    findDeclarationLines (above ++ orEmpty below) symbolName symbolType =
      findDeclarationLines (above ++ below) symbolName symbolType := by
  unfold orEmpty
  split
  · rename_i hbelow
    have hempty := (matchesFrom_eq_nil_iff symbolName symbolType above.reverse above.length [[]]).mpr fun line hline => by
      rw [List.mem_singleton.mp hline]
      exact declaresHere_blank symbolName symbolType rfl
    unfold findDeclarationLines
    rw [hbelow, List.append_nil, matchesFrom_append, List.append_nil, Nat.zero_add, hempty, List.append_nil]
  · rfl

end Found

end Didi.Script
